import Gatehouse.Proofs.Json.Order
import Gatehouse.Proofs.Store.Index
import Gatehouse.Proofs.Store.Paging
import Mathlib.Data.List.Perm.Subperm

/-!
# What sorting needs of the values

The entries of an index are compared by the values of a field, and by turns where the values say nothing.

1. **Two entries.**  Turning a comparison around turns its answer around, whatever the values
   (`entryOrder_swap`), and no two entries of an index have the same place (`IsOrdered.eq_of_entryOrder`).
2. **Three entries.**  The comparison need not be transitive.  A value without an order to two others
   goes with each of them by turns, and these need not stand as the turns do.  It is transitive whatever
   the turns exactly if the values alone are (`forall_isStrict_iff`), and so they are if all are of one
   kind (`SortBy.IsUniform.isTransitive`).
3. **Answers.**  Where the comparison is a strict total order there is one list of the matches that
   ascends.  So an answer does not depend on how the index lists its entries (`Sorts`).
-/

namespace Gatehouse.Store

/-! ## Values -/

namespace SortBy

variable {s : SortBy} {sources : List Json}

/-- What a sort compares of two values that are there. -/
theorem compare_of_some {a b x y : Json} (ha : Json.lookup? s.path a = some x)
    (hb : Json.lookup? s.path b = some y) :
    s.compare a b = if s.descending then (x.order y).swap else x.order y := by
  rw [compare, ha, hb]
  rfl

theorem compare_swap (s : SortBy) (a b : Json) : s.compare a b = (s.compare b a).swap := by
  cases ha : Json.lookup? s.path a with
  | none => cases hb : Json.lookup? s.path b <;> simp [compare, ha, hb]
  | some x =>
    cases hb : Json.lookup? s.path b with
    | none => simp [compare, ha, hb]
    | some y =>
      rw [compare_of_some ha hb, compare_of_some hb ha, Json.order_swap x y]
      split <;> rfl

theorem not_isLE_of_lt {a b : Json} (h : s.compare a b = .lt) : ¬ (s.compare b a).isLE = true := by
  rw [s.compare_swap, h]
  decide

/-- The order of sources by a sort is transitive. -/
def IsTransitive (s : SortBy) (sources : List Json) : Prop :=
  ∀ a ∈ sources, ∀ b ∈ sources, ∀ c ∈ sources, (s.compare a b).isLE = true →
    (s.compare b c).isLE = true → (s.compare a c).isLE = true

/-- The values that sources have in the field of a sort are of one kind. -/
def IsUniform (s : SortBy) (sources : List Json) : Prop :=
  ∃ kind : Json.Kind, ∀ a ∈ sources, ∀ x, Json.lookup? s.path a = some x → x.kind = kind

/-- **Values of one kind are sorted transitively.**  A source without the field is after all the others,
whichever way these go. -/
theorem IsUniform.isTransitive (h : s.IsUniform sources) : s.IsTransitive sources := by
  obtain ⟨kind, hkind⟩ := h
  intro a ha b hb c hc hab hbc
  cases hz : Json.lookup? s.path c with
  | none => cases hx : Json.lookup? s.path a <;> simp [compare, hx, hz]
  | some z =>
    cases hy : Json.lookup? s.path b with
    | none => simp [compare, hy, hz] at hbc
    | some y =>
      cases hx : Json.lookup? s.path a with
      | none => simp [compare, hx, hy] at hab
      | some x =>
        have hxy : x.kind = y.kind := (hkind a ha x hx).trans (hkind b hb y hy).symm
        have hyz : y.kind = z.kind := (hkind b hb y hy).trans (hkind c hc z hz).symm
        rw [compare_of_some hx hy] at hab
        rw [compare_of_some hy hz] at hbc
        rw [compare_of_some hx hz]
        split at hab
        · rename_i hdescending
          rw [if_pos hdescending, ← Json.order_swap] at hbc ⊢
          rw [← Json.order_swap] at hab
          exact Json.order_trans hyz.symm hxy.symm hbc hab
        · rename_i hascending
          rw [if_neg hascending] at hbc ⊢
          exact Json.order_trans hxy hyz hab hbc

end SortBy

/-! ## Entries -/

namespace Index

variable {i : Index} {turns : Nat} {sort? : Option SortBy} {s : SortBy}

theorem entryOrder_none (a b : Entry) : entryOrder none a b = compare a.turn b.turn := rfl

theorem entryOrder_some (s : SortBy) (a b : Entry) : entryOrder (some s) a b =
    (s.compare a.document.source b.document.source).then (compare a.turn b.turn) := rfl

theorem entryOrder_swap (sort? : Option SortBy) (a b : Entry) :
    entryOrder sort? a b = (entryOrder sort? b a).swap := by
  cases sort? with
  | none => rw [entryOrder_none, entryOrder_none, Nat.compare_swap]
  | some s => rw [entryOrder_some, entryOrder_some, Ordering.swap_then, Nat.compare_swap,
      ← SortBy.compare_swap]

theorem entryOrder_self (sort? : Option SortBy) (a : Entry) : entryOrder sort? a a = .eq := by
  have hswap := entryOrder_swap sort? a a
  cases hself : entryOrder sort? a a with
  | eq => rfl
  | _ =>
    rw [hself] at hswap
    contradiction

/-- **Two entries of an index never have the same place.** -/
theorem IsOrdered.eq_of_entryOrder (h : i.IsOrdered turns) {a b : Entry} (ha : a ∈ i.entries)
    (hb : b ∈ i.entries) (hab : entryOrder sort? a b = .eq) : a = b :=
  h.eq_of_turn ha hb (Nat.compare_eq_eq.1 (Ordering.then_eq_eq.1 hab).2)

/-- The comparison of entries is a strict total order on some of them. -/
structure IsStrict (sort? : Option SortBy) (es : List Entry) : Prop where
  swap : ∀ a ∈ es, ∀ b ∈ es, entryOrder sort? a b = (entryOrder sort? b a).swap
  distinct : ∀ a ∈ es, ∀ b ∈ es, entryOrder sort? a b = .eq → a = b
  trans : ∀ a ∈ es, ∀ b ∈ es, ∀ c ∈ es, entryOrder sort? a b = .lt → entryOrder sort? b c = .lt →
    entryOrder sort? a c = .lt

theorem IsStrict.isLE_trans {es : List Entry} (h : IsStrict sort? es) {a b c : Entry} (ha : a ∈ es)
    (hb : b ∈ es) (hc : c ∈ es) (hab : (entryOrder sort? a b).isLE = true)
    (hbc : (entryOrder sort? b c).isLE = true) : (entryOrder sort? a c).isLE = true := by
  cases hcase : entryOrder sort? a b with
  | gt => simp [hcase] at hab
  | eq => exact h.distinct a ha b hb hcase ▸ hbc
  | lt =>
    cases hcase' : entryOrder sort? b c with
    | gt => simp [hcase'] at hbc
    | eq => exact h.distinct b hb c hc hcase' ▸ hab
    | lt =>
      rw [h.trans a ha b hb c hc hcase hcase']
      rfl

theorem IsStrict.subset {es fs : List Entry} (h : IsStrict sort? fs) (hsub : es ⊆ fs) : IsStrict sort? es where
  swap a ha b hb := h.swap a (hsub ha) b (hsub hb)
  distinct a ha b hb := h.distinct a (hsub ha) b (hsub hb)
  trans a ha b hb c hc := h.trans a (hsub ha) b (hsub hb) c (hsub hc)

/-- Without a sort the turns are compared. -/
theorem IsOrdered.isStrict_none (h : i.IsOrdered turns) : IsStrict none i.entries where
  swap a _ b _ := entryOrder_swap none a b
  distinct _ ha _ hb := h.eq_of_entryOrder ha hb
  trans a _ b _ c _ hab hbc := by
    rw [entryOrder_none, Nat.compare_eq_lt] at hab hbc ⊢
    exact Nat.lt_trans hab hbc

theorem entryOrder_some_eq_lt {a b : Entry} : entryOrder (some s) a b = .lt ↔
    s.compare a.document.source b.document.source = .lt ∨
      s.compare a.document.source b.document.source = .eq ∧ a.turn < b.turn := by
  rw [entryOrder_some, Ordering.then_eq_lt, Nat.compare_eq_lt]

/-- **What is transitive without turns is so with them.**  Entries that go by turns have the same place. -/
theorem IsOrdered.isStrict_of_isTransitive (h : i.IsOrdered turns)
    (hs : s.IsTransitive (i.entries.map fun e => e.document.source)) : IsStrict (some s) i.entries where
  swap a _ b _ := entryOrder_swap (some s) a b
  distinct _ ha _ hb := h.eq_of_entryOrder ha hb
  trans a ha b hb c hc hab hbc := by
    have ha' := List.mem_map_of_mem (f := fun e : Entry => e.document.source) ha
    have hb' := List.mem_map_of_mem (f := fun e : Entry => e.document.source) hb
    have hc' := List.mem_map_of_mem (f := fun e : Entry => e.document.source) hc
    rw [entryOrder_some_eq_lt] at hab hbc ⊢
    have hle : ∀ {x y : Json} {p : Prop}, s.compare x y = .lt ∨ s.compare x y = .eq ∧ p →
        (s.compare x y).isLE = true := by
      rintro x y p (hxy | ⟨hxy, -⟩) <;> rw [hxy] <;> rfl
    have hac := hs _ ha' _ hb' _ hc' (hle hab) (hle hbc)
    cases hcase : s.compare a.document.source c.document.source with
    | lt => exact .inl rfl
    | gt => simp [hcase] at hac
    | eq =>
      -- the three have one place, so both steps were made by turns
      have hca : (s.compare c.document.source a.document.source).isLE = true := by
        rw [s.compare_swap, hcase]
        rfl
      have hba := hs _ hb' _ hc' _ ha' (hle hbc) hca
      have hcb := hs _ hc' _ ha' _ hb' hca (hle hab)
      have hturn := (hab.resolve_left fun hlt => SortBy.not_isLE_of_lt hlt hba).2
      have hturn' := (hbc.resolve_left fun hlt => SortBy.not_isLE_of_lt hlt hcb).2
      exact .inr ⟨rfl, Nat.lt_trans hturn hturn'⟩

/-- Three sources in the order of their creation. -/
def ofThree (a b c : Json) : Index :=
  ⟨[⟨3, "c", c, none⟩, ⟨2, "b", b, none⟩, ⟨1, "a", a, none⟩]⟩

theorem isOrdered_ofThree (a b c : Json) : (ofThree a b c).IsOrdered 3 where
  descending := by simp [ofThree]
  turn_le := by simp [ofThree]
  ids := by simp [ofThree]

/-- **The comparison is strict whatever the turns if and only if the values alone are transitive.** -/
theorem forall_isStrict_iff {sources : List Json} :
    (∀ (i : Index) (turns : Nat), i.IsOrdered turns → (∀ e ∈ i.entries, e.document.source ∈ sources) →
      IsStrict (some s) i.entries) ↔ s.IsTransitive sources := by
  constructor
  · intro hstrict a ha b hb c hc hab hbc
    have hall := hstrict (ofThree a b c) 3 (isOrdered_ofThree a b c) (by simp [ofThree, ha, hb, hc])
    have hlt : ∀ {x y : Entry}, (s.compare x.document.source y.document.source).isLE = true →
        x.turn < y.turn → entryOrder (some s) x y = .lt := by
      intro x y hxy hturn
      rw [entryOrder_some_eq_lt]
      cases hcase : s.compare x.document.source y.document.source <;> simp_all
    have hac := hall.trans ⟨1, "a", a, none⟩ (by simp [ofThree]) ⟨2, "b", b, none⟩ (by simp [ofThree])
      ⟨3, "c", c, none⟩ (by simp [ofThree]) (hlt hab Nat.one_lt_two) (hlt hbc (Nat.lt_succ_self 2))
    rcases entryOrder_some_eq_lt.1 hac with hac | ⟨hac, -⟩ <;> rw [hac] <;> rfl
  · intro hs i turns hi hsources
    refine hi.isStrict_of_isTransitive fun a ha b hb c hc => ?_
    have hmem : ∀ x ∈ i.entries.map (fun e => e.document.source), x ∈ sources := by
      intro x hx
      obtain ⟨e, he, rfl⟩ := List.mem_map.1 hx
      exact hsources e he
    exact hs a (hmem a ha) b (hmem b hb) c (hmem c hc)

/-! ## Answers -/

/-- The entries that a query selects. -/
def matching (i : Index) (q : Query) : List Entry := i.entries.filter fun e => q.selects e.document

/-- The answers to a search are sorted. -/
structure Sorts (i : Index) (r : SearchRequest) : Prop where
  /-- The order in which the index lists its entries does not matter. -/
  same : ∀ j : Index, j.entries.Perm i.entries → j.search r = i.search r
  /-- Each hit is less than all that come behind it. -/
  ascending : ∀ found, i.search r = .ok found → ∃ es : List Entry, (∀ e ∈ es, e ∈ i.matching r.query) ∧
    es.map Entry.document = found.hits ∧ es.Pairwise fun a b => entryOrder r.sort? a b = .lt

theorem IsOrdered.nodup (h : i.IsOrdered turns) : i.entries.Nodup :=
  h.ids.of_map _

/-- **Strictly ordered entries are sorted so that each is less than all behind it.** -/
theorem IsStrict.pairwise_mergeSort {es : List Entry} (h : IsStrict sort? es) (hnodup : es.Nodup) :
    (es.mergeSort fun a b => (entryOrder sort? a b).isLE).Pairwise fun a b => entryOrder sort? a b = .lt := by
  -- the order is known on the entries alone, so it is these that are sorted
  have hattach := List.map_mergeSort (l := es.attach) (f := Subtype.val)
    (r := fun a b => (entryOrder sort? a.1 b.1).isLE) (s := fun a b => (entryOrder sort? a b).isLE)
    fun _ _ _ _ => rfl
  rw [List.attach_map_subtype_val] at hattach
  have hle : (es.mergeSort fun a b => (entryOrder sort? a b).isLE).Pairwise
      fun a b => (entryOrder sort? a b).isLE = true := by
    rw [← hattach, List.pairwise_map]
    refine List.pairwise_mergeSort ?_ ?_ _
    · rintro ⟨a, ha⟩ ⟨b, hb⟩ ⟨c, hc⟩ hab hbc
      exact h.isLE_trans ha hb hc hab hbc
    · rintro ⟨a, ha⟩ ⟨b, hb⟩
      rw [h.swap b hb a ha]
      cases entryOrder sort? a b <;> rfl
  have hdistinct : (es.mergeSort fun a b => (entryOrder sort? a b).isLE).Nodup :=
    (List.mergeSort_perm _ _).symm.nodup hnodup
  refine (hle.and hdistinct).imp_of_mem fun {a b} ha hb hab => ?_
  cases hcase : entryOrder sort? a b with
  | lt => rfl
  | eq => exact absurd (h.distinct a (List.mem_mergeSort.1 ha) b (List.mem_mergeSort.1 hb) hcase) hab.2
  | gt => simp [hcase] at hab

/-- Strictly ordered entries are sorted in one way. -/
theorem IsStrict.mergeSort_eq {es fs : List Entry} (h : IsStrict sort? es) (hnodup : es.Nodup)
    (hperm : fs.Perm es) : (fs.mergeSort fun a b => (entryOrder sort? a b).isLE) =
      es.mergeSort fun a b => (entryOrder sort? a b).isLE := by
  have hfs : IsStrict sort? fs := h.subset hperm.subset
  refine @List.Perm.eq_of_pairwise _ (fun a b => entryOrder sort? a b = .lt) _ _ ?_
    (hfs.pairwise_mergeSort (hperm.symm.nodup hnodup)) (h.pairwise_mergeSort hnodup)
    ((List.mergeSort_perm _ _).trans (hperm.trans (List.mergeSort_perm _ _).symm))
  intro a b _ _ hab hba
  rw [entryOrder_swap, hba] at hab
  contradiction

/-- **A search whose matches are strictly ordered sorts them.** -/
theorem IsOrdered.sorts (h : i.IsOrdered turns) {r : SearchRequest}
    (hstrict : IsStrict r.sort? (i.matching r.query)) : i.Sorts r where
  same j hperm := by
    have hmatching : (j.matching r.query).Perm (i.matching r.query) := hperm.filter _
    have hselect : j.select r.query r.sort? = i.select r.query r.sort? :=
      congrArg (List.map Entry.document) (hstrict.mergeSort_eq (h.nodup.filter _) hmatching)
    rw [search_eq, search_eq, hselect]
  ascending found hfound := by
    rw [search_eq] at hfound
    cases hstart : offset r.pageToken with
    | error e =>
      rw [hstart] at hfound
      contradiction
    | ok start =>
      rw [hstart] at hfound
      cases hfound
      have hsorted := hstrict.pairwise_mergeSort (h.nodup.filter _)
      have hsublist : (page r.pageSize (i.select r.query r.sort?) start).1.Sublist
          (i.select r.query r.sort?) := by
        unfold page
        split
        · exact List.drop_sublist _ _
        · exact (List.take_sublist _ _).trans (List.drop_sublist _ _)
      obtain ⟨es, hes, hmap⟩ := List.sublist_map_iff.1 hsublist
      exact ⟨es, fun e he => List.mem_mergeSort.1 (hes.subset he), hmap.symm, hsorted.sublist hes⟩

/-- **Entries that can be put in a row where each is less than all behind it are strictly ordered**: to be less
is to stand before. -/
theorem isStrict_of_pairwise {es : List Entry} (h : es.Pairwise fun a b => entryOrder sort? a b = .lt) :
    IsStrict sort? es := by
  have hplace : ∀ {m n : Nat} (hm : m < es.length) (hn : n < es.length),
      entryOrder sort? es[m] es[n] = .lt ∨ entryOrder sort? es[m] es[n] = .eq → m ≤ n := by
    intro m n hm hn hmn
    refine Nat.le_of_not_lt fun hlt => ?_
    rw [entryOrder_swap, List.pairwise_iff_getElem.1 h n m hn hm hlt] at hmn
    simp at hmn
  refine ⟨fun a _ b _ => entryOrder_swap sort? a b, fun a ha b hb hab => ?_, fun a ha b hb c hc hab hbc => ?_⟩
  · obtain ⟨m, hm, rfl⟩ := List.getElem_of_mem ha
    obtain ⟨n, hn, rfl⟩ := List.getElem_of_mem hb
    have hba : entryOrder sort? es[n] es[m] = .eq := by
      rw [entryOrder_swap, hab]
      rfl
    simp only [Nat.le_antisymm (hplace hm hn (.inr hab)) (hplace hn hm (.inr hba))]
  · obtain ⟨l, hl, rfl⟩ := List.getElem_of_mem ha
    obtain ⟨m, hm, rfl⟩ := List.getElem_of_mem hb
    obtain ⟨n, hn, rfl⟩ := List.getElem_of_mem hc
    have hne : l ≠ m := by
      rintro rfl
      rw [entryOrder_self] at hab
      contradiction
    have hlm := hplace hl hm (.inl hab)
    have hmn := hplace hm hn (.inl hbc)
    exact List.pairwise_iff_getElem.1 h l n hl hn (by omega)

/-- The matches are strictly ordered if one page of all of them is sorted. -/
theorem Sorts.isStrict {r : SearchRequest} (hsorts : i.Sorts r)
    (hsize : r.pageSize = 0) (htoken : r.pageToken = "") : IsStrict r.sort? (i.matching r.query) := by
  obtain ⟨es, hmem, hhits, hes⟩ := hsorts.ascending _ (by rw [search_eq, htoken, offset_empty]; rfl)
  have hlength : es.length = (i.matching r.query).length := by
    rw [hsize] at hhits
    have hall : es.map Entry.document = i.select r.query r.sort? := hhits
    rw [← List.length_map (f := Entry.document), hall, length_select]
    rfl
  have hnodup : es.Nodup := hes.imp fun {a b} hab heq => by
    rw [heq, entryOrder_self] at hab
    contradiction
  have hperm : es.Perm (i.matching r.query) :=
    (hnodup.subperm hmem).perm_of_length_le (Nat.le_of_eq hlength.symm)
  exact (isStrict_of_pairwise hes).subset hperm.symm.subset

/-- **Where a search sorts.**  Any two entries of an index have different places, and without a sort the
comparison of entries is a strict total order.  With one it is so whatever the turns if and only if the
values alone are sorted transitively, as values of one kind are; and a search sorts if it is so on the
matches, and on one page of them all only then. -/
theorem IsOrdered.sorts_iff_isStrict (h : i.IsOrdered turns) (r : SearchRequest) :
    (∀ a b : Entry, entryOrder r.sort? a b = (entryOrder r.sort? b a).swap) ∧
      (∀ a ∈ i.entries, ∀ b ∈ i.entries, entryOrder r.sort? a b = .eq → a = b) ∧
      (r.sort? = none → IsStrict r.sort? i.entries) ∧
      (∀ (s : SortBy) (sources : List Json),
        ((∀ (j : Index) (later : Nat), j.IsOrdered later → (∀ e ∈ j.entries, e.document.source ∈ sources) →
          IsStrict (some s) j.entries) ↔ s.IsTransitive sources) ∧
        (s.IsUniform sources → s.IsTransitive sources)) ∧
      (IsStrict r.sort? (i.matching r.query) → i.Sorts r) ∧
      (r.pageSize = 0 → r.pageToken = "" → (i.Sorts r ↔ IsStrict r.sort? (i.matching r.query))) := by
  refine ⟨entryOrder_swap r.sort?, fun a ha b hb => h.eq_of_entryOrder ha hb, fun hnone => ?_,
    fun s sources => ⟨forall_isStrict_iff, SortBy.IsUniform.isTransitive⟩, h.sorts,
    fun hsize htoken => ⟨fun hsorts => hsorts.isStrict hsize htoken, h.sorts⟩⟩
  rw [hnone]
  exact h.isStrict_none

/-! ## Values that cannot be sorted -/

/-- The order of the values of one field. -/
def byValue : SortBy := ⟨["value"], false⟩

/-- A source with one value. -/
def ofValue (value : Json) : Json := .object [("value", value)]

/-- Two numbers, created before and after a text. -/
def mixed : Index := ofThree (ofValue (.ofNat 1)) (ofValue (.string "x")) (ofValue (.ofNat 0))

/-- Two times, and a text that is none and stands between them by its characters. -/
def zones : Index := ofThree (ofValue (.string "2021-03-01T12:00:00+02:00"))
  (ofValue (.string "2021-03-01T11:00:00Z")) (ofValue (.string "2021-03-01T11:30"))

theorem not_isStrict_mixed : ¬ IsStrict (some byValue) mixed.entries := by
  intro h
  have hlt := h.trans ⟨1, "a", ofValue (.ofNat 1), none⟩ (by simp [mixed, ofThree])
    ⟨2, "b", ofValue (.string "x"), none⟩ (by simp [mixed, ofThree])
    ⟨3, "c", ofValue (.ofNat 0), none⟩ (by simp [mixed, ofThree]) (by decide) (by decide)
  exact absurd hlt (by decide)

theorem not_isStrict_zones : ¬ IsStrict (some byValue) zones.entries := by
  intro h
  have hlt := h.trans ⟨1, "a", ofValue (.string "2021-03-01T12:00:00+02:00"), none⟩
    (by simp [zones, ofThree]) ⟨2, "b", ofValue (.string "2021-03-01T11:00:00Z"), none⟩
    (by simp [zones, ofThree]) ⟨3, "c", ofValue (.string "2021-03-01T11:30"), none⟩
    (by simp [zones, ofThree]) (by decide +kernel) (by decide +kernel)
  exact absurd hlt (by decide +kernel)

theorem sorts_iff_isStrict_mixed : mixed.Sorts ⟨.all, none, 0, ""⟩ ∧
    ¬ mixed.Sorts ⟨.all, some byValue, 0, ""⟩ := by
  have hordered : mixed.IsOrdered 3 := isOrdered_ofThree _ _ _
  have hcreated := hordered.sorts_iff_isStrict ⟨.all, none, 0, ""⟩
  have hvalue := hordered.sorts_iff_isStrict ⟨.all, some byValue, 0, ""⟩
  obtain ⟨-, -, hnone, -, hsorts, -⟩ := hcreated
  obtain ⟨-, -, -, -, -, honly⟩ := hvalue
  exact ⟨hsorts ((hnone rfl).subset List.filter_sublist.subset),
    fun h => not_isStrict_mixed ((honly rfl rfl).1 h)⟩

/-- **The comparison of entries need not be transitive**: a number, a text and a number, and a time, a time
and a text, of which each is less than the next and the last is less than the first. -/
theorem not_forall_isStrict :
    (mixed.IsOrdered 3 ∧ ¬ IsStrict (some byValue) mixed.entries) ∧
      (zones.IsOrdered 3 ∧ ¬ IsStrict (some byValue) zones.entries) :=
  ⟨⟨isOrdered_ofThree _ _ _, not_isStrict_mixed⟩, isOrdered_ofThree _ _ _, not_isStrict_zones⟩

end Index
end Gatehouse.Store
