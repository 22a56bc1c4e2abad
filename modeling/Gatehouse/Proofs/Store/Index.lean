import Gatehouse.Store.Index
import Mathlib.Data.List.Nodup

/-!
# An index is a list of documents

Entries carry turns, and whatever is answered is ordered by turns.  Seen from outside an index is the
list of its documents in the order of their creation (`toList`), and everything else follows from this
list.

1. **The invariant** (`IsOrdered`): the newest entry stands first, no turn is past the counter, and no
   two documents share an id.
2. **Changes.**  `Write.fits` says when a change to the list is possible and `Write.change` what it
   makes of the list: a creation goes to its end, an update stays in its place, a deletion closes the
   gap.  `apply_of_fits` and `apply_of_not_fits` say that an index does the same.
3. **Searches.**  Without a sort an answer is the list with some documents left out (`select_none`).
   With one it is that, sorted stably (`select_some`): the turns, by which ties are broken, are the
   order in which the list stands already.
-/

namespace Gatehouse.Store

/-! ## Changes to a list -/

namespace Write

/-- What a change makes of a list of documents. -/
def change : Write → List Document → List Document
  | create d, ds => ds ++ [d]
  | update d, ds => ds.map fun x => if x.id = d.id then d else x
  | delete id, ds => ds.filter fun x => x.id ≠ id

/-- A change may be made to a list of documents. -/
def Fits : Write → List Document → Prop
  | create d, ds => ∀ x ∈ ds, x.id ≠ d.id
  | update d, ds => ∃ x ∈ ds, x.id = d.id
  | delete id, ds => ∃ x ∈ ds, x.id = id

instance (w : Write) (ds : List Document) : Decidable (w.Fits ds) := by
  cases w <;> unfold Fits <;> infer_instance

/-- Why a change to an index was refused. -/
def refusal (name : String) : Write → StoreError
  | create d => .alreadyExists name d.id
  | update d => .notFound name d.id
  | delete id => .notFound name id

end Write

namespace Index

/-- Newest first, no turn past the counter, no id twice. -/
structure IsOrdered (i : Index) (turns : Nat) : Prop where
  descending : i.entries.Pairwise fun a b => b.turn < a.turn
  turn_le : ∀ e ∈ i.entries, e.turn ≤ turns
  ids : (i.entries.map fun e => e.document.id).Nodup

variable {i : Index} {turns : Nat}

theorem isOrdered_empty (turns : Nat) : empty.IsOrdered turns :=
  ⟨.nil, fun _ h => absurd h List.not_mem_nil, .nil⟩

theorem IsOrdered.mono {later : Nat} (h : i.IsOrdered turns) (hle : turns ≤ later) :
    i.IsOrdered later :=
  ⟨h.descending, fun e he => Nat.le_trans (h.turn_le e he) hle, h.ids⟩

/-! ## The order of turns -/

/-- Some of the entries. -/
theorem IsOrdered.filter (h : i.IsOrdered turns) (p : Entry → Bool) :
    IsOrdered ⟨i.entries.filter p⟩ turns where
  descending := h.descending.filter p
  turn_le e he := h.turn_le e (List.mem_filter.1 he).1
  ids := h.ids.sublist (List.filter_sublist.map _)

/-- A turn is given once. -/
theorem IsOrdered.eq_of_turn (h : i.IsOrdered turns) {a b : Entry} (ha : a ∈ i.entries)
    (hb : b ∈ i.entries) (hab : a.turn = b.turn) : a = b := by
  have hne : (i.entries.map Entry.turn).Nodup :=
    List.pairwise_map.2 (h.descending.imp fun h => (Nat.ne_of_lt h).symm)
  exact List.inj_on_of_nodup_map hne ha hb hab

/-- Sorting by turns turns the list around. -/
theorem IsOrdered.mergeSort_turns (h : i.IsOrdered turns) :
    (i.entries.mergeSort fun a b => (compare a.turn b.turn).isLE) = i.entries.reverse := by
  have hle : ∀ a b : Entry, (compare a.turn b.turn).isLE = true ↔ a.turn ≤ b.turn := fun a b =>
    Nat.isLE_compare
  refine @List.Perm.eq_of_pairwise _ (fun a b => (compare a.turn b.turn).isLE = true) _ _ ?_ ?_ ?_ ?_
  · intro a b ha hb hab hba
    rw [hle] at hab hba
    exact h.eq_of_turn (List.mem_mergeSort.1 ha) (List.mem_reverse.1 hb) (by omega)
  · refine List.pairwise_mergeSort ?_ ?_ _
    · intro a b c hab hbc
      rw [hle] at hab hbc ⊢
      omega
    · intro a b
      rw [Bool.or_eq_true, hle, hle]
      omega
  · rw [List.pairwise_reverse]
    exact h.descending.imp fun h => (hle _ _).2 (by omega)
  · exact (List.mergeSort_perm _ _).trans (List.reverse_perm _).symm

/-- **An answer without a sort is in the order of creation.** -/
theorem IsOrdered.select_none_eq (h : i.IsOrdered turns) (q : Query) :
    i.select q none = ((i.entries.filter fun e => q.selects e.document).map Entry.document).reverse := by
  have hsort := (h.filter fun e => q.selects e.document).mergeSort_turns
  show ((List.mergeSort _ fun a b => (compare a.turn b.turn).isLE).map Entry.document) = _
  rw [hsort, List.map_reverse]

/-- The documents are those of the entries, turned around. -/
theorem IsOrdered.toList_eq (h : i.IsOrdered turns) :
    i.toList = (i.entries.map Entry.document).reverse := by
  rw [toList, h.select_none_eq]
  simp [Query.selects]

theorem IsOrdered.mem_toList (h : i.IsOrdered turns) {d : Document} :
    d ∈ i.toList ↔ ∃ e ∈ i.entries, e.document = d := by
  simp [h.toList_eq]

/-- No two documents share an id. -/
theorem IsOrdered.nodup_ids (h : i.IsOrdered turns) : (i.toList.map Document.id).Nodup := by
  rw [h.toList_eq, List.map_reverse, List.map_map]
  exact (List.reverse_perm _).symm.nodup h.ids

theorem toList_empty : empty.toList = [] := by
  rw [(isOrdered_empty 0).toList_eq]
  rfl

/-! ## Reading -/

theorem IsOrdered.isSome_entry_iff (h : i.IsOrdered turns) (id : String) :
    (i.entry? id).isSome = true ↔ ∃ d ∈ i.toList, d.id = id := by
  simp [h.mem_toList, entry?]

/-- The document of an id is the one in the list. -/
theorem IsOrdered.get?_eq_some (h : i.IsOrdered turns) {id : String} {d : Document} :
    i.get? id = some d ↔ d ∈ i.toList ∧ d.id = id := by
  rw [h.mem_toList, get?, entry?, Option.map_eq_some_iff]
  constructor
  · rintro ⟨e, he, rfl⟩
    exact ⟨⟨e, List.mem_of_find?_eq_some he, rfl⟩, by simpa using List.find?_some he⟩
  · rintro ⟨⟨e, he, rfl⟩, hid⟩
    obtain ⟨f, hf⟩ : ∃ f, i.entries.find? (fun e => e.document.id = id) = some f :=
      Option.isSome_iff_exists.1 (List.find?_isSome.2 ⟨e, he, by simpa using hid⟩)
    have hfid : f.document.id = id := by simpa using List.find?_some hf
    have heq : e = f :=
      List.inj_on_of_nodup_map h.ids he (List.mem_of_find?_eq_some hf) (hid.trans hfid.symm)
    exact ⟨f, hf, heq ▸ rfl⟩

theorem IsOrdered.get?_eq_none (h : i.IsOrdered turns) {id : String} :
    i.get? id = none ↔ ∀ d ∈ i.toList, d.id ≠ id := by
  rw [Option.eq_none_iff_forall_ne_some]
  constructor
  · intro hn d hd hid
    exact hn d (h.get?_eq_some.2 ⟨hd, hid⟩)
  · intro hn d hd
    obtain ⟨hmem, hid⟩ := h.get?_eq_some.1 hd
    exact hn d hmem hid

/-- An answer without a sort is the list of documents with some left out. -/
theorem IsOrdered.select_none (h : i.IsOrdered turns) (q : Query) :
    i.select q none = i.toList.filter q.selects := by
  rw [h.select_none_eq, h.toList_eq, List.filter_reverse, List.filter_map]
  rfl

/-- With any sort an answer is these documents in some order. -/
theorem IsOrdered.select_perm (h : i.IsOrdered turns) (q : Query) (sort? : Option SortBy) :
    (i.select q sort?).Perm (i.toList.filter q.selects) := by
  have hsorted : (i.select q sort?).Perm ((i.entries.filter fun e => q.selects e.document).map
      Entry.document) := (List.mergeSort_perm _ _).map _
  rw [← h.select_none, h.select_none_eq]
  exact hsorted.trans (List.reverse_perm _).symm

/-! ## Changing -/

theorem IsOrdered.insert (h : i.IsOrdered turns) {d : Document} (hd : ∀ x ∈ i.toList, x.id ≠ d.id) :
    (i.insert (turns + 1) d).IsOrdered (turns + 1) ∧
      (i.insert (turns + 1) d).toList = i.toList ++ [d] := by
  have hordered : (i.insert (turns + 1) d).IsOrdered (turns + 1) := by
    -- the new entry comes first, since its turn is the latest
    refine ⟨?_, ?_, ?_⟩
    · exact List.pairwise_cons.2 ⟨fun e he => Nat.lt_succ_of_le (h.turn_le e he), h.descending⟩
    · intro e he
      rcases List.mem_cons.1 he with rfl | he
      · exact Nat.le_refl _
      · exact Nat.le_succ_of_le (h.turn_le e he)
    · refine List.nodup_cons.2 ⟨fun hmem => ?_, h.ids⟩
      obtain ⟨e, he, hid⟩ := List.mem_map.1 hmem
      exact hd _ (h.mem_toList.2 ⟨e, he, rfl⟩) hid
  refine ⟨hordered, ?_⟩
  rw [hordered.toList_eq, h.toList_eq]
  simp [Index.insert]

theorem IsOrdered.replace (h : i.IsOrdered turns) (d : Document) :
    (i.replace d).IsOrdered turns ∧
      (i.replace d).toList = i.toList.map fun x => if x.id = d.id then d else x := by
  -- neither the ids nor the turns are touched
  have hid : ∀ e : Entry,
      (if e.document.id = d.id then { e with document := d } else e).document.id = e.document.id := by
    intro e
    split
    · rename_i he
      exact he.symm
    · rfl
  have hturn : ∀ e : Entry,
      (if e.document.id = d.id then { e with document := d } else e).turn = e.turn := by
    intro e
    split <;> rfl
  have hordered : (i.replace d).IsOrdered turns := by
    refine ⟨?_, ?_, ?_⟩
    · refine List.pairwise_map.2 (h.descending.imp fun {a b} hab => ?_)
      rw [hturn, hturn]
      exact hab
    · intro e he
      obtain ⟨f, hf, rfl⟩ := List.mem_map.1 he
      rw [hturn]
      exact h.turn_le f hf
    · rw [Index.replace, List.map_map]
      simp only [Function.comp_def, hid]
      exact h.ids
  refine ⟨hordered, ?_⟩
  rw [hordered.toList_eq, h.toList_eq, Index.replace, List.map_reverse, List.map_map, List.map_map]
  congr 1
  refine List.map_congr_left fun e _ => ?_
  simp only [Function.comp_def]
  split <;> rfl

theorem IsOrdered.erase (h : i.IsOrdered turns) (id : String) :
    (i.erase id).IsOrdered turns ∧ (i.erase id).toList = i.toList.filter fun x => x.id ≠ id := by
  have hordered := h.filter fun e => e.document.id ≠ id
  refine ⟨hordered, ?_⟩
  show Index.toList ⟨i.entries.filter fun e => e.document.id ≠ id⟩ = _
  rw [hordered.toList_eq, h.toList_eq, List.filter_reverse, List.filter_map]
  rfl

/-- **A change that fits is made.** -/
theorem IsOrdered.apply_of_fits (h : i.IsOrdered turns) (name : String) {w : Write}
    (hw : w.Fits i.toList) : ∃ j later, i.apply name turns w = .ok (j, later) ∧ turns ≤ later ∧
      j.IsOrdered later ∧ j.toList = w.change i.toList := by
  cases w with
  | create d =>
    have hknown : (i.entry? d.id).isSome = false :=
      Bool.eq_false_iff.2 fun hs => by
        obtain ⟨x, hx, hid⟩ := (h.isSome_entry_iff d.id).1 hs
        exact hw x hx hid
    obtain ⟨hordered, hlist⟩ := h.insert hw
    exact ⟨_, _, by simp [apply, Write.id, hknown], Nat.le_succ _, hordered, hlist⟩
  | update d =>
    have hknown := (h.isSome_entry_iff d.id).2 hw
    obtain ⟨hordered, hlist⟩ := h.replace d
    exact ⟨_, _, by simp [apply, Write.id, hknown], Nat.le_refl _, hordered, hlist⟩
  | delete id =>
    have hknown := (h.isSome_entry_iff id).2 hw
    obtain ⟨hordered, hlist⟩ := h.erase id
    exact ⟨_, _, by simp [apply, Write.id, hknown], Nat.le_refl _, hordered, hlist⟩

/-- A change that does not fit is refused. -/
theorem IsOrdered.apply_of_not_fits (h : i.IsOrdered turns) (name : String) {w : Write}
    (hw : ¬ w.Fits i.toList) : i.apply name turns w = .error (w.refusal name) := by
  cases w with
  | create d =>
    have hknown : (i.entry? d.id).isSome = true := by
      rw [h.isSome_entry_iff]
      by_contra hn
      exact hw fun x hx hid => hn ⟨x, hx, hid⟩
    simp [apply, Write.id, hknown, Write.refusal]
  | update d =>
    have hknown : (i.entry? d.id).isSome = false :=
      Bool.eq_false_iff.2 fun hs => hw ((h.isSome_entry_iff d.id).1 hs)
    simp [apply, Write.id, hknown, Write.refusal]
  | delete id =>
    have hknown : (i.entry? id).isSome = false :=
      Bool.eq_false_iff.2 fun hs => hw ((h.isSome_entry_iff id).1 hs)
    simp [apply, Write.id, hknown, Write.refusal]

/-! ## Sorting -/

section Sorting

variable {κ : Type} {cmp : κ → κ → Ordering} [Std.TransCmp cmp] {key : Document → κ} {s : SortBy}

theorem swap_compare (cmp : κ → κ → Ordering) [Std.TransCmp cmp] (a b : κ) :
    cmp a b = (cmp b a).swap := Std.OrientedCmp.eq_swap

/-- The order of entries by a key, and then by turns. -/
def keyThenTurn (cmp : κ → κ → Ordering) (key : Document → κ) (a b : Entry) : Ordering :=
  (cmp (key a.document) (key b.document)).then (compare a.turn b.turn)

theorem isLE_keyThenTurn {a b : Entry} : (keyThenTurn cmp key a b).isLE = true ↔
    (cmp (key a.document) (key b.document)).isLE = true ∧
      ((cmp (key b.document) (key a.document)).isLE = true → a.turn ≤ b.turn) := by
  rw [swap_compare cmp (key b.document), keyThenTurn, ← Nat.isLE_compare]
  cases cmp (key a.document) (key b.document) <;> simp [Ordering.then]

theorem keyThenTurn_trans (a b c : Entry) (hab : (keyThenTurn cmp key a b).isLE = true)
    (hbc : (keyThenTurn cmp key b c).isLE = true) : (keyThenTurn cmp key a c).isLE = true := by
  rw [isLE_keyThenTurn] at hab hbc ⊢
  refine ⟨Std.TransCmp.isLE_trans hab.1 hbc.1, fun hca => ?_⟩
  exact Nat.le_trans (hab.2 (Std.TransCmp.isLE_trans hbc.1 hca))
    (hbc.2 (Std.TransCmp.isLE_trans hca hab.1))

theorem keyThenTurn_total (a b : Entry) :
    ((keyThenTurn cmp key a b).isLE || (keyThenTurn cmp key b a).isLE) = true := by
  rw [Bool.or_eq_true, isLE_keyThenTurn, isLE_keyThenTurn,
    swap_compare cmp (key b.document)]
  cases cmp (key a.document) (key b.document)
  · simp
  · simp
    omega
  · simp

/-- **Breaking ties by turns is sorting stably.**  Both sorts give the one list of the entries that is
ordered by key and then by turn. -/
theorem IsOrdered.mergeSort_keyThenTurn (h : i.IsOrdered turns) :
    (i.entries.mergeSort fun a b => (keyThenTurn cmp key a b).isLE) =
      i.entries.reverse.mergeSort fun a b => (cmp (key a.document) (key b.document)).isLE := by
  refine @List.Perm.eq_of_pairwise _ (fun a b => (keyThenTurn cmp key a b).isLE = true) _ _ ?_ ?_ ?_ ?_
  · intro a b ha hb hab hba
    rw [isLE_keyThenTurn] at hab hba
    have ha' := List.mem_mergeSort.1 ha
    have hb' := List.mem_reverse.1 (List.mem_mergeSort.1 hb)
    exact h.eq_of_turn ha' hb' (Nat.le_antisymm (hab.2 hba.1) (hba.2 hab.1))
  · exact List.pairwise_mergeSort keyThenTurn_trans keyThenTurn_total _
  · -- the position in the list turned around grows with the turn
    rw [← List.mergeSort_zipIdx, List.pairwise_map]
    have hsorted := List.pairwise_mergeSort
      (@List.zipIdxLE_trans _ (fun a b : Entry => (cmp (key a.document) (key b.document)).isLE)
        fun a b c hab hbc => Std.TransCmp.isLE_trans hab hbc)
      (List.zipIdxLE_total fun a b => by
        rw [swap_compare cmp (key b.document)]
        cases cmp (key a.document) (key b.document) <;> rfl)
      i.entries.reverse.zipIdx
    refine hsorted.imp_of_mem fun {a b} ha hb hab => ?_
    have hascending : i.entries.reverse.Pairwise fun a b => a.turn < b.turn :=
      List.pairwise_reverse.2 h.descending
    have ha' := List.mem_zipIdx' (List.mem_mergeSort.1 ha)
    have hb' := List.mem_zipIdx' (List.mem_mergeSort.1 hb)
    rw [isLE_keyThenTurn]
    simp only [List.zipIdxLE] at hab
    split at hab
    · rename_i hle
      refine ⟨hle, fun hge => ?_⟩
      rw [if_pos hge, decide_eq_true_eq] at hab
      rcases Nat.lt_or_eq_of_le hab with hlt | heq
      · have := List.pairwise_iff_getElem.1 hascending a.2 b.2 ha'.1 hb'.1 hlt
        rw [ha'.2, hb'.2]
        exact Nat.le_of_lt this
      · have : a.1 = b.1 := by
          rw [ha'.2, hb'.2]
          simp only [heq]
        exact Nat.le_of_eq (congrArg Entry.turn this)
    · exact absurd hab (by simp)
  · exact (List.mergeSort_perm _ _).trans
      ((List.reverse_perm _).symm.trans (List.mergeSort_perm _ _).symm)

/-- **An answer with a sort is sorted stably.**  What the sort compares has to be ordered by a key on
the documents that are selected. -/
theorem IsOrdered.select_some (h : i.IsOrdered turns) {q : Query} (cmp : κ → κ → Ordering)
    [Std.TransCmp cmp] (key : Document → κ)
    (hkey : ∀ a ∈ i.toList, ∀ b ∈ i.toList, q.selects a = true → q.selects b = true →
      s.compare a.source b.source = cmp (key a) (key b)) :
    i.select q (some s) =
      (i.toList.filter q.selects).mergeSort fun a b => (cmp (key a) (key b)).isLE := by
  have hfilter := h.filter fun e => q.selects e.document
  have hagree : ∀ a ∈ i.entries.filter (fun e => q.selects e.document),
      ∀ b ∈ i.entries.filter (fun e => q.selects e.document),
      (entryOrder (some s) a b).isLE = (keyThenTurn cmp key a b).isLE := by
    intro a ha b hb
    rw [List.mem_filter] at ha hb
    rw [entryOrder, keyThenTurn,
      hkey _ (h.mem_toList.2 ⟨a, ha.1, rfl⟩) _ (h.mem_toList.2 ⟨b, hb.1, rfl⟩) ha.2 hb.2]
  have hturns := List.map_mergeSort (f := fun e : Entry => e) hagree
  have hdocuments := List.map_mergeSort (f := Entry.document)
    (l := (i.entries.filter fun e => q.selects e.document).reverse)
    (r := fun a b => (cmp (key a.document) (key b.document)).isLE)
    (s := fun a b => (cmp (key a) (key b)).isLE) fun _ _ _ _ => rfl
  rw [List.map_id', List.map_id', hfilter.mergeSort_keyThenTurn] at hturns
  rw [← h.select_none, h.select_none_eq, ← List.map_reverse, ← hdocuments, ← hturns]
  rfl

end Sorting
end Index
end Gatehouse.Store
