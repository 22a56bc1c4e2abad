import Gatehouse.Proofs.Store.Memory

/-!
# What is read of documents

A store keeps documents, and what is asked for are the things that they are.

1. **Filters** (`Filter.meaning?`): what the text of a filter asks of a document's source.
2. **Readings**: the documents of which something is read, each with what it is.  Where the things of one
   kind are known, the documents of this kind are theirs and no others (`IsWritten`).
3. **Sorting.**  A search compares fields of documents.  If these are ordered as the things are by a key,
   then what it finds are the things, sorted stably by this key (`isStableSort_found`).
-/

namespace Gatehouse

open Store

/-! ## Filters -/

/-- What the text of a filter asks of a document's source.  A blank text asks nothing, and a text that is
refused has no meaning. -/
def Filter.meaning? (text : String) : Option (Json → Bool) :=
  if text.toList.all Text.isBlank then some fun _ => true
  else
    match Expr.ofText? text with
    | .ok e => some fun source => e.holds source
    | .error _ => none

namespace Store

variable {α β : Type} {read? : Document → Option α}

/-! ## Readings -/

/-- Documents with what is read of them, in their order.  Those of which nothing is read are left out. -/
def readings (read? : Document → Option α) (ds : List Document) : List (Document × α) :=
  ds.filterMap fun d => (read? d).map (d, ·)

theorem mem_readings {ds : List Document} {x : Document × α} :
    x ∈ readings read? ds ↔ x.1 ∈ ds ∧ read? x.1 = some x.2 := by
  obtain ⟨d, a⟩ := x
  simp only [readings, List.mem_filterMap, Option.map_eq_some_iff, Prod.mk.injEq]
  constructor
  · rintro ⟨d', hd, a', ha, rfl, rfl⟩
    exact ⟨hd, ha⟩
  · rintro ⟨hd, ha⟩
    exact ⟨d, hd, a, ha, rfl, rfl⟩

/-- Pairs are told by their documents. -/
theorem readings_map_fst {xs : List (Document × α)} (h : ∀ x ∈ xs, read? x.1 = some x.2) :
    readings read? (xs.map Prod.fst) = xs := by
  rw [readings, List.filterMap_map]
  conv_rhs => rw [← List.filterMap_some (l := xs)]
  exact List.filterMap_congr fun x hx => by rw [Function.comp_apply, h x hx, Option.map_some]

/-- The documents of readings that satisfy something are those that satisfy it. -/
theorem map_fst_filter_readings {p : Document × α → Bool} {q : Document → Bool} {ds : List Document}
    (h : ∀ d ∈ ds, q d = (read? d).any fun a => p (d, a)) :
    ((readings read? ds).filter p).map Prod.fst = ds.filter q := by
  rw [readings, List.filter_filterMap, List.map_filterMap, ← List.filterMap_eq_filter]
  refine List.filterMap_congr fun d hd => ?_
  rw [Option.guard, h d hd]
  cases read? d with
  | none => rfl
  | some a =>
    rw [Option.map_some, Option.filter_some, Option.any_some]
    split <;> rfl

/-! ### Things of a kind -/

/-- What a document of a kind is. -/
def readOf (owns : Document → Bool) (read : Json → Option α) (d : Document) : Option α :=
  if owns d then read d.source else none

/-- Of the documents in a list, those of a kind are the documents of the things that are held. -/
structure IsWritten (write : α → Document) (owns : Document → Bool) (read : Json → Option α)
    (held : α → Prop) (ds : List Document) : Prop where
  own : ∀ a, held a → owns (write a) = true
  read : ∀ a, held a → read (write a).source = some a
  written : ∀ d ∈ ds, owns d = true → ∃ a, held a ∧ d = write a

section Written

variable {write : α → Document} {owns : Document → Bool} {read : Json → Option α} {held : α → Prop}
  {ds : List Document}

theorem IsWritten.readOf_write (h : IsWritten write owns read held ds) {a : α} (ha : held a) :
    readOf owns read (write a) = some a := by
  rw [readOf, if_pos (h.own a ha), h.read a ha]

theorem IsWritten.exists_of_readOf (h : IsWritten write owns read held ds) {d : Document} (hd : d ∈ ds)
    {a : α} (ha : readOf owns read d = some a) : held a ∧ d = write a := by
  by_cases howns : owns d = true
  · obtain ⟨b, hb, rfl⟩ := h.written d hd howns
    obtain rfl := Option.some.inj ((h.readOf_write hb).symm.trans ha)
    exact ⟨hb, rfl⟩
  · rw [readOf, if_neg howns] at ha
    contradiction

/-- Where all documents are of the kind, they are those of the things. -/
theorem isWritten_map {as : List α} (hds : ds = as.map write) (hown : ∀ a, owns (write a) = true)
    (hread : ∀ a ∈ as, read (write a).source = some a) : IsWritten write owns read (· ∈ as) ds where
  own a _ := hown a
  read := hread
  written d hd _ := by
    obtain ⟨a, ha, rfl⟩ := List.mem_map.1 (hds ▸ hd)
    exact ⟨a, ha, rfl⟩

/-- No document of the kind is passed over. -/
theorem IsWritten.isSome_readOf (h : IsWritten write owns read held ds) {d : Document} (hd : d ∈ ds) :
    (readOf owns read d).isSome = owns d := by
  by_cases howns : owns d = true
  · obtain ⟨a, ha, rfl⟩ := h.written d hd howns
    rw [h.readOf_write ha, howns]
    rfl
  · rw [readOf, if_neg howns, Bool.eq_false_iff.2 howns]
    rfl

end Written

/-! ## Sorting -/

/-- One list is another one, sorted: it goes up, and what need not change places does not. -/
structure IsStableSort (le : α → α → Bool) (xs sorted : List α) : Prop where
  perm : sorted.Perm xs
  ascending : sorted.Pairwise fun a b => le a b = true
  stable : ∀ a b, [a, b].Sublist xs → le a b = true → [a, b].Sublist sorted

theorem isStableSort_mergeSort {κ : Type} (cmp : κ → κ → Ordering) [Std.TransCmp cmp] (key : α → κ)
    (xs : List α) : IsStableSort (fun a b => (cmp (key a) (key b)).isLE) xs
      (xs.mergeSort fun a b => (cmp (key a) (key b)).isLE) := by
  have htrans : ∀ a b c : α, (cmp (key a) (key b)).isLE = true → (cmp (key b) (key c)).isLE = true →
      (cmp (key a) (key c)).isLE = true := fun _ _ _ => Std.TransCmp.isLE_trans
  have htotal : ∀ a b : α, ((cmp (key a) (key b)).isLE || (cmp (key b) (key a)).isLE) = true := by
    intro a b
    rw [Index.swap_compare cmp (key b)]
    cases cmp (key a) (key b) <;> rfl
  exact ⟨List.mergeSort_perm _ _, List.pairwise_mergeSort htrans htotal _,
    fun a b hab hle => List.pair_sublist_mergeSort htrans htotal hle hab⟩

theorem IsStableSort.map {le : α → α → Bool} {le' : β → β → Bool} {f : α → β} {xs sorted : List α}
    (h : IsStableSort le xs sorted) (hle : ∀ a b, le' (f a) (f b) = le a b) :
    IsStableSort le' (xs.map f) (sorted.map f) where
  perm := h.perm.map f
  ascending := List.pairwise_map.2 (h.ascending.imp fun hab => (hle _ _).trans hab)
  stable a b hab hle' := by
    obtain ⟨pair, hpair, hmap⟩ := List.sublist_map_iff.1 hab
    match pair, hmap with
    | [x, y], hmap =>
      obtain ⟨rfl, rfl⟩ : a = f x ∧ b = f y := by simpa using hmap
      exact (h.stable x y hpair ((hle x y).symm.trans hle')).map f

/-- **What a search finds is sorted stably by what is read of it**, if that is how its sort compares. -/
theorem isStableSort_found {i : Index} {turns : Nat} (hi : i.IsOrdered turns) {q : Query}
    {kept found : List (Document × α)} (hreads : ∀ x ∈ kept, read? x.1 = some x.2)
    (hkept : kept.map Prod.fst = i.toList.filter q.selects)
    (hfound : i.select q (some sort) = found.map Prod.fst) (hperm : found.Perm kept)
    {κ : Type} (cmp : κ → κ → Ordering) [Std.TransCmp cmp] (key : α → κ)
    (hsort : ∀ x ∈ kept, ∀ y ∈ kept, sort.compare x.1.source y.1.source = cmp (key x.2) (key y.2)) :
    IsStableSort (fun x y => (cmp (key x.2) (key y.2)).isLE) kept found := by
  cases kept with
  | nil =>
    obtain rfl := hperm.eq_nil
    exact ⟨.refl _, .nil, fun _ _ hab _ => hab⟩
  | cons x₀ xs =>
    generalize x₀ :: xs = kept at hreads hkept hperm hsort
    -- the key of a document is that of the thing that is read of it
    let keyOf : Document → κ := fun d => ((read? d).map key).getD (key x₀.2)
    have hkeyOf : ∀ x ∈ kept, keyOf x.1 = key x.2 := fun x hx => by
      simp only [keyOf, hreads x hx, Option.map_some, Option.getD_some]
    have hmem : ∀ d ∈ i.toList, q.selects d = true → ∃ x ∈ kept, x.1 = d := fun d hd hq =>
      List.mem_map.1 (hkept ▸ List.mem_filter.2 ⟨hd, hq⟩)
    have hselect := hi.select_some (s := sort) (q := q) cmp keyOf fun a ha b hb hqa hqb => by
      obtain ⟨x, hx, rfl⟩ := hmem a ha hqa
      obtain ⟨y, hy, rfl⟩ := hmem b hb hqb
      rw [hkeyOf x hx, hkeyOf y hy]
      exact hsort x hx y hy
    have hmap : (kept.mergeSort fun x y => (cmp (key x.2) (key y.2)).isLE).map Prod.fst =
        found.map Prod.fst := by
      rw [← hfound, hselect, ← hkept]
      exact List.map_mergeSort fun x hx y hy => by rw [hkeyOf x hx, hkeyOf y hy]
    have hsorted : (kept.mergeSort fun x y => (cmp (key x.2) (key y.2)).isLE) = found := by
      have hfoundReads : ∀ x ∈ found, read? x.1 = some x.2 := fun x hx => hreads x (hperm.mem_iff.1 hx)
      rw [← readings_map_fst hfoundReads, ← hmap]
      exact (readings_map_fst fun x hx => hreads x (List.mem_mergeSort.1 hx)).symm
    rw [← hsorted]
    exact isStableSort_mergeSort cmp (fun x => key x.2) kept

end Store
end Gatehouse
