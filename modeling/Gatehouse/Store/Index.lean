import Gatehouse.Store.PageToken
import Gatehouse.Store.Query

/-!
# Indices

An index is a set of documents, each under its own id.

1. **Turns.**  A document gets the next turn of a counter when it is created, and keeps it through
   every update.  The list of entries has no meaning of its own: whatever is answered is ordered by
   turns, so two lists with the same entries are the same index.
2. **Changes.**  `apply` makes one change or refuses it.  `applyAll` makes the changes of a list in
   order, passes over those that fail, and collects why.
3. **Searches.**  The matches are sorted, then the page is cut out of them.
-/

namespace Gatehouse.Store

/-- A document and its turn. -/
structure Entry where
  turn : Nat
  document : Document
  deriving Repr

/-- The documents of an index. -/
structure Index where
  entries : List Entry
  deriving Repr

namespace Index

/-- An index without documents. -/
def empty : Index := ⟨[]⟩

/-- The entry of an id. -/
def entry? (i : Index) (id : String) : Option Entry := i.entries.find? fun e => e.document.id = id

/-- The document of an id. -/
def get? (i : Index) (id : String) : Option Document := (i.entry? id).map Entry.document

/-- The number of documents. -/
def size (i : Index) : Nat := i.entries.length

/-! ## Changes -/

/-- The index with one more document. -/
def insert (i : Index) (turn : Nat) (d : Document) : Index := ⟨⟨turn, d⟩ :: i.entries⟩

/-- The index with another document under an id. -/
def replace (i : Index) (d : Document) : Index :=
  ⟨i.entries.map fun e => if e.document.id = d.id then { e with document := d } else e⟩

/-- The index without an id. -/
def erase (i : Index) (id : String) : Index := ⟨i.entries.filter fun e => e.document.id ≠ id⟩

/-- One change to the index of a name: the changed index and the counter of turns. -/
def apply (name : String) (i : Index) (turns : Nat) (w : Write) :
    Except StoreError (Index × Nat) :=
  let known := (i.entry? w.id).isSome
  match w with
  | .create d =>
    if known then .error (.alreadyExists name d.id) else .ok (i.insert (turns + 1) d, turns + 1)
  | .update d => if known then .ok (i.replace d, turns) else .error (.notFound name d.id)
  | .delete id => if known then .ok (i.erase id, turns) else .error (.notFound name id)

/-- The changes of a list, which starts at a position: the index and the counter after those that
succeed, and the failures of the others. -/
def applyAll (name : String) (position : Nat) (i : Index) (turns : Nat) :
    List Write → Index × Nat × List ItemError
  | [] => (i, turns, [])
  | w :: rest =>
    match i.apply name turns w with
    | .ok (i, turns) => applyAll name (position + 1) i turns rest
    | .error e =>
      let (i, turns, items) := applyAll name (position + 1) i turns rest
      (i, turns, ⟨position, w.id, e.message⟩ :: items)

/-! ## Searches -/

/-- The order of entries in an answer: by the sort, if there is one, then by turns. -/
def entryOrder (sort? : Option SortBy) (a b : Entry) : Ordering :=
  (match sort? with
    | some s => s.compare a.document.source b.document.source
    | none => .eq).then (compare a.turn b.turn)

/-- The documents that a query selects, in order. -/
def select (i : Index) (query : Query) (sort? : Option SortBy) : List Document :=
  let matching := i.entries.filter fun e => query.selects e.document
  (matching.mergeSort fun a b => (entryOrder sort? a b).isLE).map Entry.document

/-- The documents in the order of their creation. -/
def toList (i : Index) : List Document := i.select .all none

/-- The number of matches before a page. -/
def offset (token : String) : Except StoreError Nat :=
  if token.isEmpty then .ok 0
  else
    match PageToken.decode? token with
    | some n => .ok n
    | none => .error (.invalidPageToken token)

/-- One page of the matches. -/
def search (i : Index) (r : SearchRequest) : Except StoreError SearchResponse := do
  let documents := i.select r.query r.sort?
  let total := documents.length
  let start ← offset r.pageToken
  let finish := if r.pageSize = 0 then total else min (start + r.pageSize) total
  return {
    hits := (documents.drop start).take (finish - start)
    total := total
    nextPageToken := if finish < total then PageToken.encode finish else "" }

end Index
end Gatehouse.Store
