import Gatehouse.Store.Index
import Gatehouse.Table

/-!
# The store

Indices by name, with one counter of turns for all of them.  An index that was never written is
empty.  A bulk request works on a copy and takes its place only if every change succeeds, so that a
failed one leaves no trace, not even in the counter.
-/

namespace Gatehouse.Store

/-- All indices, and the last turn that was given. -/
structure Memory where
  indices : Table String Index
  turns : Nat
  deriving Repr

namespace Memory

/-- A store that was never written. -/
def empty : Memory := ⟨.empty, 0⟩

/-- The index of a name. -/
def index (m : Memory) (name : String) : Index := (m.indices.get? name).getD .empty

/-- The store with another index under a name. -/
def setIndex (m : Memory) (name : String) (i : Index) (turns : Nat) : Memory :=
  ⟨m.indices.set name i, turns⟩

/-! ## Reading -/

/-- The document of an id. -/
def get? (m : Memory) (name id : String) : Option Document := (m.index name).get? id

/-- The documents of several ids, each in its place. -/
def getAll (m : Memory) (name : String) (ids : List String) : List (Option Document) :=
  ids.map (m.get? name)

/-- One search. -/
def search (m : Memory) (name : String) (r : SearchRequest) : Except StoreError SearchResponse :=
  (m.index name).search r

/-- Several searches of one state of an index. -/
def searchAll (m : Memory) (name : String) (rs : List SearchRequest) :
    Except StoreError (List SearchResponse) :=
  rs.mapM (m.search name)

/-- The documents of an index, in the order of their creation. -/
def documents (m : Memory) (name : String) : List Document := (m.index name).toList

/-! ## Writing -/

/-- One change. -/
def write (m : Memory) (name : String) (w : Write) : Except StoreError Memory := do
  let (i, turns) ← (m.index name).apply name m.turns w
  return m.setIndex name i turns

/-- All changes of a list, or none. -/
def bulk (m : Memory) (name : String) (ws : List Write) : Except StoreError Memory :=
  match (m.index name).applyAll name 0 m.turns ws with
  | (i, turns, []) => .ok (m.setIndex name i turns)
  | (_, _, items) => .error (.bulk items)

end Memory
end Gatehouse.Store
