import Gatehouse.Effect.Program
import Gatehouse.Store.Memory

/-!
# Calls to the store

The requests that the service makes to its store.  Each is answered in one step, so calls of several
operations may come in any order but never overlap.
-/

namespace Gatehouse.Store

/-- A request to the store. -/
inductive Call where
  | get (index id : String)
  | search (index : String) (r : SearchRequest)
  | searchAll (index : String) (rs : List SearchRequest)
  | write (index : String) (w : Write)
  | bulk (index : String) (ws : List Write)

namespace Call

/-- What a successful call answers. -/
abbrev Answer : Call → Type
  | get .. => Option Document
  | search .. => SearchResponse
  | searchAll .. => List SearchResponse
  | write .. => Unit
  | bulk .. => Unit

/-- A call that may change the store. -/
def isWrite : Call → Bool
  | write .. => true
  | bulk .. => true
  | _ => false

end Call

/-- Calls and their answers, any of which may be a failure. -/
abbrev calls : Signature := ⟨Call, fun c => Except StoreError c.Answer⟩

namespace Memory

/-- A failed change leaves the store as it was. -/
def commit (m : Memory) : Except StoreError Memory → Except StoreError Unit × Memory
  | .ok changed => (.ok (), changed)
  | .error e => (.error e, m)

/-- The store in memory answers a call. -/
def perform : Program.World calls Memory := fun c m =>
  match c with
  | .get index id => (.ok (m.get? index id), m)
  | .search index r => (m.search index r, m)
  | .searchAll index rs => (m.searchAll index rs, m)
  | .write index w => m.commit (m.write index w)
  | .bulk index ws => m.commit (m.bulk index ws)

/-- A call that is no write leaves the store as it was. -/
theorem perform_snd_of_not_isWrite {c : Call} (h : c.isWrite = false) (m : Memory) :
    (perform c m).2 = m := by
  cases c <;> simp_all [Call.isWrite, perform]

end Memory
end Gatehouse.Store
