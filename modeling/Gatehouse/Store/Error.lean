/-!
# Failures of the store

Why the store refuses something, and how it says so.  A bulk request that fails names every change
that failed, by its position in the request.
-/

namespace Gatehouse.Store

/-- A change of a bulk request that failed. -/
structure ItemError where
  position : Nat
  id : String
  reason : String
  deriving DecidableEq, Repr

/-- A failed change in a message. -/
def ItemError.message (e : ItemError) : String :=
  "[" ++ toString e.position ++ "] " ++ e.id ++ ": " ++ e.reason

/-- A failure of the store. -/
inductive StoreError where
  | notFound (index id : String)
  | alreadyExists (index id : String)
  | invalidFilter (message : String)
  | invalidPageToken (token : String)
  /-- Nothing was written. -/
  | bulk (items : List ItemError)
  /-- A document is not what it should be. -/
  | serialization (message : String)
  deriving DecidableEq, Repr

/-- The message of a failure. -/
def StoreError.message : StoreError → String
  | .notFound index id => "document " ++ id ++ " not found in " ++ index
  | .alreadyExists index id => "document " ++ id ++ " already exists in " ++ index
  | .invalidFilter message => "invalid filter: " ++ message
  | .invalidPageToken token => "invalid page token: " ++ token
  | .bulk items => "bulk request failed: " ++ "; ".intercalate (items.map ItemError.message)
  | .serialization message => "serialization error: " ++ message

end Gatehouse.Store
