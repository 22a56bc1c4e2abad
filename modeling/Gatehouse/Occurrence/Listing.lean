import Gatehouse.Occurrence.Basic

/-!
# Listing occurrences

What an occurrence store is asked, and what may come back: a page of occurrences, or a failure.
-/

namespace Gatehouse.Occurrence

open Json

/-- The project that holds the occurrences of the service. -/
def project : String := "projects/rode"

/-- The greatest page that an occurrence store gives. -/
def greatestPage : Int := 1000

/-- A question to an occurrence store. -/
structure ListRequest where
  parent : String
  filter : String := ""
  pageSize : Int := 0
  pageToken : String := ""
  deriving DecidableEq, Repr

/-- A page of occurrences. -/
structure ListResponse where
  occurrences : List Occurrence
  /-- Empty on the last page. -/
  nextPageToken : String
  deriving Repr

namespace ListResponse

/-- A page as a value. -/
def toJson (r : ListResponse) : Json :=
  .object [("occurrences", .array (r.occurrences.map Occurrence.toJson)),
    ("nextPageToken", .string r.nextPageToken)]

/-- The page that a value is. -/
def ofJson? (value : Json) : Option ListResponse := do
  let r ← Record.ofJson? ["occurrences", "nextPageToken"] value
  return {
    occurrences := ← r.defaulted "occurrences" (items? Occurrence.ofJson?) []
    nextPageToken := ← r.defaulted "nextPageToken" string? "" }

end ListResponse

/-- Why there is no page. -/
inductive ListError where
  /-- The store could not be reached, or answered with a status that is no success. -/
  | http (status? : Option Nat) (message : String)
  /-- The answer could not be read. -/
  | badResponse (message : String)
  | invalidRequest (message : String)
  | config (message : String)
  deriving DecidableEq, Repr

namespace ListError

/-- The message of a failure. -/
def message : ListError → String
  | http _ message => "http error: " ++ message
  | badResponse message => "bad response from occurrence store: " ++ message
  | invalidRequest message => "invalid request: " ++ message
  | config message => "configuration error: " ++ message

/-- The status that the store answered with. -/
def status? : ListError → Option Nat
  | http status? _ => status?
  | _ => none

end ListError
end Gatehouse.Occurrence
