import Gatehouse.Http.Exchange
import Gatehouse.Http.Form
import Gatehouse.Occurrence.Listing
import Gatehouse.Settings

/-!
# Talking to an occurrence store

An occurrence store lists the occurrences of a project under `/v1beta1`.  What is not asked for is not
in the query: no filter, no size of the page, no token.  Anything but the status 200 is a failure.
-/

namespace Gatehouse.Occurrence

open Http

/-- How an occurrence store is talked to. -/
structure Client where
  /-- The address, without slashes at its end. -/
  base : String
  deriving DecidableEq, Repr

namespace Client

/-- The client that settings describe. -/
def ofSettings (s : OccurrenceSettings) : Client := ⟨baseUrl s.url⟩

/-- How requests are signed. -/
def userAgent : String := "rode-grafeas/0.6.0"

/-- The pairs of a query. -/
def pairs (r : ListRequest) : List (String × String) :=
  (if r.filter.isEmpty then [] else [("filter", r.filter)]) ++
  (if 0 < r.pageSize then [("pageSize", toString r.pageSize.toNat)] else []) ++
  (if r.pageToken.isEmpty then [] else [("pageToken", r.pageToken)])

/-- Where the answer to a question is. -/
def url? (c : Client) (r : ListRequest) : Except ListError Url :=
  match Url.ofText? (c.base ++ "/v1beta1/" ++ r.parent ++ "/occurrences") with
  | .ok url => .ok { url with query? := Form.append url.query? (pairs r) }
  | .error e => .error (.invalidRequest ("invalid occurrences URL: " ++ e.message))

/-- The page that answers a question. -/
def list (c : Client) (q : ListRequest) : Http.Client ListError ListResponse := do
  if q.parent.isEmpty then throw (.invalidRequest "parent is required")
  let url ← liftM (c.url? q)
  let r ← ExceptT.adapt (fun (e : Failure) => .http none e.message)
    (Request.send ⟨.get, url, userAgent, none⟩)
  if r.status ≠ 200 then throw (.http (some r.status) r.complaint)
  match Json.decode? ListResponse.ofJson? r.content with
  | some page => return page
  | none => throw (.badResponse "failed to decode occurrence list: no page of occurrences")

end Client
end Gatehouse.Occurrence
