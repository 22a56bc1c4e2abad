import Gatehouse.Service.Effect
import Gatehouse.Text.Blank

/-!
# Listings

Operations that list things take a filter, a page size and a page token, and answer one page.  The
caller's filter is a further clause beside those of the operation, so it can only leave things out.
A blank filter is none.
-/

namespace Gatehouse.Service

open Store

/-- Where the documents of the service are. -/
inductive Shelf where
  | policies
  | policyGroups
  | policyAssignments
  | evaluations
  deriving DecidableEq, Repr

/-- The name of the index of a shelf. -/
def Shelf.index : Shelf → String
  | .policies => "rode-policies"
  | .policyGroups => "rode-policy-groups"
  | .policyAssignments => "rode-policy-assignments"
  | .evaluations => "rode-evaluations"

/-- The field in which documents hold their join. -/
def joinField : String := "join"

/-- What a caller asks of a listing. -/
structure ListOptions where
  filter : String := ""
  /-- Zero asks for everything. -/
  pageSize : Nat := 0
  pageToken : String := ""
  deriving DecidableEq, Repr

/-- One page of a listing. -/
structure Page (α : Type) where
  items : List α
  /-- Empty on the last page. -/
  nextPageToken : String
  deriving Repr

namespace ListOptions

/-- The search for what satisfies the clauses of an operation and the caller's filter. -/
def search (o : ListOptions) (clauses : List Query) (sort : SortBy) :
    Except ServiceError SearchRequest := do
  let caller ←
    if o.filter.toList.all Text.isBlank then pure []
    else
      match Filter.Expr.ofText? o.filter with
      | .ok e => pure [Query.filter e]
      | .error e => throw (.malformedFilter e)
  return {
    query := Query.every (clauses ++ caller)
    sort? := some sort
    pageSize := o.pageSize
    pageToken := o.pageToken }

end ListOptions

/-- The documents of a page, and the token of the next. -/
def listDocuments (shelf : Shelf) (operation : String) (o : ListOptions) (clauses : List Query)
    (sort : SortBy) : Action (Page Document) := do
  let request ← liftM (o.search clauses sort)
  match ← attempt (.search shelf.index request) with
  | .ok response => return ⟨response.hits, response.nextPageToken⟩
  | .error e => throw (.ofSearch operation e)

/-- A page of things that documents write. -/
def list {α : Type} (what : Item) (read : Json → Option α) (shelf : Shelf) (operation : String)
    (o : ListOptions) (clauses : List Query) (sort : SortBy) : Action (Page α) := do
  let page ← listDocuments shelf operation o clauses sort
  return ⟨← page.items.mapM (decoded what read), page.nextPageToken⟩

end Gatehouse.Service
