import Gatehouse.Filter.Parser
import Gatehouse.Store.Document
import Gatehouse.Store.Error

/-!
# Searches

What is asked of the store, and what it answers.

* **Queries** select documents: by a filter, by one exact value, by their place in a family.
* **Sorting** is by one field.  Values without an order among them keep the order of insertion, and
  so do equal ones; documents without the field come last, whichever way the values go.
* **Pages.**  A page size of zero means one page for all; an empty token means the first page.
-/

namespace Gatehouse.Store

/-- The names of a path written with points. -/
def fieldPath (text : String) : List String := (text.toList.splitOn '.').map String.ofList

/-- Which documents are meant. -/
inductive Query where
  | all
  | filter (e : Filter.Expr)
  /-- The value at a path is exactly the given one. -/
  | term (path : List String) (value : Json)
  | hasRelation (relation : String)
  | childrenOf (parent : String)
  | and (left right : Query)
  deriving Repr

namespace Query

/-- All of the given queries. -/
def every (queries : List Query) : Query := queries.foldr .and .all

/-- The query of a filter's text. -/
def ofFilter? (text : String) : Except StoreError Query :=
  match Filter.Expr.ofText? text with
  | .ok e => .ok (.filter e)
  | .error e => .error (.invalidFilter e.message)

/-- A query selects a document. -/
def selects (d : Document) : Query → Bool
  | .all => true
  | .filter e => e.holds d.source
  | .term path value => (Json.lookup? path d.source).any value.same
  | .hasRelation relation => d.relation? = some relation
  | .childrenOf parent => d.parent? = some parent
  | .and left right => left.selects d && right.selects d

end Query

/-- The field that a search sorts by, and the way its values go. -/
structure SortBy where
  path : List String
  descending : Bool
  deriving DecidableEq, Repr

/-- The order of two sources by a sort. -/
def SortBy.compare (s : SortBy) (a b : Json) : Ordering :=
  match Json.lookup? s.path a, Json.lookup? s.path b with
  | some x, some y =>
    let o := (Json.compare? x y).getD .eq
    if s.descending then o.swap else o
  | some _, none => .lt
  | none, some _ => .gt
  | none, none => .eq

/-- A search. -/
structure SearchRequest where
  query : Query
  sort? : Option SortBy := none
  pageSize : Nat := 0
  pageToken : String := ""
  deriving Repr

/-- The answer to a search. -/
structure SearchResponse where
  hits : List Document
  /-- The number of matches on all pages. -/
  total : Nat
  /-- Empty on the last page. -/
  nextPageToken : String
  deriving Repr

/-- One change to an index. -/
inductive Write where
  | create (d : Document)
  | update (d : Document)
  | delete (id : String)
  deriving Repr

/-- The id of the document that a change is about. -/
def Write.id : Write → String
  | .create d => d.id
  | .update d => d.id
  | .delete id => id

end Gatehouse.Store
