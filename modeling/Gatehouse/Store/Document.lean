import Gatehouse.Json.Record

/-!
# Documents

What the store keeps: a JSON value under an id, and perhaps its place in a family of documents.

* **Families.**  A join says which relation a document has in its family, and for a child also which
  parent it belongs to.
* **Routing.**  A child lives where its parent lives, so its routing key is the parent's id.
-/

namespace Gatehouse.Store

open Json

/-- The place of a document in a family. -/
structure Join where
  /-- The name of the field that holds the join. -/
  field : String
  relation : String
  /-- The parent, for children. -/
  parent? : Option String
  deriving DecidableEq, Repr

namespace Join

/-- The place of a parent. -/
def ofParent (field relation : String) : Join := ⟨field, relation, none⟩

/-- The place of a child. -/
def ofChild (field relation parent : String) : Join := ⟨field, relation, some parent⟩

/-- Where a document of this place and the given id lives. -/
def routing (j : Join) (id : String) : String := j.parent?.getD id

/-- A join as a value. -/
def toJson (j : Join) : Json :=
  .object <| [("field", .string j.field), ("relationName", .string j.relation)] ++
    memberOfSome "parentId" .string j.parent?

/-- The join that a value is. -/
def ofJson? (value : Json) : Option Join := do
  let r ← Record.ofJson? ["field", "relationName", "parentId"] value
  return {
    field := ← r.required "field" string?
    relation := ← r.required "relationName" string?
    parent? := ← r.optional "parentId" string? }

end Join

/-- A document. -/
structure Document where
  id : String
  source : Json
  join? : Option Join
  deriving Repr

namespace Document

/-- The relation of a document in its family. -/
def relation? (d : Document) : Option String := d.join?.map Join.relation

/-- The parent of a document. -/
def parent? (d : Document) : Option String := d.join?.bind Join.parent?

/-- A document as a value. -/
def toJson (d : Document) : Json :=
  .object <| [("id", .string d.id), ("source", d.source)] ++
    memberOfSome "join" Join.toJson d.join?

/-- The document that a value is. -/
def ofJson? (value : Json) : Option Document := do
  let r ← Record.ofJson? ["id", "source", "join"] value
  return {
    id := ← r.required "id" string?
    source := ← r.required "source" some
    join? := ← r.optional "join" Join.ofJson? }

end Document
end Gatehouse.Store
