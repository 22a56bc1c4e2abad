import Gatehouse.Group.Basic
import Gatehouse.Service.Listing

/-!
# Managing policy groups

Groups are stored under their names.  A deleted group is still found by its name, but nothing can be
done with it.
-/

namespace Gatehouse.PolicyGroup

open Service Store

/-- The document of a group. -/
def document (g : PolicyGroup) : Document := ⟨g.name, g.toJson, none⟩

/-- The group of a name, deleted or not. -/
def get (name : String) : Action PolicyGroup := do
  ensure (!name.isEmpty) (.required "policy group name")
  match ← call "error fetching policy group" (.get Shelf.policyGroups.index name) with
  | some d => decoded .policyGroup ofJson? d
  | none => throw (.notFound .policyGroup name)

/-- The group of a name, which must not be deleted. -/
def getActive (name : String) : Action PolicyGroup := do
  let group ← get name
  ensure (!group.deleted) (.deleted .policyGroup name)
  return group

/-- Put a changed group in its place. -/
def save (g : PolicyGroup) : Action Unit :=
  call "error updating policy group" (.write Shelf.policyGroups.index (.update g.document))

/-- A new group. -/
def create (name description : String) : Action PolicyGroup := do
  ensure (isName name) (.malformedGroupName name)
  let time ← now
  let group : PolicyGroup := ⟨name, description, false, time, time⟩
  match ← attempt (.write Shelf.policyGroups.index (.create group.document)) with
  | .ok _ => return group
  | .error (.alreadyExists ..) => throw (.groupExists name)
  | .error e => throw (.internal "error creating policy group" (.store e))

/-- A page of the groups that are not deleted, by name. -/
def list (o : ListOptions) : Action (Page PolicyGroup) :=
  Service.list .policyGroup ofJson? .policyGroups "error searching policy groups" o
    [.term ["deleted"] (.bool false)] ⟨["name"], false⟩

/-- Another description for a group. -/
def update (name description : String) : Action PolicyGroup := do
  let group ← getActive name
  let changed := { group with description := description, updated := ← now }
  changed.save
  return changed

/-- Mark a group as deleted. -/
def delete (name : String) : Action Unit := do
  let group ← getActive name
  save { group with deleted := true, updated := ← now }

end Gatehouse.PolicyGroup
