import Gatehouse.Text.Cut

/-!
# Unique ids

The ids that the service is given for new things are UUIDs in their usual form.  What matters of this
form is what it cannot hold: an id is not empty, it has no point, so it is never an id of a version, and
it has no slash, so it is one part of a longer path.
-/

namespace Gatehouse.Text

/-- A digit or one of the small letters from `a` to `f`. -/
def isSmallHex (c : Char) : Bool := c.isDigit || ('a' ≤ c && c ≤ 'f')

/-- Small hexadecimal digits in groups of 8, 4, 4, 4 and 12 with hyphens between them. -/
structure IsUuid (id : String) : Prop where
  groups : (parts (· = '-') id.toList).map List.length = [8, 4, 4, 4, 12]
  digits : ∀ c ∈ id.toList, c = '-' ∨ isSmallHex c = true

instance (id : String) : Decidable (IsUuid id) :=
  decidable_of_iff (((parts (· = '-') id.toList).map List.length = [8, 4, 4, 4, 12]) ∧
    (id.toList.all fun c => c = '-' || isSmallHex c) = true)
    ⟨fun h => ⟨h.1, by simpa using h.2⟩, fun h => ⟨h.1, by simpa using h.2⟩⟩

variable {id : String}

theorem IsUuid.ne_empty (h : IsUuid id) : id ≠ "" := by
  rintro rfl
  exact absurd h.groups (by decide)

theorem IsUuid.isEmpty_eq_false (h : IsUuid id) : id.isEmpty = false := by
  simpa using h.ne_empty

theorem IsUuid.point_notMem (h : IsUuid id) : '.' ∉ id.toList := fun hc =>
  absurd (h.digits _ hc) (by decide)

theorem IsUuid.slash_notMem (h : IsUuid id) : '/' ∉ id.toList := fun hc =>
  absurd (h.digits _ hc) (by decide)

example : IsUuid "0b7e3c1a-94d2-4f6e-8a50-c3d1e2f4a6b8" := by decide +kernel

end Gatehouse.Text
