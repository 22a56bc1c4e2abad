import Gatehouse.Json.Record

/-!
# Members of objects

Where a member of an object is found, and what has been read if a reading succeeded.

1. **Parts.**  The members of an object that is written come one part after the other: `member?_append`
   goes through the parts.  The members that a record does not know are one of them.
2. **Readings.**  A reading that succeeded tells what was written at its place
   (`Record.eq_of_defaulted`, `Record.eq_of_optional`).
-/

namespace Gatehouse.Json

/-! ## Members of objects -/

section

variable {names : List String} {name : String} {as bs : List (String × Json)}

theorem member?_append : member? name (as ++ bs) = (member? name as).or (member? name bs) := by
  induction as with
  | nil => rfl
  | cons m as ih =>
    obtain ⟨key, v⟩ := m
    by_cases hkey : key = name <;> simp [member?, hkey, ih]

theorem member?_membersExcept (h : name ∉ names) :
    member? name (membersExcept names as) = member? name as := by
  induction as with
  | nil => rfl
  | cons m as ih =>
    obtain ⟨key, v⟩ := m
    by_cases hkey : key = name
    · simp [membersExcept, member?, hkey, h]
    · by_cases hmem : key ∈ names <;> simpa [membersExcept, member?, hkey, hmem] using ih

theorem member?_membersExcept_of_mem (h : name ∈ names) :
    member? name (membersExcept names as) = none := by
  induction as with
  | nil => rfl
  | cons m as ih =>
    obtain ⟨key, v⟩ := m
    by_cases hmem : key ∈ names
    · simpa [membersExcept, hmem] using ih
    · have hkey : key ≠ name := fun hkey => hmem (hkey ▸ h)
      simpa [membersExcept, member?, hmem, hkey] using ih

theorem name_of_mem_memberUnless {omitted : Bool} {value : Json} {m : String × Json}
    (h : m ∈ memberUnless omitted name value) : m.1 = name := by
  cases omitted
  · exact congrArg Prod.fst (List.mem_singleton.1 h)
  · exact absurd h List.not_mem_nil

theorem name_of_mem_memberOfSome {α : Type} {write : α → Json} {a? : Option α} {m : String × Json}
    (h : m ∈ memberOfSome name write a?) : m.1 = name := by
  cases a? with
  | none => exact absurd h List.not_mem_nil
  | some a => exact congrArg Prod.fst (List.mem_singleton.1 h)

theorem member?_memberOfSome {α : Type} (write : α → Json) (a? : Option α) :
    member? name (memberOfSome name write a?) = a?.map write := by
  cases a? <;> simp [memberOfSome, member?]

theorem member?_memberOfSome_of_ne {α : Type} {write : α → Json} {a? : Option α} {other : String}
    (h : name ≠ other) : member? other (memberOfSome name write a?) = none := by
  cases a? <;> simp [memberOfSome, member?, h]

theorem lookup?_single (name : String) (members : List (String × Json)) :
    lookup? [name] (.object members) = member? name members := by
  cases h : member? name members <;> simp [lookup?, h]

theorem lookup?_append (path rest : List String) (value : Json) :
    lookup? (path ++ rest) value = (lookup? path value).bind (lookup? rest) := by
  induction path generalizing value with
  | nil => rfl
  | cons name path ih =>
    cases value with
    | object members => cases h : member? name members <;> simp [lookup?, h, ih]
    | _ => rfl

end

/-! ## Readings -/

namespace Record

variable {α : Type} {r : Record} {name : String} {read : Json → Option α} {a : α}

/-- The record of an object has what is written there. -/
theorem eq_of_ofObject? {names : List String} (h : ofObject? names value = some r) (name : String) :
    r name = lookup? [name] value := by
  cases value with
  | object members =>
    rw [ofObject?] at h
    split at h
    · rw [← Option.some.inj h, lookup?_single]
    · contradiction
  | _ => contradiction

/-- A member with a default is the one that was read, or it was not written. -/
theorem eq_of_defaulted {default : α} (h : r.defaulted name read default = some a) :
    r name = none ∧ a = default ∨ ∃ value, r name = some value ∧ read value = some a := by
  unfold defaulted at h
  split at h
  · exact .inr ⟨_, ‹_›, h⟩
  · exact .inl ⟨‹_›, (Option.some.inj h).symm⟩

/-- There is an optional member if one was read; otherwise nothing is found at its place. -/
theorem eq_of_optional {a? : Option α} (h : r.optional name read = some a?) :
    a? = none ∧ (r name = none ∨ r name = some .null) ∨
      ∃ value a, r name = some value ∧ read value = some a ∧ a? = some a := by
  unfold optional at h
  split at h
  · exact .inl ⟨(Option.some.inj h).symm, .inl ‹_›⟩
  · exact .inl ⟨(Option.some.inj h).symm, .inr ‹_›⟩
  · obtain ⟨a, ha, rfl⟩ := Option.map_eq_some_iff.1 h
    exact .inr ⟨_, a, ‹_›, ha, rfl⟩

end Record
end Gatehouse.Json
