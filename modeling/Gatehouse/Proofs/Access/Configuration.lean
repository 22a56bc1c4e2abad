import Gatehouse.Access.Gate

/-!
# Decisions follow from the configuration

A gate is configured row by row.  A row of requirements takes the place of the earlier rows of its method;
a row of grants is added to what its role was granted before.

1. **One row** (`row?_require`, `held_grant`) changes the entry of its own method or role only.
2. **Any rows** (`row?_foldl`, `mem_held_foldl`), by induction on them.  The entry of a method is its last
   row (`IsLastRow`).  The entry of a role holds what is in any of its rows (`Granted`), so of grants only
   their set matters.
3. **Decisions** (`admits_iff`) are said in these two words.  Neither speaks of the order of grants or
   roles, and `Granted` never becomes false when rows are added.
-/

namespace Gatehouse.Access

variable {rows : List (Method × List Permission)} {grants others : List (Role × List Permission)}
  {caller : Caller} {method : Method} {role : Role} {p : Permission}

/-! ## Requirements -/

namespace Requirements

/-- The requirements that rows make, one after the other. -/
def ofRows (rows : List (Method × List Permission)) : Requirements :=
  rows.foldl (fun r row => r.require row.1 row.2) empty

/-- The permissions are those of the last row of the method. -/
def IsLastRow (rows : List (Method × List Permission)) (method : Method) (required : List Permission) : Prop :=
  ∃ before after, rows = before ++ (method, required) :: after ∧ ∀ row ∈ after, row.1 ≠ method

/-- **One row** is the row of its method from then on. -/
theorem row?_require (r : Requirements) (method other : Method) (required : List Permission) :
    (r.require method required).row? other = if method = other then some required else r.row? other :=
  Table.get?_set ..

theorem not_isLastRow_nil {required : List Permission} : ¬ IsLastRow [] method required := by
  rintro ⟨before, after, h, -⟩
  simp at h

/-- The last row is behind the first one, or is the first one and there is no other. -/
theorem isLastRow_cons {row : Method × List Permission} {required : List Permission} :
    IsLastRow (row :: rows) method required ↔
      IsLastRow rows method required ∨ (row = (method, required) ∧ ∀ other ∈ rows, other.1 ≠ method) := by
  constructor
  · rintro ⟨before, after, h, hafter⟩
    cases before with
    | nil =>
      obtain ⟨rfl, rfl⟩ := List.cons.inj h
      exact .inr ⟨rfl, hafter⟩
    | cons _ before => exact .inl ⟨before, after, (List.cons.inj h).2, hafter⟩
  · rintro (⟨before, after, rfl, hafter⟩ | ⟨rfl, hnone⟩)
    · exact ⟨row :: before, after, rfl, hafter⟩
    · exact ⟨[], rows, rfl, hnone⟩

/-- **Any rows**: a method has its last row, or what it had before if it has none. -/
theorem row?_foldl (r : Requirements) {required : List Permission} :
    (rows.foldl (fun r row => r.require row.1 row.2) r).row? method = some required ↔
      IsLastRow rows method required ∨ ((∀ row ∈ rows, row.1 ≠ method) ∧ r.row? method = some required) := by
  induction rows generalizing r with
  | nil => simp [not_isLastRow_nil]
  | cons row rows ih =>
    rw [List.foldl_cons, ih, isLastRow_cons, row?_require]
    by_cases hrow : row.1 = method
    · obtain ⟨first, permissions⟩ := row
      subst hrow
      simp [and_comm]
    · have hne : row ≠ (method, required) := by
        rintro rfl
        exact hrow rfl
      simp [hrow, hne]

/-- The row of a method in a table that was made row by row is its last one. -/
theorem row?_ofRows {required : List Permission} :
    (ofRows rows).row? method = some required ↔ IsLastRow rows method required := by
  have hempty : empty.row? method = none := rfl
  rw [ofRows, row?_foldl, hempty]
  simp

end Requirements

/-! ## Grants -/

namespace Grants

/-- The grants that rows make, one after the other. -/
def ofRows (rows : List (Role × List Permission)) : Grants :=
  rows.foldl (fun g row => g.grant row.1 row.2) empty

/-- Some row grants the permission to the role. -/
def Granted (grants : List (Role × List Permission)) (role : Role) (p : Permission) : Prop :=
  ∃ row ∈ grants, row.1 = role ∧ p ∈ row.2

/-- **One row** adds to what its role held. -/
theorem held_grant (g : Grants) (role other : Role) (permissions : List Permission) :
    (g.grant role permissions).held other =
      if role = other then g.held other ++ permissions else g.held other := by
  rw [held, grant, Table.get?_set]
  split
  · rename_i h
    rw [h, Option.getD_some]
  · rfl

theorem granted_cons {row : Role × List Permission} :
    Granted (row :: grants) role p ↔ (row.1 = role ∧ p ∈ row.2) ∨ Granted grants role p := by
  simp [Granted]

/-- **Any rows**: a role holds what it held before and what any of the rows grants it. -/
theorem mem_held_foldl (g : Grants) :
    p ∈ (grants.foldl (fun g row => g.grant row.1 row.2) g).held role ↔
      p ∈ g.held role ∨ Granted grants role p := by
  induction grants generalizing g with
  | nil => simp [Granted]
  | cons row grants ih =>
    rw [List.foldl_cons, ih, held_grant, granted_cons]
    by_cases hrow : row.1 = role
    · simp [hrow, or_assoc]
    · simp [hrow]

theorem mem_held_ofRows : p ∈ (ofRows grants).held role ↔ Granted grants role p := by
  have hempty : empty.held role = [] := rfl
  rw [ofRows, mem_held_foldl, hempty]
  simp

theorem Granted.mono (h : Granted grants role p) (hsub : grants ⊆ others) : Granted others role p := by
  obtain ⟨row, hrow, hp⟩ := h
  exact ⟨row, hsub hrow, hp⟩

/-- A caller holds permissions if each was granted to one of the roles. -/
theorem holds_ofRows {required : List Permission} :
    (ofRows grants).holds caller required = true ↔
      ∀ p ∈ required, ∃ role ∈ caller.roles, Granted grants role p := by
  simp [holds, mem_held_ofRows]

/-- The rows of grants differ by their order, by rows that are split, and by rows that are repeated. -/
inductive Rearranged : List (Role × List Permission) → List (Role × List Permission) → Prop
  | perm {grants others : List (Role × List Permission)} (h : grants.Perm others) : Rearranged grants others
  | split (role : Role) (some more : List Permission) (grants : List (Role × List Permission)) :
      Rearranged ((role, some ++ more) :: grants) ((role, some) :: (role, more) :: grants)
  | again {row : Role × List Permission} {grants : List (Role × List Permission)} (h : row ∈ grants) :
      Rearranged grants (row :: grants)
  | symm {grants others : List (Role × List Permission)} (h : Rearranged grants others) :
      Rearranged others grants
  | trans {grants others more : List (Role × List Permission)} (h : Rearranged grants others)
      (h' : Rearranged others more) : Rearranged grants more

/-- Rearranged rows grant the same. -/
theorem Rearranged.granted_iff (h : Rearranged grants others) :
    Granted grants role p ↔ Granted others role p := by
  induction h with
  | perm h => simp only [Granted, h.mem_iff]
  | split first some more grants =>
    simp only [granted_cons, List.mem_append]
    rw [and_or_left, or_assoc]
  | @again row grants h =>
    rw [granted_cons]
    constructor
    · exact .inr
    · rintro (⟨hrole, hp⟩ | hgranted)
      · exact ⟨row, h, hrole, hp⟩
      · exact hgranted
  | symm _ ih => exact ih.symm
  | trans _ _ ih ih' => exact ih.trans ih'

end Grants

/-! ## Decisions -/

open Requirements Grants

/-- The decision of a gate that was configured row by row. -/
def admits (rows : List (Method × List Permission)) (grants : List (Role × List Permission)) (caller : Caller)
    (method : Method) : Bool :=
  (Requirements.ofRows rows).allow (Grants.ofRows grants).holds caller method

theorem admits_iff : admits rows grants caller method = true ↔
    ∃ required, IsLastRow rows method required ∧
      ∀ p ∈ required, ∃ role ∈ caller.roles, Granted grants role p := by
  rw [admits, allow]
  constructor
  · intro h
    split at h
    · rename_i required hrow
      exact ⟨required, row?_ofRows.1 hrow, holds_ofRows.1 h⟩
    · contradiction
  · rintro ⟨required, hlast, hheld⟩
    rw [row?_ofRows.2 hlast]
    exact holds_ofRows.2 hheld

/-- More roles and more grants are never denied what fewer are allowed. -/
theorem admits_mono {caller' : Caller} (hgrants : grants ⊆ others) (hroles : caller.roles ⊆ caller'.roles)
    (h : admits rows grants caller method = true) : admits rows others caller' method = true := by
  obtain ⟨required, hlast, hheld⟩ := admits_iff.1 h
  refine admits_iff.2 ⟨required, hlast, fun p hp => ?_⟩
  obtain ⟨role, hrole, hgranted⟩ := hheld p hp
  exact ⟨role, hroles hrole, hgranted.mono hgrants⟩

/-- **A decision follows from what was configured.**  For every table that is made row by row and all
grants that are made row by row:

* a caller may call a method if and only if the method has a last row, and each permission in it is in
  some row of grants for one of the caller's roles;
* if the grants are rearranged, and the caller's roles repeated or put in another order, the decision is
  the same;
* what is allowed stays allowed with more rows of grants and with more roles;
* a caller of several roles holds what one of the roles holds alone, and no more. -/
theorem admits_by_configuration (rows : List (Method × List Permission))
    (grants : List (Role × List Permission)) (caller : Caller) (method : Method) :
    (admits rows grants caller method = true ↔
      ∃ required, IsLastRow rows method required ∧
        ∀ p ∈ required, ∃ role ∈ caller.roles, Granted grants role p) ∧
    (∀ (others : List (Role × List Permission)) (caller' : Caller), Rearranged grants others →
      (∀ role, role ∈ caller'.roles ↔ role ∈ caller.roles) →
      admits rows others caller' method = admits rows grants caller method) ∧
    (∀ (others : List (Role × List Permission)) (caller' : Caller), grants ⊆ others →
      caller.roles ⊆ caller'.roles → admits rows grants caller method = true →
      admits rows others caller' method = true) ∧
    ∀ p : Permission, (Grants.ofRows grants).holds caller [p] = true ↔
      ∃ role ∈ caller.roles, (Grants.ofRows grants).holds ⟨caller.subject, [role]⟩ [p] = true := by
  refine ⟨admits_iff, fun others caller' hgrants hroles => ?_, fun others caller' => admits_mono, fun p => ?_⟩
  · rw [Bool.eq_iff_iff, admits_iff, admits_iff]
    simp only [hroles, hgrants.granted_iff]
  · simp [holds_ofRows]

/-- Two roles together, and a row of grants that is split between the others. -/
theorem admits_by_configuration_split :
    Rearranged [(.policyDeveloper, [.policyRead, .policyWrite]), (.enforcer, [.resourceEvaluate])]
      [(.policyDeveloper, [.policyWrite]), (.enforcer, [.resourceEvaluate]), (.policyDeveloper, [.policyRead])] ∧
    admits [(.updatePolicy, []), (.updatePolicy, [.policyWrite, .resourceEvaluate])]
      [(.policyDeveloper, [.policyWrite]), (.enforcer, [.resourceEvaluate]), (.policyDeveloper, [.policyRead])]
      ⟨"dev", [.enforcer, .policyDeveloper, .enforcer]⟩ .updatePolicy = true := by
  have hrearranged : Rearranged
      [(.policyDeveloper, [.policyRead, .policyWrite]), (.enforcer, [.resourceEvaluate])]
      [(.policyDeveloper, [.policyWrite]), (.enforcer, [.resourceEvaluate]),
        (.policyDeveloper, [.policyRead])] :=
    (Rearranged.split .policyDeveloper [.policyRead] [.policyWrite] _).trans (.perm (by decide))
  have hsame := (admits_by_configuration
    [(.updatePolicy, []), (.updatePolicy, [.policyWrite, .resourceEvaluate])]
    [(.policyDeveloper, [.policyRead, .policyWrite]), (.enforcer, [.resourceEvaluate])]
    ⟨"dev", [.policyDeveloper, .enforcer]⟩ .updatePolicy).2.1 _
      ⟨"dev", [.enforcer, .policyDeveloper, .enforcer]⟩ hrearranged (by simp [or_comm])
  exact ⟨hrearranged, hsame.trans (by decide)⟩

end Gatehouse.Access
