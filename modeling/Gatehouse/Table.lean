/-!
# Tables

A value for each of finitely many keys.  Setting a key takes the place of what was there, so a table
never holds two values of one key, and what it answers depends on the last `set` of a key alone
(`get?_set`).
-/

namespace Gatehouse

/-- Values by keys. -/
structure Table (κ ν : Type) where
  rows : List (κ × ν)
  deriving Repr

namespace Table

variable {κ ν : Type} [DecidableEq κ]

/-- A table without rows. -/
def empty : Table κ ν := ⟨[]⟩

/-- The value of a key. -/
def get? (t : Table κ ν) (key : κ) : Option ν := (t.rows.find? fun r => r.1 = key).map Prod.snd

/-- The table with a value for a key. -/
def set (t : Table κ ν) (key : κ) (value : ν) : Table κ ν :=
  ⟨(key, value) :: t.rows.filter fun r => r.1 ≠ key⟩

theorem get?_empty (key : κ) : (empty : Table κ ν).get? key = none := rfl

/-- Only the key that was set has another value. -/
theorem get?_set (t : Table κ ν) (key other : κ) (value : ν) :
    (t.set key value).get? other = if key = other then some value else t.get? other := by
  by_cases h : key = other
  · simp [get?, set, h]
  · have hf : (t.rows.filter fun r => r.1 ≠ key).find? (fun r => r.1 = other) =
        t.rows.find? fun r => r.1 = other := by
      rw [List.find?_filter]
      congr 1
      funext r
      by_cases hr : r.1 = other
      · subst hr; simp [Ne.symm h]
      · simp [hr]
    simp only [get?, set, if_neg h]
    rw [List.find?_cons_of_neg (by simpa using h), hf]

end Table
end Gatehouse
