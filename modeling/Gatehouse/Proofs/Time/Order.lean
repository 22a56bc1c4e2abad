import Gatehouse.Time.Instant

/-!
# Chronological order

Instants are ordered by their seconds, then by their nanoseconds.  The order is total, and only an
instant itself is at its place.
-/

namespace Gatehouse.Instant

theorem compare_eq : Instant.compare =
    compareLex (compareOn fun t : Instant => t.seconds) (compareOn fun t : Instant => t.nanos) := rfl

instance : Std.TransCmp Instant.compare := by
  rw [compare_eq]
  infer_instance

instance : Std.LawfulEqCmp Instant.compare where
  eq_of_compare {a b} h := by
    obtain ⟨hseconds, hnanos⟩ := Ordering.then_eq_eq.1 h
    cases a
    cases b
    rw [mk.injEq]
    exact ⟨Std.LawfulEqOrd.eq_of_compare hseconds, Std.LawfulEqOrd.eq_of_compare hnanos⟩

/-- The later instant comes first. -/
def compareLater (a b : Instant) : Ordering := b.compare a

instance : Std.TransCmp compareLater where
  eq_swap {_ _} := @Std.OrientedCmp.eq_swap _ Instant.compare _ _ _
  isLE_trans hab hbc := @Std.TransCmp.isLE_trans _ Instant.compare _ _ _ _ hbc hab

end Gatehouse.Instant
