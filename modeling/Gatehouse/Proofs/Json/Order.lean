import Gatehouse.Json.Order
import Gatehouse.Proofs.Number.Double
import Gatehouse.Proofs.Time.Order

/-!
# The laws of the order of scalars

`Json.compare?` compares two values at a time, and what it does with a text depends on the other one:
only two times are compared as times.  So its laws are of two sorts.

1. **For any two values** turning the comparison around turns its answer around (`compare?_swap`), and
   two texts have the same place if they are the same or are times of one instant
   (`compareTexts_eq_eq`).
2. **For three values** of one kind (`kind`) the order is transitive (`order_trans`).  A time is of
   another kind than a text that is none: a time may be before another one although its characters come
   after those of a third text, which come after those of the other time.
-/

namespace Gatehouse.Json

/-! ## Two values -/

theorem compareTexts_swap (a b : String) : compareTexts a b = (compareTexts b a).swap := by
  unfold compareTexts
  cases Instant.ofStrict? a with
  | none => cases Instant.ofStrict? b <;> exact Std.OrientedOrd.eq_swap
  | some s =>
    cases Instant.ofStrict? b with
    | none => exact Std.OrientedOrd.eq_swap
    | some t => exact @Std.OrientedCmp.eq_swap _ Instant.compare _ _ _

/-- Texts have the same place if they are the same, or times of one instant. -/
theorem compareTexts_eq_eq {a b : String} : compareTexts a b = .eq ↔
    a = b ∨ ∃ t, Instant.ofStrict? a = some t ∧ Instant.ofStrict? b = some t := by
  unfold compareTexts
  split
  · rename_i s t hs ht
    rw [@Std.LawfulEqCmp.compare_eq_iff_eq _ Instant.compare _ _ _]
    constructor
    · rintro rfl
      exact .inr ⟨s, hs, ht⟩
    · rintro (rfl | ⟨u, hsu, htu⟩)
      · exact Option.some.inj (hs.symm.trans ht)
      · exact Option.some.inj (hs.symm.trans (hsu.trans (htu.symm.trans ht)))
  · rename_i hnot
    rw [Std.LawfulEqOrd.compare_eq_iff_eq]
    exact ⟨.inl, fun h => h.resolve_right fun ⟨t, hs, ht⟩ => hnot t t hs ht⟩

/-- **Turning a comparison around turns its answer around.** -/
theorem compare?_swap (a b : Json) : compare? a b = (compare? b a).map Ordering.swap := by
  cases a <;> cases b <;> try rfl
  case number.number m n => exact congrArg some (@Std.OrientedCmp.eq_swap _ Double.compare _ _ _)
  case string.string s t => exact congrArg some (compareTexts_swap s t)
  case bool.bool p q => exact congrArg some Std.OrientedOrd.eq_swap

/-! ## Three values -/

/-- What a value is to an order. -/
inductive Kind where
  | number
  /-- A text in strict RFC 3339. -/
  | time
  /-- Any other text. -/
  | text
  | truth
  | null
  /-- An array or an object. -/
  | composite
  deriving DecidableEq

/-- The kind of a value. -/
def kind : Json → Kind
  | .number _ => .number
  | .string s => if (Instant.ofStrict? s).isSome then .time else .text
  | .bool _ => .truth
  | .null => .null
  | .array _ | .object _ => .composite

/-- The order of two values in a sort, where values without an order have the same place. -/
def order (a b : Json) : Ordering := (compare? a b).getD .eq

variable {a b c : Json}

theorem order_swap (a b : Json) : order a b = (order b a).swap := by
  rw [order, order, compare?_swap a b]
  cases compare? b a <;> rfl

theorem eq_number_of_kind (h : a.kind = .number) : ∃ n, a = .number n := by
  cases a with
  | number n => exact ⟨n, rfl⟩
  | string s => rw [kind] at h; split at h <;> contradiction
  | _ => contradiction

theorem eq_truth_of_kind (h : a.kind = .truth) : ∃ b, a = .bool b := by
  cases a with
  | bool b => exact ⟨b, rfl⟩
  | string s => rw [kind] at h; split at h <;> contradiction
  | _ => contradiction

theorem eq_time_of_kind (h : a.kind = .time) : ∃ s t, a = .string s ∧ Instant.ofStrict? s = some t := by
  cases a with
  | string s =>
    rw [kind] at h
    split at h
    · rename_i hs
      obtain ⟨t, ht⟩ := Option.isSome_iff_exists.1 hs
      exact ⟨s, t, rfl, ht⟩
    · contradiction
  | _ => contradiction

theorem eq_text_of_kind (h : a.kind = .text) : ∃ s, a = .string s ∧ Instant.ofStrict? s = none := by
  cases a with
  | string s =>
    rw [kind] at h
    split at h
    · contradiction
    · rename_i hs
      exact ⟨s, rfl, by simpa using hs⟩
  | _ => contradiction

/-- Values that are null, or arrays and objects, all have the same place. -/
theorem order_eq_eq_of_kind (h : a.kind = .null ∨ a.kind = .composite)
    (hb : b.kind = .null ∨ b.kind = .composite) : order a b = .eq := by
  cases a with
  | string s => rw [kind] at h; split at h <;> simp at h
  | number n => simp [kind] at h
  | bool p => simp [kind] at h
  | _ =>
    cases b with
    | string s => rw [kind] at hb; split at hb <;> simp at hb
    | _ => rfl

/-- **Within a kind the order is transitive.** -/
theorem order_trans (hab : a.kind = b.kind) (hbc : b.kind = c.kind) (h : (order a b).isLE = true)
    (h' : (order b c).isLE = true) : (order a c).isLE = true := by
  cases hc : c.kind with
  | number =>
    obtain ⟨n, rfl⟩ := eq_number_of_kind hc
    obtain ⟨m, rfl⟩ := eq_number_of_kind (hbc.trans hc)
    obtain ⟨l, rfl⟩ := eq_number_of_kind (hab.trans (hbc.trans hc))
    exact @Std.TransCmp.isLE_trans _ Double.compare _ _ _ _ h h'
  | truth =>
    obtain ⟨r, rfl⟩ := eq_truth_of_kind hc
    obtain ⟨q, rfl⟩ := eq_truth_of_kind (hbc.trans hc)
    obtain ⟨p, rfl⟩ := eq_truth_of_kind (hab.trans (hbc.trans hc))
    exact @Std.TransCmp.isLE_trans Bool Ord.compare _ _ _ _ h h'
  | time =>
    obtain ⟨z, u, rfl, hu⟩ := eq_time_of_kind hc
    obtain ⟨y, t, rfl, ht⟩ := eq_time_of_kind (hbc.trans hc)
    obtain ⟨x, s, rfl, hs⟩ := eq_time_of_kind (hab.trans (hbc.trans hc))
    simp only [order, compare?, compareTexts, hs, ht, hu, Option.getD_some] at h h' ⊢
    exact @Std.TransCmp.isLE_trans _ Instant.compare _ _ _ _ h h'
  | text =>
    obtain ⟨z, rfl, hz⟩ := eq_text_of_kind hc
    obtain ⟨y, rfl, hy⟩ := eq_text_of_kind (hbc.trans hc)
    obtain ⟨x, rfl, hx⟩ := eq_text_of_kind (hab.trans (hbc.trans hc))
    simp only [order, compare?, compareTexts, hx, hy, hz, Option.getD_some] at h h' ⊢
    exact Std.TransOrd.isLE_trans h h'
  | null =>
    rw [order_eq_eq_of_kind (.inl (hab.trans (hbc.trans hc))) (.inl hc)]
    rfl
  | composite =>
    rw [order_eq_eq_of_kind (.inr (hab.trans (hbc.trans hc))) (.inr hc)]
    rfl

end Gatehouse.Json
