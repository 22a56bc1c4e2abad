import Gatehouse.Filter.Expr
import Gatehouse.Proofs.Json.Order

/-!
# Where the comparisons of filters agree

Order and equality are decided apart: `Json.compare?` takes two texts for times if both are times, and
`equal` compares their characters.

1. **Verdicts.**  Values of one sort have an order (`Verdict`), and all six comparisons are read off it
   and off equality.  Equality says that the order puts both in one place, and, the other way round, two
   values in one place are equal unless they write one time in two ways (`Respells`).
2. **Agreement.**  So the comparisons agree on two values of one sort if and only if these are not two
   ways to write one time.  Of these neither comes first and they are not equal, and yet each is less or
   equal to the other.
-/

namespace Gatehouse.Filter

/-- Two values of one sort among those that have an order. -/
inductive Alike : Json → Json → Prop
  | strings (a b : String) : Alike (.string a) (.string b)
  | numbers (a b : JsonNumber) : Alike (.number a) (.number b)
  | bools (a b : Bool) : Alike (.bool a) (.bool b)
  | nulls : Alike .null .null

/-- Two texts write one time in two ways. -/
inductive Respells : Json → Json → Prop
  | texts {a b : String} {t : Instant} (hne : a ≠ b) (ha : Instant.ofStrict? a = some t)
    (hb : Instant.ofStrict? b = some t) : Respells (.string a) (.string b)

variable {x y : Json}

theorem Alike.symm (h : Alike x y) : Alike y x := by
  cases h <;> constructor

theorem Respells.symm (h : Respells x y) : Respells y x := by
  cases h with
  | texts hne ha hb => exact .texts hne.symm hb ha

/-! ## Verdicts -/

/-- What order and equality say of two values. -/
structure Verdict (x y : Json) (o : Ordering) : Prop where
  order : Json.compare? x y = some o
  equal : equal x y = true ↔ o = .eq ∧ ¬ Respells x y

theorem Alike.exists_verdict (h : Alike x y) : ∃ o, Verdict x y o := by
  cases h with
  | strings a b =>
    refine ⟨_, rfl, ?_⟩
    have hequal : equal (.string a) (.string b) = true ↔ a = b := decide_eq_true_iff
    rw [hequal, Json.compareTexts_eq_eq]
    constructor
    · rintro rfl
      exact ⟨.inl rfl, fun ⟨hne, _, _⟩ => hne rfl⟩
    · rintro ⟨hab | ⟨t, ha, hb⟩, hnot⟩
      · exact hab
      · exact Classical.byContradiction fun hne => hnot (.texts hne ha hb)
  | numbers a b =>
    refine ⟨_, rfl, ?_⟩
    rw [Double.compare_eq_eq]
    exact ⟨fun h => ⟨h, nofun⟩, And.left⟩
  | bools a b =>
    refine ⟨_, rfl, ?_⟩
    have hequal : equal (.bool a) (.bool b) = true ↔ a = b := decide_eq_true_iff
    rw [hequal, Std.LawfulEqOrd.compare_eq_iff_eq]
    exact ⟨fun h => ⟨h, nofun⟩, And.left⟩
  | nulls => exact ⟨.eq, rfl, fun _ => ⟨rfl, nofun⟩, fun _ => rfl⟩

namespace Verdict

variable {o : Ordering}

theorem swap (h : Verdict x y o) (halike : Alike x y) : Verdict y x o.swap := by
  obtain ⟨p, hp⟩ := halike.symm.exists_verdict
  have hop : o.swap = p := by
    have horder := hp.order
    rw [Json.compare?_swap, h.order] at horder
    exact Option.some.inj horder
  exact hop ▸ hp

theorem holds_lt (h : Verdict x y o) : Comparison.lt.holds x y = true ↔ o = .lt := by
  simp [Comparison.holds, h.order]

theorem holds_gt (h : Verdict x y o) : Comparison.gt.holds x y = true ↔ o = .gt := by
  simp [Comparison.holds, h.order]

theorem holds_lte (h : Verdict x y o) : Comparison.lte.holds x y = true ↔ o = .lt ∨ o = .eq := by
  rw [Comparison.holds, h.order, Option.any_some]
  cases o <;> decide

theorem holds_gte (h : Verdict x y o) : Comparison.gte.holds x y = true ↔ o = .gt ∨ o = .eq := by
  rw [Comparison.holds, h.order, Option.any_some]
  cases o <;> decide

theorem holds_eq (h : Verdict x y o) : Comparison.eq.holds x y = true ↔ o = .eq ∧ ¬ Respells x y := h.equal

theorem holds_neq (h : Verdict x y o) : Comparison.neq.holds x y = true ↔ ¬ (o = .eq ∧ ¬ Respells x y) := by
  rw [← h.equal]
  simp [Comparison.holds]

end Verdict

theorem Respells.alike (h : Respells x y) : Alike x y := by
  cases h
  exact .strings _ _

theorem Respells.verdict (h : Respells x y) : Verdict x y .eq := by
  obtain ⟨o, ho⟩ := h.alike.exists_verdict
  cases h with
  | texts _ ha hb =>
    have horder : Json.compare? (.string _) (.string _) = some .eq :=
      congrArg some (Json.compareTexts_eq_eq.2 (.inr ⟨_, ha, hb⟩))
    cases ho.order.symm.trans horder
    exact ho

/-! ## Agreement -/

/-- The comparison that holds of two values turned around. -/
def Comparison.mirrored : Comparison → Comparison
  | .eq => .eq
  | .neq => .neq
  | .lt => .gt
  | .lte => .gte
  | .gt => .lt
  | .gte => .lte

/-- **Turning the values around turns the comparison around.** -/
theorem Alike.holds_mirrored (h : Alike x y) (op : Comparison) :
    op.mirrored.holds y x = true ↔ op.holds x y = true := by
  obtain ⟨o, ho⟩ := h.exists_verdict
  have hback := ho.swap h
  have hrespells : Respells y x ↔ Respells x y := ⟨Respells.symm, Respells.symm⟩
  cases op with
  | eq => rw [Comparison.mirrored, hback.holds_eq, ho.holds_eq, hrespells, Ordering.swap_eq_eq]
  | neq => rw [Comparison.mirrored, hback.holds_neq, ho.holds_neq, hrespells, Ordering.swap_eq_eq]
  | lt => rw [Comparison.mirrored, hback.holds_gt, ho.holds_lt, Ordering.swap_eq_gt]
  | lte => rw [Comparison.mirrored, hback.holds_gte, ho.holds_lte, Ordering.swap_eq_gt, Ordering.swap_eq_eq]
  | gt => rw [Comparison.mirrored, hback.holds_lt, ho.holds_gt, Ordering.swap_eq_lt]
  | gte => rw [Comparison.mirrored, hback.holds_lte, ho.holds_gte, Ordering.swap_eq_lt, Ordering.swap_eq_eq]

/-- A comparison of two operands holds of a document. -/
def Matches (document : Json) (a : Operand) (op : Comparison) (b : Operand) : Prop :=
  (Expr.compare a op b).holds document = true

/-- The comparisons of two operands agree with one another. -/
structure Agree (document : Json) (a b : Operand) : Prop where
  /-- One of the three holds, and only one. -/
  one : ∃ op ∈ [Comparison.lt, .eq, .gt], ∀ other ∈ [Comparison.lt, .eq, .gt],
    Matches document a other b ↔ other = op
  lte : Matches document a .lte b ↔ Matches document a .lt b ∨ Matches document a .eq b
  gte : Matches document a .gte b ↔ Matches document a .gt b ∨ Matches document a .eq b
  neq : Matches document a .neq b ↔ ¬ Matches document a .eq b
  mirrored : ∀ op : Comparison, Matches document b op.mirrored a ↔ Matches document a op b

variable {document : Json} {a b : Operand}

theorem agree_of_not_respells (h : Alike (a.value document) (b.value document))
    (hnot : ¬ Respells (a.value document) (b.value document)) : Agree document a b := by
  obtain ⟨o, ho⟩ := h.exists_verdict
  have heq : Matches document a .eq b ↔ o = .eq := ho.holds_eq.trans (and_iff_left hnot)
  have hlt : Matches document a .lt b ↔ o = .lt := ho.holds_lt
  have hgt : Matches document a .gt b ↔ o = .gt := ho.holds_gt
  refine ⟨?_, ?_, ?_, ?_, h.holds_mirrored⟩
  · cases o with
    | lt => exact ⟨.lt, by simp, by simp [heq, hlt, hgt]⟩
    | eq => exact ⟨.eq, by simp, by simp [heq, hlt, hgt]⟩
    | gt => exact ⟨.gt, by simp, by simp [heq, hlt, hgt]⟩
  · exact ho.holds_lte.trans (or_congr hlt.symm heq.symm)
  · exact ho.holds_gte.trans (or_congr hgt.symm heq.symm)
  · exact ho.holds_neq.trans (not_congr ho.holds_eq.symm)

/-- Of two ways to write one time neither comes first and they are not equal, and yet each is less or
equal to the other. -/
theorem matches_of_respells (h : Respells (a.value document) (b.value document)) (op : Comparison) :
    Matches document a op b ↔ op ∈ [Comparison.neq, .lte, .gte] := by
  have hverdict := h.verdict
  cases op with
  | eq => exact hverdict.holds_eq.trans (by simp [h])
  | neq => exact hverdict.holds_neq.trans (by simp [h])
  | lt => exact hverdict.holds_lt.trans (by simp)
  | lte => exact hverdict.holds_lte.trans (by simp)
  | gt => exact hverdict.holds_gt.trans (by simp)
  | gte => exact hverdict.holds_gte.trans (by simp)

theorem not_agree_of_respells (h : Respells (a.value document) (b.value document)) :
    ¬ Agree document a b := by
  rintro ⟨⟨op, hop, hone⟩, -⟩
  have hmatches := (matches_of_respells h op).1 ((hone op hop).2 rfl)
  simp only [List.mem_cons, List.not_mem_nil, or_false] at hop
  rcases hop with rfl | rfl | rfl <;> simp at hmatches

/-- **The comparisons of two values of one sort agree, except on two ways to write one time.**  These are
not equal and neither comes first, and yet each is less or equal to the other. -/
theorem agree_iff_not_respells (h : Alike (a.value document) (b.value document)) :
    (Agree document a b ↔ ¬ Respells (a.value document) (b.value document)) ∧
      (Respells (a.value document) (b.value document) → ∀ op,
        (Matches document a op b ↔ op ∈ [Comparison.neq, .lte, .gte]) ∧
          (Matches document b op.mirrored a ↔ Matches document a op b)) :=
  ⟨⟨fun hagree hrespells => not_agree_of_respells hrespells hagree, agree_of_not_respells h⟩,
    fun hrespells op => ⟨matches_of_respells hrespells op, h.holds_mirrored op⟩⟩

/-- A time in two time zones. -/
def twoZones : Json :=
  .object [("a", .string "2021-03-01T12:00:00Z"), ("b", .string "2021-03-01T14:00:00+02:00")]

theorem agree_iff_not_respells_twoZones :
    Agree twoZones (.field ["a"]) (.literal (.string "noon")) ∧
      ¬ Agree twoZones (.field ["a"]) (.field ["b"]) ∧ Matches twoZones (.field ["a"]) .lte (.field ["b"]) := by
  have hnoon : Instant.ofStrict? "noon" = none := by decide +kernel
  have hrespells : Respells (.string "2021-03-01T12:00:00Z") (.string "2021-03-01T14:00:00+02:00") :=
    .texts (t := ⟨1614600000, 0⟩) (by decide) (by decide +kernel) (by decide +kernel)
  have hzones : Alike ((Operand.field ["a"]).value twoZones) ((Operand.field ["b"]).value twoZones) :=
    .strings _ _
  have hword : Alike ((Operand.field ["a"]).value twoZones)
      ((Operand.literal (.string "noon")).value twoZones) := .strings _ _
  refine ⟨(agree_iff_not_respells hword).1.2 ?_, fun h => (agree_iff_not_respells hzones).1.1 h hrespells,
    (((agree_iff_not_respells hzones).2 hrespells .lte).1).2 (by decide)⟩
  intro h
  cases h with
  | texts _ _ ht => cases hnoon.symm.trans ht

/-- The comparisons of two texts need not agree: one time in two time zones is less or equal, but neither
less nor equal. -/
theorem not_forall_agree : ¬ ∀ document a b, Alike (a.value document) (b.value document) →
    Agree document a b := by
  intro hagree
  have hlte := (hagree twoZones (.field ["a"]) (.field ["b"]) (.strings _ _)).lte
  have hnone : ¬ (Matches twoZones (.field ["a"]) .lt (.field ["b"]) ∨
      Matches twoZones (.field ["a"]) .eq (.field ["b"])) := by
    rintro (h | h) <;> exact absurd h (by unfold Matches; decide +kernel)
  exact hnone (hlte.1 (by unfold Matches; decide +kernel))

end Gatehouse.Filter
