import Gatehouse.Proofs.Time.Reading
import Mathlib.Data.List.TakeWhile

/-!
# The instants that are read back

A written instant is read back exactly if a clock may show it.  One direction is the round trip; the other is
that the lenient reading gives nothing else.

1. **Yields.**  What a reader may give is said by a predicate, and `Yields.bind` goes through a reader item by
   item: the decimal places make less than a second, and an offset is a number of whole minutes.
2. **Wall clocks.**  An offset of whole minutes leaves a leap second the last one of its minute, and the year is
   looked at before the instant is given.
-/

namespace Gatehouse

namespace TimeReader

open Gatehouse.Text

variable {α β : Type}

/-- Whatever a reader gives is such. -/
def Yields (p : TimeReader α) (P : α → Prop) : Prop := ∀ cs a rest, p cs = some (a, rest) → P a

theorem Yields.of_eq {p : TimeReader α} {P : α → Prop} (hp : Yields p P) {cs rest : List Char} {a : α}
    (h : p cs = some (a, rest)) : P a := hp cs a rest h

theorem Yields.bind {p : TimeReader α} {f : α → TimeReader β} {P : α → Prop} {Q : β → Prop}
    (hp : Yields p P) (hf : ∀ a, P a → Yields (f a) Q) : Yields (p >>= f) Q := by
  intro cs b rest h
  obtain ⟨⟨a, mid⟩, ha, hb⟩ := Option.bind_eq_some_iff.1 (show (p cs).bind (fun x => f x.1 x.2) = _ from h)
  exact hf a (hp cs a mid ha) mid b rest hb

/-- What an item gives need not be known. -/
theorem Yields.next {p : TimeReader α} {f : α → TimeReader β} {Q : β → Prop} (hf : ∀ a, Yields (f a) Q) :
    Yields (p >>= f) Q :=
  Yields.bind (P := fun _ => True) (fun _ _ _ _ => trivial) fun a _ => hf a

theorem yields_pure {a : α} {P : α → Prop} (h : P a) : Yields (pure a : TimeReader α) P := by
  intro cs b rest hb
  cases hb
  exact h

theorem yields_failure {P : α → Prop} : Yields (failure : TimeReader α) P := nofun

/-- What is refused gives nothing. -/
theorem Yields.unless {c : Prop} [Decidable c] {f : α → TimeReader β} {q : TimeReader β} {Q : β → Prop}
    (hq : Yields q Q) : Yields (if c then failure >>= f else q) Q := by
  split
  · exact yields_failure.bind fun _ h => absurd h not_false
  · exact hq

theorem Yields.orElse {p q : TimeReader α} {P : α → Prop} (hp : Yields p P) (hq : Yields q P) :
    Yields (p <|> q) P := by
  intro cs a rest h
  have hboth : (p cs).orElse (fun _ => q cs) = some (a, rest) := h
  cases hcs : p cs with
  | none => exact hq cs a rest (by rwa [hcs] at hboth)
  | some x => exact hp cs a rest (by rwa [hcs] at hboth ⊢)

/-- Digits write a number of no more places than they are. -/
theorem ofDigits_lt {cs : List Char} (h : ∀ c ∈ cs, c.isDigit = true) : ofDigits cs < 10 ^ cs.length := by
  -- behind digits read already, each further one is one place more
  have hfrom : ∀ cs : List Char, (∀ c ∈ cs, c.isDigit = true) → ∀ n,
      cs.foldl (fun n c => 10 * n + digitValue c) n < (n + 1) * 10 ^ cs.length := by
    intro cs
    induction cs with
    | nil => intro _ n; simp
    | cons c cs ih =>
      intro hcs n
      have hc := digitValue_lt (hcs c List.mem_cons_self)
      have hrest := ih (fun c hc => hcs c (List.mem_cons_of_mem _ hc)) (10 * n + digitValue c)
      refine Nat.lt_of_lt_of_le hrest ?_
      rw [List.length_cons, Nat.pow_succ', ← Nat.mul_assoc]
      exact Nat.mul_le_mul_right _ (by omega)
  simpa [ofDigits] using hfrom cs h 0

/-- The decimal places are less than a second. -/
theorem yields_fraction : Yields fraction fun n => n < Instant.nanosPerSecond := by
  intro cs n rest h
  unfold fraction at h
  split at h
  · rename_i cs
    dsimp only at h
    split at h
    · contradiction
    · cases h
      have hdigits : ∀ c ∈ (cs.takeWhile Char.isDigit).take 9, c.isDigit = true := fun c hc =>
        List.mem_takeWhile_imp (List.mem_of_mem_take hc)
      have hlength : ((cs.takeWhile Char.isDigit).take 9).length ≤ 9 := by simp
      have hlt := Nat.mul_lt_mul_of_pos_right (ofDigits_lt hdigits)
        (Nat.pow_pos (n := 9 - ((cs.takeWhile Char.isDigit).take 9).length) (show 0 < 10 by decide))
      rw [← Nat.pow_add, Nat.add_sub_cancel' hlength] at hlt
      exact hlt
  · cases h
    decide

/-- An offset is a number of whole minutes. -/
theorem yields_offset (separator : TimeReader Unit) : Yields (offset separator) fun n => n % 60 = 0 := by
  intro cs n rest h
  unfold offset at h
  split at h
  · cases h
    rfl
  · cases h
    rfl
  · have hyields : Yields (do
      let sign ← oneOf ['+', '-', '\u2212']
      let hours ← number 2 2
      separator
      let minutes ← number 2 2
      if 59 < minutes then failure
      let seconds : Int := hours * 3600 + minutes * 60
      if Instant.secondsPerDay ≤ seconds.natAbs then failure
      return if sign = '+' then seconds else -seconds) fun n : Int => n % 60 = 0 := by
      refine .next fun sign => .next fun hours => .next fun _ => .next fun minutes => ?_
      dsimp only
      refine .unless (.unless (yields_pure ?_))
      split <;> omega
    exact hyields cs n rest h

theorem yields_utcWord : Yields utcWord fun n => n % 60 = 0 := by
  intro cs n rest h
  unfold utcWord at h
  split at h
  · split at h
    · cases h
      rfl
    · contradiction
  · contradiction

end TimeReader

namespace Instant

open TimeReader

variable {t : Instant}

/-- **What a wall clock shows is kept.** -/
theorem isKept_of_ofWallClock? {date : Date} {hour minute second nanos : Nat} {offset : Int}
    (hnanos : nanos < nanosPerSecond) (hoffset : offset % 60 = 0)
    (h : ofWallClock? date hour minute second nanos offset = some t) : t.IsKept := by
  unfold ofWallClock? at h
  split at h
  · dsimp only at h
    split at h
    · rename_i hyear
      cases h
      simp only [Bool.and_eq_true, decide_eq_true_eq] at hyear
      refine ⟨hyear.1, hyear.2, ?_, ?_⟩
      · dsimp only
        split <;> omega
      · dsimp only
        intro hleap
        have hsecond : second = 60 := by
          by_contra hne
          rw [if_neg hne] at hleap
          omega
        have hmin : min second 59 = 59 := by omega
        rw [hmin, secondsPerDay]
        omega
    · contradiction
  · contradiction

theorem yields_lenient : Yields lenient fun t? => ∀ t ∈ t?, t.IsKept := by
  unfold lenient
  refine .next fun _ => .next fun year => .next fun _ => .next fun _ => .next fun month => .next fun _ =>
    .next fun _ => .next fun day => .next fun _ => .next fun hour => .next fun _ => .next fun _ =>
    .next fun minute => .next fun _ => .next fun _ => .next fun second =>
    yields_fraction.bind fun nanos hnanos => .next fun _ =>
    (yields_utcWord.orElse (yields_offset _)).bind fun offset hoffset => .next fun _ => yields_pure ?_
  exact fun t ht => isKept_of_ofWallClock? hnanos hoffset ht

/-- **An instant is read back if and only if a clock may show it.** -/
theorem ofJson?_toJson_iff : ofJson? t.toJson = some t ↔ t.IsKept := by
  refine ⟨fun h => ?_, ofJson?_toJson⟩
  simp only [ofJson?, toJson, Json.string?, Option.bind_some, ofLenient?, ofWhole?] at h
  split at h
  · rename_i u hu
    exact yields_lenient.of_eq hu t h
  · contradiction

end Instant
end Gatehouse
