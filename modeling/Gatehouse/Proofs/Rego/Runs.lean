import Mathlib.Data.List.DropRight
import Gatehouse.Proofs.Rego.Parser

/-!
# Parsers at known tokens

What a parser answers where the tokens ahead are known, and where it leaves the cursor.

1. **The next token** (`Cursor.settled`, `Cursor.Next`).  Where newlines are blanks, the next token is the one
   behind them, and whatever looks at it leaves the cursor there.
2. **Taking.**  A parser that takes a token takes the next one and leaves the cursor at the one behind it; if it
   declines, it has only looked.
3. **Loops** (`Folds`, `Rounds`).  The rounds of a loop, one after the other up to the one that declines.  If each of
   them uses up a token, the loop has rounds enough and ends where they end.  Conversely, a loop that gives a list went
   one round for each of its values.
-/

namespace Gatehouse.Rego

namespace Cursor

/-- The cursor with other tokens ahead of it. -/
def withAhead (c : Cursor) (ts : List Token) : Cursor := { c with ahead := ts }

/-- What is left of some tokens behind the newlines that are blanks here. -/
def visible (c : Cursor) (ts : List Token) : List Token :=
  if c.keepsNewlines then ts else ts.dropWhile Parser.isNewline

/-- The cursor behind the newlines that are blanks. -/
def settled (c : Cursor) : Cursor := c.withAhead (c.visible c.ahead)

/-- The next token, where there is one. -/
def Next (c : Cursor) (t : Token) : Prop := c.settled.ahead.head? = some t

variable {c : Cursor} {t : Token} {ts us : List Token}

@[simp] theorem ahead_withAhead : (c.withAhead ts).ahead = ts := rfl

@[simp] theorem newlines_withAhead : (c.withAhead ts).newlines = c.newlines := rfl

@[simp] theorem union_withAhead : (c.withAhead ts).union = c.union := rfl

@[simp] theorem depth_withAhead : (c.withAhead ts).depth = c.depth := rfl

@[simp] theorem withAhead_withAhead : (c.withAhead ts).withAhead us = c.withAhead us := rfl

@[simp] theorem withAhead_self : c.withAhead c.ahead = c := rfl

@[simp] theorem keepsNewlines_withAhead : (c.withAhead ts).keepsNewlines = c.keepsNewlines := rfl

@[simp] theorem visible_withAhead : (c.withAhead ts).visible us = c.visible us := rfl

@[simp] theorem withAhead_settled : c.settled.withAhead ts = c.withAhead ts := rfl

@[simp] theorem visible_visible : c.visible (c.visible ts) = c.visible ts := by
  unfold visible
  split
  · rfl
  · exact List.dropWhile_idempotent _ _

@[simp] theorem settled_settled : c.settled.settled = c.settled := congrArg c.withAhead visible_visible

theorem visible_suffix : c.visible ts <:+ ts := by
  unfold visible
  split
  · exact List.suffix_rfl
  · exact List.dropWhile_suffix _

/-- There is nothing to go past at a token that is no newline. -/
theorem visible_cons_of_ne (ht : t.kind ≠ .newline) : c.visible (t :: ts) = t :: ts := by
  unfold visible
  split
  · rfl
  · exact List.dropWhile_cons_of_neg (by simpa [Parser.isNewline] using ht)

theorem settled_of_ne (hahead : c.ahead = t :: ts) (ht : t.kind ≠ .newline) : c.settled = c := by
  rw [settled, hahead, visible_cons_of_ne ht, ← hahead, withAhead_self]

theorem next_of_ne (hahead : c.ahead = t :: ts) (ht : t.kind ≠ .newline) : c.Next t := by
  rw [Next, settled_of_ne hahead ht, hahead, List.head?_cons]

theorem Next.length_pos (h : c.Next t) : 0 < c.ahead.length := by
  obtain ⟨ts, hts⟩ := List.head?_eq_some_iff.1 h
  have hle : c.settled.ahead.length ≤ c.ahead.length := visible_suffix.length_le
  rw [hts] at hle
  exact Nat.lt_of_lt_of_le (Nat.succ_pos _) hle

theorem next_settled : c.settled.Next t ↔ c.Next t := by
  rw [Next, Next, settled_settled]

/-- What surrounds a cursor that has gone on is what surrounded it. -/
theorem Follows.eq_withAhead {d : Cursor} (h : d.Follows c) : d = c.withAhead d.ahead := by
  obtain ⟨-, hnewlines, hunion, hdepth⟩ := h
  cases d
  cases hnewlines
  cases hunion
  cases hdepth
  rfl

end Cursor

namespace Parser

variable {α β σ : Type} {c c' : Cursor} {t : Token} {ts : List Token} {test : Token → Bool}

theorem bind_of_done {p : Parser α} {f : α → Parser β} {a : α} (h : p c = (.done a, c')) : (p >>= f) c = f a c' := by
  rw [bind_apply, h]

theorem bind_of_failed {p : Parser α} {f : α → Parser β} {e : SyntaxError} (h : p c = (.failed e, c')) :
    (p >>= f) c = (.failed e, c') := by
  rw [bind_apply, h]

/-- What a sequence answers comes from an answer of its first part. -/
theorem bind_eq_done {p : Parser α} {f : α → Parser β} {b : β} (h : (p >>= f) c = (.done b, c')) :
    ∃ a c₁, p c = (.done a, c₁) ∧ f a c₁ = (.done b, c') := by
  obtain ⟨a, ha, hrun⟩ := exists_of_bind (congrArg Prod.fst h)
  exact ⟨a, _, Prod.ext ha rfl, hrun.symm.trans h⟩

/-! ## Looking -/

theorem behind?_eq (test : Token → Bool) (ts : List Token) :
    behind? test ts = match ts.dropWhile test with
      | [] => none
      | u :: us => some (u :: us) := by
  induction ts with
  | nil => rfl
  | cons t ts ih =>
    rw [behind?]
    by_cases ht : test t = true
    · rw [if_pos ht, ih, List.dropWhile_cons_of_pos ht]
    · rw [if_neg ht, List.dropWhile_cons_of_neg ht]

theorem skip_of_dropWhile (h : c.ahead.dropWhile test = t :: ts) :
    skip test c = (.done (), c.withAhead (t :: ts)) := by
  rw [skip, behind?_eq, h]
  rfl

theorem skipNewlines_of_next (hc : c.keepsNewlines = false) (h : c.Next t) :
    skipNewlines c = (.done (), c.settled) := by
  obtain ⟨ts, hts⟩ := List.head?_eq_some_iff.1 h
  have hvisible : c.visible c.ahead = c.ahead.dropWhile isNewline := if_neg (by simp [hc])
  rw [skipNewlines, skip_of_dropWhile (hvisible.symm.trans hts), ← hts]
  rfl

theorem peek_of_next (h : c.Next t) : peek c = (.done t, c.settled) := by
  obtain ⟨ts, hts⟩ := List.head?_eq_some_iff.1 h
  have hsettle : settle c = (.done (), c.settled) := by
    by_cases hc : c.keepsNewlines = true
    · rw [settle, if_pos hc, Cursor.settled, Cursor.visible, if_pos hc, Cursor.withAhead_self]
    · rw [settle, if_neg hc, skipNewlines_of_next (by simpa using hc) h]
  rw [peek, bind_of_done hsettle, current, hts]

/-- Where nothing but blanks is ahead, there is no next token. -/
theorem peek_of_nil (h : c.settled.ahead = []) : (peek c).1 = .stuck := by
  by_cases hc : c.keepsNewlines = true
  · have hnil : c.ahead = [] := by rwa [Cursor.settled, Cursor.visible, if_pos hc] at h
    have hsettle : settle c = (.done (), c) := by rw [settle, if_pos hc]
    rw [peek, bind_of_done hsettle, current, hnil]
  · have hnil : c.ahead.dropWhile isNewline = [] := by rwa [Cursor.settled, Cursor.visible, if_neg hc] at h
    have hsettle : settle c = (.stuck, c) := by rw [settle, if_neg hc, skipNewlines, skip, behind?_eq, hnil]
    rw [peek, bind_apply, hsettle]

theorem leave_of_cons (h : c.ahead = t :: ts) (hts : ts ≠ []) : leave c = (.done (), c.withAhead ts) := by
  obtain ⟨u, us, rfl⟩ := List.exists_cons_of_ne_nil hts
  rw [leave, h]
  rfl

theorem advance_of_cons (h : c.settled.ahead = t :: ts) (hts : ts ≠ []) :
    advance c = (.done t, c.withAhead ts) := by
  have hnext : c.Next t := by rw [Cursor.Next, h, List.head?_cons]
  rw [advance, bind_of_done (peek_of_next hnext), bind_of_done (leave_of_cons h hts)]
  rfl

theorem place_of_next (h : c.Next t) : place c = (.done t.location, c.settled) :=
  bind_of_done (peek_of_next h)

theorem atEnd_of_next (h : c.Next t) : atEnd c = (.done (decide (t.kind = .endOfInput)), c.settled) :=
  bind_of_done (peek_of_next h)

theorem atSymbol_of_next (s : Symbol) (h : c.Next t) :
    atSymbol s c = (.done (decide (t.kind = .symbol s)), c.settled) := bind_of_done (peek_of_next h)

theorem atWord_of_next (word : String) (h : c.Next t) :
    atWord word c = (.done (decide (t.kind = .name word)), c.settled) := bind_of_done (peek_of_next h)

/-! ## Taking -/

theorem takeIf_declines (h : c.Next t) (ht : test t = false) :
    takeIf (do return test (← peek)) c = (.done false, c.settled) := by
  have hlook : (do return test (← peek) : Parser Bool) c = (.done false, c.settled) := by
    rw [← ht]
    exact bind_of_done (peek_of_next h)
  exact bind_of_done hlook

theorem takeIf_takes (h : c.settled.ahead = t :: ts) (hts : ts ≠ []) (ht : test t = true) :
    takeIf (do return test (← peek)) c = (.done true, c.withAhead ts) := by
  have hnext : c.Next t := by rw [Cursor.Next, h, List.head?_cons]
  have hlook : (do return test (← peek) : Parser Bool) c = (.done true, c.settled) := by
    rw [← ht]
    exact bind_of_done (peek_of_next hnext)
  have hadvance : advance c.settled = (.done t, c.withAhead ts) :=
    advance_of_cons (by rw [Cursor.settled_settled, h]) hts
  rw [takeIf, bind_of_done hlook]
  exact bind_of_done hadvance

theorem takeSymbol_declines {s : Symbol} (h : c.Next t) (ht : t.kind ≠ .symbol s) :
    takeSymbol s c = (.done false, c.settled) := takeIf_declines h (decide_eq_false ht)

theorem takeSymbol_takes {s : Symbol} (h : c.settled.ahead = t :: ts) (hts : ts ≠ []) (ht : t.kind = .symbol s) :
    takeSymbol s c = (.done true, c.withAhead ts) := takeIf_takes h hts (decide_eq_true ht)

theorem takeWord_declines {word : String} (h : c.Next t) (ht : t.kind ≠ .name word) :
    takeWord word c = (.done false, c.settled) := takeIf_declines h (decide_eq_false ht)

theorem takeTight_declines {s : Symbol} (h : c.Next t) (ht : t.kind = .symbol s → t.spaced = true) :
    takeIf (atTight s) c = (.done false, c.settled) := takeIf_declines h <| by
  by_cases hs : t.kind = .symbol s
  · simp [hs, ht hs]
  · simp [hs]

theorem expectSymbol_takes {s : Symbol} (h : c.settled.ahead = t :: ts) (hts : ts ≠ []) (ht : t.kind = .symbol s) :
    expectSymbol s c = (.done (), c.withAhead ts) := bind_of_done (takeSymbol_takes h hts ht)

theorem expectName_takes {test : String → Bool} {expected name : String} (h : c.settled.ahead = t :: ts) (hts : ts ≠ [])
    (ht : t.kind = .name name) (hname : test name = true) :
    expectName test expected c = (.done name, c.withAhead ts) := by
  have hnext : c.Next t := by rw [Cursor.Next, h, List.head?_cons]
  have hadvance : advance c.settled = (.done t, c.withAhead ts) :=
    advance_of_cons (by rw [Cursor.settled_settled, h]) hts
  rw [expectName, bind_of_done (peek_of_next hnext), ht]
  show (if test name then _ else _ : Parser String) c.settled = _
  rw [if_pos hname]
  exact bind_of_done hadvance

/-! ## Surroundings -/

theorem withNewlines_of_done {p : Parser α} {a : α} {significant : Bool}
    (h : p { c with newlines := significant :: c.newlines } =
      (.done a, { c with newlines := significant :: c.newlines, ahead := ts })) :
    withNewlines significant p c = (.done a, c.withAhead ts) := by
  rw [withNewlines, h]
  rfl

theorem nested_of_done {p : Parser α} {a : α} (hdepth : c.depth < maxNesting)
    (h : p { c with depth := c.depth + 1 } = (.done a, { c with depth := c.depth + 1, ahead := ts })) :
    nested p c = (.done a, c.withAhead ts) := by
  rw [nested, if_neg (Nat.not_le.2 hdepth), h]
  rfl

/-! ## Loops -/

/-- The rounds of a loop from a value and a cursor up to those with which it ends.  All rounds but the last
use up a token. -/
inductive Folds (step : σ → Parser (Option σ)) : σ → Cursor → σ → Cursor → Prop
  | stop {s : σ} {c c' : Cursor} (h : step s c = (.done none, c')) (hpos : 0 < c.ahead.length) :
    Folds step s c s c'
  | more {s s₁ s' : σ} {c c₁ c' : Cursor} (h : step s c = (.done (some s₁), c₁))
      (hlt : c₁.ahead.length < c.ahead.length) (hrest : Folds step s₁ c₁ s' c') : Folds step s c s' c'

theorem Folds.foldUpTo_eq {step : σ → Parser (Option σ)} {s s' : σ} (h : Folds step s c s' c') {rounds : Nat}
    (hrounds : c.ahead.length ≤ rounds) : foldUpTo step rounds s c = (.done s', c') := by
  induction h generalizing rounds with
  | stop h hpos =>
    obtain ⟨rounds, rfl⟩ := Nat.exists_eq_succ_of_ne_zero (Nat.ne_of_gt (Nat.lt_of_lt_of_le hpos hrounds))
    rw [foldUpTo, bind_of_done h]
    rfl
  | more h hlt _ ih =>
    obtain ⟨rounds, rfl⟩ := Nat.exists_eq_succ_of_ne_zero
      (Nat.ne_of_gt (Nat.lt_of_lt_of_le (Nat.lt_of_le_of_lt (Nat.zero_le _) hlt) hrounds))
    rw [foldUpTo, bind_of_done h]
    exact ih (Nat.le_of_lt_succ (Nat.lt_of_lt_of_le hlt hrounds))

theorem Folds.fold_eq {step : σ → Parser (Option σ)} {s s' : σ} (h : Folds step s c s' c') :
    fold step s c = (.done s', c') := h.foldUpTo_eq (Nat.le_refl _)

theorem fold_declines {step : σ → Parser (Option σ)} {s : σ} (h : step s c = (.done none, c'))
    (hpos : 0 < c.ahead.length) : fold step s c = (.done s, c') := (Folds.stop h hpos).fold_eq

theorem gather_of_done {step : Parser (Option α)} {a : Option α} (found : List α) (h : step c = (.done a, c')) :
    gather step found c = (.done (a.map (· :: found)), c') := bind_of_done h

theorem many_of_folds {step : Parser (Option α)} {found : List α} (h : Folds (gather step) [] c found c') :
    many step c = (.done found.reverse, c') := bind_of_done h.fold_eq

theorem many_declines {step : Parser (Option α)} (h : step c = (.done none, c')) (hpos : 0 < c.ahead.length) :
    many step c = (.done [], c') := many_of_folds (.stop (gather_of_done [] h) hpos)

/-- The rounds that a loop went: one for each of its values, and the one that declined. -/
inductive Rounds (step : Parser (Option α)) : Cursor → List α → Cursor → Prop
  | stop {c c' : Cursor} (h : step c = (.done none, c')) : Rounds step c [] c'
  | more {a : α} {as : List α} {c c₁ c' : Cursor} (h : step c = (.done (some a), c₁)) (hrest : Rounds step c₁ as c') :
    Rounds step c (a :: as) c'

theorem exists_rounds {step : Parser (Option α)} {rounds : Nat} {found all : List α}
    (h : foldUpTo (gather step) rounds found c = (.done all, c')) :
    ∃ as, all = as.reverse ++ found ∧ Rounds step c as c' := by
  induction rounds generalizing found c with
  | zero => exact absurd (congrArg Prod.fst h) nofun
  | succ rounds ih =>
    obtain ⟨more, hmore, -⟩ := exists_of_bind (congrArg Prod.fst h)
    obtain ⟨a, ha, -⟩ := exists_of_bind hmore
    have hstep : step c = (.done a, (step c).2) := Prod.ext ha rfl
    rw [foldUpTo, bind_of_done (gather_of_done found hstep)] at h
    cases a with
    | none =>
      obtain ⟨hall, hcursor⟩ := Prod.mk.inj h
      exact ⟨[], (Outcome.done.inj hall).symm, .stop (hstep.trans (congrArg (Prod.mk _) hcursor))⟩
    | some a =>
      obtain ⟨as, rfl, hrounds⟩ := ih h
      exact ⟨a :: as, by simp, .more hstep hrounds⟩

theorem rounds_of_many {step : Parser (Option α)} {as : List α} (h : many step c = (.done as, c')) :
    Rounds step c as c' := by
  obtain ⟨found, hfound, hlast⟩ := exists_of_bind (congrArg Prod.fst h)
  obtain ⟨has, hcursor⟩ := Prod.mk.inj (hlast.symm.trans h)
  obtain ⟨as', rfl, hrounds⟩ := exists_rounds (Prod.ext hfound hcursor)
  rw [List.append_nil, List.reverse_reverse] at has
  exact Outcome.done.inj has ▸ hrounds

theorem none_of_many {step : Parser (Option α)} (h : many step c = (.done [], c')) : step c = (.done none, c') := by
  cases rounds_of_many h with
  | stop hstep => exact hstep

theorem once_of_many {step : Parser (Option α)} {a : α} (h : many step c = (.done [a], c')) :
    ∃ c₁, step c = (.done (some a), c₁) ∧ step c₁ = (.done none, c') := by
  cases rounds_of_many h with
  | more hstep hrest =>
    cases hrest with
    | stop hstop => exact ⟨_, hstep, hstop⟩

/-- A loop with one value. -/
theorem many_once {step : Parser (Option α)} {a : α} {c₁ : Cursor} (h : step c = (.done (some a), c₁))
    (hlt : c₁.ahead.length < c.ahead.length) (hstop : step c₁ = (.done none, c')) (hpos : 0 < c₁.ahead.length) :
    many step c = (.done [a], c') :=
  many_of_folds (.more (gather_of_done [] h) hlt (.stop (gather_of_done [a] hstop) hpos))

end Parser
end Gatehouse.Rego
