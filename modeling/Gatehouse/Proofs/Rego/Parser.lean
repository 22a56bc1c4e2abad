import Gatehouse.Rego.Parser

/-!
# What a parser does to its cursor

1. **Closed lists** (`IsClosed`).  The last token is the end of the input, and no other is.  There is
   always a next token in such a list, and some token is behind the newlines.
2. **Where a parser leaves the cursor** (`Cursor.Follows`).  It has gone on along the same tokens, and what
   surrounds it is what surrounded it before.
3. **Getting on** (`Parser.Meets`).  With enough levels to spare on a closed list, a parser is not stuck,
   leaves a closed list, and has used up a token if its answer says so.  `Steady` is that for every cursor.
4. **Putting parsers together.**  One rule for each way to do so.  In a sequence one part has to use up a
   token for the whole to do so.  A loop is steady if a round that goes on uses up a token: the tokens
   that are left bound the rounds that are left, and the last token is for the round that declines.
-/

namespace Gatehouse.Rego

/-! ## Closed lists -/

/-- The last token, and no other, is the end of the input. -/
inductive IsClosed : List Token → Prop
  | last {t : Token} (h : t.kind = .endOfInput) : IsClosed [t]
  | cons {t : Token} {ts : List Token} (h : t.kind ≠ .endOfInput) (hts : IsClosed ts) : IsClosed (t :: ts)

namespace IsClosed

variable {t : Token} {ts : List Token}

theorem ne_nil (h : IsClosed ts) : ts ≠ [] := by
  cases h <;> simp

theorem length_pos (h : IsClosed ts) : 0 < ts.length := List.length_pos_iff.2 h.ne_nil

theorem tail (h : IsClosed (t :: ts)) (ht : t.kind ≠ .endOfInput) : IsClosed ts := by
  cases h with
  | last hlast => contradiction
  | cons _ hts => exact hts

theorem eq_nil (h : IsClosed (t :: ts)) (ht : t.kind = .endOfInput) : ts = [] := by
  cases h with
  | last => rfl
  | cons hne => contradiction

theorem append {us : List Token} (hts : ∀ t ∈ ts, t.kind ≠ .endOfInput) (h : IsClosed us) :
    IsClosed (ts ++ us) := by
  induction ts with
  | nil => exact h
  | cons t ts ih =>
    exact .cons (hts t List.mem_cons_self) (ih fun u hu => hts u (List.mem_cons_of_mem t hu))

end IsClosed

/-! ## Cursors -/

namespace Cursor

/-- The cursor has gone on from another one, and stands in the same surroundings. -/
structure Follows (after before : Cursor) : Prop where
  ahead : after.ahead <:+ before.ahead
  newlines : after.newlines = before.newlines
  union : after.union = before.union
  depth : after.depth = before.depth

/-- There are `n` levels to spare here, and the tokens are closed. -/
structure IsReady (n : Nat) (c : Cursor) : Prop where
  closed : IsClosed c.ahead
  depth : c.depth + n = Parser.maxNesting

variable {a b c : Cursor}

theorem Follows.refl (c : Cursor) : c.Follows c := ⟨List.suffix_rfl, rfl, rfl, rfl⟩

theorem Follows.trans (hcb : c.Follows b) (hba : b.Follows a) : c.Follows a :=
  ⟨hcb.ahead.trans hba.ahead, hcb.newlines.trans hba.newlines, hcb.union.trans hba.union,
    hcb.depth.trans hba.depth⟩

theorem Follows.length_le (h : b.Follows a) : b.ahead.length ≤ a.ahead.length := h.ahead.length_le

theorem Follows.length_lt (h : b.Follows a) (hne : b.ahead ≠ a.ahead) : b.ahead.length < a.ahead.length :=
  Nat.lt_of_le_of_ne h.length_le fun hlength => hne (h.ahead.eq_of_length hlength)

theorem isReady_start {tokens : List Token} (h : IsClosed tokens) :
    (start tokens).IsReady Parser.maxNesting := ⟨h, Nat.zero_add _⟩

end Cursor

namespace Parser

variable {α β σ : Type} {n : Nat} {c : Cursor}

/-! ## Getting on -/

/-- What a parser does at a cursor, with `n` levels to spare; it uses up a token if it gives an answer for
which `uses` holds. -/
structure Meets (n : Nat) (c : Cursor) (p : Parser α) (uses : α → Prop) : Prop where
  follows : (p c).2.Follows c
  answers : c.IsReady n → (p c).1 ≠ .stuck
  closed : c.IsReady n → IsClosed (p c).2.ahead
  shorter : c.IsReady n → ∀ a, (p c).1 = .done a → uses a → (p c).2.ahead.length < c.ahead.length

/-- A parser does so wherever it starts. -/
def Steady (n : Nat) (p : Parser α) (uses : α → Prop) : Prop := ∀ c, Meets n c p uses

/-- Every answer comes with a token used up. -/
abbrev always : α → Prop := fun _ => True

/-- No answer need come with a token used up. -/
abbrev never : α → Prop := fun _ => False

theorem Meets.ready {p : Parser α} {uses : α → Prop} (h : Meets n c p uses) (hc : c.IsReady n) :
    (p c).2.IsReady n := ⟨h.closed hc, h.follows.depth ▸ hc.depth⟩

theorem Meets.mono {p : Parser α} {uses uses' : α → Prop} (h : Meets n c p uses)
    (himp : ∀ a, uses' a → uses a) : Meets n c p uses' :=
  ⟨h.follows, h.answers, h.closed, fun hc a ha hu => h.shorter hc a ha (himp a hu)⟩

theorem Steady.mono {p : Parser α} {uses uses' : α → Prop} (h : Steady n p uses)
    (himp : ∀ a, uses' a → uses a) : Steady n p uses' := fun c => (h c).mono himp

theorem Steady.forget {p : Parser α} {uses : α → Prop} (h : Steady n p uses) : Steady n p never :=
  h.mono fun _ => False.elim

/-! ## Single outcomes -/

theorem Meets.of_done {p : Parser α} {uses : α → Prop} {a : α} {after : Cursor} (hrun : p c = (.done a, after))
    (hfollows : after.Follows c) (hclosed : c.IsReady n → IsClosed after.ahead)
    (hshorter : c.IsReady n → uses a → after.ahead.length < c.ahead.length) : Meets n c p uses := by
  constructor <;> rw [hrun]
  · exact hfollows
  · exact fun _ => nofun
  · exact hclosed
  · intro hc b hb hu
    exact hshorter hc (Outcome.done.inj hb ▸ hu)

theorem Meets.of_failed {p : Parser α} {uses : α → Prop} {e : SyntaxError} {after : Cursor}
    (hrun : p c = (.failed e, after)) (hfollows : after.Follows c)
    (hclosed : c.IsReady n → IsClosed after.ahead) : Meets n c p uses := by
  constructor <;> rw [hrun]
  · exact hfollows
  · exact fun _ => nofun
  · exact hclosed
  · exact fun _ _ => nofun

theorem Meets.of_stuck {p : Parser α} {uses : α → Prop} {after : Cursor} (hrun : p c = (.stuck, after))
    (hfollows : after.Follows c) (hopen : ¬c.IsReady n) : Meets n c p uses := by
  constructor <;> rw [hrun]
  · exact hfollows
  all_goals exact fun hc => absurd hc hopen

/-- Where nothing is promised, it is enough that the cursor follows. -/
theorem Meets.of_not_ready {p : Parser α} {uses : α → Prop} (hfollows : (p c).2.Follows c)
    (hopen : ¬c.IsReady n) : Meets n c p uses :=
  ⟨hfollows, fun hc => absurd hc hopen, fun hc => absurd hc hopen, fun hc => absurd hc hopen⟩

theorem Meets.congr {p q : Parser α} {uses : α → Prop} (h : Meets n c q uses) (hrun : p c = q c) :
    Meets n c p uses := by
  constructor <;> rw [hrun]
  · exact h.follows
  · exact h.answers
  · exact h.closed
  · exact h.shorter

/-! ## Sequences -/

theorem steady_pure_of {a : α} {uses : α → Prop} (h : ¬uses a) : Steady n (pure a) uses := fun c =>
  .of_done rfl (.refl c) (fun hc => hc.closed) fun _ ha => absurd ha h

theorem steady_pure (a : α) : Steady n (pure a) never := steady_pure_of id

/-- An error is no answer, so no token need be used up. -/
theorem steady_fail (e : SyntaxError) (uses : α → Prop) : Steady n (fail e) uses := fun c =>
  .of_failed rfl (.refl c) fun hc => hc.closed

/-- In a sequence, one of the parts has to use up a token if the whole is to. -/
theorem Meets.bind {p : Parser α} {f : α → Parser β} {uses : α → Prop} {u : α → β → Prop} {usesAll : β → Prop}
    (hp : Meets n c p uses) (hf : ∀ a, (p c).1 = .done a → Meets n (p c).2 (f a) (u a))
    (hall : ∀ a b, usesAll b → uses a ∨ u a b) : Meets n c (p >>= f) usesAll := by
  cases hfirst : (p c).1 with
  | done a =>
    have hfa := hf a hfirst
    have hrun : (p >>= f) c = f a (p c).2 := by rw [bind_apply, ← Prod.eta (p c), hfirst]
    constructor <;> rw [hrun]
    · exact hfa.follows.trans hp.follows
    · exact fun hc => hfa.answers (hp.ready hc)
    · exact fun hc => hfa.closed (hp.ready hc)
    · intro hc b hb huses
      rcases hall a b huses with ha | hb'
      · exact Nat.lt_of_le_of_lt hfa.follows.length_le (hp.shorter hc a hfirst ha)
      · exact Nat.lt_of_lt_of_le (hfa.shorter (hp.ready hc) b hb hb') hp.follows.length_le
  | failed e =>
    have hrun : (p >>= f) c = (.failed e, (p c).2) := by rw [bind_apply, ← Prod.eta (p c), hfirst]
    exact .of_failed hrun hp.follows hp.closed
  | stuck =>
    have hrun : (p >>= f) c = (.stuck, (p c).2) := by rw [bind_apply, ← Prod.eta (p c), hfirst]
    exact .of_stuck hrun hp.follows fun hc => hp.answers hc hfirst

theorem Steady.bind {p : Parser α} {f : α → Parser β} {uses : α → Prop} {u : α → β → Prop} {usesAll : β → Prop}
    (hp : Steady n p uses) (hf : ∀ a, Steady n (f a) (u a)) (hall : ∀ a b, usesAll b → uses a ∨ u a b) :
    Steady n (p >>= f) usesAll := fun c => (hp c).bind (fun a _ => hf a _) hall

/-- The first part uses up a token. -/
theorem Steady.then {p : Parser α} {f : α → Parser β} {uses : β → Prop} (hp : Steady n p always)
    (hf : ∀ a, Steady n (f a) never) : Steady n (p >>= f) uses := hp.bind hf fun _ _ _ => .inl trivial

/-- The second part uses up a token where the whole has to. -/
theorem Steady.before {p : Parser α} {f : α → Parser β} {uses : β → Prop} (hp : Steady n p never)
    (hf : ∀ a, Steady n (f a) uses) : Steady n (p >>= f) uses := hp.bind hf fun _ _ => .inr

/-- Of two ways to go on, one is taken if a token was used up. -/
theorem Steady.branch {p : Parser Bool} {q r : Parser α} {uses : α → Prop} (hp : Steady n p (· = true))
    (hq : Steady n q never) (hr : Steady n r uses) : Steady n (p >>= fun b => if b then q else r) uses := by
  refine Steady.bind (u := fun b a => b = false ∧ uses a) hp (fun b => ?_) fun b a ha => ?_
  · cases b with
    | true => exact hq.mono fun _ h => nomatch h.1
    | false => exact hr.mono fun _ h => h.2
  · cases b with
    | true => exact .inl rfl
    | false => exact .inr ⟨rfl, ha⟩

theorem Steady.ite {condition : Prop} [Decidable condition] {p q : Parser α} {uses : α → Prop}
    (hp : condition → Steady n p uses) (hq : ¬condition → Steady n q uses) :
    Steady n (if condition then p else q) uses := by
  split
  · exact hp ‹_›
  · exact hq ‹_›

/-- What is made of an answer does not change what was used up. -/
theorem Steady.map {p : Parser α} {uses : α → Prop} {f : α → β} {uses' : β → Prop} (hp : Steady n p uses)
    (himp : ∀ a, uses' (f a) → uses a) : Steady n (do return f (← p)) uses' := by
  refine Steady.bind (u := fun a b => b ≠ f a) hp (fun a => steady_pure_of (· rfl)) fun a b hb => ?_
  by_cases hba : b = f a
  · exact .inl (himp a (hba ▸ hb))
  · exact .inr hba

/-! ## Looking -/

theorem behind?_suffix {test : Token → Bool} {ts us : List Token} (h : behind? test ts = some us) :
    us <:+ ts := by
  induction ts with
  | nil => cases h
  | cons t ts ih =>
    rw [behind?] at h
    split at h
    · exact (ih h).trans (List.suffix_cons t ts)
    · exact Option.some.inj h ▸ List.suffix_rfl

/-- The end of the input keeps a parser from going past it. -/
theorem exists_behind {test : Token → Bool} (htest : ∀ t, t.kind = .endOfInput → test t = false)
    {ts : List Token} (h : IsClosed ts) : ∃ us, behind? test ts = some us ∧ IsClosed us := by
  induction h with
  | last hlast => exact ⟨_, by rw [behind?, htest _ hlast]; rfl, .last hlast⟩
  | @cons t ts ht hts ih =>
    rw [behind?]
    split
    · exact ih
    · exact ⟨_, rfl, .cons ht hts⟩

theorem steady_skip {test : Token → Bool} (htest : ∀ t, t.kind = .endOfInput → test t = false) :
    Steady n (skip test) never := by
  intro c
  cases h : behind? test c.ahead with
  | none =>
    refine .of_stuck (by rw [skip, h]) (.refl c) fun hc => ?_
    obtain ⟨us, hus, -⟩ := exists_behind htest hc.closed
    cases h.symm.trans hus
  | some ahead =>
    have hrun : skip test c = (.done (), { c with ahead }) := by rw [skip, h]
    refine .of_done hrun ⟨behind?_suffix h, rfl, rfl, rfl⟩ (fun hc => ?_) fun _ => False.elim
    obtain ⟨us, hus, hclosed⟩ := exists_behind htest hc.closed
    exact Option.some.inj (h.symm.trans hus) ▸ hclosed

theorem steady_skipNewlines : Steady n skipNewlines never :=
  steady_skip fun t ht => by simp [isNewline, ht]

theorem steady_settle : Steady n settle never := by
  intro c
  by_cases hc : c.keepsNewlines = true
  · exact (steady_pure () c).congr (by rw [settle, if_pos hc]; rfl)
  · exact (steady_skipNewlines c).congr (by rw [settle, if_neg hc])

theorem steady_current : Steady n current never := by
  intro c
  cases h : c.ahead with
  | nil => exact .of_stuck (by rw [current, h]) (.refl c) fun hc => hc.closed.ne_nil h
  | cons t ts => exact .of_done (by rw [current, h]) (.refl c) (fun hc => hc.closed) fun _ => False.elim

theorem steady_peek : Steady n peek never := steady_settle.before fun _ => steady_current

theorem head_of_current {t : Token} (h : (current c).1 = .done t) : (current c).2.ahead.head? = some t := by
  revert h
  rw [current]
  split
  · exact nofun
  · rename_i hahead
    intro h
    rw [hahead, ← Outcome.done.inj h]
    rfl

/-- What a sequence answers, its second part does. -/
theorem exists_of_bind {p : Parser α} {f : α → Parser β} {b : β} (h : ((p >>= f) c).1 = .done b) :
    ∃ a, (p c).1 = .done a ∧ (p >>= f) c = f a (p c).2 := by
  revert h
  rw [bind_apply]
  rcases p c with ⟨_ | _ | _, after⟩
  · exact fun _ => ⟨_, rfl, rfl⟩
  · exact nofun
  · exact nofun

/-- The token that is told is the one under the cursor. -/
theorem head_of_peek {t : Token} (h : (peek c).1 = .done t) : (peek c).2.ahead.head? = some t := by
  obtain ⟨_, -, hrun⟩ := exists_of_bind h
  rw [peek, hrun] at h ⊢
  exact head_of_current h

theorem steady_leave : Steady n leave never := by
  intro c
  rcases h : c.ahead with _ | ⟨t, _ | ⟨u, ts⟩⟩
  · exact (steady_pure () c).congr (by rw [leave, h]; rfl)
  · exact (steady_pure () c).congr (by rw [leave, h]; rfl)
  · have hrun : leave c = (.done (), { c with ahead := u :: ts }) := by rw [leave, h]
    have hsuffix : u :: ts <:+ c.ahead := h ▸ List.suffix_cons t (u :: ts)
    refine .of_done hrun ⟨hsuffix, rfl, rfl, rfl⟩ (fun hc => ?_) fun _ => False.elim
    cases h ▸ hc.closed with
    | cons _ hts => exact hts

theorem steady_advance : Steady n advance never :=
  steady_peek.before fun _ => steady_leave.before fun _ => steady_pure _

/-- A token that is not the end of the input is left behind. -/
theorem meets_leave {t : Token} (ht : t.kind ≠ .endOfInput) (hhead : c.ahead.head? = some t) :
    Meets n c leave always := by
  have hsteady : Meets n c leave never := steady_leave c
  refine ⟨hsteady.follows, hsteady.answers, hsteady.closed, fun hc _ _ _ => ?_⟩
  rcases h : c.ahead with _ | ⟨u, _ | ⟨v, ts⟩⟩
  · rw [h] at hhead
    cases hhead
  · have hclosed := hc.closed
    rw [h] at hhead hclosed
    obtain rfl := Option.some.inj hhead
    exact absurd rfl (hclosed.tail ht).ne_nil
  · rw [leave, h]
    exact Nat.lt_succ_self _

/-- The next token is taken unless it is the end of the input.  If there were newlines before it, they are
used up in any case. -/
theorem meets_advance {t : Token} (ht : t.kind ≠ .endOfInput) (hhead : c.ahead.head? = some t) :
    Meets n c advance always := by
  have hsteady : Meets n c peek never := steady_peek c
  have hpeek : Meets n c peek fun _ => (peek c).2.ahead ≠ c.ahead :=
    ⟨hsteady.follows, hsteady.answers, hsteady.closed, fun _ _ _ hne => hsteady.follows.length_lt hne⟩
  refine hpeek.bind (u := fun _ _ => (peek c).2.ahead = c.ahead) (fun next _ => ?_) fun _ _ _ =>
    (Classical.em _).symm
  by_cases heq : (peek c).2.ahead = c.ahead
  · have hleave : Meets n (peek c).2 leave always := meets_leave ht (heq ▸ hhead)
    exact hleave.bind (fun _ _ => steady_pure next _) fun _ _ _ => .inl trivial
  · exact (steady_leave.before fun _ => steady_pure next).mono (fun _ h => absurd h heq) _

theorem steady_place : Steady n place never := steady_peek.map fun _ => id

theorem steady_atEnd : Steady n atEnd never := steady_peek.map fun _ => id

theorem steady_atSymbol (s : Symbol) : Steady n (atSymbol s) never := steady_peek.map fun _ => id

theorem steady_atWord (word : String) : Steady n (atWord word) never := steady_peek.map fun _ => id

/-! ## Taking -/

/-- A token is taken if it passes a test that the end of the input does not pass. -/
theorem steady_takeIf {test : Token → Bool} (htest : ∀ t, t.kind = .endOfInput → test t = false) :
    Steady n (takeIf do return test (← peek)) (· = true) := by
  intro c
  have hlook : Steady n (do return test (← peek)) never := steady_peek.map fun _ => id
  refine (hlook c).bind (u := fun _ b => b = true) (fun b hb => ?_) fun _ _ => .inr
  cases b with
  | false =>
    have hfalse : Steady n (pure false) (· = true) := steady_pure_of Bool.false_ne_true
    exact hfalse _
  | true =>
    obtain ⟨t, ht, hrun⟩ := exists_of_bind hb
    rw [hrun] at hb ⊢
    have hpass : test t = true := Outcome.done.inj hb
    have hne : t.kind ≠ .endOfInput := fun hend => by
      rw [htest t hend] at hpass
      cases hpass
    exact (meets_advance hne (head_of_peek ht)).bind (fun _ _ => steady_pure true _) fun _ _ _ => .inl trivial

theorem steady_takeSymbol (s : Symbol) : Steady n (takeSymbol s) (· = true) :=
  steady_takeIf fun t ht => by simp [ht]

theorem steady_takeWord (word : String) : Steady n (takeWord word) (· = true) :=
  steady_takeIf fun t ht => by simp [ht]

theorem steady_takeTight (s : Symbol) : Steady n (takeIf (atTight s)) (· = true) :=
  steady_takeIf fun t ht => by simp [ht]

theorem steady_unexpected (expected : String) (uses : α → Prop) : Steady n (unexpected expected) uses :=
  steady_peek.before fun _ => .ite (fun _ => steady_fail _ _) fun _ => steady_fail _ _

theorem steady_expectSymbol (s : Symbol) : Steady n (expectSymbol s) always :=
  (steady_takeSymbol s).branch (steady_pure ()) (steady_unexpected _ _)

theorem steady_expectWord (word : String) : Steady n (expectWord word) always :=
  (steady_takeWord word).branch (steady_pure ()) (steady_unexpected _ _)

/-! ## Deciding by the next token -/

/-- A parser does so wherever the given token is under the cursor. -/
def SteadyAt (n : Nat) (t : Token) (p : Parser α) (uses : α → Prop) : Prop :=
  ∀ c : Cursor, c.ahead.head? = some t → Meets n c p uses

theorem Steady.at {p : Parser α} {uses : α → Prop} (h : Steady n p uses) (t : Token) : SteadyAt n t p uses :=
  fun c _ => h c

theorem steadyAt_advance {t : Token} {f : Token → Parser α} {uses : α → Prop} (ht : t.kind ≠ .endOfInput)
    (hf : ∀ u, Steady n (f u) never) : SteadyAt n t (advance >>= f) uses := fun _ hhead =>
  (meets_advance ht hhead).bind (fun u _ => hf u _) fun _ _ _ => .inl trivial

theorem Steady.of_peek {f : Token → Parser α} {uses : α → Prop} (h : ∀ t, SteadyAt n t (f t) uses) :
    Steady n (peek >>= f) uses := fun c =>
  (steady_peek c).bind (fun t ht => h t _ (head_of_peek ht)) fun _ _ => .inr

theorem steady_expectName (test : String → Bool) (expected : String) :
    Steady n (expectName test expected) always := by
  refine .of_peek fun ⟨kind, location, spaced⟩ => ?_
  cases kind with
  | name text =>
    by_cases htest : test text = true
    · simp only [htest, if_true]
      exact steadyAt_advance Kind.noConfusion fun _ => steady_pure _
    · simp only [htest]
      exact (steady_unexpected _ _).at _
  | _ => exact (steady_unexpected _ _).at _

/-! ## Surroundings -/

/-- A parser may be run with the cursor in other surroundings, if these are set back behind it. -/
theorem Meets.inside {m : Nat} {p q : Parser α} {uses : α → Prop} {inside after : Cursor}
    (hp : Meets m inside p uses) (hrun : q c = ((p inside).1, after)) (hinside : inside.ahead = c.ahead)
    (hafter : after.ahead = (p inside).2.ahead) (hfollows : after.Follows c)
    (hready : c.IsReady n → inside.IsReady m) : Meets n c q uses := by
  constructor <;> rw [hrun]
  · exact hfollows
  · exact fun hc => hp.answers (hready hc)
  · exact fun hc => hafter ▸ hp.closed (hready hc)
  · intro hc a ha hu
    rw [hafter, ← hinside]
    exact hp.shorter (hready hc) a ha hu

theorem Steady.withNewlines {p : Parser α} {uses : α → Prop} (h : Steady n p uses) (significant : Bool) :
    Steady n (withNewlines significant p) uses := by
  intro c
  have hp := h { c with newlines := significant :: c.newlines }
  refine hp.inside rfl rfl rfl ⟨hp.follows.ahead, ?_, hp.follows.union, hp.follows.depth⟩ fun hc =>
    ⟨hc.closed, hc.depth⟩
  exact congrArg List.tail hp.follows.newlines

theorem Steady.withUnion {p : Parser α} {uses : α → Prop} (h : Steady n p uses) (allowed : Bool) :
    Steady n (withUnion allowed p) uses := by
  intro c
  have hp := h { c with union := allowed }
  exact hp.inside rfl rfl rfl ⟨hp.follows.ahead, hp.follows.newlines, rfl, hp.follows.depth⟩ fun hc =>
    ⟨hc.closed, hc.depth⟩

theorem steady_tooDeep (uses : α → Prop) : Steady n (tooDeep : Parser α) uses :=
  steady_place.before fun _ => steady_fail _ _

/-- With a level to spare, one level further in there is one less. -/
theorem Steady.nested {p : Parser α} {uses : α → Prop} (h : Steady n p uses) :
    Steady (n + 1) (nested p) uses := by
  intro c
  by_cases hdepth : maxNesting ≤ c.depth
  · exact (steady_tooDeep uses c).congr (by rw [Parser.nested, if_pos hdepth])
  · have hp := h { c with depth := c.depth + 1 }
    have hrun : Parser.nested p c = (fun result : Outcome α × Cursor =>
        (result.1, { result.2 with depth := result.2.depth - 1 })) (p { c with depth := c.depth + 1 }) := by
      rw [Parser.nested, if_neg hdepth]
    refine hp.inside hrun rfl rfl
      ⟨hp.follows.ahead, hp.follows.newlines, hp.follows.union, ?_⟩ fun hc => ⟨hc.closed, ?_⟩
    · exact congrArg (· - 1) hp.follows.depth
    · rw [← hc.depth, Nat.add_right_comm, Nat.add_assoc]

/-- Without a level to spare there is a complaint, whatever stands further in. -/
theorem steady_nested_stuck (uses : α → Prop) : Steady 0 (nested (stuck : Parser α)) uses := by
  intro c
  by_cases hdepth : maxNesting ≤ c.depth
  · exact (steady_tooDeep uses c).congr (by rw [Parser.nested, if_pos hdepth])
  · refine .of_stuck (by rw [Parser.nested, if_neg hdepth]; rfl) (.refl c) fun hc => ?_
    exact hdepth (Nat.le_of_eq hc.depth.symm)

/-! ## Loops -/

theorem follows_foldUpTo {step : σ → Parser (Option σ)} (h : ∀ s c, (step s c).2.Follows c) (rounds : Nat)
    (s : σ) (c : Cursor) : (foldUpTo step rounds s c).2.Follows c := by
  induction rounds generalizing s c with
  | zero => exact .refl c
  | succ rounds ih =>
    rw [foldUpTo, bind_apply]
    have hstep := h s c
    generalize step s c = result at hstep ⊢
    rcases result with ⟨(_ | s') | _ | _, after⟩
    · exact hstep
    · exact (ih s' after).trans hstep
    · exact hstep
    · exact hstep

/-- As many rounds are enough as there are tokens: each round that goes on leaves one token less, and the
last token is for the round that declines. -/
theorem meets_foldUpTo {step : σ → Parser (Option σ)} (h : ∀ s, Steady n (step s) (·.isSome = true))
    {rounds : Nat} (s : σ) (hrounds : c.ahead.length ≤ rounds) : Meets n c (foldUpTo step rounds s) never := by
  have hfollows : ∀ rounds s c, (foldUpTo step rounds s c).2.Follows c :=
    follows_foldUpTo fun s c => (h s c).follows
  induction rounds generalizing s c with
  | zero =>
    refine .of_not_ready (hfollows 0 s c) fun hc => ?_
    exact absurd hc.closed.length_pos (Nat.not_lt.2 hrounds)
  | succ rounds ih =>
    by_cases hc : c.IsReady n
    · refine (h s c).bind (u := fun _ => never) (fun s' hs' => ?_) fun _ _ => False.elim
      cases s' with
      | none => exact steady_pure s _
      | some s' =>
        have hshorter := (h s c).shorter hc (some s') hs' rfl
        exact ih s' (Nat.le_of_lt_succ (Nat.lt_of_lt_of_le hshorter hrounds))
    · exact .of_not_ready (hfollows _ s c) hc

theorem Steady.fold {step : σ → Parser (Option σ)} (h : ∀ s, Steady n (step s) (·.isSome = true)) (s : σ) :
    Steady n (fold step s) never := fun c =>
  (meets_foldUpTo h s (Nat.le_refl c.ahead.length)).congr rfl

theorem Steady.many {step : Parser (Option α)} (h : Steady n step (·.isSome = true)) :
    Steady n (many step) never := by
  have hgather : ∀ found, Steady n (gather step found) (·.isSome = true) := fun found =>
    h.map fun _ => by simp
  exact (Steady.fold hgather []).map fun _ => id

/-- A loop ends with a round that declines. -/
theorem exists_of_foldUpTo {step : σ → Parser (Option σ)} {rounds : Nat} {s s' : σ}
    (h : (foldUpTo step rounds s c).1 = .done s') :
    ∃ before, (step s' before).1 = .done none ∧ (step s' before).2 = (foldUpTo step rounds s c).2 := by
  induction rounds generalizing s c with
  | zero => cases h
  | succ rounds ih =>
    obtain ⟨next, hnext, hrun⟩ := exists_of_bind h
    rw [foldUpTo, hrun] at h ⊢
    cases next with
    | none =>
      obtain rfl := Outcome.done.inj h
      exact ⟨c, hnext, rfl⟩
    | some next => exact ih h

theorem exists_of_many {step : Parser (Option α)} {as : List α} (h : (many step c).1 = .done as) :
    ∃ before, (step before).1 = .done none ∧ (step before).2 = (many step c).2 := by
  obtain ⟨found, hfound, hmany⟩ := exists_of_bind h
  obtain ⟨before, hdone, hcursor⟩ := exists_of_foldUpTo hfound
  obtain ⟨next, hnext, hgather⟩ := exists_of_bind hdone
  rw [gather, hgather] at hdone hcursor
  cases next with
  | none => exact ⟨before, hnext, hcursor.trans (congrArg Prod.snd hmany).symm⟩
  | some a => cases hdone

/-! ## Where an answer is given -/

/-- With an answer, a parser leaves the cursor where this holds. -/
def Leaves (p : Parser α) (holds : α → Cursor → Prop) : Prop :=
  ∀ c a, (p c).1 = .done a → holds a (p c).2

theorem Leaves.andThen {p : Parser α} {f : α → Parser β} {holds : α → Cursor → Prop}
    {holds' : β → Cursor → Prop} (hp : Leaves p holds)
    (hf : ∀ a c b, holds a c → (f a c).1 = .done b → holds' b (f a c).2) : Leaves (p >>= f) holds' := by
  intro c b hb
  obtain ⟨a, ha, hrun⟩ := exists_of_bind hb
  rw [hrun] at hb ⊢
  exact hf a _ b (hp c a ha) hb

theorem Leaves.bind {p : Parser α} {f : α → Parser β} {holds : β → Cursor → Prop}
    (hf : ∀ a, Leaves (f a) holds) : Leaves (p >>= f) holds := by
  have hp : Leaves p fun _ _ => True := fun _ _ _ => trivial
  exact hp.andThen fun a c b _ => hf a c b

theorem Leaves.map {p : Parser α} {f : α → β} {holds : α → Cursor → Prop} {holds' : β → Cursor → Prop}
    (hp : Leaves p holds) (himp : ∀ a c, holds a c → holds' (f a) c) : Leaves (do return f (← p)) holds' :=
  hp.andThen fun a c _ ha hb => Outcome.done.inj hb ▸ himp a c ha

theorem Leaves.many {step : Parser (Option α)} {holds : Cursor → Prop}
    (h : Leaves step fun a c => a = none → holds c) : Leaves (many step) fun _ => holds := by
  intro c as has
  obtain ⟨before, hnone, hcursor⟩ := exists_of_many has
  exact hcursor ▸ h before none hnone rfl

theorem leaves_peek : Leaves peek fun t c => c.ahead.head? = some t := fun _ _ => head_of_peek

end Parser
end Gatehouse.Rego
