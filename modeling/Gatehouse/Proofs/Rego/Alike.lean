import Gatehouse.Proofs.Rego.Runs
import Gatehouse.Proofs.Rego.Unplaced

/-!
# Two runs in step

Two parsers run along two lists of tokens that differ in their places, in how long their runs of newlines are, and
perhaps in what is behind them.

1. **Lists in step** (`Ends.Tracks`).  Token by token they are alike, and a run of newlines goes with a run of
   newlines, up to where the comparison ends.  It ends with the lists (`Ends.Whole`), or at the symbols that close
   what the two stand in.  These may be different ones.
2. **Answers that agree** (`Ends.Agree`).  The same value up to places, and cursors that are in step again; or the
   same error up to its place.  Where the comparison is not of the whole, nothing is said of the right run if the left
   one fails, and the right one may complain of too many levels if it stands further in.
3. **Parsers in step** (`Ends.Keeps`).  They agree wherever they start in step, if the left one stops in time: at the
   end of the comparison, or a token before it.  The crux is the token at the end, which the two see differently.
   A parser that only looks there has to stop one token earlier; one that goes on to take a token never gets there.
4. **Putting parsers together.**  One rule for each way to do so.
-/

namespace Gatehouse.Rego

open Gatehouse.Text Gatehouse.Rego.Parser
open Placed (unplaced)

/-! ## Lists in step -/

/-- Two tokens differ in their places only.  No one asks whether a newline stands apart. -/
structure Token.Alike (t u : Token) : Prop where
  kind : t.kind = u.kind
  spaced : t.kind ≠ .newline → t.spaced = u.spaced

theorem Token.Alike.refl (t : Token) : t.Alike t := ⟨rfl, fun _ => rfl⟩

/-- A symbol that closes a body. -/
def Token.Closes (t : Token) : Prop := t.kind = .symbol .rbrace ∨ t.kind = .symbol .rbracket

/-- Where the comparison of two lists ends: with the lists, or at a symbol that closes and has more behind it. -/
structure Ends where
  left : List Token
  right : List Token
  /-- Bars may stand before the ends. -/
  bars : Bool
  ends : left = [] ∧ right = [] ∧ bars = true ∨ (∃ t v ts, left = t :: v :: ts ∧ t.Closes) ∧
    ∃ u v us, right = u :: v :: us ∧ u.Closes

namespace Ends

variable (e : Ends)

/-- The comparison is of the whole lists. -/
def Whole : Prop := e.left = []

/-- Comparing whole lists. -/
def whole : Ends := ⟨[], [], true, .inl ⟨rfl, rfl, rfl⟩⟩

/-- Two lists are in step up to where the comparison ends. -/
inductive Tracks : List Token → List Token → Prop
  | ends : Tracks e.left e.right
  | token {t u : Token} {ts us : List Token} (h : t.Alike u) (ht : t.kind ≠ .newline)
    (hbar : t.kind = .symbol .pipe → e.bars = true) (hts : Tracks ts us) : Tracks (t :: ts) (u :: us)
  | lines {before before' ts us : List Token} (hne : before ≠ []) (hne' : before' ≠ [])
    (h : ∀ t ∈ before, t.kind = .newline) (h' : ∀ t ∈ before', t.kind = .newline) (hts : Tracks ts us) :
    Tracks (before ++ ts) (before' ++ us)

variable {e} {t u : Token} {ts us : List Token}

theorem right_of_whole (h : e.Whole) : e.right = [] ∧ e.bars = true := by
  rcases e.ends with ⟨-, hright, hbars⟩ | ⟨⟨t, v, ts, hleft, -⟩, -⟩
  · exact ⟨hright, hbars⟩
  · cases (show e.left = [] from h).symm.trans hleft

/-- Where the comparison is not of the whole, it ends at closing symbols. -/
theorem exists_closes (h : ¬e.Whole) : (∃ t v ts, e.left = t :: v :: ts ∧ t.Closes) ∧
    ∃ u v us, e.right = u :: v :: us ∧ u.Closes :=
  e.ends.resolve_left fun hnil => h hnil.1

theorem Tracks.length_le (h : e.Tracks ts us) : e.left.length ≤ ts.length := by
  induction h with
  | ends => exact Nat.le_refl _
  | token => exact Nat.le_succ_of_le ‹_›
  | lines => exact Nat.le_trans ‹_› (by simp)

theorem Tracks.eq_nil_iff (h : e.Tracks ts us) : ts = [] ↔ us = [] := by
  cases h with
  | ends =>
    by_cases hwhole : e.Whole
    · simp [show e.left = [] from hwhole, (right_of_whole hwhole).1]
    · obtain ⟨⟨t, v, ts, hleft, -⟩, u, w, us, hright, -⟩ := exists_closes hwhole
      simp [hleft, hright]
  | token => simp
  | lines hne hne' => simp [hne, hne']

/-- Lists in step begin with tokens that are alike, unless the comparison ends here. -/
theorem Tracks.cases_cons (h : e.Tracks (t :: ts) us) : ¬e.Whole ∧ t :: ts = e.left ∧ us = e.right ∨
    ∃ u us', us = u :: us' ∧ t.Alike u ∧ (t.kind = .symbol .pipe → e.bars = true) ∧
      (t.kind ≠ .newline → e.Tracks ts us') := by
  generalize hlist : t :: ts = list at h
  cases h with
  | ends => exact .inl ⟨fun hwhole => List.cons_ne_nil t ts (hlist.trans hwhole), rfl, rfl⟩
  | token halike _ hbar hts =>
    obtain ⟨rfl, rfl⟩ := List.cons.inj hlist
    exact .inr ⟨_, _, rfl, halike, hbar, fun _ => hts⟩
  | @lines before before' ts' us' hne hne' hnewline hnewline' =>
    obtain ⟨l, before, rfl⟩ := List.exists_cons_of_ne_nil hne
    obtain ⟨m, before', rfl⟩ := List.exists_cons_of_ne_nil hne'
    obtain ⟨rfl, rfl⟩ := List.cons.inj hlist
    have ht : t.kind = .newline := hnewline _ List.mem_cons_self
    have hm : m.kind = .newline := hnewline' _ List.mem_cons_self
    exact .inr ⟨m, before' ++ us', rfl, ⟨ht.trans hm.symm, absurd ht⟩, by simp [ht], absurd ht⟩

/-- A token that is looked for only by its kind: newlines are passed over, and closing symbols are not. -/
structure Passes (test : Token → Bool) : Prop where
  kind : ∀ t u : Token, t.kind = u.kind → test t = test u
  newline : ∀ t : Token, t.kind = .newline → test t = true
  closes : ∀ t : Token, t.Closes → test t = false

theorem passes_isNewline : Passes isNewline :=
  ⟨fun _ _ h => by rw [isNewline, isNewline, h], fun _ h => decide_eq_true h, fun t h => by
    rcases h with h | h <;> simp [isNewline, h]⟩

theorem passes_isSeparator : Passes isSeparator :=
  ⟨fun _ _ h => by rw [isSeparator, isSeparator, h], fun _ h => by simp [isSeparator, h], fun t h => by
    rcases h with h | h <;> simp [isSeparator, h]⟩

/-- Behind what is passed over, lists are in step again. -/
theorem Tracks.dropWhile {test : Token → Bool} (htest : Passes test) (h : e.Tracks ts us) :
    e.Tracks (ts.dropWhile test) (us.dropWhile test) := by
  induction h with
  | ends =>
    have hends : e.Tracks e.left e.right := .ends
    by_cases hwhole : e.Whole
    · rwa [show e.left = [] from hwhole, (right_of_whole hwhole).1] at hends ⊢
    · obtain ⟨⟨t, v, ts, hleft, ht⟩, u, w, us, hright, hu⟩ := exists_closes hwhole
      rw [hleft, hright] at hends ⊢
      rwa [List.dropWhile_cons_of_neg (by simp [htest.closes t ht]),
        List.dropWhile_cons_of_neg (by simp [htest.closes u hu])]
  | @token t u ts us halike hne hbar hts ih =>
    have hsame := htest.kind t u halike.kind
    by_cases ht : test t = true
    · rwa [List.dropWhile_cons_of_pos ht, List.dropWhile_cons_of_pos (hsame ▸ ht)]
    · rw [List.dropWhile_cons_of_neg ht, List.dropWhile_cons_of_neg (hsame ▸ ht)]
      exact .token halike hne hbar hts
  | lines hne hne' hnewline hnewline' hts ih =>
    rwa [List.dropWhile_append_of_pos fun t ht => htest.newline t (hnewline t ht),
      List.dropWhile_append_of_pos fun t ht => htest.newline t (hnewline' t ht)]

/-! ## Answers that agree -/

variable {α β σ : Type} [Placed α] [Placed β] [Placed σ] {k : Nat} {c d : Cursor}

variable (e) in
/-- What surrounds the two cursors does not make them read differently, but for bars if there are none, and for how far
in they are. -/
structure Around (c d : Cursor) : Prop where
  newlines : c.keepsNewlines = d.keepsNewlines
  union : e.bars = true → c.union = d.union
  whole : e.Whole → c.depth = d.depth

variable (e) in
/-- The two answers agree, if both runs started in these surroundings. -/
inductive Agree (c d : Cursor) : Outcome α × Cursor → Outcome α × Cursor → Prop
  | done {a b : α} {ts us : List Token} (h : unplaced a = unplaced b) (hts : e.Tracks ts us) :
    Agree c d (.done a, c.withAhead ts) (.done b, d.withAhead us)
  | failed {x y : SyntaxError} (h : unplaced x = unplaced y) (c' d' : Cursor) :
    Agree c d (.failed x, c') (.failed y, d')
  | refused (hwhole : ¬e.Whole) (x : SyntaxError) (c' : Cursor) (right : Outcome α × Cursor) :
    Agree c d (.failed x, c') right
  | tooDeep (hdeeper : c.depth < d.depth) (left : Outcome α × Cursor) (location : Location) (d' : Cursor) :
    Agree c d left (.failed (.nestingTooDeep maxNesting location), d')
  | stuckLeft (c' : Cursor) (right : Outcome α × Cursor) : Agree c d (.stuck, c') right
  | stuckRight (left : Outcome α × Cursor) (d' : Cursor) : Agree c d left (.stuck, d')

/-- Where the comparison is not of the whole, only an answer of the left run counts. -/
theorem agree_of_done {left right : Outcome α × Cursor} (hwhole : ¬e.Whole)
    (h : ∀ a, left.1 = .done a → e.Agree c d left right) : e.Agree c d left right := by
  obtain ⟨_ | x | _, c'⟩ := left
  · exact h _ rfl
  · exact .refused hwhole x c' right
  · exact .stuckLeft c' right

variable (e) in
/-- The cursor is `k` tokens before the end of the comparison. -/
def Reaches (k : Nat) (c : Cursor) : Prop := e.Whole ∨ e.left.length + k ≤ c.ahead.length

theorem Reaches.mono {k' : Nat} {c' : Cursor} (h : e.Reaches k c) (hle : c.ahead.length + k' ≤ c'.ahead.length + k) :
    e.Reaches k' c' := h.imp_right fun h => by omega

end Ends

namespace Parser

variable {α β σ : Type} {p : Parser α} {f : α → Parser β}

/-- No token comes back. -/
def Shrinks (p : Parser α) : Prop := ∀ c, (p c).2.ahead.length ≤ c.ahead.length

theorem Steady.shrinks {n : Nat} {uses : α → Prop} (h : Steady n p uses) : Shrinks p := fun c =>
  (h c).follows.length_le

/-- A run of two parts ends where the first one did, or where the second one did. -/
theorem cases_bind (p : Parser α) (f : α → Parser β) (c : Cursor) :
    (∃ a, (p c).1 = .done a ∧ (p >>= f) c = f a (p c).2) ∨
      (∃ x, p c = (.failed x, (p c).2) ∧ (p >>= f) c = (.failed x, (p c).2)) ∨
        p c = (.stuck, (p c).2) ∧ (p >>= f) c = (.stuck, (p c).2) := by
  rw [bind_apply]
  rcases p c with ⟨a | x | _, c'⟩
  · exact .inl ⟨a, rfl, rfl⟩
  · exact .inr (.inl ⟨x, rfl, rfl⟩)
  · exact .inr (.inr ⟨rfl, rfl⟩)

theorem Shrinks.length_bind_le (hf : ∀ a, Shrinks (f a)) (c : Cursor) :
    ((p >>= f) c).2.ahead.length ≤ (p c).2.ahead.length := by
  rcases cases_bind p f c with ⟨a, -, hrun⟩ | ⟨x, -, hrun⟩ | ⟨-, hrun⟩
  · exact hrun ▸ hf a _
  · exact hrun ▸ Nat.le_refl _
  · exact hrun ▸ Nat.le_refl _

theorem Shrinks.bind (hp : Shrinks p) (hf : ∀ a, Shrinks (f a)) : Shrinks (p >>= f) := fun c =>
  (Shrinks.length_bind_le hf c).trans (hp c)

/-- An answer comes with a token used up, if the last tokens are not reached: the last one of all is not taken. -/
def Uses (p : Parser α) : Prop :=
  ∀ c a, (p c).1 = .done a → 2 ≤ (p c).2.ahead.length → (p c).2.ahead.length < c.ahead.length

theorem Uses.bind (hp : Uses p) (hf : ∀ a, Shrinks (f a)) : Uses (p >>= f) := by
  intro c b hb hlength
  obtain ⟨a, ha, hrun⟩ := exists_of_bind hb
  rw [hrun] at hlength ⊢
  have hle := hf a (p c).2
  exact Nat.lt_of_le_of_lt hle (hp c a ha (hlength.trans hle))

theorem Uses.after (hp : Shrinks p) (hf : ∀ a, Uses (f a)) : Uses (p >>= f) := by
  intro c b hb hlength
  obtain ⟨a, -, hrun⟩ := exists_of_bind hb
  rw [hrun] at hb hlength ⊢
  exact Nat.lt_of_lt_of_le (hf a _ b hb hlength) (hp c)

theorem Uses.ite {condition : Prop} [Decidable condition] {q : Parser α} (hp : Uses p) (hq : Uses q) :
    Uses (if condition then p else q) := by
  split
  · exact hp
  · exact hq

end Parser

namespace Ends

variable {e : Ends} {α β σ : Type} [Placed α] [Placed β] [Placed σ] {k : Nat} {c d : Cursor} {t u : Token}
  {ts us : List Token}

/-! ## Parsers in step -/

variable (e) in
/-- Two parsers agree in these surroundings wherever they start in step, if the left one stops `k` tokens before the
end of the comparison. -/
structure Keeps (k : Nat) (c d : Cursor) (p q : Parser α) : Prop where
  shrinks : Shrinks p
  agrees : ∀ ts us, e.Tracks ts us → e.Reaches k (p (c.withAhead ts)).2 →
    e.Agree c d (p (c.withAhead ts)) (q (d.withAhead us))

theorem Keeps.mono {p q : Parser α} (h : e.Keeps 0 c d p q) : e.Keeps k c d p q :=
  ⟨h.shrinks, fun ts us hts hreaches => h.agrees ts us hts (hreaches.mono (by omega))⟩

variable (e) in
/-- Two parsers agree up to the end of the comparison, and the left one takes a token. -/
structure Takes (c d : Cursor) (p q : Parser α) : Prop extends e.Keeps 0 c d p q where
  uses : Uses p

/-- What follows goes on where both have stopped. -/
theorem Agree.bind {p q : Parser α} {f g : α → Parser β} {c' d' : Cursor} (h : e.Agree c d (p c') (q d'))
    (hf : ∀ a b ts us, unplaced a = unplaced b → e.Tracks ts us → (p c').2 = c.withAhead ts →
      (p >>= f) c' = f a (c.withAhead ts) → e.Agree c d (f a (c.withAhead ts)) (g b (d.withAhead us))) :
    e.Agree c d ((p >>= f) c') ((q >>= g) d') := by
  generalize hleft : p c' = left at h hf
  generalize hright : q d' = right at h
  cases h with
  | done hab hts =>
    have hrun : (p >>= f) c' = f _ (c.withAhead _) := bind_of_done hleft
    rw [hrun, bind_of_done hright]
    exact hf _ _ _ _ hab hts rfl hrun
  | failed h =>
    rw [bind_of_failed hleft, bind_of_failed hright]
    exact .failed h _ _
  | refused hwhole =>
    rw [bind_of_failed hleft]
    exact .refused hwhole _ _ _
  | tooDeep hdeeper =>
    rw [bind_of_failed hright]
    exact .tooDeep hdeeper _ _ _
  | stuckLeft =>
    rw [bind_apply, hleft]
    exact .stuckLeft _ _
  | stuckRight =>
    rw [bind_apply q, hright]
    exact .stuckRight _ _

theorem Keeps.bind {p q : Parser α} {f g : α → Parser β} (hp : e.Keeps k c d p q)
    (hf : ∀ a b, unplaced a = unplaced b → e.Keeps k c d (f a) (g b)) : e.Keeps k c d (p >>= f) (q >>= g) := by
  have hshrinks : ∀ a, Shrinks (f a) := fun a => (hf a a rfl).shrinks
  refine ⟨hp.shrinks.bind hshrinks, fun ts us hts hreaches => ?_⟩
  have hfirst : e.Reaches k (p (c.withAhead ts)).2 :=
    hreaches.mono (Nat.add_le_add_right (Shrinks.length_bind_le hshrinks _) k)
  refine (hp.agrees ts us hts hfirst).bind fun a b ts' us' hab hts' _ hrun => ?_
  exact (hf a b hab).agrees ts' us' hts' (hrun ▸ hreaches)

theorem Takes.bind {p q : Parser α} {f g : α → Parser β} (hp : e.Takes c d p q)
    (hf : ∀ a b, unplaced a = unplaced b → e.Keeps 0 c d (f a) (g b)) : e.Takes c d (p >>= f) (q >>= g) :=
  ⟨hp.toKeeps.bind hf, hp.uses.bind fun a => (hf a a rfl).shrinks⟩

/-- The second part takes a token, so the first one stops before the end of the comparison. -/
theorem Keeps.closes {p q : Parser α} {f g : α → Parser β} (hp : e.Keeps 1 c d p q)
    (hf : ∀ a b, unplaced a = unplaced b → e.Takes c d (f a) (g b)) : e.Takes c d (p >>= f) (q >>= g) := by
  have huses : Uses (p >>= f) := Uses.after hp.shrinks fun a => (hf a a rfl).uses
  by_cases hwhole : e.Whole
  · have hall := hp.bind fun a b hab => (hf a b hab).mono
    exact ⟨⟨hall.shrinks, fun ts us hts _ => hall.agrees ts us hts (.inl hwhole)⟩, huses⟩
  · have hshrinks : ∀ a, Shrinks (f a) := fun a => (hf a a rfl).shrinks
    refine ⟨⟨hp.shrinks.bind hshrinks, fun ts us hts hreaches => agree_of_done hwhole fun b hb => ?_⟩, huses⟩
    obtain ⟨a, ha, hrun⟩ := exists_of_bind hb
    have hlength : e.left.length ≤ ((p >>= f) (c.withAhead ts)).2.ahead.length := hreaches.resolve_left hwhole
    have htwo : 2 ≤ e.left.length := by
      obtain ⟨⟨t, v, ts, hleft, -⟩, -⟩ := exists_closes hwhole
      simp [hleft]
    have hlt : ((p >>= f) (c.withAhead ts)).2.ahead.length < (p (c.withAhead ts)).2.ahead.length := by
      rw [hrun] at hb hlength ⊢
      exact (hf a a rfl).uses _ b hb (htwo.trans hlength)
    refine (hp.agrees ts us hts (.inr (Nat.lt_of_le_of_lt hlength hlt))).bind fun a b ts' us' hab hts' _ hrun => ?_
    exact (hf a b hab).agrees ts' us' hts' (hrun ▸ hreaches)

theorem keeps_pure {a b : α} (h : unplaced a = unplaced b) : e.Keeps k c d (pure a) (pure b) :=
  ⟨fun _ => Nat.le_refl _, fun _ _ hts _ => .done h hts⟩

omit [Placed α] in
theorem shrinks_fail (x : SyntaxError) : Shrinks (fail x : Parser α) := fun _ => Nat.le_refl _

theorem keeps_fail {x y : SyntaxError} (h : unplaced x = unplaced y) :
    e.Keeps k c d (fail x : Parser α) (fail y) := ⟨shrinks_fail x, fun _ _ _ _ => .failed h _ _⟩

theorem Keeps.ite {condition : Prop} [Decidable condition] {p p' q q' : Parser α} (hp : e.Keeps k c d p p')
    (hq : e.Keeps k c d q q') :
    e.Keeps k c d (if condition then p else q) (if condition then p' else q') := by
  split
  · exact hp
  · exact hq

theorem Takes.ite {condition : Prop} [Decidable condition] {p p' q q' : Parser α} (hp : e.Takes c d p p')
    (hq : e.Takes c d q q') : e.Takes c d (if condition then p else q) (if condition then p' else q') :=
  ⟨hp.toKeeps.ite hq.toKeeps, hp.uses.ite hq.uses⟩

/-! ## Looking -/

variable (e) in
/-- Two parsers agree where the next tokens are these and the comparison does not end before them. -/
structure KeepsAt (k : Nat) (c d : Cursor) (t u : Token) (p q : Parser α) : Prop where
  shrinks : Shrinks p
  agrees : ∀ ts us, e.Tracks (t :: ts) (u :: us) → (t.kind ≠ .newline → e.Tracks ts us) →
    (t.kind = .symbol .pipe → e.bars = true) → e.Reaches k (p (c.withAhead (t :: ts))).2 →
      e.Agree c d (p (c.withAhead (t :: ts))) (q (d.withAhead (u :: us)))

theorem Keeps.at {p q : Parser α} (h : e.Keeps k c d p q) (t u : Token) : e.KeepsAt k c d t u p q :=
  ⟨h.shrinks, fun _ _ hts _ _ => h.agrees _ _ hts⟩

theorem KeepsAt.ite {condition : Prop} [Decidable condition] {p p' q q' : Parser α} (hp : e.KeepsAt k c d t u p p')
    (hq : e.KeepsAt k c d t u q q') :
    e.KeepsAt k c d t u (if condition then p else q) (if condition then p' else q') := by
  split
  · exact hp
  · exact hq

variable (e) in
/-- Two parsers agree at the end of the comparison. -/
def KeepsAtEnds (k : Nat) (c d : Cursor) (p q : Parser α) : Prop :=
  e.Reaches k (p (c.withAhead e.left)).2 → e.Agree c d (p (c.withAhead e.left)) (q (d.withAhead e.right))

/-- A parser that has to stop before the end of the comparison does not start there. -/
theorem keepsAtEnds_of_shrinks {p q : Parser α} (hwhole : ¬e.Whole) (hp : Shrinks p) : e.KeepsAtEnds 1 c d p q := by
  intro hreaches
  have hlength : e.left.length + 1 ≤ _ := hreaches.resolve_left hwhole
  exact absurd (hp (c.withAhead e.left)) (Nat.not_le.2 hlength)

/-- A parser that takes a token does not stop where it starts. -/
theorem keepsAtEnds_of_uses {p q : Parser α} (hwhole : ¬e.Whole) (hp : Uses p) : e.KeepsAtEnds 0 c d p q := by
  refine fun hreaches => agree_of_done hwhole fun a ha => ?_
  have hlength : e.left.length ≤ _ := hreaches.resolve_left hwhole
  have htwo : 2 ≤ e.left.length := by
    obtain ⟨⟨t, v, ts, hleft, -⟩, -⟩ := exists_closes hwhole
    simp [hleft]
  exact absurd (hp _ a ha (htwo.trans hlength)) (Nat.not_lt.2 hlength)

theorem Tracks.visible (h : e.Around c d) (hts : e.Tracks ts us) : e.Tracks (c.visible ts) (d.visible us) := by
  unfold Cursor.visible
  rw [← h.newlines]
  split
  · exact hts
  · exact hts.dropWhile passes_isNewline

/-- **A look at the next token**, and what follows it.  At the end of the comparison the two see different tokens. -/
theorem keeps_of_peek {f g : Token → Parser α} (h : e.Around c d)
    (hf : ∀ t u : Token, t.Alike u → e.KeepsAt k c d t u (f t) (g u))
    (hends : ∀ t u : Token, ¬e.Whole → t.Closes → u.Closes → e.KeepsAtEnds k c d (f t) (g u)) :
    e.Keeps k c d (peek >>= f) (peek >>= g) := by
  refine ⟨(Steady.shrinks (n := 0) steady_peek).bind fun t => (hf t t (.refl t)).shrinks, fun ts us hts hreaches => ?_⟩
  have hvisible := hts.visible h
  cases hleft : c.visible ts with
  | nil =>
    have hstuck : (peek (c.withAhead ts)).1 = .stuck := peek_of_nil hleft
    rw [bind_apply, ← Prod.eta (peek (c.withAhead ts)), hstuck]
    exact .stuckLeft _ _
  | cons t ts' =>
    have hpeek : peek (c.withAhead ts) = (.done t, c.withAhead (t :: ts')) := by
      have hnext : (c.withAhead ts).Next t := congrArg List.head? hleft
      rw [peek_of_next hnext, ← hleft]
      rfl
    rw [hleft] at hvisible
    rw [bind_of_done hpeek] at hreaches ⊢
    have hright : ∀ u us', d.visible us = u :: us' → peek (d.withAhead us) = (.done u, d.withAhead (u :: us')) := by
      intro u us' hright
      have hnext : (d.withAhead us).Next u := congrArg List.head? hright
      rw [peek_of_next hnext, ← hright]
      rfl
    rcases hvisible.cases_cons with ⟨hwhole, hleft', hright'⟩ | ⟨u, us', hus, halike, hbar, hrest⟩
    · obtain ⟨⟨v, w, vs, hv, hcloses⟩, x, y, ys, hx, hcloses'⟩ := exists_closes hwhole
      obtain ⟨rfl, -⟩ := List.cons.inj (hleft'.trans hv)
      rw [bind_of_done (hright x (y :: ys) (hright'.trans hx)), ← hx]
      rw [hleft'] at hreaches ⊢
      exact hends t x hwhole hcloses hcloses' hreaches
    · rw [bind_of_done (hright u us' hus)]
      rw [hus] at hvisible
      exact (hf t u halike).agrees ts' us' hvisible hrest hbar hreaches

/-- What is made of a look at the next token, if it makes no difference which closing symbol that is. -/
theorem keeps_look {f : Token → α} (h : e.Around c d)
    (hf : ∀ t u : Token, t.Alike u ∨ t.Closes ∧ u.Closes → unplaced (f t) = unplaced (f u)) :
    e.Keeps k c d (do return f (← peek)) (do return f (← peek)) :=
  keeps_of_peek h (fun t u halike => (keeps_pure (hf t u (.inl halike))).at t u) fun t u _ ht hu _ =>
    .done (hf t u (.inr ⟨ht, hu⟩)) .ends

/-- What is made of a look at the next token before the end of the comparison. -/
theorem keeps_look_before {f : Token → α} (h : e.Around c d)
    (hf : ∀ t u : Token, t.Alike u → unplaced (f t) = unplaced (f u)) :
    e.Keeps 1 c d (do return f (← peek)) (do return f (← peek)) :=
  keeps_of_peek h (fun t u halike => (keeps_pure (hf t u halike)).at t u) fun t _ hwhole _ _ =>
    keepsAtEnds_of_shrinks hwhole (keeps_pure (e := e) (k := 0) (c := c) (d := d) (rfl : unplaced (f t) = _)).shrinks

theorem keeps_place (h : e.Around c d) : e.Keeps k c d place place := keeps_look h fun _ _ _ => rfl

theorem keeps_atEnd (h : e.Around c d) : e.Keeps k c d atEnd atEnd := by
  refine keeps_look h fun t u htu => ?_
  rcases htu with htu | ⟨ht | ht, hu | hu⟩
  · exact congrArg (fun kind => decide (kind = Kind.endOfInput)) htu.kind
  all_goals simp [ht, hu]

theorem keeps_atWord (h : e.Around c d) (word : String) : e.Keeps k c d (atWord word) (atWord word) := by
  refine keeps_look h fun t u htu => ?_
  rcases htu with htu | ⟨ht | ht, hu | hu⟩
  · exact congrArg (fun kind => decide (kind = Kind.name word)) htu.kind
  all_goals simp [ht, hu]

/-- A symbol that closes no body is no closing symbol to either. -/
theorem keeps_atOther (h : e.Around c d) {s : Symbol} (hs : s ≠ .rbrace ∧ s ≠ .rbracket) :
    e.Keeps k c d (atSymbol s) (atSymbol s) := by
  refine keeps_look h fun t u htu => ?_
  rcases htu with htu | ⟨ht | ht, hu | hu⟩
  · exact congrArg (fun kind => decide (kind = Kind.symbol s)) htu.kind
  all_goals simp [ht, hu, hs.1.symm, hs.2.symm]

/-- A symbol is seen before the end of the comparison. -/
theorem keeps_atSymbol (h : e.Around c d) (s : Symbol) : e.Keeps 1 c d (atSymbol s) (atSymbol s) :=
  keeps_look_before h fun _ _ htu => congrArg (fun kind => decide (kind = Kind.symbol s)) htu.kind

/-- A complaint is about the token that the two see. -/
theorem keeps_unexpected (h : e.Around c d) (expected : String) :
    e.Keeps k c d (unexpected expected : Parser α) (unexpected expected) := by
  refine keeps_of_peek h (fun t u htu => ?_) fun t u hwhole ht _ _ => ?_
  · rw [← htu.kind]
    exact .ite ((keeps_fail (by rfl)).at t u) ((keeps_fail (by rfl)).at t u)
  · have hkind : t.kind ≠ .endOfInput := by rcases ht with ht | ht <;> simp [ht]
    show e.Agree c d ((if t.kind = .endOfInput then _ else _ : Parser α) _) _
    rw [if_neg hkind]
    exact .refused hwhole _ _ _

omit [Placed α] in
theorem unexpected_ne_done (expected : String) (c : Cursor) (a : α) :
    (unexpected expected c : Outcome α × Cursor).1 ≠ .done a := by
  intro ha
  obtain ⟨t, -, hrun⟩ := exists_of_bind (p := peek) ha
  rw [unexpected, hrun] at ha
  split at ha <;> cases ha

/-- There is no answer, so none comes without a token. -/
theorem takes_unexpected (h : e.Around c d) (expected : String) :
    e.Takes c d (unexpected expected : Parser α) (unexpected expected) :=
  ⟨keeps_unexpected h expected, fun c a ha => absurd ha (unexpected_ne_done expected c a)⟩

/-- A bar is the same operator to both, and a closing symbol is none. -/
theorem operator?_eq (h : e.Around c d) (htu : t.Alike u) (hbar : t.kind = .symbol .pipe → e.bars = true) :
    operator? c.union t.kind = operator? d.union u.kind := by
  rw [← htu.kind]
  by_cases hpipe : t.kind = .symbol .pipe
  · rw [h.union (hbar hpipe)]
  · generalize t.kind = kind at hpipe
    rcases kind with _ | _ | _ | s | _ | _ <;> try rfl
    cases s <;> first | rfl | exact absurd rfl hpipe

theorem operator?_of_closes (union : Bool) (ht : t.Closes) : operator? union t.kind = none := by
  rcases ht with ht | ht <;> rw [ht] <;> rfl

/-- What follows a look at the next operator, if the next token is known. -/
def atOperator {α : Type} (f : Option BinOp → Parser α) (t : Token) : Parser α := fun c =>
  f (operator? c.union t.kind) c

omit [Placed α] in
theorem operator_bind (f : Option BinOp → Parser α) : (operator >>= f) = peek >>= atOperator f := by
  funext c
  have hrun : operator c = match peek c with
      | (.done t, c') => (.done (operator? c'.union t.kind), c')
      | (.failed x, c') => (.failed x, c')
      | (.stuck, c') => (.stuck, c') := by
    refine (bind_apply _ _ c).trans ?_
    rcases peek c with ⟨_ | _ | _, c'⟩ <;> rfl
  rw [bind_apply, hrun, bind_apply]
  rcases peek c with ⟨t | x | _, c'⟩ <;> rfl

/-- A look at the next operator, and what follows it. -/
theorem keeps_operator {f g : Option BinOp → Parser α} (h : e.Around c d) (hnone : e.Keeps k c d (f none) (g none))
    (hsome : ∀ (op : BinOp) (t u : Token), t.Alike u → t.kind ≠ .newline →
      e.KeepsAt k c d t u (f (some op)) (g (some op))) :
    e.Keeps k c d (operator >>= f) (operator >>= g) := by
  rw [operator_bind, operator_bind]
  refine keeps_of_peek h (fun t u htu => ⟨fun c => ?_, fun ts us hts hrest hbar hreaches => ?_⟩)
    fun t u _ ht hu hreaches => ?_
  · show (f (operator? c.union t.kind) c).2.ahead.length ≤ c.ahead.length
    cases operator? c.union t.kind with
    | none => exact hnone.shrinks c
    | some op => exact (hsome op ⟨.endOfInput, .start, true⟩ _ (.refl _) Kind.noConfusion).shrinks c
  · have hsame := operator?_eq h htu hbar
    change e.Reaches k (f (operator? c.union t.kind) _).2 at hreaches
    show e.Agree c d (f (operator? c.union t.kind) _) (g (operator? d.union u.kind) _)
    rw [← hsame]
    cases hop : operator? c.union t.kind with
    | none =>
      rw [hop] at hreaches
      exact hnone.agrees _ _ hts hreaches
    | some op =>
      have hne : t.kind ≠ .newline := fun hline => by simp [hline, operator?] at hop
      rw [hop] at hreaches
      exact (hsome op t u htu hne).agrees _ _ hts hrest hbar hreaches
  · change e.Reaches k (f (operator? c.union t.kind) _).2 at hreaches
    show e.Agree c d (f (operator? c.union t.kind) _) (g (operator? d.union u.kind) _)
    rw [operator?_of_closes _ ht] at hreaches ⊢
    rw [operator?_of_closes _ hu]
    exact hnone.agrees _ _ .ends hreaches

/-! ## Going on -/

theorem shrinks_advance : Shrinks advance := Steady.shrinks (n := 0) steady_advance

/-- Where a token comes next that is no newline, it is the one that is taken. -/
theorem advance_of_ne {t : Token} {ts : List Token} (ht : t.kind ≠ .newline) :
    advance (c.withAhead (t :: ts)) = (.done t, c.withAhead (if ts = [] then [t] else ts)) := by
  have hsettled : (c.withAhead (t :: ts)).settled.ahead = t :: ts :=
    congrArg Cursor.ahead (Cursor.settled_of_ne rfl ht)
  cases ts with
  | nil =>
    rw [advance, bind_of_done (peek_of_next (congrArg List.head? hsettled)), Cursor.settled_of_ne rfl ht]
    rfl
  | cons v vs => exact advance_of_cons hsettled (List.cons_ne_nil v vs)

theorem Tracks.behind (hts : e.Tracks (t :: ts) (u :: us)) (hrest : e.Tracks ts us) :
    e.Tracks (if ts = [] then [t] else ts) (if us = [] then [u] else us) := by
  by_cases hnil : ts = []
  · rw [if_pos hnil, if_pos (hrest.eq_nil_iff.1 hnil)]
    subst hnil
    rwa [hrest.eq_nil_iff.1 rfl] at hts
  · rwa [if_neg hnil, if_neg fun h => hnil (hrest.eq_nil_iff.2 h)]

/-- A token is taken, and what follows goes on behind it. -/
theorem keepsAt_advance {f g : Token → Parser α} (htu : t.Alike u) (ht : t.kind ≠ .newline)
    (hf : ∀ t, Shrinks (f t)) (hfg : e.Keeps k c d (f t) (g u)) :
    e.KeepsAt k c d t u (advance >>= f) (advance >>= g) := by
  refine ⟨shrinks_advance.bind hf, fun ts us hts hrest _ hreaches => ?_⟩
  rw [bind_of_done (advance_of_ne ht)] at hreaches ⊢
  rw [bind_of_done (advance_of_ne (htu.kind ▸ ht))]
  exact hfg.agrees _ _ (hts.behind (hrest ht)) hreaches

/-- Where newlines are blanks, no newline is taken. -/
theorem keeps_advance {f g : Token → Parser α} (h : e.Around c d) (hwhole : e.Whole) (hc : c.keepsNewlines = false)
    (hf : ∀ t u : Token, t.Alike u → e.Keeps k c d (f t) (g u)) :
    e.Keeps k c d (advance >>= f) (advance >>= g) := by
  refine ⟨shrinks_advance.bind fun t => (hf t t (.refl t)).shrinks, fun ts us hts _ => ?_⟩
  have hvisible := hts.visible h
  cases hleft : c.visible ts with
  | nil =>
    have hstuck : (advance (c.withAhead ts)).1 = .stuck := by
      have hpeek : (peek (c.withAhead ts)).1 = .stuck := peek_of_nil hleft
      rw [advance, bind_apply, ← Prod.eta (peek (c.withAhead ts)), hpeek]
    rw [bind_apply, ← Prod.eta (advance (c.withAhead ts)), hstuck]
    exact .stuckLeft _ _
  | cons t ts' =>
    rw [hleft] at hvisible
    obtain ⟨u, us', hright, halike, hbar, hrest⟩ := hvisible.cases_cons.resolve_left fun h => h.1 hwhole
    rw [hright] at hvisible
    have hsettled : ∀ {c : Cursor} {t : Token} {ts ts' : List Token}, c.visible ts = t :: ts' →
        advance (c.withAhead ts) = advance (c.withAhead (t :: ts')) := by
      intro c t ts ts' hlist
      have hnext : (c.withAhead ts).Next t := congrArg List.head? hlist
      have hhere : (c.withAhead ts).settled = c.withAhead (t :: ts') := congrArg c.withAhead hlist
      have hsame : (c.withAhead (t :: ts')).settled = c.withAhead (t :: ts') := hhere ▸ Cursor.settled_settled
      rw [advance, bind_of_done (peek_of_next hnext), bind_of_done (peek_of_next (hhere ▸ Cursor.next_settled.2 hnext)),
        hhere, hsame]
    have hne : t.kind ≠ .newline := by
      have hhead := List.head?_dropWhile_not isNewline ts
      rw [show ts.dropWhile isNewline = t :: ts' from (if_neg (by simp [hc])).symm.trans hleft] at hhead
      simpa [isNewline] using hhead
    rw [bind_apply, hsettled hleft, ← bind_apply, bind_apply _ g, hsettled hright, ← bind_apply]
    exact (keepsAt_advance halike hne (fun t => (hf t t (.refl t)).shrinks) (hf t u halike)).agrees ts' us' hvisible
      hrest hbar (.inl hwhole)

omit [Placed α] in
/-- A token is used up, unless it is the last one. -/
theorem uses_advance {f : Token → Parser α} (hf : ∀ t, Shrinks (f t)) : Uses (advance >>= f) := by
  refine Uses.bind (fun c t ht hlength => ?_) hf
  have hle : c.settled.ahead.length ≤ c.ahead.length := Cursor.visible_suffix.length_le
  rcases hsettled : c.settled.ahead with _ | ⟨u, _ | ⟨v, vs⟩⟩
  · obtain ⟨a, ha, -⟩ := exists_of_bind (p := peek) ht
    cases ha.symm.trans (peek_of_nil hsettled)
  · have hpeek : peek c = (.done u, c.settled) := peek_of_next (congrArg List.head? hsettled)
    have hleave : leave c.settled = (.done (), c.settled) := by rw [leave, hsettled]
    rw [advance, bind_of_done hpeek, bind_of_done hleave] at hlength
    change 2 ≤ c.settled.ahead.length at hlength
    rw [hsettled] at hlength
    exact absurd hlength (Nat.lt_irrefl 1)
  · rw [hsettled] at hle
    rw [advance_of_cons hsettled (List.cons_ne_nil v vs)]
    exact hle

/-! ## Taking -/

/-- A test that sees no places and takes no newline. -/
structure IsFair (test : Token → Bool) : Prop where
  alike : ∀ t u : Token, t.Alike u → test t = test u
  newline : ∀ t : Token, t.kind = .newline → test t = false

/-- A test that takes no symbol that closes a body. -/
def LetsClose (test : Token → Bool) : Prop := ∀ t : Token, t.Closes → test t = false

theorem isFair_symbol (s : Symbol) : IsFair fun t => decide (t.kind = .symbol s) :=
  ⟨fun _ _ h => by rw [h.kind], fun _ h => by simp [h]⟩

theorem isFair_word (word : String) : IsFair fun t => decide (t.kind = .name word) :=
  ⟨fun _ _ h => by rw [h.kind], fun _ h => by simp [h]⟩

theorem isFair_tight (s : Symbol) : IsFair fun t => decide (t.kind = .symbol s) && !t.spaced := by
  refine ⟨fun t u h => ?_, fun _ h => by simp [h]⟩
  by_cases ht : t.kind = .newline
  · simp [← h.kind, ht]
  · rw [h.kind, h.spaced ht]

theorem letsClose_symbol {s : Symbol} (hs : s ≠ .rbrace ∧ s ≠ .rbracket) :
    LetsClose fun t => decide (t.kind = .symbol s) := by
  rintro t (ht | ht) <;> simp [ht, hs.1.symm, hs.2.symm]

theorem letsClose_word (word : String) : LetsClose fun t => decide (t.kind = .name word) := by
  rintro t (ht | ht) <;> simp [ht]

theorem letsClose_tight {s : Symbol} (hs : s ≠ .rbrace ∧ s ≠ .rbracket) :
    LetsClose fun t => decide (t.kind = .symbol s) && !t.spaced := by
  rintro t (ht | ht) <;> simp [ht, hs.1.symm, hs.2.symm]

section

variable {test : Token → Bool}

theorem takeIf_bind (test : Token → Bool) {α : Type} (f : Bool → Parser α) :
    (takeIf (do return test (← peek)) >>= f) =
      peek >>= fun t => if test t then advance >>= fun _ => f true else f false := by
  funext c
  have hrun : takeIf (do return test (← peek)) c = match peek c with
      | (.done t, c') => (if test t then advance >>= fun _ => pure true else pure false) c'
      | (.failed x, c') => (.failed x, c')
      | (.stuck, c') => (.stuck, c') := by
    rw [takeIf, bind_apply, bind_apply]
    rcases peek c with ⟨_ | _ | _, c'⟩ <;> rfl
  rw [bind_apply, hrun, bind_apply peek]
  rcases peek c with ⟨t | x | _, c'⟩
  · by_cases ht : test t = true
    · simp only [ht, if_true]
      rw [bind_apply advance, bind_apply advance]
      rcases advance c' with ⟨_ | _ | _, c''⟩ <;> rfl
    · simp only [ht]
      rfl
  · rfl
  · rfl

/-- Two ways to go on, one of them behind a token that is taken. -/
theorem keeps_takeIf_of {f g : Bool → Parser α} (h : e.Around c d) (htest : IsFair test)
    (htrue : e.Keeps k c d (f true) (g true)) (hfalse : e.Keeps k c d (f false) (g false))
    (hends : ∀ t u : Token, ¬e.Whole → t.Closes → u.Closes → e.KeepsAtEnds k c d
      (if test t then advance >>= fun _ => f true else f false)
      (if test u then advance >>= fun _ => g true else g false)) :
    e.Keeps k c d (takeIf (do return test (← peek)) >>= f) (takeIf (do return test (← peek)) >>= g) := by
  rw [takeIf_bind, takeIf_bind]
  refine keeps_of_peek h (fun t u htu => ?_) hends
  rw [← htest.alike t u htu]
  by_cases ht : test t = true
  · have hne : t.kind ≠ .newline := fun hline => by simp [htest.newline t hline] at ht
    rw [if_pos ht, if_pos ht]
    exact keepsAt_advance htu hne (fun _ => htrue.shrinks) htrue
  · rw [if_neg ht, if_neg ht]
    exact hfalse.at t u

/-- A token is taken that is no closing symbol. -/
theorem keeps_takeIf {f g : Bool → Parser α} (h : e.Around c d) (htest : IsFair test) (hlets : LetsClose test)
    (htrue : e.Keeps k c d (f true) (g true)) (hfalse : e.Keeps k c d (f false) (g false)) :
    e.Keeps k c d (takeIf (do return test (← peek)) >>= f) (takeIf (do return test (← peek)) >>= g) := by
  refine keeps_takeIf_of h htest htrue hfalse fun t u _ ht hu => ?_
  rw [hlets t ht, hlets u hu]
  exact hfalse.agrees _ _ .ends

variable {p p' q q' : Parser α}

theorem keeps_branch (h : e.Around c d) (htest : IsFair test) (hlets : LetsClose test) (hp : e.Keeps k c d p p')
    (hq : e.Keeps k c d q q') : e.Keeps k c d (takeIf (do return test (← peek)) >>= fun b => if b then p else q)
      (takeIf (do return test (← peek)) >>= fun b => if b then p' else q') := keeps_takeIf h htest hlets hp hq

/-- If the token is not taken, what follows takes one. -/
theorem takes_branch (h : e.Around c d) (htest : IsFair test) (hp : e.Keeps 0 c d p p') (hq : e.Takes c d q q') :
    e.Takes c d (takeIf (do return test (← peek)) >>= fun b => if b then p else q)
      (takeIf (do return test (← peek)) >>= fun b => if b then p' else q') := by
  have huses : ∀ t, Uses (if test t then advance >>= fun _ => p else q) := fun t =>
    .ite (uses_advance fun _ => hp.shrinks) hq.uses
  refine ⟨keeps_takeIf_of h htest hp hq.toKeeps fun t u hwhole _ _ => keepsAtEnds_of_uses hwhole (huses t), ?_⟩
  rw [takeIf_bind]
  exact Uses.after (Steady.shrinks (n := 0) steady_peek) huses

end

theorem takes_expectSymbol (h : e.Around c d) (s : Symbol) : e.Takes c d (expectSymbol s) (expectSymbol s) :=
  takes_branch h (isFair_symbol s) (keeps_pure rfl) (takes_unexpected h _)

theorem keeps_expectWord (h : e.Around c d) (word : String) : e.Keeps k c d (expectWord word) (expectWord word) :=
  keeps_branch h (isFair_word word) (letsClose_word word) (keeps_pure rfl) (keeps_unexpected h _)

theorem keeps_expectName (h : e.Around c d) (test : String → Bool) (expected : String) :
    e.Keeps k c d (expectName test expected) (expectName test expected) := by
  refine keeps_of_peek h (fun t u htu => ?_) fun t u hwhole ht hu => ?_
  · rw [← htu.kind]
    cases hkind : t.kind with
    | name text =>
      refine .ite (keepsAt_advance htu (by simp [hkind]) (fun _ _ => Nat.le_refl _) (keeps_pure rfl)) ?_
      exact (keeps_unexpected h _).at t u
    | _ => exact (keeps_unexpected h _).at t u
  · have hcomplains := (keeps_unexpected (α := String) (k := k) h expected).agrees _ _ .ends
    rcases ht with ht | ht <;> rcases hu with hu | hu <;> rw [ht, hu] <;> exact hcomplains

omit [Placed α] in
theorem shrinks_skip (test : Token → Bool) : Shrinks (skip test) := by
  intro c
  rw [skip]
  split
  · rename_i hbehind
    exact (behind?_suffix hbehind).length_le
  · exact Nat.le_refl _

/-- Tokens are passed over. -/
theorem keeps_skip {test : Token → Bool} (htest : Passes test) : e.Keeps k c d (skip test) (skip test) := by
  refine ⟨shrinks_skip test, fun ts us hts _ => ?_⟩
  have hrest := hts.dropWhile htest
  cases hleft : ts.dropWhile test with
  | nil =>
    have hstuck : skip test (c.withAhead ts) = (.stuck, c.withAhead ts) := by
      rw [skip, Cursor.ahead_withAhead, behind?_eq, hleft]
    rw [hstuck]
    exact .stuckLeft _ _
  | cons t ts' =>
    rw [hleft] at hrest
    obtain ⟨u, us', hright⟩ : ∃ u us', us.dropWhile test = u :: us' :=
      List.exists_cons_of_ne_nil fun hnil => List.cons_ne_nil t ts' (hrest.eq_nil_iff.2 hnil)
    rw [hright] at hrest
    rw [skip_of_dropWhile (c := c.withAhead ts) hleft, skip_of_dropWhile (c := d.withAhead us) hright]
    exact .done rfl hrest

/-! ## Surroundings -/

/-- Answers that agree further in agree here, if the cursors are set back. -/
theorem Agree.inside {c' d' : Cursor} {left right : Outcome α × Cursor} (h : e.Agree c' d' left right)
    (back back' : Cursor → Cursor) (hback : ∀ ts, back (c'.withAhead ts) = c.withAhead ts)
    (hback' : ∀ ts, back' (d'.withAhead ts) = d.withAhead ts) (hdepth : c'.depth < d'.depth → c.depth < d.depth) :
    e.Agree c d (left.1, back left.2) (right.1, back' right.2) := by
  cases h with
  | done hab hts =>
    rw [hback, hback']
    exact .done hab hts
  | failed h => exact .failed h _ _
  | refused hwhole => exact .refused hwhole _ _ _
  | tooDeep hdeeper => exact .tooDeep (hdepth hdeeper) _ _ _
  | stuckLeft => exact .stuckLeft _ _
  | stuckRight => exact .stuckRight _ _

theorem keeps_withNewlines {p q : Parser α} (significant : Bool)
    (h : e.Keeps k { c with newlines := significant :: c.newlines } { d with newlines := significant :: d.newlines }
      p q) : e.Keeps k c d (withNewlines significant p) (withNewlines significant q) :=
  ⟨fun _ => h.shrinks _, fun ts us hts hreaches =>
    (h.agrees ts us hts hreaches).inside (fun after => { after with newlines := after.newlines.tail })
      (fun after => { after with newlines := after.newlines.tail }) (fun _ => rfl) (fun _ => rfl) id⟩

theorem keeps_withUnion {p q : Parser α} (allowed : Bool)
    (h : e.Keeps k { c with union := allowed } { d with union := allowed } p q) :
    e.Keeps k c d (withUnion allowed p) (withUnion allowed q) :=
  ⟨fun _ => h.shrinks _, fun ts us hts hreaches =>
    (h.agrees ts us hts hreaches).inside (fun after => { after with union := c.union })
      (fun after => { after with union := d.union }) (fun _ => rfl) (fun _ => rfl) id⟩

theorem Around.withNewlines (h : e.Around c d) (significant : Bool) :
    e.Around { c with newlines := significant :: c.newlines } { d with newlines := significant :: d.newlines } :=
  ⟨rfl, h.union, h.whole⟩

theorem Around.withUnion (h : e.Around c d) (allowed : Bool) :
    e.Around { c with union := allowed } { d with union := allowed } :=
  ⟨h.newlines, fun _ => rfl, h.whole⟩

theorem Around.nested (h : e.Around c d) :
    e.Around { c with depth := c.depth + 1 } { d with depth := d.depth + 1 } :=
  ⟨h.newlines, h.union, fun hwhole => congrArg (· + 1) (h.whole hwhole)⟩

omit [Placed α] in
/-- A complaint of too many levels is nothing else. -/
theorem cases_tooDeep (c : Cursor) :
    (∃ location c', (tooDeep c : Outcome α × Cursor) = (.failed (.nestingTooDeep maxNesting location), c')) ∨
      ∃ c', (tooDeep c : Outcome α × Cursor) = (.stuck, c') := by
  have hplace : ∀ x c', place c ≠ (.failed x, c') := by
    intro x c' h
    cases hahead : c.settled.ahead with
    | nil =>
      have hstuck := peek_of_nil hahead
      rw [place, bind_apply, ← Prod.eta (peek c), hstuck] at h
      cases h
    | cons t ts =>
      rw [place_of_next (congrArg List.head? hahead)] at h
      cases h
  rw [tooDeep, bind_apply]
  rcases hrun : place c with ⟨location | x | _, c'⟩
  · exact .inl ⟨location, c', rfl⟩
  · exact absurd hrun (hplace x c')
  · exact .inr ⟨c', rfl⟩

omit [Placed α] in
theorem tooDeep_ne_done (c : Cursor) (a : α) : (tooDeep c : Outcome α × Cursor).1 ≠ .done a := by
  rcases cases_tooDeep (α := α) c with ⟨_, _, hrun⟩ | ⟨_, hrun⟩ <;> simp [hrun]

theorem keeps_tooDeep (h : e.Around c d) : e.Keeps k c d (tooDeep : Parser α) tooDeep :=
  (keeps_place h).bind fun _ _ _ => keeps_fail rfl

/-- One level further in, either run may be where there are too many levels, if it is the deeper one. -/
theorem keeps_nested {p q : Parser α} (h : e.Around c d)
    (hpq : e.Keeps k { c with depth := c.depth + 1 } { d with depth := d.depth + 1 } p q) :
    e.Keeps k c d (nested p) (nested q) := by
  have hdeep := keeps_tooDeep (α := α) (k := k) h
  refine ⟨fun c' => ?_, fun ts us hts hreaches => ?_⟩
  · rw [nested]
    split
    · exact hdeep.shrinks c'
    · exact hpq.shrinks _
  · let back : Cursor → Cursor := fun after => { after with depth := after.depth - 1 }
    have htoo : ∀ {c : Cursor} {p : Parser α}, maxNesting ≤ c.depth → ∀ ts, nested p (c.withAhead ts) =
        tooDeep (c.withAhead ts) := fun hdepth ts => if_pos hdepth
    have hrun : ∀ {c : Cursor} {p : Parser α}, ¬maxNesting ≤ c.depth → ∀ ts, nested p (c.withAhead ts) =
        ((p (Cursor.withAhead { c with depth := c.depth + 1 } ts)).1,
          back (p (Cursor.withAhead { c with depth := c.depth + 1 } ts)).2) := fun hdepth ts => if_neg hdepth
    by_cases hleft : maxNesting ≤ c.depth <;> by_cases hright : maxNesting ≤ d.depth
    · rw [htoo hleft] at hreaches ⊢
      rw [htoo hright]
      exact hdeep.agrees ts us hts hreaches
    · have hwhole : ¬e.Whole := fun hwhole => hright (h.whole hwhole ▸ hleft)
      rw [htoo hleft]
      exact agree_of_done hwhole fun a ha => absurd ha (tooDeep_ne_done _ a)
    · have hdeeper : c.depth < d.depth := Nat.lt_of_lt_of_le (Nat.not_le.1 hleft) hright
      rw [htoo hright]
      rcases cases_tooDeep (α := α) (d.withAhead us) with ⟨location, d', hfailed⟩ | ⟨d', hstuck⟩
      · rw [hfailed]
        exact .tooDeep hdeeper _ _ _
      · rw [hstuck]
        exact .stuckRight _ _
    · rw [hrun hleft] at hreaches ⊢
      rw [hrun hright]
      exact (hpq.agrees ts us hts hreaches).inside back back (fun _ => rfl) (fun _ => rfl) Nat.lt_of_succ_lt_succ

/-! ## Loops -/

omit [Placed σ] in
theorem shrinks_foldUpTo {step : σ → Parser (Option σ)} (h : ∀ s, Shrinks (step s)) (rounds : Nat) (s : σ) :
    Shrinks (foldUpTo step rounds s) := by
  induction rounds generalizing s with
  | zero => exact fun _ => Nat.le_refl _
  | succ rounds ih =>
    refine (h s).bind fun s' => ?_
    cases s' with
    | none => exact fun _ => Nat.le_refl _
    | some s' => exact ih s'

theorem keeps_foldUpTo {step step' : σ → Parser (Option σ)}
    (h : ∀ s s', unplaced s = unplaced s' → e.Keeps k c d (step s) (step' s')) (rounds rounds' : Nat) {s s' : σ}
    (hs : unplaced s = unplaced s') : e.Keeps k c d (foldUpTo step rounds s) (foldUpTo step' rounds' s') := by
  have hshrinks := shrinks_foldUpTo fun s => (h s s rfl).shrinks
  induction rounds generalizing rounds' s s' with
  | zero => exact ⟨hshrinks 0 s, fun _ _ _ _ => .stuckLeft _ _⟩
  | succ rounds ih =>
    cases rounds' with
    | zero => exact ⟨hshrinks _ s, fun _ _ _ _ => .stuckRight _ _⟩
    | succ rounds' =>
      refine (h s s' hs).bind fun a b hab => ?_
      cases a with
      | none =>
        cases b with
        | none => exact keeps_pure hs
        | some b => cases hab
      | some a =>
        cases b with
        | none => cases hab
        | some b => exact ih rounds' (Option.some.inj hab)

/-- Rounds in step make loops in step, though they may allow for different numbers of rounds. -/
theorem keeps_fold {step step' : σ → Parser (Option σ)}
    (h : ∀ s s', unplaced s = unplaced s' → e.Keeps k c d (step s) (step' s')) {s s' : σ}
    (hs : unplaced s = unplaced s') : e.Keeps k c d (fold step s) (fold step' s') :=
  ⟨fun c => (keeps_foldUpTo h c.ahead.length 0 hs).shrinks c, fun ts us hts hreaches =>
    (keeps_foldUpTo h ts.length us.length hs).agrees ts us hts hreaches⟩

/-- Values that agree, before those that were found. -/
theorem unplaced_gathered {a b : Option α} {found found' : List α} (hab : unplaced a = unplaced b)
    (hfound : unplaced found = unplaced found') :
    unplaced (a.map (· :: found)) = unplaced (b.map (· :: found')) := by
  cases a with
  | none =>
    cases b with
    | none => rfl
    | some b => cases hab
  | some a =>
    cases b with
    | none => cases hab
    | some b => exact congrArg some (congrArg₂ List.cons (Option.some.inj hab) hfound)

theorem unplaced_reverse {found found' : List α} (h : unplaced found = unplaced found') :
    unplaced found.reverse = unplaced found'.reverse := by
  show found.reverse.map unplaced = found'.reverse.map unplaced
  rw [List.map_reverse, List.map_reverse]
  exact congrArg List.reverse h

theorem Keeps.many {step step' : Parser (Option α)} (h : e.Keeps k c d step step') :
    e.Keeps k c d (many step) (many step') := by
  have hgather : ∀ found found' : List α, unplaced found = unplaced found' →
      e.Keeps k c d (gather step found) (gather step' found') := fun found found' hfound =>
    h.bind fun a b hab => keeps_pure (unplaced_gathered hab hfound)
  exact (keeps_fold hgather (rfl : unplaced ([] : List α) = unplaced [])).bind fun found found' hfound =>
    keeps_pure (unplaced_reverse hfound)

end Ends
end Gatehouse.Rego
