import Gatehouse.Proofs.Rego.InStep
import Gatehouse.Proofs.Rego.Source

/-!
# One body with different ends

A body of a rule ends at a brace, and that of a comprehension may end at a bracket.

1. **Rounds** (`Ends.agree_bodyStep`).  Two bodies are compared up to their closing symbols.  A closing symbol before
   the end of the comparison closes neither: the left body ends at the end, and no expression begins with the symbol
   that closes the right one.
2. **Bodies** (`Ends.cases_query`).  So if the left body ends where the comparison does, the right one is read as the
   same body, unless it stands further in and there are too many levels.
3. **Rules** (`query_of_body`).  The body of a rule that ends with the source is a query up to its brace.
-/

namespace Gatehouse.Rego

open Gatehouse.Text Gatehouse.Rego.Parser
open Placed (unplaced)

/-! ## Bodies with different ends -/

section

variable {c : Cursor} {t : Token} {α : Type}

theorem settled_kept (hc : c.keepsNewlines = true) (ts : List Token) : (c.withAhead ts).settled = c.withAhead ts :=
  congrArg c.withAhead (if_pos hc)

theorem next_kept (hc : c.keepsNewlines = true) (t : Token) (ts : List Token) : (c.withAhead (t :: ts)).Next t := by
  rw [Cursor.Next, settled_kept hc]
  rfl

/-- No term begins with a symbol that closes a body. -/
theorem term_ne_done (h : c.Next t) (ht : t.Closes) (n : Nat) (a : Term) : ((inner n).term c).1 ≠ .done a := by
  have hnested : ∀ {p : Parser Term}, (∀ b, (p { c with depth := c.depth + 1 }).1 ≠ .done b) →
      (nested p c).1 ≠ .done a := by
    intro p hp
    rw [nested]
    split
    · exact Ends.tooDeep_ne_done c a
    · exact hp a
  cases n with
  | zero =>
    refine hnested (p := stuck) fun b hstuck => ?_
    cases hstuck
  | succ n =>
    refine hnested (p := primary (inner n)) fun b => ?_
    have hnext : ({ c with depth := c.depth + 1 } : Cursor).Next t := h
    rw [primary, bind_of_done (peek_of_next hnext)]
    rcases ht with ht | ht <;> rw [ht] <;> exact Ends.unexpected_ne_done "term" _ b

/-- No expression of a body does. -/
theorem literal_ne_done (h : c.Next t) (ht : t.Closes) (n : Nat) (a : Expr) : (literal (inner n) c).1 ≠ .done a := by
  intro hdone
  have hnext : c.settled.Next t := Cursor.next_settled.2 h
  have hword : ∀ word, takeWord word c.settled = (.done false, c.settled) := fun word => by
    have hrun : takeWord word c.settled = (.done false, c.settled.settled) :=
      takeWord_declines hnext (by rcases ht with ht | ht <;> simp [ht])
    rwa [Cursor.settled_settled] at hrun
  have hrun : literal (inner n) c = (do
      let term ← expression (inner n)
      let replacing ← many (replacement (inner n))
      return Expr.mk (.term term) false replacing t.location) c.settled := by
    rw [literal, bind_of_done (place_of_next h)]
    refine (bind_of_done (hword "some")).trans ?_
    refine (bind_of_done (hword "every")).trans ?_
    exact bind_of_done (hword "not")
  rw [hrun] at hdone
  obtain ⟨term, hterm, -⟩ := exists_of_bind hdone
  obtain ⟨first, hfirst, -⟩ := exists_of_bind (p := (inner n).term) hterm
  exact term_ne_done hnext ht n first hfirst

end

namespace Ends

variable {e : Ends} {c d : Cursor} {close close' : Symbol} {ts us : List Token} {n m : Nat}

variable (e) in
/-- The comparison ends at the symbols that close two bodies. -/
structure ClosedBy (close close' : Symbol) : Prop where
  left : ∃ t ts, e.left = t :: ts ∧ t.kind = .symbol close
  right : ∃ u us, e.right = u :: us ∧ u.kind = .symbol close'

theorem ClosedBy.not_whole (h : e.ClosedBy close close') : ¬e.Whole := by
  obtain ⟨t, ts, hleft, -⟩ := h.left
  exact fun hwhole => List.cons_ne_nil t ts (hleft.symm.trans hwhole)

theorem ClosedBy.closes (h : e.ClosedBy close close') {t : Token} (ht : t.kind = .symbol close) : t.Closes := by
  obtain ⟨u, us, hu, hkind⟩ := h.left
  obtain ⟨v, w, vs, hv, hcloses⟩ := (exists_closes h.not_whole).1
  obtain ⟨rfl, -⟩ := List.cons.inj (hu.symm.trans hv)
  rwa [Token.Closes, ht, ← hkind]

theorem ClosedBy.closes' (h : e.ClosedBy close close') {t : Token} (ht : t.kind = .symbol close') : t.Closes := by
  obtain ⟨u, us, hu, hkind⟩ := h.right
  obtain ⟨v, w, vs, hv, hcloses⟩ := (exists_closes h.not_whole).2
  obtain ⟨rfl, -⟩ := List.cons.inj (hu.symm.trans hv)
  rwa [Token.Closes, ht, ← hkind]

/-- Where a token is compared, the comparison goes on behind it, so this is not its end. -/
theorem ne_left_of_token {t : Token} (h : e.Tracks ts us) : t :: ts ≠ e.left := fun hleft =>
  absurd h.length_le (by simp [← hleft])

/-- What follows an expression of a body. -/
def endsExpr (close : Symbol) (expr : Expr) : Parser (Option Expr) := do
  let next ← peek
  if isSeparator next || next.kind = .symbol close then return some expr else unexpected "\";\" or newline"

theorem shrinks_endsExpr (close : Symbol) (expr : Expr) : Shrinks (endsExpr close expr) := by
  refine (Steady.shrinks (n := 0) steady_peek).bind fun t => ?_
  split
  · exact fun _ => Nat.le_refl _
  · exact Steady.shrinks (n := 0) (steady_unexpected _ never)

theorem endsExpr_of_cons (hc : c.keepsNewlines = true) (expr : Expr) (t : Token) (ts : List Token) :
    endsExpr close expr (c.withAhead (t :: ts)) = if isSeparator t || t.kind = .symbol close then
      (.done (some expr), c.withAhead (t :: ts)) else unexpected "\";\" or newline" (c.withAhead (t :: ts)) := by
  rw [endsExpr, bind_of_done (peek_of_next (next_kept hc t ts)), settled_kept hc]
  split <;> rfl

/-- A round of a body goes past separators, and ends at the closing symbol. -/
theorem bodyStep_of_dropWhile {t : Token} {ts' : List Token} (hc : c.keepsNewlines = true) (i : Inner)
    (h : ts.dropWhile isSeparator = t :: ts') : bodyStep i close (c.withAhead ts) = if t.kind = .symbol close then
      (.done none, c.withAhead (t :: ts')) else (literal i >>= endsExpr close) (c.withAhead (t :: ts')) := by
  have hskip : skipSeparators (c.withAhead ts) = (.done (), c.withAhead (t :: ts')) := skip_of_dropWhile h
  rw [bodyStep, bind_of_done hskip, bind_of_done (atSymbol_of_next close (next_kept hc t ts')), settled_kept hc]
  by_cases ht : t.kind = .symbol close
  · rw [if_pos ht, decide_eq_true ht]
    rfl
  · rw [if_neg ht, decide_eq_false ht]
    rfl

/-- A body ends at its closing symbol. -/
theorem bodyStep_closes {t : Token} (hc : c.keepsNewlines = true) (ht : t.Closes) (hclose : t.kind = .symbol close)
    (i : Inner) (ts : List Token) : bodyStep i close (c.withAhead (t :: ts)) = (.done none, c.withAhead (t :: ts)) := by
  have hskip := List.dropWhile_cons_of_neg (l := ts) (Bool.eq_false_iff.1 (passes_isSeparator.closes t ht))
  rw [bodyStep_of_dropWhile hc i hskip, if_pos hclose]

variable (e) in
/-- The left body has come no further than the end of the comparison, and closes only there. -/
structure NotPast (close : Symbol) (ts : List Token) : Prop where
  length : e.left.length ≤ ts.length
  closes : ∀ t us, ts = t :: us → t.kind = .symbol close → ts = e.left

/-- Where tokens are compared, the left body does not close. -/
theorem NotPast.ne {t : Token} {ts₁ : List Token} (h : e.NotPast close ts₁) (ht : t.kind = .symbol close)
    (hts : e.Tracks ts us) : c.withAhead ts₁ ≠ c.withAhead (t :: ts) := by
  intro hsame
  have hts₁ : ts₁ = t :: ts := congrArg Cursor.ahead hsame
  exact ne_left_of_token hts (hts₁ ▸ h.closes t ts hts₁ ht)

theorem ClosedBy.not_tracks_nil (h : e.ClosedBy close close') : ¬e.Tracks [] us := fun hnil => by
  obtain ⟨t, ts, hleft, -⟩ := h.left
  simpa [hleft] using hnil.length_le

/-- Two expressions that end alike. -/
theorem agree_endsExpr (hc : c.keepsNewlines = true) (hd : d.keepsNewlines = true) (he : e.ClosedBy close close')
    {expr expr' : Expr} (hexpr : unplaced expr = unplaced expr') {a : Option Expr} {ts₁ : List Token}
    (hts : e.Tracks ts us) (hrun : endsExpr close expr (c.withAhead ts) = (.done a, c.withAhead ts₁))
    (hnot : e.NotPast close ts₁) :
    e.Agree c d (endsExpr close expr (c.withAhead ts)) (endsExpr close' expr' (d.withAhead us)) := by
  obtain ⟨t₀, ts₀, hleft, ht₀⟩ := he.left
  obtain ⟨u₀, us₀, hright, hu₀⟩ := he.right
  cases ts with
  | nil => exact absurd hts he.not_tracks_nil
  | cons t ts =>
    rw [endsExpr_of_cons hc] at hrun ⊢
    rcases hts.cases_cons with ⟨-, hends, hends'⟩ | ⟨u, us', rfl, htu, -, hrest⟩
    · -- both bodies close here
      obtain ⟨rfl, -⟩ := List.cons.inj (hends.trans hleft)
      rw [hends, hends', hright, endsExpr_of_cons hd, if_pos (by simp [ht₀]), if_pos (by simp [hu₀]), ← hright]
      exact .done (congrArg some hexpr) .ends
    · rw [endsExpr_of_cons hd]
      have hsame : isSeparator t = isSeparator u := passes_isSeparator.kind t u htu.kind
      by_cases ht : isSeparator t = true
      · rw [if_pos (by simp [ht]), if_pos (by simp [← hsame, ht])]
        exact .done (congrArg some hexpr) hts
      · by_cases hclose : t.kind = .symbol close
        · rw [if_pos (by simp [hclose])] at hrun
          exact absurd (congrArg Prod.snd hrun).symm (hnot.ne hclose (hrest (by simp [hclose])))
        · rw [if_neg (by simp [ht, hclose])] at hrun
          exact absurd (congrArg Prod.fst hrun) (unexpected_ne_done _ _ a)

/-- **A round of two bodies.**  Neither closes before the comparison ends. -/
theorem agree_bodyStep (h : e.Around c d) (hc : c.keepsNewlines = true) (he : e.ClosedBy close close')
    {a : Option Expr} {ts₁ : List Token} (hts : e.Tracks ts us)
    (hrun : bodyStep (inner n) close (c.withAhead ts) = (.done a, c.withAhead ts₁)) (hnot : e.NotPast close ts₁) :
    e.Agree c d (bodyStep (inner n) close (c.withAhead ts)) (bodyStep (inner m) close' (d.withAhead us)) := by
  have hd : d.keepsNewlines = true := h.newlines ▸ hc
  obtain ⟨t₀, ts₀, hleft, ht₀⟩ := he.left
  obtain ⟨u₀, us₀, hright, hu₀⟩ := he.right
  have hdrop := hts.dropWhile passes_isSeparator
  cases hbegin : ts.dropWhile isSeparator with
  | nil => exact absurd (hbegin ▸ hdrop) he.not_tracks_nil
  | cons t ts' =>
    rw [hbegin] at hdrop
    rw [bodyStep_of_dropWhile hc _ hbegin] at hrun ⊢
    rcases hdrop.cases_cons with ⟨-, hends, hends'⟩ | ⟨u, us', hus, htu, -, hrest⟩
    · -- both bodies close here
      rw [hends] at hrun ⊢
      obtain ⟨rfl, -⟩ := List.cons.inj (hends.trans hleft)
      rw [bodyStep_of_dropWhile hd _ (hends'.trans hright), if_pos ht₀, if_pos hu₀, ← hright]
      exact .done rfl .ends
    · have hgoes : t.kind ≠ .symbol close := fun ht => by
        rw [if_pos ht] at hrun
        exact hnot.ne ht (hrest (by simp [ht])) (congrArg Prod.snd hrun).symm
      rw [if_neg hgoes] at hrun ⊢
      rw [hus] at hdrop
      rw [bodyStep_of_dropWhile hd _ hus]
      by_cases hu : u.kind = .symbol close'
      · -- the left body goes on at the other closing symbol, where no expression begins
        have hcloses : t.Closes := he.closes' (htu.kind.trans hu)
        obtain ⟨expr, hexpr, -⟩ := exists_of_bind (congrArg Prod.fst hrun)
        exact absurd hexpr (literal_ne_done (next_kept hc t ts') hcloses n expr)
      · rw [if_neg hu]
        have hreaches : e.Reaches 0 (literal (inner n) (c.withAhead (t :: ts'))).2 := by
          have hle := Shrinks.length_bind_le (p := literal (inner n)) (shrinks_endsExpr close) (c.withAhead (t :: ts'))
          rw [hrun] at hle
          exact .inr (hnot.length.trans hle)
        refine ((keeps_literal (keepsInner_inner n m) h).agrees _ _ hdrop hreaches).bind
          fun expr expr' ts₂ us₂ hexpr hts₂ _ hlast => ?_
        exact agree_endsExpr hc hd he hexpr hts₂ (hlast.symm.trans hrun) hnot

/-- A body that ends where the comparison does is not past its end behind any round. -/
theorem notPast_of_rounds (hc : c.keepsNewlines = true) (he : e.ClosedBy close close') {rounds : Nat}
    {found exprs : Body} {a : Option Expr} {ts₁ : List Token}
    (hstep : bodyStep (inner n) close (c.withAhead ts) = (.done a, c.withAhead ts₁))
    (hrun : foldUpTo (gather (bodyStep (inner n) close)) (rounds + 1) found (c.withAhead ts) =
      (.done exprs, c.withAhead e.left)) : e.NotPast close ts₁ := by
  have hshrinks : ∀ found, Shrinks (gather (bodyStep (inner n) close) found) := fun found =>
    (steady_bodyStep (isSteady_inner n) close).shrinks.bind fun _ _ => Nat.le_refl _
  rw [foldUpTo, bind_of_done (gather_of_done found hstep)] at hrun
  cases a with
  | none =>
    obtain rfl : ts₁ = e.left := congrArg (fun run => run.2.ahead) hrun
    exact ⟨Nat.le_refl _, fun _ _ _ _ => rfl⟩
  | some expr =>
    change foldUpTo _ rounds (expr :: found) (c.withAhead ts₁) = _ at hrun
    refine ⟨?_, ?_⟩
    · have hle := shrinks_foldUpTo hshrinks rounds (expr :: found) (c.withAhead ts₁)
      rwa [hrun] at hle
    · rintro t ts rfl ht
      cases rounds with
      | zero => cases congrArg Prod.fst hrun
      | succ rounds =>
        have hstops := bodyStep_closes hc (he.closes ht) ht (inner n) ts
        rw [foldUpTo, bind_of_done (gather_of_done (expr :: found) hstops)] at hrun
        exact congrArg (fun run => run.2.ahead) hrun

/-- **The rounds of two bodies**, the left one of which ends where the comparison does. -/
theorem agree_rounds (h : e.Around c d) (hc : c.keepsNewlines = true) (he : e.ClosedBy close close')
    {rounds : Nat} (rounds' : Nat) {found found' exprs : Body} (hfound : unplaced found = unplaced found')
    (hts : e.Tracks ts us) (hrun : foldUpTo (gather (bodyStep (inner n) close)) rounds found (c.withAhead ts) =
      (.done exprs, c.withAhead e.left)) :
    e.Agree c d (foldUpTo (gather (bodyStep (inner n) close)) rounds found (c.withAhead ts))
      (foldUpTo (gather (bodyStep (inner m) close')) rounds' found' (d.withAhead us)) := by
  induction rounds generalizing rounds' found found' ts us with
  | zero => exact absurd (congrArg Prod.fst hrun) nofun
  | succ rounds ih =>
    cases rounds' with
    | zero => exact .stuckRight _ _
    | succ rounds' =>
      obtain ⟨more, hmore, -⟩ := exists_of_bind (congrArg Prod.fst hrun)
      obtain ⟨a, ha, -⟩ := exists_of_bind hmore
      obtain ⟨ts₁, hstep⟩ : ∃ ts₁, bodyStep (inner n) close (c.withAhead ts) = (.done a, c.withAhead ts₁) :=
        ⟨_, Prod.ext ha (steady_bodyStep (isSteady_inner n) close (c.withAhead ts)).follows.eq_withAhead⟩
      have hround := agree_bodyStep (m := m) h hc he hts hstep (notPast_of_rounds hc he hstep hrun)
      have hgathers : e.Agree c d (gather (bodyStep (inner n) close) found (c.withAhead ts))
          (gather (bodyStep (inner m) close') found' (d.withAhead us)) := by
        refine hround.bind fun a b ts' us' hab hts' _ _ => .done ?_ hts'
        exact unplaced_gathered hab hfound
      refine hgathers.bind fun g g' ts' us' hg hts' _ hlast => ?_
      have hgoes := (show foldUpTo _ (rounds + 1) found _ = _ from hlast).symm.trans hrun
      cases g with
      | none =>
        cases g' with
        | none => exact .done hfound hts'
        | some _ => cases hg
      | some _ =>
        cases g' with
        | none => cases hg
        | some _ => exact ih rounds' (Option.some.inj hg) hts' hgoes

/-- **Two bodies**, the left one of which ends where the comparison does. -/
theorem agree_query (h : e.Around c d) (he : e.ClosedBy close close') {b : Body} (hts : e.Tracks ts us)
    (hrun : query (inner n) close (c.withAhead ts) = (.done b, c.withAhead e.left)) :
    e.Agree c d (query (inner n) close (c.withAhead ts)) (query (inner m) close' (d.withAhead us)) := by
  let within : Cursor → Cursor := fun c => { c with newlines := true :: c.newlines }
  have haround : e.Around (within c) (within d) := h.withNewlines true
  have hmany : many (bodyStep (inner n) close) ((within c).withAhead ts) = (.done b, (within c).withAhead e.left) := by
    have hfollows := ((steady_bodyStep (isSteady_inner n) close).many ((within c).withAhead ts)).follows
    have hanswer : (many (bodyStep (inner n) close) ((within c).withAhead ts)).1 = .done b := congrArg Prod.fst hrun
    have hahead : (many (bodyStep (inner n) close) ((within c).withAhead ts)).2.ahead = e.left :=
      congrArg (fun run => run.2.ahead) hrun
    exact Prod.ext hanswer (hfollows.eq_withAhead.trans (congrArg (within c).withAhead hahead))
  obtain ⟨found, hfound, hlast⟩ := exists_of_bind (congrArg Prod.fst hmany)
  have hcursor : (fold (gather (bodyStep (inner n) close)) [] ((within c).withAhead ts)).2 =
      (within c).withAhead e.left := congrArg (fun run => run.2) (hlast.symm.trans hmany)
  have hfold : fold (gather (bodyStep (inner n) close)) [] ((within c).withAhead ts) =
      (.done found, (within c).withAhead e.left) := Prod.ext hfound hcursor
  have hrounds := agree_rounds (m := m) haround rfl he us.length (rfl : unplaced ([] : Body) = _) hts hfold
  have hall : e.Agree (within c) (within d) (many (bodyStep (inner n) close) ((within c).withAhead ts))
      (many (bodyStep (inner m) close') ((within d).withAhead us)) := by
    refine Agree.bind (p := fold _ []) (q := fold _ []) hrounds fun found found' ts' us' hfound hts' _ _ =>
      .done ?_ hts'
    exact unplaced_reverse hfound
  exact hall.inside (fun after => { after with newlines := after.newlines.tail })
    (fun after => { after with newlines := after.newlines.tail }) (fun _ => rfl) (fun _ => rfl) id

/-- What is in step with the end of the comparison is its end. -/
theorem Tracks.eq_right (hwhole : ¬e.Whole) (h : e.Tracks e.left us) : us = e.right := by
  obtain ⟨t, v, ts, hleft, ht⟩ := (exists_closes hwhole).1
  rw [hleft] at h
  rcases h.cases_cons with ⟨-, -, hright⟩ | ⟨u, us', -, -, -, hrest⟩
  · exact hright
  · have hne : t.kind ≠ .newline := by rcases ht with ht | ht <;> simp [ht]
    exact absurd hleft.symm (ne_left_of_token (hrest hne))

/-- A body that ends where the comparison does is read as the same body on the right, unless that is too far in. -/
theorem cases_query (h : e.Around c d) (he : e.ClosedBy close close') {b : Body} (hts : e.Tracks ts us)
    (hrun : query (inner n) close (c.withAhead ts) = (.done b, c.withAhead e.left))
    (hready : (d.withAhead us).IsReady m) :
    (∃ b', unplaced b' = unplaced b ∧ query (inner m) close' (d.withAhead us) = (.done b', d.withAhead e.right)) ∨
      c.depth < d.depth ∧ ∃ location d', query (inner m) close' (d.withAhead us) =
        (.failed (.nestingTooDeep maxNesting location), d') := by
  have hagree := agree_query (m := m) h he hts hrun
  have hanswers := (steady_query (isSteady_inner m) close' (d.withAhead us)).answers hready
  rw [hrun] at hagree
  generalize query (inner m) close' (d.withAhead us) = right at hagree hanswers ⊢
  generalize hleft : (Outcome.done b, c.withAhead e.left) = left at hagree
  cases hagree with
  | @done a b' ts' us' hab hts' =>
    obtain ⟨hb, hcursor⟩ := Prod.mk.inj hleft
    obtain rfl := Outcome.done.inj hb
    obtain rfl : e.left = ts' := congrArg Cursor.ahead hcursor
    exact .inl ⟨b', hab.symm, by rw [hts'.eq_right he.not_whole]⟩
  | failed => exact absurd (congrArg Prod.fst hleft) nofun
  | refused => exact absurd (congrArg Prod.fst hleft) nofun
  | tooDeep hdeeper => exact .inr ⟨hdeeper, _, _, rfl⟩
  | stuckLeft => exact absurd (congrArg Prod.fst hleft) nofun
  | stuckRight => exact absurd rfl hanswers

end Ends

/-! ## The body of a rule -/

section

variable {c : Cursor} {close : Symbol}

theorem leaves_bodyStep (i : Inner) (close : Symbol) : Leaves (bodyStep i close) fun a c =>
    a = none → ∃ t, c.ahead.head? = some t ∧ t.kind = .symbol close := by
  have hclose : Leaves (atSymbol close) fun closed c =>
      closed = true → ∃ t, c.ahead.head? = some t ∧ t.kind = .symbol close :=
    leaves_peek.map fun t c ht hclosed => ⟨t, ht, of_decide_eq_true hclosed⟩
  have hsome : ∀ expr, Leaves (Ends.endsExpr close expr) fun a _ => a ≠ none := fun expr => .bind fun t => by
    split
    · exact fun c a ha => Outcome.done.inj ha ▸ Option.some_ne_none expr
    · exact fun c a ha => absurd ha (Ends.unexpected_ne_done _ c a)
  refine .bind fun _ => hclose.andThen fun closed c a hhere ha => ?_
  cases closed with
  | true => exact fun _ => hhere rfl
  | false => exact fun hnone => absurd hnone (Leaves.bind hsome c a ha)

/-- The query of a body ends at its closing symbol. -/
theorem leaves_query (i : Inner) (close : Symbol) : Leaves (query i close) fun _ c =>
    ∃ t, c.ahead.head? = some t ∧ t.kind = .symbol close := fun c b hb =>
  (leaves_bodyStep i close).many { c with newlines := true :: c.newlines } b hb

/-- A body in braces up to the end of the input is a query up to its brace. -/
theorem query_of_body {o r last stop : Token} {line : List Token} {b : Body} (hdepth : c.depth = 0)
    (ho : o.kind = .symbol .lbrace) (hlast : last.kind = .endOfInput)
    (h : outermost.body (c.withAhead (o :: (line ++ [r, last]))) = (.done b, c.withAhead [stop])) :
    query (inner (maxNesting - 1)) .rbrace (Cursor.withAhead { c with depth := c.depth + 1 } (line ++ [r, last])) =
      (.done b, Cursor.withAhead { c with depth := c.depth + 1 } [r, last]) := by
  let i := inner (maxNesting - 1)
  let inside : Cursor := { c with depth := c.depth + 1 }
  have hsteady : (inner (maxNesting - 1)).IsSteady (maxNesting - 1) := isSteady_inner _
  have hblock : block i (inside.withAhead (o :: (line ++ [r, last]))) = (.done b, inside.withAhead [stop]) := by
    have hnested : outermost.body (c.withAhead (o :: (line ++ [r, last]))) =
        ((block i (inside.withAhead (o :: (line ++ [r, last])))).1,
          (fun after : Cursor => { after with depth := after.depth - 1 })
            (block i (inside.withAhead (o :: (line ++ [r, last])))).2) := if_neg (by simp [hdepth, maxNesting])
    rw [hnested] at h
    have hanswer : (block i (inside.withAhead (o :: (line ++ [r, last])))).1 = .done b := congrArg Prod.fst h
    have hahead : (block i (inside.withAhead (o :: (line ++ [r, last])))).2.ahead = [stop] :=
      congrArg (fun run => run.2.ahead) h
    have hfollows := (steady_block hsteady (inside.withAhead (o :: (line ++ [r, last])))).follows
    exact Prod.ext hanswer (hfollows.eq_withAhead.trans (congrArg inside.withAhead hahead))
  have hopen : expectSymbol .lbrace (inside.withAhead (o :: (line ++ [r, last]))) =
      (.done (), inside.withAhead (line ++ [r, last])) :=
    expectSymbol_takes (congrArg Cursor.ahead (Cursor.settled_of_ne rfl (by simp [ho]))) (by simp) ho
  rw [block, bind_of_done hopen] at hblock
  obtain ⟨b', c₁, hquery, hrest⟩ := bind_eq_done hblock
  obtain ⟨_, c₂, hclose, hdone⟩ := bind_eq_done hrest
  obtain ⟨hsame, rfl⟩ := Prod.mk.inj hdone
  obtain rfl := Outcome.done.inj hsame
  have hfollows := (steady_query hsteady .rbrace (inside.withAhead (line ++ [r, last]))).follows
  obtain ⟨t, hhead, ht⟩ := leaves_query i .rbrace _ b' (congrArg Prod.fst hquery)
  rw [hquery] at hfollows hhead
  obtain ⟨rest, hahead⟩ := List.head?_eq_some_iff.1 hhead
  obtain ⟨front, hfront⟩ := hfollows.ahead
  rw [hahead] at hfront
  refine hquery.trans (congrArg (Prod.mk _) (hfollows.eq_withAhead.trans (congrArg inside.withAhead ?_)))
  -- the brace that closes the body is not the end of the input
  have hne : rest ≠ [] := by
    rintro rfl
    obtain rfl : t = last := by simpa using congrArg List.getLast? hfront
    exact Kind.noConfusion (ht.symm.trans hlast)
  have hsettled : c₁.settled.ahead = t :: rest := (Cursor.settled_of_ne hahead (by simp [ht])).symm ▸ hahead
  obtain rfl : rest = [stop] := by
    rw [expectSymbol_takes hsettled hne ht] at hclose
    exact congrArg (fun run => run.2.ahead) hclose
  exact hahead.trans (List.append_inj' hfront rfl).2

end

end Gatehouse.Rego
