import Gatehouse.Proofs.Rego.Gaps
import Gatehouse.Proofs.Rego.OneRule
import Gatehouse.Proofs.Rego.Source

/-!
# Operators by precedence

1. **Chains** (`Chain`).  Variables with operators between them, as they are written from left to right.
2. **Trees** (`Term.IsTreeOf`, `Term.IsRanked`).  A tree is one of a chain if it has the variables and the operators of
   the chain in their order.  It is ranked if what an operator joins to its left binds at least as tightly as the
   operator, and what it joins to its right binds more tightly.
3. **One tree** (`Term.IsRanked.unique`).  The root of a ranked tree is the last of the operators that bind least
   tightly, so a chain has no two ranked trees.
4. **Climbing (the crux, `exists_binaryUpTo`)**.  Of a chain, the parser takes the operators up to the first
   that binds less tightly than asked for.  The loop keeps a ranked tree whose root binds at least as tightly as
   the operator that comes next: a right operand ends before an operator that does not bind more tightly.
-/

namespace Gatehouse.Rego

open Gatehouse.Text Gatehouse.Rego.Parser
open Cursor (start)

/-! ## Chains -/

/-- The token that an operator is. -/
def BinOp.kind : BinOp → Kind
  | assign => .symbol .assign
  | unify => .symbol .unify
  | member => .name "in"
  | eq => .symbol .eq
  | neq => .symbol .neq
  | lt => .symbol .lt
  | lte => .symbol .lte
  | gt => .symbol .gt
  | gte => .symbol .gte
  | union => .symbol .pipe
  | intersect => .symbol .amp
  | add => .symbol .plus
  | sub => .symbol .minus
  | mul => .symbol .star
  | div => .symbol .slash
  | rem => .symbol .percent

/-- A word that stands for a variable wherever a term is expected. -/
def IsVariable (name : String) : Prop :=
  isPlainName name = true ∧ name ≠ "null" ∧ name ≠ "true" ∧ name ≠ "false"

instance (name : String) : Decidable (IsVariable name) := inferInstanceAs (Decidable (_ ∧ _))

/-- A variable, and more of them with an operator before each. -/
structure Chain where
  first : String
  rest : List (BinOp × String)

/-- The tokens of operators and the variables behind them. -/
def linkKinds (links : List (BinOp × String)) : List Kind :=
  links.flatMap fun link => [link.1.kind, .name link.2]

namespace Chain

/-- The variables of a chain. -/
def names (chain : Chain) : List String := chain.first :: chain.rest.map Prod.snd

/-- The tokens that a chain is written with. -/
def kinds (chain : Chain) : List Kind := .name chain.first :: linkKinds chain.rest

end Chain

/-! ## Trees -/

namespace Term

/-- The tree has the variables and operators of a chain from left to right, and nothing else. -/
inductive IsTreeOf : Term → Chain → Prop
  | var (name : String) : IsTreeOf (.var name) ⟨name, []⟩
  | binary {l r : Term} {a b : Chain} (op : BinOp) (hl : IsTreeOf l a) (hr : IsTreeOf r b) :
    IsTreeOf (.binary op l r) ⟨a.first, a.rest ++ (op, b.first) :: b.rest⟩

/-- The operator at the root. -/
def root? : Term → Option BinOp
  | binary op _ _ => some op
  | _ => none

/-- At every operator, the left operand binds at least as tightly and the right one more tightly. -/
inductive IsRanked : Term → Prop
  | var (name : String) : IsRanked (.var name)
  | binary {op : BinOp} {l r : Term} (hl : IsRanked l) (hr : IsRanked r)
    (hleft : ∀ o, l.root? = some o → op.precedence ≤ o.precedence)
    (hright : ∀ o, r.root? = some o → op.precedence < o.precedence) : IsRanked (.binary op l r)

/-- No operator of a ranked tree binds less tightly than its root. -/
theorem IsRanked.le_precedence {t : Term} {chain : Chain} {least : Nat} (ht : t.IsRanked) (h : t.IsTreeOf chain)
    (hroot : ∀ o, t.root? = some o → least ≤ o.precedence) : ∀ link ∈ chain.rest, least ≤ link.1.precedence := by
  induction h generalizing least with
  | var => exact nofun
  | binary op hl hr ihl ihr =>
    cases ht with
    | binary htl htr hleft hright =>
      have hop := hroot op rfl
      intro link hlink
      rcases List.mem_append.1 hlink with hlink | hlink
      · exact ihl htl (fun o ho => hop.trans (hleft o ho)) link hlink
      · rcases List.mem_cons.1 hlink with rfl | hlink
        · exact hop
        · exact ihr htr (fun o ho => hop.trans (Nat.le_of_lt (hright o ho))) link hlink

/-- Of two ranked roots of one chain, neither stands to the left of the other. -/
theorem not_left_of_ranked {op op' : BinOp} {x x' : String} {before after before' after' : List (BinOp × String)}
    (hright : ∀ link ∈ after, op.precedence < link.1.precedence)
    (hleft : ∀ link ∈ before', op'.precedence ≤ link.1.precedence) (between : List (BinOp × String))
    (hbefore : before' = before ++ (op, x) :: between) (hafter : after = between ++ (op', x') :: after') : False := by
  have hle : op'.precedence ≤ op.precedence := hleft (op, x) (by simp [hbefore])
  have hlt : op.precedence < op'.precedence := hright (op', x') (by simp [hafter])
  exact absurd hlt (Nat.not_lt.2 hle)

/-- **A chain has no two ranked trees.** -/
theorem IsRanked.unique {t u : Term} {chain : Chain} (ht : t.IsRanked) (hu : u.IsRanked) (htree : t.IsTreeOf chain)
    (htree' : u.IsTreeOf chain) : t = u := by
  induction htree generalizing u with
  | var name =>
    generalize hchain : (⟨name, []⟩ : Chain) = chain at htree'
    cases htree' with
    | var => rw [(Chain.mk.inj hchain).1]
    | binary => simp at hchain
  | @binary l r a b op hl hr ihl ihr =>
    generalize hchain : (⟨a.first, a.rest ++ (op, b.first) :: b.rest⟩ : Chain) = chain at htree'
    cases htree' with
    | var => simp at hchain
    | @binary l' r' a' b' op' hl' hr' =>
      cases ht with
      | binary htl htr hleft hright =>
        cases hu with
        | binary hul hur hleft' hright' =>
          obtain ⟨hfirst, hrest⟩ := Chain.mk.inj hchain
          have hbefore := htl.le_precedence hl hleft
          have hafter : ∀ l ∈ b.rest, op.precedence + 1 ≤ l.1.precedence := htr.le_precedence hr hright
          have hbefore' := hul.le_precedence hl' hleft'
          have hafter' : ∀ l ∈ b'.rest, op'.precedence + 1 ≤ l.1.precedence := hur.le_precedence hr' hright'
          have hsame : a.rest = a'.rest ∧ (op, b.first) :: b.rest = (op', b'.first) :: b'.rest := by
            rcases List.append_eq_append_iff.1 hrest with ⟨mid, ha', hb⟩ | ⟨mid, ha, hb'⟩
            · rcases mid with _ | ⟨link, mid⟩
              · exact ⟨by simpa using ha'.symm, by simpa using hb⟩
              · obtain ⟨rfl, hmid⟩ := List.cons.inj hb
                exact (not_left_of_ranked hafter hbefore' mid ha' hmid).elim
            · rcases mid with _ | ⟨link, mid⟩
              · exact ⟨by simpa using ha, by simpa using hb'.symm⟩
              · obtain ⟨rfl, hmid⟩ := List.cons.inj hb'
                exact (not_left_of_ranked hafter' hbefore mid ha hmid).elim
          obtain ⟨hleftRest, hlinks⟩ := hsame
          obtain ⟨hlink, hrightRest⟩ := List.cons.inj hlinks
          obtain ⟨rfl, hrightFirst⟩ := Prod.mk.inj hlink
          have ha : a = a' := by
            cases a
            cases a'
            exact congrArg₂ Chain.mk hfirst hleftRest
          have hb : b = b' := by
            cases b
            cases b'
            exact congrArg₂ Chain.mk hrightFirst hrightRest
          rw [ihl htl hul (ha ▸ hl'), ihr htr hur (hb ▸ hr')]

end Term

/-! ## Variables -/

/-- The token would go on with a term before it, as an access or a call. -/
def Token.Extends (t : Token) : Prop :=
  t.spaced = false ∧ (t.kind = .symbol .dot ∨ t.kind = .symbol .lbracket ∨ t.kind = .symbol .lparen)

/-- The token would go on with an expression before it. -/
def Token.GoesOn (t : Token) : Prop :=
  t.Extends ∨ (operator? true t.kind).isSome = true ∨ t.kind = .name "with"

theorem BinOp.operator?_kind (op : BinOp) : operator? true op.kind = some op := by
  cases op <;> rfl

theorem BinOp.kind_ne_newline (op : BinOp) : op.kind ≠ .newline := by
  cases op <;> exact Kind.noConfusion

theorem BinOp.not_extends {op : BinOp} {t : Token} (ht : t.kind = op.kind) : ¬t.Extends := by
  rintro ⟨-, h⟩
  rw [ht] at h
  revert h
  cases op <;> decide

section

variable {c : Cursor} {t u : Token} {ts : List Token}

theorem takeTight_of_not_extends {s : Symbol} (hs : s = .dot ∨ s = .lbracket ∨ s = .lparen) (h : c.Next t)
    (ht : ¬t.Extends) : takeIf (atTight s) c = (.done false, c.settled) := by
  refine takeTight_declines h fun hkind => ?_
  by_contra hspaced
  refine ht ⟨by simpa using hspaced, ?_⟩
  rcases hs with rfl | rfl | rfl
  · exact .inl hkind
  · exact .inr (.inl hkind)
  · exact .inr (.inr hkind)

/-- A term ends before a token that does not go on with it. -/
theorem accessed_of_next (inner : Inner) (term : Term) (h : c.Next t) (ht : ¬t.Extends) :
    accessed inner term c = (.done term, c.settled) := by
  have hnext : c.settled.Next t := Cursor.next_settled.2 h
  refine fold_declines ?_ h.length_pos
  rw [postfixStep, bind_of_done (takeTight_of_not_extends (.inl rfl) h ht)]
  refine (bind_of_done (takeTight_of_not_extends (.inr (.inl rfl)) hnext ht)).trans ?_
  rw [Cursor.settled_settled]
  refine (bind_of_done (takeTight_of_not_extends (.inr (.inr rfl)) hnext ht)).trans ?_
  rw [Cursor.settled_settled]
  rfl

/-- A variable is a term. -/
theorem term_variable {n : Nat} {name : String} (hname : IsVariable name) (ht : t.kind = .name name)
    (hdepth : c.depth < maxNesting) (h : (c.withAhead ts).Next u) (hu : ¬u.Extends) :
    (inner (n + 1)).term (c.withAhead (t :: ts)) = (.done (.var name), (c.withAhead ts).settled) := by
  obtain ⟨hplain, hnull, htrue, hfalse⟩ := hname
  have hne : t.kind ≠ .newline := by simp [ht]
  obtain ⟨v, vs, rfl⟩ : ∃ v vs, ts = v :: vs := List.exists_cons_of_length_pos h.length_pos
  let inside : Cursor := { c with depth := c.depth + 1 }
  have hahead : (inside.withAhead (t :: v :: vs)).ahead = t :: v :: vs := rfl
  have hsettled := Cursor.settled_of_ne hahead hne
  have hnamed : named (inner n) name (inside.withAhead (v :: vs)) =
      (.done (.var name), (inside.withAhead (v :: vs)).settled) := by
    rw [named, if_neg hnull, if_neg htrue, if_neg hfalse]
    exact accessed_of_next (inner n) (.var name) h hu
  show nested (primary (inner n)) (c.withAhead (t :: v :: vs)) =
    (.done (.var name), (c.withAhead (t :: v :: vs)).withAhead (c.visible (v :: vs)))
  refine nested_of_done hdepth ?_
  show primary (inner n) (inside.withAhead (t :: v :: vs)) = _
  rw [primary, bind_of_done (peek_of_next (Cursor.next_of_ne hahead hne)), ht, hsettled]
  show (if isPlainName name then _ else _ : Parser Term) _ = _
  rw [if_pos hplain, bind_of_done (advance_of_cons (hsettled ▸ hahead) (List.cons_ne_nil _ _))]
  exact hnamed

end

/-! ## Climbing -/

/-- The tokens of operators and the variables behind them. -/
def IsLinks (links : List (BinOp × String)) (ts : List Token) : Prop := ts.map Token.kind = linkKinds links

theorem IsLinks.eq_nil {ts : List Token} (h : IsLinks [] ts) : ts = [] := List.map_eq_nil_iff.1 h

theorem IsLinks.exists_cons {op : BinOp} {name : String} {links : List (BinOp × String)} {ts : List Token}
    (h : IsLinks ((op, name) :: links) ts) : ∃ t u us, ts = t :: u :: us ∧ t.kind = op.kind ∧
      u.kind = .name name ∧ IsLinks links us := by
  obtain ⟨t, rest, rfl, ht, hrest⟩ := List.map_eq_cons_iff.1 h
  obtain ⟨u, us, rfl, hu, hus⟩ := List.map_eq_cons_iff.1 hrest
  exact ⟨t, u, us, rfl, ht, hu, hus⟩

theorem IsLinks.length_eq {links : List (BinOp × String)} {ts : List Token} (h : IsLinks links ts) :
    ts.length = 2 * links.length := by
  have hlength := congrArg List.length (show ts.map Token.kind = linkKinds links from h)
  simpa [linkKinds, Nat.mul_comm] using hlength

/-- The root of a tree is one of the operators of its chain. -/
theorem Term.IsTreeOf.exists_root {t : Term} {chain : Chain} (h : t.IsTreeOf chain) {op : BinOp}
    (hop : t.root? = some op) : ∃ name, (op, name) ∈ chain.rest := by
  cases h with
  | var => cases hop
  | @binary l r a b op' hl hr =>
    obtain rfl : op' = op := Option.some.inj hop
    exact ⟨b.first, List.mem_append_right _ List.mem_cons_self⟩

/-- A part of a chain has been joined to a ranked tree by operators that bind tightly enough, and the root of
the tree at least as tightly as the operator that comes next. -/
structure Climbs (least : Nat) (chain : Chain) (t : Term) (taken left : List (BinOp × String)) (us : List Token) :
    Prop where
  links : chain.rest = taken ++ left
  tree : t.IsTreeOf ⟨chain.first, taken⟩
  ranked : t.IsRanked
  binding : ∀ link ∈ taken, least ≤ link.1.precedence
  next : ∀ o link, t.root? = some o → left.head? = some link → link.1.precedence ≤ o.precedence
  isLinks : IsLinks left us

/-- What is left of the chain does not begin with an operator that binds tightly enough. -/
structure Takes (least : Nat) (chain : Chain) (t : Term) (taken left : List (BinOp × String)) (us : List Token) :
    Prop extends Climbs least chain t taken left us where
  ends : ∀ link, left.head? = some link → link.1.precedence < least

/-- One more operator and its right operand, which has taken all that binds more tightly. -/
theorem Climbs.join {least : Nat} {chain : Chain} {lhs rhs : Term} {op : BinOp} {name : String}
    {taken links taken' left : List (BinOp × String)} {ts us : List Token}
    (h : Climbs least chain lhs taken ((op, name) :: links) ts) (hop : least ≤ op.precedence)
    (hrhs : Takes (op.precedence + 1) ⟨name, links⟩ rhs taken' left us) :
    Climbs least chain (.binary op lhs rhs) (taken ++ (op, name) :: taken') left us := by
  refine ⟨?_, .binary op h.tree hrhs.tree, ?_, ?_, ?_, hrhs.isLinks⟩
  · have hlinks : links = taken' ++ left := hrhs.links
    rw [h.links, hlinks, List.append_assoc, List.cons_append]
  · refine .binary h.ranked hrhs.ranked (fun o ho => h.next o _ ho rfl) fun o ho => ?_
    obtain ⟨x, hx⟩ := hrhs.tree.exists_root ho
    exact hrhs.binding _ hx
  · intro link hlink
    rcases List.mem_append.1 hlink with hlink | hlink
    · exact h.binding link hlink
    · rcases List.mem_cons.1 hlink with rfl | hlink
      · exact hop
      · exact Nat.le_of_lt (Nat.lt_of_le_of_lt hop (hrhs.binding link hlink))
  · intro o link ho hlink
    obtain rfl : op = o := Option.some.inj ho
    exact Nat.le_of_lt_succ (hrhs.ends link hlink)

section Climbing

variable {c : Cursor} {rest : List Token} {stop : Token} {links left : List (BinOp × String)} {ts us : List Token}

/-- What comes next is an operator, or what is behind the chain. -/
theorem exists_next (h : IsLinks links ts) (hstop : (c.withAhead rest).Next stop) :
    ∃ t, (c.withAhead (ts ++ rest)).Next t ∧ (links = [] ∧ t = stop ∨ ∃ link, links.head? = some link ∧
      t.kind = link.1.kind) := by
  cases links with
  | nil =>
    rw [h.eq_nil]
    exact ⟨stop, hstop, .inl ⟨rfl, rfl⟩⟩
  | cons link links =>
    obtain ⟨op, name⟩ := link
    obtain ⟨t, u, us, rfl, ht, -⟩ := h.exists_cons
    exact ⟨t, Cursor.next_of_ne rfl (ht ▸ op.kind_ne_newline), .inr ⟨_, rfl, ht⟩⟩

theorem operator_of_next {t : Token} (hunion : c.union = true) (h : c.Next t) :
    operator c = (.done (operator? true t.kind), c.settled) := by
  refine (bind_of_done (peek_of_next h)).trans ?_
  rw [← hunion]
  rfl

/-- The loop joins the term with what the right operand takes of the chain. -/
theorem joinStep_joins {right : Nat → Parser Term} {least : Nat} {op : BinOp} {t u : Token} {rhs : Term}
    {after : Cursor} (hunion : c.union = true) (ht : t.kind = op.kind) (hleast : least ≤ op.precedence)
    (hright : right (op.precedence + 1) (c.withAhead (u :: ts)) = (.done rhs, after)) (lhs : Term) :
    joinStep right least lhs (c.withAhead (t :: u :: ts)) = (.done (some (.binary op lhs rhs)), after) := by
  have hne : t.kind ≠ .newline := ht ▸ op.kind_ne_newline
  have hahead : (c.withAhead (t :: u :: ts)).ahead = t :: u :: ts := rfl
  have hsettled := Cursor.settled_of_ne hahead hne
  have hrun := operator_of_next (c := c.withAhead (t :: u :: ts)) hunion (Cursor.next_of_ne hahead hne)
  rw [ht, op.operator?_kind, hsettled] at hrun
  rw [joinStep, bind_of_done hrun]
  refine (congrFun (if_neg (Nat.not_lt.2 hleast)) _).trans ?_
  rw [bind_of_done (advance_of_cons (hsettled ▸ hahead) (List.cons_ne_nil _ _))]
  exact bind_of_done hright

variable (hunion : c.union = true) (hstop : (c.withAhead rest).Next stop) (hends : ¬stop.GoesOn)

include hunion hstop hends

/-- The loop declines at the end of the chain, and before an operator that binds too loosely. -/
theorem joinStep_declines {right : Nat → Parser Term} {least : Nat} (h : IsLinks left us)
    (hleft : ∀ link, left.head? = some link → link.1.precedence < least) (lhs : Term) :
    joinStep right least lhs (c.withAhead (us ++ rest)).settled =
      (.done none, (c.withAhead (us ++ rest)).settled) := by
  obtain ⟨t, hnext, ht⟩ := exists_next h hstop
  have hrun := operator_of_next (c := (c.withAhead (us ++ rest)).settled) hunion (Cursor.next_settled.2 hnext)
  rw [Cursor.settled_settled] at hrun
  rw [joinStep, bind_of_done hrun]
  rcases ht with ⟨-, rfl⟩ | ⟨link, hlink, ht⟩
  · have hnone : operator? true t.kind = none := by
      simpa using fun h => hends (.inr (.inl h))
    rw [hnone]
    rfl
  · rw [ht, link.1.operator?_kind]
    exact congrFun (if_pos (hleft link hlink)) _

/-- **The loop takes what binds tightly enough**, if the right operands do. -/
theorem exists_folds {right : Nat → Parser Term} {least : Nat}
    (hright : ∀ op : BinOp, least ≤ op.precedence → ∀ name (u : Token) links ts, u.kind = .name name →
      IsLinks links ts → (∀ link ∈ ((op, name) :: links), IsVariable link.2) →
      ∃ rhs taken left us, Takes (op.precedence + 1) ⟨name, links⟩ rhs taken left us ∧
        right (op.precedence + 1) (c.withAhead (u :: ts ++ rest)) = (.done rhs, (c.withAhead (us ++ rest)).settled))
    {chain : Chain} {lhs : Term} {taken : List (BinOp × String)} (h : Climbs least chain lhs taken links ts)
    (hnames : ∀ link ∈ links, IsVariable link.2) :
    ∃ t taken left us, Takes least chain t taken left us ∧
      Folds (joinStep right least) lhs (c.withAhead (ts ++ rest)).settled t (c.withAhead (us ++ rest)).settled := by
  induction hlength : links.length using Nat.strongRecOn generalizing lhs taken links ts with
  | ind length ih =>
    by_cases hleast : ∀ link, links.head? = some link → link.1.precedence < least
    · obtain ⟨t, hnext, -⟩ := exists_next h.isLinks hstop
      exact ⟨lhs, taken, links, ts, ⟨h, hleast⟩, .stop
        (joinStep_declines hunion hstop hends h.isLinks hleast lhs) (Cursor.next_settled.2 hnext).length_pos⟩
    · obtain ⟨⟨op, name⟩, hlink, hop⟩ : ∃ link, links.head? = some link ∧ least ≤ link.1.precedence := by
        simpa using hleast
      obtain ⟨links, rfl⟩ := List.head?_eq_some_iff.1 hlink
      obtain ⟨t, u, us, rfl, ht, hu, hus⟩ := h.isLinks.exists_cons
      obtain ⟨rhs, taken', left, vs, htakes, hrun⟩ := hright op hop name u links us hu hus hnames
      have hsettled : (c.withAhead (t :: u :: us ++ rest)).settled = c.withAhead (t :: u :: us ++ rest) :=
        Cursor.settled_of_ne rfl (ht ▸ op.kind_ne_newline)
      have hlinks : links = taken' ++ left := htakes.links
      have hleft : left.length ≤ links.length := by simp [hlinks]
      obtain ⟨tree, taken'', left', ws, htree, hfolds⟩ := ih left.length
        (by simp [← hlength]; omega) (h.join hop htakes) (fun link hmem => hnames link (by simp [hlinks, hmem])) rfl
      refine ⟨tree, taken'', left', ws, htree, .more ?_ ?_ hfolds⟩
      · rw [hsettled]
        exact joinStep_joins hunion ht hop hrun lhs
      · have hvisible : (c.withAhead (vs ++ rest)).settled.ahead.length ≤ (vs ++ rest).length :=
          Cursor.visible_suffix.length_le
        rw [hsettled]
        simp only [Cursor.ahead_withAhead, List.length_append, List.length_cons, htakes.isLinks.length_eq,
          hus.length_eq] at hvisible ⊢
        omega

/-- **Climbing.**  Of a chain, the parser takes the operators up to the first that binds less tightly than asked
for, as a ranked tree. -/
theorem exists_binaryUpTo {term : Parser Term}
    (hterm : ∀ name (t u : Token) ts, IsVariable name → t.kind = .name name → (c.withAhead ts).Next u →
      ¬u.Extends → term (c.withAhead (t :: ts)) = (.done (.var name), (c.withAhead ts).settled))
    {levels least : Nat} (hlevels : 8 ≤ levels + least) (hleast : least ≤ 7) {name : String} {t : Token}
    (ht : t.kind = .name name) (h : IsLinks links ts) (hname : IsVariable name)
    (hnames : ∀ link ∈ links, IsVariable link.2) :
    ∃ tree taken left us, Takes least ⟨name, links⟩ tree taken left us ∧
      binaryUpTo term levels least (c.withAhead (t :: ts ++ rest)) =
        (.done tree, (c.withAhead (us ++ rest)).settled) := by
  induction levels generalizing least name t links ts with
  | zero => omega
  | succ levels ih =>
    obtain ⟨u, hnext, hu⟩ := exists_next h hstop
    have hextends : ¬u.Extends := by
      rcases hu with ⟨-, rfl⟩ | ⟨link, -, hu⟩
      · exact fun hextends => hends (.inl hextends)
      · exact link.1.not_extends hu
    have hfirst : Climbs least ⟨name, links⟩ (.var name) [] links ts :=
      ⟨rfl, .var name, .var name, nofun, nofun, h⟩
    obtain ⟨tree, taken, left, us, htakes, hfolds⟩ := exists_folds hunion hstop hends
      (fun op hop name u links ts hu hts hall => by
        have htight := op.precedence_le
        exact ih (by omega) (by omega) hu hts (hall _ List.mem_cons_self) fun link hlink =>
          hall link (List.mem_cons_of_mem _ hlink)) hfirst hnames
    refine ⟨tree, taken, left, us, htakes, ?_⟩
    rw [binaryUpTo]
    exact (bind_of_done (hterm name t u _ hname ht hnext hextends)).trans hfolds.fold_eq

/-- **A chain is an expression** of a body, and its term is the ranked tree. -/
theorem exists_literal {n : Nat} {chain : Chain} {t : Token} {line : List Token} (hdepth : c.depth < maxNesting)
    (hline : (t :: line).map Token.kind = chain.kinds) (hnames : ∀ name ∈ chain.names, IsVariable name) :
    ∃ tree : Term, tree.IsTreeOf chain ∧ tree.IsRanked ∧ literal (inner (n + 1)) (c.withAhead (t :: line ++ rest)) =
      (.done (.mk (.term tree) false [] t.location), (c.withAhead rest).settled) := by
  obtain ⟨ht, hlinks⟩ := List.cons.inj hline
  have hfirst : IsVariable chain.first := hnames _ List.mem_cons_self
  obtain ⟨tree, taken, left, us, htakes, hrun⟩ := exists_binaryUpTo hunion hstop hends
    (fun name t u ts hname ht hnext hu => term_variable (n := n) hname ht hdepth hnext hu) (Nat.le_refl 8)
    (Nat.zero_le 7) ht (show IsLinks chain.rest line from hlinks) hfirst
    (fun link hlink => hnames _ (List.mem_cons_of_mem _ (List.mem_map_of_mem hlink)))
  -- no operator binds less tightly than any
  obtain rfl : left = [] := by
    cases left with
    | nil => rfl
    | cons link left => exact absurd (htakes.ends link rfl) (Nat.not_lt_zero _)
  obtain rfl := htakes.isLinks.eq_nil
  obtain rfl : chain.rest = taken := by simpa using htakes.links
  refine ⟨tree, htakes.tree, htakes.ranked, ?_⟩
  have hne : t.kind ≠ .newline := by simp [ht]
  have hnext : (c.withAhead (t :: line ++ rest)).Next t := Cursor.next_of_ne rfl hne
  have hsettled : (c.withAhead (t :: line ++ rest)).settled = c.withAhead (t :: line ++ rest) :=
    Cursor.settled_of_ne rfl hne
  have hword : ∀ word ∈ keywords,
      takeWord word (c.withAhead (t :: line ++ rest)) = (.done false, c.withAhead (t :: line ++ rest)) := by
    intro word hword
    have hother : t.kind ≠ .name word := by simpa [ht] using ne_keyword hfirst.1 hword
    rw [takeWord_declines hnext hother, hsettled]
  have hwith : many (replacement (inner (n + 1))) (c.withAhead rest).settled =
      (.done [], (c.withAhead rest).settled) := by
    have hdeclines := takeWord_declines (Cursor.next_settled.2 hstop) fun hkind => hends (.inr (.inr hkind))
    rw [Cursor.settled_settled] at hdeclines
    exact many_declines (bind_of_done hdeclines) (Cursor.next_settled.2 hstop).length_pos
  rw [literal, bind_of_done (place_of_next hnext), hsettled]
  refine (bind_of_done (hword "some" (by decide))).trans ?_
  refine (bind_of_done (hword "every" (by decide))).trans ?_
  refine (bind_of_done (hword "not" (by decide))).trans ?_
  refine (bind_of_done hrun).trans ?_
  exact bind_of_done hwith

end Climbing

/-! ## Chains in policies -/

/-- The only expression of a body. -/
theorem query_once {inner : Inner} {close : Symbol} {c : Cursor} {before line after rest : List Token}
    {t close' : Token} {e : Expr} (hbefore : ∀ u ∈ before, isSeparator u = true) (ht : isSeparator t = false)
    (htclose : t.kind ≠ .symbol close) (hafter : ∀ u ∈ after, isSeparator u = true)
    (hclose : close'.kind = .symbol close) (hends : isSeparator close' = false)
    (hrun : literal inner { c with newlines := true :: c.newlines, ahead := t :: line ++ (after ++ close' :: rest) } =
      (.done e, { c with newlines := true :: c.newlines, ahead := after ++ close' :: rest })) :
    query inner close (c.withAhead (before ++ (t :: line ++ (after ++ close' :: rest)))) =
      (.done [e], c.withAhead (close' :: rest)) := by
  let inside : Cursor := { c with newlines := true :: c.newlines }
  have hskip : ∀ (between : List Token) (u : Token) us, (∀ v ∈ between, isSeparator v = true) →
      isSeparator u = false → skipSeparators (inside.withAhead (between ++ u :: us)) =
        (.done (), inside.withAhead (u :: us)) := by
    intro between u us hbetween hu
    refine skip_of_dropWhile ?_
    rw [Cursor.ahead_withAhead, List.dropWhile_append_of_pos hbetween, List.dropWhile_cons_of_neg (by simp [hu])]
  -- newlines are tokens in a body, so what is ahead is what comes next
  have hat : ∀ u us, atSymbol close (inside.withAhead (u :: us)) =
      (.done (decide (u.kind = .symbol close)), inside.withAhead (u :: us)) := fun u us => atSymbol_of_next close rfl
  obtain ⟨u, us, hus, hu⟩ : ∃ u us, after ++ close' :: rest = u :: us ∧
      (isSeparator u || decide (u.kind = .symbol close)) = true := by
    cases after with
    | nil => exact ⟨close', rest, rfl, by simp [hclose]⟩
    | cons u after => exact ⟨u, after ++ close' :: rest, rfl, by simp [hafter u List.mem_cons_self]⟩
  have hpeek : peek (inside.withAhead (after ++ close' :: rest)) =
      (.done u, inside.withAhead (after ++ close' :: rest)) := peek_of_next (congrArg List.head? hus)
  have hfirst : bodyStep inner close (inside.withAhead (before ++ (t :: line ++ (after ++ close' :: rest)))) =
      (.done (some e), inside.withAhead (after ++ close' :: rest)) := by
    refine (bind_of_done (hskip before t (line ++ (after ++ close' :: rest)) hbefore ht)).trans ?_
    refine (bind_of_done (hat _ _)).trans ?_
    rw [decide_eq_false htclose]
    refine (bind_of_done hrun).trans ((bind_of_done hpeek).trans ?_)
    exact congrFun (if_pos hu) _
  have hlast : bodyStep inner close (inside.withAhead (after ++ close' :: rest)) =
      (.done none, inside.withAhead (close' :: rest)) := by
    rw [bodyStep, bind_of_done (hskip after close' rest hafter hends), bind_of_done (hat _ _), decide_eq_true hclose]
    rfl
  refine withNewlines_of_done (many_once hfirst ?_ hlast ?_)
  · simp only [Cursor.ahead_withAhead, List.length_append, List.length_cons]
    omega
  · rw [Cursor.ahead_withAhead, hus]
    exact Nat.succ_pos _

namespace Chain

/-- The tokens of a policy whose one rule has a chain as the one expression of its body, on a line of its own or
on the line of a brace. -/
def policyKinds (chain : Chain) (package rule : String) (before after behind : Nat) : List Kind :=
  .name "package" :: .name package :: .newline :: .name rule :: .symbol .lbrace ::
    (List.replicate before .newline ++ (chain.kinds ++ (List.replicate after .newline ++
      .symbol .rbrace :: List.replicate behind .newline)))

end Chain

/-- A query up to a brace is a body, with the braces around it. -/
theorem body_of_query {b b' : Token} {ts us : List Token} {exprs : Body} (hb : b.kind = .symbol .lbrace)
    (hb' : b'.kind = .symbol .rbrace) (hts : ts ≠ []) (hus : us ≠ [])
    (h : query (inner 15) .rbrace { start [] with depth := 1, ahead := ts } =
      (.done exprs, { start [] with depth := 1, ahead := b' :: us })) :
    outermost.body (start (b :: ts)) = (.done exprs, start us) := by
  have hne : b.kind ≠ .newline := by simp [hb]
  have hne' : b'.kind ≠ .newline := by simp [hb']
  refine nested_of_done (p := block (inner 15)) (c := start (b :: ts)) (Nat.succ_pos 15) ?_
  refine (bind_of_done (expectSymbol_takes (by rw [Cursor.settled_of_ne rfl hne]; rfl) hts hb)).trans ?_
  refine (bind_of_done h).trans ?_
  exact bind_of_done (expectSymbol_takes (by rw [Cursor.settled_of_ne rfl hne']) hus hb')

/-- Only newlines are left before the end. -/
theorem settled_lines {lines : List Token} {e : Token} {behind : Nat}
    (hlines : lines.map Token.kind = List.replicate behind .newline) (he : e.kind = .endOfInput) :
    (start (lines ++ [e])).settled = start [e] := by
  have hnewline : ∀ u ∈ lines, isNewline u = true := fun u hu => by
    simp [isNewline, List.eq_of_mem_replicate (hlines ▸ List.mem_map_of_mem hu : u.kind ∈ List.replicate _ _)]
  show start ((lines ++ [e]).dropWhile isNewline) = _
  rw [List.dropWhile_append_of_pos hnewline, List.dropWhile_cons_of_neg (by simp [isNewline, he])]

/-- What a policy with a chain in it is read as. -/
theorem exists_parse {chain : Chain} (hnames : ∀ name ∈ chain.names, IsVariable name) {package name : String}
    (hpackage : isPlainName package = true) (hname : isPlainName name = true) {before after behind : Nat}
    {tokens : List Token}
    (h : tokens.map Token.kind = chain.policyKinds package name before after behind ++ [.endOfInput]) :
    ∃ (tree : Term) (l₀ l₁ l₂ : Location) (c : Cursor), tree.IsTreeOf chain ∧ tree.IsRanked ∧
      Module.parse tokens = (.done ⟨⟨[package], l₀⟩, [], [⟨false, ⟨name, .complete, [], none, none, false⟩,
        [[.mk (.term tree) false [] l₂]], [], l₁⟩]⟩, c) := by
  simp only [Chain.policyKinds, List.cons_append, List.append_assoc] at h
  obtain ⟨t₀, ts₀, rfl, h₀, hts₀⟩ := List.map_eq_cons_iff.1 h
  obtain ⟨t₁, ts₁, rfl, h₁, hts₁⟩ := List.map_eq_cons_iff.1 hts₀
  obtain ⟨t₂, ts₂, rfl, h₂, hts₂⟩ := List.map_eq_cons_iff.1 hts₁
  obtain ⟨r, ts₃, rfl, hr, hts₃⟩ := List.map_eq_cons_iff.1 hts₂
  obtain ⟨b, ts₄, rfl, hb, hts₄⟩ := List.map_eq_cons_iff.1 hts₃
  obtain ⟨lines, ts₅, rfl, hlines, hts₅⟩ := List.map_eq_append_iff.1 hts₄
  obtain ⟨line, ts₆, rfl, hline, hts₆⟩ := List.map_eq_append_iff.1 hts₅
  obtain ⟨lines', ts₇, rfl, hlines', hts₇⟩ := List.map_eq_append_iff.1 hts₆
  obtain ⟨b', ts₈, rfl, hb', hts₈⟩ := List.map_eq_cons_iff.1 hts₇
  obtain ⟨lines'', ts₉, rfl, hlines'', hts₉⟩ := List.map_eq_append_iff.1 hts₈
  obtain ⟨e, ts₁₀, rfl, he, hnil⟩ := List.map_eq_cons_iff.1 hts₉
  obtain rfl := List.map_eq_nil_iff.1 hnil
  obtain ⟨t, line, rfl, ht, -⟩ := List.map_eq_cons_iff.1 hline
  have hseparates : ∀ {n : Nat} {ts : List Token}, ts.map Token.kind = List.replicate n .newline →
      ∀ u ∈ ts, isSeparator u = true := fun hts u hu => by
    simp [isSeparator, List.eq_of_mem_replicate (hts ▸ List.mem_map_of_mem hu : u.kind ∈ List.replicate _ _)]
  let body : Cursor := { ahead := [], newlines := [true, false], union := true, depth := 1 }
  let rest : List Token := lines' ++ b' :: (lines'' ++ [e])
  obtain ⟨stop, hstop, hends⟩ : ∃ stop, (body.withAhead rest).Next stop ∧ ¬stop.GoesOn := by
    have hclosing : ¬b'.GoesOn := by simp [Token.GoesOn, Token.Extends, hb', operator?]
    cases lines' with
    | nil => exact ⟨b', rfl, hclosing⟩
    | cons u lines' =>
      have hu : u.kind = .newline := List.eq_of_mem_replicate (hlines' ▸ List.mem_map_of_mem List.mem_cons_self)
      exact ⟨u, rfl, by simp [Token.GoesOn, Token.Extends, hu, operator?]⟩
  obtain ⟨tree, htree, hranked, hliteral⟩ := exists_literal (n := 14) (c := body) rfl hstop hends (by decide)
    hline hnames
  have hquery : query (inner 15) .rbrace { start [] with depth := 1, ahead := lines ++ (t :: line ++ rest) } =
      (.done [.mk (.term tree) false [] t.location], { start [] with depth := 1, ahead := b' :: (lines'' ++ [e]) }) :=
    query_once (c := { start [] with depth := 1 }) (hseparates hlines) (by simp [isSeparator, ht]) (by simp [ht])
      (hseparates hlines') hb' (by simp [isSeparator, hb']) hliteral
  have hbody := body_of_query hb hb' (by simp) (by simp) hquery
  have hsettled : (start (lines'' ++ [e])).settled = start [e] := settled_lines hlines'' he
  have hlast : (start (lines'' ++ [e])).Next e := by rw [Cursor.Next, hsettled]; rfl
  have hrule := rule_of_body hr hname hb hbody (by simp [rest]; omega) hlast he
  rw [hsettled] at hrule
  exact ⟨tree, _, _, t.location, _, htree, hranked, parse_of_rule h₀ h₁ hpackage h₂ hr hname hrule
    (by simp) (start_next (by simp [he])) he⟩

/-- **One tree for each chain.**  A chain of variables has exactly one ranked tree.  That tree is what the parser reads
wherever an expression of a body is expected and the union operator is one, up to the token that ends the
expression.  And it is the one expression of the policy that has the chain in its rule. -/
theorem existsUnique_tree_read (chain : Chain) (hnames : ∀ name ∈ chain.names, IsVariable name) :
    ∃ tree : Term, (tree.IsTreeOf chain ∧ tree.IsRanked) ∧
      (∀ other : Term, other.IsTreeOf chain → other.IsRanked → other = tree) ∧
      (∀ (n : Nat) (c : Cursor) (t stop : Token) (line rest : List Token), c.union = true → c.depth < maxNesting →
        (t :: line).map Token.kind = chain.kinds → (c.withAhead rest).Next stop → ¬stop.GoesOn →
          literal (inner (n + 1)) (c.withAhead (t :: line ++ rest)) =
            (.done (.mk (.term tree) false [] t.location), (c.withAhead rest).settled)) ∧
      ∀ (package name source : String) (before after behind : Nat) (tokens : List Token),
        isPlainName package = true → isPlainName name = true → tokenize source = .ok tokens →
          tokens.map Token.kind = chain.policyKinds package name before after behind ++ [.endOfInput] →
            ∃ l₀ l₁ l₂ : Location, Module.ofSource? source = .ok ⟨⟨[package], l₀⟩, [], [⟨false,
              ⟨name, .complete, [], none, none, false⟩, [[.mk (.term tree) false [] l₂]], [], l₁⟩]⟩ := by
  let word : Kind → Token := fun kind => ⟨kind, .start, true⟩
  let body : Cursor := { ahead := [], newlines := [true], union := true, depth := 0 }
  have hwords : (word (.name chain.first) :: (linkKinds chain.rest).map word).map Token.kind = chain.kinds := by
    simp [word, Chain.kinds, Function.comp_def]
  have hstop : (body.withAhead [word .newline]).Next (word .newline) := rfl
  obtain ⟨tree, htree, hranked, -⟩ := exists_literal (n := 0) (c := body) rfl hstop
    (by simp [word, Token.GoesOn, Token.Extends, operator?]) (Nat.succ_pos 15) hwords hnames
  have hunique : ∀ other : Term, other.IsTreeOf chain → other.IsRanked → other = tree := fun other hother hranked' =>
    hranked'.unique hranked hother htree
  refine ⟨tree, ⟨htree, hranked⟩, hunique, ?_, ?_⟩
  · intro n c t stop line rest hunion hdepth hline hstop hends
    obtain ⟨other, hother, hranked', hread⟩ := exists_literal hunion hstop hends (n := n) hdepth hline hnames
    rw [hread, hunique other hother hranked']
  · intro package name source before after behind tokens hpackage hname htokens hkinds
    obtain ⟨other, l₀, l₁, l₂, c, hother, hranked', hread⟩ := exists_parse hnames hpackage hname hkinds
    refine ⟨l₀, l₁, l₂, ?_⟩
    rw [ofSource?_of_ok htokens, hread, hunique other hother hranked']
    rfl

/-- The operators of a chain are not joined in the order of the text: those that bind more tightly come first, and
those that bind as tightly from left to right. -/
theorem existsUnique_tree_read_mixed :
    let chain : Chain := ⟨"a", [(.sub, "b"), (.mul, "c"), (.sub, "d"), (.member, "e")]⟩
    let tree : Term := .binary .member
      (.binary .sub (.binary .sub (.var "a") (.binary .mul (.var "b") (.var "c"))) (.var "d")) (.var "e")
    (∀ name ∈ chain.names, IsVariable name) ∧ ∃ l₀ l₁ l₂ : Location,
      Module.ofSource? "package p
r { a - b * c - d in e }
" = .ok ⟨⟨["p"], l₀⟩, [], [⟨false,
        ⟨"r", .complete, [], none, none, false⟩, [[.mk (.term tree) false [] l₂]], [], l₁⟩]⟩ := by
  intro chain tree
  have hnames : ∀ name ∈ chain.names, IsVariable name := by decide
  obtain ⟨read, -, hunique, -, hsource⟩ := existsUnique_tree_read chain hnames
  have htree : tree.IsTreeOf chain :=
    .binary _ (.binary _ (.binary _ (.var "a") (.binary _ (.var "b") (.var "c"))) (.var "d")) (.var "e")
  have hranked : tree.IsRanked := by
    refine .binary (.binary (.binary (.var "a") (.binary (.var "b") (.var "c") ?_ ?_) ?_ ?_) (.var "d") ?_ ?_)
      (.var "e") ?_ ?_ <;> simp [Term.root?, BinOp.precedence]
  have htokens : ((tokenize "package p
r { a - b * c - d in e }
").toOption.map (List.map Token.kind)) =
      some (chain.policyKinds "p" "r" 0 0 1 ++ [.endOfInput]) := by decide +kernel
  cases h : tokenize "package p
r { a - b * c - d in e }
" with
  | error e => simp [h, Except.toOption] at htokens
  | ok tokens =>
    rw [h] at htokens
    have hread := hsource "p" "r" _ 0 0 1 tokens (by decide) (by decide) h (Option.some.inj htokens)
    rw [← hunique tree htree hranked] at hread
    exact ⟨hnames, hread⟩

end Gatehouse.Rego
