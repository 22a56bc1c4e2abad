import Gatehouse.Proofs.Rego.Bodies
import Gatehouse.Proofs.Rego.Lines
import Gatehouse.Proofs.Rego.Precedence

/-!
# Comprehensions with the body of a rule

1. **Answers** (`Answers`).  A parser answers as it should and leaves the cursor where it should, or complains of too
   many levels where it is further in.
2. **Reading a comprehension** (`answers_term`).  An opening bracket, a variable, a bar, and a body up to the closing
   bracket.  The variable is an element, so its bar is not the union operator.
3. **One body in two places** (`answers_query`, `exists_answers_value`).  The body in the brackets has the tokens of
   the one in the braces of a rule, so it is read alike, if a bar is the union operator in both or there is no bar.
4. **Rules** (`bodyOf?`, `comprehension_reads_body`).  The body that a text is in a rule is the body of the
   comprehension with that text, as the value of a rule, and wherever it does not need the union operator.
-/

namespace Gatehouse.Rego

open Gatehouse.Text Gatehouse.Rego.Parser
open Placed (unplaced)

/-! ## Comprehensions -/

section

variable {α β : Type} {deep : Prop} {good : α → Prop} {good' : β → Prop} {c d after after' : Cursor} {ts : List Token}
  {t : Token}

/-- The run complains of too many levels. -/
def IsTooDeep (run : Outcome α × Cursor) : Prop :=
  ∃ location c, run = (.failed (.nestingTooDeep maxNesting location), c)

/-- The run gives such an answer and ends there; or it complains of too many levels, where there may be. -/
def Answers (deep : Prop) (good : α → Prop) (after : Cursor) (run : Outcome α × Cursor) : Prop :=
  (∃ a, good a ∧ run = (.done a, after)) ∨ deep ∧ IsTooDeep run

theorem Answers.bind {p : Parser α} {f : α → Parser β} (h : Answers deep good after (p c))
    (hf : ∀ a, good a → Answers deep good' after' (f a after)) : Answers deep good' after' ((p >>= f) c) := by
  rcases h with ⟨a, ha, hrun⟩ | ⟨hdeep, location, c', hrun⟩
  · rw [bind_of_done hrun]
    exact hf a ha
  · exact .inr ⟨hdeep, location, c', bind_of_failed hrun⟩

/-- What surrounds a run is set back behind it. -/
theorem Answers.inside {run run' : Outcome α × Cursor} (h : Answers deep good after run) (back : Cursor → Cursor)
    (hrun : run' = (run.1, back run.2)) : Answers deep good (back after) run' := by
  rcases h with ⟨a, ha, rfl⟩ | ⟨hdeep, location, c', rfl⟩
  · exact .inl ⟨a, ha, hrun⟩
  · exact .inr ⟨hdeep, location, _, hrun⟩

/-- Where there are no more levels, there are too many. -/
theorem isTooDeep_nested (h : c.Next t) (hdepth : maxNesting ≤ c.depth) (p : Parser α) : IsTooDeep (nested p c) := by
  refine ⟨t.location, c.settled, ?_⟩
  rw [nested, if_pos hdepth]
  exact bind_of_done (place_of_next h)

variable {n : Nat}

/-- A term is a value, if no operator comes next. -/
theorem answers_value {good : Term → Prop} (h : Answers deep good (c.withAhead ts).settled ((inner n).term d))
    (hnext : (c.withAhead ts).Next t) (hoperator : operator? c.union t.kind = none) :
    Answers deep good (c.withAhead ts).settled (value (inner n) d) := by
  refine h.bind fun term hterm => .inl ⟨term, hterm, fold_declines ?_ (Cursor.next_settled.2 hnext).length_pos⟩
  have hlook : operator (c.withAhead ts).settled = (.done none, (c.withAhead ts).settled) := by
    refine (bind_of_done (peek_of_next (Cursor.next_settled.2 hnext))).trans ?_
    rw [Cursor.settled_settled]
    exact congrArg (fun op => (Outcome.done op, (c.withAhead ts).settled)) hoperator
  exact bind_of_done hlook

variable {x : String} {v bar : Token}

/-- The variable before a bar is an element. -/
theorem answers_element (hx : IsVariable x) (hv : v.kind = .name x) (hbar : bar.kind = .symbol .pipe)
    (hdepth : c.depth + n = maxNesting) (hdeep : n = 0 → deep) :
    Answers deep (· = .var x) (c.withAhead (bar :: ts)) (element (inner n) (c.withAhead (v :: bar :: ts))) := by
  let plain : Cursor := { c with union := false }
  have hnext : (plain.withAhead (bar :: ts)).Next bar := Cursor.next_of_ne rfl (by simp [hbar])
  have hsettled : (plain.withAhead (bar :: ts)).settled = plain.withAhead (bar :: ts) :=
    Cursor.settled_of_ne rfl (by simp [hbar])
  have hterm : Answers deep (· = .var x) (plain.withAhead (bar :: ts)).settled
      ((inner n).term (plain.withAhead (v :: bar :: ts))) := by
    cases n with
    | zero =>
      have hfirst : (plain.withAhead (v :: bar :: ts)).Next v := Cursor.next_of_ne rfl (by simp [hv])
      exact .inr ⟨hdeep rfl, isTooDeep_nested hfirst (Nat.le_of_eq hdepth.symm) stuck⟩
    | succ n =>
      have hextends : ¬bar.Extends := fun h => by simp [Token.Extends, hbar] at h
      exact .inl ⟨_, rfl, term_variable hx hv (c := plain) (by simp [plain]; omega) hnext hextends⟩
  have hvalue := answers_value hterm hnext (by rw [hbar]; rfl)
  rw [hsettled] at hvalue
  exact hvalue.inside (fun after => { after with union := c.union }) rfl

/-- The term is the comprehension of the variable and the body, up to places. -/
def IsComprehension (x : String) (b : Body) (t : Term) : Prop := unplaced t = unplaced (Term.arrayCompr (.var x) b)

/-- What is in the brackets is a comprehension, if its body is read up to the closing bracket. -/
theorem answers_bracketed {b : Body} {r : Token} {line behind : List Token} (hx : IsVariable x) (hv : v.kind = .name x)
    (hbar : bar.kind = .symbol .pipe) (hr : r.kind = .symbol .rbracket) (hbehind : behind ≠ [])
    (hdepth : c.depth + n = maxNesting) (hdeep : n = 0 → deep) (hline : line ≠ [])
    (h : Answers deep (unplaced · = unplaced b) (c.withAhead (r :: behind))
      (query (inner n) .rbracket (c.withAhead line))) :
    Answers deep (IsComprehension x b) (c.withAhead behind)
      (bracketed (inner n) (c.withAhead (v :: bar :: line))) := by
  have hfirst : bracketed (inner n) (c.withAhead (v :: bar :: line)) = (do
      let first ← element (inner n)
      if ← takeSymbol .pipe then
        let body ← query (inner n) .rbracket
        expectSymbol .rbracket
        return Term.arrayCompr first body
      else
        let rest ← many (afterComma .rbracket (element (inner n)))
        expectSymbol .rbracket
        return Term.array (first :: rest)) (c.withAhead (v :: bar :: line)) := by
    have hdeclines := takeSymbol_declines (c := c.withAhead (v :: bar :: line)) (s := .rbracket)
      (Cursor.next_of_ne rfl (by simp [hv])) (by simp [hv])
    rw [Cursor.settled_of_ne rfl (by simp [hv])] at hdeclines
    exact bind_of_done hdeclines
  have hpipe : takeSymbol .pipe (c.withAhead (bar :: line)) = (.done true, c.withAhead line) :=
    takeSymbol_takes (congrArg Cursor.ahead (Cursor.settled_of_ne rfl (by simp [hbar]))) hline hbar
  have hclose : expectSymbol .rbracket (c.withAhead (r :: behind)) = (.done (), c.withAhead behind) :=
    expectSymbol_takes (congrArg Cursor.ahead (Cursor.settled_of_ne rfl (by simp [hr]))) hbehind hr
  rw [hfirst]
  refine (answers_element hx hv hbar hdepth hdeep).bind fun first hx => ?_
  rw [bind_of_done hpipe]
  refine Answers.bind h fun b' hb' => .inl ⟨.arrayCompr first b', by simp [IsComprehension, hx, hb'], ?_⟩
  exact bind_of_done hclose

/-- The comprehension is a term, if its body is read up to the closing bracket. -/
theorem answers_term {b : Body} {o r : Token} {line behind : List Token} (ho : o.kind = .symbol .lbracket)
    (hx : IsVariable x) (hv : v.kind = .name x) (hbar : bar.kind = .symbol .pipe) (hr : r.kind = .symbol .rbracket)
    (hdepth : c.depth + (n + 1) = maxNesting) (hdeep : n = 0 → deep) (hline : line ≠ [])
    (hnext : (c.withAhead behind).Next t) (ht : ¬t.Extends)
    (h : Answers deep (unplaced · = unplaced b)
      (Cursor.withAhead { c with depth := c.depth + 1, newlines := false :: c.newlines } (r :: behind))
      (query (inner n) .rbracket
        (Cursor.withAhead { c with depth := c.depth + 1, newlines := false :: c.newlines } line))) :
    Answers deep (IsComprehension x b) (c.withAhead behind).settled
      ((inner (n + 1)).term (c.withAhead (o :: v :: bar :: line))) := by
  let inside : Cursor := { c with depth := c.depth + 1 }
  have hbehind : behind ≠ [] := by
    rintro rfl
    exact absurd hnext.length_pos (Nat.lt_irrefl 0)
  have hopen : primary (inner n) (inside.withAhead (o :: v :: bar :: line)) =
      (withNewlines false (bracketed (inner n)) >>= accessed (inner n)) (inside.withAhead (v :: bar :: line)) := by
    have hsettled : (inside.withAhead (o :: v :: bar :: line)).settled = inside.withAhead (o :: v :: bar :: line) :=
      Cursor.settled_of_ne rfl (by simp [ho])
    rw [primary, bind_of_done (peek_of_next (Cursor.next_of_ne rfl (by simp [ho]))), ho, hsettled]
    exact bind_of_done (advance_of_cons (congrArg Cursor.ahead hsettled) (List.cons_ne_nil _ _))
  have hbracketed : Answers deep (IsComprehension x b) (inside.withAhead behind)
      (withNewlines false (bracketed (inner n)) (inside.withAhead (v :: bar :: line))) :=
    (answers_bracketed hx hv hbar hr hbehind (by simp; omega) hdeep hline h).inside
      (fun after => { after with newlines := after.newlines.tail }) rfl
  have hprimary : Answers deep (IsComprehension x b)
      (inside.withAhead behind).settled (primary (inner n) (inside.withAhead (o :: v :: bar :: line))) := by
    rw [hopen]
    exact hbracketed.bind fun term hterm => .inl ⟨term, hterm, accessed_of_next _ _ hnext ht⟩
  refine hprimary.inside (fun after => { after with depth := after.depth - 1 }) ?_
  exact if_neg (by simp; omega)

end

/-! ## One body in two places -/

/-- Tokens that are the same up to their places are in step. -/
theorem Ends.tracks_append {e : Ends} {ts us ts' us' : List Token} (h : AlikeTokens ts us)
    (hbars : Kind.symbol .pipe ∈ ts.map Token.kind → e.bars = true) (hrest : e.Tracks ts' us') :
    e.Tracks (ts ++ ts') (us ++ us') := by
  induction h with
  | nil => exact hrest
  | @cons t u ts us htu _ ih =>
    have htracks := ih fun hmem => hbars (List.mem_cons_of_mem _ hmem)
    by_cases ht : t.kind = .newline
    · show e.Tracks ([t] ++ (ts ++ ts')) ([u] ++ (us ++ us'))
      exact .lines (by simp) (by simp) (by simpa using ht) (by simpa [← htu.kind] using ht) htracks
    · exact .token htu ht (fun hbar => hbars (by simp [hbar])) htracks

/-- The query of a body is read alike in brackets and in braces. -/
theorem answers_query {c d : Cursor} {n m : Nat} {b : Body} {us us' behind : List Token} {nl nl' r r' last : Token}
    (halike : AlikeTokens us us') (hnl : nl.kind = .newline) (hnl' : nl'.kind = .newline)
    (hr : r.kind = .symbol .rbrace) (hr' : r'.kind = .symbol .rbracket) (hbehind : behind ≠ [])
    (hunion : c.union = d.union ∨ Kind.symbol .pipe ∉ us.map Token.kind) (hnewlines : c.keepsNewlines = d.keepsNewlines)
    (hrun : query (inner n) .rbrace (c.withAhead ((us ++ [nl]) ++ [r, last])) = (.done b, c.withAhead [r, last]))
    (hready : (d.withAhead (us' ++ nl' :: r' :: behind)).IsReady m) :
    Answers (c.depth < d.depth) (unplaced · = unplaced b) (d.withAhead (r' :: behind))
      (query (inner m) .rbracket (d.withAhead (us' ++ nl' :: r' :: behind))) := by
  obtain ⟨w, ws, rfl⟩ := List.exists_cons_of_ne_nil hbehind
  let e : Ends := ⟨[r, last], r' :: w :: ws, c.union = d.union,
    .inr ⟨⟨r, last, [], rfl, .inl hr⟩, r', w, ws, rfl, .inr hr'⟩⟩
  have he : e.ClosedBy .rbrace .rbracket := ⟨⟨r, [last], rfl, hr⟩, r', w :: ws, rfl, hr'⟩
  have haround : e.Around c d := ⟨hnewlines, of_decide_eq_true, fun hwhole => absurd hwhole he.not_whole⟩
  have hline : e.Tracks ([nl] ++ [r, last]) ([nl'] ++ r' :: w :: ws) :=
    .lines (by simp) (by simp) (by simpa using hnl) (by simpa using hnl') .ends
  have htracks : e.Tracks ((us ++ [nl]) ++ [r, last]) (us' ++ nl' :: r' :: w :: ws) := by
    rw [List.append_assoc]
    exact Ends.tracks_append halike (fun hmem => decide_eq_true (hunion.resolve_right fun h => h hmem)) hline
  exact Ends.cases_query haround he htracks hrun hready

/-- The comprehension is a term with the body that is read in the braces, if the union operator is allowed as it was
there, or there is no bar in the body. -/
theorem answers_comprehension {union : Bool} {x : String} {b : Body} {ts braces brackets behind : List Token}
    {stop t : Token} (hbraces : InBraces ts braces) (hbrackets : InBrackets x ts brackets behind)
    (hrun : outermost.body { Cursor.start braces with union } = (.done b, { Cursor.start [stop] with union }))
    (hx : IsVariable x) {d : Cursor} {n : Nat} (hready : d.IsReady n) (hahead : d.ahead = brackets)
    (hnext : (d.withAhead behind).Next t) (ht : ¬t.Extends)
    (hunion : union = d.union ∨ Kind.symbol .pipe ∉ ts.map Token.kind) :
    Answers (0 < d.depth) (IsComprehension x b) (d.withAhead behind).settled ((inner n).term d) := by
  obtain ⟨o, us, nl, r, last, rfl, hus, ho, hnl, hr, hlast⟩ := hbraces.split
  obtain ⟨o', v, bar, us', nl', r', rfl, hus', ho', hv, hbar, hnl', hr'⟩ := hbrackets.split
  have hlevels : d.depth + n = 16 := hready.depth
  cases n with
  | zero =>
    have hfirst : d.Next o' := Cursor.next_of_ne hahead (by simp [ho'])
    exact .inr ⟨by omega, isTooDeep_nested hfirst (Nat.le_of_eq hready.depth.symm) stuck⟩
  | succ n =>
    have hbehind : behind ≠ [] := by
      rintro rfl
      exact absurd hnext.length_pos (Nat.lt_irrefl 0)
    have hclosed : IsClosed (us' ++ nl' :: r' :: behind) := by
      have hall := hready.closed
      rw [hahead] at hall
      exact ((hall.tail (by simp [ho'])).tail (by simp [hv])).tail (by simp [hbar])
    have hline : us ++ [nl, r, last] = (us ++ [nl]) ++ [r, last] := by simp
    have hquery := query_of_body (c := { Cursor.start [] with union }) rfl ho hlast (hline ▸ hrun)
    have hsame := answers_query (m := n) (c := { Cursor.start [] with union, depth := 1 })
      (d := { d with depth := d.depth + 1, newlines := false :: d.newlines }) (hus.join hus') hnl hnl' hr hr' hbehind
      (hunion.imp_right fun hnone => hus.map_kind ▸ hnone) rfl hquery ⟨hclosed, show d.depth + 1 + n = 16 by omega⟩
    have hd : d = d.withAhead (o' :: v :: bar :: (us' ++ nl' :: r' :: behind)) := by
      rw [← hahead, Cursor.withAhead_self]
    have hdeep : n = 0 → 0 < d.depth := fun hn => by omega
    rw [hd]
    refine answers_term ho' hx hv hbar hr' hready.depth hdeep (by simp) hnext ht ?_
    exact hsame.imp_right (And.imp_left Nat.lt_of_succ_lt_succ)

/-- The text is read as this body in braces that end with the source, where the union operator is allowed or not. -/
def IsBody (union : Bool) (body : String) (b : Body) : Prop :=
  ∃ location spaced tokens last, scan location spaced ("\x7b " ++ body ++ "\n\x7d").toList = .ok tokens ∧
    outermost.body { Cursor.start tokens with union } = (.done b, { Cursor.start [last] with union })

/-- **A comprehension has the body that is read in braces**, wherever the parser comes to one and the union operator is
allowed as it was there, or there is no bar in the body. -/
theorem exists_answers_value {union : Bool} {body x : String} {b : Body} (hbody : IsBody union body b)
    (hx : IsVariable x) (hname : Spells (.name x) x.toList) {location : Location} {after : List Char}
    {behind : List Token} (hafter : scan (location.after (comprehension x body).toList) false after = .ok behind)
    (spaced : Bool) :
    ∃ tokens, scan location spaced ((comprehension x body).toList ++ after) = .ok tokens ∧
      ∀ (n : Nat) (d : Cursor) (t : Token), d.IsReady n → d.ahead = tokens → (d.withAhead behind).Next t → ¬t.Extends →
        operator? d.union t.kind = none → (union = d.union ∨ HasNoBar body) →
          Answers (0 < d.depth) (IsComprehension x b) (d.withAhead behind).settled (value (inner n) d) := by
  obtain ⟨_, _, braces, stop, hscan, hrun⟩ := hbody
  obtain ⟨ts, hts, hbraces⟩ := exists_inBraces hscan
  obtain ⟨brackets, hscan', hbrackets⟩ := exists_inBrackets hts hname hafter spaced
  refine ⟨brackets, hscan', fun n d t hready hahead hnext ht hoperator hunion => ?_⟩
  have hterm := answers_comprehension hbraces hbrackets hrun hx hready hahead hnext ht
    (hunion.imp_right fun hnone => hnone.not_mem hts)
  exact answers_value hterm hnext hoperator

/-- The body is the same, up to places, where the union operator is not allowed. -/
def NeedsNoUnion (body : String) (b : Body) : Prop :=
  HasNoBar body ∨ ∃ b', unplaced b' = unplaced b ∧ IsBody false body b'

/-- Where the union operator is not allowed, a comprehension has its body if the body does not need the operator. -/
theorem exists_answers_body {body x : String} {b : Body} (hbody : IsBody true body b) (hx : IsVariable x)
    (hname : Spells (.name x) x.toList) {location : Location} {after : List Char} {behind : List Token}
    (hafter : scan (location.after (comprehension x body).toList) false after = .ok behind) (spaced : Bool) :
    ∃ tokens, scan location spaced ((comprehension x body).toList ++ after) = .ok tokens ∧
      ∀ (n : Nat) (d : Cursor) (t : Token), d.IsReady n → d.ahead = tokens → (d.withAhead behind).Next t → ¬t.Extends →
        operator? d.union t.kind = none → (d.union = true ∨ NeedsNoUnion body b) →
          Answers (0 < d.depth) (IsComprehension x b) (d.withAhead behind).settled (value (inner n) d) := by
  obtain ⟨tokens, hscan, hread⟩ := exists_answers_value hbody hx hname hafter spaced
  refine ⟨tokens, hscan, fun n d t hready hahead hnext ht hoperator hunion => ?_⟩
  have hwith := hread n d t hready hahead hnext ht hoperator
  rcases hunion with hunion | hbar | ⟨b', hb', hwithout⟩
  · exact hwith (.inl hunion.symm)
  · exact hwith (.inr hbar)
  · cases hunion : d.union with
    | true => exact hwith (.inl hunion.symm)
    | false =>
      obtain ⟨_, hscan', hread'⟩ := exists_answers_value hwithout hx hname hafter spaced
      obtain rfl := Except.ok.inj (hscan'.symm.trans hscan)
      have hsame : ∀ a, IsComprehension x b' a → IsComprehension x b a := fun a ha => by
        rw [IsComprehension, ha]
        simp [hb']
      have hanswers := hread' n d t hready hahead hnext ht hoperator (.inl hunion.symm)
      exact hanswers.imp_left fun ⟨a, ha, hrun⟩ => ⟨a, hsame a ha, hrun⟩

/-! ## Policies of one rule -/

theorem spells_name {c : Char} {cs : List Char} {name : String} (hname : name.toList = c :: cs)
    (hc : isNameStart c = true) (hcs : cs.all isNamePart = true) : Spells (.name name) name.toList := by
  have h := Spells.name hc (List.all_eq_true.1 hcs)
  rwa [← hname, String.ofList_toList] at h

/-- The tokens of a policy up to the name of its rule. -/
def ruleTokens : List Token :=
  [⟨.name "package", ⟨1, 1⟩, true⟩, ⟨.name "p", ⟨1, 9⟩, true⟩, ⟨.newline, ⟨1, 10⟩, false⟩, ⟨.name "q", ⟨2, 1⟩, true⟩]

theorem scan_rule (rest : List Char) : scan .start true ("package p\nq ".toList ++ rest) =
    (scan ⟨2, 3⟩ true rest).map (ruleTokens ++ ·) := by
  have htext : "package p\nq ".toList ++ rest =
      "package".toList ++ ' ' :: ("p".toList ++ '\n' :: ("q".toList ++ ' ' :: rest)) := rfl
  have hblank : isBlank ' ' = true ∧ ' ' ≠ '\n' := by decide
  have hgap : ∀ cs, StartsGap (' ' :: cs) := startsGap_cons (by decide)
  have hline : ∀ cs, StartsGap ('\n' :: cs) := startsGap_cons (by decide)
  have hpackage : Spells (.name "package") "package".toList := spells_name rfl (by decide) (by decide)
  have hp : Spells (.name "p") "p".toList := spells_name rfl (by decide) (by decide)
  have hq : Spells (.name "q") "q".toList := spells_name rfl (by decide) (by decide)
  rw [htext, scan_word hpackage (hgap _), scan_blank hblank.1 hblank.2, scan_word hp (hline _),
    scan_token (piece_line ..), scan_word hq (hgap _), scan_blank hblank.1 hblank.2]
  show ((((scan ⟨2, 3⟩ true rest).map _).map _).map _).map _ = _
  cases scan ⟨2, 3⟩ true rest <;> rfl

/-- The body that a text is in the one rule of a policy. -/
def bodyOf? (body : String) : Option Body :=
  match Module.ofSource? ("package p\nq \x7b " ++ body ++ "\n\x7d") with
  | .ok ⟨_, _, [⟨_, _, [b], [], _⟩]⟩ => some b
  | _ => none

theorem exists_of_bodyOf? {body : String} {b : Body} (h : bodyOf? body = some b) :
    ∃ m isDefault hd l, Module.ofSource? ("package p\nq \x7b " ++ body ++ "\n\x7d") = .ok m ∧
      m.rules = [⟨isDefault, hd, [b], [], l⟩] := by
  rw [bodyOf?] at h
  split at h
  · rename_i package imports isDefault hd b' l hsource
    exact ⟨_, isDefault, hd, l, hsource, by rw [Option.some.inj h]⟩
  · cases h

/-- The body of a rule is read in its braces, and these end with the source. -/
theorem isBody_of_bodyOf? {body : String} {b : Body} (h : bodyOf? body = some b) : IsBody true body b := by
  obtain ⟨m, isDefault, hd, l, hsource, hm⟩ := exists_of_bodyOf? h
  let source := "package p\nq \x7b " ++ body ++ "\n\x7d"
  have htext : source.toList = "package p\nq ".toList ++ ("\x7b " ++ body ++ "\n\x7d").toList := by
    simp [source]
  cases htokens : tokenize source with
  | error e => cases (ofSource?_of_error htokens).symm.trans hsource
  | ok tokens =>
    have hread := (ofSource?_of_ok htokens).symm.trans hsource
    have hclosed := isClosed_of_tokenize htokens
    rw [tokenize, htext, scan_rule] at htokens
    obtain ⟨braces, hbraces, rfl⟩ := exists_of_map htokens
    obtain ⟨ts, hts, hin⟩ := exists_inBraces hbraces
    obtain ⟨o, us, nl, r, last, rfl, -, ho, -, hr, hlast⟩ := hin.split
    have hline : us ++ [nl, r, last] = (us ++ [nl]) ++ [r, last] := by simp
    rw [hline] at hbraces hclosed hread
    have hq : (⟨.name "q", ⟨2, 1⟩, true⟩ : Token).kind = .name "q" := rfl
    have hbody := body_of_parse rfl rfl (by decide) rfl hq (by decide) ho hr hlast hclosed hread hm
    exact ⟨_, _, _, last, hbraces, hbody⟩

/-- The tokens of a policy before the value of its rule. -/
def valueRuleTokens : List Token := ruleTokens ++ [⟨.symbol .unify, ⟨2, 3⟩, true⟩]

theorem tokenize_valueRule {text : String} {ts : List Token} (h : scan ⟨2, 5⟩ true text.toList = .ok ts) :
    tokenize ("package p\nq = " ++ text) = .ok (valueRuleTokens ++ ts) := by
  have htext : ("package p\nq = " ++ text).toList = "package p\nq ".toList ++ ("=".toList ++ ' ' :: text.toList) := by
    simp
  have hmark : Spells (.symbol .unify) "=".toList := .symbol .unify
  have hgap : StartsGap (' ' :: text.toList) := startsGap_cons (by decide) _
  have hscan : scan (((⟨2, 3⟩ : Location).after "=".toList).after [' ']) true text.toList = .ok ts := h
  rw [tokenize, htext, scan_rule, scan_word hmark hgap, scan_blank (by decide) (by decide), hscan]
  rfl

/-- The module whose one rule has this value. -/
def valueModule (item : Term) : Module :=
  ⟨⟨["p"], .start⟩, [], [⟨false, ⟨"q", .complete, [], none, some item, false⟩, [], [], .start⟩]⟩

/-- A policy is the module of its value, if the value is read up to the end of the source. -/
theorem ofSource?_value {text : String} {ts : List Token} {item : Term} {e : Token}
    (h : tokenize ("package p\nq = " ++ text) = .ok (valueRuleTokens ++ ts)) (hts : ts ≠ []) (he : e.kind = .endOfInput)
    (hitem : value outermost (.start ts) = (.done item, .start [e])) :
    unplaced (Module.ofSource? ("package p\nq = " ++ text)) = .ok (unplaced (valueModule item)) := by
  have hend : (Cursor.start [e]).Next e := start_next (by simp [he])
  have hrule := rule_of_value (r := ⟨.name "q", ⟨2, 1⟩, true⟩) (t := ⟨.symbol .unify, ⟨2, 3⟩, true⟩) rfl (by decide) rfl
    hts hitem hend he
  rw [start_settled (by simp [he])] at hrule
  have hpackage : (⟨.name "package", ⟨1, 1⟩, true⟩ : Token).kind = .name "package" := rfl
  have hp : (⟨.name "p", ⟨1, 9⟩, true⟩ : Token).kind = .name "p" := rfl
  have hline : (⟨.newline, ⟨1, 10⟩, false⟩ : Token).kind = .newline := rfl
  have hparse := parse_of_rule hpackage hp (by decide) hline rfl (by decide) hrule (by simp) hend he
  rw [ofSource?_of_ok h, show valueRuleTokens ++ ts = _ :: _ :: _ :: _ :: _ :: ts from rfl, hparse]
  rfl

/-! ## Comprehensions and rules -/

/-- **A comprehension has the body that is read in a rule**: as the value of a rule, and, however far in, as a value
where the union operator is allowed.  It is not allowed in an element of a collection, nor in a body inside of one.
There, the comprehension has that body if it does not need the operator. -/
theorem comprehension_reads_body {body x : String} {b : Body} (hbody : bodyOf? body = some b) (hx : IsVariable x)
    (hname : Spells (.name x) x.toList) :
    unplaced (Module.ofSource? ("package p\nq = " ++ comprehension x body)) =
      .ok (unplaced (valueModule (.arrayCompr (.var x) b))) ∧
    ∀ (location : Location) (spaced : Bool) (after : List Char) (behind : List Token),
      scan (location.after (comprehension x body).toList) false after = .ok behind →
        ∃ tokens, scan location spaced ((comprehension x body).toList ++ after) = .ok tokens ∧
          ∀ (n : Nat) (d : Cursor) (t : Token), d.IsReady n → d.ahead = tokens → (d.withAhead behind).Next t →
            ¬t.Extends →
              (operator? d.union t.kind = none → d.union = true ∨ NeedsNoUnion body b →
                Answers (0 < d.depth) (IsComprehension x b) (d.withAhead behind).settled (value (inner n) d)) ∧
              (operator? false t.kind = none → NeedsNoUnion body b →
                Answers (0 < d.depth) (IsComprehension x b) (d.withAhead behind).settled (element (inner n) d)) := by
  have hbraces := isBody_of_bodyOf? hbody
  refine ⟨?_, fun location spaced after behind hafter => ?_⟩
  · let last : Token := ⟨.endOfInput, Location.after ⟨2, 5⟩ (comprehension x body).toList, false⟩
    have hafter : scan (Location.after ⟨2, 5⟩ (comprehension x body).toList) false [] = .ok [last] := by rw [scan]
    obtain ⟨ts, hscan, hread⟩ := exists_answers_body hbraces hx hname hafter true
    rw [List.append_nil] at hscan
    have htokens := tokenize_valueRule hscan
    have hclosed : IsClosed ts := by
      have hall := isClosed_of_tokenize htokens
      exact ((((hall.tail Kind.noConfusion).tail Kind.noConfusion).tail Kind.noConfusion).tail
        Kind.noConfusion).tail Kind.noConfusion
    have hlast : (Cursor.start [last]).Next last := start_next Kind.noConfusion
    have hanswers := hread maxNesting (.start ts) last (Cursor.isReady_start hclosed) rfl hlast
      (fun h => by simp [Token.Extends, last] at h) rfl (.inl rfl)
    rcases hanswers with ⟨item, hitem, hrun⟩ | ⟨hdeep, -⟩
    · have hsettled : ((Cursor.start ts).withAhead [last]).settled = .start [last] := start_settled Kind.noConfusion
      have hterm : unplaced item = unplaced (Term.arrayCompr (.var x) b) := hitem
      rw [hsettled] at hrun
      rw [ofSource?_value htokens hclosed.ne_nil rfl hrun]
      simp [valueModule, hterm]
    · exact absurd hdeep (Nat.lt_irrefl 0)
  · obtain ⟨ts, hscan, hread⟩ := exists_answers_body hbraces hx hname hafter spaced
    refine ⟨ts, hscan, fun n d t hready hahead hnext ht => ⟨hread n d t hready hahead hnext ht, ?_⟩⟩
    intro hoperator hunion
    have hvalue := hread n { d with union := false } t ⟨hready.closed, hready.depth⟩ hahead hnext ht hoperator
      (.inr hunion)
    exact hvalue.inside (fun after => { after with union := d.union }) rfl

/-- A union in the body of a value, and a body without one in an element. -/
theorem comprehension_reads_body_union : IsVariable "x" ∧ Spells (.name "x") "x".toList ∧
    (∃ b, bodyOf? "y := a | b" = some b ∧
      unplaced (Module.ofSource? ("package p\nq = " ++ comprehension "x" "y := a | b")) =
        .ok (unplaced (valueModule (.arrayCompr (.var "x") b)))) ∧
    ∃ b ts last, bodyOf? "y := a" = some b ∧ NeedsNoUnion "y := a" b ∧
      tokenize (comprehension "x" "y := a") = .ok ts ∧ (Cursor.start ts).IsReady maxNesting ∧
        Answers (0 < (Cursor.start ts).depth) (IsComprehension "x" b) ((Cursor.start ts).withAhead [last]).settled
          (element outermost (.start ts)) := by
  have hx : IsVariable "x" := by decide
  have hname : Spells (.name "x") "x".toList := spells_name rfl (by decide) (by decide)
  obtain ⟨b, hb⟩ := Option.isSome_iff_exists.1 (show (bodyOf? "y := a | b").isSome = true by decide +kernel)
  obtain ⟨b', hb'⟩ := Option.isSome_iff_exists.1 (show (bodyOf? "y := a").isSome = true by decide +kernel)
  have hbar : HasNoBar "y := a" := by
    have hkinds : (tokenize "y := a").toOption.map (fun ts => decide (Kind.symbol .pipe ∈ ts.map Token.kind)) =
        some false := by decide +kernel
    cases htokens : tokenize "y := a" with
    | error e =>
      rw [htokens] at hkinds
      cases hkinds
    | ok ts =>
      rw [htokens] at hkinds
      exact ⟨ts, htokens, of_decide_eq_false (Option.some.inj hkinds)⟩
  obtain ⟨ts, hscan, hread⟩ := (comprehension_reads_body hb' hx hname).2 .start true [] _ (by rw [scan])
  rw [List.append_nil] at hscan
  have htokens : tokenize (comprehension "x" "y := a") = .ok ts := hscan
  have hready := Cursor.isReady_start (isClosed_of_tokenize htokens)
  have helement := (hread maxNesting _ _ hready rfl (Cursor.next_of_ne rfl Kind.noConfusion)
    (fun h => by simp [Token.Extends] at h)).2 rfl (.inl hbar)
  exact ⟨hx, hname, ⟨b, hb, (comprehension_reads_body hb hx hname).1⟩, b', ts, _, hb', .inl hbar, htokens, hready,
    helement⟩

/-- A union in the body of an element. -/
theorem not_forall_comprehension_accepted :
    ¬∀ body : String, (bodyOf? body).isSome = true →
      (Module.ofSource? ("package p\nq = [" ++ comprehension "x" body ++ "]")).toOption.isSome = true := by
  intro h
  have hrule : (bodyOf? "y := a | b").isSome = true := by decide +kernel
  have hrefused : (Module.ofSource? ("package p\nq = [" ++ comprehension "x" "y := a | b" ++ "]")).toOption.isSome =
      false := by decide +kernel
  exact Bool.false_ne_true (hrefused.symm.trans (h _ hrule))

end Gatehouse.Rego
