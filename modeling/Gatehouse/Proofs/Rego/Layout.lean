import Gatehouse.Proofs.Rego.Gaps
import Gatehouse.Proofs.Rego.InStep
import Gatehouse.Proofs.Rego.Source

/-!
# Layout

1. **Another layout** (`Relaid`).  In place of a line break stands a run of blanks, line breaks and comments that end
   with their line, one line break of it at least; and a blank may have more of them behind it.  The rest of the text
   stays, piece by piece.
2. **Tokens** (`exists_scan_relaid`).  What follows a token differs only behind a gap, so the token is the same.  The
   crux is a comment before a line break: the run that stands in place of the line break goes on with the comment up
   to its first line break.
3. **Readings** (`ofSource?_relaid`).  The two lists of tokens are in step, and so are the parsers.
-/

namespace Gatehouse.Rego

open Gatehouse.Text Gatehouse.Rego.Parser
open Placed (unplaced)

/-! ## Another layout -/

/-- Blanks, line breaks among them, and comments that end with their line. -/
inductive IsFiller : List Char → Prop
  | nil : IsFiller []
  | blank {c : Char} {cs : List Char} (hc : isBlank c = true) (h : IsFiller cs) : IsFiller (c :: cs)
  | comment {note cs : List Char} (hnote : '\n' ∉ note) (h : IsFiller cs) : IsFiller ('#' :: (note ++ '\n' :: cs))

/-- The second text is the first one in another layout. -/
inductive Relaid : List Char → List Char → Prop
  | nil : Relaid [] []
  /-- A piece stays as it is. -/
  | piece {c : Char} {cs text : List Char} {p : Piece Kind} (hp : piece .start c cs = .ok p) (h : Relaid p.rest text) :
    Relaid (c :: cs) (p.lexeme ++ text)
  /-- In place of a line break that is a piece of its own, there may be several, and more between them. -/
  | line {cs run text : List Char} (hrun : IsFiller run) (hline : '\n' ∈ run) (h : Relaid cs text) :
    Relaid ('\n' :: cs) (run ++ text)
  /-- There may be more blanks behind a space. -/
  | space {cs blanks text : List Char} (hblanks : ∀ c ∈ blanks, isBlank c = true ∧ c ≠ '\n') (h : Relaid cs text) :
    Relaid (' ' :: cs) (' ' :: (blanks ++ text))

variable {source text rest : List Char} {location location' : Location} {spaced : Bool}

/-- A piece is the same wherever its text stands. -/
theorem piece_moved {c : Char} {cs : List Char} {p : Piece Kind} (h : piece location c cs = .ok p)
    (location' : Location) : piece location' c cs = .ok p := by
  obtain ⟨hspells, htrivia⟩ := piece_spells h
  obtain ⟨happ, hne⟩ := piece_append h
  obtain ⟨kind, lexeme, rest⟩ := p
  obtain ⟨d, ds, rfl⟩ := List.exists_cons_of_ne_nil hne
  obtain ⟨rfl, rfl⟩ := List.cons.inj happ
  cases kind with
  | none => exact (htrivia rfl).piece location'
  | some kind => exact piece_of_isLongest (hspells kind rfl) (isLongest_of_piece h) location'

/-- What is behind a piece has tokens if the text has. -/
theorem exists_scan_rest {c : Char} {cs : List Char} {p : Piece Kind} {tokens : List Token}
    (hpiece : piece location c cs = .ok p) (h : scan location spaced (c :: cs) = .ok tokens) :
    ∃ location' spaced' rest, scan location' spaced' p.rest = .ok rest := by
  obtain ⟨kind, lexeme, behind⟩ := p
  cases kind with
  | none => exact ⟨_, _, tokens, (scan_trivia hpiece).symm.trans h⟩
  | some kind =>
    rw [scan_token hpiece] at h
    cases hrest : scan (location.after lexeme) (kind = .newline) behind with
    | error e =>
      rw [hrest] at h
      cases h
    | ok rest => exact ⟨_, _, rest, hrest⟩

/-- A text that has tokens is laid out as itself. -/
theorem relaid_self {tokens : List Token} (h : scan location spaced text = .ok tokens) : Relaid text text := by
  induction hlength : text.length using Nat.strongRecOn generalizing text location spaced tokens with
  | ind length ih =>
    cases text with
    | nil => exact .nil
    | cons c cs =>
      cases hpiece : piece location c cs with
      | error e => cases (scan_error hpiece).symm.trans h
      | ok p =>
        obtain ⟨_, _, _, hrest⟩ := exists_scan_rest hpiece h
        have hsame := Relaid.piece (piece_moved hpiece .start) (ih _ (hlength ▸ piece_rest_length hpiece) hrest rfl)
        rwa [(piece_append hpiece).1] at hsame

/-! ## Gaps -/

theorem IsFiller.startsGap {run : List Char} (h : IsFiller run) (hne : run ≠ []) (text : List Char) :
    StartsGap (run ++ text) := by
  cases h with
  | nil => exact absurd rfl hne
  | blank hc => exact startsGap_cons (by simp [isGap, hc]) _
  | comment => exact startsGap_cons (by decide) _

/-- The two texts are the same up to a gap. -/
theorem Relaid.exists_gap (h : Relaid source text) :
    ∃ same gap gap', source = same ++ gap ∧ text = same ++ gap' ∧ StartsGap gap ∧ StartsGap gap' := by
  induction h with
  | nil => exact ⟨[], [], [], rfl, rfl, startsGap_nil, startsGap_nil⟩
  | piece hp _ ih =>
    obtain ⟨same, gap, gap', hrest, rfl, hgap, hgap'⟩ := ih
    exact ⟨_ ++ same, gap, gap', by rw [← (piece_append hp).1, hrest, List.append_assoc],
      (List.append_assoc ..).symm, hgap, hgap'⟩
  | line hrun hline =>
    exact ⟨[], _, _, rfl, rfl, startsGap_cons (by decide) _, hrun.startsGap (List.ne_nil_of_mem hline) _⟩
  | space => exact ⟨[], _, _, rfl, rfl, startsGap_cons (by decide) _, startsGap_cons (by decide) _⟩

/-- A token is as long in another layout of what follows it. -/
theorem IsLongest.relaid {kind : Kind} {lexeme : List Char} (hspells : Spells kind lexeme)
    (h : IsLongest lexeme source) (hrelaid : Relaid source text) : IsLongest lexeme text := by
  obtain ⟨same, gap, gap', rfl, rfl, -, hgap'⟩ := hrelaid.exists_gap
  exact h.cut.append_gap hspells hgap'

/-! ## Fillers -/

/-- A comment goes on up to the first line break behind it. -/
theorem IsFiller.note {run note : List Char} (h : IsFiller run) (hline : '\n' ∈ run) (hnote : '\n' ∉ note) :
    IsFiller ('#' :: (note ++ run)) := by
  induction h generalizing note with
  | nil => cases hline
  | @blank c cs hc h ih =>
    by_cases hbreak : c = '\n'
    · subst hbreak
      exact .comment hnote h
    · have hlonger : '\n' ∉ note ++ [c] := by simp [hnote, Ne.symm hbreak]
      simpa using ih (by simpa [Ne.symm hbreak] using hline) hlonger
  | @comment inner cs hinner h _ =>
    have hlonger : '\n' ∉ note ++ '#' :: inner := by simp [hnote, hinner]
    simpa using IsFiller.comment hlonger h

/-- A comment that ends with the line, or none. -/
def IsNote (note rest : List Char) : Prop :=
  note = [] ∨ ∃ cs, note = '#' :: cs ∧ '\n' ∉ cs ∧ ∀ c, rest.head? = some c → c = '\n'

theorem IsNote.filler {note run : List Char} (h : IsNote note rest) (hrun : IsFiller run) (hline : '\n' ∈ run) :
    IsFiller (note ++ run) := by
  rcases h with rfl | ⟨cs, rfl, hcs, -⟩
  · exact hrun
  · exact hrun.note hline hcs

theorem IsNote.eq_nil {note : List Char} {c : Char} (h : IsNote note (c :: rest)) (hline : c ≠ '\n') : note = [] :=
  h.resolve_right fun ⟨_, _, _, hrest⟩ => hline (hrest c rfl)

theorem isFiller_line : IsFiller ['\n'] := .blank (by decide) .nil

theorem map_map_append {ε : Type} (result : Except ε (List Token)) (ts us : List Token) :
    (result.map (us ++ ·)).map (ts ++ ·) = result.map ((ts ++ us) ++ ·) := by
  cases result with
  | error e => rfl
  | ok tokens => exact congrArg Except.ok (List.append_assoc ..).symm

/-- A filler has newlines as its tokens, and what is behind it stands apart. -/
theorem exists_scan_filler {run : List Char} (h : IsFiller run) (location : Location) (spaced : Bool)
    (rest : List Char) : ∃ location' spaced' lines, (spaced = true ∨ run ≠ [] → spaced' = true) ∧
      (∀ t ∈ lines, t.kind = .newline) ∧ ('\n' ∈ run → lines ≠ []) ∧
        scan location spaced (run ++ rest) = (scan location' spaced' rest).map (lines ++ ·) := by
  have hbreak : ∀ {cs : List Char} {location location' : Location} {spaced spaced' : Bool} {lines : List Token},
      scan (location.after ['\n']) true (cs ++ rest) = (scan location' spaced' rest).map (lines ++ ·) →
        scan location spaced ('\n' :: (cs ++ rest)) =
          (scan location' spaced' rest).map ((⟨.newline, location, spaced⟩ :: lines) ++ ·) := by
    intro cs location location' spaced spaced' lines hscan
    have hpiece : piece location '\n' (cs ++ rest) = .ok ⟨some .newline, ['\n'], cs ++ rest⟩ := rfl
    rw [scan_token hpiece]
    show (scan (location.after ['\n']) true (cs ++ rest)).map _ = _
    rw [hscan]
    exact map_map_append _ [_] lines
  induction h generalizing location spaced with
  | nil =>
    refine ⟨location, spaced, [], by simp, nofun, nofun, ?_⟩
    cases hscan : scan location spaced rest <;> simp [hscan, Except.map]
  | @blank c cs hc h ih =>
    obtain ⟨location', spaced', lines, hspaced, hlines, hne, hscan⟩ := ih (location.after [c]) true
    by_cases hline : c = '\n'
    · subst hline
      exact ⟨location', spaced', ⟨.newline, location, spaced⟩ :: lines, fun _ => hspaced (.inl rfl),
        List.forall_mem_cons.2 ⟨rfl, hlines⟩, fun _ => List.cons_ne_nil _ _, hbreak hscan⟩
    · refine ⟨location', spaced', lines, fun _ => hspaced (.inl rfl), hlines, fun hmem => hne ?_, ?_⟩
      · simpa [Ne.symm hline] using hmem
      · rw [List.cons_append, scan_blank hc hline, hscan]
  | @comment note cs hnote h ih =>
    obtain ⟨location', spaced', lines, hspaced, hlines, hne, hscan⟩ :=
      ih ((location.after ('#' :: note)).after ['\n']) true
    refine ⟨location', spaced', ⟨.newline, location.after ('#' :: note), true⟩ :: lines, fun _ => hspaced (.inl rfl),
      List.forall_mem_cons.2 ⟨rfl, hlines⟩, fun _ => List.cons_ne_nil _ _, ?_⟩
    have htrivia : IsTrivia ('#' :: note) ('\n' :: (cs ++ rest)) := .comment hnote fun c hc => Option.some.inj hc ▸ rfl
    rw [List.cons_append, List.append_assoc, List.cons_append, scan_trivia (htrivia.piece location)]
    exact hbreak hscan

/-- Blanks of a line set the next token apart. -/
theorem exists_scan_blanks {blanks : List Char} (h : ∀ c ∈ blanks, isBlank c = true ∧ c ≠ '\n') (location : Location)
    (rest : List Char) : ∃ location', scan location true (blanks ++ rest) = scan location' true rest := by
  induction blanks generalizing location with
  | nil => exact ⟨location, rfl⟩
  | cons c blanks ih =>
    obtain ⟨⟨hc, hline⟩, hblanks⟩ := List.forall_mem_cons.1 h
    obtain ⟨location', hscan⟩ := ih hblanks (location.after [c])
    exact ⟨location', by rw [List.cons_append, scan_blank hc hline, hscan]⟩

/-! ## Tokens -/

/-- The two texts have tokens in step, wherever they stand. -/
def ScansAlike (spaced : Bool) (source text : List Char) : Prop :=
  ∀ location location', ∃ ts us, scan location spaced source = .ok ts ∧ scan location' spaced text = .ok us ∧
    Ends.whole.Tracks ts us

/-- Line breaks on both sides, with whatever else there is around them. -/
theorem ScansAlike.lines {run run' : List Char} (h : ScansAlike true source text) (hrun : IsFiller run)
    (hline : '\n' ∈ run) (hrun' : IsFiller run') (hline' : '\n' ∈ run') (spaced : Bool) :
    ScansAlike spaced (run ++ source) (run' ++ text) := by
  intro location location'
  obtain ⟨l, s, lines, hs, hkinds, hne, hscan⟩ := exists_scan_filler hrun location spaced source
  obtain ⟨l', s', lines', hs', hkinds', hne', hscan'⟩ := exists_scan_filler hrun' location' spaced text
  obtain rfl := hs (.inr (List.ne_nil_of_mem hline))
  obtain rfl := hs' (.inr (List.ne_nil_of_mem hline'))
  obtain ⟨ts, us, hts, hus, hsame⟩ := h l l'
  exact ⟨lines ++ ts, lines' ++ us, by rw [hscan, hts]; rfl, by rw [hscan', hus]; rfl,
    .lines (hne hline) (hne' hline') hkinds hkinds' hsame⟩

/-- The same token, before texts that have tokens in step. -/
theorem ScansAlike.token {kind : Kind} {c : Char} {cs : List Char} (h : ScansAlike (kind = .newline) source text)
    (hspells : Spells kind (c :: cs)) (hne : kind ≠ .newline) (hlongest : IsLongest (c :: cs) source)
    (hlongest' : IsLongest (c :: cs) text) (spaced : Bool) :
    ScansAlike spaced (c :: cs ++ source) (c :: cs ++ text) := by
  intro location location'
  obtain ⟨ts, us, hts, hus, hsame⟩ := h (location.after (c :: cs)) (location'.after (c :: cs))
  refine ⟨_, _, ?_, ?_, .token ⟨rfl, fun _ => rfl⟩ (t := ⟨kind, location, spaced⟩) (u := ⟨kind, location', spaced⟩) hne
    (fun _ => rfl) hsame⟩
  · rw [List.cons_append, scan_token (piece_of_isLongest hspells hlongest location), hts]
    rfl
  · rw [List.cons_append, scan_token (piece_of_isLongest hspells hlongest' location'), hus]
    rfl

/-- The same note at the end, which is also where the comparison ends. -/
theorem scansAlike_nil {note : List Char} (h : IsNote note []) (spaced : Bool) : ScansAlike spaced note note := by
  intro location location'
  have hlast : ∀ {t u : Token}, t.Alike u → t.kind = .endOfInput → Ends.whole.Tracks [t] [u] := fun htu ht =>
    .token htu (by simp [ht]) (fun _ => rfl) .ends
  have hnil : ∀ location spaced, scan location spaced [] = .ok [⟨.endOfInput, location, spaced⟩] := fun _ _ => by
    rw [scan]
  rcases h with rfl | ⟨cs, rfl, hcs, -⟩
  · exact ⟨_, _, hnil location spaced, hnil location' spaced, hlast ⟨rfl, fun _ => rfl⟩ rfl⟩
  · have htrivia : IsTrivia ('#' :: cs) [] := .comment hcs fun _ hd => by cases hd
    have hscan : ∀ location, scan location spaced ('#' :: cs) = .ok [⟨.endOfInput, location.after ('#' :: cs), true⟩] :=
      fun location => by simpa using (scan_trivia (by simpa using htrivia.piece location)).trans (hnil _ _)
    exact ⟨_, _, hscan location, hscan location', hlast ⟨rfl, fun _ => rfl⟩ rfl⟩

/-- **In another layout, a text has tokens in step with those it had.** -/
theorem Relaid.scansAlike (h : Relaid source text) {note : List Char} (hnote : IsNote note source) (spaced : Bool) :
    ScansAlike spaced (note ++ source) (note ++ text) := by
  induction h generalizing note spaced with
  | nil => simpa using scansAlike_nil hnote spaced
  | @piece c cs text p hp h ih =>
    obtain ⟨hspells, htrivia⟩ := piece_spells hp
    obtain ⟨happ, hne⟩ := piece_append hp
    have hlongest := isLongest_of_piece hp
    obtain ⟨kind, lexeme, rest⟩ := p
    rw [← happ]
    by_cases hline : c = '\n'
    · subst hline
      obtain rfl : ['\n'] = lexeme := congrArg Piece.lexeme (Except.ok.inj hp)
      have hall := (ih (.inl rfl) true).lines (hnote.filler isFiller_line (by simp)) (by simp)
        (hnote.filler isFiller_line (by simp)) (by simp) spaced
      simpa using hall
    · obtain rfl := hnote.eq_nil hline
      obtain ⟨d, ds, rfl⟩ := List.exists_cons_of_ne_nil hne
      obtain ⟨rfl, -⟩ := List.cons.inj happ
      cases kind with
      | some kind =>
        have hkind : kind ≠ .newline := by
          rintro rfl
          cases hspells _ rfl
          exact hline rfl
        exact (ih (.inl rfl) _).token (hspells kind rfl) hkind hlongest (hlongest.relaid (hspells kind rfl) h) spaced
      | none =>
        generalize hlexeme : d :: ds = lexeme at htrivia
        cases htrivia rfl with
        | blank hc hline =>
          cases hlexeme
          intro location location'
          simpa [scan_blank hc hline] using ih (.inl rfl) true (location.after [d]) (location'.after [d])
        | comment hcs hrest => exact ih (.inr ⟨_, rfl, hcs, hrest⟩) spaced
  | @line cs run text hrun hline h ih =>
    have hall := (ih (.inl rfl) true).lines (hnote.filler isFiller_line (by simp)) (by simp) (hnote.filler hrun hline)
      (by simp [hline]) spaced
    simpa using hall
  | @space cs blanks text hblanks h ih =>
    obtain rfl := hnote.eq_nil (by decide)
    intro location location'
    obtain ⟨l', hscan⟩ := exists_scan_blanks hblanks (location'.after [' ']) text
    have hblank : isBlank ' ' = true ∧ ' ' ≠ '\n' := by decide
    simpa [scan_blank hblank.1 hblank.2, hscan] using ih (.inl rfl) true (location.after [' ']) l'

/-! ## Readings -/

/-- Tokens in step are the same module up to places, or the error of one is that of the other. -/
theorem parse_tracks {ts us : List Token} (h : Ends.whole.Tracks ts us) (hts : IsClosed ts) (hus : IsClosed us) :
    unplaced (Module.parse us).1.toExcept = unplaced (Module.parse ts).1.toExcept := by
  have hanswers : ∀ {tokens}, IsClosed tokens → (Module.parse tokens).1 ≠ .stuck := fun hclosed =>
    (steady_module (.start _)).answers (Cursor.isReady_start hclosed)
  have haround : Ends.whole.Around (.start []) (.start []) := ⟨rfl, fun _ => rfl, fun _ => rfl⟩
  have hagree : Ends.whole.Agree (.start []) (.start []) (Module.parse ts) (Module.parse us) :=
    (Ends.keeps_module haround rfl rfl).agrees ts us h (.inl rfl)
  have hleft := hanswers hts
  have hright := hanswers hus
  generalize Module.parse ts = left at hagree hleft ⊢
  generalize Module.parse us = right at hagree hright ⊢
  cases hagree with
  | done hsame => exact congrArg Except.ok hsame.symm
  | failed hsame => exact congrArg Except.error hsame.symm
  | refused hwhole => exact absurd rfl hwhole
  | tooDeep hdeeper => exact absurd hdeeper (Nat.lt_irrefl _)
  | stuckLeft => exact absurd rfl hleft
  | stuckRight => exact absurd rfl hright

/-- **Layout does not change meaning.**  In another layout, a source is the same module up to places, or it is
complained about in the same way. -/
theorem ofSource?_relaid {source text : String} (h : Relaid source.toList text.toList) :
    unplaced (Module.ofSource? text) = unplaced (Module.ofSource? source) := by
  obtain ⟨ts, us, hts, hus, hsame⟩ := h.scansAlike (.inl rfl) true .start .start
  have hsource : tokenize source = .ok ts := hts
  have htext : tokenize text = .ok us := hus
  rw [ofSource?_of_ok hsource, ofSource?_of_ok htext]
  exact parse_tracks hsame (isClosed_of_tokenize hsource) (isClosed_of_tokenize htext)

/-- A comment behind the package, which goes on as the line did, and an empty line. -/
theorem ofSource?_relaid_comment :
    let source := "package p# of x\nr \x7b x\n y \x7d\n"
    let text := "package   p# of x # and y\n\n\tr \x7b x\n y \x7d\n"
    Relaid source.toList text.toList ∧ unplaced (Module.ofSource? text) = unplaced (Module.ofSource? source) ∧
      (Module.ofSource? source).toOption.isSome = true := by
  intro source text
  have hrun : IsFiller " # and y\n\n\t".toList := by
    have hnote : '\n' ∉ " and y".toList := by decide
    exact .blank (by decide) (.comment hnote (.blank (by decide) (.blank (by decide) .nil)))
  have hbehind : (scan .start true "r \x7b x\n y \x7d\n".toList).toOption.isSome = true := by decide +kernel
  obtain ⟨tokens, htokens⟩ : ∃ tokens, scan .start true "r \x7b x\n y \x7d\n".toList = .ok tokens := by
    cases hscan : scan .start true "r \x7b x\n y \x7d\n".toList with
    | error e =>
      rw [hscan] at hbehind
      cases hbehind
    | ok tokens => exact ⟨tokens, rfl⟩
  have hrelaid : Relaid source.toList text.toList := by
    have hline := Relaid.line hrun (by decide) (relaid_self htokens)
    have hcomment : Relaid "# of x\nr \x7b x\n y \x7d\n".toList "# of x # and y\n\n\tr \x7b x\n y \x7d\n".toList :=
      .piece (p := ⟨none, "# of x".toList, "\nr \x7b x\n y \x7d\n".toList⟩) rfl hline
    have hname : Relaid "p# of x\nr \x7b x\n y \x7d\n".toList "p# of x # and y\n\n\tr \x7b x\n y \x7d\n".toList :=
      .piece (p := ⟨some (.name "p"), "p".toList, "# of x\nr \x7b x\n y \x7d\n".toList⟩) rfl hcomment
    have hblanks : ∀ c ∈ "  ".toList, isBlank c = true ∧ c ≠ '\n' := fun c hc => by
      obtain rfl : c = ' ' := by simpa using hc
      decide
    have hspace := Relaid.space hblanks hname
    have hfirst : Relaid "package p# of x\nr \x7b x\n y \x7d\n".toList
        "package   p# of x # and y\n\n\tr \x7b x\n y \x7d\n".toList :=
      .piece (p := ⟨some (.name "package"), "package".toList, " p# of x\nr \x7b x\n y \x7d\n".toList⟩) rfl hspace
    exact hfirst
  exact ⟨hrelaid, ofSource?_relaid hrelaid, by decide +kernel⟩

end Gatehouse.Rego
