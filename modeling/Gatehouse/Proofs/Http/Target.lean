import Gatehouse.Http.Url
import Mathlib.Data.List.Basic
import Mathlib.Data.List.TakeWhile
import Mathlib.Tactic.IntervalCases

/-!
# Addresses under a base

A client has a base and puts what it asks for behind it.  The text that comes of it is read as a URL
again, and reading is lenient, so it has to be said when this URL is the one that was meant.

1. **Bases** (`Url.IsBase`).  With a slash behind it a base is a URL that requests can be sent to, with
   a path and nothing after the path.
2. **Any text** behind a base and a slash gives a URL of the same host (`IsBase.ofText?_append`).
3. **The crux** is the path.  Blanks, points and slashes of the base are settled in the same way
   whatever comes after them, since a slash stands in between.  So a text that means nothing special
   in a path is added to the target as it is (`IsBase.target_append`).
-/

namespace Gatehouse

open Text

/-! ## Lists -/

namespace Http

variable {α : Type} {p : α → Bool} {a b : List α}

theorem dropWhile_append_of_ne_nil (h : a.dropWhile p ≠ []) (b : List α) :
    (a ++ b).dropWhile p = a.dropWhile p ++ b := by
  rw [List.dropWhile_append, if_neg]
  simpa using h

theorem takeWhile_append_of_ne_nil (h : a.dropWhile p ≠ []) (b : List α) :
    (a ++ b).takeWhile p = a.takeWhile p := by
  have hsplit := List.takeWhile_append_dropWhile (p := p) (l := a)
  have hsplit' := List.takeWhile_append_dropWhile (p := p) (l := a ++ b)
  rw [dropWhile_append_of_ne_nil h, ← List.append_assoc] at hsplit'
  have hcancel : (a ++ b).takeWhile p ++ a.dropWhile p = a :=
    List.append_cancel_right hsplit'
  exact List.append_cancel_right (hcancel.trans hsplit.symm)

/-- What is left of a list has the same end. -/
theorem dropWhile_eq_concat {x : α} (h : (a ++ [x]).dropWhile p ≠ []) :
    ∃ rest, (a ++ [x]).dropWhile p = rest ++ [x] := by
  obtain ⟨dropped, hdropped⟩ := List.dropWhile_suffix (l := a ++ [x]) p
  rcases List.eq_nil_or_concat' ((a ++ [x]).dropWhile p) with hnil | ⟨rest, y, hrest⟩
  · exact absurd hnil h
  · rw [hrest, ← List.append_assoc] at hdropped
    obtain ⟨-, hy⟩ := List.append_inj' hdropped rfl
    exact ⟨rest, by rw [hrest, hy]⟩

/-- What does not satisfy `p` at the end is not dropped. -/
theorem dropWhile_concat {x : α} (hx : p x = false) (a : List α) :
    ∃ rest, (a ++ [x]).dropWhile p = rest ++ [x] := by
  induction a with
  | nil => exact ⟨[], by simp [hx]⟩
  | cons y a ih =>
    obtain ⟨rest, hrest⟩ := ih
    rw [List.cons_append, List.dropWhile_cons]
    split
    · exact ⟨rest, hrest⟩
    · exact ⟨y :: a, rfl⟩

/-- Before what does not satisfy `p` everything is dropped as if nothing came after it. -/
theorem dropWhile_append_cons {x : α} (hx : p x = false) (a b : List α) :
    (a ++ x :: b).dropWhile p = a.dropWhile p ++ x :: b := by
  rw [List.dropWhile_append]
  split
  · rename_i h
    rw [List.isEmpty_iff.1 h, List.dropWhile_cons_of_neg (by simp [hx]), List.nil_append]
  · rfl

/-! ## Characters -/

/-- Digits and letters are none of the marks of addresses. -/
theorem plain_of_isAlphanum {c : Char} (h : c.isAlphanum = true) :
    inPath c = false ∧ c ≠ '\\' ∧ c ≠ '.' ∧ c ≠ '%' ∧ c ≠ '/' := by
  have hrange : (48 ≤ c.toNat ∧ c.toNat ≤ 57) ∨ (65 ≤ c.toNat ∧ c.toNat ≤ 90) ∨
      (97 ≤ c.toNat ∧ c.toNat ≤ 122) := by
    have hranges : c.isAlphanum = ((decide (65 ≤ c.val ∧ c.val ≤ 90) ||
        decide (97 ≤ c.val) && decide (c.val ≤ 122)) || decide (48 ≤ c.val) && decide (c.val ≤ 57)) := rfl
    simp only [hranges, Bool.or_eq_true, Bool.and_eq_true, decide_eq_true_eq] at h
    rcases h with (h | h) | h
    · exact .inr (.inl h)
    · exact .inr (.inr h)
    · exact .inl h
  have hall : ∀ n, (48 ≤ n ∧ n ≤ 57) ∨ (65 ≤ n ∧ n ≤ 90) ∨ (97 ≤ n ∧ n ≤ 122) →
      inPath (Char.ofNat n) = false ∧ Char.ofNat n ≠ '\\' ∧ Char.ofNat n ≠ '.' ∧ Char.ofNat n ≠ '%' ∧
        Char.ofNat n ≠ '/' := by
    rintro n (⟨hlow, hhigh⟩ | ⟨hlow, hhigh⟩ | ⟨hlow, hhigh⟩)
    · interval_cases n <;> decide
    · interval_cases n <;> decide
    · interval_cases n <;> decide
  have hc := hall c.toNat hrange
  rwa [Char.ofNat_toNat] at hc

/-- Hexadecimal digits are digits and letters. -/
theorem isAlphanum_of_hexValue? {c : Char} (h : hexValue? c ≠ none) : c.isAlphanum = true := by
  have hranges : c.isAlphanum = ((decide (65 ≤ c.val ∧ c.val ≤ 90) ||
      decide (97 ≤ c.val) && decide (c.val ≤ 122)) || decide (48 ≤ c.val) && decide (c.val ≤ 57)) := rfl
  simp only [hranges, Bool.or_eq_true, Bool.and_eq_true, decide_eq_true_eq]
  unfold hexValue? at h
  split at h
  · rename_i hdigit
    exact .inr hdigit
  · split at h
    · rename_i hlower
      exact .inl (.inr ⟨hlower.1, UInt32.le_trans hlower.2 (show 'f'.val ≤ 122 by decide)⟩)
    · split at h
      · rename_i hupper
        exact .inl (.inl ⟨hupper.1, UInt32.le_trans hupper.2 (show 'F'.val ≤ 90 by decide)⟩)
      · exact absurd rfl h

/-! ## Parts and segments -/

/-- What comes after a separator has parts of its own. -/
theorem parts_append_separator {isSeparator : Char → Bool} {s : Char} (hs : isSeparator s = true)
    (cs more : List Char) :
    parts isSeparator (cs ++ s :: more) = parts isSeparator cs ++ parts isSeparator more := by
  induction cs with
  | nil => simp [parts, hs]
  | cons c cs ih =>
    by_cases hc : isSeparator c = true
    · simp [parts, hc, ih]
    · cases hparts : parts isSeparator cs with
      | nil => exact absurd hparts (parts_ne_nil isSeparator cs)
      | cons p ps => simp [parts, hc, ih, hparts]

theorem toList_intercalate_cons_cons (s t : String) (ss : List String) :
    ("/".intercalate (s :: t :: ss)).toList =
      s.toList ++ '/' :: ("/".intercalate (t :: ss)).toList := by
  rw [String.intercalate_cons_cons, String.toList_append, String.toList_append, List.append_assoc]
  rfl

/-- The parts of segments with slashes in between are the parts of the segments. -/
theorem parts_intercalate {isSeparator : Char → Bool} (hslash : isSeparator '/' = true) {ss : List String}
    (hne : ss ≠ []) :
    parts isSeparator ("/".intercalate ss).toList = ss.flatMap fun s => parts isSeparator s.toList := by
  induction ss with
  | nil => contradiction
  | cons s ss ih =>
    cases ss with
    | nil => simp
    | cons t ss =>
      rw [toList_intercalate_cons_cons, parts_append_separator hslash, ih (List.cons_ne_nil t ss),
        List.flatMap_cons (x := s)]

/-- Segments without separators are the parts themselves. -/
theorem parts_intercalate_of_forall {isSeparator : Char → Bool} (hslash : isSeparator '/' = true)
    {ss : List String} (hne : ss ≠ []) (h : ∀ s ∈ ss, ∀ c ∈ s.toList, isSeparator c = false) :
    parts isSeparator ("/".intercalate ss).toList = ss.map String.toList := by
  rw [parts_intercalate hslash hne, List.flatMap_congr fun s hs => parts_of_forall (h s hs),
    ← List.map_eq_flatMap]

theorem mem_intercalate {ss : List String} {c : Char} (hc : c ∈ ("/".intercalate ss).toList) :
    c = '/' ∨ ∃ s ∈ ss, c ∈ s.toList := by
  induction ss with
  | nil => simp at hc
  | cons s ss ih =>
    cases ss with
    | nil => exact .inr ⟨s, List.mem_cons_self, by simpa using hc⟩
    | cons t ss =>
      rw [toList_intercalate_cons_cons, List.mem_append, List.mem_cons] at hc
      rcases hc with hc | hc | hc
      · exact .inr ⟨s, List.mem_cons_self, hc⟩
      · exact .inl hc
      · rcases ih hc with h | ⟨x, hx, hc⟩
        · exact .inl h
        · exact .inr ⟨x, List.mem_cons_of_mem s hx, hc⟩

theorem mem_intercalate_of_mem {ss : List String} {s : String} (hs : s ∈ ss) {c : Char} (hc : c ∈ s.toList) :
    c ∈ ("/".intercalate ss).toList := by
  induction ss with
  | nil => exact absurd hs List.not_mem_nil
  | cons t ss ih =>
    cases ss with
    | nil =>
      obtain rfl := List.mem_singleton.1 hs
      simpa using hc
    | cons t' ss =>
      rw [toList_intercalate_cons_cons, List.mem_append, List.mem_cons]
      rcases List.mem_cons.1 hs with rfl | hs
      · exact .inl hc
      · exact .inr (.inr (ih hs))

/-- Parts hold nothing but what the text holds. -/
theorem mem_of_mem_parts {isSeparator : Char → Bool} {cs p : List Char}
    (hp : p ∈ parts isSeparator cs) {c : Char} (hc : c ∈ p) : c ∈ cs := by
  induction cs generalizing p with
  | nil =>
    obtain rfl := List.mem_singleton.1 hp
    exact hc
  | cons d cs ih =>
    rw [parts] at hp
    split at hp
    · rcases List.mem_cons.1 hp with rfl | hp
      · exact absurd hc List.not_mem_nil
      · exact List.mem_cons_of_mem d (ih hp hc)
    · split at hp
      · obtain rfl := List.mem_singleton.1 hp
        exact List.mem_cons.2 (.inl (List.mem_singleton.1 hc))
      · rename_i q qs hparts
        rcases List.mem_cons.1 hp with rfl | hp
        · rcases List.mem_cons.1 hc with rfl | hc
          · exact List.mem_cons_self
          · exact List.mem_cons_of_mem d (ih (hparts ▸ List.mem_cons_self) hc)
        · exact List.mem_cons_of_mem d (ih (hparts ▸ List.mem_cons_of_mem q hp) hc)

namespace Path

/-- The segments that are kept after one more. -/
def keep (kept : List (List Char)) (s : List Char) : List (List Char) :=
  match points s with
  | some 1 => kept
  | some 2 => kept.tail
  | _ => s :: kept

theorem settle_cons (kept : List (List Char)) (s : List Char) (rest : List (List Char)) :
    settle kept (s :: rest) =
      if rest.isEmpty && (points s = some 1 || points s = some 2) then ([] :: keep kept s).reverse
      else settle (keep kept s) rest := rfl

/-- Segments that come before others are settled in the same way whatever the others are. -/
theorem settle_append (kept ps : List (List Char)) {more : List (List Char)} (hmore : more ≠ []) :
    settle kept (ps ++ more) = settle (ps.foldl keep kept) more := by
  induction ps generalizing kept with
  | nil => rfl
  | cons s ps ih =>
    have hrest : (ps ++ more).isEmpty = false := by simp [hmore]
    rw [List.cons_append, settle_cons, hrest]
    exact ih (keep kept s)

theorem mem_keep {kept : List (List Char)} {s p : List Char} (h : p ∈ keep kept s) : p ∈ s :: kept := by
  unfold keep at h
  split at h
  · exact List.mem_cons_of_mem s h
  · exact List.mem_cons_of_mem s (List.mem_of_mem_tail h)
  · exact h

theorem mem_foldl_keep {kept ps : List (List Char)} {p : List Char} (h : p ∈ ps.foldl keep kept) :
    p ∈ kept ∨ p ∈ ps := by
  induction ps generalizing kept with
  | nil => exact .inl h
  | cons s ps ih =>
    rcases ih h with h | h
    · rcases List.mem_cons.1 (mem_keep h) with rfl | h
      · exact .inr List.mem_cons_self
      · exact .inl h
    · exact .inr (List.mem_cons_of_mem s h)

/-- Segments that are not made of points are kept. -/
theorem settle_of_forall (kept : List (List Char)) {ss : List (List Char)}
    (hss : ∀ s ∈ ss, points s ≠ some 1 ∧ points s ≠ some 2) : settle kept ss = kept.reverse ++ ss := by
  induction ss generalizing kept with
  | nil => simp [settle]
  | cons s ss ih =>
    obtain ⟨hone, htwo⟩ := hss s List.mem_cons_self
    have hkeep : keep kept s = s :: kept := by
      unfold keep
      split
      · contradiction
      · contradiction
      · rfl
    rw [settle_cons, hkeep, ih _ fun x hx => hss x (List.mem_cons_of_mem s hx)]
    simp [hone, htwo]

theorem toText_segments_cons (s : String) (ss : List String) :
    (segments (s :: ss)).toText = "/" ++ s ++ (segments ss).toText := by
  cases ss with
  | nil => simp [toText]
  | cons t ss => simp [toText, String.intercalate_cons_cons]

theorem toText_segments_append (ss ts : List String) :
    (segments (ss ++ ts)).toText = (segments ss).toText ++ (segments ts).toText := by
  induction ss with
  | nil => simp [toText]
  | cons s ss ih => rw [List.cons_append, toText_segments_cons, toText_segments_cons, ih,
      String.append_assoc, String.append_assoc, String.append_assoc]

/-- A text is its parts with a slash before each, if nothing else separates them. -/
theorem toText_parts {isSeparator : Char → Bool} {cs : List Char}
    (h : ∀ c ∈ cs, isSeparator c = true → c = '/') :
    (segments ((parts isSeparator cs).map String.ofList)).toText = "/" ++ String.ofList cs := by
  induction cs with
  | nil => rfl
  | cons c cs ih =>
    have hrest := ih fun d hd => h d (List.mem_cons_of_mem c hd)
    by_cases hc : isSeparator c = true
    · obtain rfl := h c List.mem_cons_self hc
      rw [parts, if_pos hc, List.map_cons, toText_segments_cons, hrest]
      simp
    · cases hparts : parts isSeparator cs with
      | nil => exact absurd hparts (parts_ne_nil isSeparator cs)
      | cons p ps =>
        rw [hparts, List.map_cons, toText_segments_cons, String.append_assoc] at hrest
        have htail := (String.append_right_inj "/").1 hrest
        rw [parts, if_neg hc, hparts, List.map_cons, toText_segments_cons, String.ofList_cons,
          String.ofList_cons, String.append_assoc, String.append_assoc, htail]

end Path

/-! ## Bases -/

namespace Url

/-- What is left of a text behind another one: nothing is cut off at its start. -/
def trimmedEnd (cs : List Char) : List Char :=
  (cs.reverse.dropWhile fun c => decide (c ≤ ' ')).reverse.filter
    fun c => !(c = '\t' || c = '\n' || c = '\r')

theorem trimmedEnd_of_forall {cs : List Char} (h : ∀ c ∈ cs, ' ' < c) : trimmedEnd cs = cs := by
  have hkept : (cs.reverse.dropWhile fun c => decide (c ≤ ' ')) = cs.reverse := by
    cases hcs : cs.reverse with
    | nil => rfl
    | cons c rest =>
      have hc : ' ' < c := h c (List.mem_reverse.1 (hcs ▸ List.mem_cons_self))
      exact List.dropWhile_cons_of_neg (by simpa using Char.not_le.2 hc)
  rw [trimmedEnd, hkept, List.reverse_reverse, List.filter_eq_self]
  intro c hc
  have hne : ∀ b : Char, b ≤ ' ' → c ≠ b := fun b hb heq =>
    absurd (h c hc) (Char.not_lt.2 (heq ▸ hb))
  simp [hne '\t' (by decide), hne '\n' (by decide), hne '\r' (by decide)]

/-- Behind a slash a text is trimmed at its end only. -/
theorem trimmed_append (base : String) : ∃ front : List Char, ∀ rest : String,
    trimmed (base ++ "/" ++ rest) = front ++ '/' :: trimmedEnd rest.toList := by
  have hdrop := @dropWhile_append_cons Char (fun c => decide (c ≤ ' ')) '/' (by decide)
  refine ⟨(base.toList.dropWhile fun c => decide (c ≤ ' ')).filter
    fun c => !(c = '\t' || c = '\n' || c = '\r'), fun rest => ?_⟩
  have hlist : (base ++ "/" ++ rest).toList = base.toList ++ '/' :: rest.toList := by simp
  rw [trimmed, hlist, hdrop, List.reverse_append, List.reverse_cons,
    List.append_assoc, List.singleton_append, hdrop, List.reverse_append,
    List.reverse_cons, List.reverse_reverse, List.append_assoc, List.singleton_append,
    List.filter_append]
  rfl

/-- With a slash behind it a base is the text of a URL that requests can be sent to, whose path is the
last of its parts. -/
structure IsBase (u : Url) (base : String) : Prop where
  read : ofText? (base ++ "/") = .ok u
  web : u.scheme = "http" ∨ u.scheme = "https"
  host : u.hasHost = true
  query : u.query? = none
  fragment : u.fragment? = none

/-! ### Schemes and authorities -/

theorem cutScheme_append {cs rest : List Char} {scheme : String}
    (h : cutScheme cs = some (scheme, rest)) (more : List Char) :
    cutScheme (cs ++ more) = some (scheme, rest ++ more) := by
  unfold cutScheme at h ⊢
  cases hcut : cut ':' cs with
  | none => simp [hcut] at h
  | some p =>
    obtain ⟨front, back⟩ := p
    obtain ⟨rfl, hnotMem⟩ := cut_eq_some hcut
    rw [List.append_assoc, List.cons_append, cut_append _ hnotMem]
    simp only [hcut, Option.bind_eq_bind, Option.bind_some] at h ⊢
    cases hfirst : front.head? with
    | none => simp [hfirst] at h
    | some c =>
      simp only [hfirst, Option.bind_some, Option.ite_none_right_eq_some, Option.some.injEq,
        Prod.mk.injEq] at h ⊢
      obtain ⟨hscheme, hname, rfl⟩ := h
      exact ⟨hscheme, hname, rfl⟩

/-- What comes after the scheme ends as the text does. -/
theorem cutScheme_concat {cs rest : List Char} {scheme : String}
    (h : cutScheme (cs ++ ['/']) = some (scheme, rest)) : ∃ front, rest = front ++ ['/'] := by
  unfold cutScheme at h
  cases hcut : cut ':' (cs ++ ['/']) with
  | none => simp [hcut] at h
  | some p =>
    obtain ⟨front, back⟩ := p
    obtain ⟨hsplit, -⟩ := cut_eq_some hcut
    have hback : back = rest := by
      simp only [hcut, Option.bind_eq_bind, Option.bind_some] at h
      cases hfirst : front.head? with
      | none => simp [hfirst] at h
      | some c =>
        simp only [hfirst, Option.bind_some, Option.ite_none_right_eq_some, Option.some.injEq,
          Prod.mk.injEq] at h
        exact h.2.2
    subst hback
    rcases List.eq_nil_or_concat' back with rfl | ⟨more, y, rfl⟩
    · -- the text would end with the colon
      obtain ⟨-, hlast⟩ := List.append_inj' hsplit rfl
      simp at hlast
    · rw [← List.cons_append, ← List.append_assoc] at hsplit
      obtain ⟨-, hlast⟩ := List.append_inj' hsplit rfl
      exact ⟨more, by rw [hlast]⟩

theorem ofAuthority?_eq_ok {scheme : String} {web : Bool} {path : List Char → Path} {cs : List Char}
    {u : Url} (h : ofAuthority? scheme web path cs = .ok u) :
    ∃ authority, Authority.ofText? scheme
        (!(cs.dropWhile fun c => !isSlash web c && inPathText c).isEmpty)
        (cs.takeWhile fun c => !isSlash web c && inPathText c) = .ok authority ∧
      u = ofRest scheme web (some authority) path
        (cs.dropWhile fun c => !isSlash web c && inPathText c) := by
  unfold ofAuthority? at h
  cases hauthority : Authority.ofText? scheme
      (!(cs.dropWhile fun c => !isSlash web c && inPathText c).isEmpty)
      (cs.takeWhile fun c => !isSlash web c && inPathText c) with
  | error e => simp [hauthority, bind, Except.bind] at h
  | ok authority =>
    simp only [hauthority, bind, Except.bind, pure, Except.pure] at h
    exact ⟨authority, rfl, (Except.ok.inj h).symm⟩

/-- What comes behind a path does not change the authority. -/
theorem ofAuthority?_append {scheme : String} {web : Bool} {path : List Char → Path} {cs : List Char}
    {authority : Authority} (hrest : (cs.dropWhile fun c => !isSlash web c && inPathText c) ≠ [])
    (h : Authority.ofText? scheme
        (!(cs.dropWhile fun c => !isSlash web c && inPathText c).isEmpty)
        (cs.takeWhile fun c => !isSlash web c && inPathText c) = .ok authority) (more : List Char) :
    ofAuthority? scheme web path (cs ++ more) = .ok (ofRest scheme web (some authority) path
      ((cs.dropWhile fun c => !isSlash web c && inPathText c) ++ more)) := by
  have hempty : (cs.dropWhile fun c => !isSlash web c && inPathText c).isEmpty = false := by
    simpa using hrest
  have hmore : ((cs.dropWhile fun c => !isSlash web c && inPathText c) ++ more).isEmpty = false := by
    rw [List.isEmpty_eq_false_iff]
    exact List.append_ne_nil_of_left_ne_nil hrest more
  rw [hempty] at h
  simp only [ofAuthority?, dropWhile_append_of_ne_nil hrest, takeWhile_append_of_ne_nil hrest, hmore, h]
  rfl

/-- A text that is neither query nor fragment is empty. -/
theorem eq_nil_of_tail {web : Bool} {cs : List Char}
    (hquery : (tail web (cs.dropWhile inPathText)).1 = none)
    (hfragment : (tail web (cs.dropWhile inPathText)).2 = none) : cs.dropWhile inPathText = [] := by
  cases hcs : cs.dropWhile inPathText with
  | nil => rfl
  | cons c rest =>
    rw [hcs] at hquery hfragment
    have hc : inPathText c = false := by
      have hhead := List.head?_dropWhile_not inPathText cs
      rw [hcs] at hhead
      simpa using hhead
    have hmark : c = '?' ∨ c = '#' := by
      by_contra hnot
      obtain ⟨hquestion, hhash⟩ := not_or.1 hnot
      simp [inPathText, hquestion, hhash] at hc
    -- a query shows as a query, with or without a fragment behind it
    rcases hmark with rfl | rfl
    · unfold tail at hquery hfragment
      cases hcut : cut '#' ('?' :: rest) with
      | none => simp [hcut] at hquery
      | some p => simp [hcut] at hfragment
    · simp [tail, cut] at hfragment

theorem scheme_ofFile? {cs : List Char} {u : Url} (h : ofFile? cs = .ok u) : u.scheme = "file" := by
  unfold ofFile? at h
  split at h
  · split at h
    · simp only [bind, Except.bind] at h
      split at h
      · obtain rfl := Except.ok.inj h
        rfl
      · split at h
        · contradiction
        · obtain rfl := Except.ok.inj h
          rfl
    · obtain rfl := Except.ok.inj h
      rfl
  · obtain rfl := Except.ok.inj h
    rfl

/-- A text that is read as a URL of the web is one of the web from its scheme on. -/
theorem ofText?_of_web {text : String} {u : Url} (h : ofText? text = .ok u)
    (hweb : u.scheme = "http" ∨ u.scheme = "https") :
    ∃ rest, cutScheme (trimmed text) = some (u.scheme, rest) ∧
      ofAuthority? u.scheme true webPath (rest.dropWhile (isSlash true)) = .ok u := by
  unfold ofText? at h
  split at h
  · contradiction
  · rename_i scheme rest hcut
    have hscheme : u.scheme = scheme := by
      split at h
      · rename_i hfile
        exact (scheme_ofFile? h).trans hfile.symm
      · split at h
        · obtain ⟨authority, -, rfl⟩ := ofAuthority?_eq_ok h
          rfl
        · split at h
          · obtain ⟨authority, -, rfl⟩ := ofAuthority?_eq_ok h
            rfl
          · obtain rfl := Except.ok.inj h
            rfl
    -- of the three readers only that of the web is left
    have hfile : ¬ scheme = "file" := by
      rintro rfl
      rcases hweb with hweb | hweb <;> exact absurd (hscheme.symm.trans hweb) (by decide)
    have hknown : (webServices.lookup scheme).isSome = true := by
      rcases hweb with hweb | hweb
      · rw [← hscheme, hweb]
        decide
      · rw [← hscheme, hweb]
        decide
    rw [if_neg hfile, if_pos hknown] at h
    exact ⟨rest, by rw [hcut, hscheme], hscheme ▸ h⟩

/-- And a text whose scheme is one of the web is read from its authority on. -/
theorem ofText?_eq {text : String} {scheme : String} {rest : List Char}
    (hweb : scheme = "http" ∨ scheme = "https") (hcut : cutScheme (trimmed text) = some (scheme, rest)) :
    ofText? text = ofAuthority? scheme true webPath (rest.dropWhile (isSlash true)) := by
  unfold ofText?
  rw [hcut]
  rcases hweb with rfl | rfl
  · rfl
  · rfl

/-! ### The text behind a base -/

/-- A path that goes on: it starts with a slash, it ends with one, perhaps the same, and holds no mark of
what comes after a path. -/
structure IsOpenPath (s : Char) (cs : List Char) : Prop where
  start : isSlash true s = true
  finish : cs = [] ∨ ∃ front, cs = front ++ ['/']
  plain : ∀ c ∈ s :: cs, inPathText c = true

/-- What is left of a text after its host goes on, if there is nothing in it but a path, with a slash at
the end. -/
theorem isOpenPath_of_dropWhile {text front : List Char}
    (hrest : text.dropWhile (fun c => !isSlash true c && inPathText c) = front ++ ['/'])
    (hplain : ∀ c ∈ front ++ ['/'], inPathText c = true) :
    ∃ s cs, front ++ ['/'] = s :: cs ∧ IsOpenPath s cs := by
  obtain ⟨s, cs, hcs⟩ := List.exists_cons_of_ne_nil (List.append_ne_nil_of_right_ne_nil front
    (List.cons_ne_nil '/' []))
  have hhead := List.head?_dropWhile_not (fun c => !isSlash true c && inPathText c) text
  rw [hrest, hcs] at hhead
  rw [hcs] at hplain
  refine ⟨s, cs, hcs, by simpa [hplain s List.mem_cons_self] using hhead, ?_, hplain⟩
  rcases List.eq_nil_or_concat' cs with hnil | ⟨more, c, rfl⟩
  · exact .inl hnil
  · rw [← List.cons_append] at hcs
    obtain ⟨-, hc⟩ := List.append_inj' hcs rfl
    exact .inr ⟨more, by rw [hc]⟩

/-- The segments of a path that goes on do not depend on those that come behind it. -/
theorem IsOpenPath.webPath_settle {s : Char} {cs : List Char} (h : IsOpenPath s cs) :
    ∃ before : List (List Char), (∀ p ∈ before, '/' ∉ p) ∧ ∀ more : List Char,
      webPath (s :: cs ++ more) =
        .segments ((Path.settle before (parts (isSlash true) more)).map (escaped inPath)) := by
  obtain ⟨ps, hslash, hparts⟩ : ∃ ps : List (List Char), (∀ p ∈ ps, '/' ∉ p) ∧ ∀ more,
      parts (isSlash true) (cs ++ more) = ps ++ parts (isSlash true) more := by
    rcases h.finish with rfl | ⟨front, rfl⟩
    · exact ⟨[], by simp, fun more => rfl⟩
    · refine ⟨parts (isSlash true) front, fun p hp hslash => ?_, fun more => ?_⟩
      · exact absurd (not_isSeparator_of_mem_parts hp '/' hslash) (by decide)
      · rw [List.append_assoc, List.singleton_append]
        exact parts_append_separator (by decide) front more
  refine ⟨ps.foldl Path.keep [], fun p hp => ?_, fun more => ?_⟩
  · rcases Path.mem_foldl_keep hp with hp | hp
    · exact absurd hp List.not_mem_nil
    · exact hslash p hp
  · rw [List.cons_append, webPath, if_pos h.start, Path.ofSegments, hparts,
      Path.settle_append _ _ (parts_ne_nil _ _)]

theorem IsOpenPath.webPath_append {s : Char} {cs : List Char} (h : IsOpenPath s cs) :
    ∃ before : List (List Char), ∀ more : List Char,
      (∀ p ∈ parts (isSlash true) more, Path.points p ≠ some 1 ∧ Path.points p ≠ some 2) →
      webPath (s :: cs ++ more) =
        .segments ((before ++ parts (isSlash true) more).map (escaped inPath)) := by
  obtain ⟨before, -, hsettle⟩ := h.webPath_settle
  refine ⟨before.reverse, fun more hmore => ?_⟩
  rw [hsettle, Path.settle_of_forall before hmore]

/-- **A base is settled up to its path**, which goes on with what comes behind. -/
theorem IsBase.opened {u : Url} {base : String} (hu : u.IsBase base) :
    ∃ (authority : Authority) (s : Char) (cs : List Char), u.authority? = some authority ∧
      IsOpenPath s cs ∧ u.path = webPath (s :: cs) ∧ ∀ rest : String,
        ofText? (base ++ "/" ++ rest) =
          .ok (ofRest u.scheme true (some authority) webPath (s :: cs ++ trimmedEnd rest.toList)) := by
  obtain ⟨front, htrim⟩ := trimmed_append base
  obtain ⟨y, hcut, hauthority⟩ := ofText?_of_web hu.read hu.web
  have hbase : trimmed (base ++ "/") = front ++ ['/'] := by
    have hnone := htrim ""
    rwa [String.append_empty] at hnone
  rw [hbase] at hcut
  obtain ⟨y', rfl⟩ := cutScheme_concat hcut
  -- the slash at the end of the base survives each of the cuts
  have hz : (y' ++ ['/']).dropWhile (isSlash true) ≠ [] := by
    intro hnil
    rw [hnil] at hauthority
    obtain ⟨authority, hempty, -⟩ := ofAuthority?_eq_ok hauthority
    have hhttp : ∀ scheme, scheme = "http" ∨ scheme = "https" →
        Authority.ofText? scheme false [] = .error (.host .empty) := by
      rintro scheme (rfl | rfl) <;> rfl
    exact absurd (hempty.symm.trans (hhttp u.scheme hu.web)) (by simp)
  obtain ⟨z', hz'⟩ := dropWhile_eq_concat hz
  rw [hz'] at hauthority
  obtain ⟨authority, hparsed, heq⟩ := ofAuthority?_eq_ok hauthority
  have hslash : (!isSlash true '/' && inPathText '/') = false := by decide
  obtain ⟨w', hw'⟩ := dropWhile_concat (p := fun c => !isSlash true c && inPathText c) hslash z'
  have hw : ((z' ++ ['/']).dropWhile fun c => !isSlash true c && inPathText c) ≠ [] := by
    rw [hw']
    exact List.append_ne_nil_of_right_ne_nil _ (List.cons_ne_nil _ _)
  -- a base has neither query nor fragment, so all that is left is its path
  have hpath : (w' ++ ['/']).dropWhile inPathText = [] := by
    rw [hw'] at heq
    refine @eq_nil_of_tail true _ ?_ ?_
    · rw [← hu.query, heq]
      rfl
    · rw [← hu.fragment, heq]
      rfl
  obtain ⟨s, cs, hcs, hopen⟩ := isOpenPath_of_dropWhile hw' (List.dropWhile_eq_nil_iff.1 hpath)
  rw [hcs] at hw'
  refine ⟨authority, s, cs, by rw [heq]; rfl, hopen, ?_, fun rest => ?_⟩
  · rw [heq, hw']
    show webPath ((s :: cs).takeWhile inPathText) = _
    rw [List.takeWhile_eq_self_iff.2 hopen.plain]
  · have htext := htrim rest
    rw [← List.singleton_append, ← List.append_assoc] at htext
    rw [ofText?_eq hu.web (htext ▸ cutScheme_append hcut _), dropWhile_append_of_ne_nil hz, hz',
      ofAuthority?_append hw hparsed, hw']

/-- **Any text behind a base** gives a URL of the same scheme and host. -/
theorem IsBase.ofText?_append {u : Url} {base : String} (hu : u.IsBase base) (rest : String) :
    ∃ url, ofText? (base ++ "/" ++ rest) = .ok url ∧ url.scheme = u.scheme ∧
      url.authority? = u.authority? := by
  obtain ⟨authority, s, cs, hauthority, -, -, hread⟩ := hu.opened
  exact ⟨_, hread rest, rfl, hauthority.symm⟩

/-- A text that means nothing special in a path: nothing in it is escaped, and no segment is made of
points. -/
structure IsPlain (rest : String) : Prop where
  plain : ∀ c ∈ rest.toList, inPath c = false ∧ c ≠ '\\'
  points : ∀ s ∈ parts (isSlash true) rest.toList, Path.points s ≠ some 1 ∧ Path.points s ≠ some 2

namespace IsPlain

variable {rest : String}

theorem lt_of_mem (h : IsPlain rest) : ∀ c ∈ rest.toList, ' ' < c := by
  intro c hc
  have hplain := (h.plain c hc).1
  simp only [inPath, inFragment, isControl, Bool.or_eq_false_iff, decide_eq_false_iff_not] at hplain
  refine Std.lt_of_le_of_ne (Char.not_lt.1 hplain.1.1.1) fun heq => ?_
  rw [← heq] at hplain
  exact absurd hplain.1.2 (by decide)

theorem inPathText_of_mem (h : IsPlain rest) : ∀ c ∈ rest.toList, inPathText c = true := by
  intro c hc
  have hplain := (h.plain c hc).1
  by_contra hnot
  have hmark : c = '?' ∨ c = '#' := by
    by_contra hneither
    obtain ⟨hquestion, hhash⟩ := not_or.1 hneither
    exact hnot (by simp [inPathText, hquestion, hhash])
  rcases hmark with rfl | rfl <;> exact absurd hplain (by decide)

/-- Its segments are written as they are. -/
theorem map_escaped (h : IsPlain rest) :
    (parts (isSlash true) rest.toList).map (escaped inPath) =
      (parts (isSlash true) rest.toList).map String.ofList := by
  refine List.map_congr_left fun p hp => ?_
  have hencode : Percent.encode inPath p = p := by
    have hall : ∀ c ∈ p, inPath c = false := fun c hc => (h.plain c (mem_of_mem_parts hp hc)).1
    rw [Percent.encode, List.flatMap_congr fun c hc => by rw [if_neg (by simp [hall c hc])],
      List.flatMap_singleton']
  rw [escaped, hencode]

end IsPlain

/-- **A plain text behind a base is added to the target**, and so is the query behind it. -/
theorem IsBase.target_append_query {u : Url} {base : String} (hu : u.IsBase base) {rest more : String}
    (hrest : IsPlain rest) (hmore : ∀ c ∈ more.toList, ' ' < c)
    (hmarked : more.toList.takeWhile inPathText = []) :
    ∃ url, ofText? (base ++ "/" ++ (rest ++ more)) = .ok url ∧ url.scheme = u.scheme ∧
      url.authority? = u.authority? ∧
      url.target = u.target ++ rest ++ marked "?" (tail true more.toList).1 := by
  obtain ⟨authority, s, cs, hauthority, hopen, hpath, hread⟩ := hu.opened
  obtain ⟨before, hwebPath⟩ := hopen.webPath_append
  have hall : ∀ c ∈ s :: cs ++ rest.toList, inPathText c = true := by
    intro c hc
    rcases List.mem_append.1 hc with hc | hc
    · exact hopen.plain c hc
    · exact hrest.inPathText_of_mem c hc
  have htrim : trimmedEnd (rest ++ more).toList = rest.toList ++ more.toList := by
    rw [String.toList_append]
    refine trimmedEnd_of_forall fun c hc => ?_
    rcases List.mem_append.1 hc with hc | hc
    · exact hrest.lt_of_mem c hc
    · exact hmore c hc
  have hdrop : more.toList.dropWhile inPathText = more.toList := by
    have hsplit := List.takeWhile_append_dropWhile (p := inPathText) (l := more.toList)
    rwa [hmarked, List.nil_append] at hsplit
  refine ⟨_, hread (rest ++ more), rfl, hauthority.symm, ?_⟩
  rw [htrim, ofRest, ← List.append_assoc, List.takeWhile_append_of_pos hall, hmarked, List.append_nil,
    List.dropWhile_append_of_pos hall, hdrop]
  -- the base has an empty segment where the text comes
  have hbase : u.target = (Path.segments ((before ++ [[]]).map (escaped inPath))).toText := by
    have hown := hwebPath [] (by simp [parts, Path.points])
    rw [List.append_nil] at hown
    rw [target, hu.query, pathText, hauthority, hpath, hown]
    simp [marked, parts]
  rw [hbase]
  show (webPath (s :: cs ++ rest.toList)).toText ++ marked "?" (tail true more.toList).1 = _
  rw [hwebPath _ hrest.points, List.map_append, List.map_append, hrest.map_escaped,
    Path.toText_segments_append, Path.toText_segments_append, Path.toText_parts, String.ofList_toList]
  · simp only [String.append_assoc]
    rfl
  · intro c hc hslash
    simpa [isSlash, (hrest.plain c hc).2] using hslash

theorem IsBase.target_append {u : Url} {base : String} (hu : u.IsBase base) {rest : String}
    (hrest : IsPlain rest) :
    ∃ url, ofText? (base ++ "/" ++ rest) = .ok url ∧ url.scheme = u.scheme ∧
      url.authority? = u.authority? ∧ url.target = u.target ++ rest := by
  have hchars : ∀ c ∈ "".toList, ' ' < c := by simp
  obtain ⟨url, hread, hscheme, hauthority, htarget⟩ := hu.target_append_query hrest hchars (by simp)
  rw [String.append_empty] at hread
  exact ⟨url, hread, hscheme, hauthority, htarget.trans (String.append_empty)⟩

end Url
end Http
end Gatehouse
