import Gatehouse.Proofs.Http.Target
import Gatehouse.Proofs.Text.Percent
import Mathlib.Algebra.Order.BigOperators.Group.List

/-!
# What a target spells

Texts that are pasted into an address behind a base are read again as segments of a path.  Here it is said
when the segments that come out are those that went in.

1. **Weights.**  The weight of some segments is the number of bytes that they are read as, and one for each.
   Settling points (`weight_settle_lt`) and reading escapes (`weight_lt_size`) only ever lose weight.
2. **Spelling** (`Spells`).  A target is taken apart again in one way, so it spells at most one list of
   segments.
3. **The crux** (`spells_settle_iff`).  Segments that come out as they went in have their weight, so nothing
   was lost on the way, and none of the steps did anything.
4. **Texts behind a base** (`IsBase.exists_settled`).  What is left of them as a path (`pathLeft`) is settled
   behind the segments of the base.
-/

namespace Gatehouse

open Text

namespace Http

open Percent

/-! ## Weights -/

namespace Path

/-- The bytes that some segments are read as, and one for each segment. -/
def weight (ss : List (List Char)) : Nat := (ss.map fun s => (decode s).length + 1).sum

theorem weight_cons (s : List Char) (ss : List (List Char)) :
    weight (s :: ss) = (decode s).length + 1 + weight ss := rfl

theorem weight_append (ss ts : List (List Char)) : weight (ss ++ ts) = weight ss + weight ts := by
  simp [weight]

theorem weight_reverse (ss : List (List Char)) : weight ss.reverse = weight ss := by
  simp [weight]

/-- The segment is `.` or `..`, however it is written. -/
def IsDots (s : List Char) : Prop := points s = some 1 ∨ points s = some 2

/-- Something is read of a segment of points. -/
theorem IsDots.length_decode_pos {s : List Char} (h : IsDots s) : 0 < (decode s).length := by
  cases s with
  | nil => simp [IsDots, points] at h
  | cons c cs =>
    rcases escapes_or c cs with ⟨x, y, back, v, w, rfl, rfl, hx, hy⟩ | ⟨-, hdecode⟩
    · rw [decode_escaped hx hy]
      exact Nat.succ_pos _
    · have hpos := length_utf8_pos c
      rw [hdecode, List.length_append]
      omega

/-- Points at the end leave an empty segment behind. -/
theorem IsDots.settle_singleton {s : List Char} (h : IsDots s) (kept : List (List Char)) :
    settle kept [s] = ([] :: keep kept s).reverse := by
  rw [settle_cons, if_pos]
  simpa [IsDots] using h

theorem settle_cons_of_not {kept rest : List (List Char)} {s : List Char} (h : IsDots s → rest ≠ []) :
    settle kept (s :: rest) = settle (keep kept s) rest := by
  rw [settle_cons, if_neg]
  simp only [Bool.and_eq_true, List.isEmpty_iff, Bool.or_eq_true, decide_eq_true_iff]
  exact fun ⟨hrest, hdots⟩ => h hdots hrest

theorem keep_of_not_isDots {s : List Char} (h : ¬IsDots s) (kept : List (List Char)) :
    keep kept s = s :: kept := by
  rw [IsDots, not_or] at h
  unfold keep
  split
  · exact absurd ‹_› h.1
  · exact absurd ‹_› h.2
  · rfl

/-- Points are not kept. -/
theorem IsDots.weight_keep_le {s : List Char} (h : IsDots s) (kept : List (List Char)) :
    weight (keep kept s) ≤ weight kept := by
  unfold keep
  rcases h with hpoints | hpoints
  · rw [hpoints]
    exact Nat.le_refl _
  · rw [hpoints]
    cases kept with
    | nil => exact Nat.le_refl _
    | cons k kept =>
      rw [weight_cons]
      exact Nat.le_add_left _ _

theorem weight_keep_le (kept : List (List Char)) (s : List Char) :
    weight (keep kept s) ≤ weight (s :: kept) := by
  by_cases h : IsDots s
  · exact Nat.le_trans (h.weight_keep_le kept) (weight_cons s kept ▸ Nat.le_add_left _ _)
  · rw [keep_of_not_isDots h]

/-- The weight of the segments that are left after points at the end. -/
theorem IsDots.weight_settle_singleton_lt {s : List Char} (h : IsDots s) (kept : List (List Char)) :
    weight (settle kept [s]) < weight kept + weight [s] := by
  have hpos := h.length_decode_pos
  have hkeep := h.weight_keep_le kept
  have hempty : (decode []).length = 0 := rfl
  rw [h.settle_singleton, weight_reverse, weight_cons, weight_cons, hempty]
  omega

theorem weight_settle_le (kept ss : List (List Char)) :
    weight (settle kept ss) ≤ weight kept + weight ss := by
  induction ss generalizing kept with
  | nil => exact Nat.le_of_eq (weight_reverse kept)
  | cons s rest ih =>
    by_cases hlast : IsDots s ∧ rest = []
    · obtain ⟨hdots, rfl⟩ := hlast
      exact Nat.le_of_lt (hdots.weight_settle_singleton_lt kept)
    · have hkeep := weight_keep_le kept s
      have hrest := ih (keep kept s)
      rw [settle_cons_of_not fun hdots hrest => hlast ⟨hdots, hrest⟩, weight_cons]
      rw [weight_cons] at hkeep
      omega

/-- **Settling loses weight** if a segment is made of points. -/
theorem weight_settle_lt {kept ss : List (List Char)} (h : ∃ s ∈ ss, IsDots s) :
    weight (settle kept ss) < weight kept + weight ss := by
  induction ss generalizing kept with
  | nil => simp at h
  | cons s rest ih =>
    by_cases hlast : IsDots s ∧ rest = []
    · obtain ⟨hdots, rfl⟩ := hlast
      exact hdots.weight_settle_singleton_lt kept
    · rw [settle_cons_of_not fun hdots hrest => hlast ⟨hdots, hrest⟩, weight_cons]
      by_cases hdots : IsDots s
      · -- the points themselves are lost
        have hkeep := hdots.weight_keep_le kept
        have hrest := weight_settle_le (keep kept s) rest
        omega
      · obtain ⟨t, ht, htdots⟩ := h
        have hmem : t ∈ rest := (List.mem_cons.1 ht).resolve_left fun heq => hdots (heq ▸ htdots)
        have hrest : weight (settle (s :: kept) rest) < weight (s :: kept) + weight rest :=
          ih ⟨t, hmem, htdots⟩
        rw [keep_of_not_isDots hdots]
        rw [weight_cons] at hrest
        omega

/-- The bytes of some segments, and one for each segment. -/
def size (ss : List (List Char)) : Nat := (ss.map fun s => (bytes s).length + 1).sum

theorem size_cons (s : List Char) (ss : List (List Char)) : size (s :: ss) = (bytes s).length + 1 + size ss :=
  rfl

theorem weight_le_size (ss : List (List Char)) : weight ss ≤ size ss :=
  List.sum_le_sum fun s _ => Nat.succ_le_succ (length_decode_le s)

/-- **Reading escapes loses weight.** -/
theorem weight_lt_size {ss : List (List Char)} (h : ∃ s ∈ ss, ¬IsUnescaped s) : weight ss < size ss := by
  refine List.sum_lt_sum _ _ (fun s _ => Nat.succ_le_succ (length_decode_le s)) ?_
  obtain ⟨s, hs, hescaped⟩ := h
  refine ⟨s, hs, Nat.succ_lt_succ ?_⟩
  rcases decode_eq_bytes_or_lt s with ⟨hunescaped, -⟩ | ⟨-, hlt⟩
  · exact absurd hunescaped hescaped
  · exact hlt

/-- The parts of a text have its bytes, and one for each separator and for the end. -/
theorem size_parts {isSeparator : Char → Bool} (h : ∀ c, isSeparator c = true → c = '/' ∨ c = '\\')
    (cs : List Char) : size (parts isSeparator cs) = (bytes cs).length + 1 := by
  induction cs with
  | nil => rfl
  | cons c cs ih =>
    by_cases hc : isSeparator c = true
    · have hone : (String.utf8EncodeChar c).length = 1 := by
        rcases h c hc with rfl | rfl <;> rfl
      have hnil : (bytes []).length = 0 := rfl
      rw [parts, if_pos hc, size_cons, ih, hnil, bytes_cons, List.length_append, hone]
      omega
    · cases hparts : parts isSeparator cs with
      | nil => exact absurd hparts (parts_ne_nil isSeparator cs)
      | cons p ps =>
        rw [hparts, size_cons] at ih
        rw [parts, if_neg hc, hparts, size_cons, bytes_cons, bytes_cons, List.length_append, List.length_append]
        omega

/-- The bytes of segments with slashes in between. -/
theorem size_segments {ss : List String} (hne : ss ≠ []) :
    size (ss.map String.toList) = (bytes ("/".intercalate ss).toList).length + 1 := by
  induction ss with
  | nil => contradiction
  | cons s ss ih =>
    cases ss with
    | nil => simp [size]
    | cons t ss =>
      have hslash : (bytes "/".toList).length = 1 := rfl
      rw [List.map_cons, size_cons, ih (List.cons_ne_nil t ss), String.intercalate_cons_cons,
        String.toList_append, String.toList_append, bytes_append, bytes_append, List.length_append,
        List.length_append, hslash]
      omega

theorem decode_encode_inPath (s : List Char) : decode (encode inPath s) = decode s :=
  decode_encode_of_hex rfl (fun _ hc => (plain_of_isAlphanum (isAlphanum_of_hexValue? hc)).1) s

/-- Escaping does not change the weight. -/
theorem weight_map_encode (ss : List (List Char)) : weight (ss.map (encode inPath)) = weight ss := by
  rw [weight, List.map_map]
  simp only [Function.comp_def, decode_encode_inPath]
  rfl

theorem mem_settle {kept ss : List (List Char)} {p : List Char} (h : p ∈ settle kept ss) :
    p = [] ∨ p ∈ kept ∨ p ∈ ss := by
  induction ss generalizing kept with
  | nil => exact .inr (.inl (List.mem_reverse.1 h))
  | cons s rest ih =>
    have hkeep : ∀ q ∈ keep kept s, q ∈ kept ∨ q ∈ s :: rest := by
      intro q hq
      rcases List.mem_cons.1 (mem_keep hq) with rfl | hq
      · exact .inr List.mem_cons_self
      · exact .inl hq
    rw [settle_cons] at h
    split at h
    · rcases List.mem_cons.1 (List.mem_reverse.1 h) with rfl | h
      · exact .inl rfl
      · exact .inr (hkeep p h)
    · rcases ih h with rfl | h | h
      · exact .inl rfl
      · exact .inr (hkeep p h)
      · exact .inr (.inr (List.mem_cons_of_mem s h))

end Path

/-! ## Spelling -/

/-- A character that separates nothing is in one of the parts. -/
theorem exists_mem_parts {isSeparator : Char → Bool} {c : Char} (hc : isSeparator c = false) {cs : List Char}
    (h : c ∈ cs) : ∃ p ∈ parts isSeparator cs, c ∈ p := by
  induction cs with
  | nil => exact absurd h List.not_mem_nil
  | cons d cs ih =>
    rw [parts]
    split
    · rename_i hd
      rcases List.mem_cons.1 h with rfl | h
      · rw [hc] at hd
        contradiction
      · obtain ⟨p, hp, hmem⟩ := ih h
        exact ⟨p, List.mem_cons_of_mem _ hp, hmem⟩
    · cases hparts : parts isSeparator cs with
      | nil => exact absurd hparts (parts_ne_nil isSeparator cs)
      | cons p ps =>
        rcases List.mem_cons.1 h with rfl | h
        · exact ⟨c :: p, List.mem_cons_self, List.mem_cons_self⟩
        · obtain ⟨q, hq, hmem⟩ := ih h
          rw [hparts] at hq
          rcases List.mem_cons.1 hq with rfl | hq
          · exact ⟨d :: q, List.mem_cons_self, List.mem_cons_of_mem d hmem⟩
          · exact ⟨q, List.mem_cons_of_mem _ hq, hmem⟩

/-- A text with a separator in it has more than one part. -/
theorem one_lt_length_parts {isSeparator : Char → Bool} {c : Char} (hc : isSeparator c = true) {cs : List Char}
    (h : c ∈ cs) : 1 < (parts isSeparator cs).length := by
  obtain ⟨a, b, rfl⟩ := List.append_of_mem h
  have ha := List.length_pos_iff.2 (parts_ne_nil isSeparator a)
  have hb := List.length_pos_iff.2 (parts_ne_nil isSeparator b)
  rw [parts_append_separator hc, List.length_append]
  omega

namespace Url

/-- Behind a front, the target spells some segments: up to the query it is cut at slashes into parts that
are read as these segments. -/
def Spells (front target : String) (ss : List String) : Prop :=
  ∃ rest : String, target = front ++ rest ∧
    (parts (· = '/') (rest.toList.takeWhile (· ≠ '?'))).map decode = ss.map fun s => bytes s.toList

/-- **A target spells one list of segments.** -/
theorem Spells.unique {front target : String} {ss ts : List String} (hs : Spells front target ss)
    (ht : Spells front target ts) : ss = ts := by
  obtain ⟨rest, rfl, hss⟩ := hs
  obtain ⟨rest', heq, hts⟩ := ht
  obtain rfl := (String.append_right_inj front).1 heq
  refine List.map_injective_iff.2 (fun s t hst => ?_) (hss.symm.trans hts)
  exact String.toList_inj.1 (bytes_injective hst)

/-- A path of segments as it is written. -/
def asPath (ss : List (List Char)) : String := (Path.segments (ss.map (escaped inPath))).toText

theorem slash_notMem_encode {cs : List Char} (h : '/' ∉ cs) : '/' ∉ encode inPath cs := by
  intro hc
  rcases mem_encode hc with ⟨hc, -⟩ | hc | ⟨n, hn, hc⟩
  · exact h hc
  · exact absurd hc (by decide)
  · exact absurd hc ((by decide : ∀ n < 16, '/' ≠ digit n) n hn)

theorem question_notMem_encode (cs : List Char) : '?' ∉ encode inPath cs := by
  intro hc
  rcases mem_encode hc with ⟨-, hc⟩ | hc | ⟨n, hn, hc⟩
  · exact absurd hc (by decide)
  · exact absurd hc (by decide)
  · exact absurd hc ((by decide : ∀ n < 16, '?' ≠ digit n) n hn)

theorem toText_eq_intercalate {ss : List String} (hne : ss ≠ []) :
    (Path.segments ss).toText = "/" ++ "/".intercalate ss := by
  induction ss with
  | nil => contradiction
  | cons s ss ih =>
    cases ss with
    | nil => simp [Path.toText]
    | cons t ss =>
      rw [Path.toText_segments_cons, ih (List.cons_ne_nil t ss), String.intercalate_cons_cons]
      simp only [String.append_assoc]

theorem asPath_append (ss ts : List (List Char)) : asPath (ss ++ ts) = asPath ss ++ asPath ts := by
  rw [asPath, List.map_append, Path.toText_segments_append]
  rfl

theorem parts_asPath {ss : List (List Char)} (h : ∀ s ∈ ss, '/' ∉ s) :
    parts (· = '/') (asPath ss).toList = [] :: ss.map (encode inPath) := by
  by_cases hne : ss = []
  · subst hne
    rfl
  · have hslash : ∀ s ∈ ss.map (escaped inPath), ∀ c ∈ s.toList, decide (c = '/') = false := by
      intro s hs c hc
      obtain ⟨cs, hcs, rfl⟩ := List.mem_map.1 hs
      rw [escaped, String.toList_ofList] at hc
      exact decide_eq_false fun heq => slash_notMem_encode (h cs hcs) (heq ▸ hc)
    rw [asPath, toText_eq_intercalate (by simpa using hne), String.toList_append]
    show parts (· = '/') ('/' :: ("/".intercalate (ss.map (escaped inPath))).toList) = _
    rw [parts, if_pos (by decide), parts_intercalate_of_forall (by decide) (by simpa using hne) hslash,
      List.map_map]
    simp only [Function.comp_def, escaped, String.toList_ofList]

theorem question_notMem_asPath {ss : List (List Char)} (h : ∀ s ∈ ss, '/' ∉ s) :
    ∀ c ∈ (asPath ss).toList, c ≠ '?' := by
  rintro c hc rfl
  obtain ⟨p, hp, hc⟩ : ∃ p ∈ parts (· = '/') (asPath ss).toList, '?' ∈ p := exists_mem_parts (by decide) hc
  rw [parts_asPath h] at hp
  rcases List.mem_cons.1 hp with rfl | hp
  · exact absurd hc List.not_mem_nil
  · obtain ⟨s, -, rfl⟩ := List.mem_map.1 hp
    exact question_notMem_encode s hc

theorem takeWhile_marked (query? : Option String) :
    (marked "?" query?).toList.takeWhile (· ≠ '?') = [] := by
  cases query? with
  | none => rfl
  | some q => rw [marked, String.toList_append]; rfl

/-- Up to the question mark a target is its path. -/
theorem takeWhile_asPath_append {ss : List (List Char)} (h : ∀ s ∈ ss, '/' ∉ s) (cs : List Char) :
    ((asPath ss).toList ++ cs).takeWhile (· ≠ '?') = (asPath ss).toList ++ cs.takeWhile (· ≠ '?') :=
  List.takeWhile_append_of_pos fun c hc => decide_eq_true (question_notMem_asPath h c hc)

/-- A target spells what comes behind the front, segment by segment. -/
theorem spells_asPath_iff {front whole : List (List Char)} (hfront : ∀ s ∈ front, '/' ∉ s)
    (hwhole : ∀ s ∈ whole, '/' ∉ s) (query? : Option String) {ss : List String} (hne : ss ≠ []) :
    Spells (asPath front ++ "/") (asPath whole ++ marked "?" query?) ss ↔
      ∃ tail : List (List Char), whole.map (encode inPath) = front.map (encode inPath) ++ tail ∧
        tail.map decode = ss.map fun s => bytes s.toList := by
  constructor
  · rintro ⟨rest, heq, hrest⟩
    refine ⟨_, ?_, hrest⟩
    -- up to the query both sides are paths, and so are their parts
    have hpath : (asPath whole).toList =
        (asPath front).toList ++ '/' :: rest.toList.takeWhile (· ≠ '?') := by
      have hlist : ((asPath whole).toList ++ (marked "?" query?).toList).takeWhile (· ≠ '?') =
          ((asPath front ++ "/").toList ++ rest.toList).takeWhile (· ≠ '?') := by
        rw [← String.toList_append, heq, String.toList_append]
      rwa [takeWhile_asPath_append hwhole, takeWhile_marked, List.append_nil, String.toList_append,
        List.append_assoc, takeWhile_asPath_append hfront] at hlist
    have hparts := congrArg (parts (· = '/')) hpath
    rw [parts_append_separator (by decide), parts_asPath hwhole, parts_asPath hfront] at hparts
    exact (List.cons.inj hparts).2
  · rintro ⟨tail, htail, hss⟩
    have htailne : tail.map String.ofList ≠ [] := by
      rintro hnil
      rw [List.map_eq_nil_iff.1 hnil] at hss
      exact hne (List.map_eq_nil_iff.1 hss.symm)
    have hmem : ∀ t ∈ tail, '/' ∉ t ∧ '?' ∉ t := by
      intro t ht
      obtain ⟨s, hs, rfl⟩ := List.mem_map.1 (htail ▸ List.mem_append_right _ ht)
      exact ⟨slash_notMem_encode (hwhole s hs), question_notMem_encode s⟩
    have hparts : parts (· = '/') ("/".intercalate (tail.map String.ofList)).toList = tail := by
      rw [parts_intercalate_of_forall (by decide) htailne, List.map_map]
      · simp [Function.comp_def]
      · intro s hs c hc
        obtain ⟨t, ht, rfl⟩ := List.mem_map.1 hs
        rw [String.toList_ofList] at hc
        exact decide_eq_false fun heq => (hmem t ht).1 (heq ▸ hc)
    have hquestion : ∀ c ∈ ("/".intercalate (tail.map String.ofList)).toList, decide (c ≠ '?') = true := by
      rintro c hc
      rcases mem_intercalate hc with rfl | ⟨s, hs, hc⟩
      · decide
      · obtain ⟨t, ht, rfl⟩ := List.mem_map.1 hs
        rw [String.toList_ofList] at hc
        exact decide_eq_true fun heq => (hmem t ht).2 (heq ▸ hc)
    refine ⟨"/".intercalate (tail.map String.ofList) ++ marked "?" query?, ?_, ?_⟩
    · have hsegments : whole.map (escaped inPath) = front.map (escaped inPath) ++ tail.map String.ofList := by
        have hmap := congrArg (List.map String.ofList) htail
        rwa [List.map_append, List.map_map, List.map_map] at hmap
      rw [asPath, hsegments, Path.toText_segments_append, toText_eq_intercalate htailne, asPath]
      simp only [String.append_assoc]
    · rw [String.toList_append, List.takeWhile_append_of_pos hquestion, takeWhile_marked, List.append_nil,
        hparts, hss]

/-- A text that keeps its weight on the way was not changed: nothing was taken off it, none of its segments
is made of points, and there is no escape in it. -/
theorem eq_of_le_weight_settle {kept : List (List Char)} {cs text : List Char} (hcs : cs.Sublist text)
    (h : Path.weight kept + ((bytes text).length + 1) ≤
      Path.weight (Path.settle kept (parts (isSlash true) cs))) :
    cs = text ∧ ∀ p ∈ parts (isSlash true) cs, ¬Path.IsDots p ∧ IsUnescaped p := by
  have hsettle := Path.weight_settle_le kept (parts (isSlash true) cs)
  have hread := Path.weight_le_size (parts (isSlash true) cs)
  have hslash : ∀ c, isSlash true c = true → c = '/' ∨ c = '\\' := by simp [isSlash]
  have hsize := Path.size_parts hslash cs
  have hsublist := length_bytes_of_sublist hcs
  have htext : cs = text := by
    rcases hsublist with hlt | heq
    · omega
    · exact heq
  subst htext
  refine ⟨rfl, fun p hp => ⟨fun hdots => ?_, ?_⟩⟩
  · have hlt : Path.weight (Path.settle kept (parts (isSlash true) cs)) <
        Path.weight kept + Path.weight (parts (isSlash true) cs) := Path.weight_settle_lt ⟨p, hp, hdots⟩
    omega
  · by_contra hescaped
    have hlt := Path.weight_lt_size ⟨p, hp, hescaped⟩
    omega

/-- There is a separator in none of the segments if there are no more parts than segments. -/
theorem not_isSeparator_of_length {isSeparator : Char → Bool} {ss : List String}
    (h : (ss.flatMap fun s => parts isSeparator s.toList).length = ss.length) :
    ∀ s ∈ ss, ∀ c ∈ s.toList, isSeparator c = false := by
  intro s hs c hc
  by_contra hslash
  have hlt : (ss.map fun _ => 1).sum < (ss.map fun s => (parts isSeparator s.toList).length).sum := by
    refine List.sum_lt_sum _ _ (fun t _ => List.length_pos_iff.2 (parts_ne_nil isSeparator t.toList)) ?_
    exact ⟨s, hs, one_lt_length_parts (by simpa using hslash) hc⟩
  rw [← List.length_flatMap, h] at hlt
  simp at hlt

/-- **Nothing is lost on the way of segments that come out as they went in.**  Here `cs` is what was left of
their text, and `kept` are the segments before them. -/
theorem spells_settle_iff {kept : List (List Char)} (hkept : ∀ s ∈ kept, '/' ∉ s) (query? : Option String)
    {ss : List String} (hne : ss ≠ []) {cs : List Char} (hcs : cs.Sublist ("/".intercalate ss).toList) :
    Spells (asPath kept.reverse ++ "/")
        (asPath (Path.settle kept (parts (isSlash true) cs)) ++ marked "?" query?) ss ↔
      cs = ("/".intercalate ss).toList ∧ ∀ s ∈ ss, (∀ c ∈ s.toList, isSlash true c = false) ∧
        ¬Path.IsDots s.toList ∧ IsUnescaped s.toList := by
  have hparts : ∀ p ∈ parts (isSlash true) cs, '/' ∉ p := fun p hp hslash =>
    absurd (not_isSeparator_of_mem_parts hp '/' hslash) (by decide)
  have hsettle : ∀ p ∈ Path.settle kept (parts (isSlash true) cs), '/' ∉ p := by
    intro p hp
    rcases Path.mem_settle hp with rfl | hp | hp
    · exact List.not_mem_nil
    · exact hkept p hp
    · exact hparts p hp
  rw [spells_asPath_iff (fun p hp => hkept p (List.mem_reverse.1 hp)) hsettle query? hne]
  constructor
  · rintro ⟨tail, htail, hss⟩
    have hlength : tail.length = ss.length := by
      have h := congrArg List.length hss
      rwa [List.length_map, List.length_map] at h
    have hweight : Path.weight tail = (bytes ("/".intercalate ss).toList).length + 1 := by
      have h := congrArg (fun l : List (List UInt8) => (l.map fun b => b.length + 1).sum) hss
      simp only [List.map_map] at h
      rw [← Path.size_segments hne, Path.size, List.map_map]
      exact h
    have hwhole : Path.weight (Path.settle kept (parts (isSlash true) cs)) =
        Path.weight kept + Path.weight tail := by
      rw [← Path.weight_map_encode, htail, Path.weight_append, Path.weight_map_encode, Path.weight_reverse]
    have hkept : Path.weight kept + ((bytes ("/".intercalate ss).toList).length + 1) ≤
        Path.weight (Path.settle kept (parts (isSlash true) cs)) := by rw [hwhole, hweight]
    obtain ⟨rfl, hkeep⟩ := eq_of_le_weight_settle hcs hkept
    -- the segments are all kept, so there are as many parts as segments
    have hlengths := congrArg List.length htail
    rw [Path.settle_of_forall kept fun p hp => not_or.1 (hkeep p hp).1, parts_intercalate (by decide) hne,
      List.length_map, List.length_append, List.length_append, List.length_map] at hlengths
    have hslash : ∀ s ∈ ss, ∀ c ∈ s.toList, isSlash true c = false := not_isSeparator_of_length (by omega)
    rw [parts_intercalate_of_forall (by decide) hne hslash] at hkeep
    exact ⟨rfl, fun s hs => ⟨hslash s hs, hkeep s.toList (List.mem_map_of_mem hs)⟩⟩
  · rintro ⟨rfl, hss⟩
    have hpath : parts (isSlash true) ("/".intercalate ss).toList = ss.map String.toList :=
      parts_intercalate_of_forall (by decide) hne fun s hs => (hss s hs).1
    refine ⟨(ss.map String.toList).map (encode inPath), ?_, ?_⟩
    · rw [hpath, Path.settle_of_forall, List.map_append]
      intro p hp
      obtain ⟨s, hs, rfl⟩ := List.mem_map.1 hp
      exact not_or.1 (hss s hs).2.1
    · rw [List.map_map, List.map_map]
      refine List.map_congr_left fun s hs => ?_
      rw [Function.comp_apply, Function.comp_apply, Path.decode_encode_inPath, decode_of_isUnescaped (hss s hs).2.2]

/-! ## Texts behind a base -/

/-- What is left, as a path, of a text behind a base. -/
def pathLeft (cs : List Char) : List Char := (trimmedEnd cs).takeWhile inPathText

/-- Up to what is no blank only line breaks and tabs are taken out. -/
theorem trimmedEnd_append_cons {c : Char} (hc : ' ' < c) (cs ds : List Char) :
    trimmedEnd (cs ++ c :: ds) =
      (cs.filter fun c => !(c = '\t' || c = '\n' || c = '\r')) ++ c :: trimmedEnd ds := by
  have hblank : decide (c ≤ ' ') = false := decide_eq_false (Char.not_le.2 hc)
  have hbreak : ∀ b, b ≤ ' ' → c ≠ b := by
    rintro b hb rfl
    exact Char.not_le.2 hc hb
  have hkept : (!(decide (c = '\t') || decide (c = '\n') || decide (c = '\r'))) = true := by
    simp [hbreak '\t' (by decide), hbreak '\n' (by decide), hbreak '\r' (by decide)]
  rw [trimmedEnd, List.reverse_append, List.reverse_cons, List.append_assoc, List.singleton_append,
    dropWhile_append_cons (p := fun c => decide (c ≤ ' ')) hblank, List.reverse_append, List.reverse_cons, List.reverse_reverse,
    List.append_assoc, List.singleton_append, List.filter_append, 
    List.filter_cons_of_pos (p := fun c => !(c = '\t' || c = '\n' || c = '\r')) hkept]
  rfl

theorem takeWhile_filter_eq_iff {p q : Char → Bool} {cs : List Char} :
    (cs.filter q).takeWhile p = cs ↔ ∀ c ∈ cs, p c = true ∧ q c = true := by
  constructor
  · intro h c hc
    rw [← h] at hc
    exact ⟨List.mem_takeWhile_imp hc, (List.mem_filter.1 ((List.takeWhile_sublist p).subset hc)).2⟩
  · intro h
    rw [List.filter_eq_self.2 fun c hc => (h c hc).2, List.takeWhile_eq_self_iff.2 fun c hc => (h c hc).1]

/-- What stays in a path. -/
theorem isKept_iff {c : Char} :
    (inPathText c = true ∧ (!(c = '\t' || c = '\n' || c = '\r')) = true) ↔
      c ∉ ['?', '#', '\t', '\n', '\r'] := by
  simp [inPathText, and_assoc]

theorem reverse_dropWhile_eq_iff {cs : List Char} :
    (cs.reverse.dropWhile fun c => decide (c ≤ ' ')).reverse = cs ↔ ∀ c, cs.getLast? = some c → ' ' < c := by
  rw [List.reverse_eq_iff, ← List.head?_reverse]
  cases cs.reverse with
  | nil => simp
  | cons d ds =>
    by_cases hd : d ≤ ' '
    · have hshorter := (List.dropWhile_sublist (fun c => decide (c ≤ ' ')) (l := ds)).length_le
      rw [List.dropWhile_cons_of_pos (by simpa using hd)]
      constructor
      · intro h
        rw [h, List.length_cons] at hshorter
        omega
      · intro h
        exact absurd hd (Char.not_le.2 (h d rfl))
    · rw [List.dropWhile_cons_of_neg (by simpa using hd)]
      simpa using Char.not_le.1 hd

theorem reverse_dropWhile_sublist (cs : List Char) :
    ((cs.reverse.dropWhile fun c => decide (c ≤ ' ')).reverse).Sublist cs := by
  have h := (List.dropWhile_sublist (fun c => decide (c ≤ ' ')) (l := cs.reverse)).reverse
  rwa [List.reverse_reverse] at h

theorem pathLeft_sublist (cs : List Char) : (pathLeft cs).Sublist cs :=
  ((List.takeWhile_sublist _).trans List.filter_sublist).trans (reverse_dropWhile_sublist cs)

/-- Nothing is taken off a text without marks and line breaks that does not end with a blank. -/
theorem pathLeft_eq_iff {cs : List Char} :
    pathLeft cs = cs ↔ (∀ c ∈ cs, c ∉ ['?', '#', '\t', '\n', '\r']) ∧ ∀ c, cs.getLast? = some c → ' ' < c := by
  simp only [← isKept_iff, ← takeWhile_filter_eq_iff, ← reverse_dropWhile_eq_iff]
  constructor
  · intro h
    have hends : (cs.reverse.dropWhile fun c => decide (c ≤ ' ')).reverse = cs := by
      refine (reverse_dropWhile_sublist cs).antisymm ?_
      rw [pathLeft, trimmedEnd] at h
      nth_rewrite 1 [← h]
      exact (List.takeWhile_sublist _).trans List.filter_sublist
    rw [pathLeft, trimmedEnd, hends] at h
    exact ⟨h, hends⟩
  · rintro ⟨h, hends⟩
    rw [pathLeft, trimmedEnd, hends, h]

/-- Before a query a text may end with blanks. -/
theorem pathLeft_question (cs ds : List Char) :
    pathLeft (cs ++ '?' :: ds) =
      (cs.filter fun c => !(c = '\t' || c = '\n' || c = '\r')).takeWhile inPathText := by
  rw [pathLeft, trimmedEnd_append_cons (by decide), List.takeWhile_append]
  split
  · rename_i hall
    rw [List.takeWhile_cons_of_neg (by decide), List.append_nil]
    exact ((List.takeWhile_sublist inPathText).eq_of_length hall).symm
  · rfl

/-- **Behind a base the path goes on** with what is left of the text, once its points are settled. -/
theorem IsBase.exists_settled {u : Url} {base : String} (hu : u.IsBase base) :
    ∃ before : List (List Char), (∀ p ∈ before, '/' ∉ p) ∧ u.target = asPath before.reverse ++ "/" ∧
      ∀ rest : String, ∃ (url : Url) (query? : Option String), ofText? (base ++ "/" ++ rest) = .ok url ∧
        url.scheme = u.scheme ∧ url.authority? = u.authority? ∧ url.target =
          asPath (Path.settle before (parts (isSlash true) (pathLeft rest.toList))) ++ marked "?" query? := by
  obtain ⟨authority, s, cs, hauthority, hopen, hpath, hread⟩ := hu.opened
  obtain ⟨before, hslash, hwebPath⟩ := hopen.webPath_settle
  refine ⟨before, hslash, ?_, fun rest => ?_⟩
  · -- the base has an empty segment where the text comes
    have hown := hwebPath []
    have hsettle : Path.settle before (parts (isSlash true) []) = before.reverse ++ [[]] :=
      Path.settle_of_forall before (by simp [parts, Path.points])
    rw [List.append_nil, hsettle] at hown
    rw [target, hu.query, pathText, hauthority, hpath, hown]
    show asPath (before.reverse ++ [[]]) ++ marked "?" none = _
    rw [asPath_append]
    exact String.append_empty
  · refine ⟨_, (tail true ((s :: cs ++ trimmedEnd rest.toList).dropWhile inPathText)).1, hread rest, rfl,
      hauthority.symm, ?_⟩
    show (webPath ((s :: cs ++ trimmedEnd rest.toList).takeWhile inPathText)).toText ++ _ = _
    rw [List.takeWhile_append_of_pos hopen.plain, hwebPath]
    rfl

end Url
end Http
end Gatehouse
