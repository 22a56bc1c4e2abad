/-!
# Cutting texts

Ids and addresses are parts with separators between them.  Cutting at the first or at the last
separator takes such a text apart in one way only.
-/

namespace Gatehouse.Text

/-- What comes before the first separator and what comes after it. -/
def cut (separator : Char) : List Char → Option (List Char × List Char)
  | [] => none
  | c :: cs =>
    if c = separator then some ([], cs)
    else (cut separator cs).map fun p => (c :: p.1, p.2)

/-- What comes before the last separator and what comes after it. -/
def cutLast (separator : Char) (cs : List Char) : Option (List Char × List Char) :=
  (cut separator cs.reverse).map fun p => (p.2.reverse, p.1.reverse)

/-- The text after a given start. -/
def dropStart (start : String) (cs : List Char) : Option (List Char) :=
  if start.toList.isPrefixOf cs then some (cs.drop start.length) else none

/-- The parts between separators. -/
def parts (isSeparator : Char → Bool) : List Char → List (List Char)
  | [] => [[]]
  | c :: cs =>
    if isSeparator c then [] :: parts isSeparator cs
    else
      match parts isSeparator cs with
      | [] => [[c]]
      | p :: ps => (c :: p) :: ps

/-- A text is its start and what comes after it. -/
theorem dropStart_eq_some {start text : String} {rest : List Char}
    (h : dropStart start text.toList = some rest) : text = start ++ String.ofList rest := by
  unfold dropStart at h
  split at h
  · rename_i hprefix
    obtain rfl := Option.some.inj h
    have htext := List.prefix_iff_eq_append.1 (List.isPrefixOf_iff_prefix.1 hprefix)
    rw [String.length_toList] at htext
    rw [← String.toList_inj, String.toList_append, String.toList_ofList, htext]
  · contradiction

/-- A text has at least one part. -/
theorem parts_ne_nil (isSeparator : Char → Bool) (cs : List Char) : parts isSeparator cs ≠ [] := by
  cases cs with
  | nil => simp [parts]
  | cons c cs =>
    rw [parts]
    split
    · simp
    · split <;> simp

/-- No part holds a separator. -/
theorem not_isSeparator_of_mem_parts {isSeparator : Char → Bool} {cs p : List Char}
    (h : p ∈ parts isSeparator cs) : ∀ c ∈ p, isSeparator c = false := by
  induction cs generalizing p with
  | nil => simp [parts] at h; simp [h]
  | cons c cs ih =>
    rw [parts] at h
    split at h
    · rcases List.mem_cons.1 h with rfl | h
      · simp
      · exact ih h
    · rename_i hc
      split at h
      · rename_i hp
        exact absurd hp (parts_ne_nil isSeparator cs)
      · rename_i q qs hp
        rcases List.mem_cons.1 h with rfl | h
        · intro d hd
          rcases List.mem_cons.1 hd with rfl | hd
          · simpa using hc
          · exact ih (hp ▸ List.mem_cons_self) d hd
        · exact ih (hp ▸ List.mem_cons_of_mem q h)

/-- A text without separators is its only part. -/
theorem parts_of_forall {isSeparator : Char → Bool} {cs : List Char}
    (h : ∀ c ∈ cs, isSeparator c = false) : parts isSeparator cs = [cs] := by
  induction cs with
  | nil => rfl
  | cons c cs ih =>
    rw [parts, if_neg (by simp [h c List.mem_cons_self]),
      ih fun d hd => h d (List.mem_cons_of_mem c hd)]

/-- What comes before the first separator is the first part. -/
theorem parts_append {isSeparator : Char → Bool} {cs : List Char} {s : Char} (rest : List Char)
    (h : ∀ c ∈ cs, isSeparator c = false) (hs : isSeparator s = true) :
    parts isSeparator (cs ++ s :: rest) = cs :: parts isSeparator rest := by
  induction cs with
  | nil => simp [parts, hs]
  | cons c cs ih =>
    rw [List.cons_append, parts, if_neg (by simp [h c List.mem_cons_self]),
      ih fun d hd => h d (List.mem_cons_of_mem c hd)]

/-- A cut loses the separator only, and the first part has none. -/
theorem cut_eq_some {separator : Char} {cs a b : List Char} (h : cut separator cs = some (a, b)) :
    cs = a ++ separator :: b ∧ separator ∉ a := by
  induction cs generalizing a b with
  | nil => simp [cut] at h
  | cons c cs ih =>
    by_cases hc : c = separator
    · simp [cut, hc] at h
      obtain ⟨rfl, rfl⟩ := h
      simp [hc]
    · simp [cut, hc] at h
      obtain ⟨a', h, rfl⟩ := h
      obtain ⟨rfl, hmem⟩ := ih h
      simp [hmem, Ne.symm hc]

/-- Parts without a separator in the first are put together and cut apart again. -/
theorem cut_append {separator : Char} {a : List Char} (b : List Char) (h : separator ∉ a) :
    cut separator (a ++ separator :: b) = some (a, b) := by
  induction a with
  | nil => simp [cut]
  | cons c a ih =>
    simp only [List.mem_cons, not_or] at h
    simp [cut, Ne.symm h.1, ih h.2]

end Gatehouse.Text
