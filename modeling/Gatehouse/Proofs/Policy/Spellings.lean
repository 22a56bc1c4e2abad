import Gatehouse.Proofs.Service.Progress

/-!
# Spellings of version ids

The number in an id of a version is read as every count is: after a plus sign or without one, and with
zeros before it.  So `p.1`, `p.01` and `p.+1` all name the first version of `p`, but only the first of
them is the id that it has.  Who writes the id again after reading it does not see the difference; who
looks it up as it stands does.

1. **Counts** (`Spelling`).  A text is read as a count exactly if it is the count in a spelling, and no
   text is two counts or one count in two spellings.
2. **Ids** (`spelledId`).  The same for ids of versions.
3. **The service**.  Every spelling gets the version that it names.  The check of the references of an
   assignment knows one spelling only, and to all others it answers that there is no such version.
-/

namespace Gatehouse

/-! ## Counts -/

namespace Text

/-- How a count is spelled: with a plus sign or not, and with so many zeros before its digits. -/
structure Spelling where
  plus : Bool
  zeros : Nat
  deriving DecidableEq, Repr

namespace Spelling

/-- The spelling in which counts are written. -/
def plain : Spelling := ⟨false, 0⟩

/-- The sign of a spelling. -/
def sign (w : Spelling) : List Char := if w.plus then ['+'] else []

/-- The digits of a count, the zeros before it included. -/
def digits (w : Spelling) (n : Nat) : List Char := List.replicate w.zeros '0' ++ decimal n

/-- A count as it is spelled. -/
def text (w : Spelling) (n : Nat) : List Char := w.sign ++ w.digits n

variable {v w : Spelling} {m n : Nat}

theorem isDigit_of_mem_digits {c : Char} (h : c ∈ w.digits n) : c.isDigit = true := isDigit_of_mem_zeros h

theorem isDigits_digits (w : Spelling) (n : Nat) : isDigits (w.digits n) = true := by
  have hne : w.digits n ≠ [] := List.append_ne_nil_of_right_ne_nil _ (decimal_ne_nil n)
  exact isDigits_iff.2 ⟨hne, fun _ => isDigit_of_mem_digits⟩

@[simp] theorem ofDigits_digits (w : Spelling) (n : Nat) : ofDigits (w.digits n) = n := ofDigits_zeros _ n

/-- The sign is all that comes before the digits. -/
@[simp] theorem dropPlus_text (w : Spelling) (n : Nat) : dropPlus (w.text n) = w.digits n := by
  obtain ⟨plus, zeros⟩ := w
  cases plus with
  | true => rfl
  | false =>
    show dropPlus (digits ⟨false, zeros⟩ n) = digits ⟨false, zeros⟩ n
    unfold dropPlus
    split
    · rename_i cs hcs
      have hplus : '+'.isDigit = true := isDigit_of_mem_digits (hcs ▸ List.mem_cons_self)
      exact absurd hplus (by decide)
    · rfl

theorem point_notMem_text (w : Spelling) (n : Nat) : '.' ∉ w.text n := by
  intro h
  rcases List.mem_append.1 h with h | h
  · rw [sign] at h
    split at h
    · exact absurd (List.mem_singleton.1 h) (by decide)
    · exact absurd h List.not_mem_nil
  · exact absurd (isDigit_of_mem_digits h) (by decide)

/-- No text is two counts, and none is one count in two spellings. -/
theorem text_inj : v.text m = w.text n ↔ v = w ∧ m = n := by
  constructor
  · intro h
    have hdigits : v.digits m = w.digits n := by
      rw [← dropPlus_text, h, dropPlus_text]
    have hcount : m = n := by
      rw [← ofDigits_digits v m, hdigits, ofDigits_digits]
    have hzeros : v.zeros = w.zeros := by
      have hlength := congrArg List.length hdigits
      simp only [digits, List.length_append, List.length_replicate, hcount] at hlength
      omega
    have hsign : v.sign = w.sign := by
      rw [text, text, hdigits] at h
      exact List.append_cancel_right h
    have hplus : v.plus = w.plus := by
      revert hsign
      unfold sign
      cases v.plus <;> cases w.plus <;> decide
    cases v
    cases w
    exact ⟨congrArg₂ mk hplus hzeros, hcount⟩
  · rintro ⟨rfl, rfl⟩
    rfl

end Spelling

/-- Digits behind a count that is not zero go on with its digits. -/
theorem decimal_append {n : Nat} (hn : 0 < n) {cs : List Char} (hcs : ∀ c ∈ cs, c.isDigit = true) :
    decimal n ++ cs = decimal (Nat.ofDigitChars 10 cs n) := by
  induction cs generalizing n with
  | nil => rw [List.append_nil, Nat.ofDigitChars_nil]
  | cons c cs ih =>
    have hc := hcs c List.mem_cons_self
    calc decimal n ++ c :: cs
      _ = decimal n ++ decimal (digitValue c) ++ cs := by
        rw [decimal_digitValue hc, List.append_assoc, List.singleton_append]
      _ = decimal (10 * n + digitValue c) ++ cs := by
        rw [decimal, decimal, Nat.toDigits_append_toDigits (by decide) hn (digitValue_lt hc), decimal]
      _ = decimal (Nat.ofDigitChars 10 (c :: cs) n) := by
        rw [ih (by omega) fun d hd => hcs d (List.mem_cons_of_mem c hd), Nat.ofDigitChars_cons]
        rfl

/-- Digits are zeros and the count that they write. -/
theorem exists_zeros {cs : List Char} (hne : cs ≠ []) (hcs : ∀ c ∈ cs, c.isDigit = true) :
    ∃ zeros, cs = List.replicate zeros '0' ++ decimal (ofDigits cs) := by
  induction cs with
  | nil => contradiction
  | cons c cs ih =>
    have hrest := fun d hd => hcs d (List.mem_cons_of_mem c hd)
    rw [ofDigits_eq, Nat.ofDigitChars_cons]
    by_cases hc : c = '0'
    · subst hc
      by_cases hnil : cs = []
      -- the last zero is the count itself
      · subst hnil
        exact ⟨0, rfl⟩
      · obtain ⟨zeros, h⟩ := ih hnil hrest
        rw [ofDigits_eq] at h
        refine ⟨zeros + 1, ?_⟩
        rw [List.replicate_succ, List.cons_append]
        exact congrArg _ h
    · have hdigit := hcs c List.mem_cons_self
      have hpos : 0 < digitValue c := by
        apply Nat.pos_of_ne_zero
        intro h0
        have hchar := digitChar_digitValue hdigit
        rw [h0] at hchar
        exact hc hchar.symm
      refine ⟨0, ?_⟩
      have happend := decimal_append hpos hrest
      rw [decimal_digitValue hdigit] at happend
      rw [List.replicate_zero, List.nil_append, Nat.mul_zero, Nat.zero_add]
      exact happend

/-- A text starts with its sign, if it has one. -/
theorem exists_sign (cs : List Char) :
    ∃ plus : Bool, cs = (if plus then ['+'] else []) ++ dropPlus cs := by
  unfold dropPlus
  split
  · exact ⟨true, rfl⟩
  · exact ⟨false, rfl⟩

/-- **What is read as a count is the count in one of its spellings.** -/
theorem readCount?_eq_some_iff {limit n : Nat} {cs : List Char} :
    readCount? limit cs = some n ↔ n < limit ∧ ∃ w : Spelling, cs = w.text n := by
  constructor
  · intro h
    simp only [readCount?, Bool.and_eq_true, isDigits_iff, decide_eq_true_iff,
      Option.ite_none_right_eq_some, Option.some.injEq] at h
    obtain ⟨⟨⟨hne, hall⟩, hlimit⟩, rfl⟩ := h
    obtain ⟨plus, hplus⟩ := exists_sign cs
    obtain ⟨zeros, hzeros⟩ := exists_zeros hne hall
    refine ⟨hlimit, ⟨plus, zeros⟩, ?_⟩
    rw [Spelling.text, Spelling.digits, ← hzeros]
    exact hplus
  · rintro ⟨hlimit, w, rfl⟩
    simp [readCount?, Spelling.isDigits_digits, hlimit]

end Text

/-! ## Ids -/

namespace Policy

open Text

/-- The id of a version with its number as it is spelled. -/
def spelledId (policyId : String) (number : UInt32) (w : Spelling) : String :=
  String.ofList (policyId.toList ++ '.' :: w.text number.toNat)

@[simp] theorem spelledId_plain (policyId : String) (number : UInt32) :
    spelledId policyId number .plain = versionId policyId number := rfl

section Ids

variable {id p q : String} {m n : UInt32} {v w : Spelling}

/-- No id names two versions, and none names one version in two spellings. -/
theorem spelledId_inj : spelledId p m v = spelledId q n w ↔ p = q ∧ m = n ∧ v = w := by
  constructor
  · intro h
    have htext : p.toList ++ '.' :: v.text m.toNat = q.toList ++ '.' :: w.text n.toNat :=
      String.ofList_injective h
    have hcut := cutLast_append p.toList (v.point_notMem_text m.toNat)
    rw [htext, cutLast_append q.toList (w.point_notMem_text n.toNat), Option.some.injEq,
      Prod.mk.injEq] at hcut
    obtain ⟨hw, hn⟩ := Spelling.text_inj.1 hcut.2
    exact ⟨String.toList_inj.1 hcut.1.symm, UInt32.toNat_inj.1 hn.symm, hw.symm⟩
  · rintro ⟨rfl, rfl, rfl⟩
    rfl

/-- What comes before the last separator and after it is all of the text. -/
theorem eq_append_of_cutLast {separator : Char} {cs a b : List Char}
    (h : cutLast separator cs = some (a, b)) : cs = a ++ separator :: b := by
  obtain ⟨⟨x, y⟩, hcut, hxy⟩ := Option.map_eq_some_iff.1 h
  obtain ⟨rfl, rfl⟩ := Prod.mk.inj hxy
  have hcs := congrArg List.reverse (cut_eq_some hcut).1
  simpa using hcs

/-- **What is read as an id of a version is the id in one of its spellings.** -/
theorem ofVersionId?_eq_some_iff :
    ofVersionId? id = some (p, n) ↔ p ≠ "" ∧ ∃ w, id = spelledId p n w := by
  constructor
  · intro h
    obtain ⟨⟨before, after⟩, hcut, h⟩ := Option.bind_eq_some_iff.1 h
    dsimp only at h
    split at h
    · contradiction
    · rename_i hne
      obtain ⟨k, hread, h⟩ := Option.bind_eq_some_iff.1 h
      obtain ⟨rfl, rfl⟩ := Prod.mk.inj (Option.some.inj h)
      obtain ⟨hlimit, w, rfl⟩ := readCount?_eq_some_iff.1 hread
      refine ⟨by simpa using hne, w, ?_⟩
      rw [spelledId, String.toList_ofList, UInt32.toNat_ofNat_of_lt' hlimit,
        ← eq_append_of_cutLast hcut, String.ofList_toList]
  · rintro ⟨hp, w, rfl⟩
    have hne : p.toList ≠ [] := by simpa using hp
    have hread : readCount? versionLimit (w.text n.toNat) = some n.toNat :=
      readCount?_eq_some_iff.2 ⟨n.toNat_lt, w, rfl⟩
    simp [ofVersionId?, spelledId, cutLast_append _ (w.point_notMem_text n.toNat), hne, hread]

example : spelledId "a.b" 7 ⟨true, 2⟩ = "a.b.+007" ∧ ofVersionId? "a.b.+007" = some ("a.b", 7) := by
  decide +kernel

end Ids
end Policy

/-! ## The service -/

section Service

open Service Store Text

variable {svc : Service} {s t : State} {h : Holdings} {p id : String} {n : UInt32} {w : Spelling}

/-- A version is held under the id that it has, and not under another spelling of it. -/
theorem Service.State.Keeps.version?_spelledId (hs : s.Keeps h) {v : PolicyVersion}
    (hv : h.version? (Policy.spelledId p n w) = some v) : w = .plain := by
  obtain ⟨hmem, hid⟩ := hs.holds.version?_eq_some.1 hv
  have hplain := hs.sound.versionId v hmem
  rw [hid, ← Policy.spelledId_plain] at hplain
  exact (Policy.spelledId_inj.1 hplain).2.2

namespace Policy

/-- Reading a policy by a spelling of a version's id is reading it by this id. -/
theorem get_spelledId (hp : p ≠ "") : get (spelledId p n w) = get (versionId p n) := by
  have hparsed : ofVersionId? (spelledId p n w) = some (p, n) := ofVersionId?_eq_some_iff.2 ⟨hp, w, rfl⟩
  have hplain : ofVersionId? (versionId p n) = some (p, n) := ofVersionId?_eq_some_iff.2 ⟨hp, .plain, rfl⟩
  have hne : ∀ w, (spelledId p n w).isEmpty = false := by simp [spelledId]
  have hne' : (versionId p n).isEmpty = false := hne .plain
  simp only [get, getWithVersion, hparsed, hplain, hne, hne', Option.map_some, Option.getD_some]

/-- A version is given by its id exactly if it is held. -/
theorem exists_get_versionId_iff (hs : s.Keeps h) (hp : p ≠ "") :
    (∃ q t, Ends surroundings (get (versionId p n)) s (.ok q) t) ↔
      ∃ v, h.version? (versionId p n) = some v := by
  have hparsed : ofVersionId? (versionId p n) = some (p, n) := ofVersionId?_eq_some_iff.2 ⟨hp, .plain, rfl⟩
  have howner : ownerId (versionId p n) = p := by
    rw [ownerId, hparsed]
    rfl
  have hwanted : ∀ q, wantedId (versionId p n) q = versionId p n := by
    intro q
    rw [wantedId, howner, hparsed]
    rfl
  constructor
  · rintro ⟨q, t, he⟩
    obtain ⟨⟨found, v⟩, u, he, -⟩ := ends_bind_ok.1 he
    obtain ⟨-, -, hv, -⟩ := (ends_getWithVersion_ok hs).1 he
    exact ⟨v, hwanted found ▸ hv⟩
  · rintro ⟨v, hv⟩
    obtain ⟨hmem, hid⟩ := hs.holds.version?_eq_some.1 hv
    obtain ⟨q, hq, hqid⟩ := hs.sound.owned v hmem
    have hpolicy : v.policyId = p := (versionId_injective ((hs.sound.versionId v hmem).symm.trans hid)).1
    have hfound : h.policy? (ownerId (versionId p n)) = some q := by
      rw [howner]
      exact hs.holds.policy?_eq_some.2 ⟨hq, hqid.trans hpolicy⟩
    have hne : (versionId p n).isEmpty = false := by simp [versionId]
    have he := (ends_getWithVersion_ok hs).2 ⟨hne, hfound, (hwanted q).symm ▸ hv, rfl⟩
    exact ⟨_, _, ends_bind_ok.2 ⟨(q, v), _, he, ends_pure.2 ⟨rfl, rfl⟩⟩⟩

end Policy

/-- The references of an assignment to a version that is not held under the very id are refused. -/
theorem PolicyAssignment.ends_checkReferences_of_none (hs : s.Keeps h) {group : String}
    (hgroup : group ≠ "") (hparsed : Policy.ofVersionId? id = some (p, n)) (hnone : h.version? id = none)
    {r : Except ServiceError String} :
    Ends surroundings (checkReferences id group) s r t ↔
      r = .error (.notFound .policyVersion id) ∧ t = s.got .policies id := by
  have hid : id ≠ "" := by
    rintro rfl
    contradiction
  have hgiven : (!id.isEmpty && !group.isEmpty) = true := by simp [hid, hgroup]
  rw [checkReferences, hgiven, hparsed]
  show Ends surroundings (Policy.findVersion? id >>= _) s r t ↔ _
  rw [ends_findVersion?_bind hs, hnone]
  exact ends_throw

section Runs

open Policy PolicyAssignment

/-- **A version has its id in one spelling and is read by it in every spelling.**  The ids that are read
are the ids in their spellings, each of them in one way.  To read a policy by a version is the same in all
spellings, and finds the version if it is held; to look the version up under the very id finds it in the
plain spelling only, and in the others the check of references takes it for one that is not there. -/
theorem Policy.versionId_spellings {steps : List Step} (hrun : Run svc .initial steps s) :
    (∀ p n, p ≠ "" → ofVersionId? (versionId p n) = some (p, n)) ∧
    (∀ id p n, ofVersionId? id = some (p, n) ↔ p ≠ "" ∧ ∃ w, id = spelledId p n w) ∧
    (∀ p q m n v w, spelledId p m v = spelledId q n w ↔ p = q ∧ m = n ∧ v = w) ∧
    (∀ p n, versionId p n = spelledId p n .plain) ∧
    ∀ id p n, ofVersionId? id = some (p, n) →
      Policy.get id = Policy.get (versionId p n) ∧
      ((∃ v t, Ends surroundings (findVersion? id) s (.ok (some v)) t) ↔
        (∃ q t, Ends surroundings (Policy.get id) s (.ok q) t) ∧ versionId p n = id) ∧
      (versionId p n ≠ id → ∀ group r t, group ≠ "" →
        (Ends surroundings (checkReferences id group) s r t ↔
          r = .error (.notFound .policyVersion id) ∧ t = s.got .policies id)) := by
  obtain ⟨h, hs⟩ := hrun.keeps State.keeps_initial
  refine ⟨fun p n hp => ofVersionId?_eq_some_iff.2 ⟨hp, .plain, rfl⟩, fun _ _ _ => ofVersionId?_eq_some_iff,
    fun _ _ _ _ _ _ => spelledId_inj, fun _ _ => rfl, ?_⟩
  intro id p n hparsed
  obtain ⟨hp, w, rfl⟩ := ofVersionId?_eq_some_iff.1 hparsed
  refine ⟨get_spelledId hp, ⟨?_, ?_⟩, ?_⟩
  · rintro ⟨v, t, he⟩
    have hv := (Except.ok.inj ((ends_findVersion? hs).1 he).1).symm
    obtain rfl := hs.version?_spelledId hv
    exact ⟨(exists_get_versionId_iff hs hp).2 ⟨v, hv⟩, rfl⟩
  · rintro ⟨hget, hplain⟩
    rw [← hplain] at hget ⊢
    obtain ⟨v, hv⟩ := (exists_get_versionId_iff hs hp).1 hget
    exact ⟨v, _, (ends_findVersion? hs).2 ⟨hv ▸ rfl, rfl⟩⟩
  · intro hne group r t hgroup
    have hnone : h.version? (spelledId p n w) = none := by
      rw [Option.eq_none_iff_forall_ne_some]
      intro v hv
      obtain rfl := hs.version?_spelledId hv
      exact hne rfl
    exact ends_checkReferences_of_none hs hgroup hparsed hnone

/-- The first version of a policy is read by an id under which no assignment finds it. -/
theorem Policy.versionId_spellings_first : ∃ (steps : List Step) (s : State),
    Run lenient .initial steps s ∧
    (∃ q t, Ends surroundings (Policy.get (First.id ++ ".01")) s (.ok q) t) ∧
    ∃ t, Ends surroundings (checkReferences (First.id ++ ".01") "production") s
      (.error (.notFound .policyVersion (First.id ++ ".01"))) t := by
  obtain ⟨r, s, he, hs, -⟩ := First.exists_created
  have hrun : Run lenient .initial [⟨administrator, .createPolicy First.draft, .ok r, .initial, s⟩] s :=
    .cons (x := ⟨administrator, .createPolicy First.draft, .ok r, .initial, s⟩) he (.nil s)
  obtain ⟨-, -, -, -, hservice⟩ := versionId_spellings hrun
  have hparsed : ofVersionId? (First.id ++ ".01") = some (First.id, 1) := by decide +kernel
  obtain ⟨hget, -, hcheck⟩ := hservice _ _ _ hparsed
  have hheld : ∃ v, Holdings.version? { First.holdings with groups := [], assignments := [] }
      (versionId First.id 1) = some v := ⟨First.draft.version First.id First.time, by decide⟩
  refine ⟨_, s, hrun, ?_, _, (hcheck (by decide +kernel) "production" _ _ (by decide)).2 ⟨rfl, rfl⟩⟩
  rw [hget]
  exact (exists_get_versionId_iff hs (by decide)).2 hheld

/-- Not every id that is read as that of a version is the id of this version. -/
theorem Policy.not_forall_versionId_eq :
    ¬ ∀ id p n, ofVersionId? id = some (p, n) → versionId p n = id := by
  intro h
  have hparsed : ofVersionId? "p.01" = some ("p", 1) := by decide +kernel
  exact absurd (h _ _ _ hparsed) (by decide +kernel)

end Runs
end Service
end Gatehouse
