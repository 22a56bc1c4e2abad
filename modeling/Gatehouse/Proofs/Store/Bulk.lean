import Gatehouse.Proofs.Store.Memory

/-!
# A bulk request is its changes one after the other

Changes of one bulk request see each other: an id that one of them creates may be updated or deleted
by the next.  So a bulk request is compared with the same changes as requests of their own, made in
their order, of whatever state the store is in.

* **If none is refused** (`writeEach` answers a store), the bulk request makes the same store of it:
  `Agrees` says that all indices and the counter of turns are the same, and `Agrees.perform` that no
  later request can tell two such stores apart.
* **If one is refused**, so is the bulk request.  It names the positions that are refused when those
  before them have been tried (`refused?`), and leaves the very store it found.

`applyAll_eq` is the one induction.  It runs over the changes, and the index on which the bulk request
works is always that of the store to which the single requests lead (`tried`).
-/

namespace Gatehouse.Store

/-- The failure of a change at a position of a bulk request. -/
def Write.item (name : String) (position : Nat) (w : Write) : ItemError :=
  ⟨position, w.id, (w.refusal name).message⟩

/-- A change is refused for one reason only. -/
theorem Index.apply_error {name : String} {i : Index} {turns : Nat} {w : Write} {e : StoreError}
    (h : i.apply name turns w = .error e) : e = w.refusal name := by
  cases w <;>
    · simp only [apply] at h
      split at h
      all_goals first | contradiction | exact (Except.error.inj h).symm

namespace Memory

variable {m later : Memory} {name : String} {w : Write} {ws : List Write}

/-! ## One change after the other -/

/-- The store after the changes of a list, as long as none is refused. -/
def writeEach (m : Memory) (name : String) (ws : List Write) : Except StoreError Memory :=
  ws.foldlM (fun m w => m.write name w) m

/-- The store after the changes of a list, where those that are refused are passed over. -/
def tried (m : Memory) (name : String) (ws : List Write) : Memory :=
  ws.foldl (fun m w => (perform (.write name w) m).2) m

/-- The change at a position, if it is refused once those before it have been tried. -/
def refused? (m : Memory) (name : String) (ws : List Write) (position : Nat) : Option Write :=
  ws[position]?.filter fun w => !(perform (.write name w) (m.tried name (ws.take position))).1.isOk

/-- The failures of the changes that are refused, in the order of their positions.  The first change
of the list stands at the given position. -/
def refusals (m : Memory) (name : String) (position : Nat) (ws : List Write) : List ItemError :=
  (List.range ws.length).filterMap fun k =>
    (m.refused? name ws k).map (Write.item name (position + k))

/-- What becomes of one change. -/
theorem write_cases (m : Memory) (name : String) (w : Write) :
    (∃ i turns, (m.index name).apply name m.turns w = .ok (i, turns) ∧
      m.write name w = .ok (m.setIndex name i turns)) ∨
    ((m.index name).apply name m.turns w = .error (w.refusal name) ∧
      m.write name w = .error (w.refusal name)) := by
  cases h : (m.index name).apply name m.turns w with
  | ok r => exact .inl ⟨r.1, r.2, rfl, by rw [write, h]; rfl⟩
  | error e =>
    obtain rfl := Index.apply_error h
    exact .inr ⟨rfl, by rw [write, h]; rfl⟩

theorem perform_write_ok (h : m.write name w = .ok later) :
    perform (.write name w) m = (.ok (), later) := by
  rw [perform, h, commit]

theorem perform_write_error {e : StoreError} (h : m.write name w = .error e) :
    perform (.write name w) m = (.error e, m) := by
  rw [perform, h, commit]

/-- A change is refused for the one reason that there is. -/
theorem perform_write_refused : (perform (.write name w) m).1 = .error (w.refusal name) ↔
    (perform (.write name w) m).1.isOk = false := by
  obtain ⟨i, turns, -, h⟩ | ⟨-, h⟩ := m.write_cases name w
  · simp [perform_write_ok h, Except.isOk, Except.toBool]
  · simp [perform_write_error h, Except.isOk, Except.toBool]

theorem tried_cons_ok (h : m.write name w = .ok later) (ws : List Write) :
    m.tried name (w :: ws) = later.tried name ws := by
  rw [tried, List.foldl_cons, perform_write_ok h, tried]

theorem tried_cons_error {e : StoreError} (h : m.write name w = .error e) (ws : List Write) :
    m.tried name (w :: ws) = m.tried name ws := by
  rw [tried, List.foldl_cons, perform_write_error h, tried]

/-- The positions behind the first are those of the store after the first change. -/
theorem refusals_cons (m : Memory) (name : String) (position : Nat) (w : Write) (ws : List Write) :
    m.refusals name position (w :: ws) =
      ((m.refused? name (w :: ws) 0).map (Write.item name position)).toList ++
        (perform (.write name w) m).2.refusals name (position + 1) ws := by
  have hrest : ∀ k, m.refused? name (w :: ws) (k + 1) =
      (perform (.write name w) m).2.refused? name ws k := fun _ => rfl
  have hplace : ∀ k, Write.item name (position + (k + 1)) = Write.item name (position + 1 + k) :=
    fun k => congrArg (Write.item name) (Nat.add_right_comm position k 1)
  rw [refusals, refusals, List.length_cons, List.range_succ_eq_map, List.filterMap_cons,
    List.filterMap_map]
  simp only [Function.comp_apply, Nat.succ_eq_add_one, hrest, hplace, Nat.add_zero]
  cases m.refused? name (w :: ws) 0 <;> rfl

theorem refusals_cons_ok (h : m.write name w = .ok later) (position : Nat) (ws : List Write) :
    m.refusals name position (w :: ws) = later.refusals name (position + 1) ws := by
  have hfirst : m.refused? name (w :: ws) 0 = none := by
    simp [refused?, tried, perform_write_ok h, Except.isOk, Except.toBool]
  rw [refusals_cons, hfirst, perform_write_ok h]
  rfl

theorem refusals_cons_error {e : StoreError} (h : m.write name w = .error e) (position : Nat)
    (ws : List Write) : m.refusals name position (w :: ws) =
      Write.item name position w :: m.refusals name (position + 1) ws := by
  have hfirst : m.refused? name (w :: ws) 0 = some w := by
    simp [refused?, tried, perform_write_error h, Except.isOk, Except.toBool]
  rw [refusals_cons, hfirst, perform_write_error h]
  rfl

/-- No change is refused if and only if one after the other succeeds. -/
theorem writeEach_eq (m : Memory) (name : String) (position : Nat) (ws : List Write) :
    m.refusals name position ws = [] ∧ m.writeEach name ws = .ok (m.tried name ws) ∨
      m.refusals name position ws ≠ [] ∧ ∃ e, m.writeEach name ws = .error e := by
  induction ws generalizing m position with
  | nil => exact .inl ⟨rfl, rfl⟩
  | cons w ws ih =>
    rw [writeEach, List.foldlM_cons]
    cases h : m.write name w with
    | ok later =>
      rw [refusals_cons_ok h, tried_cons_ok h]
      exact ih later (position + 1)
    | error e =>
      rw [refusals_cons_error h]
      exact .inr ⟨List.cons_ne_nil _ _, e, rfl⟩

/-! ## Stores that cannot be told apart -/

/-- The same indices and the same counter of turns. -/
structure Agrees (a b : Memory) : Prop where
  turns : a.turns = b.turns
  index : ∀ name, a.index name = b.index name

namespace Agrees

variable {a b : Memory}

theorem setIndex (h : a.Agrees b) (name : String) (i : Index) (turns : Nat) :
    (a.setIndex name i turns).Agrees (b.setIndex name i turns) :=
  ⟨rfl, fun other => by rw [index_setIndex, index_setIndex, h.index]⟩

/-- A change is made to both or to neither. -/
theorem commit {x y : Except StoreError Memory} (h : a.Agrees b)
    (hxy : (∃ later later' : Memory, x = .ok later ∧ y = .ok later' ∧ later.Agrees later') ∨
      ∃ e, x = .error e ∧ y = .error e) :
    (a.commit x).1 = (b.commit y).1 ∧ (a.commit x).2.Agrees (b.commit y).2 := by
  obtain ⟨later, later', rfl, rfl, hlater⟩ | ⟨e, rfl, rfl⟩ := hxy
  · exact ⟨rfl, hlater⟩
  · exact ⟨rfl, h⟩

/-- **Stores that agree answer every request alike, and agree again afterwards.** -/
theorem perform (h : a.Agrees b) (c : Call) :
    (perform c a).1 = (perform c b).1 ∧ (perform c a).2.Agrees (perform c b).2 := by
  cases c with
  | get name id =>
    refine ⟨?_, h⟩
    show Except.ok (a.get? name id) = .ok (b.get? name id)
    rw [get?, get?, h.index]
  | search name r =>
    refine ⟨?_, h⟩
    show a.search name r = b.search name r
    rw [search, search, h.index]
  | searchAll name rs =>
    refine ⟨?_, h⟩
    show rs.mapM (fun r => (a.index name).search r) = rs.mapM fun r => (b.index name).search r
    rw [h.index]
  | write name w =>
    refine h.commit ?_
    rw [write, write, h.index, h.turns]
    cases (b.index name).apply name b.turns w with
    | ok r => exact .inl ⟨_, _, rfl, rfl, h.setIndex name r.1 r.2⟩
    | error e => exact .inr ⟨e, rfl, rfl⟩
  | bulk name ws =>
    refine h.commit ?_
    rw [bulk, bulk, h.index, h.turns]
    split
    · exact .inl ⟨_, _, rfl, rfl, h.setIndex _ _ _⟩
    · exact .inr ⟨_, rfl, rfl⟩

end Agrees

/-! ## All at once -/

/-- **A bulk request works on the index to which the changes lead one by one**, and collects the
failures of those that are refused. -/
theorem applyAll_eq (m : Memory) (name : String) (position : Nat) (ws : List Write) :
    (m.index name).applyAll name position m.turns ws =
      ((m.tried name ws).index name, (m.tried name ws).turns, m.refusals name position ws) := by
  induction ws generalizing m position with
  | nil => rfl
  | cons w ws ih =>
    rw [Index.applyAll]
    obtain ⟨i, turns, happly, hwrite⟩ | ⟨happly, hwrite⟩ := m.write_cases name w
    · have hrest := ih (m.setIndex name i turns) (position + 1)
      rw [index_setIndex, if_pos rfl] at hrest
      rw [tried_cons_ok hwrite, refusals_cons_ok hwrite, happly]
      exact hrest
    · rw [tried_cons_error hwrite, refusals_cons_error hwrite, happly]
      simp only [ih m (position + 1)]
      rfl

/-- The other indices are left alone. -/
theorem index_tried (m : Memory) (ws : List Write) {other : String} (hne : other ≠ name) :
    (m.tried name ws).index other = m.index other := by
  induction ws generalizing m with
  | nil => rfl
  | cons w ws ih =>
    obtain ⟨i, turns, -, h⟩ | ⟨-, h⟩ := m.write_cases name w
    · rw [tried_cons_ok h, ih, index_setIndex, if_neg hne.symm]
    · rw [tried_cons_error h, ih]

/-- The positions that are refused are named one after the other. -/
theorem pairwise_refusals (m : Memory) (name : String) (position : Nat) (ws : List Write) :
    ((m.refusals name position ws).map ItemError.position).Pairwise (· < ·) := by
  rw [List.pairwise_map, refusals, List.pairwise_filterMap]
  refine List.pairwise_lt_range.imp fun {j k} hjk a ha b hb => ?_
  obtain ⟨v, -, rfl⟩ := Option.map_eq_some_iff.1 ha
  obtain ⟨w, -, rfl⟩ := Option.map_eq_some_iff.1 hb
  exact Nat.add_lt_add_left hjk position

/-- A failure is named if and only if the change at its position is refused once those before it have
been tried. -/
theorem mem_refusals {item : ItemError} : item ∈ m.refusals name 0 ws ↔
    ∃ w, ws[item.position]? = some w ∧ item = Write.item name item.position w ∧
      (perform (.write name w) (m.tried name (ws.take item.position))).1 =
        .error (w.refusal name) := by
  constructor
  · intro hitem
    obtain ⟨k, -, hk⟩ := List.mem_filterMap.1 hitem
    obtain ⟨w, hw, rfl⟩ := Option.map_eq_some_iff.1 hk
    obtain ⟨hget, hrefused⟩ := Option.filter_eq_some_iff.1 hw
    rw [Bool.not_eq_true', ← perform_write_refused] at hrefused
    have hposition : (Write.item name (0 + k) w).position = k := Nat.zero_add k
    rw [hposition]
    exact ⟨w, hget, by rw [Nat.zero_add], hrefused⟩
  · rintro ⟨w, hget, hitem, hrefused⟩
    obtain ⟨hlt, -⟩ := List.getElem?_eq_some_iff.1 hget
    refine List.mem_filterMap.2 ⟨item.position, List.mem_range.2 hlt, ?_⟩
    rw [Nat.zero_add]
    refine Option.map_eq_some_iff.2 ⟨w, Option.filter_eq_some_iff.2 ⟨hget, ?_⟩, hitem.symm⟩
    rw [Bool.not_eq_true', ← perform_write_refused]
    exact hrefused

/-- **A bulk request is all of its changes, one after the other, or none of them.**  It succeeds if and
only if each of them does.  If so, it makes of the store what they make of it.  If not, it leaves the
store as it was, and names those that are refused when the others are made: each position once, in
ascending order, with the id and the reason of its own change. -/
theorem bulk_all_or_none (m : Memory) (name : String) (ws : List Write) :
    ((perform (.bulk name ws) m).1 = .ok () ↔ ∃ later, m.writeEach name ws = .ok later) ∧
      (match m.writeEach name ws with
        | .ok later => ∃ found, perform (.bulk name ws) m = (.ok (), found) ∧ found.Agrees later
        | .error _ => m.refusals name 0 ws ≠ [] ∧
            perform (.bulk name ws) m = (.error (.bulk (m.refusals name 0 ws)), m)) ∧
      ((m.refusals name 0 ws).map ItemError.position).Pairwise (· < ·) ∧
      ∀ item, item ∈ m.refusals name 0 ws ↔
        ∃ w, ws[item.position]? = some w ∧ item = Write.item name item.position w ∧
          (perform (.write name w) (m.tried name (ws.take item.position))).1 =
            .error (w.refusal name) := by
  have hbulk : perform (.bulk name ws) m = m.commit (m.bulk name ws) := rfl
  obtain ⟨hnone, heach⟩ | ⟨hsome, e, heach⟩ := m.writeEach_eq name 0 ws
  · have hperform : perform (.bulk name ws) m =
        (.ok (), m.setIndex name ((m.tried name ws).index name) (m.tried name ws).turns) := by
      rw [hbulk, bulk, applyAll_eq, hnone, commit]
    have hagrees : (m.setIndex name ((m.tried name ws).index name) (m.tried name ws).turns).Agrees
        (m.tried name ws) := by
      refine ⟨rfl, fun other => ?_⟩
      rw [index_setIndex]
      split
      · rename_i hname
        rw [hname]
      · rename_i hname
        exact (index_tried m ws (Ne.symm hname)).symm
    rw [heach, hperform]
    exact ⟨by simp, ⟨_, rfl, hagrees⟩, m.pairwise_refusals name 0 ws, fun _ => mem_refusals⟩
  · have hperform : perform (.bulk name ws) m = (.error (.bulk (m.refusals name 0 ws)), m) := by
      rw [hbulk, bulk, applyAll_eq]
      split
      · rename_i heq
        exact absurd (congrArg (fun r => r.2.2) heq) hsome
      · rename_i heq
        rw [commit, ← (Prod.mk.inj (Prod.mk.inj heq).2).2]
    rw [heach, hperform]
    exact ⟨by simp, ⟨hsome, rfl⟩, m.pairwise_refusals name 0 ws, fun _ => mem_refusals⟩

-- a failed change is passed over, and those behind it are still tried
example : (perform (.bulk "notes" [.create ⟨"a", .null, none⟩, .update ⟨"b", .null, none⟩,
    .delete "a", .delete "a"]) .empty).1 = .error (.bulk [⟨1, "b", "document b not found in notes"⟩,
      ⟨3, "a", "document a not found in notes"⟩]) := by rfl

end Memory
end Gatehouse.Store
