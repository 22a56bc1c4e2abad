import Mathlib.Algebra.Ring.Nat
import Mathlib.Data.List.Lex
import Gatehouse.Proofs.Rego.Report

/-!
# The places of a module's bodies

Two bodies of a module may be the same and still be two.  What tells them apart is where they stand: a place
is a list of numbers, and each number picks one of the parts of the node that the numbers before it lead to.

1. **Places** (`Node.at?`, `Module.at?`).  A place is followed part by part, so it is said without the walk.
2. **A tour** (`IsTour`).  The places of some nodes in ascending order, the nodes in the order of the walk.
   The tour of a node is the empty place, and then the tours of the parts behind their numbers
   (`exists_isTour_parts`, `Node.exists_isTour`).  So the walk comes to each place once.
3. **Levels** (`Body.level`).  What is reported of a body can be read off the list of what its own
   expressions declare and where they stand; what is nested in these expressions is not in the list.
-/

namespace Gatehouse.Rego

/-! ## Places -/

namespace Node

/-- The node at a place. -/
def at? (n : Node) : List Nat → Option Node
  | [] => some n
  | i :: place => n.parts[i]?.bind fun part => part.at? place

/-- The node at a place in one of some nodes. -/
def atOf? (ns : List Node) : List Nat → Option Node
  | [] => none
  | i :: place => ns[i]?.bind fun n => n.at? place

theorem at?_cons (n : Node) (i : Nat) (place : List Nat) : n.at? (i :: place) = atOf? n.parts (i :: place) :=
  rfl

end Node

/-- The node at a place of a module, where the first number picks a rule. -/
def Module.at? (m : Module) : List Nat → Option Node := Node.atOf? (m.rules.map .rule)

/-- The body at a place, and the empty one if no body is there. -/
def Module.bodyAt (m : Module) (place : List Nat) : Body := ((m.at? place).bind Node.asBody?).getD []

/-! ## Tours -/

/-- All the places at which there is a node, in order, and the nodes at these places. -/
structure IsTour (find? : List Nat → Option Node) (places : List (List Nat)) (nodes : List Node) : Prop where
  ascending : places.Pairwise (· < ·)
  mem : ∀ place, place ∈ places ↔ (find? place).isSome
  nodes_eq : places.map find? = nodes.map some

theorem pairwise_zipIdx (ns : List Node) (k : Nat) : (ns.zipIdx k).Pairwise fun a b => a.2 < b.2 := by
  induction ns generalizing k with
  | nil => exact .nil
  | cons n ns ih =>
    rw [List.zipIdx_cons, List.pairwise_cons]
    exact ⟨fun p hp => List.le_snd_of_mem_zipIdx hp, ih (k + 1)⟩

/-- Tours of some nodes are put together by putting the number of each node before its places. -/
theorem exists_isTour_parts {ns : List Node} (h : ∀ n ∈ ns, ∃ places, IsTour n.at? places n.nodes) :
    ∃ places, IsTour (Node.atOf? ns) places (ns.flatMap Node.nodes) := by
  choose! placesOf hplaces using h
  have hnode : ∀ p ∈ ns.zipIdx, ns[p.2]? = some p.1 := fun p hp => List.mem_zipIdx_iff_getElem?.1 hp
  have htour : ∀ p ∈ ns.zipIdx, IsTour p.1.at? (placesOf p.1) p.1.nodes := fun p hp =>
    hplaces p.1 (List.mem_of_getElem? (hnode p hp))
  refine ⟨ns.zipIdx.flatMap fun p => (placesOf p.1).map (p.2 :: ·), ?_, ?_, ?_⟩
  · rw [List.pairwise_flatMap]
    constructor
    · intro p hp
      rw [List.pairwise_map]
      exact (htour p hp).ascending.imp fun hlt => List.cons_lt_cons_iff.2 (.inr ⟨rfl, hlt⟩)
    · refine (pairwise_zipIdx ns 0).imp fun hlt x hx y hy => ?_
      obtain ⟨x, -, rfl⟩ := List.mem_map.1 hx
      obtain ⟨y, -, rfl⟩ := List.mem_map.1 hy
      exact List.cons_lt_cons_iff.2 (.inl hlt)
  · intro place
    rw [List.mem_flatMap]
    constructor
    · rintro ⟨p, hp, hplace⟩
      obtain ⟨rest, hrest, rfl⟩ := List.mem_map.1 hplace
      rw [Node.atOf?, hnode p hp]
      exact ((htour p hp).mem rest).1 hrest
    · intro hplace
      cases place with
      | nil => simp [Node.atOf?] at hplace
      | cons i rest =>
        cases hn : ns[i]? with
        | none => simp [Node.atOf?, hn] at hplace
        | some n =>
          rw [Node.atOf?, hn] at hplace
          have hp : (n, i) ∈ ns.zipIdx := List.mem_zipIdx_iff_getElem?.2 hn
          exact ⟨(n, i), hp, List.mem_map.2 ⟨rest, ((htour _ hp).mem rest).2 hplace, rfl⟩⟩
  · have hnodes : ∀ p ∈ ns.zipIdx,
        ((placesOf p.1).map (p.2 :: ·)).map (Node.atOf? ns) = p.1.nodes.map some := by
      intro p hp
      rw [← (htour p hp).nodes_eq, List.map_map]
      refine List.map_congr_left fun rest _ => ?_
      rw [Function.comp_apply, Node.atOf?, hnode p hp]
      rfl
    rw [List.map_flatMap, List.flatMap_congr hnodes, List.map_flatMap]
    conv_rhs => rw [← List.zipIdx_map_fst 0 ns, List.flatMap_map]

/-- **A node has a tour**, and its nodes are those of the walk.  A part's walk is shorter than that of the
whole, so the induction is on the length of the walk. -/
theorem Node.exists_isTour (n : Node) : ∃ places, IsTour n.at? places n.nodes := by
  induction hlength : n.nodes.length using Nat.strongRecOn generalizing n with
  | ind length ih =>
    obtain ⟨places, htour⟩ : ∃ places, IsTour (atOf? n.parts) places (n.parts.flatMap nodes) :=
      exists_isTour_parts fun part hpart => ih _ (hlength ▸ length_nodes_lt hpart) part rfl
    refine ⟨[] :: places, ?_, ?_, ?_⟩
    · rw [List.pairwise_cons]
      refine ⟨fun place hplace => ?_, htour.ascending⟩
      cases place with
      | nil => simp [htour.mem, atOf?] at hplace
      | cons i rest => exact List.nil_lt_cons i rest
    · intro place
      cases place with
      | nil => simp [at?]
      | cons i rest =>
        rw [List.mem_cons, htour.mem, at?_cons]
        simp
    · rw [nodes_eq, List.map_cons, List.map_cons, ← htour.nodes_eq]
      have hplaces : ∀ place ∈ places, n.at? place = atOf? n.parts place := by
        intro place hplace
        cases place with
        | nil => simp [htour.mem, atOf?] at hplace
        | cons i rest => rfl
      rw [List.map_congr_left hplaces]
      rfl

theorem Module.exists_isTour (m : Module) : ∃ places, IsTour m.at? places m.nodes := by
  obtain ⟨places, htour⟩ : ∃ places, IsTour m.at? places ((m.rules.map Node.rule).flatMap Node.nodes) :=
    exists_isTour_parts fun n _ => n.exists_isTour
  rw [List.flatMap_map] at htour
  exact ⟨places, htour⟩

theorem filterMap_eq_map_getD {α β : Type} (f : α → Option β) (b : β) (as : List α) :
    as.filterMap f = (as.filter fun a => (f a).isSome).map fun a => (f a).getD b := by
  induction as with
  | nil => rfl
  | cons a as ih => cases h : f a <;> simp [h, ih]

/-- The bodies of the walk, place by place. -/
theorem Module.exists_bodyPlaces (m : Module) :
    ∃ places : List (List Nat), places.Pairwise (· < ·) ∧
      (∀ place, place ∈ places ↔ ∃ b, m.at? place = some (.body b)) ∧
      m.allBodies = places.map m.bodyAt := by
  obtain ⟨places, htour⟩ := m.exists_isTour
  refine ⟨places.filter fun place => ((m.at? place).bind Node.asBody?).isSome,
    htour.ascending.filter _, fun place => ?_, ?_⟩
  · rw [List.mem_filter, htour.mem, Option.isSome_iff_exists, Option.isSome_iff_exists]
    simp only [Option.bind_eq_some_iff, Node.asBody?_eq_some, exists_eq_right]
    exact ⟨And.right, fun ⟨b, hb⟩ => ⟨⟨_, hb⟩, b, hb⟩⟩
  · have hnodes : m.allBodies = places.filterMap fun place => (m.at? place).bind Node.asBody? := by
      have h := congrArg (List.filterMap fun n? : Option Node => n?.bind Node.asBody?) htour.nodes_eq
      rw [List.filterMap_map, List.filterMap_map] at h
      exact h.symm
    rw [hnodes, filterMap_eq_map_getD _ []]
    rfl

/-! ## Levels -/

/-- What each expression of a body declares, and where it stands. -/
def Body.level (b : Body) : List (Option String × Location) := b.map fun e => (e.declares?, e.location)

/-- What is reported of a place of a level. -/
def redeclaredIn (level : List (Option String × Location)) (i : Nat) : Option CompileError := do
  let (declared?, location) ← level[i]?
  let name ← declared?
  if some name ∈ (level.take i).map Prod.fst then some (.redeclared name location) else none

/-- What is reported of a body can be read off its level. -/
theorem Body.redeclared?_eq_redeclaredIn (b : Body) (i : Nat) : b.redeclared? i = redeclaredIn b.level i := by
  have hbefore (name : String) :
      some name ∈ (b.level.take i).map Prod.fst ↔ ∃ d ∈ b.take i, d.declares? = some name := by
    rw [level, ← List.map_take, List.map_map, List.mem_map]
    rfl
  simp only [redeclared?, redeclaredIn, hbefore]
  rw [level, List.getElem?_map]
  cases b[i]? <;> rfl

/-! ## The checks -/

/-- The errors that are seen without the rule engine are those for which the names and the bodies of the
module give reason, the bodies being at these places. -/
structure Module.IsCheckedAt (m : Module) (places : List (List Nat)) : Prop where
  messages : m.localErrors.map CompileError.message =
    m.conflictingNames.map (fun name => "rego_type_error: conflicting rules " ++ m.rulePath name ++ " found") ++
      m.multiplyDefaulted.map
        (fun name => "rego_type_error: multiple default rules " ++ m.rulePath name ++ " found") ++
      m.redeclarations.map CompileError.message
  conflicts : IsInOrder m.conflictingNames m.IsConflicting
  defaults : IsInOrder m.multiplyDefaulted m.IsDefaultedTwice
  /-- No body is visited twice or forgotten. -/
  ascending : places.Pairwise (· < ·)
  mem : ∀ place, place ∈ places ↔ ∃ b, m.at? place = some (.body b)
  redeclarations : m.redeclarations = places.flatMap fun place =>
    (List.range (m.bodyAt place).length).filterMap (m.bodyAt place).redeclared?
  number : m.redeclarations.length = (places.map fun place =>
    (List.range (m.bodyAt place).length).countP fun i => ((m.bodyAt place).redeclared? i).isSome).sum
  /-- A place of a body is reported for a variable that it declares, and that a place before it in the same
  body declares too. -/
  reported : ∀ (b : Body) i error, b.redeclared? i = some error ↔
    ∃ e name, b[i]? = some e ∧ e.Declares name ∧ (∃ d ∈ b.take i, d.Declares name) ∧
      error = .redeclared name e.location
  /-- What is nested in the expressions of a body plays no part in that. -/
  own : ∀ (b : Body) i, b.redeclared? i = redeclaredIn b.level i

/-- **The checks that need no rule engine are exact.**  Names at odds are reported in order and once each.
The bodies at any depth are gone through from the left, each at its one place, and each is judged by its own
level. -/
theorem Module.exists_isCheckedAt (m : Module) : ∃ places, m.IsCheckedAt places := by
  obtain ⟨places, hascending, hmem, hbodies⟩ := m.exists_bodyPlaces
  have hredeclarations : m.redeclarations = places.flatMap fun place =>
      (List.range (m.bodyAt place).length).filterMap (m.bodyAt place).redeclared? := by
    rw [Module.redeclarations, hbodies, List.flatMap_map]
    simp only [redeclaredAfter_nil]
  refine ⟨places, {
    messages := ?messages
    conflicts := isInOrder_conflictingNames
    defaults := isInOrder_multiplyDefaulted
    ascending := hascending
    mem := hmem
    redeclarations := hredeclarations
    number := ?number
    reported := fun _ _ _ => Body.redeclared?_eq_some
    own := Body.redeclared?_eq_redeclaredIn }⟩
  case messages =>
    rw [localErrors, List.map_append, List.map_append, List.map_map, List.map_map]
    rfl
  case number =>
    rw [hredeclarations, List.length_flatMap]
    simp only [List.length_filterMap_eq_countP]

end Gatehouse.Rego
