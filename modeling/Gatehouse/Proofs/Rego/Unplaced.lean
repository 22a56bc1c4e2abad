import Mathlib.Logic.Basic
import Gatehouse.Rego.Grammar

/-!
# Up to places

Two readings are the same up to places if what is left of them without places is the same.

1. **Without places** (`Placed.unplaced`).  The same value, with every place in it the start of the source.
2. **Trees.**  Only expressions, alternatives, rules, imports and packages have places of their own.  The
   functions follow the family of trees, and on lists of trees they go along the list.
-/

namespace Gatehouse.Rego

/-- Values that may have places in them. -/
class Placed (α : Type) where
  /-- The value without its places. -/
  unplaced : α → α

open Placed (unplaced)

/-! ## Values without trees -/

instance : Placed Unit := ⟨id⟩

instance : Placed Bool := ⟨id⟩

instance : Placed String := ⟨id⟩

instance : Placed BinOp := ⟨id⟩

instance : Placed RuleKind := ⟨id⟩

instance : Placed Location := ⟨fun _ => .start⟩

section

variable {α β : Type} [Placed α] [Placed β]

instance : Placed (List α) := ⟨List.map unplaced⟩

instance : Placed (Option α) := ⟨Option.map unplaced⟩

instance : Placed (α × β) := ⟨Prod.map unplaced unplaced⟩

instance : Placed (Except α β) := ⟨fun
  | .error e => .error (unplaced e)
  | .ok a => .ok (unplaced a)⟩

end

/-- The error without its place. -/
def SyntaxError.unplaced : SyntaxError → SyntaxError
  | unexpectedChar found _ => unexpectedChar found .start
  | unterminatedString _ => unterminatedString .start
  | unexpectedToken found expected _ => unexpectedToken found expected .start
  | unexpectedEnd expected => unexpectedEnd expected
  | nestingTooDeep limit _ => nestingTooDeep limit .start
  | missingPackage => missingPackage

instance : Placed SyntaxError := ⟨SyntaxError.unplaced⟩

/-! ## Trees -/

mutual

/-- The term without its places. -/
def Term.unplaced : Term → Term
  | .null => .null
  | .bool b => .bool b
  | .number text => .number text
  | .string value => .string value
  | .var name => .var name
  | .ref head path => .ref head.unplaced (unplacedPath path)
  | .call func args => .call func.unplaced (unplacedTerms args)
  | .array items => .array (unplacedTerms items)
  | .set items => .set (unplacedTerms items)
  | .object pairs => .object (unplacedPairs pairs)
  | .arrayCompr item body => .arrayCompr item.unplaced (unplacedExprs body)
  | .setCompr item body => .setCompr item.unplaced (unplacedExprs body)
  | .objectCompr key value body => .objectCompr key.unplaced value.unplaced (unplacedExprs body)
  | .binary op lhs rhs => .binary op lhs.unplaced rhs.unplaced
  | .neg term => .neg term.unplaced

/-- The step of a path without its places. -/
def Access.unplaced : Access → Access
  | .dot field => .dot field
  | .index term => .index term.unplaced

/-- The goal without its places. -/
def Goal.unplaced : Goal → Goal
  | .term t => .term t.unplaced
  | .declare names => .declare names
  | .someIn key value collection => .someIn (unplacedOption key) value.unplaced collection.unplaced
  | .every key value domain body =>
    .every (unplacedOption key) value.unplaced domain.unplaced (unplacedExprs body)

/-- The expression without its places. -/
def Expr.unplaced : Expr → Expr
  | .mk goal negated replacing _ => .mk goal.unplaced negated (unplacedPairs replacing) .start

/-- The terms without their places. -/
def unplacedTerms : List Term → List Term
  | [] => []
  | t :: ts => t.unplaced :: unplacedTerms ts

/-- The path without its places. -/
def unplacedPath : List Access → List Access
  | [] => []
  | a :: as => a.unplaced :: unplacedPath as

/-- The expressions without their places. -/
def unplacedExprs : List Expr → List Expr
  | [] => []
  | e :: es => e.unplaced :: unplacedExprs es

/-- The pairs of terms without their places. -/
def unplacedPairs : List (Term × Term) → List (Term × Term)
  | [] => []
  | (a, b) :: ps => (a.unplaced, b.unplaced) :: unplacedPairs ps

/-- The term that may be absent without its places. -/
def unplacedOption : Option Term → Option Term
  | none => none
  | some t => some t.unplaced

end

instance : Placed Term := ⟨Term.unplaced⟩

instance : Placed Access := ⟨Access.unplaced⟩

instance : Placed Goal := ⟨Goal.unplaced⟩

instance : Placed Expr := ⟨Expr.unplaced⟩

section

variable {α β : Type} [Placed α] [Placed β]

@[simp] theorem unplaced_cons (a : α) (as : List α) : unplaced (a :: as) = unplaced a :: unplaced as := rfl

@[simp] theorem unplaced_some (a : α) : unplaced (some a) = some (unplaced a) := rfl

@[simp] theorem unplaced_mk (a : α) (b : β) : unplaced (a, b) = (unplaced a, unplaced b) := rfl

end

theorem unplacedTerms_eq (ts : List Term) : unplacedTerms ts = unplaced ts := by
  induction ts with
  | nil => rfl
  | cons t ts ih => rw [unplacedTerms, ih]; rfl

theorem unplacedPath_eq (path : List Access) : unplacedPath path = unplaced path := by
  induction path with
  | nil => rfl
  | cons a path ih => rw [unplacedPath, ih]; rfl

theorem unplacedExprs_eq (es : List Expr) : unplacedExprs es = unplaced es := by
  induction es with
  | nil => rfl
  | cons e es ih => rw [unplacedExprs, ih]; rfl

theorem unplacedPairs_eq (ps : List (Term × Term)) : unplacedPairs ps = unplaced ps := by
  induction ps with
  | nil => rfl
  | cons p ps ih => rw [unplacedPairs, ih]; rfl

theorem unplacedOption_eq (t : Option Term) : unplacedOption t = unplaced t := by
  cases t <;> rfl

section

variable (t u v : Term) (ts : List Term) (path : List Access) (ps : List (Term × Term)) (body : List Expr)

@[simp] theorem unplaced_ref : unplaced (Term.ref t path) = .ref (unplaced t) (unplaced path) :=
  congrArg (Term.ref _) (unplacedPath_eq path)

@[simp] theorem unplaced_call : unplaced (Term.call t ts) = .call (unplaced t) (unplaced ts) :=
  congrArg (Term.call _) (unplacedTerms_eq ts)

@[simp] theorem unplaced_array : unplaced (Term.array ts) = .array (unplaced ts) :=
  congrArg Term.array (unplacedTerms_eq ts)

@[simp] theorem unplaced_set : unplaced (Term.set ts) = .set (unplaced ts) := congrArg Term.set (unplacedTerms_eq ts)

@[simp] theorem unplaced_object : unplaced (Term.object ps) = .object (unplaced ps) :=
  congrArg Term.object (unplacedPairs_eq ps)

@[simp] theorem unplaced_arrayCompr : unplaced (Term.arrayCompr t body) = .arrayCompr (unplaced t) (unplaced body) :=
  congrArg (Term.arrayCompr _) (unplacedExprs_eq body)

@[simp] theorem unplaced_setCompr : unplaced (Term.setCompr t body) = .setCompr (unplaced t) (unplaced body) :=
  congrArg (Term.setCompr _) (unplacedExprs_eq body)

@[simp] theorem unplaced_objectCompr :
    unplaced (Term.objectCompr t u body) = .objectCompr (unplaced t) (unplaced u) (unplaced body) :=
  congrArg (Term.objectCompr _ _) (unplacedExprs_eq body)

@[simp] theorem unplaced_binary (op : BinOp) :
    unplaced (Term.binary op t u) = .binary op (unplaced t) (unplaced u) := rfl

@[simp] theorem unplaced_neg : unplaced (Term.neg t) = .neg (unplaced t) := rfl

@[simp] theorem unplaced_index : unplaced (Access.index t) = .index (unplaced t) := rfl

@[simp] theorem unplaced_goal_term : unplaced (Goal.term t) = .term (unplaced t) := rfl

@[simp] theorem unplaced_someIn (key : Option Term) :
    unplaced (Goal.someIn key t u) = .someIn (unplaced key) (unplaced t) (unplaced u) :=
  congrArg (Goal.someIn · _ _) (unplacedOption_eq key)

@[simp] theorem unplaced_every (key : Option Term) :
    unplaced (Goal.every key t u body) = .every (unplaced key) (unplaced t) (unplaced u) (unplaced body) :=
  congrArg₂ (Goal.every · _ _ ·) (unplacedOption_eq key) (unplacedExprs_eq body)

@[simp] theorem unplaced_expr (goal : Goal) (negated : Bool) (l : Location) :
    unplaced (Expr.mk goal negated ps l) = .mk (unplaced goal) negated (unplaced ps) .start :=
  congrArg (Expr.mk _ negated · .start) (unplacedPairs_eq ps)

end

/-! ## Modules -/

instance : Placed Head := ⟨fun h => ⟨h.name, h.kind, unplaced h.args, unplaced h.key, unplaced h.value, h.assigned⟩⟩

instance : Placed Otherwise := ⟨fun o => ⟨unplaced o.value, unplaced o.body, .start⟩⟩

instance : Placed Rule := ⟨fun r => ⟨r.isDefault, unplaced r.head, unplaced r.bodies, unplaced r.otherwise, .start⟩⟩

instance : Placed Import := ⟨fun i => ⟨unplaced i.path, i.alias?, .start⟩⟩

instance : Placed Package := ⟨fun p => ⟨p.path, .start⟩⟩

instance : Placed Module := ⟨fun m => ⟨unplaced m.package, unplaced m.imports, unplaced m.rules⟩⟩

section

variable (t : Term) (name : String) (kind : RuleKind) (terms : List Term) (key value : Option Term) (b assigned : Bool)
  (body : Body) (bodies : List Body) (others : List Otherwise) (head : Head) (l : Location)

@[simp] theorem unplaced_head : unplaced (Head.mk name kind terms key value assigned) =
    ⟨name, kind, unplaced terms, unplaced key, unplaced value, assigned⟩ := rfl

@[simp] theorem unplaced_otherwise :
    unplaced (Otherwise.mk value body l) = ⟨unplaced value, unplaced body, .start⟩ := rfl

@[simp] theorem unplaced_rule : unplaced (Rule.mk b head bodies others l) =
    ⟨b, unplaced head, unplaced bodies, unplaced others, .start⟩ := rfl

@[simp] theorem unplaced_import (as? : Option String) :
    unplaced (Import.mk t as? l) = ⟨unplaced t, as?, .start⟩ := rfl

@[simp] theorem unplaced_package (path : List String) : unplaced (Package.mk path l) = ⟨path, .start⟩ := rfl

@[simp] theorem unplaced_module (p : Package) (imports : List Import) (rules : List Rule) :
    unplaced (Module.mk p imports rules) = ⟨unplaced p, unplaced imports, unplaced rules⟩ := rfl

end

/-! ## What does not depend on places -/

theorem asVar?_unplaced (t : Term) : (unplaced t).asVar? = t.asVar? := by
  cases t <;> rfl

theorem asVars?_unplaced (ts : List Term) : asVars? (unplaced ts) = asVars? ts := by
  induction ts with
  | nil => rfl
  | cons t ts ih =>
    have hcons : ∀ t ts, asVars? (t :: ts) = (do return (← Term.asVar? t) :: (← asVars? ts)) := fun _ _ =>
      List.mapM_cons
    show asVars? (unplaced t :: unplaced ts) = _
    rw [hcons, hcons, ih, asVar?_unplaced]

theorem unplaced_access (t : Term) (a : Access) : unplaced (t.access a) = (unplaced t).access (unplaced a) := by
  cases t with
  | ref head path =>
    rw [unplaced_ref]
    show unplaced (Term.ref head (path ++ [a])) = .ref (unplaced head) (unplaced path ++ [unplaced a])
    rw [unplaced_ref]
    exact congrArg (Term.ref _) List.map_append
  | _ => exact unplaced_ref _ _

end Gatehouse.Rego
