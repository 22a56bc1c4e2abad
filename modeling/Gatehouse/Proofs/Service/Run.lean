import Gatehouse.Proofs.Assignment.Management
import Gatehouse.Proofs.Evaluation.Trail

/-!
# Runs of the service

Callers come one after the other, each with an operation, and each gets an outcome.

1. **One call** (`perform_ends`).  A caller whom the gate denies asks nothing of anyone.  Any other call
   makes the change of its operation, or fails and leaves the store as it was.
2. **Runs** (`Run`) are sequences of calls, in any order, by any callers, with any arguments and any
   answers that the surroundings may give.
3. **The invariant** (`Run.keeps`): a state that is reached from nothing keeps holdings.  What every
   `Change` keeps beside them is so proved of every reachable state (`Run.keeps_of`).
-/

namespace Gatehouse.Service

open Store

/-! ## One call -/

section Call

variable {refusal : Rego.Refusal} {svc : Service} {caller : Access.Caller} {s t : State} {h : Holdings}
  {o : Operation}

theorem reads_action (ho : o.onlyReads = true) : Reads (o.action refusal) := by
  cases o with
  | getResourceEvaluation id => exact EvaluationRecord.reads_get id
  | listResourceEvaluations q => exact EvaluationRecord.reads_list q
  | evaluatePolicy q => exact EvaluationRecord.reads_evaluatePolicy q
  | getPolicy id => exact Policy.reads_get id
  | listPolicies o => exact Policy.reads_list o
  | listPolicyVersions id o => exact Policy.reads_listVersions id o
  | validatePolicy source => exact Policy.reads_validate refusal source
  | getPolicyGroup name => exact PolicyGroup.reads_get name
  | listPolicyGroups o => exact PolicyGroup.reads_list o
  | getPolicyAssignment id => exact PolicyAssignment.reads_get id
  | listPolicyAssignments scope o => exact PolicyAssignment.reads_list scope o
  | _ => contradiction

/-- The operation evaluates policies. -/
def Operation.evaluates : Operation → Bool
  | .evaluateResource _ | .evaluatePolicy _ => true
  | _ => false

/-- Only what evaluates policies asks anyone outside. -/
theorem isInward_action (ho : o.evaluates = false) : IsInward (o.action refusal) := by
  cases o with
  | getResourceEvaluation id => exact (EvaluationRecord.looksUp_get id).isInward
  | listResourceEvaluations q => exact (EvaluationRecord.looksUp_list q).isInward
  | createPolicy draft => exact Policy.isInward_create refusal draft
  | getPolicy id => exact (Policy.looksUp_get id).isInward
  | listPolicies o => exact (Policy.looksUp_list o).isInward
  | updatePolicy id revision => exact Policy.isInward_update refusal id revision
  | deletePolicy id => exact Policy.isInward_delete id
  | listPolicyVersions id o => exact (Policy.looksUp_listVersions id o).isInward
  | validatePolicy source => exact (Policy.looksUp_validate refusal source).isInward
  | createPolicyGroup name description => exact PolicyGroup.isInward_create name description
  | getPolicyGroup name => exact (PolicyGroup.looksUp_get name).isInward
  | listPolicyGroups o => exact (PolicyGroup.looksUp_list o).isInward
  | updatePolicyGroup name description => exact PolicyGroup.isInward_update name description
  | deletePolicyGroup name => exact PolicyGroup.isInward_delete name
  | createPolicyAssignment versionId group => exact PolicyAssignment.isInward_create versionId group
  | getPolicyAssignment id => exact (PolicyAssignment.looksUp_get id).isInward
  | updatePolicyAssignment id versionId => exact PolicyAssignment.isInward_update id versionId
  | deletePolicyAssignment id => exact PolicyAssignment.isInward_delete id
  | listPolicyAssignments scope o => exact (PolicyAssignment.looksUp_list scope o).isInward
  | _ => contradiction

/-- What a call amounts to: the change of its operation, or nothing. -/
def Amounts (refusal : Rego.Refusal) (s t : State) (h : Holdings) {o : Operation} :
    Except ServiceError o.Result → Holdings → Prop
  | .ok r, h' => Change refusal s t h o r h'
  | .error _, h' => h' = h ∧ t.memory = s.memory

/-- An action that is all or nothing amounts to a change if its successes do. -/
theorem IsAtomic.amounts {a : Action o.Result} (ha : IsAtomic a) (hs : s.Keeps h)
    (hok : ∀ r, Ends surroundings a s (.ok r) t →
      ∃ h', Holds t.memory h' ∧ Change refusal s t h o r h')
    {r : Except ServiceError o.Result} (he : Ends surroundings a s r t) :
    ∃ h', Holds t.memory h' ∧ Amounts refusal s t h r h' := by
  cases r with
  | ok r => exact hok r he
  | error e =>
    have hmemory := ha he
    exact ⟨h, hmemory ▸ hs.holds, rfl, hmemory⟩

/-- Holdings that come about by a change are kept. -/
theorem Change.keeps {r : o.Result} {h' : Holdings} (hc : Change refusal s t h o r h') (hs : s.Keeps h)
    {a : Action o.Result} (he : Ends surroundings a s (.ok r) t) (hholds : Holds t.memory h') :
    t.Keeps h' :=
  ⟨he.honest hs.honest, hholds, hc.isSound hs he.log_isPrefix⟩

/-- **Every operation makes its change or none.** -/
theorem action_ends (hs : s.Keeps h) {r : Except ServiceError o.Result}
    (he : Ends surroundings (o.action refusal) s r t) :
    ∃ h', Holds t.memory h' ∧ Amounts refusal s t h r h' := by
  -- what only reads changes nothing at all; of what writes, only a deletion is not all or nothing
  by_cases ho : o.onlyReads = true
  · have hreads : Reads (o.action refusal) := reads_action ho
    refine hreads.isAtomic.amounts hs (fun r he => ⟨h, ?_, .read ho⟩) he
    exact (hreads.untouched he).memory ▸ hs.holds
  · cases o with
    | createPolicy draft =>
      exact (Policy.isAtomic_create refusal draft).amounts hs (fun _ => Policy.create_ok hs) he
    | updatePolicy id revision =>
      exact (Policy.isAtomic_update refusal id revision).amounts hs (fun _ => Policy.update_ok hs) he
    | deletePolicy id =>
      rcases Policy.delete_ends hs he with ⟨e, rfl, hmemory⟩ | ⟨h', rfl, hholds, hchange⟩
      · exact ⟨h, hmemory ▸ hs.holds, rfl, hmemory⟩
      · exact ⟨h', hholds, hchange⟩
    | createPolicyGroup name description =>
      exact (PolicyGroup.isAtomic_create name description).amounts hs
        (fun _ => PolicyGroup.create_ok hs) he
    | updatePolicyGroup name description =>
      exact (PolicyGroup.isAtomic_update name description).amounts hs
        (fun _ => PolicyGroup.update_ok hs) he
    | deletePolicyGroup name =>
      exact (PolicyGroup.isAtomic_delete name).amounts hs (fun _ => PolicyGroup.delete_ok hs) he
    | createPolicyAssignment versionId group =>
      exact (PolicyAssignment.isAtomic_create versionId group).amounts hs
        (fun _ => PolicyAssignment.create_ok hs) he
    | updatePolicyAssignment id versionId =>
      exact (PolicyAssignment.isAtomic_update id versionId).amounts hs
        (fun _ => PolicyAssignment.update_ok hs) he
    | deletePolicyAssignment id =>
      exact (PolicyAssignment.isAtomic_delete id).amounts hs
        (fun _ => PolicyAssignment.delete_ok hs) he
    | evaluateResource q =>
      rcases EvaluationRecord.create_ends hs he with ⟨e, rfl, huntouched⟩ |
        ⟨x, m, rfl, -, hx, hholds, hlog⟩
      · exact ⟨h, huntouched.memory ▸ hs.holds, rfl, huntouched.memory⟩
      · exact ⟨_, hholds, .evaluateResource ((EvaluationRecord.record_isSound hx).mono ⟨_, hlog.symm⟩)⟩
    | _ => exact absurd rfl ho

/-- A caller is denied, or the operation is performed. -/
theorem ends_perform {r : Except ServiceError o.Result} :
    Ends surroundings (svc.perform caller o) s r t ↔
      (svc.requirements.allow svc.holds caller o.method = true ∧
        Ends surroundings (o.action svc.refusal) s r t) ∨
      (svc.requirements.allow svc.holds caller o.method = false ∧
        r = .error (.denied caller.subject o.method) ∧ t = s) := by
  rw [perform, ends_bind, authorize]
  simp only [ends_liftM]
  cases svc.requirements.allow svc.holds caller o.method with
  | true => simp
  | false => simp [and_comm]

/-- **One call**: from holdings to holdings. -/
theorem perform_ends (hs : s.Keeps h) {r : Except ServiceError o.Result}
    (he : Ends surroundings (svc.perform caller o) s r t) :
    ∃ h', t.Keeps h' ∧ Amounts svc.refusal s t h r h' := by
  rcases ends_perform.1 he with ⟨-, haction⟩ | ⟨-, rfl, rfl⟩
  · obtain ⟨h', hholds, hamounts⟩ := action_ends hs haction
    refine ⟨h', ⟨he.honest hs.honest, hholds, ?_⟩, hamounts⟩
    cases r with
    | ok r => exact Change.isSound hamounts hs he.log_isPrefix
    | error e =>
      -- what is held is as sound as before, with a longer log to tell of it
      exact hamounts.1 ▸ hs.sound.mono he.log_isPrefix
  · exact ⟨h, hs, rfl, rfl⟩

end Call

/-! ## Runs -/

/-- A call, the states around it, and what the caller got. -/
structure Step where
  caller : Access.Caller
  operation : Operation
  outcome : Except ServiceError operation.Result
  before : State
  after : State

/-- Calls that may come one after the other. -/
inductive Run (svc : Service) : State → List Step → State → Prop
  | nil (s : State) : Run svc s [] s
  | cons {x : Step} {steps : List Step} {t : State}
      (call : Ends surroundings (svc.perform x.caller x.operation) x.before x.outcome x.after)
      (rest : Run svc x.after steps t) : Run svc x.before (x :: steps) t

theorem Run.append {svc : Service} {s t u : State} {xs ys : List Step} (hrun : Run svc s xs t)
    (hmore : Run svc t ys u) : Run svc s (xs ++ ys) u := by
  induction hrun with
  | nil => exact hmore
  | cons call _ ih => exact .cons call (ih hmore)

theorem Run.log_isPrefix {svc : Service} {s t : State} {steps : List Step} (hrun : Run svc s steps t) :
    s.log <+: t.log := by
  induction hrun with
  | nil s => exact List.prefix_refl _
  | cons call _ ih => exact call.log_isPrefix.trans ih

/-- **One change, any run.**  What every change of a run keeps, beside the holdings, the run keeps. -/
theorem Run.keeps_of {svc : Service} {s t : State} {steps : List Step} (hrun : Run svc s steps t)
    {I : Holdings → Prop} {h : Holdings} (hs : s.Keeps h) (hI : I h)
    (step : ∀ x ∈ steps, ∀ {r : x.operation.Result} {h h' : Holdings}, x.outcome = .ok r →
      x.before.Keeps h → Change svc.refusal x.before x.after h x.operation r h' → I h → I h') :
    ∃ h', t.Keeps h' ∧ I h' := by
  induction hrun generalizing h with
  | nil s => exact ⟨h, hs, hI⟩
  | @cons x steps t call rest ih =>
    obtain ⟨h₁, hs₁, hamounts⟩ := perform_ends hs call
    have hI₁ : I h₁ := by
      cases hr : x.outcome with
      | ok r =>
        rw [hr] at hamounts
        exact step x List.mem_cons_self hr hs hamounts hI
      | error e =>
        -- a failure leaves the holdings as they were
        rw [hr] at hamounts
        exact hamounts.1 ▸ hI
    exact ih hs₁ hI₁ fun y hy => step y (List.mem_cons_of_mem x hy)

/-- **What is reached from holdings keeps holdings.** -/
theorem Run.keeps {svc : Service} {s t : State} {steps : List Step} (hrun : Run svc s steps t)
    {h : Holdings} (hs : s.Keeps h) : ∃ h', t.Keeps h' := by
  obtain ⟨h', ht, -⟩ := hrun.keeps_of (I := fun _ => True) hs trivial fun _ _ _ _ _ _ _ _ _ => trivial
  exact ⟨h', ht⟩

end Gatehouse.Service
