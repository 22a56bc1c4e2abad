import Gatehouse.Proofs.Service.Progress

/-!
# The gate

Every call asks the gate first, and the gate looks at the caller and at the method of the operation.  It
sees neither the arguments of the operation nor the store.

1. **The decision** (`Denies`).  A method without a row is denied to everyone.  A method with a row is
   denied to those who do not hold what the row requires.
2. **Both ways** (`perform_of_denies`, `perform_of_not_denies`).  As programs, a denied call is the
   failure and nothing else, and any other call is the action of its operation.  So what a call asks, and
   what it ends with, is known without a look at its surroundings.
3. **Two runs** (`gate_decides`).  From a denial nothing can be learned of a store, of an argument or of a
   collaborator: whichever two of each are compared, the answers are the same.
-/

namespace Gatehouse

open Service

namespace Access

/-- What a role does not give, and no other role of the caller either, the caller does not hold. -/
theorem Grants.holds_eq_false {g : Grants} {caller : Caller} {required : List Permission} :
    g.holds caller required = false ↔ ∃ p ∈ required, ∀ role ∈ caller.roles, p ∉ g.held role := by
  simp [Grants.holds]

end Access

namespace Service

section Gate

variable {svc : Service} {caller : Access.Caller} {o : Operation}

/-- The check of a method fails: it has no row, or the caller does not hold all that the row requires. -/
def Denies (svc : Service) (caller : Access.Caller) (method : Access.Method) : Prop :=
  svc.requirements.row? method = none ∨
    ∃ required, svc.requirements.row? method = some required ∧ svc.holds caller required = false

theorem denies_iff {method : Access.Method} :
    svc.Denies caller method ↔ svc.requirements.allow svc.holds caller method = false := by
  unfold Denies Access.Requirements.allow
  cases svc.requirements.row? method <;> simp

/-- **A denied call is a denial and nothing else.** -/
theorem perform_of_denies (h : svc.Denies caller o.method) :
    svc.perform caller o = throw (.denied caller.subject o.method) := by
  have hallow := denies_iff.1 h
  simp only [perform, authorize, hallow, Bool.false_eq_true, if_false]
  rfl

/-- **A call that is not denied is the action of its operation.** -/
theorem perform_of_not_denies (h : ¬ svc.Denies caller o.method) :
    svc.perform caller o = o.action svc.refusal := by
  have hallow : svc.requirements.allow svc.holds caller o.method = true := by
    rwa [denies_iff, Bool.not_eq_false] at h
  simp only [perform, authorize, hallow, if_true]
  rfl

/-- No two operations of different kinds share a method. -/
theorem Operation.ctorIdx_eq_of_method_eq {o o' : Operation} (h : o.method = o'.method) :
    o.ctorIdx = o'.ctorIdx := by
  have hsame : ∀ x : Operation, x.method.ctorIdx = x.ctorIdx := fun x => by cases x <;> rfl
  rw [← hsame, ← hsame, h]

/-- **The gate decides, and it decides by the caller and the method alone.**  For every table, every
authorizer, every caller and every operation:

* if the check of the operation's own method fails, the call asks nothing of anyone, the states of all
  surroundings stay as they are, and the answer is the denial of the method to the caller's subject;
* two such calls of a subject for a method are answered alike, in any two worlds and from any two
  states of them, with any arguments and under any other tables;
* if the check succeeds, the call is the action of the operation, which knows no gate.

Each operation has a method of its own.  If permissions are held by grants to roles, the check fails for
the lack of a row or of one permission in all roles of the caller. -/
theorem gate_decides (svc : Service) (caller : Access.Caller) (o : Operation) :
    (svc.Denies caller o.method →
      (svc.perform caller o).run.Asks (fun _ => False) ∧
      (∀ {σ : Type} (e : Setting effects σ) (s t : σ) (r : Except ServiceError o.Result),
        Ends e (svc.perform caller o) s r t ↔ r = .error (.denied caller.subject o.method) ∧ t = s) ∧
      (ServiceError.denied caller.subject o.method).code = .permissionDenied ∧
      (ServiceError.denied caller.subject o.method).message =
        caller.subject ++ " is not allowed to call " ++ o.method.name ∧
      ∀ (svc' : Service) (caller' : Access.Caller) (o' : Operation),
        svc'.Denies caller' o'.method → caller'.subject = caller.subject → o'.method = o.method →
        ∀ {σ σ' : Type} (world : Program.World effects σ) (world' : Program.World effects σ')
          (s : σ) (s' : σ'), ∃ e : ServiceError,
          (svc.perform caller o).run.run world s = (.error e, s) ∧
          (svc'.perform caller' o').run.run world' s' = (.error e, s')) ∧
    (¬ svc.Denies caller o.method → svc.perform caller o = o.action svc.refusal) ∧
    (∀ o' : Operation, o'.method = o.method → o'.ctorIdx = o.ctorIdx) ∧
    (∀ g : Access.Grants, svc.holds = g.holds →
      (svc.Denies caller o.method ↔ ∀ required, svc.requirements.row? o.method = some required →
        ∃ p ∈ required, ∀ role ∈ caller.roles, p ∉ g.held role)) := by
  refine ⟨fun hdenies => ?_, perform_of_not_denies, fun o' => Operation.ctorIdx_eq_of_method_eq,
    fun g hg => ?_⟩
  · have hperform := perform_of_denies hdenies
    refine ⟨?_, fun e s t r => ?_, rfl, rfl, ?_⟩
    · rw [hperform]
      trivial
    · rw [hperform]
      exact ends_throw
    · intro svc' caller' o' hdenies' hsubject hmethod σ σ' world world' s s'
      refine ⟨.denied caller.subject o.method, ?_, ?_⟩
      · rw [hperform]
        rfl
      · rw [perform_of_denies hdenies', hsubject, hmethod]
        rfl
  · rw [denies_iff, Access.Requirements.allow, hg]
    cases svc.requirements.row? o.method with
    | none => simp
    | some required =>
      simp only [Option.some.injEq, forall_eq']
      exact Access.Grants.holds_eq_false

/-- Without credentials nothing can be evaluated, and an enforcer may evaluate. -/
theorem gate_decides_anonymous :
    lenient.Denies .anonymous (Operation.evaluateResource First.inquiry).method ∧
    ((lenient.perform .anonymous (.evaluateResource First.inquiry)).run.Asks fun _ => False) ∧
    lenient.perform ⟨"ci", [.enforcer]⟩ (.evaluateResource First.inquiry) =
      EvaluationRecord.create First.inquiry := by
  have hdenies : lenient.Denies .anonymous (Operation.evaluateResource First.inquiry).method :=
    denies_iff.2 (by decide)
  have hallows : ¬ lenient.Denies ⟨"ci", [.enforcer]⟩
      (Operation.evaluateResource First.inquiry).method := fun h => absurd (denies_iff.1 h) (by decide)
  exact ⟨hdenies, ((gate_decides _ _ _).1 hdenies).1, (gate_decides _ _ _).2.1 hallows⟩

end Gate
end Service
end Gatehouse
