import Gatehouse.Proofs.Effect.Run
import Mathlib.Logic.Function.Basic

/-!
# Programs that run at the same time

Several programs share one state.  Each of them asks one request at a time, a request and its reply are
one step, and between two steps of one program the others may take any number of theirs.

1. **Interleavings** (`Interleaves`) are sequences of such steps.  A program need not come to its end:
   one that takes no more steps is a program that was abandoned, and one that takes none is a call that
   nobody made.
2. **Pacts** (`Pact`) say what a program relies on and what it guarantees.  It relies on the invariant and
   on what the others do between two of its steps, and it keeps the invariant in each of its own.
3. **Withstanding** (`Program.Withstands`).  A request is not answered in the state in which the program
   came to ask it, but in any later one that the others may lead to.  So what a program knows of the state
   has to be true of whatever they leave behind.
4. **The crux** is `Interleaves.withstands`: if every program withstands the others, and what each of
   them does is what the others rely on, the invariant holds after every interleaving.
5. **One request at a time.**  What is known of the runs of a program carries over to its steps among
   others if it asks no more than once (`Program.Withstands.of_asksAtMost_one`): nobody can come between.
-/

namespace Gatehouse

variable {S : Signature} {σ α β : Type}

namespace Program

/-! ## How often a program asks -/

/-- However it is answered, the program asks no more than so many requests. -/
def AsksAtMost : Nat → Program S α → Prop
  | _, done _ => True
  | 0, ask _ _ => False
  | n + 1, ask _ next => ∀ reply, (next reply).AsksAtMost n

theorem AsksAtMost.mono {m n : Nat} {p : Program S α} (hp : p.AsksAtMost m) (hmn : m ≤ n) :
    p.AsksAtMost n := by
  induction p generalizing m n with
  | done a => cases n <;> trivial
  | ask r next ih =>
    cases m with
    | zero => exact absurd hp id
    | succ m =>
      cases n with
      | zero => omega
      | succ n => exact fun reply => ih reply (hp reply) (by omega)

theorem AsksAtMost.bind {m n : Nat} {p : Program S α} {f : α → Program S β} (hp : p.AsksAtMost m)
    (hf : ∀ a, (f a).AsksAtMost n) : (p.bind f).AsksAtMost (m + n) := by
  induction p generalizing m with
  | done a => exact (hf a).mono (Nat.le_add_left n m)
  | ask r next ih =>
    cases m with
    | zero => exact absurd hp id
    | succ m =>
      rw [Nat.succ_add]
      exact fun reply => ih reply (hp reply)

/-! ## Withstanding the others -/

end Program

/-- What a program relies on while others run, and what it guarantees to them. -/
structure Pact (σ : Type) where
  /-- Holds at every moment. -/
  inv : σ → Prop
  /-- What the others may do between two steps of the program. -/
  rely : σ → σ → Prop
  /-- What each step of the program does. -/
  step : σ → σ → Prop
  /-- Holds as long as the program is not done. -/
  pending : σ → Prop
  refl : ∀ s, rely s s
  trans : ∀ {s t u}, rely s t → rely t u → rely s u
  stable : ∀ {s t}, rely s t → inv t → pending s → pending t

namespace Program

section Withstands

variable {e : Setting S σ} {k : Pact σ} {Q : α → σ → Prop} {s t : σ}

/-- Whatever the others do between two steps, so long as the program may rely on it: each step keeps the
pact, and the program ends with a result and in a state that are in `Q`. -/
def Withstands (e : Setting S σ) (k : Pact σ) (Q : α → σ → Prop) : Program S α → σ → Prop
  | done a, s => Q a s
  | ask r next, s => k.pending s ∧ ∀ t, k.rely s t → k.inv t → ∀ reply, e.allows t r reply →
      k.inv (e.after t r reply) ∧ k.step t (e.after t r reply) ∧
        (next reply).Withstands e k Q (e.after t r reply)

/-- Less may be asked of the ends of a program. -/
theorem Withstands.imp {p : Program S α} {Q' : α → σ → Prop} (hp : p.Withstands e k Q s)
    (hQ : ∀ a t, Q a t → Q' a t) : p.Withstands e k Q' s := by
  induction p generalizing s with
  | done a => exact hQ a s hp
  | ask r next ih =>
    obtain ⟨hpending, hp⟩ := hp
    refine ⟨hpending, fun t ht hI reply hreply => ?_⟩
    obtain ⟨hafter, hstep, hnext⟩ := hp t ht hI reply hreply
    exact ⟨hafter, hstep, ih reply hnext⟩

/-- A composed program withstands the others if its first part does, and leads to where its second
does. -/
theorem Withstands.bind {p : Program S α} {f : α → Program S β} {Q : β → σ → Prop}
    (hp : p.Withstands e k (fun a t => (f a).Withstands e k Q t) s) : (p.bind f).Withstands e k Q s := by
  induction p generalizing s with
  | done a => exact hp
  | ask r next ih =>
    obtain ⟨hpending, hp⟩ := hp
    refine ⟨hpending, fun t ht hI reply hreply => ?_⟩
    obtain ⟨hafter, hstep, hnext⟩ := hp t ht hI reply hreply
    exact ⟨hafter, hstep, ih reply hnext⟩

/-- A program that withstands the others from one state does so from what they make of it. -/
theorem Withstands.mono {p : Program S α} (hp : p.Withstands e k Q s) (hst : k.rely s t) (hI : k.inv t)
    (hstable : ∀ {a s t}, k.rely s t → k.inv t → Q a s → Q a t) : p.Withstands e k Q t := by
  cases p with
  | done a => exact hstable hst hI hp
  | ask r next => exact ⟨k.stable hst hI hp.1, fun u htu => hp.2 u (k.trans hst htu)⟩

/-- **Nobody comes between the parts of one request.**  A program that asks at most once withstands the
others if all of its runs do well, from whatever state the others lead to. -/
theorem Withstands.of_asksAtMost_one {p : Program S α} (hp : p.AsksAtMost 1) (hI : k.inv s)
    (hpending : k.pending s) (hruns : ∀ t, k.rely s t → k.inv t → ∀ a u, p.Runs e t a u →
      k.inv u ∧ k.step t u ∧ Q a u) : p.Withstands e k Q s := by
  cases p with
  | done a => exact (hruns s (k.refl s) hI a s (runs_done.2 ⟨rfl, rfl⟩)).2.2
  | ask r next =>
    refine ⟨hpending, fun t ht hI' reply hreply => ?_⟩
    have hdone := hp reply
    cases hnext : next reply with
    | done a =>
      refine hruns t ht hI' a _ (runs_ask.2 ⟨reply, hreply, ?_⟩)
      rw [hnext]
      exact runs_done.2 ⟨rfl, rfl⟩
    | ask r' next' =>
      rw [hnext] at hdone
      exact absurd hdone id

end Withstands
end Program

/-! ## Interleavings -/

section Interleaves

variable {ι : Type} [DecidableEq ι] {α : ι → Type} {e : ι → Setting S σ}

/-- From some programs and a state of theirs to what is left of them and a later state: steps of one
program or another, in any order. -/
inductive Interleaves (e : ι → Setting S σ) :
    ((i : ι) → Program S (α i)) → σ → ((i : ι) → Program S (α i)) → σ → Prop
  | nil (pool : (i : ι) → Program S (α i)) (s : σ) : Interleaves e pool s pool s
  | cons {pool pool' : (i : ι) → Program S (α i)} {s t : σ} {i : ι} {q : S.Request}
      {next : S.Reply q → Program S (α i)} {reply : S.Reply q}
      (asks : pool i = .ask q next) (allows : (e i).allows s q reply)
      (rest : Interleaves e (Function.update pool i (next reply)) ((e i).after s q reply) pool' t) :
      Interleaves e pool s pool' t

variable {pool pool' pool'' : (i : ι) → Program S (α i)} {s t u : σ}

theorem Interleaves.append (h : Interleaves e pool s pool' t) (h' : Interleaves e pool' t pool'' u) :
    Interleaves e pool s pool'' u := by
  induction h with
  | nil => exact h'
  | cons asks allows _ ih => exact .cons asks allows (ih h')

/-- A run of the first part of one program is an interleaving in which the others wait. -/
theorem Interleaves.of_runs {γ : Type} {i : ι} {p : Program S γ} {f : γ → Program S (α i)} {a : γ}
    (hpool : pool i = p.bind f) (hrun : p.Runs (e i) s a t) :
    Interleaves e pool s (Function.update pool i (f a)) t := by
  induction p generalizing pool s with
  | done b =>
    obtain ⟨rfl, rfl⟩ := Program.runs_done.1 hrun
    have hsame : Function.update pool i (f a) = pool := by
      rw [show f a = pool i from hpool.symm, Function.update_eq_self]
    rw [hsame]
    exact .nil pool t
  | ask q next ih =>
    obtain ⟨reply, hreply, hrest⟩ := Program.runs_ask.1 hrun
    have hasked : pool i = .ask q fun reply => (next reply).bind f := hpool
    have hnext : Function.update pool i ((next reply).bind f) i = (next reply).bind f :=
      Function.update_self ..
    have hlater := ih reply hnext hrest
    rw [Function.update_idem] at hlater
    exact .cons hasked hreply hlater

/-- **If every program withstands the others, the invariant holds at every moment**, the state has gone
the way of the steps, and what is left of the programs still withstands the others. -/
theorem Interleaves.withstands {I : σ → Prop} {G : σ → σ → Prop} {k : ι → Pact σ}
    {Q : (i : ι) → α i → σ → Prop} (hinv : ∀ i, (k i).inv = I) (hrefl : ∀ s, G s s)
    (htrans : ∀ {s t u}, G s t → G t u → G s u) (hsteps : ∀ i {s t}, (k i).step s t → G s t)
    (hothers : ∀ {i j : ι}, i ≠ j → ∀ {s q reply}, (e j).allows s q reply →
      (k j).step s ((e j).after s q reply) → (k i).rely s ((e j).after s q reply))
    (hstable : ∀ i {a s t}, (k i).rely s t → I t → Q i a s → Q i a t)
    (hrun : Interleaves e pool s pool' t) (hI : I s)
    (hpool : ∀ i, (pool i).Withstands (e i) (k i) (Q i) s) :
    I t ∧ G s t ∧ ∀ i, (pool' i).Withstands (e i) (k i) (Q i) t := by
  induction hrun with
  | nil s => exact ⟨hI, hrefl _, hpool⟩
  | @cons pool pool' s t i q next reply asks allows rest ih =>
    have hi := hpool i
    rw [asks] at hi
    obtain ⟨hafter, hstep, hnext⟩ := hi.2 s ((k i).refl s) (hinv i ▸ hI) reply allows
    rw [hinv i] at hafter
    have hrest := ih hafter fun j => by
      by_cases hji : j = i
      · subst hji
        rw [Function.update_self]
        exact hnext
      · -- for the others it is a step that they reckon with
        have hj := hpool j
        rw [Function.update_of_ne hji]
        refine hj.mono (hothers hji allows hstep) ((hinv j).symm ▸ hafter) fun hst hI' => ?_
        exact hstable j hst (hinv j ▸ hI')
    exact ⟨hrest.1, htrans (hsteps i hstep) hrest.2.1, hrest.2.2⟩

end Interleaves

/-! ## Programs that may fail -/

section Fallible

variable {ε : Type} {e : Setting S σ} {k : Pact σ} {s : σ}

/-- A sequence withstands the others if its first part does, and leads to where its second does or to an
acceptable failure. -/
theorem withstands_bind {a : ExceptT ε (Program S) α} {f : α → ExceptT ε (Program S) β}
    {Q : Except ε β → σ → Prop}
    (ha : a.run.Withstands e k (fun r t => match r with
      | .ok x => (f x).run.Withstands e k Q t
      | .error x => Q (.error x) t) s) : (a >>= f).run.Withstands e k Q s := by
  refine Program.Withstands.bind (f := ExceptT.bindCont f) ?_
  have hcont : (fun (r : Except ε α) t => (ExceptT.bindCont f r).Withstands e k Q t) =
      fun r t => match r with
        | .ok x => (f x).run.Withstands e k Q t
        | .error x => Q (.error x) t := by
    funext r t
    cases r <;> rfl
  rw [hcont]
  exact ha

theorem asksAtMost_bind {m n : Nat} {a : ExceptT ε (Program S) α} {f : α → ExceptT ε (Program S) β}
    (ha : a.run.AsksAtMost m) (hf : ∀ x, (f x).run.AsksAtMost n) : (a >>= f).run.AsksAtMost (m + n) := by
  refine Program.AsksAtMost.bind (f := ExceptT.bindCont f) ha fun r => ?_
  cases r with
  | ok x => exact hf x
  | error x => cases n <;> trivial

end Fallible
end Gatehouse
