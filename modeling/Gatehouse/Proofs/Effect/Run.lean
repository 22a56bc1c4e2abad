import Gatehouse.Effect.Program

/-!
# What a program may come to

A program asks and is told.  What it is told depends on surroundings that nobody controls: a rule
engine may fail today and answer tomorrow, a clock reads what it reads.  So a program has not one run
but many, and a guarantee has to hold of all of them.

1. **Settings.**  A setting says which replies a request may get in a state, and what the state is
   after a reply.  No function picks the reply: every one that is allowed may come, so the quantifier
   over runs is a quantifier over all surroundings, also those that remember what they were asked.
2. **Runs** (`Program.Runs`) go by the structure of the program: it is done, or some reply that is
   allowed is given and the program goes on with it.
3. **Ends** (`Ends`) are the runs of programs that may fail, taken apart at `>>=` by `ends_bind_ok` and
   `ends_bind_error`.  These two carry all that is proved of the service: a run of a long action is
   read off from left to right, one request at a time.
-/

namespace Gatehouse

/-- A request and the reply it got. -/
structure Exchange (S : Signature) where
  request : S.Request
  reply : S.Reply request

/-- How requests are answered. -/
structure Setting (S : Signature) (σ : Type) where
  /-- The reply may be given to the request in this state. -/
  allows : σ → (r : S.Request) → S.Reply r → Prop
  /-- The state after the reply. -/
  after : σ → (r : S.Request) → S.Reply r → σ

namespace Program

variable {S : Signature} {σ α β : Type} {e : Setting S σ}

/-- From one state a program may end with a result in another. -/
def Runs (e : Setting S σ) : Program S α → σ → α → σ → Prop
  | done a, s, b, t => b = a ∧ t = s
  | ask r next, s, b, t => ∃ reply, e.allows s r reply ∧ (next reply).Runs e (e.after s r reply) b t

theorem runs_done {a b : α} {s t : σ} : (done a).Runs e s b t ↔ b = a ∧ t = s := Iff.rfl

theorem runs_ask {r : S.Request} {next : S.Reply r → Program S α} {b : α} {s t : σ} :
    (ask r next).Runs e s b t ↔
      ∃ reply, e.allows s r reply ∧ (next reply).Runs e (e.after s r reply) b t := Iff.rfl

theorem runs_request {r : S.Request} {s t : σ} {reply : S.Reply r} :
    (request r).Runs e s reply t ↔ e.allows s r reply ∧ t = e.after s r reply := by
  constructor
  · rintro ⟨_, hr, rfl, rfl⟩
    exact ⟨hr, rfl⟩
  · rintro ⟨hr, rfl⟩
    exact ⟨reply, hr, rfl, rfl⟩

/-- A run of a composed program is a run of its first part and then one of its second. -/
theorem runs_bind {p : Program S α} {f : α → Program S β} {s t : σ} {b : β} :
    (p.bind f).Runs e s b t ↔ ∃ a m, p.Runs e s a m ∧ (f a).Runs e m b t := by
  induction p generalizing s with
  | done a =>
    constructor
    · exact fun h => ⟨a, s, ⟨rfl, rfl⟩, h⟩
    · rintro ⟨_, _, ⟨rfl, rfl⟩, h⟩
      exact h
  | ask r next ih =>
    constructor
    · rintro ⟨reply, hr, h⟩
      obtain ⟨a, m, h₁, h₂⟩ := (ih reply).1 h
      exact ⟨a, m, ⟨reply, hr, h₁⟩, h₂⟩
    · rintro ⟨a, m, ⟨reply, hr, h₁⟩, h₂⟩
      exact ⟨reply, hr, (ih reply).2 ⟨a, m, h₁, h₂⟩⟩

/-- **One step, any run.**  What every allowed request of a kind keeps, a run keeps that asks no
others. -/
theorem Asks.keeps {P : S.Request → Prop} {p : Program S α} (hp : p.Asks P) {I : σ → Prop}
    (step : ∀ s r reply, P r → e.allows s r reply → I s → I (e.after s r reply)) {s t : σ} {a : α}
    (h : p.Runs e s a t) (hs : I s) : I t := by
  induction p generalizing s with
  | done _ => obtain ⟨-, rfl⟩ := h; exact hs
  | ask r next ih =>
    obtain ⟨reply, hr, h⟩ := h
    exact ih reply (hp.2 reply) h (step s r reply hp.1 hr hs)

/-- What asks requests of one kind asks requests of any wider kind. -/
theorem Asks.mono {P Q : S.Request → Prop} {p : Program S α} (hp : p.Asks P) (h : ∀ r, P r → Q r) :
    p.Asks Q := by
  induction p with
  | done _ => trivial
  | ask r next ih => exact ⟨h r hp.1, fun reply => ih reply (hp.2 reply)⟩

theorem asks_true (p : Program S α) : p.Asks fun _ => True := by
  induction p with
  | done _ => trivial
  | ask r next ih => exact ⟨trivial, ih⟩

/-- The run that a world makes is one of the runs, if on this run the world answers as it may. -/
theorem runs_run (world : World S σ) (p : Program S α)
    (honest : ∀ s r, e.allows s r (world r s).1 ∧ (world r s).2 = e.after s r (world r s).1) (s : σ) :
    p.Runs e s (p.run world s).1 (p.run world s).2 := by
  induction p generalizing s with
  | done a => exact ⟨rfl, rfl⟩
  | ask r next ih =>
    obtain ⟨hr, hs⟩ := honest s r
    exact ⟨(world r s).1, hr, hs ▸ ih _ _⟩

end Program

/-! ## Programs that may fail -/

section Ends

variable {S : Signature} {σ α β ε : Type} {e : Setting S σ}

/-- From one state a program that may fail may end with a result, or with a failure, in another. -/
def Ends (e : Setting S σ) (a : ExceptT ε (Program S) α) (s : σ) (r : Except ε α) (t : σ) : Prop :=
  Program.Runs e a.run s r t

/-- The ends of a program that may fail are its runs. -/
theorem ends_iff {a : ExceptT ε (Program S) α} {s t : σ} {r : Except ε α} :
    Ends e a s r t ↔ Program.Runs e a.run s r t := Iff.rfl

@[simp] theorem ends_pure {a : α} {s t : σ} {r : Except ε α} :
    Ends e (pure a) s r t ↔ r = .ok a ∧ t = s := Iff.rfl

@[simp] theorem ends_throw {x : ε} {s t : σ} {r : Except ε α} :
    Ends e (throw x) s r t ↔ r = .error x ∧ t = s := Iff.rfl

theorem ends_liftM {x : Except ε α} {s t : σ} {r : Except ε α} :
    Ends e (liftM x : ExceptT ε (Program S) α) s r t ↔ r = x ∧ t = s := Iff.rfl

/-- A single request never fails by itself. -/
theorem ends_request {q : S.Request} {s t : σ} {r : Except ε (S.Reply q)} :
    Ends e (ExceptT.lift (Program.request q)) s r t ↔
      ∃ reply, e.allows s q reply ∧ r = .ok reply ∧ t = e.after s q reply := by
  constructor
  · rintro ⟨reply, hr, rfl, rfl⟩
    exact ⟨reply, hr, rfl, rfl⟩
  · rintro ⟨reply, hr, rfl, rfl⟩
    exact ⟨reply, hr, rfl, rfl⟩

theorem ends_bind {a : ExceptT ε (Program S) α} {f : α → ExceptT ε (Program S) β} {s t : σ}
    {r : Except ε β} :
    Ends e (a >>= f) s r t ↔
      (∃ x m, Ends e a s (.ok x) m ∧ Ends e (f x) m r t) ∨ ∃ x, Ends e a s (.error x) t ∧ r = .error x := by
  have h : Ends e (a >>= f) s r t ↔
      ∃ y m, Ends e a s y m ∧ Program.Runs e (ExceptT.bindCont f y) m r t := Program.runs_bind
  rw [h]
  constructor
  · rintro ⟨x | x, m, h₁, h₂⟩
    · obtain ⟨rfl, rfl⟩ := h₂
      exact .inr ⟨x, h₁, rfl⟩
    · exact .inl ⟨x, m, h₁, h₂⟩
  · rintro (⟨x, m, h₁, h₂⟩ | ⟨x, h₁, rfl⟩)
    · exact ⟨.ok x, m, h₁, h₂⟩
    · exact ⟨.error x, t, h₁, rfl, rfl⟩

/-- A sequence asks what its parts ask. -/
theorem asks_bind {P : S.Request → Prop} {a : ExceptT ε (Program S) α} {f : α → ExceptT ε (Program S) β}
    (ha : Program.Asks P a.run) (hf : ∀ x, Program.Asks P (f x).run) : Program.Asks P (a >>= f).run := by
  refine Program.Asks.bind ha fun r => ?_
  cases r with
  | ok x => exact hf x
  | error e => trivial

/-- A sequence that succeeds has succeeded at its first part. -/
theorem ends_bind_ok {a : ExceptT ε (Program S) α} {f : α → ExceptT ε (Program S) β} {s t : σ} {b : β} :
    Ends e (a >>= f) s (.ok b) t ↔ ∃ x m, Ends e a s (.ok x) m ∧ Ends e (f x) m (.ok b) t := by
  simp [ends_bind]

/-- A sequence fails at its first part or after it. -/
theorem ends_bind_error {a : ExceptT ε (Program S) α} {f : α → ExceptT ε (Program S) β} {s t : σ}
    {x : ε} :
    Ends e (a >>= f) s (.error x) t ↔
      Ends e a s (.error x) t ∨ ∃ y m, Ends e a s (.ok y) m ∧ Ends e (f y) m (.error x) t := by
  rw [ends_bind, or_comm]
  simp

end Ends

-- from here on runs and ends are taken apart by the lemmas, never by unfolding the program
attribute [irreducible] Program.Runs Ends

end Gatehouse
