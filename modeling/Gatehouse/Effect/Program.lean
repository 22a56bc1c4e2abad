/-!
# Programs with effects

What the service does is decided by what it is told in between: by its store, its collaborators, the
clock.  A program is the tree of all that may happen: it is done, or it asks something and goes on
according to the reply.

1. **Signatures** say what may be asked and of what type the reply is.
2. **Programs** compose with `bind`, which grafts the second program on every end of the first.
3. **Running.**  A world answers a request and is changed by it; `run` lets a world answer until the
   program is done.  A program is finite along every path, so every run ends.
4. **Rewording.**  `reword` replaces each request by a program over another signature: so a service
   that asks for policies becomes one that sends requests over a wire.
5. **Restraint.**  `Asks P` says of a program that every request it may make satisfies `P`, whatever
   the replies are.
-/

namespace Gatehouse

/-- What may be asked, and what is replied. -/
structure Signature where
  Request : Type
  Reply : Request → Type

/-- A program that asks the requests of a signature and ends with an `α`. -/
inductive Program (S : Signature) (α : Type) where
  | done (a : α)
  | ask (r : S.Request) (next : S.Reply r → Program S α)

namespace Program

variable {S T : Signature} {α β γ σ : Type}

/-- Go on with the result of a program. -/
def bind : Program S α → (α → Program S β) → Program S β
  | done a, f => f a
  | ask r next, f => ask r fun reply => (next reply).bind f

instance : Monad (Program S) where
  pure := done
  bind := bind

/-- Ask one request. -/
def request (r : S.Request) : Program S (S.Reply r) := ask r done

/-! ## Running -/

/-- Answers requests and is changed by them. -/
abbrev World (S : Signature) (σ : Type) := (r : S.Request) → σ → S.Reply r × σ

/-- Let a world answer until the program is done. -/
def run (world : World S σ) : Program S α → σ → α × σ
  | done a, s => (a, s)
  | ask r next, s => run world (next (world r s).1) (world r s).2

/-- The program with every request replaced by a program. -/
def reword (f : (r : S.Request) → Program T (S.Reply r)) : Program S α → Program T α
  | done a => done a
  | ask r next => (f r).bind fun reply => (next reply).reword f

/-- Every request that a program may make satisfies `P`. -/
def Asks (P : S.Request → Prop) : Program S α → Prop
  | done _ => True
  | ask r next => P r ∧ ∀ reply, (next reply).Asks P

/-! ## Laws -/

@[simp] theorem done_bind (a : α) (f : α → Program S β) : (done a).bind f = f a := rfl

theorem bind_done (p : Program S α) : p.bind done = p := by
  induction p with
  | done a => rfl
  | ask r next ih => simp only [bind, ih]

theorem bind_assoc (p : Program S α) (f : α → Program S β) (g : β → Program S γ) :
    (p.bind f).bind g = p.bind fun a => (f a).bind g := by
  induction p with
  | done a => rfl
  | ask r next ih => simp only [bind, ih]

instance : LawfulMonad (Program S) :=
  LawfulMonad.mk' _ bind_done (fun _ _ => rfl) bind_assoc

/-- A composed program runs as its parts one after the other. -/
theorem run_bind (world : World S σ) (p : Program S α) (f : α → Program S β) (s : σ) :
    (p.bind f).run world s = (f (p.run world s).1).run world (p.run world s).2 := by
  induction p generalizing s with
  | done a => rfl
  | ask r next ih => simp only [bind, run, ih]

/-- A composed program asks what its parts ask. -/
theorem Asks.bind {P : S.Request → Prop} {p : Program S α} {f : α → Program S β}
    (hp : p.Asks P) (hf : ∀ a, (f a).Asks P) : (p.bind f).Asks P := by
  induction p with
  | done a => exact hf a
  | ask r next ih => exact ⟨hp.1, fun reply => ih reply (hp.2 reply)⟩

/-- A world that requests of a kind leave alone is the same after a program that asks no others. -/
theorem Asks.run_snd {world : World S σ} {P : S.Request → Prop} {p : Program S α} (hp : p.Asks P)
    (quiet : ∀ r s, P r → (world r s).2 = s) (s : σ) : (p.run world s).2 = s := by
  induction p generalizing s with
  | done a => rfl
  | ask r next ih => rw [Program.run, quiet r s hp.1]; exact ih _ (hp.2 _) s

end Program
end Gatehouse
