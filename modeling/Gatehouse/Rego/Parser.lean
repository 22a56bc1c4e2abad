import Gatehouse.Rego.Token

/-!
# Parsers of tokens

A parser goes along a list of tokens and answers with a value, or says why there is none.

1. **The cursor** is what a parser reads and changes: the tokens from the next one on, and what surrounds
   them.  A newline ends an expression in a body and is a blank between brackets; a bar is the union
   operator, or the bar of a comprehension; and terms and bodies stand at some depth.  `withNewlines`,
   `withUnion` and `nested` change the surroundings for one parser and then set them back, whatever
   comes of it.
2. **The end.**  The last token is the end of the input.  It can be looked at, and `advance` does not go
   past it; but `skip` goes along the tokens without a look at where they end.
3. **Loops.**  `fold` and `many` repeat a step until it declines.  A step that does not decline has to use
   up a token, so a list of `n` tokens allows for `n` rounds.
4. **Being stuck.**  A parser that would read past the end, or go round a loop for longer than that, has
   no answer at all.
-/

namespace Gatehouse.Rego

open Gatehouse.Text

/-- Where a parser stands. -/
structure Cursor where
  /-- The tokens from the next one on. -/
  ahead : List Token
  /-- Whether a newline is a token, for everything around the next token, innermost first. -/
  newlines : List Bool
  /-- A bar is the union operator here. -/
  union : Bool
  /-- How many terms and bodies are around the next token. -/
  depth : Nat
  deriving Repr

namespace Cursor

/-- The cursor before the first token. -/
def start (tokens : List Token) : Cursor := ⟨tokens, [false], true, 0⟩

/-- A newline is a token here. -/
def keepsNewlines (c : Cursor) : Bool := c.newlines.head?.getD false

end Cursor

/-- What comes of a parser. -/
inductive Outcome (α : Type) where
  | done (a : α)
  | failed (e : SyntaxError)
  | stuck
  deriving Repr

/-- A parser of `α`: what comes of it, and where it leaves the cursor. -/
def Parser (α : Type) := Cursor → Outcome α × Cursor

namespace Parser

variable {α β σ : Type}

instance : Monad Parser where
  pure a := fun c => (.done a, c)
  bind p f := fun c =>
    match p c with
    | (.done a, c) => f a c
    | (.failed e, c) => (.failed e, c)
    | (.stuck, c) => (.stuck, c)

/-- Stop with an error. -/
def fail (e : SyntaxError) : Parser α := fun c => (.failed e, c)

/-- Have no answer. -/
def stuck : Parser α := fun c => (.stuck, c)

/-! ## Looking -/

/-- The tokens behind those that pass the test; `none` if there is no token behind them. -/
def behind? (test : Token → Bool) : List Token → Option (List Token)
  | [] => none
  | t :: ts => if test t then behind? test ts else some (t :: ts)

/-- Go past the tokens that pass the test. -/
def skip (test : Token → Bool) : Parser Unit := fun c =>
  match behind? test c.ahead with
  | some ahead => (.done (), { c with ahead })
  | none => (.stuck, c)

/-- The token is a newline. -/
def isNewline (t : Token) : Bool := t.kind = .newline

/-- Go past newlines, whatever they mean here. -/
def skipNewlines : Parser Unit := skip isNewline

/-- Go past newlines where they are blanks. -/
def settle : Parser Unit := fun c => if c.keepsNewlines then (.done (), c) else skipNewlines c

/-- The token under the cursor. -/
def current : Parser Token := fun c =>
  match c.ahead with
  | [] => (.stuck, c)
  | t :: _ => (.done t, c)

/-- The next token. -/
def peek : Parser Token := do
  settle
  current

/-- Leave the token under the cursor, unless it is the last one. -/
def leave : Parser Unit := fun c =>
  match c.ahead with
  | _ :: t :: ts => (.done (), { c with ahead := t :: ts })
  | _ => (.done (), c)

/-- Take the next token; the last one stays where it is. -/
def advance : Parser Token := do
  let next ← peek
  leave
  return next

/-- The place of the next token. -/
def place : Parser Location := return (← peek).location

/-- The source ends here. -/
def atEnd : Parser Bool := return (← peek).kind = .endOfInput

/-- The next token is the given symbol. -/
def atSymbol (s : Symbol) : Parser Bool := return (← peek).kind = .symbol s

/-- The next token is the given symbol, and nothing parts it from the token before. -/
def atTight (s : Symbol) : Parser Bool := do
  let next ← peek
  return next.kind = .symbol s && !next.spaced

/-- The next token is the given word. -/
def atWord (word : String) : Parser Bool := return (← peek).kind = .name word

/-! ## Taking -/

/-- Take the next token if it passes the test. -/
def takeIf (test : Parser Bool) : Parser Bool := do
  if ← test then
    let _ ← advance
    return true
  else return false

/-- Take the given symbol, if it comes next. -/
def takeSymbol (s : Symbol) : Parser Bool := takeIf (atSymbol s)

/-- Take the given word, if it comes next. -/
def takeWord (word : String) : Parser Bool := takeIf (atWord word)

/-- Complain about the next token. -/
def unexpected (expected : String) : Parser α := do
  let next ← peek
  if next.kind = .endOfInput then fail (.unexpectedEnd expected)
  else fail (.unexpectedToken next.kind expected next.location)

/-- The given symbol has to come next. -/
def expectSymbol (s : Symbol) : Parser Unit := do
  if ← takeSymbol s then return () else unexpected (quoted s.text)

/-- The given word has to come next. -/
def expectWord (word : String) : Parser Unit := do
  if ← takeWord word then return () else unexpected ("keyword " ++ quoted word)

/-- A name that passes the test has to come next. -/
def expectName (test : String → Bool) (expected : String) : Parser String := do
  match (← peek).kind with
  | .name text =>
    if test text then
      let _ ← advance
      return text
    else unexpected expected
  | _ => unexpected expected

/-! ## Surroundings -/

/-- Run a parser where newlines are tokens, or where they are blanks. -/
def withNewlines (significant : Bool) (p : Parser α) : Parser α := fun c =>
  let (outcome, after) := p { c with newlines := significant :: c.newlines }
  (outcome, { after with newlines := after.newlines.tail })

/-- Run a parser where a bar is the union operator, or where it is not. -/
def withUnion (allowed : Bool) (p : Parser α) : Parser α := fun c =>
  let (outcome, after) := p { c with union := allowed }
  (outcome, { after with union := c.union })

/-- The levels to which terms and bodies nest. -/
def maxNesting : Nat := 16

/-- Complain that there are too many levels. -/
def tooDeep : Parser α := do
  let location ← place
  fail (.nestingTooDeep maxNesting location)

/-- Run a parser one level further in. -/
def nested (p : Parser α) : Parser α := fun c =>
  if maxNesting ≤ c.depth then tooDeep c
  else
    let (outcome, after) := p { c with depth := c.depth + 1 }
    (outcome, { after with depth := after.depth - 1 })

/-! ## Loops -/

/-- A value carried through the rounds of a step, of which that many are allowed for. -/
def foldUpTo (step : σ → Parser (Option σ)) : Nat → σ → Parser σ
  | 0, _ => stuck
  | n + 1, s => do
    match ← step s with
    | some s => foldUpTo step n s
    | none => return s

/-- A value carried through the rounds of a step, up to the first time that it declines. -/
def fold (step : σ → Parser (Option σ)) (s : σ) : Parser σ := fun c =>
  foldUpTo step c.ahead.length s c

/-- One more value before the ones that were found. -/
def gather (step : Parser (Option α)) (found : List α) : Parser (Option (List α)) :=
  return (← step).map (· :: found)

/-- The values of a step, up to the first time that it declines. -/
def many (step : Parser (Option α)) : Parser (List α) :=
  return (← fold (gather step) []).reverse

/-! ## Runs -/

/-- What follows a parser goes on where the parser stopped. -/
theorem bind_apply (p : Parser α) (f : α → Parser β) (c : Cursor) :
    (p >>= f) c = match p c with
      | (.done a, c) => f a c
      | (.failed e, c) => (.failed e, c)
      | (.stuck, c) => (.stuck, c) := rfl

end Parser
end Gatehouse.Rego
