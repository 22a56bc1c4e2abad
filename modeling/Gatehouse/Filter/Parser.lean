import Gatehouse.Filter.Expr
import Gatehouse.Filter.Token.Lexer

/-!
# Reading filters

```text
expr    := and ("||" and)*
and     := unary ("&&" unary)*
unary   := "!" unary | "(" expr ")" | test
test    := operand (comparison operand)? | path "." function "(" string ")"
operand := path | string | number | true | false | null
```

1. **Program.**  A rule takes what it needs off the head of the tokens and answers the rest.  Each
   rule is a plain function of the rule for what stands in parentheses; `expression n` ties the knot
   for `n` levels of them.  A level needs a token of its own, so the number of tokens is enough, and
   `expression 0` is only ever asked about no tokens at all.
2. **Chains** associate to the left.
3. **Calls.**  The last name of a path is a function exactly when a parenthesis follows it.
4. **Errors** are about the head of the tokens that are left; without one, about the end of the text.
-/

namespace Gatehouse.Filter

/-- What a rule answers: a value and the tokens it left, or a complaint about the head of some
tokens. -/
abbrev Reading (α : Type) := Except (Complaint × List Token) (α × List Token)

/-- Go on with the value and the tokens that are left. -/
def Reading.andThen {α β : Type} (r : Reading α) (f : α → List Token → Reading β) : Reading β :=
  match r with
  | .ok (a, rest) => f a rest
  | .error e => .error e

/-- Complain that something else is needed. -/
def needs {α : Type} (expected : String) (tokens : List Token) : Reading α :=
  .error (.needs expected (tokens.head?.map Token.word), tokens)

/-! ## Operands -/

/-- What follows the first name of a path: names, up to a function that is called. -/
def pathTail : List Token → Reading (List String × Option Function)
  | ⟨.dot, _⟩ :: ⟨.name name, p⟩ :: ⟨.lparen, q⟩ :: rest =>
    match Function.ofName? name with
    | some function => .ok (([], some function), rest)
    | none => .error (.unknownFunction name, ⟨.name name, p⟩ :: ⟨.lparen, q⟩ :: rest)
  | ⟨.dot, _⟩ :: ⟨.name name, _⟩ :: rest =>
    (pathTail rest).andThen fun (names, function) rest => .ok ((name :: names, function), rest)
  | ⟨.dot, _⟩ :: rest => needs "field" rest
  | tokens => .ok (([], none), tokens)

/-- The value that a word is. -/
def literal? : Word → Option Json
  | .string value => some (.string value)
  | .number value => some (.number (.double value))
  | .bool value => some (.bool value)
  | .null => some .null
  | _ => none

/-- The word is a number beyond all doubles. -/
def isInfinite : Word → Bool
  | .number value => !value.isFinite
  | _ => false

/-- A literal. -/
def literal : List Token → Reading Json
  | [] => needs "field or literal" []
  | token :: rest =>
    if isInfinite token.word then needs "finite number" (token :: rest)
    else
      match literal? token.word with
      | some value => .ok (value, rest)
      | none => needs "field or literal" (token :: rest)

/-- An operand on the right. -/
def operand : List Token → Reading Operand
  | ⟨.name name, _⟩ :: rest =>
    (pathTail rest).andThen fun (names, function) rest =>
      if function.isSome then needs "field or literal" rest else .ok (.field (name :: names), rest)
  | tokens => (literal tokens).andThen fun value rest => .ok (.literal value, rest)

/-! ## Tests -/

/-- A closing parenthesis. -/
def close {α : Type} (value : α) : List Token → Reading α
  | ⟨.rparen, _⟩ :: rest => .ok (value, rest)
  | tokens => needs "\")\"" tokens

/-- The argument of a call and its closing parenthesis. -/
def call (path : List String) (function : Function) : List Token → Reading Expr
  | ⟨.string argument, _⟩ :: rest => close (.call path function argument) rest
  | tokens => needs "string argument" tokens

/-- A comparison of a left operand; `alone` is what there is without one. -/
def comparison (left : Operand) (alone : List Token → Reading Expr) : List Token → Reading Expr
  | ⟨.comparison op, _⟩ :: rest =>
    (operand rest).andThen fun right rest => .ok (.compare left op right, rest)
  | tokens => alone tokens

/-- A test. -/
def test : List Token → Reading Expr
  | ⟨.name name, _⟩ :: rest =>
    (pathTail rest).andThen fun (names, function) rest =>
      let path := name :: names
      match function with
      | some function => call path function rest
      | none => comparison (.field path) (fun rest => .ok (.truthy path, rest)) rest
  | tokens =>
    (literal tokens).andThen fun value rest =>
      comparison (.literal value) (needs "comparison operator") rest

/-! ## Connectives -/

/-- What `!` and parentheses apply to; `inner` reads what stands in parentheses. -/
def unary (inner : List Token → Reading Expr) : List Token → Reading Expr
  | ⟨.not, _⟩ :: rest => (unary inner rest).andThen fun e rest => .ok (.not e, rest)
  | ⟨.lparen, _⟩ :: rest => (inner rest).andThen close
  | tokens => test tokens

/-- At most `n` more items of a chain, each after its mark. -/
def chainTail (mark : Word) (join : Expr → Expr → Expr) (item : List Token → Reading Expr) :
    Nat → Expr → List Token → Reading Expr
  | n + 1, left, token :: rest =>
    if token.word = mark then
      (item rest).andThen fun right rest => chainTail mark join item n (join left right) rest
    else .ok (left, token :: rest)
  | _, left, tokens => .ok (left, tokens)

/-- A chain of items parted by a mark, joined to the left. -/
def chain (mark : Word) (join : Expr → Expr → Expr) (item : List Token → Reading Expr)
    (tokens : List Token) : Reading Expr :=
  (item tokens).andThen fun first rest => chainTail mark join item rest.length first rest

/-- An expression whose parentheses nest at most `n` deep. -/
def expression : Nat → List Token → Reading Expr
  | 0 => needs "field or literal"
  | n + 1 => chain .or .or (chain .and .and (unary (expression n)))

/-! ## Filters -/

/-- The expression of all tokens. -/
def Expr.ofTokens? (tokens : List Token) : Except (Complaint × List Token) Expr :=
  match tokens with
  | [] => .error (.empty, [])
  | _ :: _ =>
    match expression tokens.length tokens with
    | .ok (e, []) => .ok e
    | .ok (_, token :: rest) => .error (.unexpected token.word, token :: rest)
    | .error e => .error e

/-- The place of a complaint about the head of some tokens: that of the head, or the end. -/
def placed (finish : Nat) : Complaint × List Token → FilterError
  | (.empty, _) => ⟨.empty, 0⟩
  | (complaint, tokens) => ⟨complaint, (tokens.head?.map Token.position).getD finish⟩

/-- The expression that a text is. -/
def Expr.ofText? (text : String) : Except FilterError Expr := do
  let tokens ← tokenize text
  (Expr.ofTokens? tokens).mapError (placed text.utf8ByteSize)

end Gatehouse.Filter
