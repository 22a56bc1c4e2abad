import Gatehouse.Rego.Parser
import Gatehouse.Rego.Tree
import Gatehouse.Rego.Token.Lexer

/-!
# The grammar of Rego

`Module.ofSource?` reads a policy.

1. **Nesting (the crux).**  Terms and bodies nest, and the depth to which they may is bounded by
   `maxNesting`.  `Inner` holds the parsers of what stands one level further in, and every rule of
   the grammar is a plain function of it.  `inner n` ties the knot with `n` levels to spare: its
   term parser is the grammar's over `inner (n - 1)`, one level further in.  So the grammar needs no
   recursion of its own.  The cursor counts the levels too, and `nested` complains when the count is
   full, which is when `inner` has none to spare.
2. **Operators.**  `binary` climbs by precedence: it joins terms to the left by the operators that bind
   at least as tightly as asked for, and right operands by tighter ones.  `expression` admits all
   operators, `value` all but `:=` and `=`, `operand` neither those nor `in`.
3. **Bodies.**  Inside braces a newline or a semicolon ends an expression; between brackets of any
   kind a newline is a blank.
4. **Bars.**  Directly inside a collection literal a bar would start a comprehension, so the elements
   are read without the union operator; parentheses, indices and arguments give it back.
-/

namespace Gatehouse.Rego

open Gatehouse.Text Gatehouse.Rego.Parser

/-- Words that are no names of rules, variables or packages. -/
def keywords : List String :=
  ["package", "import", "as", "default", "not", "with", "some", "every", "if", "contains", "else",
   "in"]

/-- A word that may name something. -/
def isPlainName (name : String) : Bool := !keywords.contains name

/-- A name that is no keyword has to come next. -/
def plainName (expected : String) : Parser String := expectName isPlainName expected

/-- The parsers of what stands one level further in. -/
structure Inner where
  term : Parser Term
  body : Parser Body

/-! ## Operators -/

/-- The operator that a token is, given whether the union operator is among them. -/
def operator? (union : Bool) : Kind → Option BinOp
  | .symbol .assign => some .assign
  | .symbol .unify => some .unify
  | .name word => if word = "in" then some .member else none
  | .symbol .eq => some .eq
  | .symbol .neq => some .neq
  | .symbol .lt => some .lt
  | .symbol .lte => some .lte
  | .symbol .gt => some .gt
  | .symbol .gte => some .gte
  | .symbol .pipe => if union then some .union else none
  | .symbol .amp => some .intersect
  | .symbol .plus => some .add
  | .symbol .minus => some .sub
  | .symbol .star => some .mul
  | .symbol .slash => some .div
  | .symbol .percent => some .rem
  | _ => none

/-- The operator that comes next, if one does. -/
def operator : Parser (Option BinOp) := do
  let next ← peek
  fun c => (.done (operator? c.union next.kind), c)

/-- One more operator that binds at least as tightly as asked for, and its right operand, which has to be
joined more tightly. -/
def joinStep (right : Nat → Parser Term) (least : Nat) (left : Term) : Parser (Option Term) := do
  match ← operator with
  | some op =>
    if op.precedence < least then return none
    else
      let _ ← advance
      let rhs ← right (op.precedence + 1)
      return some (.binary op left rhs)
  | none => return none

/-- Terms joined by operators that bind at least as tightly as asked for, of at most that many different
precedences inside each other. -/
def binaryUpTo (term : Parser Term) : Nat → Nat → Parser Term
  | 0, _ => stuck
  | n + 1, least => do
    let first ← term
    fold (joinStep (binaryUpTo term n) least) first

/-- Terms joined by operators that bind at least as tightly as asked for. -/
def binary (inner : Inner) (least : Nat) : Parser Term := binaryUpTo inner.term 8 least

/-- A term with any operators. -/
def expression (inner : Inner) : Parser Term := binary inner 0

/-- A term with any operators but `:=` and `=`. -/
def value (inner : Inner) : Parser Term := binary inner 1

/-- A term with any operators but `:=`, `=` and `in`. -/
def operand (inner : Inner) : Parser Term := binary inner 2

/-! ## Lists -/

/-- One more item after a comma, which may also stand before the closing symbol. -/
def afterComma {α : Type} (close : Symbol) (item : Parser α) : Parser (Option α) := do
  if ← takeSymbol .comma then
    if ← atSymbol close then return none else return some (← item)
  else return none

/-- Items parted by commas up to and including the closing symbol. -/
def listUntil {α : Type} (close : Symbol) (item : Parser α) : Parser (List α) := do
  if ← atSymbol close then
    expectSymbol close
    return []
  else
    let first ← item
    let rest ← many (afterComma close item)
    expectSymbol close
    return first :: rest

/-- Arguments after an opening parenthesis. -/
def arguments (inner : Inner) : Parser (List Term) :=
  withNewlines false (withUnion true (listUntil .rparen (expression inner)))

/-! ## Bodies -/

/-- One more name of a declaration. -/
def afterCommaOperand (inner : Inner) : Parser (Option Term) := do
  if ← takeSymbol .comma then return some (← operand inner) else return none

/-- The variables that terms are; `none` if one is not. -/
def asVars? (terms : List Term) : Option (List String) := terms.mapM Term.asVar?

/-- What follows `some`. -/
def declaration (inner : Inner) : Parser Goal := do
  let first ← operand inner
  let rest ← many (afterCommaOperand inner)
  if ← takeWord "in" then
    let collection ← operand inner
    match rest with
    | [] => return .someIn none first collection
    | [second] => return .someIn (some first) second collection
    | _ => unexpected "at most two variables before \"in\""
  else
    match asVars? (first :: rest) with
    | some names => return .declare names
    | none => unexpected "variable in some declaration"

/-- The variables of `every`: an item, or a key and an item. -/
def iteration (inner : Inner) : Parser (Option Term × Term) := do
  let first ← inner.term
  if ← takeSymbol .comma then
    let second ← inner.term
    return (some first, second)
  else return (none, first)

/-- What follows `every`. -/
def quantification (inner : Inner) : Parser Goal := do
  let (key, item) ← iteration inner
  expectWord "in"
  let domain ← operand inner
  let body ← inner.body
  return .every key item domain body

/-- One more `with` clause. -/
def replacement (inner : Inner) : Parser (Option (Term × Term)) := do
  if ← takeWord "with" then
    let target ← value inner
    expectWord "as"
    let replaced ← value inner
    return some (target, replaced)
  else return none

/-- One expression of a body. -/
def literal (inner : Inner) : Parser Expr := do
  let location ← place
  if ← takeWord "some" then
    let goal ← declaration inner
    return .mk goal false [] location
  else if ← takeWord "every" then
    let goal ← quantification inner
    return .mk goal false [] location
  else
    let negated ← takeWord "not"
    let term ← expression inner
    let replacing ← many (replacement inner)
    return .mk (.term term) negated replacing location

/-- A token between two expressions. -/
def isSeparator (t : Token) : Bool := t.kind = .newline || t.kind = .symbol .semicolon

/-- Go past separators. -/
def skipSeparators : Parser Unit := skip isSeparator

/-- One more expression of a body, which a separator or the closing symbol has to follow. -/
def bodyStep (inner : Inner) (close : Symbol) : Parser (Option Expr) := do
  skipSeparators
  if ← atSymbol close then return none
  else
    let expr ← literal inner
    let next ← peek
    if isSeparator next || next.kind = .symbol close then return some expr
    else unexpected "\";\" or newline"

/-- Expressions up to the closing symbol, which is left. -/
def query (inner : Inner) (close : Symbol) : Parser Body :=
  withNewlines true (many (bodyStep inner close))

/-- A body in braces. -/
def block (inner : Inner) : Parser Body := do
  expectSymbol .lbrace
  let body ← query inner .rbrace
  expectSymbol .rbrace
  return body

/-! ## Terms -/

/-- One more access or call, which nothing may part from the term before it. -/
def postfixStep (inner : Inner) (t : Term) : Parser (Option Term) := do
  if ← takeIf (atTight .dot) then
    let field ← expectName (fun _ => true) "field name"
    return some (t.access (.dot field))
  else if ← takeIf (atTight .lbracket) then
    let index ← withNewlines false (withUnion true (expression inner))
    expectSymbol .rbracket
    return some (t.access (.index index))
  else if ← takeIf (atTight .lparen) then
    let args ← arguments inner
    return some (.call t args)
  else return none

/-- A term with the accesses and calls that follow it. -/
def accessed (inner : Inner) (t : Term) : Parser Term := fold (postfixStep inner) t

/-- An element of a collection literal. -/
def element (inner : Inner) : Parser Term := withUnion false (value inner)

/-- What follows an opening bracket. -/
def bracketed (inner : Inner) : Parser Term := do
  if ← takeSymbol .rbracket then return .array []
  else
    let first ← element inner
    if ← takeSymbol .pipe then
      let body ← query inner .rbracket
      expectSymbol .rbracket
      return .arrayCompr first body
    else
      let rest ← many (afterComma .rbracket (element inner))
      expectSymbol .rbracket
      return .array (first :: rest)

/-- A key and its value. -/
def pair (inner : Inner) : Parser (Term × Term) := do
  let key ← element inner
  expectSymbol .colon
  let item ← element inner
  return (key, item)

/-- What follows an opening brace where a term is expected. -/
def braced (inner : Inner) : Parser Term := do
  if ← takeSymbol .rbrace then return .object []
  else
    let first ← element inner
    if ← takeSymbol .colon then
      let item ← element inner
      if ← takeSymbol .pipe then
        let body ← query inner .rbrace
        expectSymbol .rbrace
        return .objectCompr first item body
      else
        let rest ← many (afterComma .rbrace (pair inner))
        expectSymbol .rbrace
        return .object ((first, item) :: rest)
    else if ← takeSymbol .pipe then
      let body ← query inner .rbrace
      expectSymbol .rbrace
      return .setCompr first body
    else
      let rest ← many (afterComma .rbrace (element inner))
      expectSymbol .rbrace
      return .set (first :: rest)

/-- The term of a name. -/
def named (inner : Inner) (name : String) : Parser Term :=
  if name = "null" then pure .null
  else if name = "true" then pure (.bool true)
  else if name = "false" then pure (.bool false)
  else accessed inner (.var name)

/-- A term without operators. -/
def primary (inner : Inner) : Parser Term := do
  match (← peek).kind with
  | .name name =>
    if isPlainName name then
      let _ ← advance
      named inner name
    else unexpected "term"
  | .string s =>
    let _ ← advance
    return .string s
  | .number text =>
    let _ ← advance
    return .number text
  | .symbol .minus =>
    let _ ← advance
    let term ← inner.term
    return .neg term
  | .symbol .lparen =>
    let _ ← advance
    let term ← withNewlines false (withUnion true (expression inner))
    expectSymbol .rparen
    accessed inner term
  | .symbol .lbracket =>
    let _ ← advance
    let term ← withNewlines false (bracketed inner)
    accessed inner term
  | .symbol .lbrace =>
    let _ ← advance
    withNewlines false (braced inner)
  | _ => unexpected "term"

/-! ## Nesting -/

/-- What stands further in, with `n` levels to spare. -/
def inner : Nat → Inner
  | 0 => ⟨nested stuck, nested stuck⟩
  | n + 1 => ⟨nested (primary (inner n)), nested (block (inner n))⟩

/-- What stands in a rule, outside of any term or body. -/
def outermost : Inner := inner maxNesting

/-! ## Rules -/

/-- The head of a rule after its name, before its value: its kind, arguments and key. -/
def signature : Parser (RuleKind × List Term × Option Term) := do
  if ← takeIf (atTight .lparen) then
    let args ← arguments outermost
    return (.function, args, none)
  else if ← takeIf (atTight .lbracket) then
    let key ← withNewlines false (expression outermost)
    expectSymbol .rbracket
    return (.partialSet, [], some key)
  else if ← takeWord "contains" then
    let key ← value outermost
    return (.partialSet, [], some key)
  else return (.complete, [], none)

/-- The value of a head or of an alternative, and whether `:=` stands before it. -/
def valueClause : Parser (Option (Bool × Term)) := do
  if ← takeSymbol .assign then return some (true, ← value outermost)
  else if ← takeSymbol .unify then return some (false, ← value outermost)
  else return none

/-- The head of a rule. -/
def head : Parser Head := do
  let name ← plainName "rule name"
  let (kind, args, key) ← signature
  match ← valueClause with
  | some (assigned, item) =>
    let kind := if kind = .partialSet then .partialObject else kind
    return ⟨name, kind, args, key, some item, assigned⟩
  | none => return ⟨name, kind, args, key, none, false⟩

/-- The body after `if`: one in braces, or a single expression. -/
def ifBody : Parser Body := do
  if ← atSymbol .lbrace then outermost.body else return [← literal outermost]

/-- One more body in braces. -/
def anotherBlock : Parser (Option Body) := do
  if ← atSymbol .lbrace then return some (← outermost.body) else return none

/-- The bodies of a rule. -/
def bodies : Parser (List Body) := do
  if ← takeWord "if" then
    let first ← ifBody
    let rest ← many anotherBlock
    return first :: rest
  else many anotherBlock

/-- One more alternative after `else`. -/
def alternative : Parser (Option Otherwise) := do
  let location ← place
  if ← takeWord "else" then
    let item := (← valueClause).map Prod.snd
    if ← takeWord "if" then
      let body ← ifBody
      return some ⟨item, body, location⟩
    else if ← atSymbol .lbrace then
      let body ← outermost.body
      return some ⟨item, body, location⟩
    else return some ⟨item, [], location⟩
  else return none

/-- A rule. -/
def rule : Parser Rule := do
  let location ← place
  let isDefault ← takeWord "default"
  let head ← head
  let bodies ← if isDefault then pure [] else bodies
  let otherwise ← many alternative
  return ⟨isDefault, head, bodies, otherwise, location⟩

/-! ## Modules -/

/-- One more segment of a package. -/
def segment : Parser (Option String) := do
  if ← takeIf (atTight .dot) then
    return some (← plainName "package path segment")
  else if ← takeIf (atTight .lbracket) then
    match (← advance).kind with
    | .string name =>
      expectSymbol .rbracket
      return some name
    | _ => unexpected "string path segment"
  else return none

/-- The declaration of the package. -/
def package : Parser Package := do
  let location ← place
  let _ ← advance
  let first ← plainName "package name"
  let rest ← many segment
  return ⟨first :: rest, location⟩

/-- One more import. -/
def import? : Parser (Option Import) := do
  skipNewlines
  let location ← place
  if ← takeWord "import" then
    let path ← outermost.term
    if ← takeWord "as" then
      let name ← plainName "import alias"
      return some ⟨path, some name, location⟩
    else return some ⟨path, none, location⟩
  else return none

/-- One more semicolon, and the newlines behind it. -/
def semicolon : Parser (Option Unit) := do
  if ← takeSymbol .semicolon then
    skipNewlines
    return some ()
  else return none

/-- One more rule. -/
def rule? : Parser (Option Rule) := do
  skipNewlines
  let _ ← many semicolon
  if ← atEnd then return none else return some (← rule)

/-- A module, up to the end of the source. -/
def module : Parser Module := do
  skipNewlines
  if ← atWord "package" then
    let package ← package
    let imports ← many import?
    let rules ← many rule?
    return ⟨package, imports, rules⟩
  else fail .missingPackage

/-- The module of a list of tokens. -/
def Module.parse (tokens : List Token) : Outcome Module × Cursor := module (.start tokens)

/-- What a parser has to say.  On the tokens of a source it is not stuck, so it does not matter what is
said if it is. -/
def Outcome.toExcept {α : Type} : Outcome α → Except SyntaxError α
  | done a => .ok a
  | failed e => .error e
  | stuck => .error .missingPackage

/-- The module that a source is. -/
def Module.ofSource? (source : String) : Except SyntaxError Module := do
  let tokens ← tokenize source
  (Module.parse tokens).1.toExcept

end Gatehouse.Rego
