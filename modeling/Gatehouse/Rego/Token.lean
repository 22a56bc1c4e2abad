import Gatehouse.Text.Quoted

/-!
# Tokens of Rego

The words of a policy's source.  Keywords are names like any other here: whether a name is reserved
depends on where it stands, which is the grammar's business.  Newlines are tokens, because they end
expressions; comments and other blanks are not, but each token remembers whether something parted
it from the token before (`spaced`), because `a[0]` and `a [0]` are different things.
-/

namespace Gatehouse.Rego

open Gatehouse.Text

/-- A place in a source; rows and columns count characters from 1. -/
structure Location where
  row : Nat
  col : Nat
  deriving DecidableEq, Repr

namespace Location

/-- Where a source starts. -/
def start : Location := ⟨1, 1⟩

/-- The place after a character. -/
def step (l : Location) (c : Char) : Location :=
  if c = '\n' then ⟨l.row + 1, 1⟩ else ⟨l.row, l.col + 1⟩

/-- The place after some characters. -/
def after (l : Location) (cs : List Char) : Location := cs.foldl step l

/-- A place in a message. -/
def toText (l : Location) : String := toString l.row ++ ":" ++ toString l.col

end Location

/-- Marks and operators. -/
inductive Symbol where
  | lbrace | rbrace | lbracket | rbracket | lparen | rparen
  | comma | semicolon | colon | dot | pipe | amp
  | assign | unify | eq | neq | lt | lte | gt | gte
  | plus | minus | star | slash | percent
  deriving DecidableEq, Repr

namespace Symbol

/-- How a symbol is written. -/
def text : Symbol → String
  | lbrace => "\x7b"
  | rbrace => "\x7d"
  | lbracket => "["
  | rbracket => "]"
  | lparen => "("
  | rparen => ")"
  | comma => ","
  | semicolon => ";"
  | colon => ":"
  | dot => "."
  | pipe => "|"
  | amp => "&"
  | assign => ":="
  | unify => "="
  | eq => "=="
  | neq => "!="
  | lt => "<"
  | lte => "<="
  | gt => ">"
  | gte => ">="
  | plus => "+"
  | minus => "-"
  | star => "*"
  | slash => "/"
  | percent => "%"

end Symbol

/-- What a token is. -/
inductive Kind where
  | name (text : String)
  | string (value : String)
  | number (text : String)
  | symbol (s : Symbol)
  | newline
  | endOfInput
  deriving DecidableEq, Repr

namespace Kind

/-- A token in a message. -/
def describe : Kind → String
  | name text => "identifier " ++ quoted text
  | string value => "string " ++ quoted value
  | number text => "number " ++ text
  | symbol s => quoted s.text
  | newline => "newline"
  | endOfInput => "end of input"

/-- The text that a name, a string or a number carries. -/
def payload? : Kind → Option String
  | name text => some text
  | string value => some value
  | number text => some text
  | _ => none

end Kind

/-- A token, where it starts, and whether it stands apart from the token before it. -/
structure Token where
  kind : Kind
  location : Location
  spaced : Bool
  deriving DecidableEq, Repr

/-- Why a source is not a policy. -/
inductive SyntaxError where
  /-- A character that starts no token. -/
  | unexpectedChar (found : Char) (location : Location)
  /-- A string without its closing quote; the place is that of its opening quote. -/
  | unterminatedString (location : Location)
  /-- A token that does not fit where it stands. -/
  | unexpectedToken (found : Kind) (expected : String) (location : Location)
  /-- The source ends in the middle of something. -/
  | unexpectedEnd (expected : String)
  /-- Terms and bodies nest too deeply. -/
  | nestingTooDeep (limit : Nat) (location : Location)
  /-- The source does not start with its package. -/
  | missingPackage
  deriving DecidableEq, Repr

namespace SyntaxError

/-- The place of an error, if it has one. -/
def location? : SyntaxError → Option Location
  | unexpectedChar _ l => some l
  | unterminatedString l => some l
  | unexpectedToken _ _ l => some l
  | unexpectedEnd _ => none
  | nestingTooDeep _ l => some l
  | missingPackage => none

/-- What is wrong, without its place. -/
def complaint : SyntaxError → String
  | unexpectedChar found _ => "unexpected character " ++ quotedChar found
  | unterminatedString _ => "unterminated string"
  | unexpectedToken found expected _ => "unexpected " ++ found.describe ++ ", expected " ++ expected
  | unexpectedEnd expected => "unexpected end of input, expected " ++ expected
  | nestingTooDeep limit _ => "nesting exceeds maximum depth of " ++ toString limit
  | missingPackage => "package expected"

/-- The message of an error. -/
def message (e : SyntaxError) : String :=
  (match e.location? with
    | some l => l.toText ++ ": "
    | none => "") ++ "rego_parse_error: " ++ e.complaint

end SyntaxError
end Gatehouse.Rego
