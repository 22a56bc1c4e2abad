import Gatehouse.Number.Shortest
import Gatehouse.Text.Quoted

/-!
# Tokens of filters

The words of a filter, and what may be wrong with one.  A filter is one line of text, so a place in
it is a single number: its offset in bytes, which is what a caller needs to point at it.
-/

namespace Gatehouse.Filter

open Gatehouse.Text

/-- How two values are compared. -/
inductive Comparison where
  | eq | neq | lt | lte | gt | gte
  deriving DecidableEq, Repr

/-- How a comparison is written. -/
def Comparison.text : Comparison → String
  | .eq => "=="
  | .neq => "!="
  | .lt => "<"
  | .lte => "<="
  | .gt => ">"
  | .gte => ">="

/-- What a token is. -/
inductive Word where
  | name (text : String)
  | string (value : String)
  | number (value : Double)
  | bool (value : Bool)
  | null
  | dot
  | comma
  | lparen
  | rparen
  | comparison (op : Comparison)
  | and
  | or
  | not
  deriving DecidableEq, Repr

/-- A word in a message. -/
def Word.describe : Word → String
  | .name text => "identifier " ++ text
  | .string value => "string " ++ quoted value
  | .number value => "number " ++ String.ofList value.plain
  | .bool true => "true"
  | .bool false => "false"
  | .null => "null"
  | .dot => quoted "."
  | .comma => quoted ","
  | .lparen => quoted "("
  | .rparen => quoted ")"
  | .comparison op => quoted op.text
  | .and => quoted "&&"
  | .or => quoted "||"
  | .not => quoted "!"

/-- A word and the offset of its first byte. -/
structure Token where
  word : Word
  position : Nat
  deriving DecidableEq, Repr

/-- What is wrong with a filter. -/
inductive Complaint where
  /-- There is no word in it. -/
  | empty
  /-- A character that starts no word. -/
  | unexpectedChar (found : Char)
  /-- A string without its closing quote. -/
  | unterminatedString
  /-- Digits and points that are no number. -/
  | invalidNumber (text : String)
  /-- A word after the end of the expression. -/
  | unexpected (found : Word)
  /-- A word, or the end, where something else is needed. -/
  | needs (expected : String) (found : Option Word)
  /-- A call of a function that does not exist. -/
  | unknownFunction (name : String)
  deriving DecidableEq, Repr

/-- The wording of a complaint. -/
def Complaint.message : Complaint → String
  | .empty => "empty filter"
  | .unexpectedChar found => "unexpected character " ++ quotedChar found
  | .unterminatedString => "unterminated string"
  | .invalidNumber text => "invalid number " ++ text
  | .unexpected found => "unexpected " ++ found.describe
  | .needs expected found =>
    "unexpected " ++ (found.map Word.describe).getD "end of filter" ++ ", expected " ++ expected
  | .unknownFunction name => "unknown function " ++ name

/-- Why a text is not a filter, and where. -/
structure FilterError where
  complaint : Complaint
  position : Nat
  deriving DecidableEq, Repr

/-- The message of an error, with its place. -/
def FilterError.message (e : FilterError) : String :=
  e.complaint.message ++ " at position " ++ toString e.position

end Gatehouse.Filter
