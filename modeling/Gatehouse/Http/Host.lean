import Gatehouse.Text.Cut
import Gatehouse.Text.Digits
import Gatehouse.Text.Percent

/-!
# Hosts

Where a URL points to: a name, or an address of four or of sixteen bytes.

1. **Names** of the web are read case by case: escapes are resolved, letters are made small, and a
   character that has a meaning in URLs is refused.  Only names in ASCII are known: letters of other
   scripts are refused, and so are the labels that spell them in ASCII.
2. **Numbers.**  A name that ends in a number has to be an address of four bytes, in one of its many
   spellings: one to four parts, each decimal, octal or hexadecimal, the last of which fills all bytes
   that are left.
3. **Pieces.**  An address of sixteen bytes stands in brackets: eight pieces of four hexadecimal
   digits, the last two of which may be written as four decimal bytes.  Two colons stand for as many
   zeros as are missing, and for at least one.
4. **Other schemes** say themselves what a host means, so their names are kept as they are written.
-/

namespace Gatehouse.Http

open Gatehouse.Text

/-- Why a text is no host. -/
inductive HostError where
  | empty
  | character
  | name
  | ipv4
  | ipv6
  deriving DecidableEq, Repr

/-- The words of a failure. -/
def HostError.message : HostError → String
  | empty => "empty host"
  | character => "invalid domain character"
  | name => "invalid international domain name"
  | ipv4 => "invalid IPv4 address"
  | ipv6 => "invalid IPv6 address"

/-- Where a URL points to. -/
inductive Host where
  | name (text : String)
  | ipv4 (address : UInt32)
  | ipv6 (pieces : List UInt16)
  deriving DecidableEq, Repr

/-! ## Numbers -/

/-- The number that digits of a base write. -/
def numberOf? (base : Nat) (cs : List Char) : Option Nat := do
  let ds ← cs.mapM hexValue?
  if ds.all (· < base) then some (ds.foldl (fun n d => n * base + d) 0) else none

/-- The number that a part of an address of four bytes writes. -/
def ipv4Number? : List Char → Option Nat
  | [] => none
  | '0' :: 'x' :: cs => numberOf? 16 cs
  | '0' :: 'X' :: cs => numberOf? 16 cs
  | '0' :: c :: cs => numberOf? 8 (c :: cs)
  | cs => numberOf? 10 cs

/-- The parts of a name without the empty one after a last point. -/
def labels (cs : List Char) : List (List Char) :=
  match (parts (· = '.') cs).reverse with
  | [] :: rest => rest.reverse
  | all => all.reverse

/-- The last part of a name is a number. -/
def endsInNumber (cs : List Char) : Bool :=
  match (labels cs).getLast? with
  | some label => isDigits label || (ipv4Number? label).isSome
  | none => false

/-- The address of four bytes that a text writes. -/
def ipv4? (cs : List Char) : Option UInt32 := do
  let numbers ← (labels cs).mapM ipv4Number?
  let last ← numbers.getLast?
  let bytes := numbers.dropLast
  if bytes.length < 4 && bytes.all (· < 256) && last < Nat.pow 256 (4 - bytes.length) then
    some (UInt32.ofNat (bytes.foldl (fun n b => n * 256 + b) 0 * Nat.pow 256 (4 - bytes.length) + last))
  else none

/-! ## Pieces -/

/-- A piece of one to four hexadecimal digits. -/
def piece? (cs : List Char) : Option UInt16 :=
  if cs.isEmpty || 4 < cs.length then none else (numberOf? 16 cs).map UInt16.ofNat

/-- A byte in decimal, without leading zeros. -/
def byte? (cs : List Char) : Option Nat :=
  if isDigits cs && ofDigits cs < 256 && decimal (ofDigits cs) = cs then some (ofDigits cs) else none

/-- The two pieces that four decimal bytes write. -/
def bytePieces? (cs : List Char) : Option (List UInt16) := do
  match ← (parts (· = '.') cs).mapM byte? with
  | [a, b, c, d] => some [UInt16.ofNat (a * 256 + b), UInt16.ofNat (c * 256 + d)]
  | _ => none

/-- Pieces with colons between them; the last may be written as bytes. -/
def piecesOf? : List (List Char) → Option (List UInt16)
  | [] => some []
  | [last] => (piece? last).map ([·]) <|> bytePieces? last
  | cs :: rest => do return (← piece? cs) :: (← piecesOf? rest)

/-- The pieces of one side of two colons. -/
def side? (cs : List Char) : Option (List UInt16) :=
  if cs.isEmpty then some [] else piecesOf? (parts (· = ':') cs)

/-- What comes before two colons and what comes after them. -/
def cutColons : List Char → Option (List Char × List Char)
  | [] => none
  | ':' :: ':' :: cs => some ([], cs)
  | c :: cs => (cutColons cs).map fun p => (c :: p.1, p.2)

/-- The address of sixteen bytes that a text writes. -/
def ipv6? (cs : List Char) : Option (List UInt16) :=
  match cutColons cs with
  | none => (side? cs).bind fun ps => if ps.length = 8 then some ps else none
  | some (front, back) => do
    let xs ← if front.isEmpty then some [] else (parts (· = ':') front).mapM piece?
    let ys ← side? back
    if xs.length + ys.length < 8 then
      some (xs ++ List.replicate (8 - xs.length - ys.length) 0 ++ ys)
    else none

/-! ## Reading -/

/-- Characters that mean something in URLs. -/
def marks : List Char := "#/:<>?@[\\]^|".toList

/-- A character that a name of the web may not hold. -/
def isForbiddenInName (c : Char) : Bool :=
  c ≤ ' ' || marks.contains c || "%\x60\x7b\x7d\x7f".toList.contains c

/-- A part of a name that spells letters of another script in ASCII. -/
def isForeign (label : List Char) : Bool := "xn--".toList.isPrefixOf label

/-- A character that no name may hold. -/
def isForbidden (c : Char) : Bool := c = '\x00' || c = ' ' || marks.contains c

/-- A character that stands for itself nowhere in a URL. -/
def isControl (c : Char) : Bool := c < ' ' || '~' < c

namespace Host

/-- The host in brackets. -/
def ofBrackets? (cs : List Char) : Except HostError Host :=
  if cs.getLast? = some ']' then
    match ipv6? cs.dropLast with
    | some pieces => .ok (ipv6 pieces)
    | none => .error .ipv6
  else .error .ipv6

/-- The host that a text is in a scheme of the web. -/
def ofWebText? (cs : List Char) : Except HostError Host :=
  let bytes := Percent.decode cs
  let domain := bytes.map fun b => (Char.ofNat b.toNat).toLower
  if bytes.any (128 ≤ ·) || domain.any isForbiddenInName || (labels domain).any isForeign then
    .error .name
  else if domain.isEmpty then .error .empty
  else if endsInNumber domain then
    match ipv4? domain with
    | some address => .ok (ipv4 address)
    | none => .error .ipv4
  else .ok (name (String.ofList domain))

/-- The host that a text is in a scheme that is not of the web. -/
def ofOtherText? (cs : List Char) : Except HostError Host :=
  if cs.any isForbidden then .error .character
  else .ok (name (String.ofList (Percent.encode isControl cs)))

/-- The host that a text is. -/
def ofText? (web : Bool) (cs : List Char) : Except HostError Host :=
  match cs with
  | '[' :: cs => ofBrackets? cs
  | cs => if web then ofWebText? cs else ofOtherText? cs

/-- The host is a name of no characters. -/
def isEmpty : Host → Bool
  | name text => text.isEmpty
  | _ => false

/-! ## Writing -/

/-- The number of zeros that pieces start with. -/
def zeros (pieces : List UInt16) : Nat := (pieces.takeWhile (· = 0)).length

/-- The first of the longest runs of zeros, if it has two or more: where it starts and its length. -/
def longestZeros? (pieces : List UInt16) : Option (Nat × Nat) :=
  (List.range pieces.length).foldl
    (fun best start =>
      let n := zeros (pieces.drop start)
      if n < 2 then best
      else
        match best with
        | some (_, m) => if m < n then some (start, n) else best
        | none => some (start, n))
    none

/-- Pieces with colons between them. -/
def joined (pieces : List UInt16) : String :=
  ":".intercalate (pieces.map fun p => String.ofList (Nat.toDigits 16 p.toNat))

/-- A host as URLs write it. -/
def toText : Host → String
  | name text => text
  | ipv4 a =>
    ".".intercalate ([24, 16, 8, 0].map fun i => toString (a.toNat >>> i % 256))
  | ipv6 pieces =>
    let inner := match longestZeros? pieces with
      | some (start, n) => joined (pieces.take start) ++ "::" ++ joined (pieces.drop (start + n))
      | none => joined pieces
    "[" ++ inner ++ "]"

/-! ## Hosts of each kind -/

/-- The written form of a host of the web, or why it is none. -/
def written (text : String) : String :=
  match ofText? true text.toList with
  | .ok host => host.toText
  | .error e => e.message

example : written "Example.COM" = "example.com" ∧ written "a%41" = "aa" := by decide +kernel
example : written "0x7f.1" = "127.0.0.1" ∧ written "1.2.3.256" = "invalid IPv4 address" := by
  decide +kernel
example : written "[1:0:0:2::]" = "[1:0:0:2::]" ∧ written "[::ffff:1.2.3.4]" = "[::ffff:102:304]" := by
  decide +kernel
example : written "[::1" = "invalid IPv6 address" ∧ written "" = "empty host" := by decide +kernel
example : written "a b" = "invalid international domain name" := by decide +kernel
example : written "a.XN--b" = "invalid international domain name" ∧ written "a.xn-b" = "a.xn-b" := by
  decide +kernel

end Host
end Gatehouse.Http
