import Gatehouse.Text.Hex

/-!
# Percent coding

Addresses on a network hold characters of ASCII only, and some of those have a meaning there.  A
character that may not stand for itself is written as the bytes of its UTF-8 form, each as a percent
sign and two hexadecimal digits.  Which characters these are differs from part to part of an address,
so it is a parameter.

The crux is that the percent sign is either always escaped or never: if it is, `decode_encode` says
that reading gives back the bytes of the text; if it is not, a text that holds escapes keeps them.
-/

namespace Gatehouse.Text.Percent

/-- A hexadecimal digit of an escape. -/
def digit (n : Nat) : Char := if n < 10 then Char.ofNat (48 + n) else Char.ofNat (55 + n)

/-- The escape of a byte. -/
def escape (b : UInt8) : List Char := ['%', digit (b.toNat / 16), digit (b.toNat % 16)]

/-- A text with the characters escaped for which `escaped` holds. -/
def encode (escaped : Char → Bool) (cs : List Char) : List Char :=
  cs.flatMap fun c => if escaped c then (String.utf8EncodeChar c).flatMap escape else [c]

/-- The bytes that a text writes.  A percent sign without two digits stands for itself. -/
def decode : List Char → List UInt8
  | [] => []
  | '%' :: a :: b :: cs =>
    match hexValue? a, hexValue? b with
    | some x, some y => UInt8.ofNat (x * 16 + y) :: decode cs
    | _, _ => UInt8.ofNat '%'.toNat :: decode (a :: b :: cs)
  | c :: cs => String.utf8EncodeChar c ++ decode cs

/-! ## Reading back -/

/-- A digit is read back as what it was written for. -/
theorem hexValue?_digit : ∀ n < 16, hexValue? (digit n) = some n := by decide

/-- An escape is read back as its byte. -/
theorem decode_escape_append (b : UInt8) (cs : List Char) :
    decode (escape b ++ cs) = b :: decode cs := by
  have hb := b.toNat_lt
  simp only [escape, List.cons_append, List.nil_append, decode,
    hexValue?_digit (b.toNat / 16) (by omega), hexValue?_digit (b.toNat % 16) (by omega)]
  rw [show b.toNat / 16 * 16 + b.toNat % 16 = b.toNat by omega]
  simp

/-- Escapes are read back as their bytes. -/
theorem decode_escapes_append (bs : List UInt8) (cs : List Char) :
    decode (bs.flatMap escape ++ cs) = bs ++ decode cs := by
  induction bs with
  | nil => rfl
  | cons b bs ih => simp [List.flatMap_cons, List.append_assoc, decode_escape_append, ih]

/-- A character other than the percent sign is read as itself. -/
theorem decode_cons {c : Char} (h : c ≠ '%') (cs : List Char) :
    decode (c :: cs) = String.utf8EncodeChar c ++ decode cs := by
  rw [decode.eq_def]
  split <;> simp_all

/-- Where the percent sign is escaped, reading gives back the bytes of the text. -/
theorem decode_encode {escaped : Char → Bool} (h : escaped '%' = true) (cs : List Char) :
    decode (encode escaped cs) = cs.flatMap String.utf8EncodeChar := by
  induction cs with
  | nil => rfl
  | cons c cs ih =>
    rw [encode, List.flatMap_cons, List.flatMap_cons, ← encode]
    by_cases hc : escaped c
    · simp only [hc, if_true, decode_escapes_append, ih]
    · have : c ≠ '%' := fun e => hc (e ▸ h)
      simp only [hc, Bool.false_eq_true, if_false, List.singleton_append, decode_cons this, ih]

example : encode (· = ' ') "a b".toList = "a%20b".toList := by decide +kernel
example : decode "a%2Fb%4".toList = "a/b%4".toList.map fun c => UInt8.ofNat c.toNat := by
  decide +kernel

end Gatehouse.Text.Percent
