namespace Highlighter

structure Rgb where
  red : UInt8
  green : UInt8
  blue : UInt8
  deriving DecidableEq, Repr

namespace Rgb

def hexDigit? (c : Char) : Option Nat :=
  if c.isDigit then some (c.toNat - '0'.toNat)
  else if 'a' ≤ c ∧ c ≤ 'f' then some (c.toNat - 'a'.toNat + 10)
  else if 'A' ≤ c ∧ c ≤ 'F' then some (c.toNat - 'A'.toNat + 10)
  else none

/-- A channel of two characters: two hexadecimal digits, or a plus sign and one. -/
def channel? (a b : Char) : Option UInt8 :=
  match hexDigit? a, hexDigit? b with
  | some m, some n => some (UInt8.ofNat (16 * m + n))
  | none, some n => if a = '+' then some (UInt8.ofNat n) else none
  | _, none => none

def ofDigits? : List Char → Option Rgb
  | [a, b, c, d, e, f] =>
    match channel? a b, channel? c d, channel? e f with
    | some red, some green, some blue => some ⟨red, green, blue⟩
    | _, _, _ => none
  | _ => none

def parse? (text : List Char) : Option Rgb :=
  match text with
  | '#' :: digits => ofDigits? digits
  | digits => ofDigits? digits

def upperDigit (n : Nat) : Char :=
  (Nat.digitChar n).toUpper

def channelDigits (n : UInt8) : List Char :=
  [upperDigit (n.toNat / 16), upperDigit (n.toNat % 16)]

def digits (c : Rgb) : List Char :=
  channelDigits c.red ++ channelDigits c.green ++ channelDigits c.blue

def render (c : Rgb) : String :=
  String.ofList ('#' :: c.digits)

end Rgb

end Highlighter
