namespace Highlighter

structure Decimal where
  digits : List Char
  exponent : Int
  deriving DecidableEq, Repr

/-- A positive double as `mantissa × 2 ^ exponent`, with the reals that round to it. -/
structure Dyadic where
  mantissa : Nat
  exponent : Int
  /-- Whether the double below is half as far away as the double above. -/
  atPowerOfTwo : Bool
  deriving DecidableEq, Repr

namespace Dyadic

def fractions : Nat :=
  0x10000000000000

def ofBits (bits : Nat) : Dyadic :=
  let fraction := bits % fractions
  let exponent := bits / fractions
  if exponent = 0 then ⟨fraction, -1074, false⟩
  else ⟨fractions + fraction, (exponent : Int) - 1075, fraction == 0 && 1 < exponent⟩

def quarters (d : Dyadic) (n : Nat) : Nat × Nat :=
  (n * Nat.pow 2 d.exponent.toNat, 4 * Nat.pow 2 (-d.exponent).toNat)

def value (d : Dyadic) : Nat × Nat :=
  d.quarters (4 * d.mantissa)

def low (d : Dyadic) : Nat × Nat :=
  d.quarters (4 * d.mantissa - if d.atPowerOfTwo then 1 else 2)

def high (d : Dyadic) : Nat × Nat :=
  d.quarters (4 * d.mantissa + 2)

/-- Whether the quotient `num / den` rounds to the double. The ends round to an even mantissa. -/
def holds (d : Dyadic) (num den : Nat) : Bool :=
  let below := d.low.1 * den
  let at' := num * d.low.2
  let above := d.high.1 * den
  if d.mantissa % 2 = 0 then below ≤ at' && at' ≤ above else below < at' && at' < above

end Dyadic

namespace Decimal

def powersBelow (num den : Nat) : Nat → Nat → Nat
  | 0, k => k
  | limit + 1, k => if den ≤ num * Nat.pow 10 k then k else powersBelow num den limit (k + 1)

def leadingExponent (num den : Nat) : Int :=
  if den ≤ num then ((Nat.toDigits 10 (num / den)).length : Int) - 1
  else -(powersBelow num den 400 0 : Int)

def ofUnits (n : Nat) (unit : Int) : Decimal :=
  let digits := Nat.toDigits 10 n
  ⟨(digits.reverse.dropWhile (· == '0')).reverse, unit + digits.length - 1⟩

/-- The multiple of `10 ^ unit` nearest to `d` among those that round to it, and the even one of two
that are equally near. -/
def onGrid (d : Dyadic) (unit : Int) : Option Decimal :=
  let up := Nat.pow 10 unit.toNat
  let down := Nat.pow 10 (-unit).toNat
  let (num, den) := d.value
  let floor := num * down / (den * up)
  let fits (n : Nat) : Bool := d.holds (n * up) down
  let twice := 2 * (num * down % (den * up))
  let floorNearest := twice < den * up || twice = den * up && floor % 2 = 0
  if fits floor && (!fits (floor + 1) || floorNearest) then some (ofUnits floor unit)
  else if fits (floor + 1) then some (ofUnits (floor + 1) unit)
  else none

/-- The grids from one digit to seventeen. Seventeen digits always tell doubles apart. -/
def shortest (d : Dyadic) : Decimal :=
  let (num, den) := d.value
  let lead := leadingExponent num den
  ((List.range 17).findSome? fun n : Nat ↦ onGrid d (lead - n)).getD ⟨['0'], 0⟩

end Decimal

namespace Decimal

def positional (digits : List Char) (n : Nat) : List Char :=
  if n < digits.length then
    digits.take n ++ '.' :: digits.drop n
  else
    digits ++ List.replicate (n - digits.length) '0' ++ ['.', '0']

def scientific (d : Decimal) : List Char :=
  let fraction :=
    match d.digits with
    | [] => []
    | [c] => [c]
    | c :: cs => c :: '.' :: cs
  let sign := if 0 ≤ d.exponent then ['+'] else []
  fraction ++ 'e' :: sign ++ (toString d.exponent).toList

def written (d : Decimal) : List Char :=
  if 0 ≤ d.exponent ∧ d.exponent ≤ 15 then
    positional d.digits (d.exponent.toNat + 1)
  else if -5 ≤ d.exponent ∧ d.exponent < 0 then
    ['0', '.'] ++ List.replicate ((-d.exponent).toNat - 1) '0' ++ d.digits
  else
    d.scientific

end Decimal

def signBit : Nat :=
  0x8000000000000000

def writtenDouble (x : Float) : List Char :=
  let bits := x.toBits.toNat
  let magnitude := bits % signBit
  let digits :=
    if magnitude = 0 then ['0', '.', '0'] else (Decimal.shortest (Dyadic.ofBits magnitude)).written
  if bits = magnitude then digits else '-' :: digits

end Highlighter
