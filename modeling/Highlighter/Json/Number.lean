import Highlighter.Decimal
import Highlighter.Json.Error

namespace Highlighter.Json

def takeDigits (text : List Char) : List Char :=
  text.takeWhile Char.isDigit

def dropDigits (text : List Char) : List Char :=
  text.dropWhile Char.isDigit

def digitValue (c : Char) : Nat :=
  c.toNat - '0'.toNat

def wordLimit : Nat :=
  0x10000000000000000

def exponentLimit : Nat :=
  0x80000000

/-- Appends digits to a number while it fits in 64 bits. Gives the number, how many digits it took
and the digits left. -/
def takeSignificant (n : Nat) : List Char → Nat × Nat × List Char
  | [] => (n, 0, [])
  | c :: cs =>
    let n' := 10 * n + digitValue c
    if n' < wordLimit then
      let (m, taken, left) := takeSignificant n' cs
      (m, taken + 1, left)
    else
      (n, 0, c :: cs)

def maxPower : Nat := 308

def powerOfTen (n : Nat) : Float :=
  Float.ofScientific 1 false n

def divideByPower : Nat → Float → Nat → Float
  | 0, x, _ => x
  | limit + 1, x, n =>
    if n ≤ maxPower then x / powerOfTen n
    else if x == 0 then x
    else divideByPower limit (x / powerOfTen maxPower) (n - maxPower)

def scaled (significand : Nat) (exponent : Int) : Except JsonError Float :=
  let x := significand.toUInt64.toFloat
  if exponent < 0 then
    .ok (divideByPower 4 x (-exponent).toNat)
  else if exponent ≤ maxPower then
    let y := x * powerOfTen exponent.toNat
    if y.isInf then .error .numberOutOfRange else .ok y
  else if x == 0 then
    .ok x
  else
    .error .numberOutOfRange

def clampExponent (n : Int) : Int :=
  max (-exponentLimit) (min n (exponentLimit - 1))

def readExponent (text : List Char) : Except JsonError (Int × List Char) :=
  let (negative, text) :=
    match text with
    | '+' :: cs => (false, cs)
    | '-' :: cs => (true, cs)
    | cs => (false, cs)
  match text with
  | [] => .error .endInValue
  | c :: _ =>
    if c.isDigit then
      let n : Nat := (takeDigits text).foldl (fun n d ↦ 10 * n + digitValue d) 0
      .ok (if negative then -n else n, dropDigits text)
    else
      .error .invalidNumber

/-- The double of a significand and an exponent, with an exponent part if one follows. An exponent
beyond 32 bits gives zero or is out of range. -/
def finishReal (significand : Nat) (exponent : Int) (text : List Char) :
    Except JsonError (Float × List Char) := do
  match text with
  | c :: cs =>
    if c = 'e' ∨ c = 'E' then
      let (shift, rest) ← readExponent cs
      if exponentLimit ≤ shift ∧ significand ≠ 0 then
        .error .numberOutOfRange
      else if exponentLimit ≤ shift.natAbs then
        .ok (0, rest)
      else
        let x ← scaled significand (clampExponent (exponent + shift))
        .ok (x, rest)
    else
      let x ← scaled significand exponent
      .ok (x, text)
  | [] =>
    let x ← scaled significand exponent
    .ok (x, text)

def readFraction (significand : Nat) (exponent : Int) (text : List Char) :
    Except JsonError (Float × List Char) :=
  match text with
  | [] => .error .endInValue
  | c :: _ =>
    if c.isDigit then
      let (n, taken, _) := takeSignificant significand (takeDigits text)
      finishReal n (exponent - taken) (dropDigits text)
    else
      .error .invalidNumber

def readMagnitude (negative : Bool) (text : List Char) :
    Except JsonError (JsonFound × List Char) := do
  let signed (x : Float) : JsonFound :=
    .real (String.ofList (writtenDouble (if negative then -x else x)))
  match text with
  | [] => .error .endInValue
  | c :: cs =>
    if !c.isDigit || (c = '0' && cs.head?.any Char.isDigit) then
      .error .invalidNumber
    else
      let (n, _, left) := takeSignificant 0 (takeDigits text)
      match dropDigits text with
      | '.' :: rest =>
        let (x, rest) ← readFraction n left.length rest
        .ok (signed x, rest)
      | rest =>
        let whole := left.isEmpty && !rest.head?.any fun c ↦ c == 'e' || c == 'E'
        if whole && !negative then
          .ok (.integer n, rest)
        else if whole && n ≠ 0 && n ≤ signBit then
          .ok (.integer (-n), rest)
        else
          let (x, rest) ← finishReal n left.length rest
          .ok (signed x, rest)

def readNumber (text : List Char) : Except JsonError (JsonFound × List Char) :=
  match text with
  | '-' :: cs => readMagnitude true cs
  | cs => readMagnitude false cs

def skipDigits1 (text : List Char) : Except JsonError (List Char) :=
  if text.head?.any Char.isDigit then .ok (dropDigits text) else .error .invalidNumber

def skipExponent (text : List Char) : Except JsonError (List Char) :=
  match text with
  | c :: cs =>
    if c = 'e' ∨ c = 'E' then
      match cs with
      | '+' :: cs => skipDigits1 cs
      | '-' :: cs => skipDigits1 cs
      | cs => skipDigits1 cs
    else
      .ok text
  | [] => .ok text

def skipNumber (text : List Char) : Except JsonError (List Char) := do
  let text :=
    match text with
    | '-' :: cs => cs
    | cs => cs
  match text with
  | '0' :: c :: _ => if c.isDigit then .error .invalidNumber
  | _ => pure ()
  match ← skipDigits1 text with
  | '.' :: cs => skipExponent (← skipDigits1 cs)
  | cs => skipExponent cs

end Highlighter.Json
