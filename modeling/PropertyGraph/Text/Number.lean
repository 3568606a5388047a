import PropertyGraph.Word64

namespace PropertyGraph.Text

def digitValue (c : Char) : Nat := c.toNat - '0'.toNat

-- The number that decimal digits, of which there is one at least, stand for.
def readDigits? (cs : List Char) : Option Nat :=
  if !cs.isEmpty && cs.all Char.isDigit then some (cs.foldl (fun n c => 10 * n + digitValue c) 0)
  else none

-- A natural number of 64 bits, perhaps behind a plus sign.
def readNat64? (s : String) : Option Nat := do
  let n ← readDigits? (match s.toList with
    | '+' :: cs => cs
    | cs => cs)
  if n < Word64.count then some n else none

-- Splits off a sign; the answer tells whether it was a minus.
def splitSign : List Char → Bool × List Char
  | '-' :: cs => (true, cs)
  | '+' :: cs => (false, cs)
  | cs => (false, cs)

-- A whole number, perhaps behind a sign.
def readSigned? (cs : List Char) : Option Int := do
  let (negative, cs) := splitSign cs
  let n ← readDigits? cs
  return if negative then -n else n

-- A whole number of 64 bits.
def readInt64? (s : String) : Option Int := do
  let z ← readSigned? s.toList
  if -0x8000000000000000 ≤ z ∧ z < 0x8000000000000000 then some z else none

def positiveInfinity : Float := 1.0 / 0.0

def notANumber : Float := 0.0 / 0.0

-- The floating-point number next to `digits * 10 ^ exponent`.
def nearest (digits : Nat) (exponent : Int) : Float :=
  let places : Int := (Nat.toDigits 10 digits).length
  if digits = 0 ∨ exponent + places < -400 then 0.0
  else if 400 < exponent + places then positiveInfinity
  else Float.ofScientific digits (decide (exponent < 0)) exponent.natAbs

-- Splits off digits behind a point.
def splitFraction : List Char → List Char × List Char
  | '.' :: cs => (cs.takeWhile Char.isDigit, cs.dropWhile Char.isDigit)
  | cs => ([], cs)

-- An exponent, which is zero if none is given.
def readExponent? : List Char → Option Int
  | [] => some 0
  | e :: cs => if e = 'e' ∨ e = 'E' then readSigned? cs else none

-- Digits with at most one point among or around them, and an exponent.
def readDecimal? (cs : List Char) : Option Float := do
  let (fraction, rest) := splitFraction (cs.dropWhile Char.isDigit)
  let digits ← readDigits? (cs.takeWhile Char.isDigit ++ fraction)
  let exponent ← readExponent? rest
  return nearest digits (exponent - fraction.length)

-- A decimal, or the name of an infinity or of what is no number, in any case.
def readMagnitude? (cs : List Char) : Option Float :=
  match readDecimal? cs with
  | some x => some x
  | none =>
    let name := String.ofList (cs.map Char.toLower)
    if name = "inf" ∨ name = "infinity" then some positiveInfinity
    else if name = "nan" then some notANumber
    else none

-- A floating-point number, perhaps behind a sign.
def readFloat? (s : String) : Option Float := do
  let (negative, cs) := splitSign s.toList
  let x ← readMagnitude? cs
  return if negative then -x else x

end PropertyGraph.Text
