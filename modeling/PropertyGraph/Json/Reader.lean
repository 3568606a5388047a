import PropertyGraph.Json.Value
import PropertyGraph.Word64

namespace PropertyGraph.Json

def isBlank (c : Char) : Bool :=
  c = ' ' || c = '\n' || c = '\t' || c = '\r'

def skipBlanks (cs : List Char) : List Char := cs.dropWhile isBlank

def hexDigit? (c : Char) : Option Nat :=
  if c.isDigit then some (c.toNat - '0'.toNat)
  else if 'a' ≤ c ∧ c ≤ 'f' then some (c.toNat - 'a'.toNat + 10)
  else if 'A' ≤ c ∧ c ≤ 'F' then some (c.toNat - 'A'.toNat + 10)
  else none

-- The code unit of four hexadecimal digits.
def unit? (a b c d : Char) : Option Nat := do
  return (((← hexDigit? a) * 16 + (← hexDigit? b)) * 16 + (← hexDigit? c)) * 16 + (← hexDigit? d)

def isHigh (u : Nat) : Bool := 0xD800 ≤ u && u < 0xDC00

def isLow (u : Nat) : Bool := 0xDC00 ≤ u && u < 0xE000

def simpleEscape? : Char → Option Char
  | '"' => some '"'
  | '\\' => some '\\'
  | '/' => some '/'
  | 'b' => some '\x08'
  | 'f' => some '\x0c'
  | 'n' => some '\n'
  | 'r' => some '\r'
  | 't' => some '\t'
  | _ => none

-- The rest of a string behind its opening quote. `acc` holds the characters so far, the last first, or
-- nothing once half a pair of code units stood alone.
def readString : List Char → (acc : Option (List Char)) → Option (Option String × List Char)
  | '"' :: rest, acc => some (acc.map fun cs => String.ofList cs.reverse, rest)
  | '\\' :: 'u' :: a :: b :: c :: d :: '\\' :: 'u' :: e :: f :: g :: h :: rest, acc => do
    let u ← unit? a b c d
    let v? := unit? e f g h
    match v? with
    | some v =>
      if isHigh u && isLow v then
        let char := Char.ofNat (0x10000 + (u - 0xD800) * 0x400 + (v - 0xDC00))
        readString rest (acc.map (char :: ·))
      else if isHigh u || isLow u then readString ('\\' :: 'u' :: e :: f :: g :: h :: rest) none
      else readString ('\\' :: 'u' :: e :: f :: g :: h :: rest) (acc.map (Char.ofNat u :: ·))
    | none => none
  | '\\' :: 'u' :: a :: b :: c :: d :: rest, acc => do
    let u ← unit? a b c d
    if isHigh u || isLow u then readString rest none
    else readString rest (acc.map (Char.ofNat u :: ·))
  | '\\' :: c :: rest, acc => do
    let char ← simpleEscape? c
    readString rest (acc.map (char :: ·))
  | c :: rest, acc => if c.toNat < 0x20 then none else readString rest (acc.map (c :: ·))
  | [], _ => none
termination_by cs => cs.length

-- At least one digit, and what stands behind the digits.
def readDigits (cs : List Char) : Option (List Char × List Char) :=
  let digits := cs.takeWhile Char.isDigit
  if digits.isEmpty then none else some (digits, cs.dropWhile Char.isDigit)

def natOfDigits (cs : List Char) : Nat :=
  cs.foldl (fun n c => 10 * n + (c.toNat - '0'.toNat)) 0

-- A number: no leading zeros, and digits behind a point and in an exponent.
def readNumber (cs : List Char) : Option (Json × List Char) := do
  let (negative, cs) := match cs with
    | '-' :: rest => (true, rest)
    | cs => (false, cs)
  let (digits, cs) ← readDigits cs
  if digits.length > 1 ∧ digits.head? = some '0' then none
  let (fraction, cs) ← match cs with
    | '.' :: rest => do
      let (_, rest) ← readDigits rest
      pure (true, rest)
    | cs => pure (false, cs)
  let signed (rest : List Char) : Option (Bool × List Char) := do
    let (_, rest) ← readDigits (match rest with
      | '+' :: r => r
      | '-' :: r => r
      | r => r)
    return (true, rest)
  let (exponent, cs) ← match cs with
    | 'e' :: rest => signed rest
    | 'E' :: rest => signed rest
    | cs => pure (false, cs)
  let n := natOfDigits digits
  if negative || fraction || exponent || Word64.count ≤ n then return (.other, cs)
  else return (.number n, cs)

mutual

-- A value behind blanks, and what stands behind it.
def readValue : (fuel : Nat) → List Char → Option (Json × List Char)
  | 0, _ => none
  | fuel + 1, cs =>
    match skipBlanks cs with
    | '"' :: rest => do
      let (s?, rest) ← readString rest (some [])
      return (match s? with
        | some s => .string s
        | none => .other, rest)
    | 't' :: 'r' :: 'u' :: 'e' :: rest => some (.bool true, rest)
    | 'f' :: 'a' :: 'l' :: 's' :: 'e' :: rest => some (.bool false, rest)
    | 'n' :: 'u' :: 'l' :: 'l' :: rest => some (.null, rest)
    | '[' :: rest =>
      match skipBlanks rest with
      | ']' :: rest => some (.array [], rest)
      | rest => do
        let (items, rest) ← readItems fuel rest
        return (.array items, rest)
    | '\x7b' :: rest =>
      match skipBlanks rest with
      | '\x7d' :: rest => some (.object [], rest)
      | rest => do
        let (fields?, rest) ← readFields fuel rest
        return (match fields? with
          | some fields => .object fields
          | none => .other, rest)
    | cs => readNumber cs

-- Items up to the bracket that closes them.
def readItems : (fuel : Nat) → List Char → Option (List Json × List Char)
  | 0, _ => none
  | fuel + 1, cs => do
    let (item, rest) ← readValue fuel cs
    match skipBlanks rest with
    | ',' :: rest =>
      let (items, rest) ← readItems fuel rest
      return (item :: items, rest)
    | ']' :: rest => return ([item], rest)
    | _ => none

-- Fields up to the brace that closes them; nothing if one of the names is no text.
def readFields : (fuel : Nat) → List Char → Option (Option (List (String × Json)) × List Char)
  | 0, _ => none
  | fuel + 1, cs => do
    let '"' :: rest := skipBlanks cs | none
    let (name?, rest) ← readString rest (some [])
    let ':' :: rest := skipBlanks rest | none
    let (value, rest) ← readValue fuel rest
    let field? := name?.map fun name => (name, value)
    match skipBlanks rest with
    | ',' :: rest =>
      let (fields?, rest) ← readFields fuel rest
      return (do return (← field?) :: (← fields?), rest)
    | '\x7d' :: rest => return (do return [← field?], rest)
    | _ => none

end

-- The value that a text is.
def read? (s : String) : Option Json := do
  let cs := s.toList
  let (j, rest) ← readValue (2 * cs.length + 2) cs
  if (skipBlanks rest).isEmpty then some j else none

end PropertyGraph.Json
