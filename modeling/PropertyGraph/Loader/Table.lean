import PropertyGraph.Fault
import PropertyGraph.Text.Utf8

namespace PropertyGraph

-- A line of a table and where it starts: its number, counted from the header, and line and byte.
structure RawRecord where
  fields : List (List UInt8)
  record : Nat
  line : Nat
  byte : Nat

namespace RawRecord

-- The number of the first field that is no text, and the bytes in front of the place where it fails.
def decodeFields : (field : Nat) → List (List UInt8) → Except (Nat × Nat) (List String)
  | _, [] => .ok []
  | i, bytes :: rest =>
    match Text.Utf8.decode bytes with
    | .error valid => .error (i, valid)
    | .ok s => (decodeFields (i + 1) rest).map (s :: ·)

def decode (r : RawRecord) : Except Fault (List String) :=
  match decodeFields 0 r.fields with
  | .ok fields => .ok fields
  | .error (field, valid) => .error (.tableNotUtf8 r.record r.line field r.byte valid)

end RawRecord

namespace Table

inductive Place
  | recordStart
  | fieldStart
  | unquoted
  | quoted
  -- Behind a quote inside of quotes.
  | quoteSeen

-- A scan of comma-separated fields. A field may stand in double quotes, inside of which a quote is written twice and
-- commas and line ends are text. A line ends at a carriage return, a line feed or both; lines with nothing on them are
-- skipped.
structure Scan where
  place : Place := .recordStart
  -- The field so far, the last byte first.
  field : List UInt8 := []
  -- The fields of the record so far, the last first.
  fields : List (List UInt8) := []
  records : Array RawRecord := #[]
  byte : Nat := 0
  line : Nat := 1
  startByte : Nat := 0
  startLine : Nat := 1

namespace Scan

def comma : UInt8 := 0x2c
def quote : UInt8 := 0x22
def lineFeed : UInt8 := 0x0a
def carriageReturn : UInt8 := 0x0d

def endsLine (b : UInt8) : Bool := b = lineFeed || b = carriageReturn

def keep (s : Scan) (b : UInt8) (place : Place) : Scan :=
  { s with field := b :: s.field, place }

def endField (s : Scan) : Scan :=
  { s with fields := s.field.reverse :: s.fields, field := [], place := .fieldStart }

-- Ends a record with its last field. The next one starts where this one ends.
def endRecord (s : Scan) : Scan :=
  let s := s.endField
  { s with
    records := s.records.push ⟨s.fields.reverse, s.records.size, s.startLine, s.startByte⟩
    fields := []
    place := .recordStart
    startByte := s.byte
    startLine := s.line }

-- Goes on with a byte outside of quotes.
def unquotedByte (s : Scan) (b : UInt8) : Scan :=
  if b = comma then s.endField
  else if endsLine b then s.endRecord
  else s.keep b .unquoted

def step (s : Scan) (b : UInt8) : Scan :=
  let s := { s with byte := s.byte + 1, line := if b = lineFeed then s.line + 1 else s.line }
  match s.place with
  | .recordStart =>
    if endsLine b then s
    else if b = quote then { s with place := .quoted }
    else s.unquotedByte b
  | .fieldStart => if b = quote then { s with place := .quoted } else s.unquotedByte b
  | .unquoted => s.unquotedByte b
  | .quoted => if b = quote then { s with place := .quoteSeen } else s.keep b .quoted
  | .quoteSeen => if b = quote then s.keep b .quoted else s.unquotedByte b

-- Ends the record that the last byte stands in, if it stands in one.
def finish (s : Scan) : Scan :=
  match s.place with
  | .recordStart => s
  | _ => s.endRecord

end Scan

-- The lines of a table, the header first.
def records (bytes : List UInt8) : List RawRecord :=
  let start : Scan := {}
  let scan := match bytes with
    | 0xef :: 0xbb :: 0xbf :: rest => rest.foldl Scan.step { start with byte := 3 }
    | bytes => bytes.foldl Scan.step start
  scan.finish.records.toList

end Table

end PropertyGraph
