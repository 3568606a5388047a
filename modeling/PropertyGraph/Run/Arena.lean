import PropertyGraph.Codec.Gap
import PropertyGraph.Codec.Word32

namespace PropertyGraph

-- An arena holds the targets of many nodes, one run after the other. A run is written as its length and then its gaps.
-- The first byte of an arena belongs to no run, so that offset zero can stand for the empty run, which is not written.
structure Arena where
  bytes : Array UInt8

namespace Arena

-- An arena without runs.
def empty : Arena := ⟨#[0]⟩

instance : Inhabited Arena := ⟨empty⟩

def size (a : Arena) : Nat := a.bytes.size

-- Whether nothing was written behind the first byte.
def isEmpty (a : Arena) : Bool := a.size = 1

-- A run as it is written: its length, then its gaps.
def encodeRun (run : List Nat) : Except Fault (List UInt8) :=
  if run.length ≤ Fault.maxRunLength then .ok (Word32.encode run.length ++ Gap.encode run)
  else .error (.runTooLong run.length)

-- Writes encoded runs behind the arena; they start where it ended.
def appendEncoded (a : Arena) (encoded : List UInt8) : Nat × Arena :=
  (a.size, ⟨a.bytes ++ encoded⟩)

-- Writes a run behind the arena, its length first and then its gaps, and tells its offset.
def appendRun (a : Arena) (run : List Nat) : Except Fault (Nat × Arena) :=
  if run.isEmpty then .ok (0, a)
  else if Fault.maxRunLength < run.length then .error (.runTooLong run.length)
  else
    let bytes := a.bytes ++ Word32.encode run.length
    .ok (a.size, ⟨bytes ++ Gap.encode run⟩)

-- Writes runs one after the other behind `out`, and tells where in it each of them starts.
def encodeRuns (out : Array UInt8) : List (List Nat) → Except Fault (List Nat × Array UInt8)
  | [] => .ok ([], out)
  | run :: runs => do
    let encoded ← encodeRun run
    let (starts, all) ← encodeRuns (out ++ encoded) runs
    return (out.size :: starts, all)

-- The length of the run at an offset.
def degree (a : Arena) (offset : Nat) : Except Fault Nat :=
  if offset = 0 then .ok 0 else Word32.decode a.bytes offset

def describe (a : Arena) : String :=
  s!"AdjacencyList \x7b bytes: {a.size} \x7d"

@[simp]
theorem size_appendEncoded (a : Arena) (encoded : List UInt8) :
    (a.appendEncoded encoded).2.size = a.size + encoded.length := by
  simp only [appendEncoded, size]
  rw [← Array.length_toList]
  simp

end Arena

end PropertyGraph
