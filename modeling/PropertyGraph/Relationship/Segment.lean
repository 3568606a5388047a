import PropertyGraph.Chunk.Dispenser
import PropertyGraph.Relationship.Layout
import PropertyGraph.Run.Arena

namespace PropertyGraph

namespace Relationships

-- A relationship as it is stored: in one direction, with a value for every column.
structure Row where
  source : Nat
  target : Nat
  values : List Float

-- What is stored for one target of a node.
structure Entry where
  target : Nat
  values : List Float

namespace Entry

-- A group of parallel rows as one entry.
def ofGroup (a : Aggregation) (first : Row) (others : List Row) : Entry where
  target := first.target
  values := others.foldl (fun acc r => List.zipWith a.combine acc r.values) (first.values.map a.seed)

-- The entries of rows sorted by target.
def ofSorted (a : Aggregation) : List Row → List Entry
  | [] => []
  | r :: rows =>
    if a.merges then
      ofGroup a r (rows.takeWhile (·.target = r.target)) ::
        ofSorted a (rows.dropWhile (·.target = r.target))
    else ofGroup a r [] :: ofSorted a rows
termination_by rows => rows.length
decreasing_by
  · have := (List.dropWhile_sublist (·.target = r.target) (l := rows)).length_le
    simp only [List.length_cons]
    omega
  · simp

end Entry

-- What is stored for a node, from its rows in the order they came. They are sorted by target, and rows of equal target
-- stay in the order they came.
def finish (a : Aggregation) (rows : List Row) : List Entry :=
  Entry.ofSorted a (rows.mergeSort (·.target ≤ ·.target))

-- A chunk of nodes, compressed by itself.
structure Segment where
  chunk : Chunk
  bytes : Array UInt8
  -- Of each node, where in `bytes` its run starts, unless it is empty, and the length of the run.
  runs : List (Option Nat × Nat)
  -- The values of each column, node after node.
  columns : List (Array Float)

namespace Segment

-- Writes the entries of one more node behind a segment.
def push (s : Segment) (entries : List Entry) : Except Fault Segment := do
  let run := entries.map (·.target)
  let columns := s.columns.mapIdx fun k (column : Array Float) =>
    column ++ (entries.filterMap (·.values[k]?)).toArray
  if run.isEmpty then
    return { s with runs := (none, 0) :: s.runs, columns }
  else
    let encoded ← Arena.encodeRun run
    return { s with
      bytes := s.bytes ++ encoded, runs := (some s.bytes.size, run.length) :: s.runs, columns }

-- The segment of a chunk.
def compress (a : Aggregation) (columnCount : Nat) (rowsOf : Nat → List Row) (c : Chunk) :
    Except Fault Segment := do
  let init : Segment := ⟨c, #[], [], List.replicate columnCount #[]⟩
  let s ← c.ids.foldlM (fun (s : Segment) v => s.push (finish a (rowsOf v))) init
  return { s with runs := s.runs.reverse }

-- Segments put one behind the other in node order, whoever compressed them.
structure Assembly where
  arena : Arena
  offsets : Array Nat
  starts : Array Nat
  relationshipCount : Nat
  columns : List (Array Float)

def Assembly.empty (columnCount : Nat) : Assembly :=
  ⟨.empty, #[], #[0], 0, List.replicate columnCount #[]⟩

-- Notes the run of one more node, found in bytes that begin at `base`.
def Assembly.note (base : Nat) (whole : Assembly) (run : Option Nat × Nat) : Assembly :=
  let count := whole.relationshipCount + run.2
  { whole with
    offsets := whole.offsets.push (match run.1 with | some start => base + start | none => 0)
    starts := whole.starts.push count
    relationshipCount := count }

def Assembly.push (whole : Assembly) (s : Segment) : Assembly :=
  s.runs.foldl (note whole.arena.size) { whole with
    arena := ⟨whole.arena.bytes ++ s.bytes⟩
    columns := List.zipWith (· ++ ·) whole.columns s.columns }

-- Segments in the order of their chunks.
def inOrder (segments : List Segment) : List Segment :=
  segments.mergeSort (·.chunk.start ≤ ·.chunk.start)

def assemble (columnCount : Nat) (segments : List Segment) : Assembly :=
  (inOrder segments).foldl Assembly.push (.empty columnCount)

end Segment

end Relationships

end PropertyGraph
