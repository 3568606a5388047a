import PropertyGraph.Chunk.Pass
import PropertyGraph.NameMap
import PropertyGraph.Relationship.Segment
import PropertyGraph.Relationship.Topology
import PropertyGraph.Relationship.ValueRuns

namespace PropertyGraph

-- A topology and its value columns, by property key.
structure Relationships where
  topology : Topology
  properties : NameMap String ValueRuns

-- Rows by source: where in `order` those of each node start and those of the last node end.
structure Grouping where
  starts : Array Nat
  order : Array Nat

namespace Grouping

-- For each node, how many rows come from the node in front of it.
def counts (nodeCount : Nat) (sources : Array Nat) : Array Nat :=
  sources.foldl (fun counts s => counts.modify (s + 1) (· + 1)) (Array.replicate (nodeCount + 1) 0)

-- Adds to each of the counts the sum in front of it.
def sums (nodeCount : Nat) (counts : Array Nat) : Array Nat :=
  (List.range nodeCount).foldl
    (fun sums v => let sum := sums.getD v 0; sums.modify (v + 1) (· + sum)) counts

-- Puts one row into the next free place of its source.
def put (sources : Array Nat) : Array Nat × Array Nat → Nat → Array Nat × Array Nat
  | (free, order), i =>
    let source := sources.getD i 0
    let place := free.getD source 0
    (free.setIfInBounds source (place + 1), order.setIfInBounds place i)

def ofSources (nodeCount : Nat) (sources : Array Nat) : Grouping :=
  let starts := sums nodeCount (counts nodeCount sources)
  let rows := List.range sources.size
  ⟨starts, (rows.foldl (put sources) (starts, Array.replicate sources.size 0)).2⟩

-- The rows of a node in the order they came.
def rowsAt (g : Grouping) (node : Nat) : List Nat :=
  (g.order.extract (g.starts.getD node 0) (g.starts.getD (node + 1) 0)).toList

end Grouping

open Relationships

-- Relationships between the nodes below `nodeCount`, in the order they were added. What is stored in one direction is a
-- row. The rows stand in three arrays, of which the last has the values of all rows one behind the other.
structure Batch where
  nodeCount : Nat
  layout : Layout
  -- Key and default value of every column.
  columns : List (String × Float)
  sources : Array Nat
  targets : Array Nat
  values : Array Float

namespace Batch

def empty (nodeCount : Nat) (layout : Layout) (columns : List (String × Float)) : Batch :=
  ⟨nodeCount, layout, columns, #[], #[], #[]⟩

def push (b : Batch) (source target : Nat) (values : List Float) : Batch :=
  { b with
    sources := b.sources.push source
    targets := b.targets.push target
    values := b.values ++ values }

-- Adds a relationship with a value for each column. A call that fails keeps what it did until then.
def add (b : Batch) (source target : Nat) (values : List Float) : Except Fault Unit × Batch :=
  if b.nodeCount ≤ source then (.error (.endpointOutside source b.nodeCount), b)
  else if b.nodeCount ≤ target then (.error (.endpointOutside target b.nodeCount), b)
  else if values.length ≠ b.columns.length then (.error (.valueCount b.columns.length values.length), b)
  else (.ok (), (b.layout.orientation.ways source target).foldl (fun b (s, t) => b.push s t values) b)

-- Takes the default values out of a batch, which has zeros in their places until they are put back.
def takeDefaults (b : Batch) : List Float × Batch :=
  (b.columns.map (·.2), { b with columns := b.columns.map fun (key, _) => (key, 0.0) })

def putDefaults (b : Batch) (defaults : List Float) : Batch :=
  { b with columns := (b.columns.map (·.1)).zip defaults }

-- Adds a relationship with the default value in each column.
def addDefault (b : Batch) (source target : Nat) : Except Fault Unit × Batch :=
  let (defaults, b) := b.takeDefaults
  let (answer, b) := b.add source target defaults
  (answer, b.putDefaults defaults)

-- A call that adds a relationship, with values of its own or with default values.
inductive Call
  | add (source target : Nat) (values : List Float)
  | addDefault (source target : Nat)

-- What a call answers, and what it leaves behind.
def perform (b : Batch) : Call → Except Fault Unit × Batch
  | .add source target values => b.add source target values
  | .addDefault source target => b.addDefault source target

def row (b : Batch) (i : Nat) : Row where
  source := b.sources.getD i 0
  target := b.targets.getD i 0
  values := (b.values.extract (i * b.columns.length) ((i + 1) * b.columns.length)).toList

-- The rows of a node in the order they came.
def rowsOf (b : Batch) (g : Grouping) (node : Nat) : List Row :=
  (g.rowsAt node).map b.row

-- Lays out the values of one more column, in place of an earlier one of the same key.
def addColumn (starts : Array Nat) (properties : NameMap String ValueRuns) :
    (String × Float) × Array Float → Except Fault (NameMap String ValueRuns)
  | ((key, default), values) => do
    return properties.insert key (← ValueRuns.ofLayout starts values default)

-- The topology and the columns that segments of all chunks make.
def ofSegments (b : Batch) (segments : List Segment) : Except Fault Relationships := do
  let whole := Segment.assemble b.columns.length segments
  let properties ← (b.columns.zip whole.columns).foldlM (addColumn whole.starts) ∅
  return {
    topology := ⟨whole.offsets, whole.arena, whole.relationshipCount, b.layout.orientation⟩
    properties }

-- What one worker does with a chunk: it keeps the segments that it compressed. The room in which it sorts the rows of a
-- node and writes down their targets is emptied before every node, so nothing but the segments is kept from chunk to
-- chunk.
def compressChunk (b : Batch) (g : Grouping) (kept : List Segment) (c : Chunk) :
    Except Fault (List Segment) :=
  (Segment.compress b.layout.aggregation b.columns.length (b.rowsOf g) c).map (· :: kept)

-- Compresses chunks of nodes by several workers. The starts of all nodes and the end of the last one have
-- to fit into one vector.
def compress (b : Batch) (concurrency : Nat) : Except Fault Relationships :=
  if Word64.maxVector ≤ b.nodeCount then .error .vectorTooLong
  else do
    let g := Grouping.ofSources b.nodeCount b.sources
    let pass := Pass.perform b.nodeCount (effectiveConcurrency concurrency) Chunk.defaultSize
      [] () false (fun _ => false) Fault.isViolation
      fun kept c () => (b.compressChunk g kept c, ())
    b.ofSegments (← pass.outcome).flatten

end Batch

end PropertyGraph
