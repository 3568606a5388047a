import PropertyGraph.Relationship.Layout
import PropertyGraph.Run.Cursor

namespace PropertyGraph

-- The relationships of one type: an arena of runs, and where in it the run of each node starts.
structure Topology where
  offsets : Array Nat
  arena : Arena
  -- How many relationships are stored; undirected ones count once for each direction.
  relationshipCount : Nat
  orientation : Orientation

namespace Topology

-- No relationships between `nodeCount` nodes.
def empty (nodeCount : Nat) (orientation : Orientation) : Topology :=
  ⟨Array.replicate nodeCount 0, .empty, 0, orientation⟩

def nodeCount (t : Topology) : Nat := t.offsets.size

def isUndirected (t : Topology) : Bool := t.orientation = .undirected

def offset (t : Topology) (node : Nat) : Except Fault Nat :=
  match t.offsets[node]? with
  | some o => .ok o
  | none => .error (.nodeOutsideTopology node t.nodeCount)

def degree (t : Topology) (node : Nat) : Except Fault Nat := do
  t.arena.degree (← t.offset node)

def cursor (t : Topology) (node : Nat) : Except Fault Cursor := do
  t.arena.cursor (← t.offset node)

-- The targets of a node in the order they are stored.
def targets (t : Topology) (node : Nat) : Except Fault (List Nat) := do
  t.arena.run (← t.offset node)

def sizeInBytes (t : Topology) : Nat :=
  8 * t.nodeCount + t.arena.size

end Topology

end PropertyGraph
