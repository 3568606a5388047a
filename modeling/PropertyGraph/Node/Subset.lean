import PropertyGraph.Chunk.Pass
import PropertyGraph.Node.IdMap

namespace PropertyGraph

-- The nodes of an id map that have one of some labels, numbered anew in ascending order. The ids of the whole map are
-- called root ids here.
structure Subset where
  root : IdMap
  members : NodeSet
  -- The root ids of the members by their new ids.
  roots : Array Nat

namespace Subset

-- The members of one chunk of root ids.
structure Part where
  start : Nat
  ids : List Nat

def Part.ofChunk (members : NodeSet) (c : Chunk) : Part :=
  ⟨c.start, c.ids.filter fun v => members.contains (Word32.truncate v)⟩

-- Parts in the order of their chunks, whoever found them.
def ofParts (root : IdMap) (members : NodeSet) (parts : List Part) : Subset where
  root
  members
  roots := ((parts.mergeSort (·.start ≤ ·.start)).flatMap (·.ids)).toArray

-- The nodes that have one of the labels, found by several workers.
def ofLabels (root : IdMap) (labels : List Label) (concurrency chunkSize : Nat) :
    Except Fault Subset := do
  let members ← root.unionOf labels
  let pass := Pass.perform root.nodeCount concurrency chunkSize
    [] () false (fun _ => false) Fault.isViolation
    fun parts c () => (.ok (Part.ofChunk members c :: parts), ())
  return ofParts root members (← pass.outcome).flatten

def nodeCount (s : Subset) : Nat := s.roots.size

def toRoot (s : Subset) (node : Nat) : Except Fault Nat :=
  match s.roots[node]? with
  | some root => .ok root
  | none => .error (.nodeOutsideSubset node s.nodeCount)

-- No id that does not fit into 32 bits is a member.
def containsRoot (s : Subset) (root : Nat) : Bool :=
  root < Word32.count && s.members.contains root

-- The new id of a member tells how many members there are below it.
def toFiltered (s : Subset) (root : Nat) : Option Nat :=
  if s.containsRoot root then some (s.members.rank root - 1) else none

def toExternal (s : Subset) (node : Nat) : Except Fault Nat := do
  s.root.toExternal (← s.toRoot node)

def toInternal? (s : Subset) (external : Nat) : Option Nat := do
  s.toFiltered (← s.root.toInternal? external)

end Subset

end PropertyGraph
