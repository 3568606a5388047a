import PropertyGraph.Chunk.Pass
import PropertyGraph.View.View

namespace PropertyGraph

structure TriangleConfig where
  -- Zero asks for any number of workers.
  concurrency : Nat := 0
  -- Nodes of a higher degree are no corners.
  maxDegree : Nat := noDegreeLimit
  chunkSize : Nat := Chunk.defaultSize
  -- How many triangles may wait for whoever reads them.
  queueCapacity : Nat := 1024

-- The number of triangles of a view, in all and at each node.
structure TriangleCounts where
  global : Nat
  -- By node id of the view.
  perNode : Array Nat

-- The intersection of a view whose relationships can be seen from both ends.
def View.triangles (v : View) (c : TriangleConfig) : Except Fault PartIntersection :=
  if v.isUndirected then v.intersection c.maxDegree else .error .notUndirected

namespace TriangleCounts

-- What a worker keeps: its cursors, and how many triangles it found.
structure Worker where
  pool : Pool := .fresh
  found : Nat := 0

-- Adds one at each corner.
def addCorners (counts : Array Nat) (t : Triangle) : Array Nat :=
  t.toList.foldl (fun counts v => counts.modify v (· + 1)) counts

def countAt (e : PartIntersection) (state : Worker × Array Nat) (anchor : Nat) :
    Except Fault (Worker × Array Nat) := do
  let (w, counts) := state
  let (pool, found) ← e.trianglesAt anchor w.pool
  return (⟨pool, w.found + found.size⟩, found.foldl addCorners counts)

-- Counts the triangles at the anchors of a chunk.
def countChunk (e : PartIntersection) (w : Worker) (c : Chunk) (counts : Array Nat) :
    Except Fault Worker × Array Nat :=
  match c.ids.foldlM (countAt e) (w, counts) with
  | .ok (w, counts) => (.ok w, counts)
  | .error f => (.error f, counts)

-- What a complete counting pass found. One that was ended early has no answer.
def ofPass {τ : Type} (p : Pass Worker τ (Array Nat) Fault) : Except Fault TriangleCounts := do
  let workers ← p.outcome
  if p.raised then throw .terminated
  else return ⟨workers.foldr (·.found + ·) 0, p.shared⟩

end TriangleCounts

-- Counts the triangles of a view, unless the pass is asked to end before it starts.
def View.countTriangles (v : View) (c : TriangleConfig) (raised : Bool) :
    Except Fault TriangleCounts := do
  let e ← v.triangles c
  TriangleCounts.ofPass <|
    Pass.perform e.nodeCount (effectiveConcurrency c.concurrency) c.chunkSize
      {} (Array.replicate e.nodeCount 0) raised (fun _ => false) Fault.isViolation
      (TriangleCounts.countChunk e)

end PropertyGraph
