import PropertyGraph.Node.NodeSet
import PropertyGraph.Relationship.Topology
import PropertyGraph.Word64

namespace PropertyGraph

-- Three nodes with `a < b < c`.
structure Triangle where
  a : Nat
  b : Nat
  c : Nat
deriving DecidableEq, Repr, Inhabited

def Triangle.toList (t : Triangle) : List Nat := [t.a, t.b, t.c]

-- The cursors that one worker needs, which keeps them from one corner to the next.
structure Pool where
  main : Cursor
  ofA : Cursor
  ofB : Cursor
deriving Repr, Inhabited

def Pool.fresh : Pool := ⟨.exhausted, .exhausted, .exhausted⟩

-- The limit on degrees that lets every node pass.
def noDegreeLimit : Nat := Word64.greatest

structure Intersection where
  topology : Topology
  -- Nodes of a higher degree are no corners.
  maxDegree : Nat
  -- If given, `b` and `c` have to be among these nodes.
  members : Option NodeSet

namespace Intersection

variable (e : Intersection)

def degreeOk (node : Nat) : Except Fault Bool :=
  if e.maxDegree = noDegreeLimit then .ok true
  else (e.topology.degree node).map fun d => decide (d ≤ e.maxDegree)

def includes (node : Nat) : Bool :=
  match e.members with
  | some s => s.contains node
  | none => true

def admits (node : Nat) : Except Fault Bool :=
  if e.includes node then e.degreeOk node else .ok false

-- A walk side by side: two cursors and the ids they stand at.
structure Walk where
  ofA : Cursor
  atA : Nat
  ofB : Cursor
  atB : Nat

-- A step of a cursor that must not fail.
def move (step : Cursor.Step Nat) (c : Cursor) : Except Fault (Nat × Cursor) :=
  match step c with
  | (.ok id, c') => .ok (id, c')
  | (.error f, _) => .error f

-- Walks on until one side is exhausted, for which `fuel` looks must do, and adds the triangles on the way.
def walk (a b : Nat) : (fuel : Nat) → Walk → Array Triangle → Except Fault (Walk × Array Triangle)
  | 0, _, _ => .error .endlessWalk
  | fuel + 1, w, found => do
    let arena := e.topology.arena
    if w.atA = notFound ∨ w.atB = notFound then
      return (w, found)
    else if w.atA < w.atB then
      let (atA, ofA) ← move (arena.advance w.atB) w.ofA
      walk a b fuel { w with ofA, atA } found
    else if w.atB < w.atA then
      let (atB, ofB) ← move (arena.advance w.atA) w.ofB
      walk a b fuel { w with ofB, atB } found
    else
      let found := if ← e.admits w.atA then found.push ⟨a, b, w.atA⟩ else found
      let (atA, ofA) ← move (arena.skipUntil w.atA) w.ofA
      let (atB, ofB) ← move (arena.skipUntil w.atB) w.ofB
      walk a b fuel ⟨ofA, atA, ofB, atB⟩ found

-- Adds the triangles over the edge from `a` to `b`, at which the main cursor stands.
def closeEdge (a b : Nat) (pool : Pool) (found : Array Triangle) :
    Except Fault (Pool × Array Triangle) := do
  let arena := e.topology.arena
  let offset ← e.topology.offset b
  let ofB ← match arena.reset offset pool.ofB with
    | (.ok (), c) => pure c
    | (.error f, _) => throw f
  let (atB, ofB) ← move (arena.skipUntil b) ofB
  if atB = notFound then
    return ({ pool with ofB }, found)
  else
    let (atA, ofA) ← move (arena.advance atB) pool.main
    let (w, found) ← e.walk a b (ofA.remaining + ofB.remaining + 2) ⟨ofA, atA, ofB, atB⟩ found
    return ({ pool with ofA := w.ofA, ofB := w.ofB }, found)

-- Goes on from target `b` of `a` to the last one, for which `fuel` looks must do.
def closeEdges (a : Nat) : (fuel : Nat) → (b : Nat) → Pool → Array Triangle →
    Except Fault (Pool × Array Triangle)
  | 0, _, _, _ => .error .endlessWalk
  | fuel + 1, b, pool, found => do
    if b = notFound then
      return (pool, found)
    else
      let (pool, found) ← if ← e.admits b then e.closeEdge a b pool found else pure (pool, found)
      let (next, main) ← move (e.topology.arena.skipUntil b) pool.main
      closeEdges a fuel next { pool with main } found

-- The triangles whose smallest corner is `a`, by `b` and then by `c`. For each target `b` of `a` above it, the targets
-- of `a` behind `b` and the targets of `b` above `b` are walked side by side; where both hold the same `c`, the three
-- make a triangle.
def trianglesAt (a : Nat) (pool : Pool) : Except Fault (Pool × Array Triangle) := do
  if ← e.degreeOk a then
    let arena := e.topology.arena
    let offset ← e.topology.offset a
    let main ← match arena.reset offset pool.main with
      | (.ok (), c) => pure c
      | (.error f, _) => throw f
    let (b, main) ← move (arena.skipUntil a) main
    e.closeEdges a (main.remaining + 2) b { pool with main } #[]
  else
    return (pool, #[])

-- The triangles at several corners one after the other, with one pool.
def trianglesAll (anchors : List Nat) (pool : Pool) : Except Fault (Pool × Array Triangle) :=
  anchors.foldlM (fun (pool, found) a => do
    let (pool, more) ← e.trianglesAt a pool
    return (pool, found ++ more)) (pool, #[])

end Intersection

end PropertyGraph
