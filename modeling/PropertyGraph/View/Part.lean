import PropertyGraph.Node.NodeProperties
import PropertyGraph.Relationship.Batch
import PropertyGraph.Text.Quoted
import PropertyGraph.Triangle.Intersect

namespace PropertyGraph

namespace Topology

variable {σ : Type}

-- Goes on through `n` targets, the next of which is number `i`.
def visitFrom (arena : Arena) (visit : σ → Nat → Nat → σ × Bool) :
    (n i : Nat) → Cursor → σ → Except Fault (σ × Bool)
  | 0, _, _, s => .ok (s, true)
  | n + 1, i, c, s =>
    match arena.nextTarget c with
    | (.error e, _) => .error e
    | (.ok target, c') =>
      match visit s i target with
      | (s', true) => visitFrom arena visit n (i + 1) c' s'
      | (s', false) => .ok (s', false)

-- Visits the targets of a node with their position, as long as the visitor answers `true`. The answer tells
-- whether it did so to the end.
def visit (t : Topology) (node : Nat) (visitor : σ → Nat → Nat → σ × Bool) (s : σ) :
    Except Fault (σ × Bool) := do
  let c ← t.cursor node
  visitFrom t.arena visitor c.remaining 0 c s

end Topology

-- Relationships of one type over an id map, with the values of one property if one was chosen.
structure Projection where
  nodes : IdMap
  type : RelType
  topology : Topology
  values : Option ValueRuns
  nodeProperties : NameMap String NodeValues
  -- Whether the topology was built for this view and belongs to no store.
  isOwned : Bool

namespace Projection

variable {σ : Type}

-- A view of freshly built relationships, with the values of a column if a key is given.
def owned (nodes : IdMap) (type : RelType) (rs : Relationships) (key? : Option String) :
    Except Fault Projection := do
  let values ← match key? with
    | none => pure none
    | some key =>
      match rs.properties.find? key with
      | some column => pure (some column)
      | none => throw (.noRelationshipProperty key type)
  return {
    nodes, type, topology := rs.topology, values, nodeProperties := ∅, isOwned := true }

def ownership (p : Projection) : String := if p.isOwned then "Owned" else "Borrowed"

def visit (p : Projection) (node : Nat) (visitor : σ → Nat → σ × Bool) (s : σ) :
    Except Fault (σ × Bool) :=
  p.topology.visit node (fun s _ target => visitor s target) s

def visitValues (p : Projection) (node : Nat) (fallback : Float)
    (visitor : σ → Nat → Float → σ × Bool) (s : σ) : Except Fault (σ × Bool) := do
  let values ← match p.values with
    | some runs => runs.valuesOf node
    | none => pure #[]
  p.topology.visit node (fun s i target => visitor s target (values[i]?.getD fallback)) s

def hasRelationship (p : Projection) (source target : Nat) : Except Fault Bool := do
  let c ← p.topology.cursor source
  let (id, _) ← Intersection.move (p.topology.arena.advance target) c
  return id = target

-- The value of the first relationship from `source` to `target`.
def relationshipValue (p : Projection) (source target : Nat) (fallback : Float) :
    Except Fault Float :=
  match p.values with
  | none => .ok fallback
  | some runs => do
    let (at?, _) ← p.topology.visit source
      (fun (_ : Option Nat) i t => if t = target then (some i, false) else (none, true)) none
    match at? with
    | none => return fallback
    | some i => return (← runs.valuesOf source)[i]?.getD fallback

def describe (p : Projection) : String :=
  s!"CsrGraph \x7b relationship_type: RelationshipType({Text.quoted p.type.name}), " ++
    s!"nodes: {p.topology.nodeCount}, relationships: {p.topology.relationshipCount}, " ++
    s!"property: {p.values.isSome}, ownership: {p.ownership} \x7d"

end Projection

inductive Part
  | whole (p : Projection)
  | restricted (p : Projection) (s : Subset)

namespace Part

variable {σ : Type}

def projection : Part → Projection
  | whole p => p
  | restricted p _ => p

def nodeCount : Part → Nat
  | whole p => p.nodes.nodeCount
  | restricted _ s => s.nodeCount

def isUndirected (p : Part) : Bool := p.projection.topology.isUndirected

def hasValues (p : Part) : Bool := p.projection.values.isSome

def type (p : Part) : RelType := p.projection.type

-- Visits the targets of a node that belong to the view, by their ids in the view.
def visit (p : Part) (node : Nat) (visitor : σ → Nat → σ × Bool) (s : σ) :
    Except Fault (σ × Bool) :=
  match p with
  | whole p => p.visit node visitor s
  | restricted p sub => do
    p.visit (← sub.toRoot node) (fun s target =>
      match sub.toFiltered target with
      | some target => visitor s target
      | none => (s, true)) s

-- Like `visit`, together with the chosen property's values, or `fallback` where there is none.
def visitValues (p : Part) (node : Nat) (fallback : Float)
    (visitor : σ → Nat → Float → σ × Bool) (s : σ) : Except Fault (σ × Bool) :=
  match p with
  | whole p => p.visitValues node fallback visitor s
  | restricted p sub => do
    p.visitValues (← sub.toRoot node) fallback (fun s target value =>
      match sub.toFiltered target with
      | some target => visitor s target value
      | none => (s, true)) s

def degree (p : Part) (node : Nat) : Except Fault Nat :=
  match p with
  | whole p => p.topology.degree node
  | restricted .. => do
    let (d, _) ← p.visit node (fun d _ => (d + 1, true)) 0
    return d

def relationshipCount (p : Part) : Except Fault Nat :=
  match p with
  | whole p => .ok p.topology.relationshipCount
  | restricted _ s =>
    (List.range s.nodeCount).foldlM (fun n node => do return n + (← p.degree node)) 0

def hasRelationship (p : Part) (source target : Nat) : Except Fault Bool :=
  match p with
  | whole p => p.hasRelationship source target
  | restricted p s => do
    let source ← s.toRoot source
    let target ← s.toRoot target
    p.hasRelationship source target

def relationshipValue (p : Part) (source target : Nat) (fallback : Float) : Except Fault Float :=
  match p with
  | whole p => p.relationshipValue source target fallback
  | restricted p s => do
    let source ← s.toRoot source
    let target ← s.toRoot target
    p.relationshipValue source target fallback

def toExternal (p : Part) (node : Nat) : Except Fault Nat :=
  match p with
  | whole p => p.nodes.toExternal node
  | restricted _ s => s.toExternal node

def toInternal? (p : Part) (external : Nat) : Option Nat :=
  match p with
  | whole p => p.nodes.toInternal? external
  | restricted _ s => s.toInternal? external

def labelsOf (p : Part) (node : Nat) : Except Fault (List Label) :=
  match p with
  | whole p => .ok (p.nodes.labelsOf node)
  | restricted p s => do return p.nodes.labelsOf (← s.toRoot node)

def nodeValues? (p : Part) (key : String) : Option NodeValues :=
  match p with
  | whole p => p.nodeProperties.find? key
  | restricted p s => (p.nodeProperties.find? key).map (·.through s)

def nodePropertyKeys (p : Part) : List String := p.projection.nodeProperties.keys

def describe : Part → String
  | whole p => p.describe
  | restricted p s => s!"NodeFilteredGraph \x7b nodes: {s.nodeCount}, inner: {p.describe} \x7d"

end Part

end PropertyGraph
