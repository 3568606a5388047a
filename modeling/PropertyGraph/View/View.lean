import PropertyGraph.View.Part

namespace PropertyGraph

-- Views over a choice of relationship types. A view of several types is a union of parts over one node set; its
-- relationships are those of its parts, part after part.
inductive View
  | single (p : Part)
  | union (first : View) (rest : List View)

namespace View

mutual

-- The first of the parts that a view is made of, and the others in order.
def partsOf : View → Part × List Part
  | single p => (p, [])
  | union first rest =>
    let (p, ps) := partsOf first
    (p, ps ++ partsOfAll rest)

def partsOfAll : List View → List Part
  | [] => []
  | v :: vs =>
    let (p, ps) := partsOf v
    p :: ps ++ partsOfAll vs

end

-- The part that answers about nodes.
def head (v : View) : Part := v.partsOf.1

def parts (v : View) : List Part := v.partsOf.1 :: v.partsOf.2

variable {σ : Type}

def nodeCount (v : View) : Nat := v.head.nodeCount

-- Several views as one. They must have equally many nodes; a single one is its own union.
def unionOf : List View → Except Fault View
  | [] => .error .emptyUnion
  | [v] => .ok v
  | v :: vs =>
    match vs.find? (·.nodeCount ≠ v.nodeCount) with
    | some odd => .error (.unionNodeCounts v.nodeCount odd.nodeCount)
    | none => .ok (union v vs)

def isUndirected (v : View) : Bool := v.parts.all (·.isUndirected)

def hasValues (v : View) : Bool := v.parts.all (·.hasValues)

def types (v : View) : List RelType := v.parts.map (·.type)

-- Asks part after part, as long as each of them is visited to its end.
def visitParts (visitPart : Part → σ → Except Fault (σ × Bool)) :
    List Part → σ → Except Fault (σ × Bool)
  | [], s => .ok (s, true)
  | p :: ps, s => do
    match ← visitPart p s with
    | (s, true) => visitParts visitPart ps s
    | (s, false) => return (s, false)

def visit (v : View) (node : Nat) (visitor : σ → Nat → σ × Bool) (s : σ) :
    Except Fault (σ × Bool) :=
  visitParts (fun p s => p.visit node visitor s) v.parts s

def visitValues (v : View) (node : Nat) (fallback : Float)
    (visitor : σ → Nat → Float → σ × Bool) (s : σ) : Except Fault (σ × Bool) :=
  visitParts (fun p s => p.visitValues node fallback visitor s) v.parts s

-- A way to show the items of a part to a visitor.
abbrev Showing (α : Type) := ∀ {σ : Type}, Part → (σ → α → σ × Bool) → σ → Except Fault (σ × Bool)

-- The visitor, which notes its last answer.
def noting {α : Type} (visitor : σ → α → σ × Bool) : σ × Bool → α → (σ × Bool) × Bool :=
  fun (s, _) a =>
    let (s, more) := visitor s a
    ((s, more), more)

mutual

-- Shows the items of a view to a visitor. A union does not know where its views stopped. It goes by the last answer of
-- the visitor, which is still the one before if a view had nothing to show.
def relay {α : Type} (showing : Showing α) {σ : Type} (visitor : σ → α → σ × Bool) : View → σ → Except Fault σ
  | single p, s => (showing p visitor s).map (·.1)
  | union first rest, s => do
    let (s, running) ← relay showing (noting visitor) first (s, true)
    if running then relayAll showing visitor rest (s, running) else return s

def relayAll {α : Type} (showing : Showing α) {σ : Type} (visitor : σ → α → σ × Bool) :
    List View → σ × Bool → Except Fault σ
  | [], (s, _) => .ok s
  | v :: vs, s => do
    let (s, running) ← relay showing (noting visitor) v s
    if running then relayAll showing visitor vs (s, running) else return s

end

-- Shows the targets of a node to a visitor, as long as it answers `true`.
def forEach (v : View) (node : Nat) (visitor : σ → Nat → σ × Bool) (s : σ) : Except Fault σ :=
  relay (fun p visitor s => p.visit node visitor s) visitor v s

-- Like `forEach`, together with the values.
def forEachValue (v : View) (node : Nat) (fallback : Float) (visitor : σ → Nat → Float → σ × Bool) (s : σ) :
    Except Fault σ :=
  relay (fun p visitor s => p.visitValues node fallback (fun s t x => visitor s (t, x)) s)
    (fun s x => visitor s x.1 x.2) v s

-- At most `limit` targets of a node.
def targets (v : View) (node : Nat) (limit : Option Nat) : Except Fault (List Nat) := do
  let (found, _) ← v.visit node
    (fun (found : Array Nat) t => (found.push t, limit.all (found.size + 1 < ·))) #[]
  return found.toList

-- At most `limit` targets of a node with their values.
def targetValues (v : View) (node : Nat) (fallback : Float) (limit : Option Nat) :
    Except Fault (List (Nat × Float)) := do
  let (found, _) ← v.visitValues node fallback
    (fun (found : Array (Nat × Float)) t x => (found.push (t, x), limit.all (found.size + 1 < ·))) #[]
  return found.toList

def degree (v : View) (node : Nat) : Except Fault Nat :=
  v.parts.foldlM (fun n p => do return n + (← p.degree node)) 0

def relationshipCount (v : View) : Except Fault Nat :=
  v.parts.foldlM (fun n p => do return n + (← p.relationshipCount)) 0

-- The first part that holds a relationship from `source` to `target`.
def partWith? (source target : Nat) : List Part → Except Fault (Option Part)
  | [] => .ok none
  | p :: ps => do
    if ← p.hasRelationship source target then return some p
    else partWith? source target ps

def hasRelationship (v : View) (source target : Nat) : Except Fault Bool := do
  return (← partWith? source target v.parts).isSome

-- The value of the first relationship from `source` to `target`, or `fallback`.
def relationshipValue (v : View) (source target : Nat) (fallback : Float) : Except Fault Float :=
  match v with
  | single p => p.relationshipValue source target fallback
  | union .. => do
    match ← partWith? source target v.parts with
    | some p => p.relationshipValue source target fallback
    | none => return fallback

def toExternal (v : View) (node : Nat) : Except Fault Nat := v.head.toExternal node

def toInternal? (v : View) (external : Nat) : Option Nat := v.head.toInternal? external

def labelsOf (v : View) (node : Nat) : Except Fault (List Label) := v.head.labelsOf node

def nodeValues? (v : View) (key : String) : Option NodeValues := v.head.nodeValues? key

def nodePropertyKeys (v : View) : List String := v.head.nodePropertyKeys

mutual

def describe : View → String
  | single p => p.describe
  | union first rest =>
    let listed := ", ".intercalate (describe first :: describeAll rest)
    s!"UnionGraph \x7b parts: [{listed}] \x7d"

def describeAll : List View → List String
  | [] => []
  | v :: vs => describe v :: describeAll vs

end

end View

-- The intersection of a part, by the ids of the view.
structure PartIntersection where
  intersection : Intersection
  -- If given, the corners are named by their ids in the subset.
  subset : Option Subset

namespace PartIntersection

def nodeCount (e : PartIntersection) : Nat :=
  match e.subset with
  | some s => s.nodeCount
  | none => e.intersection.topology.nodeCount

-- The triangles whose smallest corner is the view's node `node`.
def trianglesAt (e : PartIntersection) (node : Nat) (pool : Pool) :
    Except Fault (Pool × Array Triangle) :=
  match e.subset with
  | none => e.intersection.trianglesAt node pool
  | some s => do
    let (pool, found) ← e.intersection.trianglesAt (← s.toRoot node) pool
    return (pool, found.filterMap fun t => do
      return ⟨node, ← s.toFiltered t.b, ← s.toFiltered t.c⟩)

def trianglesAll (e : PartIntersection) (anchors : List Nat) : Except Fault (Array Triangle) := do
  let (_, found) ← anchors.foldlM (fun (pool, found) a => do
    let (pool, more) ← e.trianglesAt a pool
    return (pool, found ++ more)) (Pool.fresh, #[])
  return found

end PartIntersection

def Part.intersection (maxDegree : Nat) : Part → PartIntersection
  | whole p => ⟨⟨p.topology, maxDegree, none⟩, none⟩
  | restricted p s => ⟨⟨p.topology, maxDegree, some s.members⟩, some s⟩

-- Only a view of a single type has an intersection.
def View.intersection (v : View) (maxDegree : Nat) : Except Fault PartIntersection :=
  match v with
  | single p => .ok (p.intersection maxDegree)
  | union .. => .error (.intersectionOfUnion v.types)

end PropertyGraph
