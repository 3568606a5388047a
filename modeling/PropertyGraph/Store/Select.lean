import PropertyGraph.Store.Store
import PropertyGraph.View.View

namespace PropertyGraph

namespace Store

-- A relationship type and the key of the property that its relationships show.
structure Choice where
  type : RelType
  key : Option String

variable (s : Store)

-- The node properties that any of the labels stores, as a view of these labels shows them.
def nodePropertyViews (ls : List Label) : Except Fault (NameMap String NodeValues) :=
  let keys := NameMap.nameSet (ls.flatMap fun l => (s.catalog.nodePropertiesOf l).keys)
  keys.foldlM (fun views key => do
    match ← s.resolveNodeProperty ls key with
    | some values => return views.insert key values
    | none => return views) ∅

-- The part of a view that shows one type.
def project (nodeProperties : NameMap String NodeValues) (subset : Option Subset) (c : Choice) :
    Except Fault Part := do
  let topology ← s.catalog.topology c.type
  let values := c.key.bind fun key => (s.catalog.relationshipProperty? c.type key).map (·.values)
  let p : Projection := {
    nodes := s.nodes, type := c.type, topology, values, nodeProperties, isOwned := false }
  return match subset with
    | some subset => .restricted p subset
    | none => .whole p

-- The view of the nodes with one of the labels and the relationships of the chosen types, and whether a node was left
-- out of it.
def assemble (ls : List Label) (choices : List Choice) (concurrency : Nat) : Except Fault (View × Bool) := do
  if ls.isEmpty then throw (.noLabelsGiven s.nodeLabels)
  if choices.isEmpty then throw (.noTypesGiven s.catalog.topologies.keys)
  let filtered := !(← s.nodes.coversAll ls)
  let nodeProperties ← s.nodePropertyViews ls
  let subset ← if filtered then
      let workers := effectiveConcurrency
        (if concurrency = 0 then s.options.defaultConcurrency else concurrency)
      some <$> Subset.ofLabels s.nodes ls workers s.options.filterChunkSize
    else pure none
  let parts ← choices.mapM (s.project nodeProperties subset)
  return (← View.unionOf (parts.map .single), filtered)

-- Assembles a view and counts it.
def materialize (ls : List Label) (choices : List Choice) (concurrency : Nat) : Except Fault View × Store :=
  match s.assemble ls choices concurrency with
  | .error f => (.error f, s)
  | .ok (view, filtered) =>
    (.ok view, { s with metrics := s.metrics.map (·.materialized choices.length filtered) })

-- The types in the order in which they come first, each once.
def distinct (ts : List RelType) : List RelType :=
  ts.foldl (fun seen t => if seen.contains t then seen else seen ++ [t]) []

-- The choice of one type, which has to be loaded and, if a key is given, to store it.
def choose (key : Option String) (t : RelType) : Except Fault Choice := do
  let _ ← s.catalog.topology t
  match key with
  | none => pure ()
  | some k =>
    if (s.catalog.relationshipProperty? t k).isNone then throw (.noRelationshipProperty k t)
  return ⟨t, key⟩

-- A view of some labels and types; a type that is named twice is shown once.
def getGraph (ls : List Label) (ts : List RelType) (key : Option String) (concurrency : Nat) :
    Except Fault View × Store :=
  match (distinct ts).mapM (s.choose key) with
  | .error f => (.error f, s)
  | .ok choices => s.materialize ls choices concurrency

-- A view of all nodes and types, where each type shows its first property if it has one.
def getUnion : Except Fault View × Store :=
  s.materialize s.nodeLabels
    (s.catalog.topologies.keys.map fun t => ⟨t, (s.catalog.propertiesOf t).keys.head?⟩) 0

end Store

end PropertyGraph
