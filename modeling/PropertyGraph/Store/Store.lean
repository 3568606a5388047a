import PropertyGraph.Store.Catalog
import PropertyGraph.Store.Metrics
import PropertyGraph.Store.Options

namespace PropertyGraph

-- The nodes of a graph, and the catalog of what is held about them. The generation counts the changes that were made to
-- the catalog.
structure Store where
  nodes : IdMap
  catalog : Catalog
  generation : Nat
  options : StoreOptions
  isReleasable : Bool
  -- The counters, if the store counts.
  metrics : Option Metrics

namespace Store

-- Node columns by label, each of which must fit the nodes. A label without a column has no properties.
def fitNodeColumns (nodes : IdMap) (columns : NameMap Label (NameMap String Column)) :
    Except Fault (NameMap Label NodeProperties) :=
  columns.entries.foldlM (fun byLabel (l, columns) => do
    if !nodes.hasLabel l then throw (.propertiesOfUnknownLabel l nodes.availableLabels)
    let ps ← columns.entries.foldlM (fun (ps : NodeProperties) (key, column) => do
      if column.size ≠ nodes.nodeCount then
        throw (.nodeColumnSize l key column.size nodes.nodeCount)
      return ps.addIfAbsent ⟨key, .persistent, .ofColumn column⟩) ∅
    return if ps.isEmpty then byLabel else byLabel.insert l ps) ∅

-- Assembles a store. Every column has to fit the nodes or the topology that it belongs to. Counting goes on
-- from `metrics`.
def of (nodes : IdMap) (nodeColumns : NameMap Label (NameMap String Column))
    (topologies : NameMap RelType Topology)
    (relationshipColumns : NameMap RelType (NameMap String ValueRuns)) (options : StoreOptions)
    (metrics : Metrics) : Except Fault Store := do
  let nodeProperties ← fitNodeColumns nodes nodeColumns
  for (t, topology) in topologies.entries do
    if topology.nodeCount ≠ nodes.nodeCount then
      throw (.topologySize t topology.nodeCount nodes.nodeCount)
  let relationshipProperties ← relationshipColumns.entries.foldlM (fun byType (t, columns) => do
    match topologies.find? t with
    | none => throw (.propertiesOfUnknownType t topologies.keys)
    | some topology =>
      return byType.insert t (← Catalog.fitColumns t topology columns .persistent)) ∅
  return {
    nodes
    catalog := { nodeProperties, topologies, relationshipProperties }
    generation := 0
    options
    isReleasable := true
    metrics := if options.metrics then some metrics else none }

variable (s : Store)

def nodeCount : Nat := s.nodes.nodeCount

def nodeLabels : List Label := s.nodes.availableLabels

-- Whether every one of the labels, of which there is one at least, stores the key.
def hasNodeProperty (ls : List Label) (key : String) : Bool :=
  !ls.isEmpty && ls.all fun l => (s.catalog.nodeProperty? l key).isSome

-- Whether every one of the types, of which there is one at least, stores the key.
def hasRelationshipProperty (ts : List RelType) (key : String) : Bool :=
  !ts.isEmpty && ts.all fun t => (s.catalog.relationshipProperty? t key).isSome

def relationshipCountOf (t : RelType) : Except Fault Nat := do
  return (← s.catalog.topology t).relationshipCount

-- Relationship values are floating-point numbers, whatever type stores them.
def relationshipPropertyType? (key : String) : Option ValueType :=
  if s.catalog.relationshipProperties.values.any (·.contains key) then some .double else none

-- The values of a key over the labels that store it, in the order of the labels; several labels' values are
-- read as one.
def resolveNodeProperty (ls : List Label) (key : String) : Except Fault (Option NodeValues) :=
  let parts := ls.filterMap fun l => (s.catalog.nodeProperty? l key).map fun p =>
    (⟨l, (s.nodes.members l).contains, p.values⟩ : NodeValues.LabelPart)
  match parts with
  | [] => .ok none
  | [p] => .ok (some p.values)
  | ps => (NodeValues.ofParts s.nodeCount ps).map some

-- The values of a key over all labels that store it.
def nodeProperty (key : String) : Except Fault NodeValues := do
  match ← s.resolveNodeProperty (s.catalog.labelsStoring key) key with
  | some values => return values
  | none => throw (.noNodeProperty key)

def schema : Schema := s.catalog.schema s.nodes

def describe : String :=
  s!"GraphStore \x7b nodes: {s.nodeCount}, relationship_types: {s.catalog.topologies.size}, " ++
    s!"generation: {s.generation} \x7d"

end Store

end PropertyGraph
