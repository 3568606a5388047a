import PropertyGraph.Node.NodeProperties
import PropertyGraph.Relationship.Batch
import PropertyGraph.Store.Schema

namespace PropertyGraph

structure RelationshipProperty where
  key : String
  state : PropertyState
  values : ValueRuns

-- What a store holds at one time: node properties by label, and topologies and relationship properties by type.
structure Catalog where
  nodeProperties : NameMap Label NodeProperties := ∅
  topologies : NameMap RelType Topology := ∅
  relationshipProperties : NameMap RelType (NameMap String RelationshipProperty) := ∅

namespace Catalog

variable (c : Catalog)

-- The topology of a type, which must be loaded.
def topology (t : RelType) : Except Fault Topology :=
  match c.topologies.find? t with
  | some topology => .ok topology
  | none => .error (.typeNotLoaded t c.topologies.keys)

def propertiesOf (t : RelType) : NameMap String RelationshipProperty :=
  (c.relationshipProperties.find? t).getD ∅

def relationshipProperty? (t : RelType) (key : String) : Option RelationshipProperty :=
  (c.propertiesOf t).find? key

def nodePropertiesOf (l : Label) : NodeProperties :=
  (c.nodeProperties.find? l).getD ∅

def nodeProperty? (l : Label) (key : String) : Option NodeProperty :=
  (c.nodePropertiesOf l).find? key

-- The labels that store a key, in name order.
def labelsStoring (key : String) : List Label :=
  (c.nodeProperties.entries.filter (·.2.contains key)).map (·.1)

-- The type of a node property, as the first label that stores it has it.
def nodePropertyType? (key : String) : Option ValueType :=
  c.nodeProperties.values.findSome? fun ps => (ps.find? key).map (·.values.type)

def relationshipCount : Nat :=
  c.topologies.values.foldr (·.relationshipCount + ·) 0

-- Every key of a node property, once.
def nodePropertyKeys : List String :=
  NameMap.nameSet (c.nodeProperties.values.flatMap NameMap.keys)

-- Every key of a relationship property, once.
def relationshipPropertyKeys : List String :=
  NameMap.nameSet (c.relationshipProperties.values.flatMap NameMap.keys)

-- Columns as properties of a type, each of which must fit the topology.
def fitColumns (t : RelType) (topology : Topology) (columns : NameMap String ValueRuns)
    (state : PropertyState) : Except Fault (NameMap String RelationshipProperty) :=
  columns.entries.foldlM (fun ps (key, values) =>
    if values.nodeCount ≠ topology.nodeCount ∨ values.elementCount ≠ topology.relationshipCount then
      .error (.relationshipColumnSize key t values.elementCount topology.relationshipCount)
    else .ok (ps.insert key ⟨key, state, values⟩)) ∅

-- The schema of the catalog with the labels of an id map.
def schema (nodes : IdMap) : Schema where
  nodeCount := nodes.nodeCount
  nodes := .ofList (nodes.availableLabels.map fun l =>
    (l.name, (c.nodePropertiesOf l).mapValues fun p => ⟨p.values.type, p.state⟩))
  relationships := .ofList (c.topologies.entries.map fun (t, topology) =>
    (t.name, {
      relationshipCount := topology.relationshipCount
      undirected := topology.isUndirected
      properties := (c.propertiesOf t).mapValues fun p => ⟨.double, p.state⟩ }))

end Catalog

end PropertyGraph
