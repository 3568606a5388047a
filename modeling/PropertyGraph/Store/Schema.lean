import PropertyGraph.Json.Printer
import PropertyGraph.Json.Reader
import PropertyGraph.NameMap
import PropertyGraph.Value

namespace PropertyGraph

structure PropertySchema where
  type : ValueType
  state : PropertyState
deriving DecidableEq, Repr

structure RelationshipSchema where
  -- Stored relationships; undirected ones count once for each direction.
  relationshipCount : Nat
  undirected : Bool
  properties : NameMap String PropertySchema

-- Which labels, types and properties a store has.
structure Schema where
  nodeCount : Nat
  -- By label, then by key.
  nodes : NameMap String (NameMap String PropertySchema)
  relationships : NameMap String RelationshipSchema

-- Writes a map as an object.
def NameMap.toJson {α : Type} (f : α → Json) (m : NameMap String α) : Json :=
  .object (m.entries.map fun (k, a) => (k, f a))

def PropertySchema.toJson (p : PropertySchema) : Json :=
  .object [("value_type", .string p.type.name), ("state", .string p.state.name)]

def RelationshipSchema.toJson (r : RelationshipSchema) : Json :=
  .object [("relationship_count", .number r.relationshipCount), ("undirected", .bool r.undirected),
    ("properties", r.properties.toJson PropertySchema.toJson)]

namespace Schema

-- Whether any label has the key.
def hasNodeProperty (s : Schema) (key : String) : Bool :=
  s.nodes.values.any (·.contains key)

def toJson (s : Schema) : Json :=
  .object [("node_count", .number s.nodeCount),
    ("nodes", s.nodes.toJson (·.toJson PropertySchema.toJson)),
    ("relationships", s.relationships.toJson RelationshipSchema.toJson)]

end Schema

end PropertyGraph
