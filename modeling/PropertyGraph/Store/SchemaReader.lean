import PropertyGraph.Json.Decode
import PropertyGraph.Store.Schema

namespace PropertyGraph

def ValueType.ofJson? : Json → Option ValueType :=
  Json.choice? ([.long, .double].map fun t => (ValueType.name t, t))

def PropertyState.ofJson? : Json → Option PropertyState :=
  Json.choice? ([.persistent, .transient].map fun s => (PropertyState.name s, s))

def PropertySchema.ofJson? (j : Json) : Option PropertySchema := do
  let [type, state] ← j.record? ["value_type", "state"] | none
  return ⟨← ValueType.ofJson? type, ← PropertyState.ofJson? state⟩

def RelationshipSchema.ofJson? (j : Json) : Option RelationshipSchema := do
  let [count, undirected, properties] ← j.record? ["relationship_count", "undirected", "properties"]
    | none
  return ⟨← count.nat?, ← undirected.bool?, ← properties.map? PropertySchema.ofJson?⟩

def Schema.ofJson? (j : Json) : Option Schema := do
  let [count, nodes, relationships] ← j.record? ["node_count", "nodes", "relationships"] | none
  return ⟨← count.nat?, ← nodes.map? (·.map? PropertySchema.ofJson?),
    ← relationships.map? RelationshipSchema.ofJson?⟩

end PropertyGraph
