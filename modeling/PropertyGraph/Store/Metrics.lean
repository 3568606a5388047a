namespace PropertyGraph

inductive MutationKind
  | addNodeProperty
  | removeNodeProperty
  | addRelationshipType
  | deleteRelationships
deriving DecidableEq, Repr

def MutationKind.text : MutationKind → String
  | addNodeProperty => "add_node_property"
  | removeNodeProperty => "remove_node_property"
  | addRelationshipType => "add_relationship_type"
  | deleteRelationships => "delete_relationships"

-- Counters of what happens to a store.
structure Metrics where
  graphsMaterialized : Nat := 0
  filteredGraphs : Nat := 0
  typesMaterialized : Nat := 0
  nodePropertiesAdded : Nat := 0
  nodePropertiesRemoved : Nat := 0
  relationshipTypesAdded : Nat := 0
  relationshipTypesDeleted : Nat := 0
  releases : Nat := 0
deriving DecidableEq, Repr, Inhabited

namespace Metrics

-- Counts a view of `types` relationship types.
def materialized (m : Metrics) (types : Nat) (filtered : Bool) : Metrics :=
  { m with
    graphsMaterialized := m.graphsMaterialized + 1
    typesMaterialized := m.typesMaterialized + types
    filteredGraphs := m.filteredGraphs + filtered.toNat }

def mutated (m : Metrics) : MutationKind → Metrics
  | .addNodeProperty => { m with nodePropertiesAdded := m.nodePropertiesAdded + 1 }
  | .removeNodeProperty => { m with nodePropertiesRemoved := m.nodePropertiesRemoved + 1 }
  | .addRelationshipType => { m with relationshipTypesAdded := m.relationshipTypesAdded + 1 }
  | .deleteRelationships => { m with relationshipTypesDeleted := m.relationshipTypesDeleted + 1 }

def released (m : Metrics) : Metrics := { m with releases := m.releases + 1 }

end Metrics

end PropertyGraph
