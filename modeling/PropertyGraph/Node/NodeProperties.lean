import PropertyGraph.Node.NodeValues

namespace PropertyGraph

structure NodeProperty where
  key : String
  state : PropertyState
  values : NodeValues

abbrev NodeProperties := NameMap String NodeProperty

-- Adds a property under its own key, unless the key is taken.
def NodeProperties.addIfAbsent (ps : NodeProperties) (p : NodeProperty) : NodeProperties :=
  if ps.contains p.key then ps else ps.insert p.key p

end PropertyGraph
