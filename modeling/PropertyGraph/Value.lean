namespace PropertyGraph

inductive ValueType
  | long
  | double
deriving DecidableEq, Repr

namespace ValueType

def text : ValueType → String
  | long => "LONG"
  | double => "DOUBLE"

def name : ValueType → String
  | long => "Long"
  | double => "Double"

end ValueType

-- Whether a property was loaded with the graph or added later.
inductive PropertyState
  | persistent
  | transient
deriving DecidableEq, Repr

def PropertyState.name : PropertyState → String
  | persistent => "Persistent"
  | transient => "Transient"

end PropertyGraph
