import PropertyGraph.Fault

namespace PropertyGraph

-- The values of one relationship property, node after node, each in the order of the node's targets. The values of node
-- `v` stand from `starts[v]` up to `starts[v + 1]`.
structure ValueRuns where
  starts : Array Nat
  values : Array Float
  default : Float

namespace ValueRuns

def ascends : List Nat → Bool
  | a :: b :: rest => a ≤ b && ascends (b :: rest)
  | _ => true

-- Whether the starts begin at zero, never fall and end behind the last of `count` values.
def indexes (starts : Array Nat) (count : Nat) : Bool :=
  starts[0]? = some 0 && starts.back? = some count && ascends starts.toList

def ofLayout (starts : Array Nat) (values : Array Float) (default : Float) : Except Fault ValueRuns :=
  if indexes starts values.size then .ok ⟨starts, values, default⟩
  else .error (.valueLayout starts.size values.size)

def nodeCount (r : ValueRuns) : Nat := r.starts.size - 1

def elementCount (r : ValueRuns) : Nat := r.values.size

-- The values of a node's relationships in target order.
def valuesOf (r : ValueRuns) (node : Nat) : Except Fault (Array Float) :=
  match r.starts[node]?, r.starts[node + 1]? with
  | some start, some stop => .ok (r.values.extract start stop)
  | _, _ => .error .indexOutOfBounds

end ValueRuns

end PropertyGraph
