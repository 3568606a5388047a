import PropertyGraph.Node.Subset

namespace PropertyGraph

-- Read access to the values of one property. A node may have no value.
structure NodeValues where
  type : ValueType
  -- How many ids the values are read by.
  nodeCount : Nat
  -- The whole-number value of a node.
  long? : Nat → Except Fault (Option Int)
  -- The value of a node as a floating-point number.
  double? : Nat → Except Fault (Option Float)

-- A value for each node, all of one type. Whole numbers have 64 bits and a sign.
inductive Column
  | long (values : Array Int)
  | double (values : Array Float)
deriving Inhabited

-- The floating-point number next to a whole number of 64 bits.
def widen (v : Int) : Float := (Int64.ofInt v).toFloat

def Column.size : Column → Nat
  | long vs => vs.size
  | double vs => vs.size

namespace NodeValues

def ofColumn : Column → NodeValues
  | .long vs => {
      type := .long
      nodeCount := vs.size
      long? v := .ok vs[v]?
      double? v := .ok (vs[v]?.map widen) }
  | .double vs => {
      type := .double
      nodeCount := vs.size
      long? _ := .ok none
      double? v := .ok vs[v]? }

-- The values that one label stores, and which ids it has.
structure LabelPart where
  label : Label
  has : Nat → Bool
  values : NodeValues

-- The first part that holds a node.
def partFor? (parts : List LabelPart) (node : Nat) : Option LabelPart :=
  parts.find? (·.has node)

-- Several labels' values as one; for each node the first label that has it answers.
def ofParts (nodeCount : Nat) (parts : List LabelPart) : Except Fault NodeValues :=
  match parts with
  | [] => .error .noPropertyParts
  | first :: _ =>
    let type := first.values.type
    match parts.find? (·.values.type ≠ type) with
    | some odd => .error (.mixedProperty odd.label odd.values.type type)
    | none => .ok {
        type
        nodeCount
        long? v := match partFor? parts v with
          | some p => p.values.long? v
          | none => .ok none
        double? v := match partFor? parts v with
          | some p => p.values.double? v
          | none => .ok none }

-- Values by root id, read by the ids of a subset.
def through (values : NodeValues) (s : Subset) : NodeValues where
  type := values.type
  nodeCount := s.nodeCount
  long? v := do values.long? (← s.toRoot v)
  double? v := do values.double? (← s.toRoot v)

end NodeValues

end PropertyGraph
