import PropertyGraph.Fault
import PropertyGraph.NameMap
import PropertyGraph.Node.NodeSet
import PropertyGraph.Node.Numbering

namespace PropertyGraph

-- Nodes with their labels, and with the external ids that they were loaded under. Internal ids are numbers in the order
-- in which the external ids came first. Every node has a label: those that were given none have `Label.allNodes`.
structure IdMap where
  externals : Numbering
  labels : NameMap Label NodeSet

namespace IdMap

-- An id map that is still being filled.
structure Builder where
  externals : Numbering := ∅
  labels : NameMap Label NodeSet := ∅
  unlabeled : NodeSet := ∅

namespace Builder

def nodeCount (b : Builder) : Nat := b.externals.size

def get? (b : Builder) (external : Nat) : Option Nat := b.externals.number? external

-- Files a node under labels.
def addLabels (b : Builder) (node : Nat) (labels : List Label) : Builder :=
  { b with
    unlabeled := b.unlabeled.erase node
    labels := labels.foldl (fun m l => m.alter l fun s? => (s?.getD ∅).insert node) b.labels }

-- Adds a node and tells its internal id. A known node keeps its id and gets the labels in addition.
def addNode (b : Builder) (external : Nat) (labels : List Label) : Except Fault Nat × Builder :=
  match b.get? external with
  | some node => (.ok node, if labels.isEmpty then b else b.addLabels node labels)
  | none =>
    let node := b.nodeCount
    if Fault.maxNodeCount ≤ node then (.error .tooManyNodes, b)
    else
      let b := { b with externals := (b.externals.add external).2 }
      (.ok node,
        if labels.isEmpty then { b with unlabeled := b.unlabeled.insert node }
        else b.addLabels node labels)

-- Files the nodes without a label under `Label.allNodes`, which a map without labels has in any case.
def build (b : Builder) : IdMap where
  externals := b.externals
  labels :=
    if b.labels.isEmpty then
      b.labels.insert .allNodes (if b.nodeCount = 0 then ∅ else .upTo (b.nodeCount - 1))
    else if b.unlabeled.isEmpty then b.labels
    else b.labels.alter .allNodes fun s? => s?.getD ∅ ∪ b.unlabeled

end Builder

-- The map of the given nodes, added in order.
def ofNodes (nodes : List (Nat × List Label)) : Except Fault IdMap := do
  let b ← nodes.foldlM (fun (b : Builder) (external, labels) => Outcome.after (b.addNode external labels)) {}
  return b.build

def nodeCount (m : IdMap) : Nat := m.externals.size

def toExternal (m : IdMap) (node : Nat) : Except Fault Nat :=
  match m.externals.id? node with
  | some external => .ok external
  | none => .error (.nodeOutsideIdMap node m.nodeCount)

def toInternal? (m : IdMap) (external : Nat) : Option Nat := m.externals.number? external

-- The known labels in name order.
def availableLabels (m : IdMap) : List Label := m.labels.keys

def hasLabel (m : IdMap) (l : Label) : Bool := m.labels.contains l

-- Whether the nodes were given labels at all.
def hasLabelInformation (m : IdMap) : Bool := m.labels.keys ≠ [.allNodes]

def members? (m : IdMap) (l : Label) : Option NodeSet := m.labels.find? l

def members (m : IdMap) (l : Label) : NodeSet := (m.members? l).getD ∅

-- The labels of a node in name order.
def labelsOf (m : IdMap) (node : Nat) : List Label :=
  (m.labels.entries.filter (·.2.contains node)).map (·.1)

def nodeCountOf (m : IdMap) (l : Label) : Nat := (m.members l).size

-- The nodes that have one of the labels, all of which must be known.
def unionOf (m : IdMap) (ls : List Label) : Except Fault NodeSet :=
  ls.foldlM (fun s l =>
    match m.members? l with
    | some members => .ok (s ∪ members)
    | none => .error (.unknownLabels ls m.availableLabels)) ∅

-- Whether every node has one of the labels.
def coversAll (m : IdMap) (ls : List Label) : Except Fault Bool := do
  return (← m.unionOf ls).size = m.nodeCount

end IdMap

end PropertyGraph
