import PropertyGraph.Store.Store
import PropertyGraph.Text.Number

namespace PropertyGraph

inductive PropertyValue
  | long (v : Int)
  | double (v : Float)
deriving Inhabited

def PropertyValue.toFloat : PropertyValue → Float
  | long v => widen v
  | double v => v

namespace Loader

-- The whole number that a node without a value has.
def longDefault : Int := -0x8000000000000000

-- The floating-point number that a node or relationship without a value has.
def doubleDefault : Float := Text.notANumber

-- The values of a node property so far.
structure PendingColumn where
  -- Whether one of the values ever given was a floating-point number.
  anyDouble : Bool := false
  values : Std.HashMap Nat PropertyValue := ∅

namespace PendingColumn

def add (c : PendingColumn) (node : Nat) (v : PropertyValue) : PendingColumn where
  anyDouble := c.anyDouble || v matches .double _
  values := c.values.insert node v

-- The nodes that have a value.
def holders (c : PendingColumn) : NodeSet :=
  .ofList c.values.keys

-- A value for each of `nodeCount` nodes, where those without one have the default.
def freeze (c : PendingColumn) (nodeCount : Nat) : Column :=
  if c.anyDouble then
    .double <| (Array.range nodeCount).map fun (v : Nat) =>
      match c.values[v]? with
      | some x => x.toFloat
      | none => doubleDefault
  else
    .long <| (Array.range nodeCount).map fun (v : Nat) =>
      match c.values[v]? with
      | some (.long n) => n
      | _ => longDefault

end PendingColumn

-- A relationship so far: its ends, and values by the number of their key.
structure PendingEdge where
  source : Nat
  target : Nat
  values : List (Nat × Float)

-- Writes the values of an edge into a row that was filled for another one: of each key the last one given, or the
-- default.
def PendingEdge.fill (e : PendingEdge) (row : List Float) : List Float :=
  e.values.foldl (fun row (i, x) => row.set i x) (row.map fun _ => doubleDefault)

-- Adds an edge to a batch, its values by way of a row that all edges share.
def PendingEdge.addTo : List Float × Batch → PendingEdge → Except Fault (List Float × Batch)
  | (row, b), e => do
    let row := e.fill row
    return (row, ← Outcome.after (b.add e.source e.target row))

structure PendingType where
  layout : Layout
  -- The keys in the order in which they came first.
  keys : List String := []
  edges : Array PendingEdge := #[]

namespace PendingType

-- The number of a key, which is the next one if it is new.
def numberOf (t : PendingType) (key : String) : Nat × PendingType :=
  match t.keys.idxOf? key with
  | some i => (i, t)
  | none => (t.keys.length, { t with keys := t.keys ++ [key] })

def numberAll (t : PendingType) : List (String × Float) → List (Nat × Float) × PendingType
  | [] => ([], t)
  | (key, x) :: rest =>
    let (i, t) := t.numberOf key
    let (values, t) := t.numberAll rest
    ((i, x) :: values, t)

def add (t : PendingType) (source target : Nat) (values : List (String × Float)) : PendingType :=
  let (values, t) := t.numberAll values
  { t with edges := t.edges.push ⟨source, target, values⟩ }

-- The edges as relationships between `nodeCount` nodes.
def batch (t : PendingType) (nodeCount : Nat) : Except Fault Batch := do
  let row := List.replicate t.keys.length doubleDefault
  let b := Batch.empty nodeCount t.layout (t.keys.map (·, doubleDefault))
  return (← t.edges.foldlM PendingEdge.addTo (row, b)).2

end PendingType

end Loader

open Loader

-- Nodes and relationships as they are collected. Keys are discovered as values come: a node property is stored under
-- every label of a node that has a value for it, and a relationship property for all relationships of its type.
structure Loader where
  -- Whether the ends of a relationship become nodes if they are none.
  implicitNodes : Bool := false
  options : StoreOptions := {}
  nodes : IdMap.Builder := {}
  columns : NameMap String PendingColumn := ∅
  types : NameMap RelType PendingType := ∅

namespace Loader

-- Declares a type. Declaring it again gives it another layout.
def declare (l : Loader) (t : RelType) (layout : Layout) : Loader :=
  { l with types := l.types.alter t fun
      | some pending => { pending with layout }
      | none => { layout } }

def nodeCount (l : Loader) : Nat := l.nodes.nodeCount

def addValue (node : Nat) (columns : NameMap String PendingColumn) (p : String × PropertyValue) :
    NameMap String PendingColumn :=
  columns.alter p.1 fun c? => (c?.getD {}).add node p.2

-- Adds a node, or labels and values to a known one, and tells its internal id.
def addNode (l : Loader) (external : Nat) (labels : List Label)
    (values : List (String × PropertyValue)) : Except Fault Nat × Loader :=
  match l.nodes.addNode external labels with
  | (.error f, nodes) => (.error f, { l with nodes })
  | (.ok node, nodes) => (.ok node, { l with nodes, columns := values.foldl (addValue node) l.columns })

-- The internal id of an end of a relationship, which becomes a node if that is asked for.
def endpoint (l : Loader) (external : Nat) : Except Fault Nat × Loader :=
  match l.nodes.get? external with
  | some node => (.ok node, l)
  | none =>
    if l.implicitNodes then l.addNode external [] []
    else (.error (.unknownEndpoint external), l)

-- Adds a relationship of a declared type between two external ids. The source is an end of the relationship before the
-- target is looked at, and stays a node if the target is refused.
def addRelationship (l : Loader) (t : RelType) (source target : Nat)
    (values : List (String × Float)) : Except Fault Unit × Loader :=
  if !l.types.contains t then (.error (.undeclaredType t l.types.keys), l)
  else
    match l.endpoint source with
    | (.error f, l) => (.error f, l)
    | (.ok source, l) =>
      match l.endpoint target with
      | (.error f, l) => (.error f, l)
      | (.ok target, l) =>
        (.ok (), { l with types := l.types.alter t fun pending? =>
          (pending?.getD { layout := default }).add source target values })

inductive Call
  | addNode (external : Nat) (labels : List Label) (values : List (String × PropertyValue))
  | addRelationship (t : RelType) (source target : Nat) (values : List (String × Float))
  | declare (t : RelType) (layout : Layout)
  | implicitNodes (enabled : Bool)
  | options (options : StoreOptions)

-- What a call answers, and what it leaves behind. The answer to a node is its internal id.
def perform (l : Loader) : Call → Except Fault (Option Nat) × Loader
  | .addNode external labels values =>
    let (answer, l) := l.addNode external labels values
    (answer.map some, l)
  | .addRelationship t source target values =>
    let (answer, l) := l.addRelationship t source target values
    (answer.map fun () => none, l)
  | .declare t layout => (.ok none, l.declare t layout)
  | .implicitNodes enabled => (.ok none, { l with implicitNodes := enabled })
  | .options options => (.ok none, { l with options })

-- The columns of the node properties, under each label that has a node with a value.
def nodeColumns (l : Loader) (nodes : IdMap) : NameMap Label (NameMap String Column) :=
  l.columns.entries.foldl (fun byLabel (key, pending) =>
    let holders := pending.holders
    let owners := nodes.availableLabels.filter fun l => !(nodes.members l).isDisjoint holders
    let column := pending.freeze nodes.nodeCount
    owners.foldl (fun byLabel l =>
      byLabel.alter l fun columns? => (columns?.getD ∅).insert key column) byLabel) ∅

-- Assembles everything; the relationships are compressed by up to `concurrency` workers.
def build (l : Loader) (concurrency : Nat) (metrics : Metrics) : Except Fault Store := do
  let nodes := l.nodes.build
  let types ← l.types.entries.mapM fun (t, pending) => do
    return (t, ← (← pending.batch nodes.nodeCount).compress concurrency)
  let topologies := types.map fun (t, rs) => (t, rs.topology)
  let columns := (types.filter fun (_, rs) => !rs.properties.isEmpty).map fun (t, rs) => (t, rs.properties)
  Store.of nodes (l.nodeColumns nodes) (.ofList topologies) (.ofList columns) l.options metrics

end Loader

end PropertyGraph
