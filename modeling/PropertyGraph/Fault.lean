import PropertyGraph.Name
import PropertyGraph.Value

namespace PropertyGraph

-- Why an operation did not answer.
inductive Fault
  -- Relationships and their values.
  | endpointOutside (endpoint nodes : Nat)
  | valueCount (expected given : Nat)
  | valueLayout (starts values : Nat)
  -- Labels and node properties.
  | unknownLabels (asked known : List Label)
  | noPropertyParts
  | mixedProperty (label : Label) (given others : ValueType)
  -- Assembling a store.
  | propertiesOfUnknownLabel (label : Label) (known : List Label)
  | nodeColumnSize (label : Label) (key : String) (values nodes : Nat)
  | topologySize (type : RelType) (covered nodes : Nat)
  | propertiesOfUnknownType (type : RelType) (known : List RelType)
  | relationshipColumnSize (key : String) (type : RelType) (values relationships : Nat)
  -- Questions to a store, and changes of it.
  | typeNotLoaded (type : RelType) (known : List RelType)
  | noRelationshipProperty (key : String) (type : RelType)
  | noNodeProperty (key : String)
  | noLabelsGiven (known : List Label)
  | noTypesGiven (known : List RelType)
  | addToUnknownLabel (labels : List Label) (key : String) (label : Label) (known : List Label)
  | addOfWrongSize (labels : List Label) (key : String) (values nodes : Nat)
  | addOfWrongType (labels : List Label) (key : String) (stored given : ValueType)
  | addedTopologySize (type : RelType) (covered nodes : Nat)
  | removeFromUnknownLabel (label : Label) (key : String) (known : List Label)
  -- Views.
  | emptyUnion
  | unionNodeCounts (first other : Nat)
  | intersectionOfUnion (types : List RelType)
  | notUndirected
  -- Coloring.
  | undeclaredColor (node color : Nat)
  -- Loading.
  | undeclaredType (type : RelType) (known : List RelType)
  | unknownEndpoint (external : Nat)
  | columnNotFound (column : String)
  | noTypeSource
  | missingCell (column : String)
  | notNodeId (row : Nat) (cell : String)
  | notNumeric (row : Nat) (cell column : String)
  | missingType (row : Nat)
  | unreadableTable (reason : String)
  | tableNotUtf8 (record line field byte valid : Nat)
  -- Limits.
  | runTooLong (length : Nat)
  | tooManyNodes
  -- Passes cut short.
  | terminated
  | consumerGone
  -- Calls outside what an operation is defined on.
  | varintTruncated (byte : Nat)
  | varintOverflow
  | varintTooLong
  | wordOverrun (offset length : Nat)
  | cursorExhausted
  | idOverflow
  | endlessWalk
  | vectorTooLong
  | nodeOutsideTopology (node nodes : Nat)
  | nodeOutsideIdMap (node nodes : Nat)
  | nodeOutsideSubset (node nodes : Nat)
  | indexOutOfBounds
  | negativeCount
deriving Repr, DecidableEq

namespace Fault

inductive Kind
  | invalidArgument
  | capacity
  | interrupted
  | parse
  | csv
  -- The call was outside what the operation is defined on; it takes the worker down that made it.
  | violation
deriving DecidableEq, Repr

def kind : Fault → Kind
  | missingCell .. | notNodeId .. | notNumeric .. | missingType .. => .parse
  | unreadableTable .. | tableNotUtf8 .. => .csv
  | runTooLong .. | tooManyNodes => .capacity
  | terminated | consumerGone => .interrupted
  | varintTruncated .. | varintOverflow | varintTooLong | wordOverrun .. | cursorExhausted
  | idOverflow | endlessWalk | vectorTooLong | nodeOutsideTopology .. | nodeOutsideIdMap ..
  | nodeOutsideSubset .. | indexOutOfBounds | negativeCount => .violation
  | _ => .invalidArgument

def isViolation (f : Fault) : Bool :=
  f.kind = .violation

open Named (quote quoteAll)

-- Most relationships of one node, the largest number of 32 bits.
def maxRunLength : Nat := 0xffffffff

-- Most nodes of a graph.
def maxNodeCount : Nat := 0x100000000

private def failedToAdd (labels : List Label) (key : String) : String :=
  let listed := ", ".intercalate (labels.map (·.name))
  s!"Adding '{listed}.{key}' to the graph store failed. "

-- The wording of a cause, without the lead-in of its kind.
def text : Fault → String
  | endpointOutside e n => s!"relationship endpoint {e} outside node id space of {n} nodes"
  | valueCount e g => s!"expected {e} property values, got {g}"
  | valueLayout s v => s!"property layout with {s} starts does not index {v} values"
  | unknownLabels asked known =>
    s!"Specified labels [{quoteAll asked}] do not correspond to any of the node projections [{quoteAll known}]."
  | noPropertyParts => "a union property needs at least one label"
  | mixedProperty l g o =>
    s!"label {quote l} stores the property as {g.text} but other labels store {o.text}"
  | propertiesOfUnknownLabel l known =>
    s!"Node label {quote l} of the loaded properties does not exist in the id map. " ++
      s!"Available node labels: [{quoteAll known}]"
  | nodeColumnSize l k v n => s!"Node property '{l.name}.{k}' has {v} values for {n} nodes."
  | topologySize t c n =>
    s!"Topology of relationship type {quote t} covers {c} nodes, the id map has {n}."
  | propertiesOfUnknownType t known =>
    s!"Relationship properties were loaded for type {quote t} which has no topology. " ++
      s!"Available relationship types: [{quoteAll known}]"
  | relationshipColumnSize k t v r =>
    s!"Relationship property {quote k} of type {quote t} holds {v} values for {r} relationships."
  | typeNotLoaded t known =>
    s!"No relationships have been loaded for relationship type {quote t}. " ++
      s!"Available relationship types: [{quoteAll known}]"
  | noRelationshipProperty k t =>
    s!"Property {quote k} does not exist for relationships with type {quote t}."
  | noNodeProperty k => s!"Node property {quote k} does not exist in the graph store."
  | noLabelsGiven known =>
    s!"The set of node labels must not be empty. Available node labels: [{quoteAll known}]"
  | noTypesGiven known =>
    s!"The set of relationship types must not be empty. Available relationship types: [{quoteAll known}]"
  | addToUnknownLabel ls k l known =>
    failedToAdd ls k ++ s!"Node label {quote l} does not exist in the store. " ++
      s!"Available node labels: [{quoteAll known}]"
  | addOfWrongSize ls k v n =>
    failedToAdd ls k ++ s!"The values cover {v} nodes, the store has {n}."
  | addOfWrongType ls k s g =>
    failedToAdd ls k ++ s!"The property is stored as {s.text} but the new values are {g.text}."
  | addedTopologySize t c n =>
    s!"Topology of relationship type {quote t} covers {c} nodes, the store has {n}."
  | removeFromUnknownLabel l k known =>
    s!"Removing '{l.name}.{k}' from the graph store failed. " ++
      s!"Node label {quote l} does not exist in the store. Available node labels: [{quoteAll known}]"
  | emptyUnion => "a union graph needs at least one part"
  | unionNodeCounts a b => s!"union parts disagree on node count: {a} vs {b}"
  | intersectionOfUnion ts =>
    "relationship intersection needs a single relationship type, the graph unions " ++ quoteAll ts
  | notUndirected => "triangle counting requires an undirected graph"
  | undeclaredColor n c => s!"node {n} has color {c} which is not among the used colors"
  | undeclaredType t known =>
    s!"Relationship type {quote t} was not declared. Declared relationship types: [{quoteAll known}]"
  | unknownEndpoint o => s!"relationship endpoint {o} was never added as a node"
  | columnNotFound c => s!"column {quote c} not found"
  | noTypeSource => "relationship import needs a type column or a static type"
  | missingCell c => s!"missing value for column {quote c}"
  | notNodeId r c => s!"row {r}: {quote c} is not a node id"
  | notNumeric r c k => s!"row {r}: value {quote c} of column {quote k} is not numeric"
  | missingType r => s!"row {r}: missing relationship type"
  | unreadableTable r => r
  | tableNotUtf8 r l f b v =>
    s!"CSV parse error: record {r} (line {l}, field: {f}, byte: {b}): " ++
      s!"invalid utf-8: invalid UTF-8 in field {f} near byte index {v}"
  | runTooLong n => s!"adjacency run of {n} targets exceeds {maxRunLength}"
  | tooManyNodes => s!"cannot load more than {maxNodeCount} nodes"
  | terminated => "pass was terminated"
  | consumerGone => "triangle consumer disconnected"
  | varintTruncated b => s!"varint decode truncated at byte {b}"
  | varintOverflow => "varint overflow (more than 64 bits)"
  | varintTooLong => "varint too long (exceeded 10 bytes)"
  | wordOverrun o n => s!"u32 field at {o} overruns buffer of {n} bytes"
  | cursorExhausted => "cursor advanced past the end of its adjacency run"
  | idOverflow => "attempt to add with overflow"
  | endlessWalk => "a walk over adjacency runs does not end"
  | vectorTooLong => "capacity overflow"
  | nodeOutsideTopology v n => s!"node id {v} out of range for topology of {n} nodes"
  | nodeOutsideIdMap v n => s!"node id {v} out of range for id map of {n} nodes"
  | nodeOutsideSubset v n => s!"node id {v} out of range for filtered id map of {n} nodes"
  | indexOutOfBounds => "index out of bounds"
  | negativeCount => "attempt to subtract with overflow"

-- The whole message: what kind of failure it is, then its wording.
def message (f : Fault) : String :=
  let lead := match f.kind with
    | .invalidArgument => "invalid argument: "
    | .capacity => "capacity exceeded: "
    | .interrupted => "interrupted: "
    | .parse => "parse error: "
    | .csv => "CSV error: "
    | .violation => ""
  lead ++ f.text

end Fault

-- The state that is left behind by an operation, which keeps it unless it failed.
def Outcome.after {α σ : Type} : Except Fault α × σ → Except Fault σ
  | (.ok _, s) => .ok s
  | (.error f, _) => .error f

end PropertyGraph
