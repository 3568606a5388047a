import PropertyGraph.Store.Store

namespace PropertyGraph

-- How an edit went that did not fail: what was edited is to be kept, or there was nothing to change.
inductive Change (α : Type)
  | committed (answer : α)
  | unchanged (answer : α)

-- What was dropped with a relationship type.
structure Deletion where
  relationships : Nat
  -- Values dropped, by property key.
  values : NameMap String Nat

namespace Catalog

-- An edit goes through a catalog in place. It answers together with the catalog as far as it came, also when it fails.
abbrev Edit (α : Type) := Catalog → Except Fault (Change α) × Catalog

variable (c : Catalog)

def putNodeProperties (l : Label) (ps : NodeProperties) : Catalog :=
  { c with nodeProperties := c.nodeProperties.insert l ps }

-- Stores a property under one more label, unless the label stores the key, and notes whether anything was stored so
-- far. The label has an entry from then on.
def storeUnder (p : NodeProperty) : Bool × Catalog → Label → Bool × Catalog
  | (added, c), l =>
    let ps := c.nodePropertiesOf l
    let c := c.putNodeProperties l ps
    if ps.contains p.key then (added, c) else (true, c.putNodeProperties l (ps.addIfAbsent p))

-- Stores a property under labels, and tells whether one of them did not store the key.
def addNodeProperty (ls : List Label) (p : NodeProperty) : Bool × Catalog :=
  ls.foldl (storeUnder p) (false, c)

-- Takes a property from a label. A label without properties is not kept.
def removeNodeProperty (l : Label) (key : String) : Catalog :=
  let ps : NodeProperties := (c.nodePropertiesOf l).erase key
  { c with
    nodeProperties :=
      if ps.isEmpty then c.nodeProperties.erase l else c.nodeProperties.insert l ps }

-- Adds a type. A type without properties has no entry among the properties.
def addType (t : RelType) (topology : Topology) (ps : NameMap String RelationshipProperty) :
    Catalog :=
  { c with
    topologies := c.topologies.insert t topology
    relationshipProperties :=
      if ps.isEmpty then c.relationshipProperties else c.relationshipProperties.insert t ps }

def deleteType (t : RelType) : Catalog :=
  { c with
    topologies := c.topologies.erase t
    relationshipProperties := c.relationshipProperties.erase t }

namespace Edit

def addNodeProperty (ls : List Label) (key : String) (values : NodeValues) : Edit Unit := fun c =>
  match (c.nodePropertyType? key).filter (· ≠ values.type) with
  | some stored => (.error (.addOfWrongType ls key stored values.type), c)
  | none =>
    let (added, c) := c.addNodeProperty ls ⟨key, .transient, values⟩
    (.ok (if added then .committed () else .unchanged ()), c)

def removeNodeProperty (l : Label) (key : String) : Edit Bool := fun c =>
  match c.nodeProperties.find? l with
  | none => (.ok (.unchanged false), c)
  | some ps =>
    if ps.contains key then (.ok (.committed true), c.removeNodeProperty l key)
    else (.ok (.unchanged false), c)

def addType (t : RelType) (topology : Topology) (ps : NameMap String RelationshipProperty) : Edit Bool := fun c =>
  if c.topologies.contains t then (.ok (.unchanged false), c)
  else (.ok (.committed true), c.addType t topology ps)

def deleteType (t : RelType) : Edit Deletion := fun c =>
  match c.topology t with
  | .error f => (.error f, c)
  | .ok topology =>
    let deletion : Deletion := {
      relationships := topology.relationshipCount
      values := (c.propertiesOf t).mapValues (·.values.elementCount) }
    (.ok (.committed deletion), c.deleteType t)

end Edit

end Catalog

namespace Store

variable (s : Store)

-- Makes `c` the catalog of the next generation.
def commit (kind : MutationKind) (c : Catalog) : Store :=
  { s with
    catalog := c
    generation := s.generation + 1
    metrics := s.metrics.map (·.mutated kind) }

-- Edits a copy of the catalog. The store gets the copy if the edit asks for it. Otherwise the copy is dropped, whatever
-- was edited in it by then.
def update {α : Type} (kind : MutationKind) (edit : Catalog.Edit α) : Except Fault α × Store :=
  match edit s.catalog with
  | (.error f, _) => (.error f, s)
  | (.ok (.unchanged answer), _) => (.ok answer, s)
  | (.ok (.committed answer), c) => (.ok answer, s.commit kind c)

-- Adds values under a key to labels; a label that stores the key keeps what it has.
def addNodeProperty (ls : List Label) (key : String) (values : NodeValues) : Except Fault Unit × Store :=
  match ls.find? (!s.nodes.hasLabel ·) with
  | some l => (.error (.addToUnknownLabel ls key l s.nodeLabels), s)
  | none =>
    if values.nodeCount ≠ s.nodeCount then (.error (.addOfWrongSize ls key values.nodeCount s.nodeCount), s)
    else s.update .addNodeProperty (.addNodeProperty ls key values)

-- Takes a key from a label, and tells whether the label stored it.
def removeNodeProperty (l : Label) (key : String) : Except Fault Bool × Store :=
  if !s.nodes.hasLabel l then (.error (.removeFromUnknownLabel l key s.nodeLabels), s)
  else s.update .removeNodeProperty (.removeNodeProperty l key)

-- Adds a relationship type, and tells whether it was not there yet.
def addRelationshipType (t : RelType) (rs : Relationships) : Except Fault Bool × Store :=
  if rs.topology.nodeCount ≠ s.nodeCount then
    (.error (.addedTopologySize t rs.topology.nodeCount s.nodeCount), s)
  else
    match Catalog.fitColumns t rs.topology rs.properties .transient with
    | .error f => (.error f, s)
    | .ok ps => s.update .addRelationshipType (.addType t rs.topology ps)

-- Drops a relationship type with its properties.
def deleteRelationships (t : RelType) : Except Fault Deletion × Store :=
  s.update .deleteRelationships (.deleteType t)

-- Allows or forbids to release the store.
def canRelease (allowed : Bool) : Store :=
  { s with isReleasable := allowed }

-- Drops everything but the nodes, if that is allowed, and tells whether it was.
def release : Bool × Store :=
  if s.isReleasable then
    (true, { s with
      catalog := {}
      generation := s.generation + 1
      metrics := s.metrics.map (·.released) })
  else (false, s)

end Store

end PropertyGraph
