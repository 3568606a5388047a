import PropertyGraph.Loader.Import
import PropertyGraph.Store.Mutate
import PropertyGraph.Store.Select

namespace PropertyGraph

structure HeldView where
  view : View
  -- The numbers of the views given out by a store that this view is or is made of.
  issued : List Nat := []
  -- The numbers of the topologies that belong to this view or to one that it is made of.
  topologies : List Nat := []

-- A loader, the store that was built last, and views and id maps under names. Views may share what they show, so the
-- workspace knows for each view what it keeps in use: a store can tell how many of the views that it gave out are still
-- in use, and a view can give away its topology unless someone else uses it.
structure Workspace where
  loader : Loader := {}
  store : Option Store := none
  -- The counters, which all stores that count share.
  metrics : Metrics := {}
  views : NameMap String HeldView := ∅
  idMaps : NameMap String IdMap := ∅
  -- The numbers of the topologies in use besides those of the views.
  heldTopologies : List Nat := []
  -- The number that is given out next.
  nextNumber : Nat := 0
  -- The number that was next when the store was put in place.
  storeNumber : Nat := 0

namespace Workspace

variable (w : Workspace)

-- Notes what a store became.
def updateStore (s : Store) : Workspace :=
  { w with store := some s, metrics := s.metrics.getD w.metrics }

-- Puts a new store in the place of the one before.
def putStore (s : Store) : Workspace :=
  { w.updateStore s with storeNumber := w.nextNumber }

-- Builds what was loaded, after which the loader is empty.
def build (concurrency : Nat) : Except Fault Workspace := do
  return { w.putStore (← w.loader.build concurrency w.metrics) with loader := {} }

-- How many of the views that the store gave out are in use.
def liveViews : Nat :=
  ((w.views.values.flatMap (·.issued)).filter (w.storeNumber ≤ ·)).eraseDups.length

def dropView (name : String) : Workspace :=
  { w with views := w.views.erase name }

def hold (name : String) (h : HeldView) : Workspace :=
  { w with views := w.views.insert name h }

-- Holds a view that the store gave out, and the store that it left behind.
def holdIssued (name : String) (issued : View × Store) : Workspace :=
  let w := (w.updateStore issued.2).hold name { view := issued.1, issued := [w.nextNumber] }
  { w with nextNumber := w.nextNumber + 1 }

-- Holds a view of freshly built relationships.
def holdOwned (name : String) (p : Projection) : Workspace :=
  let w := w.hold name { view := .single (.whole p), topologies := [w.nextNumber] }
  { w with nextNumber := w.nextNumber + 1 }

-- Several views as one, which keeps in use what each of them does.
def unionOf (hs : List HeldView) : Except Fault HeldView := do
  return {
    view := ← View.unionOf (hs.map (·.view))
    issued := hs.flatMap (·.issued)
    topologies := hs.flatMap (·.topologies) }

-- Restricts a view of one type to the nodes of a subset.
def restrict (h : HeldView) (s : Subset) : Option HeldView :=
  match h.view with
  | .single (.whole p) => some { h with view := .single (.restricted p s) }
  | _ => none

-- Keeps the topologies of a view in use.
def holdTopologies (h : HeldView) : Workspace :=
  { w with heldTopologies := w.heldTopologies ++ h.topologies }

def dropTopologies : Workspace :=
  { w with heldTopologies := [] }

def isInUse (topology : Nat) : Bool :=
  w.heldTopologies.contains topology || w.views.values.any (·.topologies.contains topology)

-- Drops a view and gives away its topology, unless that is in use elsewhere.
def release (name : String) : Option Topology × Workspace :=
  let rest := w.dropView name
  match w.views.find? name with
  | some { view := .single (.whole p), topologies := [number], .. } =>
    (if rest.isInUse number then none else some p.topology, rest)
  | _ => (none, rest)

end Workspace

end PropertyGraph
