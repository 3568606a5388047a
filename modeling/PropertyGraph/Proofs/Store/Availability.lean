import PropertyGraph.Proofs.Store.Select
import PropertyGraph.Proofs.Store.Uniform

namespace PropertyGraph.Store

-- A store of which views and node values can be had whenever they make sense.
structure Serves (s : Store) : Prop where
  uniform : Uniform s.catalog
  getGraph : ∀ ls ts key concurrency, (∃ view s', s.getGraph ls ts key concurrency = (.ok view, s')) ↔
    (ls ≠ [] ∧ ∀ l ∈ ls, l ∈ s.nodeLabels) ∧ ts ≠ [] ∧ ∀ t ∈ ts, s.Offers key t
  nodeProperty : ∀ key, (∃ values, s.nodeProperty key = .ok values) ↔
    ∃ l p, s.catalog.nodeProperty? l key = some p
  getUnion : (∃ view s', s.getUnion = (.ok view, s')) ↔ ∃ t topology, s.catalog.topologies.find? t = some topology
  union : ∀ view s', s.getUnion = (.ok view, s') → (∀ p ∈ view.parts, p = .whole p.projection) ∧
    s'.metrics = s.metrics.map (·.materialized s.catalog.topologies.size false) ∧
    view.relationshipCount = .ok s.catalog.relationshipCount

variable {s s' : Store} {view : View} {ls : List Label} {ts : List RelType} {key : Option String}
  {concurrency : Nat}

theorem getGraph_succeeds (hs : s.nodes.Sound) (hsize : s.options.filterChunkSize ≤ Word64.greatest)
    (hu : Uniform s.catalog) (ls : List Label) (ts : List RelType) (key : Option String) (concurrency : Nat) :
    (∃ view s', s.getGraph ls ts key concurrency = (.ok view, s')) ↔
      (ls ≠ [] ∧ ∀ l ∈ ls, l ∈ s.nodeLabels) ∧ ts ≠ [] ∧ ∀ t ∈ ts, s.Offers key t := by
  constructor
  case mp =>
    intro ⟨_, _, hg⟩
    have ⟨hm, ho⟩ := getGraph_eq_ok hg
    have ⟨hl, hc, covers, hcovers, _⟩ := store_of_materialize hm
    refine ⟨⟨hl, fun l => IdMap.known_of_coversAll hcovers⟩, fun ht => hc ?_, ho⟩
    rw [ht]
    rfl
  case mpr =>
    intro ⟨⟨hl, hknown⟩, ht, ho⟩
    have ⟨views, hviews⟩ := exists_nodePropertyViews hu ls
    exact exists_getGraph hs hsize hl hknown ht ho hviews concurrency

-- The choices of a view of all types.
def allChoices (s : Store) : List Choice :=
  s.catalog.topologies.keys.map fun t => ⟨t, (s.catalog.propertiesOf t).keys.head?⟩

def wholePart (s : Store) (nodeProperties : NameMap String NodeValues) (e : RelType × Topology) : Part :=
  .whole (s.projectionOf nodeProperties ⟨e.1, (s.catalog.propertiesOf e.1).keys.head?⟩ e.2)

theorem project_allChoices (s : Store) (nodeProperties : NameMap String NodeValues) :
    s.allChoices.mapM (s.project nodeProperties none) =
      .ok (s.catalog.topologies.entries.map (s.wholePart nodeProperties)) := by
  rw [Outcome.mapM_eq_ok, allChoices, NameMap.keys, List.map_map, List.forall₂_map_left_iff,
    List.forall₂_map_right_iff, List.forall₂_same]
  exact fun e he => project_eq_ok.mpr ⟨e.2, NameMap.find?_eq_some.mpr he, rfl⟩

theorem getUnion_parts (hs : s.nodes.Sound) (h : s.getUnion = (.ok view, s')) :
    ∃ nodeProperties, view.parts = s.catalog.topologies.entries.map (s.wholePart nodeProperties) := by
  have ⟨nodeProperties, subset, _, hsubset, hp, _⟩ := materialize_eq_ok h
  have hcovers : s.nodes.coversAll s.nodeLabels = .ok true := hs.coversAll_of_all fun _ => Iff.rfl
  cases subset
  case some sub => cases hcovers.symm.trans hsubset.left
  case none =>
    have hm := Outcome.mapM_eq_ok.mpr hp
    exact ⟨nodeProperties, Except.ok.inj (hm.symm.trans (project_allChoices s nodeProperties))⟩

theorem relationshipCount_of_parts {nodeProperties : NameMap String NodeValues}
    (h : view.parts = s.catalog.topologies.entries.map (s.wholePart nodeProperties)) :
    view.relationshipCount = .ok s.catalog.relationshipCount := by
  have hone : ∀ e ∈ s.catalog.topologies.entries,
      (s.wholePart nodeProperties e).relationshipCount = .ok e.2.relationshipCount := fun _ _ => rfl
  rw [View.relationshipCount, h, List.foldlM_map, Outcome.foldlM_add hone, Nat.zero_add,
    Catalog.relationshipCount_eq_sum, NameMap.values, List.map_map]
  rfl

theorem getUnion_succeeds (hs : s.nodes.Sound) (hu : Uniform s.catalog) :
    (∃ view s', s.getUnion = (.ok view, s')) ↔ ∃ t topology, s.catalog.topologies.find? t = some topology := by
  have hempty : s.allChoices = [] ↔ s.catalog.topologies.isEmpty = true := by
    rw [allChoices, NameMap.keys, List.map_map, List.map_eq_nil_iff, NameMap.isEmpty, List.isEmpty_iff]
  constructor
  case mp =>
    rintro ⟨_, _, h⟩
    obtain ⟨_, hc, _⟩ := store_of_materialize h
    by_contra hnone
    refine hc (hempty.mpr (NameMap.isEmpty_iff.mpr fun t => ?_))
    cases ht : s.catalog.topologies.find? t
    case none => rfl
    case some topology => exact absurd ⟨t, topology, ht⟩ hnone
  case mpr =>
    rintro ⟨t, topology, ht⟩
    have hne : s.allChoices ≠ [] := fun he => by
      rw [NameMap.isEmpty_iff.mp (hempty.mp he)] at ht
      cases ht
    obtain ⟨views, hviews⟩ := exists_nodePropertyViews hu s.nodeLabels
    have hcovers : s.nodes.coversAll s.nodeLabels = .ok (none : Option Subset).isNone :=
      hs.coversAll_of_all fun _ => Iff.rfl
    have hloaded : ∀ c ∈ s.allChoices, ∃ topology, s.catalog.topologies.find? c.type = some topology := by
      intro c hc
      obtain ⟨t, ht, he⟩ := List.mem_map.mp hc
      exact he ▸ NameMap.mem_keys_iff.mp ht
    obtain ⟨parts, view, hp, hv⟩ := exists_parts hloaded hne views none
    obtain ⟨s', h⟩ := materialize_of_parts 0 hs.known hne hcovers hviews (by simp) hp hv
    exact ⟨view, s', h⟩

theorem serves_of_uniform (hs : s.nodes.Sound) (hsize : s.options.filterChunkSize ≤ Word64.greatest)
    (hu : Uniform s.catalog) : s.Serves where
  uniform := hu
  getGraph := getGraph_succeeds hs hsize hu
  nodeProperty := nodeProperty_succeeds hu
  getUnion := getUnion_succeeds hs hu
  union view s' h := by
    have ⟨nodeProperties, hp⟩ := getUnion_parts hs h
    refine ⟨fun p hm => ?whole, ?counted, relationshipCount_of_parts hp⟩
    case whole =>
      have ⟨_, _, he⟩ := List.mem_map.mp (hp ▸ hm)
      exact he ▸ rfl
    case counted =>
      have ⟨_, _, covers, hcovers, he⟩ := store_of_materialize h
      have hall : s.nodes.coversAll s.nodeLabels = .ok true := hs.coversAll_of_all fun _ => Iff.rfl
      cases hcovers.symm.trans hall
      rw [he, List.length_map, NameMap.keys, List.length_map]
      rfl

end PropertyGraph.Store
