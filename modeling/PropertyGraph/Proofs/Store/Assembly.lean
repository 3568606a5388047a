import PropertyGraph.Proofs.Store.Catalog
import PropertyGraph.Store.Store

namespace PropertyGraph.Store

variable {nodes : IdMap} {nodeColumns : NameMap Label (NameMap String Column)}
  {topologies : NameMap RelType Topology} {columns : NameMap RelType (NameMap String ValueRuns)}
  {options : StoreOptions} {metrics : Metrics} {s : Store}

-- What a store has of the columns of a type.
def fitType (topologies : NameMap RelType Topology) (e : RelType × NameMap String ValueRuns) :
    Except Fault (NameMap String RelationshipProperty) :=
  match topologies.find? e.1 with
  | none => .error (.propertiesOfUnknownType e.1 topologies.keys)
  | some topology => Catalog.fitColumns e.1 topology e.2 .persistent

theorem step_fitType (byType : NameMap RelType (NameMap String RelationshipProperty))
    (e : RelType × NameMap String ValueRuns) :
    (match topologies.find? e.1 with
      | none => throw (.propertiesOfUnknownType e.1 topologies.keys)
      | some topology => do
        return byType.insert e.1 (← Catalog.fitColumns e.1 topology e.2 .persistent)) =
      (fitType topologies e).map (byType.insert e.1 ·) := by
  rw [fitType]
  cases topologies.find? e.1
  case none => rfl
  case some topology => cases Catalog.fitColumns e.1 topology e.2 .persistent <;> rfl

theorem fitType_eq_ok {e : RelType × NameMap String ValueRuns} {ps : NameMap String RelationshipProperty} :
    fitType topologies e = .ok ps ↔ ∃ topology, topologies.find? e.1 = some topology ∧
      Catalog.fitColumns e.1 topology e.2 .persistent = .ok ps := by
  rw [fitType]
  cases topologies.find? e.1 <;> simp

-- A store that was assembled from these.
structure Assembled (nodes : IdMap) (nodeColumns : NameMap Label (NameMap String Column))
    (topologies : NameMap RelType Topology) (columns : NameMap RelType (NameMap String ValueRuns))
    (options : StoreOptions) (s : Store) : Prop where
  nodes_eq : s.nodes = nodes
  options_eq : s.options = options
  nodeProperties : fitNodeColumns nodes nodeColumns = .ok s.catalog.nodeProperties
  topologies_eq : s.catalog.topologies = topologies
  sizes : ∀ t topology, topologies.find? t = some topology → topology.nodeCount = nodes.nodeCount
  properties : ∀ t ps, s.catalog.relationshipProperties.find? t = some ps ↔
    ∃ cs topology, columns.find? t = some cs ∧ topologies.find? t = some topology ∧
      Catalog.fitColumns t topology cs .persistent = .ok ps

theorem of_eq_ok (h : of nodes nodeColumns topologies columns options metrics = .ok s) :
    s.Assembled nodes nodeColumns topologies columns options := by
  have ⟨nodeProperties, hn, h⟩ := Outcome.bind_eq_ok.mp h
  have ⟨_, hs, h⟩ := Outcome.bind_eq_ok.mp h
  have ⟨properties, hp, h⟩ := Outcome.bind_eq_ok.mp h
  have h := Except.ok.inj h
  subst h
  refine ⟨rfl, rfl, hn, rfl, fun t topology ht => ?sizes, fun t ps => ?properties⟩
  case sizes =>
    have hsizes := (Outcome.forIn_eq_ok fun _ => ite_not ..).mp hs
    exact hsizes (t, topology) (NameMap.find?_eq_some.mp ht)
  case properties =>
    rw [NameMap.find?_foldlM_insert step_fitType columns.distinct_entries hp]
    simp [fitType_eq_ok, NameMap.find?_eq_some]

theorem Assembled.closed (h : s.Assembled nodes nodeColumns topologies columns options) : s.catalog.Closed := by
  intro t hnone
  cases hp : s.catalog.relationshipProperties.find? t
  case none => rfl
  case some ps =>
    obtain ⟨_, topology, _, hf, _⟩ := (h.properties t ps).mp hp
    rw [h.topologies_eq, hf] at hnone
    cases hnone

-- What is stored under a key of a type is the column that was given for it.
theorem Assembled.given (h : s.Assembled nodes nodeColumns topologies columns options) {t : RelType} {key : String}
    {p : RelationshipProperty} (hk : s.catalog.relationshipProperty? t key = some p) :
    ∃ cs topology values, columns.find? t = some cs ∧ topologies.find? t = some topology ∧
      cs.find? key = some values ∧ Catalog.Fits topology values ∧ p = ⟨key, .persistent, values⟩ := by
  rw [Catalog.relationshipProperty?, Catalog.propertiesOf] at hk
  cases hp : s.catalog.relationshipProperties.find? t
  case none => simp [hp] at hk
  case some ps =>
    have hk : ps.find? key = some p := by simpa [hp] using hk
    obtain ⟨cs, topology, hc, ht, hfit⟩ := (h.properties t ps).mp hp
    obtain ⟨values, hv, hfits, he⟩ := (Catalog.find?_fitColumns hfit).mp hk
    exact ⟨cs, topology, values, hc, ht, hv, hfits, he⟩

theorem exists_of {nodeProperties : NameMap Label NodeProperties}
    (hn : fitNodeColumns nodes nodeColumns = .ok nodeProperties)
    (hs : ∀ t topology, topologies.find? t = some topology → topology.nodeCount = nodes.nodeCount)
    (hc : ∀ t cs, columns.find? t = some cs → ∃ topology, topologies.find? t = some topology ∧
      ∀ key values, cs.find? key = some values → Catalog.Fits topology values)
    (options : StoreOptions) (metrics : Metrics) :
    ∃ s, of nodes nodeColumns topologies columns options metrics = .ok s := by
  have hsizes : ∀ e ∈ topologies.entries, e.2.nodeCount = nodes.nodeCount := fun e he =>
    hs e.1 e.2 (NameMap.find?_eq_some.mpr he)
  have hfit : ∀ e ∈ columns.entries, ∃ ps, fitType topologies e = .ok ps := by
    intro e he
    have ⟨topology, ht, hf⟩ := hc e.1 e.2 (NameMap.find?_eq_some.mpr he)
    have ⟨ps, hps⟩ := Catalog.exists_fitColumns hf e.1 .persistent
    exact ⟨ps, fitType_eq_ok.mpr ⟨topology, ht, hps⟩⟩
  have ⟨properties, hp⟩ := NameMap.exists_foldlM_insert step_fitType hfit ∅
  refine ⟨_, Outcome.bind_eq_ok.mpr ⟨nodeProperties, hn, Outcome.bind_eq_ok.mpr ⟨⟨⟩, ?_,
    Outcome.bind_eq_ok.mpr ⟨properties, hp, rfl⟩⟩⟩⟩
  exact (Outcome.forIn_eq_ok fun _ => ite_not ..).mpr hsizes

end PropertyGraph.Store
