import PropertyGraph.Proofs.Loader.Loading
import PropertyGraph.Proofs.Loader.Rows
import PropertyGraph.Proofs.Store.Coherent
import PropertyGraph.Proofs.Store.NodeProperties
import PropertyGraph.Proofs.Store.Properties
import PropertyGraph.Proofs.Store.Reachable

namespace PropertyGraph.Loader

section NodeColumns

theorem size_freeze (c : PendingColumn) (nodeCount : Nat) : (c.freeze nodeCount).size = nodeCount := by
  rw [PendingColumn.freeze]
  split <;> simp [Column.size]

-- Columns by label that were made of pending ones.
def Frozen (l : Loader) (nodes : IdMap) (byLabel : NameMap Label (NameMap String Column)) : Prop :=
  ∀ label cs, byLabel.find? label = some cs → nodes.hasLabel label = true ∧
    ∀ key column, cs.find? key = some column →
      ∃ pending, l.columns.find? key = some pending ∧ column = pending.freeze nodes.nodeCount

theorem nodeColumns_frozen (l : Loader) (nodes : IdMap) : Frozen l nodes (l.nodeColumns nodes) := by
  refine List.foldlRecOn l.columns.entries _ (fun _ _ h => nomatch h) fun byLabel hb e he => ?_
  refine List.foldlRecOn _ _ hb fun byLabel hb label hl => ?_
  have hlabel : nodes.hasLabel label = true := by
    have ⟨cs, hcs⟩ := NameMap.mem_keys_iff.mp (List.mem_of_mem_filter hl)
    exact NameMap.contains_iff.mpr ⟨cs, hcs⟩
  intro label' cs hf
  rw [NameMap.alter_eq] at hf
  by_cases hne : label' = label
  case neg => exact hb label' cs (NameMap.find?_insert_of_ne _ _ hne ▸ hf)
  case pos =>
    rw [hne, NameMap.find?_insert_self] at hf
    have hf := Option.some.inj hf
    refine ⟨hne ▸ hlabel, fun key column hc => ?_⟩
    rw [← hf] at hc
    by_cases hk : key = e.1
    case pos =>
      rw [hk, NameMap.find?_insert_self] at hc
      exact ⟨e.2, hk ▸ NameMap.find?_eq_some.mpr he, (Option.some.inj hc).symm⟩
    case neg =>
      rw [NameMap.find?_insert_of_ne _ _ hk] at hc
      cases hg : byLabel.find? label
      case none => simp [hg] at hc
      case some cs' => exact (hb label cs' hg).right key column (by simpa [hg] using hc)

theorem exists_nodeProperties (l : Loader) (nodes : IdMap) :
    ∃ byLabel, Store.fitNodeColumns nodes (l.nodeColumns nodes) = .ok byLabel ∧
      ∀ label ps, byLabel.find? label = some ps →
        ∃ cs, (l.nodeColumns nodes).find? label = some cs ∧ Store.Holds cs ps := by
  refine Store.exists_fitNodeColumns fun label cs hcs => ?_
  have ⟨hl, hc⟩ := nodeColumns_frozen l nodes label cs hcs
  refine ⟨hl, fun key column hk => ?_⟩
  have ⟨pending, _, he⟩ := hc key column hk
  exact he ▸ size_freeze pending _

-- A key is frozen once, whatever labels store it.
theorem uniform_of_fitNodeColumns {l : Loader} {nodes : IdMap} {c : Catalog}
    (h : Store.fitNodeColumns nodes (l.nodeColumns nodes) = .ok c.nodeProperties) : Store.Uniform c := by
  have ⟨byLabel, hb, hh⟩ := exists_nodeProperties l nodes
  have he : byLabel = c.nodeProperties := Except.ok.inj (hb.symm.trans h)
  have hcolumn : ∀ label key p, c.nodeProperty? label key = some p →
      ∃ pending, l.columns.find? key = some pending ∧
        p.values = .ofColumn (pending.freeze nodes.nodeCount) := by
    intro label key p hp
    have ⟨ps, hf, hk⟩ := Catalog.find?_of_nodeProperty? hp
    have ⟨cs, hcs, hps⟩ := hh label ps (he ▸ hf)
    have ⟨column, hc, hv⟩ := hps key p hk
    have ⟨pending, hpe, hcol⟩ := (nodeColumns_frozen l nodes label cs hcs).right key column hc
    exact ⟨pending, hpe, hcol ▸ hv⟩
  intro key label label' p p' hp hp'
  have ⟨pending, hk, hv⟩ := hcolumn label key p hp
  have ⟨pending', hk', hv'⟩ := hcolumn label' key p' hp'
  have hpe : pending = pending' := Option.some.inj (hk.symm.trans hk')
  rw [hv, hv', hpe]

end NodeColumns

-- The relationships that the pending types of a loader are compressed to.
def Compresses (l : Loader) (concurrency : Nat) (types : List (RelType × Relationships)) : Prop :=
  List.Forall₂ (fun e x => x.1 = e.1 ∧ ∃ batch, e.2.batch l.nodes.nodeCount = .ok batch ∧
    batch.compress concurrency = .ok x.2) l.types.entries types

-- A loader is assembled to a store of its nodes and of these relationships.
def Stores (l : Loader) (types : List (RelType × Relationships)) (s : Store) : Prop :=
  s.Assembled l.nodes.build (l.nodeColumns l.nodes.build)
    (.ofList (types.map fun x => (x.1, x.2.topology)))
    (.ofList ((types.filter fun x => !x.2.properties.isEmpty).map fun x => (x.1, x.2.properties)))
    l.options

variable {l : Loader} {calls : List Call} {concurrency : Nat} {metrics : Metrics} {s : Store}
  {types : List (RelType × Relationships)} {t : RelType} {rs : Relationships}

def compressType (l : Loader) (concurrency : Nat) (e : RelType × PendingType) :
    Except Fault (RelType × Relationships) := do
  return (e.1, ← (← e.2.batch l.nodes.build.nodeCount).compress concurrency)

theorem compressType_eq_ok {e : RelType × PendingType} {x : RelType × Relationships} :
    l.compressType concurrency e = .ok x ↔ x.1 = e.1 ∧ ∃ batch,
      e.2.batch l.nodes.nodeCount = .ok batch ∧ batch.compress concurrency = .ok x.2 := by
  rw [compressType, Outcome.bind_eq_ok]
  constructor
  case mp =>
    intro ⟨batch, hb, h⟩
    have ⟨rs, hr, h⟩ := Outcome.bind_eq_ok.mp h
    have h : (e.1, rs) = x := Except.ok.inj h
    exact h ▸ ⟨rfl, batch, hb, hr⟩
  case mpr =>
    intro ⟨he, batch, hb, hr⟩
    exact ⟨batch, hb, Outcome.bind_eq_ok.mpr ⟨x.2, hr, congrArg Except.ok (Prod.ext he.symm rfl)⟩⟩

theorem exists_of_build (h : l.build concurrency metrics = .ok s) :
    ∃ types, l.Compresses concurrency types ∧
      Store.of l.nodes.build (l.nodeColumns l.nodes.build) (.ofList (types.map fun x => (x.1, x.2.topology)))
        (.ofList ((types.filter fun x => !x.2.properties.isEmpty).map fun x => (x.1, x.2.properties)))
        l.options metrics = .ok s := by
  have ⟨types, ht, h⟩ : ∃ types, l.types.entries.mapM (l.compressType concurrency) = .ok types ∧ _ :=
    Outcome.bind_eq_ok.mp h
  have hf := Outcome.mapM_eq_ok.mp ht
  simp only [compressType_eq_ok] at hf
  exact ⟨types, hf, h⟩

theorem build_eq_ok (h : l.build concurrency metrics = .ok s) :
    ∃ types, l.Compresses concurrency types ∧ l.Stores types s :=
  (exists_of_build h).imp fun _ => And.imp_right Store.of_eq_ok

namespace Compresses

theorem distinct (h : l.Compresses concurrency types) : NameMap.Distinct types := by
  have he : l.types.entries.map (·.1) = types.map (·.1) := by
    rw [← List.forall₂_eq_eq_eq, List.forall₂_map_left_iff, List.forall₂_map_right_iff]
    exact h.imp fun _ _ hx => hx.left.symm
  have hd : (l.types.entries.map (·.1)).Pairwise fun t t' => Named.name t ≠ Named.name t' :=
    List.pairwise_map.mpr l.types.distinct_entries
  rwa [he, List.pairwise_map] at hd

theorem exists_pending (h : l.Compresses concurrency types) (hx : (t, rs) ∈ types) :
    ∃ pending batch, l.types.find? t = some pending ∧ pending.batch l.nodes.nodeCount = .ok batch ∧
      batch.compress concurrency = .ok rs := by
  have ⟨e, he, ht, batch, hb, hc⟩ := Outcome.exists_of_forall₂_right h hx
  have ht : t = e.1 := ht
  exact ⟨e.2, batch, NameMap.find?_eq_some.mpr (ht ▸ he), hb, hc⟩

theorem exists_relationships (h : l.Compresses concurrency types) {pending : PendingType}
    (hp : l.types.find? t = some pending) :
    ∃ rs batch, (t, rs) ∈ types ∧ pending.batch l.nodes.nodeCount = .ok batch ∧
      batch.compress concurrency = .ok rs := by
  have ⟨x, hx, ht, batch, hb, hc⟩ := Outcome.exists_of_forall₂_left h (NameMap.find?_eq_some.mp hp)
  have ht : x.1 = t := ht
  exact ⟨x.2, batch, ht ▸ hx, hb, hc⟩

theorem built (h : l.Compresses concurrency types) (hf : l.Follows calls) (hx : (t, rs) ∈ types) :
    rs.Built := by
  have ⟨pending, batch, hp, hb, hc⟩ := h.exists_pending hx
  have ⟨calls', hb', _⟩ := PendingType.batch_of_records (hf.records t pending hp)
  have he := Except.ok.inj (hb'.symm.trans hb)
  exact ⟨_, _, _, calls', concurrency, he ▸ hc⟩

theorem nodeCount (h : l.Compresses concurrency types) (hf : l.Follows calls) (hx : (t, rs) ∈ types) :
    rs.topology.nodeCount = l.nodes.nodeCount := by
  have ⟨pending, batch, hp, hb, hc⟩ := h.exists_pending hx
  have ⟨hn, _, _, hl⟩ := PendingType.lists_of_records (hf.records t pending hp) hb
  have ht := (Batch.tells_of_compress hl hc).nodeCount
  rw [List.length_map, List.length_range] at ht
  exact ht.trans hn

end Compresses

theorem find?_topologies (h : NameMap.Distinct types) {topology : Topology} :
    (NameMap.ofList (types.map fun x => (x.1, x.2.topology))).find? t = some topology ↔
      ∃ rs, (t, rs) ∈ types ∧ rs.topology = topology :=
  NameMap.find?_ofList_map h Relationships.topology

theorem find?_columns (h : NameMap.Distinct types) {cs : NameMap String ValueRuns} :
    (NameMap.ofList ((types.filter fun x => !x.2.properties.isEmpty).map
      fun x => (x.1, x.2.properties))).find? t = some cs ↔
      ∃ rs, (t, rs) ∈ types ∧ rs.properties.isEmpty = false ∧ rs.properties = cs := by
  rw [NameMap.find?_ofList_map (List.Pairwise.filter _ h) Relationships.properties]
  simp [List.mem_filter, and_assoc]

theorem eq_of_mem (h : NameMap.Distinct types) {rs' : Relationships} (hx : (t, rs) ∈ types)
    (hx' : (t, rs') ∈ types) : rs = rs' := by
  have hf := (NameMap.find?_ofList h).mpr hx
  have hf' := (NameMap.find?_ofList h).mpr hx'
  exact Option.some.inj (hf.symm.trans hf')

-- The topology of a type and its columns are stored as they were built.
theorem Stores.topology (hs : l.Stores types s) (hc : l.Compresses concurrency types)
    (hx : (t, rs) ∈ types) : s.catalog.topologies.find? t = some rs.topology := by
  rw [hs.topologies_eq]
  exact (find?_topologies hc.distinct).mpr ⟨rs, hx, rfl⟩

theorem Stores.exists_property (hs : l.Stores types s) (hc : l.Compresses concurrency types)
    (hf : l.Follows calls) (hx : (t, rs) ∈ types) {key : String} {runs : ValueRuns}
    (hk : rs.properties.find? key = some runs) :
    ∃ p, s.catalog.relationshipProperty? t key = some p ∧ p.values = runs := by
  have ⟨_, hstores⟩ := (hc.built hf hx).stores
  have ⟨ps, hps⟩ := Catalog.exists_fitColumns hstores.fit t .persistent
  have hne : rs.properties.isEmpty = false := by
    rw [Bool.eq_false_iff]
    intro he
    rw [NameMap.isEmpty_iff.mp he] at hk
    cases hk
  have hfind := (hs.properties t ps).mpr ⟨rs.properties, rs.topology,
    (find?_columns hc.distinct).mpr ⟨rs, hx, hne, rfl⟩, (find?_topologies hc.distinct).mpr ⟨rs, hx, rfl⟩, hps⟩
  have hp := (Catalog.find?_fitColumns hps).mpr ⟨runs, hk, hstores.fit key runs hk, rfl⟩
  refine ⟨⟨key, .persistent, runs⟩, ?_, rfl⟩
  rw [Catalog.relationshipProperty?, Catalog.propertiesOf, hfind]
  exact hp

-- A loaded store has its relationships from the loader's batches.
theorem coherent_of_stores (hf : l.Follows calls) (hc : l.Compresses concurrency types)
    (hs : l.Stores types s) : s.Coherent := by
  refine Store.coherent_of_assembled hs (IdMap.Builder.build_sound hf.sound) fun t topology ht => ?_
  have ⟨rs, hx, he⟩ := (find?_topologies hc.distinct).mp ht
  refine ⟨rs, hc.built hf hx, he, fun cs hcs => ?_⟩
  have ⟨rs', hx', _, he'⟩ := (find?_columns hc.distinct).mp hcs
  exact he' ▸ eq_of_mem hc.distinct hx hx' ▸ rfl

theorem build_coherent (hl : load calls = .ok l) (hb : l.build concurrency metrics = .ok s) :
    s.Coherent ∧ s.nodes = l.nodes.build ∧ s.options = l.options := by
  have ⟨types, hc, hs⟩ := build_eq_ok hb
  exact ⟨coherent_of_stores (load_follows hl) hc hs, hs.nodes_eq, hs.options_eq⟩

-- A store that a loader is assembled to is one of those that can be changed.
theorem build_reachable (hf : l.Follows calls) (hb : l.build concurrency metrics = .ok s) : s.Reachable := by
  have ⟨nodes, hn⟩ := hf.nodes
  have ⟨types, hc, ho⟩ := exists_of_build hb
  refine .assembled (Outcome.bind_eq_ok.mpr ⟨_, hn, rfl⟩) (fun t topology ht => ?_) ho
  have ⟨rs, hx, he⟩ := (find?_topologies hc.distinct).mp ht
  exact he ▸ .compressed (hc.built hf hx)

end PropertyGraph.Loader
