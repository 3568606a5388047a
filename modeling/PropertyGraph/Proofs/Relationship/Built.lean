import PropertyGraph.Proofs.Triangle.Enumeration

namespace PropertyGraph

open Relationships

-- Every node has its targets, and the topology counts them all.
structure Topology.Stores (t : Topology) (targets : Nat → List Nat) : Prop where
  serves : t.Serves t.nodeCount targets
  count : t.relationshipCount = ((List.range t.nodeCount).map fun v => (targets v).length).sum
  mirrored : t.isUndirected = true → ∀ v < t.nodeCount, ∀ w < t.nodeCount, w ∈ targets v → v ∈ targets w

namespace Relationships

-- Each column has as many values for a node as the node has targets.
structure Stores (rs : Relationships) (targets : Nat → List Nat) : Prop where
  topology : rs.topology.Stores targets
  aligned : ∀ key runs, rs.properties.find? key = some runs → ∀ v < rs.topology.nodeCount,
    ∃ values, runs.valuesOf v = .ok values ∧ values.size = (targets v).length
  fit : ∀ key runs, rs.properties.find? key = some runs →
    runs.nodeCount = rs.topology.nodeCount ∧ runs.elementCount = rs.topology.relationshipCount

-- A batch that had collected relationships was compressed to these.
def Built (rs : Relationships) : Prop :=
  ∃ nodeCount layout columns calls concurrency,
    ((Batch.empty nodeCount layout columns).collect calls).compress concurrency = .ok rs

variable {rs : Relationships} {b : Batch} {rows : List Row}

theorem keeps_of_find? {columns : List (String × Float)} {nodes : List (List Entry)}
    (h : rs.Tells columns nodes) {key : String} {runs : ValueRuns}
    (hf : rs.properties.find? key = some runs) : ∃ k default, Keeps columns k key default := by
  refine exists_keeps ?_
  by_contra hm
  simp [h.others key hm] at hf

theorem stores_of_tells (hb : b.Lists rows) (hn : b.nodeCount < Word64.maxVector)
    (h : rs.Tells b.columns ((List.range b.nodeCount).map (b.stored rows)))
    (hm : rs.topology.isUndirected = true → ∀ r ∈ rows, ∃ r' ∈ rows,
      r'.source = r.target ∧ r'.target = r.source) :
    rs.Stores (b.targetsOf rows) := by
  have hcount : rs.topology.nodeCount = b.nodeCount := by simpa using h.nodeCount
  refine ⟨⟨?serves, ?count, ?mirrored⟩, fun key runs hf v hv => ?aligned, fun key runs hf => ?fit⟩
  case serves => exact hcount ▸ Batch.serves_of_tells hb hn h
  case count =>
    rw [h.relationshipCount, hcount, List.map_map]
    simp [Batch.targetsOf, Function.comp_def]
  case mirrored =>
    intro hu v _ w _ hw
    obtain ⟨r, hr, hs, ht⟩ := Batch.mem_targetsOf.mp hw
    obtain ⟨r', hr', hs', ht'⟩ := hm hu r hr
    exact Batch.mem_targetsOf.mpr ⟨r', hr', hs'.trans ht, ht'.trans hs⟩
  case aligned =>
    obtain ⟨k, default, hk⟩ := keeps_of_find? h hf
    obtain ⟨runs', hf', _, hx⟩ := h.kept k key default hk
    have hr : runs' = runs := Option.some.inj (hf'.symm.trans hf)
    have hv : v < b.nodeCount := hcount ▸ hv
    exact ⟨_, hr ▸ hx v (b.stored rows v) (by simp [hv]), by simp [Batch.targetsOf]⟩
  case fit =>
    obtain ⟨k, default, hk⟩ := keeps_of_find? h hf
    rw [h.nodeCount, h.relationshipCount]
    exact h.fit k key default hk runs hf

theorem exists_reverse_row {nodeCount : Nat} {layout : Layout} {columns : List (String × Float)}
    {calls : List Batch.Call} (hu : layout.orientation = .undirected) {r : Row}
    (hr : r ∈ Batch.rowsOfCalls nodeCount layout columns calls) :
    ∃ r' ∈ Batch.rowsOfCalls nodeCount layout columns calls,
      r'.source = r.target ∧ r'.target = r.source := by
  have ⟨c, hc, hr⟩ := List.mem_flatMap.mp hr
  rw [Batch.storedRows, hu] at hr
  split at hr
  case isFalse => simp at hr
  case isTrue hin =>
    have hmem : ∀ r', r' ∈ Batch.rowsIn .undirected (c.relationship (columns.map (·.2))) →
        r' ∈ Batch.rowsOfCalls nodeCount layout columns calls := fun r' hr' =>
      List.mem_flatMap.mpr ⟨c, hc, by rwa [Batch.storedRows, hu, if_pos hin]⟩
    cases List.mem_cons.mp hr
    case inl he =>
      exact ⟨_, hmem _ (List.mem_cons_of_mem _ List.mem_cons_self), by rw [he], by rw [he]⟩
    case inr hr =>
      have he := List.mem_singleton.mp hr
      exact ⟨_, hmem _ List.mem_cons_self, by rw [he], by rw [he]⟩

theorem stores_of_compress {nodeCount : Nat} {layout : Layout} {columns : List (String × Float)}
    {calls : List Batch.Call} {concurrency : Nat}
    (hc : ((Batch.empty nodeCount layout columns).collect calls).compress concurrency = .ok rs) :
    rs.Stores (((Batch.empty nodeCount layout columns).collect calls).targetsOf
      (Batch.rowsOfCalls nodeCount layout columns calls)) := by
  have ⟨_, hl, _, hb⟩ := Batch.collect_empty nodeCount layout columns calls
  have hn := Batch.lt_maxVector_of_compress hc
  have ⟨rs', hc', ho, ht⟩ := Batch.compress_tells hb hn concurrency
    fun v hv => Batch.length_le_of_compress hb hc hv
  have hr : rs' = rs := Except.ok.inj (hc'.symm.trans hc)
  subst hr
  refine stores_of_tells hb hn ht fun hu r hr => exists_reverse_row ?_ hr
  rw [← hl, ← ho]
  exact of_decide_eq_true hu

theorem Built.stores (h : rs.Built) : ∃ targets, rs.Stores targets := by
  have ⟨_, _, _, _, _, hc⟩ := h
  exact ⟨_, stores_of_compress hc⟩

-- Relationships can be built of a few calls whatever they are, and have the columns that were declared.
theorem exists_built (nodeCount : Nat) (layout : Layout) (columns : List (String × Float))
    (calls : List Batch.Call) (concurrency : Nat) (hn : nodeCount < Word64.maxVector)
    (hl : 2 * calls.length ≤ Fault.maxRunLength) :
    ∃ rs : Relationships,
      ((Batch.empty nodeCount layout columns).collect calls).compress concurrency = .ok rs ∧
      rs.topology.nodeCount = nodeCount ∧ rs.topology.orientation = layout.orientation ∧
      ∀ key ∈ columns.map (·.1), ∃ runs, rs.properties.find? key = some runs := by
  have ⟨hcount, hlayout, hcolumns, hb⟩ := Batch.collect_empty nodeCount layout columns calls
  have hrows := Batch.length_rowsOfCalls_le nodeCount layout columns calls
  have ⟨rs, hc, ho, ht⟩ := Batch.compress_tells hb (hcount.symm ▸ hn) concurrency fun v _ =>
    Nat.le_trans length_finish_le (Nat.le_trans (List.length_filter_le _ _) (Nat.le_trans hrows hl))
  refine ⟨rs, hc, ?nodeCount, hlayout ▸ ho, fun key hk => ?column⟩
  case nodeCount =>
    have hlen := ht.nodeCount
    rwa [List.length_map, List.length_range, hcount] at hlen
  case column =>
    have ⟨k, default, hkeeps⟩ := exists_keeps hk
    have ⟨runs, hr, _⟩ := ht.kept k key default (hcolumns.symm ▸ hkeeps)
    exact ⟨runs, hr⟩

end Relationships

namespace Topology

-- A topology of relationships that were built, or one without any.
inductive Built : Topology → Prop
  | compressed {rs : Relationships} : rs.Built → Built rs.topology
  | empty (nodeCount : Nat) (o : Orientation) : Built (.empty nodeCount o)

theorem nodeCount_empty (n : Nat) (o : Orientation) : (empty n o).nodeCount = n :=
  Array.size_replicate

theorem empty_stores {n : Nat} (o : Orientation) (h : n ≤ Word64.greatest) :
    (empty n o).Stores fun _ => [] where
  serves := {
    bounded := (nodeCount_empty n o).symm ▸ h
    inside := by simp
    holds := fun v hv => by
      rw [nodeCount_empty] at hv
      exact ⟨0, by simp [offset, empty, hv], .zero _⟩ }
  count := by simp [empty]
  mirrored := by simp

theorem Built.stores {t : Topology} (h : t.Built) (hn : t.nodeCount ≤ Word64.greatest) :
    ∃ targets, t.Stores targets := by
  cases h
  case compressed rs hb =>
    have ⟨targets, hs⟩ := hb.stores
    exact ⟨targets, hs.topology⟩
  case empty n o => exact ⟨_, empty_stores o (nodeCount_empty n o ▸ hn)⟩

end Topology

end PropertyGraph
