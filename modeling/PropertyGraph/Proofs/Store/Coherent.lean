import PropertyGraph.Proofs.Node.IdMap
import PropertyGraph.Proofs.Relationship.Built
import PropertyGraph.Proofs.Store.Assembly
import PropertyGraph.Proofs.Store.Mutation

namespace PropertyGraph.Store

-- A catalog has the topology of a type from these relationships, and no columns but theirs.
structure Files (c : Catalog) (t : RelType) (rs : Relationships) : Prop where
  topology : c.topologies.find? t = some rs.topology
  properties : ∀ key p, c.relationshipProperty? t key = some p → rs.properties.find? key = some p.values

-- The topology of a type and the columns stored under it are those of one batch.
structure Coherent (s : Store) : Prop where
  nodes : s.nodes.Sound
  closed : s.catalog.Closed
  types : ∀ t topology, s.catalog.topologies.find? t = some topology →
    ∃ rs : Relationships, rs.Built ∧ rs.topology.nodeCount = s.nodeCount ∧ Files s.catalog t rs

variable {s s' : Store} {t : RelType} {topology : Topology}

theorem Files.congr {c c' : Catalog} {rs : Relationships} (h : Files c t rs)
    (ht : c'.topologies.find? t = c.topologies.find? t)
    (hp : c'.relationshipProperties.find? t = c.relationshipProperties.find? t) : Files c' t rs where
  topology := ht.trans h.topology
  properties key p hk := h.properties key p (Catalog.relationshipProperty?_congr hp key ▸ hk)

theorem files_of_fitColumns {c : Catalog} {rs : Relationships} {state : PropertyState}
    {ps : NameMap String RelationshipProperty}
    (hf : Catalog.fitColumns t rs.topology rs.properties state = .ok ps)
    (ht : c.topologies.find? t = some rs.topology)
    (hp : ∀ key, c.relationshipProperty? t key = ps.find? key) : Files c t rs where
  topology := ht
  properties key p hk := by
    have ⟨values, hv, _, he⟩ := (Catalog.find?_fitColumns hf).mp (hp key ▸ hk)
    exact he ▸ hv

theorem Coherent.changed {m : Mutation} (h : s.Coherent) (hc : Changed s m s')
    (hm : ∀ t rs, m = .addRelationshipType t rs → rs.Built) : s'.Coherent where
  nodes := hc.nodes ▸ h.nodes
  closed := hc.closed h.closed
  types t' topology ht := by
    have hn : s'.nodeCount = s.nodeCount := congrArg IdMap.nodeCount hc.nodes
    rw [hn]
    cases hc.type_cases ht
    case inl hk =>
      obtain ⟨hsame, hp⟩ := hk
      obtain ⟨rs, hb, hcount, hf⟩ := h.types t' topology hsame
      exact ⟨rs, hb, hcount, hf.congr (ht.trans hsame.symm) hp⟩
    case inr ha =>
      obtain ⟨rs, ps, hma, _, hcount, hfit, hnew, hs⟩ := ha
      obtain ⟨hself, hps⟩ := @Catalog.find?_addType_self s.catalog t' rs.topology ps h.closed hnew
      exact ⟨rs, hm t' rs hma, hcount, hs ▸ files_of_fitColumns hfit hself hps⟩

theorem Coherent.run {ms : List Mutation} (h : s.Coherent)
    (hm : ∀ t rs, .addRelationshipType t rs ∈ ms → rs.Built) : (s.run ms).Coherent :=
  run_induction h fun s hs m hmem => hs.changed (mutate_changed s m) fun t rs he => hm t rs (he ▸ hmem)

-- A store that is assembled from topologies and columns of the same batches.
theorem coherent_of_assembled {nodes : IdMap} {nodeColumns : NameMap Label (NameMap String Column)}
    {topologies : NameMap RelType Topology} {columns : NameMap RelType (NameMap String ValueRuns)}
    {options : StoreOptions} (h : s.Assembled nodes nodeColumns topologies columns options)
    (hn : nodes.Sound)
    (ht : ∀ t topology, topologies.find? t = some topology → ∃ rs : Relationships, rs.Built ∧
      rs.topology = topology ∧ ∀ cs, columns.find? t = some cs → cs = rs.properties) :
    s.Coherent where
  nodes := h.nodes_eq ▸ hn
  closed := h.closed
  types t topology hf := by
    have hf' : topologies.find? t = some topology := h.topologies_eq ▸ hf
    obtain ⟨rs, hb, he, hcs⟩ := ht t topology hf'
    subst he
    refine ⟨rs, hb, (h.sizes t _ hf').trans (congrArg IdMap.nodeCount h.nodes_eq.symm), hf, ?_⟩
    intro key p hk
    obtain ⟨cs, _, values, hc, _, hv, _, he⟩ := h.given hk
    exact hcs cs hc ▸ he ▸ hv

end PropertyGraph.Store
