import PropertyGraph.Proofs.Node.IdMap
import PropertyGraph.Proofs.Relationship.Built
import PropertyGraph.Proofs.Store.Assembly
import PropertyGraph.Proofs.Store.Mutation

namespace PropertyGraph.Store

-- A change of other types than the given one, or of node properties.
def Mutation.Spares (t : RelType) : Mutation → Prop
  | .addRelationshipType t' _ | .deleteRelationships t' => t' ≠ t
  | .addNodeProperty .. | .removeNodeProperty .. | .canRelease _ => True
  | .release => False

-- One store holds what the other does, and a type in addition.
structure HasMore (t : RelType) (topology : Topology) (ps : NameMap String RelationshipProperty)
    (s s' : Store) : Prop where
  nodes : s'.nodes = s.nodes
  catalog : s'.catalog = s.catalog.addType t topology ps
  free : s.catalog.topologies.find? t = none
  unused : s.catalog.relationshipProperties.find? t = none

variable {s s' x x' : Store} {m : Mutation} {ms : List Mutation} {t : RelType} {topology : Topology}
  {ps : NameMap String RelationshipProperty}

theorem HasMore.contains_iff {t' : RelType} (h : HasMore t topology ps s s') (ht : t' ≠ t) :
    s'.catalog.topologies.contains t' = s.catalog.topologies.contains t' := by
  rw [h.catalog, NameMap.contains, (Catalog.find?_addType_of_ne ht).left, NameMap.contains]

theorem HasMore.admits_iff (h : HasMore t topology ps s s') (hm : m.Spares t) : s'.Admits m ↔ s.Admits m := by
  have hc := h.catalog
  cases m
  case addNodeProperty => simp only [Admits, nodeCount, h.nodes, hc]; rfl
  case removeNodeProperty => simp only [Admits, h.nodes]
  case addRelationshipType => simp only [Admits, nodeCount, h.nodes]
  case deleteRelationships => simp only [Admits, h.contains_iff hm]
  case canRelease => exact Iff.rfl
  case release => cases hm

theorem HasMore.vain_iff (h : HasMore t topology ps s s') (hm : m.Spares t) : s'.Vain m ↔ s.Vain m := by
  have hc := h.catalog
  cases m
  case addNodeProperty => simp only [Vain, hc]; rfl
  case removeNodeProperty => simp only [Vain, hc]; rfl
  case addRelationshipType => simp only [Vain, h.contains_iff hm]
  case deleteRelationships | canRelease => exact Iff.rfl
  case release => cases hm

-- A step that both stores take leaves the one as much ahead of the other as it was.
theorem HasMore.step (h : HasMore t topology ps s s') (hm : m.Spares t) (hs : Step s m x) (hs' : Step s' m x') :
    HasMore t topology ps x x' := by
  have hc := h.catalog
  cases hs <;> cases hs'
  case addNodeProperty.addNodeProperty ls key values _ _ _ _ =>
    have ⟨ht, hp⟩ := s.catalog.relationships_addNodeProperty ls ⟨key, .transient, values⟩
    refine ⟨h.nodes, ?_, ht ▸ h.free, hp ▸ h.unused⟩
    rw [commit, hc, Catalog.addNodeProperty_addType]
    rfl
  case removeNodeProperty.removeNodeProperty => exact ⟨h.nodes, by rw [commit, hc]; rfl, h.free, h.unused⟩
  case addRelationshipType.addRelationshipType t' rs ps₁ _ hps _ ps₂ _ _ hps' =>
    obtain rfl : ps₁ = ps₂ := Except.ok.inj (hps.symm.trans hps')
    have ⟨hf, hp⟩ := @Catalog.find?_addType_of_ne s.catalog t' t rs.topology ps₁ (Ne.symm hm)
    refine ⟨h.nodes, ?_, hf.trans h.free, hp.trans h.unused⟩
    rw [commit, hc, Catalog.addType_comm (Ne.symm hm)]
    rfl
  case deleteRelationships.deleteRelationships t' =>
    have ⟨hf, hp⟩ := @Catalog.find?_deleteType_of_ne s.catalog t' t (Ne.symm hm)
    refine ⟨h.nodes, ?_, hf.trans h.free, hp.trans h.unused⟩
    rw [commit, hc, ← Catalog.addType_deleteType_comm hm]
    rfl
  case canRelease.canRelease => exact ⟨h.nodes, hc, h.free, h.unused⟩
  case release.release => cases hm

theorem HasMore.mutate (h : HasMore t topology ps s s') (hm : m.Spares t) :
    HasMore t topology ps (s.mutate m) (s'.mutate m) := by
  by_cases ht : s.Admits m ∧ ¬s.Vain m
  case pos =>
    have ⟨_, hstep⟩ := mutate_takes ht.left ht.right
    have ⟨_, hstep'⟩ := mutate_takes ((h.admits_iff hm).mpr ht.left) (mt (h.vain_iff hm).mp ht.right)
    exact h.step hm hstep hstep'
  case neg =>
    have hv := not_and_not_right.mp ht
    have hv' : s'.Admits m → s'.Vain m := fun ha => (h.vain_iff hm).mpr (hv ((h.admits_iff hm).mp ha))
    rwa [mutate_eq_self hv, mutate_eq_self hv']

theorem HasMore.run (h : HasMore t topology ps s s') (hms : ∀ m ∈ ms, m.Spares t) :
    HasMore t topology ps (s.run ms) (s'.run ms) := by
  induction ms generalizing s s'
  case nil => exact h
  case cons m ms hi =>
    have ⟨hm, hms⟩ := List.forall_mem_cons.mp hms
    exact hi (h.mutate hm) hms

-- Deleting the type makes up for all that the one store has more.
theorem HasMore.deleteRelationships (h : HasMore t topology ps s s') :
    ∃ s₂, s'.deleteRelationships t =
        (.ok ⟨topology.relationshipCount, ps.mapValues (·.values.elementCount)⟩, s₂) ∧
      s₂.catalog = s.catalog ∧
      s'.catalog.relationshipCount = s₂.catalog.relationshipCount + topology.relationshipCount := by
  have hself : s'.catalog.topologies.find? t = some topology := h.catalog ▸ NameMap.find?_insert_self ..
  have hdel : s'.catalog.deleteType t = s.catalog :=
    h.catalog ▸ Catalog.deleteType_addType h.free h.unused topology ps
  refine ⟨s'.commit .deleteRelationships (s'.catalog.deleteType t), ?_, hdel,
    Catalog.relationshipCount_deleteType hself⟩
  rw [deleteRelationships_of_loaded hself, h.catalog, Catalog.propertiesOf_addType h.unused]

variable {nodes : IdMap} {nodeColumns : NameMap Label (NameMap String Column)}
  {topologies : NameMap RelType Topology} {columns : NameMap RelType (NameMap String ValueRuns)}
  {options : StoreOptions} {metrics : Metrics} {before : List Mutation} {rs : Relationships} {added : Bool}
  {s₀ s₁ : Store}

theorem run_closed (h : s.catalog.Closed) (ms : List Mutation) : (s.run ms).catalog.Closed :=
  run_induction h fun s hs m _ => (mutate_changed s m).closed hs

theorem hasMore_of_addRelationshipType (hc : s.catalog.Closed) (hnew : s.catalog.topologies.contains t = false)
    (h : s.addRelationshipType t rs = (.ok added, s')) :
    ∃ ps, Catalog.fitColumns t rs.topology rs.properties .transient = .ok ps ∧ HasMore t rs.topology ps s s' := by
  have ha : s.Admits (.addRelationshipType t rs) := by
    by_contra hn
    have ⟨f, hf⟩ := addRelationshipType_of_not_admits hn
    cases hf.symm.trans h
  have ⟨ps, hps, he⟩ := addRelationshipType_of_admits ha
  rw [if_neg (Bool.eq_false_iff.mp hnew)] at he
  cases he.symm.trans h
  have hfree : s.catalog.topologies.find? t = none := by simpa [NameMap.contains] using hnew
  exact ⟨ps, hps, rfl, rfl, hfree, hc t hfree⟩

-- Deleting a type that was added takes away what came with it, and nothing else.
theorem deleteRelationships_reverts (h : of nodes nodeColumns topologies columns options metrics = .ok s₀)
    (before : List Mutation) (hnew : (s₀.run before).catalog.topologies.contains t = false)
    (hadd : (s₀.run before).addRelationshipType t rs = (.ok added, s₁)) (hms : ∀ m ∈ ms, m.Spares t) :
    ∃ d s₂, (s₁.run ms).deleteRelationships t = (.ok d, s₂) ∧
      d.relationships = rs.topology.relationshipCount ∧
      d.values = rs.properties.mapValues (fun _ => rs.topology.relationshipCount) ∧
      s₂.catalog = ((s₀.run before).run ms).catalog ∧
      (s₁.run ms).catalog.relationshipCount = s₂.catalog.relationshipCount + d.relationships := by
  have ⟨ps, hps, hmore⟩ := hasMore_of_addRelationshipType (run_closed (of_eq_ok h).closed before) hnew hadd
  have ⟨s₂, hd, hc, hcount⟩ := (hmore.run hms).deleteRelationships
  exact ⟨_, s₂, hd, rfl, Catalog.elementCounts_of_fitColumns hps, hc, hcount⟩

theorem deleteRelationships_reverts_of_mixed :
    ∃ nodes rs s₀ s₁, IdMap.ofNodes [(10, [⟨"A"⟩]), (20, [⟨"B"⟩])] = .ok nodes ∧
      ((Batch.empty 2 .natural [("weight", 1.0)]).collect [.add 0 1 [0.5], .addDefault 1 1]).compress 1 = .ok rs ∧
      of nodes ∅ ∅ ∅ {} {} = .ok s₀ ∧
      (s₀.run [.canRelease false, .release]).addRelationshipType ⟨"ROADS"⟩ rs = (.ok true, s₁) ∧
      let ms : List Mutation := [.addNodeProperty [⟨"A"⟩] "rank" (.ofColumn (.double #[0.5, 1.5])),
        .addRelationshipType ⟨"PATHS"⟩ rs, .removeNodeProperty ⟨"B"⟩ "rank", .deleteRelationships ⟨"PATHS"⟩]
      ∃ d s₂, (s₁.run ms).deleteRelationships ⟨"ROADS"⟩ = (.ok d, s₂) ∧
        d.relationships = rs.topology.relationshipCount ∧
        d.values = rs.properties.mapValues (fun _ => rs.topology.relationshipCount) ∧
        s₂.catalog = ((s₀.run [.canRelease false, .release]).run ms).catalog ∧
        (s₁.run ms).catalog.relationshipCount = s₂.catalog.relationshipCount + d.relationships := by
  have ⟨nodes, hnodes, hcount⟩ := @IdMap.exists_ofNodes [(10, [⟨"A"⟩]), (20, [⟨"B"⟩])]
    (by decide) (by decide)
  have ⟨rs, hrs, hn, _⟩ := Relationships.exists_built 2 .natural [("weight", 1.0)]
    [.add 0 1 [0.5], .addDefault 1 1] 1 (by decide) (by decide)
  have ⟨_, hstores⟩ := Relationships.Built.stores ⟨_, _, _, _, _, hrs⟩
  have hs : of nodes ∅ ∅ ∅ {} {} = .ok ⟨nodes, {}, 0, {}, true, none⟩ := rfl
  have ⟨ps, _, hadd⟩ := @addRelationshipType_of_admits
    (run ⟨nodes, {}, 0, {}, true, none⟩ [.canRelease false, .release]) ⟨"ROADS"⟩ rs
    ⟨hn.trans hcount.symm, hstores.fit⟩
  refine ⟨nodes, rs, _, _, hnodes, hrs, hs, hadd, ?_⟩
  exact deleteRelationships_reverts hs _ rfl hadd (by simp [Mutation.Spares])

end PropertyGraph.Store
