import PropertyGraph.Proofs.Node.IdMap
import PropertyGraph.Proofs.Relationship.Built
import PropertyGraph.Proofs.Store.Assembly
import PropertyGraph.Proofs.Store.Mutation

namespace PropertyGraph.Store

-- Stores that were assembled and changed with topologies that were built.
inductive Reachable : Store → Prop
  | assembled {nodeList nodes nodeColumns topologies columns options metrics s} :
    IdMap.ofNodes nodeList = .ok nodes →
    (∀ t topology, topologies.find? t = some topology → topology.Built) →
    Store.of nodes nodeColumns topologies columns options metrics = .ok s → Reachable s
  | changed {s} (m : Mutation) :
    Reachable s → (∀ t rs, m = .addRelationshipType t rs → rs.topology.Built) → Reachable (s.mutate m)

structure Sound (s : Store) : Prop where
  nodes : s.nodes.Sound
  topologies : ∀ t topology, s.catalog.topologies.find? t = some topology →
    topology.Built ∧ topology.nodeCount = s.nodeCount

variable {s s' : Store}

theorem Sound.changed {m : Mutation} (h : s.Sound) (hc : Changed s m s')
    (hm : ∀ t rs, m = .addRelationshipType t rs → rs.topology.Built) : s'.Sound where
  nodes := hc.nodes ▸ h.nodes
  topologies t' topology ht := by
    have hn : s'.nodeCount = s.nodeCount := congrArg IdMap.nodeCount hc.nodes
    rw [hn]
    cases hc.type_cases ht
    case inl hk => exact h.topologies t' topology hk.left
    case inr ha =>
      have ⟨rs, _, he, hr, hcount, _⟩ := ha
      exact hr ▸ ⟨hm t' rs he, hcount⟩

theorem Reachable.run {ms : List Mutation} (h : s.Reachable)
    (hm : ∀ t rs, .addRelationshipType t rs ∈ ms → rs.topology.Built) : (s.run ms).Reachable :=
  run_induction h fun _ hs m hmem => hs.changed m fun t rs he => hm t rs (he ▸ hmem)

theorem Reachable.sound (h : s.Reachable) : s.Sound := by
  induction h
  case assembled hn ht ho =>
    have ha := of_eq_ok ho
    refine ⟨ha.nodes_eq ▸ IdMap.ofNodes_sound hn, fun t topology hf => ?_⟩
    have hf := ha.topologies_eq ▸ hf
    exact ⟨ht t topology hf, (ha.sizes t topology hf).trans (congrArg IdMap.nodeCount ha.nodes_eq.symm)⟩
  case changed m _ hm hi => exact hi.changed (mutate_changed _ m) hm

end PropertyGraph.Store
