import PropertyGraph.Proofs.Store.Parallel
import PropertyGraph.Proofs.View.Queries

namespace PropertyGraph

theorem Projection.Made.exists_serves {p : Projection} (h : p.Made) :
    ∃ targets, p.topology.Serves p.nodes.nodeCount targets := by
  have ⟨hm, hb, hn⟩ := h.sound
  have hle : p.nodes.nodeCount ≤ Word64.greatest := Nat.le_trans hm.bounded (by decide)
  have ⟨targets, hs⟩ := hb.stores (hn ▸ hle)
  exact ⟨targets, hn ▸ hs.serves⟩

namespace View

variable {view : View} {targets : Nat → List Nat} {n : Nat}

-- The targets that a visitor of each node sees, and the answers about ids of any kind that go with them.
structure Relates (view : View) (targets : Nat → List Nat) : Prop where
  inside : ∀ v < view.nodeCount, ∀ w ∈ targets v, w < view.nodeCount
  visit : ∀ v < view.nodeCount, ∀ {σ : Type} (visitor : σ → Nat → σ × Bool) (s : σ),
    view.visit v visitor s = .ok (Visitor.run visitor (targets v) s)
  hasRelationship : ∀ v < view.nodeCount, ∀ t,
    view.hasRelationship v t = .ok (decide (t ∈ targets v ∨ t = notFound))

-- At least one part answers, since a view is made of one part or more.
theorem relates_of_parts {targets : Part → Nat → List Nat}
    (h : ∀ p ∈ view.parts, ∃ q, p = .whole q ∧ q.topology.Serves view.nodeCount (targets p)) :
    view.Relates fun v => view.parts.flatMap (targets · v) where
  inside v hv w hw := by
    have ⟨p, hp, hw⟩ := List.mem_flatMap.mp hw
    have ⟨_, _, hs⟩ := h p hp
    exact hs.inside v hv w hw
  visit v hv _ visitor s := by
    apply visitParts_eq
    intro p hp s
    have ⟨q, he, hs⟩ := h p hp
    rw [he, Part.visit, ← he]
    exact Projection.visit_of_serves hs hv visitor s
  hasRelationship v hv t := by
    have hwith : partWith? v t view.parts =
        .ok (view.parts.find? fun p => decide (t ∈ targets p v ∨ t = notFound)) := by
      apply partWith?_eq
      intro p hp
      have ⟨q, he, hs⟩ := h p hp
      rw [he, Part.hasRelationship, ← he]
      exact Projection.hasRelationship_eq_of_serves hs hv t
    rw [View.hasRelationship, hwith, Outcome.ok_bind, Outcome.pure_eq_ok]
    congr 1
    rw [Bool.eq_iff_iff, List.find?_isSome, decide_eq_true_eq, List.mem_flatMap]
    simp only [decide_eq_true_eq]
    constructor
    case mp =>
      rintro ⟨p, hp, ht⟩
      exact ht.imp_left fun ht => ⟨p, hp, ht⟩
    case mpr =>
      intro ht
      cases ht
      case inl ht => exact ht.imp fun p hp => ⟨hp.left, .inl hp.right⟩
      case inr ht => exact ⟨view.head, List.mem_cons_self, .inr ht⟩

-- A view is asked about a relationship to an id that is none of its nodes. There is none, but one to the greatest
-- number is reported nevertheless.
theorem hasRelationship_outside
    (h : ∀ p ∈ view.parts, (∃ q, p = .whole q ∧ q.Made) ∧ p.nodeCount = view.nodeCount) :
    ∃ targets, view.Relates targets ∧ ∀ v < view.nodeCount, ∀ t, view.nodeCount ≤ t →
      t ∉ targets v ∧ view.hasRelationship v t = .ok (decide (t = notFound)) := by
  have hserves : ∀ p : Part, ∃ targets, p ∈ view.parts →
      ∃ q, p = .whole q ∧ q.topology.Serves view.nodeCount targets := by
    intro p
    by_cases hp : p ∈ view.parts
    case neg => exact ⟨fun _ => [], fun hm => absurd hm hp⟩
    case pos =>
      have ⟨⟨q, he, hm⟩, hn⟩ := h p hp
      have ⟨targets, hs⟩ := hm.exists_serves
      have hn : q.nodes.nodeCount = view.nodeCount := by rw [← hn, he]; rfl
      exact ⟨targets, fun _ => ⟨q, he, hn ▸ hs⟩⟩
  have ⟨targets, hs⟩ := Classical.axiomOfChoice hserves
  have hr := relates_of_parts hs
  refine ⟨_, hr, fun v hv t ht => ?_⟩
  have hout : t ∉ view.parts.flatMap (targets · v) := fun hm => Nat.not_lt.mpr ht (hr.inside v hv t hm)
  refine ⟨hout, ?_⟩
  rw [hr.hasRelationship v hv t]
  simp [hout]

theorem hasRelationship_outside_of_union :
    ∃ nodes rs p view, IdMap.ofNodes [(0, [⟨"A"⟩]), (1, [⟨"A"⟩])] = .ok nodes ∧
      ((Batch.empty 2 .natural []).collect [.addDefault 0 1]).compress 1 = .ok rs ∧
      Projection.owned nodes ⟨"LINKS"⟩ rs none = .ok p ∧
      unionOf [single (.whole p), single (.whole p)] = .ok view ∧
      (∀ part ∈ view.parts, (∃ q, part = .whole q ∧ q.Made) ∧ part.nodeCount = view.nodeCount) ∧
      view.hasRelationship 0 2 = .ok false ∧ view.hasRelationship 0 (notFound - 1) = .ok false := by
  have ⟨nodes, rs, _, hnodes, hrs, _, hcount, hn, _⟩ := Store.exists_edge
  have ⟨p, hp⟩ := @Projection.exists_owned rs none (fun _ h => nomatch h) nodes ⟨"LINKS"⟩
  have hmade : p.Made := .owned hnodes (.compressed ⟨_, _, _, _, _, hrs⟩) (hn.trans hcount.symm) hp
  have hnodeCount : (Part.whole p).nodeCount = 2 :=
    (congrArg IdMap.nodeCount (Projection.topology_of_owned hp).left).trans hcount
  have ⟨view, hview⟩ := @exists_unionOf [.whole p, .whole p] 2 (List.cons_ne_nil _ _) (by simp [hnodeCount])
  have ⟨hparts, hcounts⟩ := parts_of_unionOf hview
  have hall : ∀ part ∈ view.parts, (∃ q, part = .whole q ∧ q.Made) ∧ part.nodeCount = view.nodeCount := by
    intro part hm
    have hm : part ∈ [Part.whole p, .whole p] := hparts ▸ hm
    have he : part = .whole p := by simpa using hm
    exact ⟨⟨p, he, hmade⟩, hcounts part hm⟩
  have htwo : view.nodeCount = 2 := (hcounts (.whole p) List.mem_cons_self).symm.trans hnodeCount
  have ⟨_, _, hout⟩ := hasRelationship_outside hall
  have hout := hout 0 (by omega)
  rw [htwo] at hout
  exact ⟨nodes, rs, p, view, hnodes, hrs, hp, hview, hall, (hout 2 (by decide)).right,
    (hout (notFound - 1) (by decide)).right⟩

-- The only relationship leads to the second of two nodes.
theorem exists_relationship_to_notFound :
    ∃ nodes rs p, IdMap.ofNodes [(0, [⟨"A"⟩]), (1, [⟨"A"⟩])] = .ok nodes ∧
      ((Batch.empty 2 .natural []).collect [.addDefault 0 1]).compress 1 = .ok rs ∧
      Projection.owned nodes ⟨"LINKS"⟩ rs none = .ok p ∧ p.Made ∧
      (single (.whole p)).nodeCount = 2 ∧ (single (.whole p)).targets 0 none = .ok [1] ∧
      2 ≤ notFound ∧ (single (.whole p)).hasRelationship 0 notFound = .ok true := by
  have ⟨nodes, rs, targets, hnodes, hrs, _, hcount, hn, _, hserves, hfirst, _⟩ := Store.exists_edge
  have ⟨p, hp⟩ := @Projection.exists_owned rs none (fun _ h => nomatch h) nodes ⟨"LINKS"⟩
  have ⟨hsame, htopology⟩ := Projection.topology_of_owned hp
  have hmade : p.Made := .owned hnodes (.compressed ⟨_, _, _, _, _, hrs⟩) (hn.trans hcount.symm) hp
  have hserves : p.topology.Serves 2 targets := htopology ▸ hserves
  have hnodeCount : (single (.whole p)).nodeCount = 2 := (congrArg IdMap.nodeCount hsame).trans hcount
  refine ⟨nodes, rs, p, hnodes, hrs, hp, hmade, hnodeCount, ?targets, by decide, ?has⟩
  case targets =>
    rw [View.targets, visit, parts, partsOf, visitParts, Part.visit,
      Projection.visit_of_serves hserves (by decide), hfirst]
    rfl
  case has =>
    rw [hasRelationship, parts, partsOf, partWith?, Part.hasRelationship,
      Projection.hasRelationship_eq_of_serves hserves (by decide), hfirst]
    rfl

end View

end PropertyGraph
