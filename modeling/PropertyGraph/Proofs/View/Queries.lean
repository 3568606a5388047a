import PropertyGraph.Proofs.Store.Reachable
import PropertyGraph.Proofs.Store.Select
import PropertyGraph.Proofs.View.View

namespace PropertyGraph

-- A projection of a store, or of relationships that were built for the nodes.
inductive Projection.Made : Projection → Prop
  | borrowed {s nodeProperties c p} : Store.Reachable s →
    s.project nodeProperties none c = .ok (.whole p) → Made p
  | owned {nodeList nodes type rs key? p} : IdMap.ofNodes nodeList = .ok nodes →
    rs.topology.Built → rs.topology.nodeCount = nodes.nodeCount →
    Projection.owned nodes type rs key? = .ok p → Made p

-- A projection, or what is left of it by labels.
inductive Part.Made : Part → Prop
  | whole {p} : p.Made → Made (.whole p)
  | restricted {p ls concurrency size sub} : p.Made → size ≤ Word64.greatest →
    Subset.ofLabels p.nodes ls concurrency size = .ok sub → Made (.restricted p sub)

namespace Projection

variable {p : Projection}

theorem exists_owned {rs : Relationships} {key? : Option String}
    (h : ∀ key, key? = some key → ∃ column, rs.properties.find? key = some column) (nodes : IdMap)
    (type : RelType) : ∃ p, owned nodes type rs key? = .ok p := by
  cases key?
  case none => exact ⟨_, rfl⟩
  case some key =>
    have ⟨column, hc⟩ := h key rfl
    simp [owned, hc]

theorem topology_of_owned {nodes : IdMap} {type : RelType} {rs : Relationships} {key? : Option String}
    (h : owned nodes type rs key? = .ok p) : p.nodes = nodes ∧ p.topology = rs.topology := by
  cases key? <;> rw [owned] at h
  case none => exact Except.ok.inj h ▸ ⟨rfl, rfl⟩
  case some key =>
    split at h
    case h_1 => exact Except.ok.inj h ▸ ⟨rfl, rfl⟩
    case h_2 => cases h

-- Columns that were built together with a topology are aligned with it.
theorem aligned_of_owned {nodes : IdMap} {type : RelType} {rs : Relationships} {key? : Option String}
    (hb : rs.Built) (hn : rs.topology.nodeCount = nodes.nodeCount)
    (h : owned nodes type rs key? = .ok p) : p.Aligned := by
  have ⟨targets, hs⟩ := hb.stores
  have ⟨hnodes, htopology⟩ := topology_of_owned h
  intro runs hr v hv
  have hv : v < rs.topology.nodeCount := hn ▸ hnodes ▸ hv
  have hcolumn : ∃ key, rs.properties.find? key = some runs := by
    cases key? <;> rw [owned] at h
    case none => cases h; cases hr
    case some key =>
      split at h
      case h_2 => cases h
      case h_1 column hf =>
        cases h
        exact ⟨key, hf.trans hr⟩
  have ⟨key, hf⟩ := hcolumn
  have ⟨values, hx, hl⟩ := hs.aligned key runs hf v hv
  have ⟨_, hd⟩ := Intersection.targets_of_serves hs.topology.serves hv
  exact ⟨values, hx, by rw [htopology, hd, hl]⟩

theorem Made.sound (h : p.Made) :
    p.nodes.Sound ∧ p.topology.Built ∧ p.topology.nodeCount = p.nodes.nodeCount := by
  cases h
  case borrowed s _ c hs hp =>
    have ⟨topology, ht, he⟩ := Store.project_eq_ok.mp hp
    have he := Part.whole.inj he
    have ⟨hb, hn⟩ := hs.sound.topologies _ topology ht
    exact he ▸ ⟨hs.sound.nodes, hb, hn⟩
  case owned nodes _ rs _ hn hb hc ho =>
    have ⟨he, ht⟩ := topology_of_owned ho
    rw [he, ht]
    exact ⟨IdMap.ofNodes_sound hn, hb, hc⟩

theorem Made.shows (h : p.Made) (ha : p.Aligned) :
    ∃ targets values, p.Shows p.nodes.nodeCount targets values ∧
      p.topology.relationshipCount =
        ((List.range p.nodes.nodeCount).map fun v => (targets v).length).sum := by
  have ⟨hm, hb, hn⟩ := h.sound
  have hle : p.nodes.nodeCount ≤ Word64.greatest := Nat.le_trans hm.bounded (by decide)
  have ⟨targets, hs, hc, _⟩ := hb.stores (hn ▸ hle)
  rw [hn] at hs hc
  have ⟨values, hv⟩ := @shows_of_aligned p targets _ hs fun runs hr v hv => by
    have ⟨values, hx, hd⟩ := ha runs hr v hv
    exact ⟨values, hx, Except.ok.inj (hd.symm.trans (Intersection.targets_of_serves hs hv).right)⟩
  exact ⟨targets, values, hv, hc⟩

end Projection

-- With values of a property, what is seen has nothing of the fallback.
theorem Part.Made.exists_seen {p : Part} (h : p.Made) (ha : p.projection.Aligned) :
    ∃ seen : Float → Nat → List (Nat × Float), (∀ fallback, p.Answers fallback (seen fallback)) ∧
      (p.hasValues = true → ∀ fallback fallback', seen fallback = seen fallback') := by
  cases h
  case whole p hp =>
    have ⟨targets, values, hs, hc⟩ := hp.shows ha
    exact ⟨p.seen targets values, Part.whole_answers hs hc, fun hv => Projection.seen_congr hv targets values⟩
  case restricted p ls concurrency size sub hp hsize hsub =>
    have ⟨targets, values, hs, _⟩ := hp.shows ha
    refine ⟨fun fallback => Part.seenIn sub.roots.toList (p.seen targets values fallback),
      Part.restricted_answers hs (Subset.selects_of_ofLabels hp.sound.left hsize hsub), fun hv f f' => ?_⟩
    exact congrArg (Part.seenIn _) (Projection.seen_congr hv targets values f f')

theorem Part.Made.answers {p : Part} (h : p.Made) (ha : p.projection.Aligned) (fallback : Float) :
    ∃ seen, p.Answers fallback seen :=
  have ⟨seen, hs, _⟩ := h.exists_seen ha
  ⟨seen fallback, hs fallback⟩

namespace Store.Reachable

variable {s s' : Store} {ls : List Label} {view : View} {workers : Nat}

-- The parts of whatever view such a store gives were made like this.
theorem made_of_materialize (h : s.Reachable) (hsize : s.options.filterChunkSize ≤ Word64.greatest)
    {choices : List Choice} (hv : s.materialize ls choices workers = (.ok view, s')) :
    ∀ p ∈ view.parts, p.Made ∧ p.nodeCount = view.nodeCount := by
  have ⟨nodeProperties, subset, _, hc, hparts, hn⟩ := materialize_eq_ok hv
  refine fun p hp => ⟨?_, hn p hp⟩
  have ⟨c, _, hproject⟩ := Outcome.exists_of_forall₂_right hparts hp
  have ⟨topology, ht, he⟩ := project_eq_ok.mp hproject
  have hmade : (s.projectionOf nodeProperties c topology).Made := .borrowed h (project_eq_ok.mpr ⟨topology, ht, rfl⟩)
  subst he
  cases subset
  case none => exact .whole hmade
  case some sub =>
    have ⟨_, _, hsub⟩ := hc
    exact .restricted hmade hsize hsub

theorem made_of_getGraph (h : s.Reachable) (hsize : s.options.filterChunkSize ≤ Word64.greatest)
    {ts : List RelType} {key : Option String} (hv : s.getGraph ls ts key workers = (.ok view, s')) :
    ∀ p ∈ view.parts, p.Made ∧ p.nodeCount = view.nodeCount :=
  h.made_of_materialize hsize (getGraph_eq_ok hv).left

end Store.Reachable

namespace View

variable {view : View} {fallback : Float}

-- Whatever parts a view is made of, its answers go with what a visitor sees.
theorem answers_of_made
    (h : ∀ p ∈ view.parts, p.Made ∧ p.projection.Aligned ∧ p.nodeCount = view.nodeCount)
    (fallback : Float) : ∃ seen, view.Answers fallback seen := by
  have hseen : ∀ p : Part, ∃ seen, p ∈ view.parts → p.Answers fallback seen := by
    intro p
    by_cases hp : p ∈ view.parts
    case neg => exact ⟨fun _ => [], fun hm => absurd hm hp⟩
    case pos =>
      have ⟨hm, ha, _⟩ := h p hp
      have ⟨seen, hs⟩ := hm.answers ha fallback
      exact ⟨seen, fun _ => hs⟩
  have ⟨seen, hs⟩ := Classical.axiomOfChoice hseen
  exact ⟨_, answers_of_parts fun p hp => ⟨hs p hp, (h p hp).right.right⟩⟩

theorem answers_of_made_of_union :
    ∃ nodes rs p q view, IdMap.ofNodes [(10, []), (20, [])] = .ok nodes ∧
      ((Batch.empty 2 .natural [("weight", 1.0)]).collect
        [.add 0 1 [0.5], .add 0 1 [2.5], .addDefault 1 1]).compress 1 = .ok rs ∧
      Projection.owned nodes ⟨"LINKS"⟩ rs (some "weight") = .ok p ∧
      Projection.owned nodes ⟨"LINKS"⟩ rs none = .ok q ∧
      unionOf [single (.whole p), single (.whole q)] = .ok view ∧ ∃ seen, view.Answers 0 seen := by
  have ⟨nodes, hnodes, hcount⟩ := @IdMap.exists_ofNodes [(10, []), (20, [])] (by decide) (by decide)
  have ⟨rs, hrs, hn, _, hcolumns⟩ := Relationships.exists_built 2 .natural [("weight", 1.0)]
    [.add 0 1 [0.5], .add 0 1 [2.5], .addDefault 1 1] 1 (by decide) (by decide)
  have hbuilt : rs.Built := ⟨_, _, _, _, _, hrs⟩
  have hn : rs.topology.nodeCount = nodes.nodeCount := hn.trans hcount.symm
  have ⟨p, hp⟩ := @Projection.exists_owned rs (some "weight")
    (fun key hk => hcolumns key (Option.some.inj hk ▸ List.mem_cons_self)) nodes ⟨"LINKS"⟩
  have ⟨q, hq⟩ := @Projection.exists_owned rs none (fun _ h => nomatch h) nodes ⟨"LINKS"⟩
  have hpart : ∀ part ∈ [Part.whole p, .whole q],
      part.Made ∧ part.projection.Aligned ∧ part.nodeCount = nodes.nodeCount := by
    have hmade : ∀ key? r, Projection.owned nodes ⟨"LINKS"⟩ rs key? = .ok r →
        (Part.whole r).Made ∧ r.Aligned ∧ r.nodes.nodeCount = nodes.nodeCount := fun key? r hr =>
      ⟨.whole (.owned hnodes (.compressed hbuilt) hn hr), Projection.aligned_of_owned hbuilt hn hr,
        congrArg IdMap.nodeCount (Projection.topology_of_owned hr).left⟩
    exact List.forall_mem_cons.mpr ⟨hmade _ p hp, List.forall_mem_singleton.mpr (hmade _ q hq)⟩
  have ⟨view, hview⟩ := exists_unionOf (List.cons_ne_nil _ _) fun part hm => (hpart part hm).right.right
  have ⟨hparts, hcounts⟩ := parts_of_unionOf hview
  refine ⟨nodes, rs, p, q, view, hnodes, hrs, hp, hq, hview, answers_of_made (fun part hm => ?_) 0⟩
  have hm : part ∈ [Part.whole p, .whole q] := hparts ▸ hm
  have ⟨hmade, haligned, _⟩ := hpart part hm
  exact ⟨hmade, haligned, hcounts part hm⟩

end View

end PropertyGraph
