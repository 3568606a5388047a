import Mathlib.Algebra.BigOperators.Group.List.Basic
import PropertyGraph.Proofs.Node.Subset
import PropertyGraph.Proofs.Relationship.Built
import PropertyGraph.Proofs.View.Projection

namespace PropertyGraph

-- The pairs of target and value that a visitor of each node sees, if the fallback stands for missing values,
-- and the answers that go with them.
structure Part.Answers (p : Part) (fallback : Float) (seen : Nat → List (Nat × Float)) : Prop where
  visitValues : ∀ v < p.nodeCount, ∀ {σ : Type} (visitor : σ → Nat → Float → σ × Bool) (s : σ),
    p.visitValues v fallback visitor s = .ok (Visitor.run (fun s x => visitor s x.1 x.2) (seen v) s)
  visit : ∀ v < p.nodeCount, ∀ {σ : Type} (visitor : σ → Nat → σ × Bool) (s : σ),
    p.visit v visitor s = .ok (Visitor.run visitor ((seen v).map (·.1)) s)
  degree : ∀ v < p.nodeCount, p.degree v = .ok (seen v).length
  relationshipCount : p.relationshipCount = .ok ((List.range p.nodeCount).map fun v => (seen v).length).sum
  hasRelationship : ∀ v < p.nodeCount, ∀ w < p.nodeCount,
    p.hasRelationship v w = .ok (decide (w ∈ (seen v).map (·.1)))
  relationshipValue : ∀ v < p.nodeCount, ∀ w < p.nodeCount,
    p.relationshipValue v w fallback = .ok (firstValue (seen v) w fallback)

theorem Part.Answers.congr {p : Part} {fallback : Float} {seen seen' : Nat → List (Nat × Float)}
    (h : p.Answers fallback seen) (he : ∀ v < p.nodeCount, seen v = seen' v) : p.Answers fallback seen' where
  visitValues v hv := he v hv ▸ h.visitValues v hv
  visit v hv := he v hv ▸ h.visit v hv
  degree v hv := he v hv ▸ h.degree v hv
  relationshipCount := by
    rw [h.relationshipCount]
    congr 2
    exact List.map_congr_left fun v hv => congrArg List.length (he v (List.mem_range.mp hv))
  hasRelationship v hv := he v hv ▸ h.hasRelationship v hv
  relationshipValue v hv := he v hv ▸ h.relationshipValue v hv

namespace Projection

variable {p : Projection} {targets : Nat → List Nat} {values : Nat → List Float} {fallback : Float} {v : Nat}

-- What a visitor of a node sees.
def seen (p : Projection) (targets : Nat → List Nat) (values : Nat → List Float) (fallback : Float)
    (v : Nat) : List (Nat × Float) :=
  p.pairs (targets v) (values v) fallback

theorem seen_congr (h : p.values.isSome) (targets : Nat → List Nat) (values : Nat → List Float)
    (fallback fallback' : Float) : p.seen targets values fallback = p.seen targets values fallback' := by
  funext v
  rw [seen, pairs, if_pos h, seen, pairs, if_pos h]

theorem Shows.targets_seen {n : Nat} (h : p.Shows n targets values) (hv : v < n) (fallback : Float) :
    (p.seen targets values fallback v).map (·.1) = targets v := by
  refine targets_pairs (fun hs => ?_) fallback
  have ⟨runs, hr⟩ := Option.isSome_iff_exists.mp hs
  exact (h.values runs hr v hv).right

theorem Shows.length_seen {n : Nat} (h : p.Shows n targets values) (hv : v < n) (fallback : Float) :
    (p.seen targets values fallback v).length = (targets v).length := by
  rw [← h.targets_seen hv fallback, List.length_map]

theorem shows_of_aligned {n : Nat} (hs : p.topology.Serves n targets)
    (ha : ∀ runs, p.values = some runs → ∀ v < n, ∃ values,
      runs.valuesOf v = .ok values ∧ values.size = (targets v).length) :
    ∃ values, p.Shows n targets values := by
  cases hp : p.values
  case none => exact ⟨fun _ => [], hs, fun runs hr => by simp [hp] at hr⟩
  case some runs =>
    refine ⟨fun v => ((runs.valuesOf v).toOption.getD #[]).toList, hs, fun runs' hr v hv => ?_⟩
    have hr : runs = runs' := Option.some.inj (hp.symm.trans hr)
    have ⟨values, hx, hl⟩ := ha runs hp v hv
    simp [← hr, hx, Except.toOption, hl]

end Projection

namespace Part

variable {p : Projection} {sub : Subset} {targets : Nat → List Nat} {values : Nat → List Float}
  {m : IdMap} {keep : Nat → Bool}

theorem whole_answers (h : p.Shows p.nodes.nodeCount targets values)
    (hc : p.topology.relationshipCount = ((List.range p.nodes.nodeCount).map fun v => (targets v).length).sum)
    (fallback : Float) : (whole p).Answers fallback (p.seen targets values fallback) where
  visitValues _ hv _ := Projection.visitValues_of_shows h hv fallback
  visit v hv _ visitor s := by
    rw [h.targets_seen hv]
    exact Projection.visit_of_shows h hv visitor s
  degree v hv := by
    rw [h.length_seen hv]
    exact Projection.degree_of_shows h hv
  relationshipCount := by
    rw [relationshipCount, hc]
    congr 2
    refine List.map_congr_left fun v hv => ?_
    exact (h.length_seen (List.mem_range.mp hv) fallback).symm
  hasRelationship v hv w hw := by
    rw [h.targets_seen hv]
    exact Projection.hasRelationship_of_serves h.serves hv hw
  relationshipValue _ hv w _ := Projection.relationshipValue_of_shows h hv w fallback

-- What is left of a pair among some nodes, which are known by their places.
def translate (roots : List Nat) (x : Nat × Float) : Option (Nat × Float) :=
  (roots.idxOf? x.1).map (·, x.2)

-- What a visitor who knows some nodes only sees of the pairs that are seen of their roots.
def seenIn (roots : List Nat) (seen : Nat → List (Nat × Float)) (v : Nat) : List (Nat × Float) :=
  (seen (roots.getD v 0)).filterMap (translate roots)

theorem targets_seenIn (roots : List Nat) (seen : Nat → List (Nat × Float)) (v : Nat) :
    (seenIn roots seen v).map (·.1) = ((seen (roots.getD v 0)).map (·.1)).filterMap (roots.idxOf? ·) := by
  rw [seenIn, List.map_filterMap, List.filterMap_map]
  congr 1
  funext x
  rw [translate, Option.map_map, Function.comp_apply]
  exact Option.map_id'

theorem idxOf?_range {n w : Nat} (h : w < n) : (List.range n).idxOf? w = some w :=
  List.idxOf?_eq_some_iff.mpr ⟨by simpa using h, by simp, by simp; omega⟩

-- Who knows all nodes sees everything.
theorem seenIn_range {n : Nat} {seen : Nat → List (Nat × Float)} {v : Nat} (hv : v < n)
    (h : ∀ x ∈ seen v, x.1 < n) : seenIn (List.range n) seen v = seen v := by
  have hroot : (List.range n).getD v 0 = v := by simp [hv]
  have hf : ∀ x ∈ seen v, translate (List.range n) x = some x := fun x hx => by
    rw [translate, idxOf?_range (h x hx)]
    rfl
  rw [seenIn, hroot, List.filterMap_congr hf, List.filterMap_some]

theorem run_translate (hs : sub.Selects m keep) {σ : Type} (visitor : σ → Nat → Float → σ × Bool) (s : σ)
    (pairs : List (Nat × Float)) :
    Visitor.run (fun s (x : Nat × Float) => match sub.toFiltered x.1 with
      | some t => visitor s t x.2
      | none => (s, true)) pairs s =
      Visitor.run (fun s x => visitor s x.1 x.2) (pairs.filterMap (translate sub.roots.toList)) s := by
  rw [← Visitor.run_filterMap]
  congr 1
  funext s x
  rw [translate, ← hs.toFiltered_eq_idxOf?]
  cases sub.toFiltered x.1 <;> rfl

theorem firstValue_filterMap (hs : sub.Selects m keep) {root w : Nat} (hw : sub.roots.toList[w]? = some root)
    (pairs : List (Nat × Float)) (fallback : Float) :
    firstValue (pairs.filterMap (translate sub.roots.toList)) w fallback =
      firstValue pairs root fallback := by
  have hf : ∀ x : Nat × Float, (translate sub.roots.toList x).any (fun y => decide (y.1 = w)) =
      decide (x.1 = root) := by
    intro x
    rw [Bool.eq_iff_iff, Option.any_eq_true, decide_eq_true_eq]
    simp only [translate, ← hs.toFiltered_eq_idxOf?, Option.map_eq_some_iff, decide_eq_true_eq]
    constructor
    case mp =>
      intro ⟨y, ⟨t, ht, hy⟩, hyw⟩
      have ht := hs.toFiltered_eq_some.mp ht
      have htw : t = w := by rw [← hyw, ← hy]
      exact Option.some.inj (ht.symm.trans (htw ▸ hw))
    case mpr => exact fun hx => ⟨(w, x.2), ⟨w, hs.toFiltered_eq_some.mpr (hx ▸ hw), rfl⟩, rfl⟩
  rw [firstValue, firstValue, List.find?_filterMap]
  simp only [hf]
  cases hp : pairs.find? fun x => decide (x.1 = root)
  case none => rfl
  case some x =>
    have hx : x.1 = root := by simpa using List.find?_some hp
    have ht : sub.toFiltered x.1 = some w := hs.toFiltered_eq_some.mpr (hx ▸ hw)
    simp [translate, ← hs.toFiltered_eq_idxOf?, ht]

section Restricted

variable {fallback : Float} {v w root : Nat}

theorem seenIn_of_root {roots : List Nat} (hr : roots[v]? = some root) (seen : Nat → List (Nat × Float)) :
    seenIn roots seen v = (seen root).filterMap (translate roots) := by
  rw [seenIn, List.getD_eq_getElem?_getD, hr, Option.getD_some]

theorem visitValues_restricted (h : p.Shows p.nodes.nodeCount targets values) (hs : sub.Selects m keep)
    (hr : sub.roots.toList[v]? = some root) (hlt : root < p.nodes.nodeCount) {σ : Type}
    (visitor : σ → Nat → Float → σ × Bool) (s : σ) :
    (restricted p sub).visitValues v fallback visitor s = .ok (Visitor.run (fun s x => visitor s x.1 x.2)
      (seenIn sub.roots.toList (p.seen targets values fallback) v) s) := by
  rw [visitValues, Subset.toRoot_eq_ok.mpr hr, Outcome.ok_bind, Projection.visitValues_of_shows h hlt,
    seenIn_of_root hr]
  exact congrArg Except.ok (run_translate hs visitor s _)

theorem visit_restricted (h : p.Shows p.nodes.nodeCount targets values) (hs : sub.Selects m keep)
    (hr : sub.roots.toList[v]? = some root) (hlt : root < p.nodes.nodeCount) {σ : Type}
    (visitor : σ → Nat → σ × Bool) (s : σ) :
    (restricted p sub).visit v visitor s = .ok (Visitor.run visitor
      ((seenIn sub.roots.toList (p.seen targets values fallback) v).map (·.1)) s) := by
  rw [visit, Subset.toRoot_eq_ok.mpr hr, Outcome.ok_bind, Projection.visit_of_shows h hlt, targets_seenIn,
    List.getD_eq_getElem?_getD, hr, Option.getD_some, h.targets_seen hlt, ← Visitor.run_filterMap]
  congr 2
  funext s t
  rw [← hs.toFiltered_eq_idxOf?]
  cases sub.toFiltered t <;> rfl

-- The degree is counted by a visitor who never stops.
theorem degree_restricted (h : p.Shows p.nodes.nodeCount targets values) (hs : sub.Selects m keep)
    (hr : sub.roots.toList[v]? = some root) (hlt : root < p.nodes.nodeCount) :
    (restricted p sub).degree v =
      .ok (seenIn sub.roots.toList (p.seen targets values fallback) v).length := by
  rw [degree, @visit_restricted _ _ _ _ _ _ fallback _ _ h hs hr hlt, Outcome.ok_bind, Visitor.run_always]
  simp

theorem hasRelationship_restricted (h : p.Shows p.nodes.nodeCount targets values) (hs : sub.Selects m keep)
    (hr : sub.roots.toList[v]? = some root) (hlt : root < p.nodes.nodeCount) {root' : Nat}
    (hr' : sub.roots.toList[w]? = some root') (hlt' : root' < p.nodes.nodeCount) :
    (restricted p sub).hasRelationship v w =
      .ok (decide (w ∈ (seenIn sub.roots.toList (p.seen targets values fallback) v).map (·.1))) := by
  rw [hasRelationship, Subset.toRoot_eq_ok.mpr hr, Outcome.ok_bind, Subset.toRoot_eq_ok.mpr hr', Outcome.ok_bind,
    Projection.hasRelationship_of_serves h.serves hlt hlt', targets_seenIn, List.getD_eq_getElem?_getD, hr,
    Option.getD_some, h.targets_seen hlt]
  congr 1
  rw [decide_eq_decide, List.mem_filterMap]
  simp only [← hs.toFiltered_eq_idxOf?, hs.toFiltered_eq_some]
  constructor
  case mp => exact fun hm => ⟨root', hm, hr'⟩
  case mpr =>
    intro ⟨t, ht, htw⟩
    exact Option.some.inj (hr'.symm.trans htw) ▸ ht

theorem relationshipValue_restricted (h : p.Shows p.nodes.nodeCount targets values) (hs : sub.Selects m keep)
    (hr : sub.roots.toList[v]? = some root) (hlt : root < p.nodes.nodeCount) {root' : Nat}
    (hr' : sub.roots.toList[w]? = some root') :
    (restricted p sub).relationshipValue v w fallback =
      .ok (firstValue (seenIn sub.roots.toList (p.seen targets values fallback) v) w fallback) := by
  rw [relationshipValue, Subset.toRoot_eq_ok.mpr hr, Outcome.ok_bind, Subset.toRoot_eq_ok.mpr hr', Outcome.ok_bind,
    Projection.relationshipValue_of_shows h hlt, seenIn_of_root hr, firstValue_filterMap hs hr']
  rfl

theorem restricted_answers (h : p.Shows p.nodes.nodeCount targets values) (hs : sub.Selects p.nodes keep)
    (fallback : Float) :
    (restricted p sub).Answers fallback (seenIn sub.roots.toList (p.seen targets values fallback)) where
  visitValues v hv _ visitor s :=
    have ⟨_, hr, hlt⟩ := hs.exists_root hv
    visitValues_restricted h hs hr hlt visitor s
  visit v hv _ visitor s :=
    have ⟨_, hr, hlt⟩ := hs.exists_root hv
    visit_restricted h hs hr hlt visitor s
  degree v hv :=
    have ⟨_, hr, hlt⟩ := hs.exists_root hv
    degree_restricted h hs hr hlt
  relationshipCount := by
    have hf := Outcome.foldlM_add (fun v hv =>
      have ⟨_, hr, hlt⟩ := hs.exists_root (List.mem_range.mp hv)
      @degree_restricted _ _ _ _ _ _ fallback _ _ h hs hr hlt) 0
    rwa [Nat.zero_add] at hf
  hasRelationship v hv w hw :=
    have ⟨_, hr, hlt⟩ := hs.exists_root hv
    have ⟨_, hr', hlt'⟩ := hs.exists_root hw
    hasRelationship_restricted h hs hr hlt hr' hlt'
  relationshipValue v hv w hw :=
    have ⟨_, hr, hlt⟩ := hs.exists_root hv
    have ⟨_, hr', _⟩ := hs.exists_root hw
    relationshipValue_restricted h hs hr hlt hr'

end Restricted

end Part

end PropertyGraph
