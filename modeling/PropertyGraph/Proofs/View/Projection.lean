import Mathlib.Data.List.Zip
import PropertyGraph.Proofs.Triangle.Intersect
import PropertyGraph.Proofs.View.Visitor

namespace PropertyGraph

-- The value of the first pair with this target.
def firstValue (pairs : List (Nat × Float)) (target : Nat) (fallback : Float) : Float :=
  ((pairs.find? (·.1 = target)).map (·.2)).getD fallback

-- The values of every node are as many as its targets.
def Projection.Aligned (p : Projection) : Prop :=
  ∀ runs, p.values = some runs → ∀ v < p.nodes.nodeCount, ∃ values,
    runs.valuesOf v = .ok values ∧ p.topology.degree v = .ok values.size

namespace Projection

-- The runs of the targets stand where the topology says, and the values stand beside them.
structure Shows (p : Projection) (n : Nat) (targets : Nat → List Nat) (values : Nat → List Float) :
    Prop where
  serves : p.topology.Serves n targets
  values : ∀ runs, p.values = some runs → ∀ v < n,
    runs.valuesOf v = .ok (values v).toArray ∧ (values v).length = (targets v).length

-- Targets with their values, or with the fallback where no property was chosen.
def pairs (p : Projection) (targets : List Nat) (values : List Float) (fallback : Float) :
    List (Nat × Float) :=
  if p.values.isSome then targets.zip values else targets.map (·, fallback)

-- Targets with the values at their places, or with the fallback where there is none.
def filled (ts : List Nat) (xs : Array Float) (fallback : Float) : List (Nat × Float) :=
  ts.zipIdx.map fun x => (x.1, xs[x.2]?.getD fallback)

variable {σ : Type} {p : Projection} {n v : Nat} {targets : Nat → List Nat} {values : Nat → List Float}

theorem targets_pairs {ts : List Nat} {xs : List Float} (h : p.values.isSome → xs.length = ts.length)
    (fallback : Float) : (p.pairs ts xs fallback).map (·.1) = ts := by
  rw [pairs]
  split
  case isTrue hv => exact List.map_fst_zip (Nat.le_of_eq (h hv).symm)
  case isFalse => simp [Function.comp_def]

theorem topology_visit (h : p.topology.Serves n targets) (hv : v < n)
    (visitor : σ → Nat → Nat → σ × Bool) (s : σ) :
    p.topology.visit v visitor s =
      .ok (Visitor.run (fun s (x : Nat × Nat) => visitor s x.2 x.1) (targets v).zipIdx s) := by
  have ⟨offset, ho, hh⟩ := h.holds v hv
  have ⟨c, hc, hs⟩ := Arena.cursor_of_holds hh
  rw [Topology.visit, Topology.cursor, ho, Outcome.ok_bind, hc, Outcome.ok_bind, hs.remaining]
  exact Topology.visitFrom_of_shows visitor 0 s hs

theorem visit_of_serves (h : p.topology.Serves n targets) (hv : v < n) (visitor : σ → Nat → σ × Bool) (s : σ) :
    p.visit v visitor s = .ok (Visitor.run visitor (targets v) s) := by
  rw [visit, topology_visit h hv, Visitor.run_map visitor s (fun x : Nat × Nat => x.1)]
  rw [List.zipIdx_map_fst]

theorem visit_of_shows (h : p.Shows n targets values) (hv : v < n) (visitor : σ → Nat → σ × Bool)
    (s : σ) : p.visit v visitor s = .ok (Visitor.run visitor (targets v) s) :=
  visit_of_serves h.serves hv visitor s

theorem filled_eq_zip (ts : List Nat) (xs : List Float) (fallback : Float) (h : xs.length = ts.length) :
    filled ts xs.toArray fallback = ts.zip xs := by
  apply List.ext_getElem
  case hl => simp [filled, h]
  case h =>
    intro i h₁ h₂
    have hi : i < xs.length := by simp at h₂; omega
    simp [filled, hi]

-- A column need not have a value for each target: those behind its last one get the fallback.
theorem visitValues_of_serves (h : p.topology.Serves n targets) (hv : v < n) {runs : ValueRuns} {xs : Array Float}
    (hp : p.values = some runs) (hx : runs.valuesOf v = .ok xs) (fallback : Float)
    (visitor : σ → Nat → Float → σ × Bool) (s : σ) :
    p.visitValues v fallback visitor s =
      .ok (Visitor.run (fun s x => visitor s x.1 x.2) (filled (targets v) xs fallback) s) := by
  rw [visitValues, hp]
  simp only [hx, Outcome.ok_bind]
  rw [topology_visit h hv, filled,
    Visitor.run_map (fun s (x : Nat × Float) => visitor s x.1 x.2) s fun x : Nat × Nat =>
      (x.1, xs[x.2]?.getD fallback)]

theorem visitValues_of_shows (h : p.Shows n targets values) (hv : v < n) (fallback : Float)
    (visitor : σ → Nat → Float → σ × Bool) (s : σ) :
    p.visitValues v fallback visitor s =
      .ok (Visitor.run (fun s (x : Nat × Float) => visitor s x.1 x.2)
        (p.pairs (targets v) (values v) fallback) s) := by
  rw [pairs]
  cases hp : p.values
  case none =>
    rw [visitValues, hp]
    simp only [Outcome.pure_eq_ok, Outcome.ok_bind]
    rw [topology_visit h.serves hv,
      Visitor.run_map (fun s (x : Nat × Float) => visitor s x.1 x.2) s fun x : Nat × Nat =>
        (x.1, (#[] : Array Float)[x.2]?.getD fallback)]
    have he : (targets v).zipIdx.map (fun x => (x.1, (#[] : Array Float)[x.2]?.getD fallback)) =
        (targets v).map (·, fallback) := by
      apply List.ext_getElem <;> simp
    rw [he]
    rfl
  case some runs =>
    have ⟨hx, hl⟩ := h.values runs hp v hv
    rw [visitValues_of_serves h.serves hv hp hx, filled_eq_zip _ _ _ hl]
    rfl

theorem degree_of_shows (h : p.Shows n targets values) (hv : v < n) :
    p.topology.degree v = .ok (targets v).length := by
  have ⟨offset, ho, hh⟩ := h.serves.holds v hv
  rw [Topology.degree, ho, Outcome.ok_bind, Arena.degree_of_holds hh]

-- The probe for an id stops there or behind it, or says with the greatest number that it is exhausted. So it answers
-- with the id if that is a target, and also if it is this number.
theorem hasRelationship_eq_of_serves (h : p.topology.Serves n targets) (hv : v < n) (t : Nat) :
    p.hasRelationship v t = .ok (decide (t ∈ targets v ∨ t = notFound)) := by
  obtain ⟨offset, ho, hh⟩ := h.holds v hv
  obtain ⟨c, hr, hs⟩ := Arena.reset_stands .exhausted hh
  have hc : p.topology.cursor v = .ok c := by
    rw [Topology.cursor, ho, Outcome.ok_bind, Arena.cursor, hr]
  obtain ⟨c', hm, _⟩ := Intersection.move_advance t hs
  rw [hasRelationship, hc, Outcome.ok_bind, hm]
  simp only [Outcome.ok_bind, Outcome.pure_eq_ok]
  congr 1
  rw [decide_eq_decide, Intersection.headOr]
  cases hf : (targets v).filter (t ≤ ·)
  case nil =>
    have hnil : ∀ i ∈ targets v, ¬t ≤ i := by simpa using hf
    have ht : t ∉ targets v := fun hm => hnil t hm (Nat.le_refl t)
    rw [or_iff_right ht]
    exact eq_comm
  case cons i is =>
    have hi : i ∈ (targets v).filter (t ≤ ·) := hf ▸ List.mem_cons_self
    obtain ⟨him, hti⟩ := List.mem_filter.mp hi
    have hti : t ≤ i := by simpa using hti
    have hne : t ≠ notFound := by
      have : i < notFound := Nat.lt_of_lt_of_le (h.inside v hv i him) h.bounded
      omega
    rw [or_iff_left hne]
    constructor
    case mp =>
      intro he
      have he : i = t := he
      exact he ▸ him
    case mpr =>
      intro htm
      have htf : t ∈ (targets v).filter (t ≤ ·) := List.mem_filter.mpr ⟨htm, by simp⟩
      have hp : (i :: is).Pairwise (· ≤ ·) := hf ▸ hs.ascending.filter _
      have hle : i ≤ t := by
        cases List.mem_cons.mp (hf ▸ htf)
        case inl he => exact Nat.le_of_eq he.symm
        case inr hm => exact (List.pairwise_cons.mp hp).left t hm
      exact Nat.le_antisymm hle hti

theorem hasRelationship_of_serves (h : p.topology.Serves n targets) (hv : v < n) {t : Nat} (ht : t < n) :
    p.hasRelationship v t = .ok (decide (t ∈ targets v)) := by
  have hne : t ≠ notFound := Nat.ne_of_lt (Nat.lt_of_lt_of_le ht h.bounded)
  rw [hasRelationship_eq_of_serves h hv]
  simp [hne]

theorem find?_filled (ts : List Nat) (xs : Array Float) (t : Nat) (fallback : Float) :
    ((filled ts xs fallback).find? (·.1 = t)).map (·.2) =
      (ts.zipIdx.find? (·.1 = t)).map fun x => xs[x.2]?.getD fallback := by
  rw [filled, List.find?_map, Option.map_map]
  rfl

theorem relationshipValue_of_serves (h : p.topology.Serves n targets) (hv : v < n) {runs : ValueRuns}
    {xs : Array Float} (hp : p.values = some runs) (hx : runs.valuesOf v = .ok xs) (t : Nat) (fallback : Float) :
    p.relationshipValue v t fallback = .ok (firstValue (filled (targets v) xs fallback) t fallback) := by
  have hfind : (Visitor.run (fun (_ : Option Nat) (x : Nat × Nat) =>
      if x.1 = t then (some x.2, false) else (none, true)) (targets v).zipIdx none).1 =
        ((targets v).zipIdx.find? (·.1 = t)).map (·.2) := by
    have := Visitor.run_find (fun x : Nat × Nat => decide (x.1 = t)) (·.2) (targets v).zipIdx
    simpa using this
  rw [relationshipValue, firstValue, hp, find?_filled]
  simp only [topology_visit h hv, Outcome.ok_bind]
  generalize Visitor.run _ (targets v).zipIdx none = answer at hfind
  have ⟨at?, done⟩ := answer
  simp only at hfind
  subst hfind
  cases (targets v).zipIdx.find? (·.1 = t)
  case none => rfl
  case some x => simp [hx]

theorem relationshipValue_of_shows (h : p.Shows n targets values) (hv : v < n) (t : Nat)
    (fallback : Float) :
    p.relationshipValue v t fallback =
      .ok (firstValue (p.pairs (targets v) (values v) fallback) t fallback) := by
  rw [pairs]
  cases hp : p.values
  case none =>
    have hf : (((targets v).map (·, fallback)).find? (·.1 = t)).map (·.2) =
        ((targets v).find? (· = t)).map fun _ => fallback := by
      rw [List.find?_map, Option.map_map]
      rfl
    rw [relationshipValue, firstValue, hp]
    simp only [Option.isSome_none, Bool.false_eq_true, if_false, hf]
    cases (targets v).find? (· = t) <;> rfl
  case some runs =>
    have ⟨hx, hl⟩ := h.values runs hp v hv
    rw [relationshipValue_of_serves h.serves hv hp hx, filled_eq_zip _ _ _ hl]
    rfl

end Projection

end PropertyGraph
