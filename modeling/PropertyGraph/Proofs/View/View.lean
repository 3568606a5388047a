import PropertyGraph.Proofs.View.Part
import PropertyGraph.View.View

namespace PropertyGraph

-- The pairs of target and value that a visitor of each node sees, if the fallback stands for missing values,
-- and the answers that go with them.
structure View.Answers (view : View) (fallback : Float) (seen : Nat → List (Nat × Float)) : Prop where
  visitValues : ∀ v < view.nodeCount, ∀ {σ : Type} (visitor : σ → Nat → Float → σ × Bool) (s : σ),
    view.visitValues v fallback visitor s = .ok (Visitor.run (fun s x => visitor s x.1 x.2) (seen v) s)
  visit : ∀ v < view.nodeCount, ∀ {σ : Type} (visitor : σ → Nat → σ × Bool) (s : σ),
    view.visit v visitor s = .ok (Visitor.run visitor ((seen v).map (·.1)) s)
  degree : ∀ v < view.nodeCount, view.degree v = .ok (seen v).length
  relationshipCount :
    view.relationshipCount = .ok ((List.range view.nodeCount).map fun v => (seen v).length).sum
  hasRelationship : ∀ v < view.nodeCount, ∀ w < view.nodeCount,
    view.hasRelationship v w = .ok (decide (w ∈ (seen v).map (·.1)))
  relationshipValue : ∀ v < view.nodeCount, ∀ w < view.nodeCount,
    view.relationshipValue v w fallback = .ok (firstValue (seen v) w fallback)

section FirstValue

variable {α : Type} {seen : α → List (Nat × Float)} {fallback : Float} {t : Nat}

theorem firstValue_append_of_mem {xs ys : List (Nat × Float)} (h : t ∈ xs.map (·.1)) :
    firstValue (xs ++ ys) t fallback = firstValue xs t fallback := by
  have ⟨x, hx, hxt⟩ := List.mem_map.mp h
  have hs : (xs.find? (·.1 = t)).isSome := List.find?_isSome.mpr ⟨x, hx, by simpa using hxt⟩
  have ⟨y, hy⟩ := Option.isSome_iff_exists.mp hs
  rw [firstValue, firstValue, List.find?_append, hy]
  rfl

theorem firstValue_append_of_not_mem {xs ys : List (Nat × Float)} (h : t ∉ xs.map (·.1)) :
    firstValue (xs ++ ys) t fallback = firstValue ys t fallback := by
  have hn : xs.find? (·.1 = t) = none := by
    rw [List.find?_eq_none]
    exact fun x hx ht => h (List.mem_map.mpr ⟨x, hx, of_decide_eq_true ht⟩)
  rw [firstValue, firstValue, List.find?_append, hn]
  rfl

-- Where the target is seen first decides about the value.
theorem firstValue_flatMap (as : List α) :
    firstValue (as.flatMap seen) t fallback =
      match as.find? (fun a => decide (t ∈ (seen a).map (·.1))) with
      | some a => firstValue (seen a) t fallback
      | none => fallback := by
  induction as
  case nil => rfl
  case cons a as hi =>
    rw [List.flatMap_cons, List.find?_cons]
    by_cases h : t ∈ (seen a).map (·.1)
    case pos => simp only [firstValue_append_of_mem h, h, decide_true]
    case neg => simp only [firstValue_append_of_not_mem h, hi, h, decide_false]

end FirstValue

namespace View

variable {parts : List Part} {seen : Part → Nat → List (Nat × Float)} {v w n : Nat} {fallback : Float}

theorem visitParts_eq {σ α : Type} {visitor : σ → α → σ × Bool} {items : Part → List α}
    {visitPart : Part → σ → Except Fault (σ × Bool)}
    (h : ∀ p ∈ parts, ∀ s, visitPart p s = .ok (Visitor.run visitor (items p) s)) (s : σ) :
    visitParts visitPart parts s = .ok (Visitor.run visitor (parts.flatMap items) s) := by
  induction parts generalizing s
  case nil => rfl
  case cons p ps hi =>
    have ⟨hp, hps⟩ := List.forall_mem_cons.mp h
    rw [visitParts, hp, Outcome.ok_bind, List.flatMap_cons, Visitor.run_append]
    cases Visitor.run visitor (items p) s with | mk s' more => ?_
    cases more
    case false => rfl
    case true => exact hi hps s'

theorem partWith?_eq {holds : Part → Bool} (h : ∀ p ∈ parts, p.hasRelationship v w = .ok (holds p)) :
    partWith? v w parts = .ok (parts.find? holds) := by
  induction parts
  case nil => rfl
  case cons p ps hi =>
    have ⟨hp, hps⟩ := List.forall_mem_cons.mp h
    rw [partWith?, hp, Outcome.ok_bind, List.find?_cons]
    cases holds p
    case true => rfl
    case false => exact hi hps

theorem sum_map_sum (f : Part → Nat → Nat) (parts : List Part) (vs : List Nat) :
    (parts.map fun p => (vs.map (f p)).sum).sum = (vs.map fun v => (parts.map fun p => f p v).sum).sum := by
  induction parts
  case nil => simp
  case cons p ps hi => simp only [List.map_cons, List.sum_cons, List.sum_map_add, hi]

theorem answers_of_parts {view : View}
    (h : ∀ p ∈ view.parts, p.Answers fallback (seen p) ∧ p.nodeCount = view.nodeCount) :
    view.Answers fallback fun v => view.parts.flatMap (seen · v) := by
  have hh : view.head ∈ view.parts := List.mem_cons_self
  have hin : ∀ v < view.nodeCount, ∀ p ∈ view.parts, v < p.nodeCount := fun v hv p hp =>
    (h p hp).right.symm ▸ hv
  have hwith : ∀ v < view.nodeCount, ∀ w < view.nodeCount, partWith? v w view.parts =
      .ok (view.parts.find? fun p => decide (w ∈ (seen p v).map (·.1))) := fun v hv w hw =>
    partWith?_eq fun p hp => (h p hp).left.hasRelationship v (hin v hv p hp) w (hin w hw p hp)
  refine ⟨fun v hv σ visitor s => ?visitValues, fun v hv σ visitor s => ?visit, fun v hv => ?degree, ?count,
    fun v hv w hw => ?has, fun v hv w hw => ?value⟩
  case visitValues =>
    exact visitParts_eq (fun p hp s => (h p hp).left.visitValues v (hin v hv p hp) visitor s) s
  case visit =>
    rw [List.map_flatMap]
    exact visitParts_eq (fun p hp s => (h p hp).left.visit v (hin v hv p hp) visitor s) s
  case degree =>
    have hd := Outcome.foldlM_add (fun p hp => (h p hp).left.degree v (hin v hv p hp)) 0
    rw [Nat.zero_add, ← List.length_flatMap] at hd
    exact hd
  case count =>
    have hc := Outcome.foldlM_add (fun p hp => (h p hp).left.relationshipCount) 0
    have hn : ∀ p ∈ view.parts, ((List.range p.nodeCount).map fun v => (seen p v).length).sum =
        ((List.range view.nodeCount).map fun v => (seen p v).length).sum := fun p hp => by
      rw [(h p hp).right]
    rw [Nat.zero_add, List.map_congr_left hn, sum_map_sum] at hc
    simp only [List.length_flatMap]
    exact hc
  case has =>
    rw [hasRelationship, hwith v hv w hw, Outcome.ok_bind, Outcome.pure_eq_ok, List.map_flatMap]
    congr 1
    rw [Bool.eq_iff_iff, List.find?_isSome, decide_eq_true_eq, List.mem_flatMap]
    simp only [decide_eq_true_eq]
  case value =>
    cases view
    case single p =>
      have hp : p ∈ (single p).parts := List.mem_cons_self
      have hseen : (single p).parts.flatMap (seen · v) = seen p v := List.flatMap_singleton ..
      rw [hseen]
      exact (h p hp).left.relationshipValue v hv w hw
    case union first rest =>
      rw [firstValue_flatMap, relationshipValue, hwith v hv w hw, Outcome.ok_bind]
      cases hf : (union first rest).parts.find? fun p => decide (w ∈ (seen p v).map (·.1))
      case none => rfl
      case some p =>
        have hp := List.mem_of_find?_eq_some hf
        exact (h p hp).left.relationshipValue v (hin v hv p hp) w (hin w hw p hp)

theorem single_answers {p : Part} {seen : Nat → List (Nat × Float)} (h : p.Answers fallback seen) :
    (single p).Answers fallback seen := by
  have hp : ∀ q ∈ (single p).parts, q.Answers fallback seen ∧ q.nodeCount = (single p).nodeCount := by
    intro q hq
    have hq : q = p := List.mem_singleton.mp hq
    exact hq.symm ▸ ⟨h, rfl⟩
  have ha := @answers_of_parts (fun _ => seen) fallback (single p) hp
  have hs : (fun v => (single p).parts.flatMap fun _ => seen v) = seen :=
    funext fun v => List.flatMap_singleton ..
  exact hs ▸ ha

theorem partsOfAll_map_single (ps : List Part) : partsOfAll (ps.map single) = ps := by
  induction ps
  case nil => rfl
  case cons p ps hi => rw [List.map_cons, partsOfAll, hi]; rfl

theorem exists_unionOf (hne : parts ≠ []) (h : ∀ p ∈ parts, p.nodeCount = n) :
    ∃ view, unionOf (parts.map single) = .ok view := by
  cases parts with
  | nil => exact absurd rfl hne
  | cons p ps =>
    cases ps with
    | nil => exact ⟨single p, rfl⟩
    | cons q ps =>
      have hf : ((p :: q :: ps).map single).find? (·.nodeCount ≠ (single p).nodeCount) = none := by
        rw [List.find?_map, Option.map_eq_none_iff, List.find?_eq_none]
        intro r hr
        have hn : (single r).nodeCount = (single p).nodeCount :=
          (h r hr).trans (h p List.mem_cons_self).symm
        simpa using hn
      rw [List.map_cons, List.find?_cons_of_neg (by simp)] at hf
      refine ⟨union (single p) ((q :: ps).map single), ?_⟩
      rw [List.map_cons, List.map_cons, unionOf.eq_3 _ _ (by simp), ← List.map_cons, hf]

theorem parts_of_unionOf {view : View} (h : unionOf (parts.map single) = .ok view) :
    view.parts = parts ∧ ∀ p ∈ parts, p.nodeCount = view.nodeCount := by
  cases parts with
  | nil => cases h
  | cons p ps =>
    cases ps with
    | nil =>
      have h : single p = view := Except.ok.inj h
      subst h
      exact ⟨rfl, fun q hq => congrArg Part.nodeCount (List.mem_singleton.mp hq)⟩
    | cons q ps =>
      rw [List.map_cons, List.map_cons, unionOf.eq_3 _ _ (by simp)] at h
      split at h
      case h_1 => cases h
      case h_2 hf =>
        have h := Except.ok.inj h
        have hp : view.parts = p :: q :: ps := by
          rw [← h, ← List.map_cons, parts, partsOf, partsOfAll_map_single]
          rfl
        have hn : view.nodeCount = p.nodeCount := by
          rw [nodeCount, head, ← h]
          rfl
        refine ⟨hp, fun r hr => ?_⟩
        rw [hn]
        cases List.mem_cons.mp hr
        case inl he => rw [he]
        case inr hr =>
          rw [← List.map_cons, List.find?_eq_none] at hf
          have hne := hf (single r) (List.mem_map_of_mem hr)
          exact not_not.mp fun hn => hne (decide_eq_true hn)

end View

end PropertyGraph
