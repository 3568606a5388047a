import PropertyGraph.Proofs.Loader.Loading
import PropertyGraph.Proofs.Transcript

namespace PropertyGraph

namespace Loader

-- The type of a relationship was not declared, or one of its ends is no node and does not become one.
def Rejects (l : Loader) : Call → Prop
  | .addRelationship t source target _ =>
    l.types.contains t = false ∨
      l.implicitNodes = false ∧ (l.nodes.get? source = none ∨ l.nodes.get? target = none)
  | _ => False

variable {l l' : Loader} {c : Call} {f : Fault} {external node : Nat}

-- If new ends do not become nodes, they are looked up only.
theorem endpoint_of_explicit (hi : l.implicitNodes = false) (external : Nat) :
    l.endpoint external = match l.nodes.get? external with
      | some node => (.ok node, l)
      | none => (.error (.unknownEndpoint external), l) := by
  rw [endpoint, hi]
  rfl

theorem explicit_of_endpoint_error (h : l.endpoint external = (.error f, l')) (hf : f ≠ .tooManyNodes) :
    l.implicitNodes = false := by
  rw [endpoint] at h
  split at h
  case h_1 => cases h
  case h_2 =>
    split at h
    case isFalse hi => exact Bool.eq_false_of_not_eq_true hi
    case isTrue =>
      have ⟨_, _, he, _⟩ := IdMap.Builder.addNode_eq_error.mp (addNode_eq_error.mp h).left
      exact absurd he hf

theorem eq_of_endpoint_explicit (hi : l.implicitNodes = false) (h : l.endpoint external = (.ok node, l')) :
    l' = l := by
  rw [endpoint_of_explicit hi] at h
  cases hg : l.nodes.get? external <;> rw [hg] at h <;> cases h
  rfl

-- The source of a relationship is left behind only where there are no more numbers for its target.
theorem attempt_of_error (h : l.call c = .error f) (hf : f ≠ .tooManyNodes) : l.attempt c = l := by
  cases c
  case addNode external labels values =>
    obtain ⟨l', hr⟩ := Outcome.after_eq_error.mp (call_addNode .. ▸ h)
    exact (congrArg Prod.snd hr).trans (addNode_eq_error.mp hr).right.symm
  case addRelationship t source target values =>
    obtain ⟨l', hr⟩ := Outcome.after_eq_error.mp (call_addRelationship .. ▸ h)
    refine (congrArg Prod.snd hr).trans ?_
    obtain ⟨_, _, he⟩ | ⟨_, hs | ⟨s, l₁, hs, hd⟩⟩ := addRelationship_eq_error.mp hr
    · exact he
    · exact endpoint_of_error hs
    · have hi := (endpoint_enters hs).implicitNodes.symm.trans (explicit_of_endpoint_error hd hf)
      exact (endpoint_of_error hd).trans (eq_of_endpoint_explicit hi hs)
  all_goals cases h

theorem perform_of_error (h : l.call c = .error f) (hf : f ≠ .tooManyNodes) : l.perform c = (.error f, l) := by
  obtain ⟨l', hp⟩ := call_eq_error.mp h
  rw [hp, ← attempt_of_error h hf, attempt, hp]

theorem call_of_rejects (h : l.Rejects c) : ∃ f, l.call c = .error f ∧ f ≠ .tooManyNodes := by
  cases c
  case addRelationship t source target values =>
    rw [call_addRelationship, addRelationship]
    split_ifs with ht
    case pos => exact ⟨_, rfl, Fault.noConfusion⟩
    case neg =>
      have ht : l.types.contains t = true := by simpa using ht
      obtain ⟨hi, hg⟩ := h.resolve_left (by simp [ht])
      rw [endpoint_of_explicit hi]
      cases hs : l.nodes.get? source
      case none => exact ⟨_, rfl, Fault.noConfusion⟩
      case some s =>
        have hd := hg.resolve_left (by simp [hs])
        simp only [endpoint_of_explicit hi, hd]
        exact ⟨_, rfl, Fault.noConfusion⟩
  all_goals exact h.elim

theorem perform_of_rejects (h : l.Rejects c) : ∃ f, l.perform c = (.error f, l) := by
  have ⟨f, hf, hne⟩ := call_of_rejects h
  exact ⟨f, perform_of_error hf hne⟩

end Loader

-- A call that is rejected for what it asks leaves the loader or the batch as it was. So it makes no difference to what
-- is answered later and to what is built in the end, whichever of these calls are left out.
theorem rejected_calls_leave_nothing :
    (∀ (l : Loader) (c : Loader.Call), l.Rejects c → ∃ f, l.perform c = (.error f, l)) ∧
      (∀ (b : Batch) (c : Batch.Call), b.Rejects c → ∃ f, b.perform c = (.error f, b)) ∧
      (∀ (l : Loader) (calls kept : List Loader.Call), Strikes Loader.perform Loader.Rejects l calls kept →
        SameWithout Loader.perform l calls kept) ∧
      ∀ (b : Batch) (calls kept : List Batch.Call), Strikes Batch.perform Batch.Rejects b calls kept →
        SameWithout Batch.perform b calls kept :=
  ⟨fun _ _ h => Loader.perform_of_rejects h, fun _ _ h => Batch.perform_of_rejects h,
    fun _ _ _ h => h.sameWithout fun _ _ => Loader.perform_of_rejects,
    fun _ _ _ h => h.sameWithout fun _ _ => Batch.perform_of_rejects⟩

-- The source is known and the target is not. The same relationship is added later, when its target may become a node.
theorem rejected_calls_leave_nothing_of_unknown_target :
    let calls : List Loader.Call := [.declare ⟨"LINKS"⟩ .undirected, .addNode 1 [] [],
      .addRelationship ⟨"LINKS"⟩ 1 2 [("w", 0.5)], .implicitNodes true, .addRelationship ⟨"LINKS"⟩ 1 2 []]
    let kept : List Loader.Call := [.declare ⟨"LINKS"⟩ .undirected, .addNode 1 [] [], .implicitNodes true,
      .addRelationship ⟨"LINKS"⟩ 1 2 []]
    Strikes Loader.perform Loader.Rejects {} calls kept ∧ SameWithout Loader.perform {} calls kept ∧
      (let b := Batch.empty 2 .undirected [("w", 0.5)]
      b.Rejects (.addDefault 0 2) ∧ ∃ f, b.perform (.addDefault 0 2) = (.error f, b)) := by
  intro calls kept
  have hfresh (x : Nat) : (∅ : Numbering).number? x = none := Std.HashMap.getElem?_empty
  have hnode := IdMap.Builder.addNode_of_fresh (b := {}) (hfresh 1) (Nat.zero_lt_succ _) []
  have hl : Strikes Loader.perform Loader.Rejects {} calls kept := by
    refine .keep (.keep (.strike (.inr ?unknown) (.keep (.keep .nil))))
    case unknown =>
      simp only [Loader.perform, Loader.addNode, Loader.declare, hnode]
      exact ⟨trivial, .inr <| (Std.HashMap.getElem?_insert ..).trans (hfresh 2)⟩
  have hb : (Batch.empty 2 .undirected [("w", 0.5)]).Rejects (.addDefault 0 2) := .inr (Nat.le_refl 2)
  obtain ⟨_, hbatch, hloader, _⟩ := rejected_calls_leave_nothing
  exact ⟨hl, hloader _ _ _ hl, hb, hbatch _ _ hb⟩

end PropertyGraph
