import PropertyGraph.Proofs.Store.Course
import PropertyGraph.Proofs.Store.NodeProperties
import PropertyGraph.Proofs.Store.Properties

namespace PropertyGraph.Store

open Catalog

variable {c : Catalog} {p : NodeProperty} {ls : List Label} {l : Label} {key : String} {s s' : Store} {m : Mutation}

-- A label that stores the key has the type of the new property, whether it had the key before or not.
theorem type_addNodeProperty (h : Uniform c)
    (ht : ∀ type, c.nodePropertyType? p.key = some type → type = p.values.type) {q : NodeProperty}
    (hq : (c.addNodeProperty ls p).2.nodeProperty? l p.key = some q) : q.values.type = p.values.type := by
  rw [nodeProperty?_addNodeProperty] at hq
  cases hs : c.nodeProperty? l p.key
  case none =>
    rw [hs, Option.none_or] at hq
    split at hq
    case isTrue => exact Option.some.inj hq ▸ rfl
    case isFalse => cases hq
  case some q' =>
    have he : q' = q := by simpa [hs] using hq
    have ⟨type, htype⟩ := exists_nodePropertyType? hs
    have ⟨l', p', hp', hp't⟩ := exists_of_nodePropertyType? htype
    exact he ▸ (h p.key l l' q' p' hs hp').trans (hp't.trans (ht type htype))

theorem Uniform.addNodeProperty (h : Uniform c)
    (ht : ∀ type, c.nodePropertyType? p.key = some type → type = p.values.type) (ls : List Label) :
    Uniform (c.addNodeProperty ls p).2 := by
  intro key l l' q q' hq hq'
  by_cases hk : key = p.key
  case pos =>
    subst hk
    exact (type_addNodeProperty h ht hq).trans (type_addNodeProperty h ht hq').symm
  case neg =>
    rw [nodeProperty?_addNodeProperty, if_neg fun h => hk h.right, Option.or_none] at hq hq'
    exact h key l l' q q' hq hq'

theorem Uniform.removeNodeProperty (h : Uniform c) (l : Label) (key : String) :
    Uniform (c.removeNodeProperty l key) := by
  have hkept : ∀ l' key' p, (c.removeNodeProperty l key).nodeProperty? l' key' = some p →
      c.nodeProperty? l' key' = some p := by
    intro l' key' p hp
    rw [nodeProperty?_removeNodeProperty] at hp
    split at hp
    case isTrue => cases hp
    case isFalse => exact hp
  exact fun key' l₁ l₂ p p' hp hp' => h key' l₁ l₂ p p' (hkept l₁ key' p hp) (hkept l₂ key' p' hp')

theorem Step.uniform (hs : Step s m s') (ha : s.Admits m) (h : Uniform s.catalog) : Uniform s'.catalog := by
  cases hs
  case addNodeProperty ls key values _ _ => exact h.addNodeProperty ha.right.right ls
  case removeNodeProperty l key => exact h.removeNodeProperty l key
  case addRelationshipType | deleteRelationships | canRelease => exact h
  case release => exact fun _ _ _ _ _ hp => nomatch hp

theorem Uniform.mutate (h : Uniform s.catalog) (m : Mutation) : Uniform (s.mutate m).catalog := by
  by_cases ht : s.Admits m ∧ ¬s.Vain m
  case pos => exact (mutate_takes ht.left ht.right).right.uniform ht.left h
  case neg => exact (mutate_eq_self (not_and_not_right.mp ht)).symm ▸ h

theorem Uniform.run (h : Uniform s.catalog) (ms : List Mutation) : Uniform (s.run ms).catalog :=
  @run_induction s (fun s => Uniform s.catalog) ms h fun _ hs m _ => hs.mutate m

theorem resolveNodeProperty_ne_none (hl : l ∈ ls) (hp : s.catalog.nodeProperty? l key = some p) :
    s.resolveNodeProperty ls key ≠ .ok none := by
  intro h
  rw [resolveNodeProperty] at h
  split at h
  case h_1 hnil =>
    have hnone := List.filterMap_eq_nil_iff.mp hnil l hl
    simp [hp] at hnone
  case h_2 => cases h
  case h_3 =>
    cases hr : NodeValues.ofParts s.nodeCount _ <;> rw [hr] at h <;> cases h

-- The values of a key can be read if and only if some label stores it.
theorem nodeProperty_succeeds (h : Uniform s.catalog) (key : String) :
    (∃ values, s.nodeProperty key = .ok values) ↔ ∃ l p, s.catalog.nodeProperty? l key = some p := by
  constructor
  case mp =>
    intro ⟨values, hv⟩
    by_contra hnone
    have hlabels : s.catalog.labelsStoring key = [] :=
      List.eq_nil_iff_forall_not_mem.mpr fun l hl => hnone ⟨l, mem_labelsStoring.mp hl⟩
    rw [nodeProperty, hlabels] at hv
    cases hv
  case mpr =>
    intro ⟨l, p, hp⟩
    have ⟨values?, hr⟩ := exists_resolveNodeProperty h (s.catalog.labelsStoring key) key
    cases values?
    case none => exact absurd hr (resolveNodeProperty_ne_none (mem_labelsStoring.mpr ⟨p, hp⟩) hp)
    case some values => exact ⟨values, by rw [nodeProperty, hr]; rfl⟩

end PropertyGraph.Store
