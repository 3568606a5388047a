import PropertyGraph.Proofs.Store.Course

namespace PropertyGraph.Store

-- What a change makes of the relationships in the catalog of a store.
inductive Effect (s : Store) (m : Mutation) (c : Catalog) : Prop
  | kept : c.topologies = s.catalog.topologies →
    c.relationshipProperties = s.catalog.relationshipProperties → Effect s m c
  | added {t rs ps} : m = .addRelationshipType t rs → rs.topology.nodeCount = s.nodeCount →
    Catalog.fitColumns t rs.topology rs.properties .transient = .ok ps →
    s.catalog.topologies.contains t = false → c = s.catalog.addType t rs.topology ps → Effect s m c
  | deleted {t} : c = s.catalog.deleteType t → Effect s m c
  | released : c = {} → Effect s m c

structure Changed (s : Store) (m : Mutation) (s' : Store) : Prop where
  nodes : s'.nodes = s.nodes
  options : s'.options = s.options
  relationships : Effect s m s'.catalog

variable {s s' : Store} {m : Mutation} {c : Catalog}

theorem Changed.refl (s : Store) (m : Mutation) : Changed s m s :=
  ⟨rfl, rfl, .kept rfl rfl⟩

theorem Step.changed (h : Step s m s') : Changed s m s' := by
  cases h
  case addNodeProperty ls key values _ _ =>
    have ⟨ht, hp⟩ := s.catalog.relationships_addNodeProperty ls ⟨key, .transient, values⟩
    exact ⟨rfl, rfl, .kept ht hp⟩
  case removeNodeProperty | canRelease => exact ⟨rfl, rfl, .kept rfl rfl⟩
  case addRelationshipType hn hp hc => exact ⟨rfl, rfl, .added rfl hn hp hc rfl⟩
  case deleteRelationships => exact ⟨rfl, rfl, .deleted rfl⟩
  case release => exact ⟨rfl, rfl, .released rfl⟩

theorem mutate_changed (s : Store) (m : Mutation) : Changed s m (s.mutate m) := by
  cases mutate_step s m
  case inl h => exact h.symm ▸ .refl s m
  case inr h => exact h.changed

-- A type that is loaded after a change was so before, with the same properties, or is the one that was added.
theorem Changed.type_cases {t : RelType} {topology : Topology} (hc : Changed s m s')
    (ht : s'.catalog.topologies.find? t = some topology) :
    (s.catalog.topologies.find? t = some topology ∧
      s'.catalog.relationshipProperties.find? t = s.catalog.relationshipProperties.find? t) ∨
    ∃ rs ps, m = .addRelationshipType t rs ∧ rs.topology = topology ∧ rs.topology.nodeCount = s.nodeCount ∧
      Catalog.fitColumns t rs.topology rs.properties .transient = .ok ps ∧
      s.catalog.topologies.contains t = false ∧ s'.catalog = s.catalog.addType t rs.topology ps := by
  cases hc.relationships
  case kept hk hp => exact .inl ⟨hk ▸ ht, by rw [hp]⟩
  case added t' rs ps hm hn hfit hnew hs =>
    rw [hs] at ht ⊢
    by_cases he : t = t'
    case pos =>
      subst he
      rw [Catalog.addType, NameMap.find?_insert_self] at ht
      exact .inr ⟨rs, ps, hm, Option.some.inj ht, hn, hfit, hnew, rfl⟩
    case neg =>
      obtain ⟨hself, hps⟩ := @Catalog.find?_addType_of_ne s.catalog t' t rs.topology ps he
      exact .inl ⟨hself ▸ ht, hps⟩
  case deleted t' hs =>
    rw [hs] at ht ⊢
    by_cases he : t = t'
    case pos =>
      rw [he, (Catalog.find?_deleteType_self _ t').left] at ht
      cases ht
    case neg =>
      obtain ⟨hself, hps⟩ := @Catalog.find?_deleteType_of_ne s.catalog t' t he
      exact .inl ⟨hself ▸ ht, hps⟩
  case released hs =>
    rw [hs] at ht
    cases ht

theorem Changed.closed (hc : Changed s m s') (h : s.catalog.Closed) : s'.catalog.Closed := by
  cases hc.relationships
  case kept ht hp =>
    intro t hn
    rw [hp]
    exact h t (ht ▸ hn)
  case added he => exact he ▸ h.addType _ _ _
  case deleted he => exact he ▸ h.deleteType _
  case released he => exact he ▸ fun _ _ => rfl

-- A column that is stored after a change was so before, under the same type, or came with the type that was
-- added.
theorem Changed.column_cases {t : RelType} {topology : Topology} {key : String} {p : RelationshipProperty}
    (hc : Changed s m s') (h : s.catalog.Closed) (ht : s'.catalog.topologies.find? t = some topology)
    (hk : s'.catalog.relationshipProperty? t key = some p) :
    (s.catalog.topologies.find? t = some topology ∧ s.catalog.relationshipProperty? t key = some p) ∨
    ∃ rs values, m = .addRelationshipType t rs ∧ rs.topology = topology ∧ rs.topology.nodeCount = s.nodeCount ∧
      rs.properties.find? key = some values ∧ Catalog.Fits topology values ∧ p = ⟨key, .transient, values⟩ := by
  cases hc.type_cases ht
  case inl hsame =>
    have ⟨hsame, hp⟩ := hsame
    exact .inl ⟨hsame, Catalog.relationshipProperty?_congr hp key ▸ hk⟩
  case inr ha =>
    obtain ⟨rs, ps, hm, rfl, hcount, hfit, hnew, hs⟩ := ha
    obtain ⟨_, hps⟩ := @Catalog.find?_addType_self s.catalog t rs.topology ps h hnew
    rw [hs, hps] at hk
    obtain ⟨values, hv, hfits, he⟩ := (Catalog.find?_fitColumns hfit).mp hk
    exact .inr ⟨rs, values, hm, rfl, hcount, hv, hfits, he⟩

-- The nodes and the options never change.
theorem run_fixed (s : Store) (ms : List Mutation) :
    (s.run ms).nodes = s.nodes ∧ (s.run ms).options = s.options := by
  refine @run_induction s (fun s' => s'.nodes = s.nodes ∧ s'.options = s.options) ms ⟨rfl, rfl⟩ ?_
  intro s' ⟨hn, ho⟩ m _
  have h := mutate_changed s' m
  exact ⟨h.nodes.trans hn, h.options.trans ho⟩

end PropertyGraph.Store
