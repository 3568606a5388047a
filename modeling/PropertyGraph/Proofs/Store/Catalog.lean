import PropertyGraph.Proofs.NameMap
import PropertyGraph.Store.Catalog
import PropertyGraph.Store.Mutate

namespace PropertyGraph.Catalog

variable {c : Catalog} {t t' : RelType} {topology : Topology} {columns : NameMap String ValueRuns}
  {state : PropertyState} {ps : NameMap String RelationshipProperty} {key : String}

-- A column fits a topology if it has a value for each relationship.
def Fits (topology : Topology) (values : ValueRuns) : Prop :=
  values.nodeCount = topology.nodeCount ∧ values.elementCount = topology.relationshipCount

instance (topology : Topology) (values : ValueRuns) : Decidable (Fits topology values) :=
  inferInstanceAs (Decidable (_ ∧ _))

def fitColumn (t : RelType) (topology : Topology) (state : PropertyState) (e : String × ValueRuns) :
    Except Fault RelationshipProperty :=
  if Fits topology e.2 then .ok ⟨e.1, state, e.2⟩
  else .error (.relationshipColumnSize e.1 t e.2.elementCount topology.relationshipCount)

theorem fitColumn_eq_ok {e : String × ValueRuns} {p : RelationshipProperty} :
    fitColumn t topology state e = .ok p ↔ Fits topology e.2 ∧ p = ⟨e.1, state, e.2⟩ := by
  rw [fitColumn]
  split
  case isTrue h => simp [h, eq_comm]
  case isFalse h => simp [h]

theorem step_fitColumns (ps : NameMap String RelationshipProperty) (e : String × ValueRuns) :
    (if e.2.nodeCount ≠ topology.nodeCount ∨ e.2.elementCount ≠ topology.relationshipCount then
      .error (.relationshipColumnSize e.1 t e.2.elementCount topology.relationshipCount)
    else .ok (ps.insert e.1 ⟨e.1, state, e.2⟩)) = (fitColumn t topology state e).map (ps.insert e.1 ·) := by
  by_cases h : Fits topology e.2
  case pos => rw [fitColumn, if_pos h, if_neg (by simp [h.left, h.right])]; rfl
  case neg => rw [fitColumn, if_neg h, if_pos (not_and_or.mp h)]; rfl

theorem find?_fitColumns (h : fitColumns t topology columns state = .ok ps) {p : RelationshipProperty} :
    ps.find? key = some p ↔
      ∃ values, columns.find? key = some values ∧ Fits topology values ∧ p = ⟨key, state, values⟩ := by
  rw [NameMap.find?_foldlM_insert step_fitColumns columns.distinct_entries h]
  simp [NameMap.find?_eq_some, fitColumn_eq_ok]

theorem exists_fitColumns (h : ∀ key values, columns.find? key = some values → Fits topology values)
    (t : RelType) (state : PropertyState) : ∃ ps, fitColumns t topology columns state = .ok ps := by
  refine NameMap.exists_foldlM_insert step_fitColumns (fun e he => ?_) ∅
  exact ⟨_, fitColumn_eq_ok.mpr ⟨h e.1 e.2 (NameMap.find?_eq_some.mpr he), rfl⟩⟩

theorem fits_of_fitColumns (h : fitColumns t topology columns state = .ok ps) {values : ValueRuns}
    (hv : columns.find? key = some values) : Fits topology values := by
  have ⟨ps₁, ps₂, hs⟩ := Outcome.forall_of_foldlM_eq_ok h (key, values) (NameMap.find?_eq_some.mp hv)
  have hs := (step_fitColumns ps₁ (key, values)).symm.trans hs
  cases hf : fitColumn t topology state (key, values)
  case error f => simp [hf, Except.map] at hs
  case ok p => exact (fitColumn_eq_ok.mp hf).left

-- Of columns that fit each has as many values as there are relationships.
theorem elementCounts_of_fitColumns (h : fitColumns t topology columns state = .ok ps) :
    ps.mapValues (·.values.elementCount) = columns.mapValues fun _ => topology.relationshipCount := by
  refine NameMap.ext_find? fun key => ?_
  rw [NameMap.find?_mapValues, NameMap.find?_mapValues]
  cases hv : columns.find? key
  case none =>
    cases hp : ps.find? key
    case none => rfl
    case some p =>
      have ⟨_, hv', _⟩ := (find?_fitColumns h).mp hp
      cases hv.symm.trans hv'
  case some values =>
    have hfit := fits_of_fitColumns h hv
    rw [(find?_fitColumns h).mpr ⟨values, hv, hfit, rfl⟩]
    exact congrArg some hfit.right

theorem topology_eq_ok : c.topology t = .ok topology ↔ c.topologies.find? t = some topology := by
  rw [Catalog.topology]
  cases c.topologies.find? t <;> simp

-- Properties are found under loaded types only.
def Closed (c : Catalog) : Prop :=
  ∀ t, c.topologies.find? t = none → c.relationshipProperties.find? t = none

theorem find?_addType_of_ne (h : t' ≠ t) :
    (c.addType t topology ps).topologies.find? t' = c.topologies.find? t' ∧
      (c.addType t topology ps).relationshipProperties.find? t' = c.relationshipProperties.find? t' := by
  refine ⟨NameMap.find?_insert_of_ne _ _ h, ?_⟩
  rw [addType]
  split
  case isTrue => rfl
  case isFalse => exact NameMap.find?_insert_of_ne _ _ h

theorem propertiesOf_addType (h : c.relationshipProperties.find? t = none) (topology : Topology)
    (ps : NameMap String RelationshipProperty) : (c.addType t topology ps).propertiesOf t = ps := by
  rw [addType, propertiesOf]
  split
  case isTrue he =>
    rw [h]
    exact NameMap.ext_find? fun key => (NameMap.isEmpty_iff.mp he key).symm
  case isFalse => rw [NameMap.find?_insert_self, Option.getD_some]

theorem find?_addType_self (hc : c.Closed) (h : c.topologies.contains t = false) :
    (c.addType t topology ps).topologies.find? t = some topology ∧
      ∀ key, (c.addType t topology ps).relationshipProperty? t key = ps.find? key := by
  have hn : c.relationshipProperties.find? t = none := hc t (by simpa [NameMap.contains] using h)
  refine ⟨NameMap.find?_insert_self .., fun key => ?_⟩
  rw [relationshipProperty?, propertiesOf_addType hn]

theorem find?_deleteType_of_ne (h : t' ≠ t) :
    (c.deleteType t).topologies.find? t' = c.topologies.find? t' ∧
      (c.deleteType t).relationshipProperties.find? t' = c.relationshipProperties.find? t' :=
  ⟨NameMap.find?_erase_of_ne _ h, NameMap.find?_erase_of_ne _ h⟩

theorem find?_deleteType_self (c : Catalog) (t : RelType) :
    (c.deleteType t).topologies.find? t = none ∧ (c.deleteType t).relationshipProperties.find? t = none :=
  ⟨NameMap.find?_erase_self .., NameMap.find?_erase_self ..⟩

theorem Closed.addType (h : c.Closed) (t : RelType) (topology : Topology)
    (ps : NameMap String RelationshipProperty) : (c.addType t topology ps).Closed := by
  intro t' ht
  by_cases he : t' = t
  case pos =>
    rw [he, Catalog.addType, NameMap.find?_insert_self] at ht
    cases ht
  case neg =>
    have ⟨hf, hp⟩ := @find?_addType_of_ne c t t' topology ps he
    exact hp.trans (h t' (hf ▸ ht))

theorem Closed.deleteType (h : c.Closed) (t : RelType) : (c.deleteType t).Closed := by
  intro t' ht
  by_cases he : t' = t
  case pos => exact he ▸ (find?_deleteType_self c t).right
  case neg =>
    have ⟨hf, hp⟩ := @find?_deleteType_of_ne c t t' he
    exact hp.trans (h t' (hf ▸ ht))

theorem relationshipCount_eq_sum (c : Catalog) :
    c.relationshipCount = (c.topologies.values.map (·.relationshipCount)).sum := by
  rw [relationshipCount, List.sum_eq_foldr, List.foldr_map]

theorem relationshipCount_deleteType (h : c.topologies.find? t = some topology) :
    c.relationshipCount = (c.deleteType t).relationshipCount + topology.relationshipCount := by
  rw [relationshipCount_eq_sum, relationshipCount_eq_sum, NameMap.sum_erase h]
  rfl

theorem addType_comm (h : t ≠ t') (c : Catalog) (topology topology' : Topology)
    (ps ps' : NameMap String RelationshipProperty) :
    (c.addType t topology ps).addType t' topology' ps' =
      (c.addType t' topology' ps').addType t topology ps := by
  simp only [addType, NameMap.insert_comm _ _ _ h]
  congr 1
  split <;> split
  case isFalse.isFalse => exact NameMap.insert_comm _ _ _ h
  all_goals rfl

theorem addType_deleteType_comm (h : t ≠ t') (c : Catalog) (topology : Topology)
    (ps : NameMap String RelationshipProperty) :
    (c.deleteType t).addType t' topology ps = (c.addType t' topology ps).deleteType t := by
  simp only [addType, deleteType, NameMap.erase_insert_comm _ _ h]
  congr 1
  split <;> rfl

-- A type that is added where there is nothing of it can be taken away again.
theorem deleteType_addType (ht : c.topologies.find? t = none) (hp : c.relationshipProperties.find? t = none)
    (topology : Topology) (ps : NameMap String RelationshipProperty) :
    (c.addType t topology ps).deleteType t = c := by
  simp only [addType, deleteType, NameMap.erase_insert ht]
  congr 1
  split
  case isTrue => exact NameMap.erase_eq_self hp
  case isFalse => exact NameMap.erase_insert hp _

theorem relationshipProperty?_congr {c' : Catalog}
    (h : c'.relationshipProperties.find? t = c.relationshipProperties.find? t) (key : String) :
    c'.relationshipProperty? t key = c.relationshipProperty? t key := by
  rw [relationshipProperty?, propertiesOf, h, relationshipProperty?, propertiesOf]

end PropertyGraph.Catalog
