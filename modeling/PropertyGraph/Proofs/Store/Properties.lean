import PropertyGraph.Proofs.Store.Catalog

namespace PropertyGraph

variable {p : NodeProperty} {ls : List Label} {l l' : Label} {key key' : String} {type : ValueType}

-- A key that is taken keeps its property.
theorem NodeProperties.find?_addIfAbsent (ps : NodeProperties) (p : NodeProperty) (key : String) :
    (ps.addIfAbsent p).find? key = (ps.find? key).or (if key = p.key then some p else none) := by
  rw [addIfAbsent]
  split
  case isTrue h =>
    have ⟨q, hq⟩ := NameMap.contains_iff.mp h
    by_cases hk : key = p.key
    case pos => rw [hk, hq, Option.some_or]
    case neg => rw [if_neg hk, Option.or_none]
  case isFalse h =>
    by_cases hk : key = p.key
    case pos =>
      have hnone : ps.find? p.key = none := by simpa [NameMap.contains] using h
      rw [hk, NameMap.find?_insert_self, hnone, if_pos rfl, Option.none_or]
    case neg => rw [NameMap.find?_insert_of_ne _ _ hk, if_neg hk, Option.or_none]

namespace Catalog

variable {c : Catalog}

theorem nodeProperty?_putNodeProperties (c : Catalog) (l : Label) (ps : NodeProperties) (l' : Label) (key : String) :
    (c.putNodeProperties l ps).nodeProperty? l' key = if l' = l then ps.find? key else c.nodeProperty? l' key := by
  rw [nodeProperty?, nodePropertiesOf, putNodeProperties]
  split
  case isTrue hl => rw [hl, NameMap.find?_insert_self, Option.getD_some]
  case isFalse hl => rw [NameMap.find?_insert_of_ne _ _ hl, nodeProperty?, nodePropertiesOf]

variable {r : Bool × Catalog}

theorem storeUnder_eq (p : NodeProperty) (r : Bool × Catalog) (l : Label) :
    storeUnder p r l =
      if (r.2.nodePropertiesOf l).contains p.key then (r.1, r.2.putNodeProperties l (r.2.nodePropertiesOf l))
      else (true, (r.2.putNodeProperties l (r.2.nodePropertiesOf l)).putNodeProperties l
        ((r.2.nodePropertiesOf l).addIfAbsent p)) :=
  rfl

theorem nodeProperty?_storeUnder (p : NodeProperty) (r : Bool × Catalog) (l l' : Label) (key : String) :
    (storeUnder p r l).2.nodeProperty? l' key =
      (r.2.nodeProperty? l' key).or (if l' = l ∧ key = p.key then some p else none) := by
  have hadd := (r.2.nodePropertiesOf l).find?_addIfAbsent p key
  have hself : (r.2.nodePropertiesOf l).find? key = r.2.nodeProperty? l key := rfl
  rw [storeUnder_eq]
  split
  case isTrue hc =>
    rw [NodeProperties.addIfAbsent, if_pos hc, hself] at hadd
    rw [nodeProperty?_putNodeProperties]
    by_cases hl : l' = l
    case pos =>
      rw [if_pos hl, hl, hself]
      simpa using hadd
    case neg => simp [hl]
  case isFalse =>
    simp only [nodeProperty?_putNodeProperties]
    by_cases hl : l' = l
    case pos => simpa [hl, hself] using hadd
    case neg => simp [hl]

theorem added_storeUnder (p : NodeProperty) (r : Bool × Catalog) (l : Label) :
    (storeUnder p r l).1 = true ↔ r.1 = true ∨ r.2.nodeProperty? l p.key = none := by
  rw [storeUnder_eq]
  split
  case isTrue hc =>
    have ⟨q, hq⟩ := NameMap.contains_iff.mp hc
    rw [show r.2.nodeProperty? l p.key = some q from hq]
    simp
  case isFalse hc =>
    have hnone : r.2.nodeProperty? l p.key = none := by simpa [NameMap.contains, nodeProperty?] using hc
    simp [hnone]

-- Labels that store the key keep what they have, and the others get the property, however often a label comes.
theorem foldl_storeUnder (p : NodeProperty) (ls : List Label) (r : Bool × Catalog) :
    (∀ l key, (ls.foldl (storeUnder p) r).2.nodeProperty? l key =
      (r.2.nodeProperty? l key).or (if l ∈ ls ∧ key = p.key then some p else none)) ∧
    ((ls.foldl (storeUnder p) r).1 = true ↔ r.1 = true ∨ ∃ l ∈ ls, r.2.nodeProperty? l p.key = none) := by
  induction ls generalizing r
  case nil => simp
  case cons l ls hi =>
    have ⟨hproperty, hadded⟩ := hi (storeUnder p r l)
    refine ⟨fun l' key => ?property, ?added⟩
    case property =>
      rw [List.foldl_cons, hproperty, nodeProperty?_storeUnder, Option.or_assoc]
      congr 1
      by_cases hl : l' = l <;> by_cases hk : key = p.key <;> simp [hl, hk]
    case added =>
      rw [List.foldl_cons, hadded, added_storeUnder]
      simp only [nodeProperty?_storeUnder, Option.or_eq_none_iff, List.mem_cons, exists_eq_or_imp]
      grind

-- Something is added if and only if one of the labels did not store the key.
theorem added_addNodeProperty (c : Catalog) (ls : List Label) (p : NodeProperty) :
    (c.addNodeProperty ls p).1 = true ↔ ∃ l ∈ ls, c.nodeProperty? l p.key = none := by
  rw [addNodeProperty, (foldl_storeUnder p ls (false, c)).right]
  simp

theorem nodeProperty?_addNodeProperty (c : Catalog) (ls : List Label) (p : NodeProperty) (l : Label)
    (key : String) :
    (c.addNodeProperty ls p).2.nodeProperty? l key =
      (c.nodeProperty? l key).or (if l ∈ ls ∧ key = p.key then some p else none) :=
  (foldl_storeUnder p ls (false, c)).left l key

-- Node properties have nothing to do with relationships.
theorem addNodeProperty_addType (c : Catalog) (ls : List Label) (p : NodeProperty) (t : RelType) (topology : Topology)
    (ps : NameMap String RelationshipProperty) :
    (c.addType t topology ps).addNodeProperty ls p =
      ((c.addNodeProperty ls p).1, (c.addNodeProperty ls p).2.addType t topology ps) := by
  have hstep : ∀ (r : Bool × Catalog) l, storeUnder p (r.1, r.2.addType t topology ps) l =
      ((storeUnder p r l).1, (storeUnder p r l).2.addType t topology ps) := fun r l => by
    have hps : (r.2.addType t topology ps).nodePropertiesOf l = r.2.nodePropertiesOf l := rfl
    rw [storeUnder_eq, storeUnder_eq, hps]
    split <;> rfl
  have hfoldl : ∀ r : Bool × Catalog, ls.foldl (storeUnder p) (r.1, r.2.addType t topology ps) =
      ((ls.foldl (storeUnder p) r).1, (ls.foldl (storeUnder p) r).2.addType t topology ps) := by
    induction ls
    case nil => exact fun _ => rfl
    case cons l ls hi => exact fun r => by rw [List.foldl_cons, hstep, hi, List.foldl_cons]
  exact hfoldl (false, c)

theorem relationships_addNodeProperty (c : Catalog) (ls : List Label) (p : NodeProperty) :
    (c.addNodeProperty ls p).2.topologies = c.topologies ∧
      (c.addNodeProperty ls p).2.relationshipProperties = c.relationshipProperties := by
  have hfoldl : ∀ r : Bool × Catalog, (ls.foldl (storeUnder p) r).2.topologies = r.2.topologies ∧
      (ls.foldl (storeUnder p) r).2.relationshipProperties = r.2.relationshipProperties := by
    induction ls
    case nil => exact fun _ => ⟨rfl, rfl⟩
    case cons l ls hi =>
      intro r
      have hstep : (storeUnder p r l).2.topologies = r.2.topologies ∧
          (storeUnder p r l).2.relationshipProperties = r.2.relationshipProperties := by
        rw [storeUnder_eq]
        split <;> exact ⟨rfl, rfl⟩
      exact ⟨(hi _).left.trans hstep.left, (hi _).right.trans hstep.right⟩
  exact hfoldl (false, c)

theorem nodeProperty?_removeNodeProperty (c : Catalog) (l : Label) (key : String) (l' : Label) (key' : String) :
    (c.removeNodeProperty l key).nodeProperty? l' key' =
      if l' = l ∧ key' = key then none else c.nodeProperty? l' key' := by
  by_cases hl : l' = l
  case neg =>
    rw [if_neg fun h => hl h.left, nodeProperty?, nodePropertiesOf, removeNodeProperty]
    dsimp only
    split
    case isTrue => rw [NameMap.find?_erase_of_ne _ hl]; rfl
    case isFalse => rw [NameMap.find?_insert_of_ne _ _ hl]; rfl
  case pos =>
    have hps : ∀ key', ((c.removeNodeProperty l key).nodePropertiesOf l).find? key' =
        NameMap.find? (NameMap.erase (c.nodePropertiesOf l) key) key' := by
      intro key'
      rw [nodePropertiesOf, removeNodeProperty]
      dsimp only
      split
      case isTrue h => rw [NameMap.find?_erase_self, NameMap.isEmpty_iff.mp h]; rfl
      case isFalse => rw [NameMap.find?_insert_self]; rfl
    rw [hl, nodeProperty?, hps]
    by_cases hk : key' = key
    case pos => rw [hk, NameMap.find?_erase_self, if_pos ⟨rfl, rfl⟩]
    case neg => rw [NameMap.find?_erase_of_ne _ hk, if_neg fun h => hk h.right]; rfl

theorem find?_of_nodeProperty? (h : c.nodeProperty? l key = some p) :
    ∃ ps, c.nodeProperties.find? l = some ps ∧ ps.find? key = some p := by
  rw [nodeProperty?, nodePropertiesOf] at h
  cases hf : c.nodeProperties.find? l
  case none => simp [hf] at h
  case some ps => exact ⟨ps, rfl, by simpa [hf] using h⟩

theorem nodeProperty?_of_find? {ps : NodeProperties} (hf : c.nodeProperties.find? l = some ps) (key : String) :
    c.nodeProperty? l key = ps.find? key := by
  rw [nodeProperty?, nodePropertiesOf, hf]
  rfl

theorem mem_labelsStoring : l ∈ c.labelsStoring key ↔ ∃ p, c.nodeProperty? l key = some p := by
  rw [labelsStoring, List.mem_map]
  constructor
  case mp =>
    intro ⟨e, he, hl⟩
    have ⟨he, hc⟩ := List.mem_filter.mp he
    have hf : c.nodeProperties.find? l = some e.2 := NameMap.find?_eq_some.mpr (hl ▸ he)
    exact nodeProperty?_of_find? hf key ▸ NameMap.contains_iff.mp hc
  case mpr =>
    intro ⟨p, hp⟩
    have ⟨ps, hf, hk⟩ := find?_of_nodeProperty? hp
    exact ⟨(l, ps), List.mem_filter.mpr ⟨NameMap.find?_eq_some.mp hf, NameMap.contains_iff.mpr ⟨p, hk⟩⟩, rfl⟩

-- The type of a key is that of some label's property.
theorem exists_of_nodePropertyType? (h : c.nodePropertyType? key = some type) :
    ∃ l p, c.nodeProperty? l key = some p ∧ p.values.type = type := by
  have ⟨ps, hm, hps⟩ := List.exists_of_findSome?_eq_some h
  have ⟨p, hp, ht⟩ := Option.map_eq_some_iff.mp hps
  have ⟨e, he, hs⟩ := List.mem_map.mp hm
  have hf : c.nodeProperties.find? e.1 = some ps := NameMap.find?_eq_some.mpr (hs ▸ he)
  exact ⟨e.1, p, nodeProperty?_of_find? hf key ▸ hp, ht⟩

theorem exists_nodePropertyType? (h : c.nodeProperty? l key = some p) :
    ∃ type, c.nodePropertyType? key = some type := by
  have ⟨ps, hf, hk⟩ := find?_of_nodeProperty? h
  have hm : ps ∈ c.nodeProperties.values := List.mem_map.mpr ⟨(l, ps), NameMap.find?_eq_some.mp hf, rfl⟩
  refine Option.isSome_iff_exists.mp (List.findSome?_isSome_iff.mpr ⟨ps, hm, ?_⟩)
  rw [hk]
  rfl

end Catalog

end PropertyGraph
