import PropertyGraph.Proofs.Node.IdMap
import PropertyGraph.Proofs.Relationship.Built
import PropertyGraph.Proofs.Store.Assembly
import PropertyGraph.Proofs.Store.Mutation
import PropertyGraph.Proofs.Store.NodeProperties

namespace PropertyGraph

-- Every property stands under its own key and has values for `n` nodes.
def NodeProperties.Cover (ps : NodeProperties) (n : Nat) : Prop :=
  ∀ key p, ps.find? key = some p → p.key = key ∧ p.values.nodeCount = n

-- Every label with properties is known, and has one property at least.
def NodeProperties.Labeled (nodes : IdMap) (byLabel : NameMap Label NodeProperties) : Prop :=
  ∀ l ps, byLabel.find? l = some ps → nodes.hasLabel l = true ∧ ps.isEmpty = false ∧ ps.Cover nodes.nodeCount

-- A catalog whose parts fit each other and the nodes.
structure Catalog.Consistent (c : Catalog) (nodes : IdMap) : Prop where
  closed : c.Closed
  covered : ∀ t topology, c.topologies.find? t = some topology → topology.nodeCount = nodes.nodeCount
  columns : ∀ t topology key p, c.topologies.find? t = some topology → c.relationshipProperty? t key = some p →
    p.key = key ∧ p.values.nodeCount = nodes.nodeCount ∧ p.values.elementCount = topology.relationshipCount
  labels : NodeProperties.Labeled nodes c.nodeProperties

namespace NodeProperties

variable {ps : NodeProperties} {p : NodeProperty} {n : Nat} {key : String} {nodes : IdMap} {l : Label}
  {byLabel : NameMap Label NodeProperties}

theorem cover_empty (n : Nat) : Cover ∅ n :=
  fun _ _ h => nomatch h

theorem Cover.addIfAbsent (h : ps.Cover n) (hp : p.values.nodeCount = n) : (ps.addIfAbsent p).Cover n := by
  rw [NodeProperties.addIfAbsent]
  split
  case isTrue => exact h
  case isFalse =>
    intro key q hq
    by_cases hk : key = p.key
    case pos =>
      rw [hk, NameMap.find?_insert_self] at hq
      exact Option.some.inj hq ▸ ⟨hk.symm, hp⟩
    case neg => exact h key q (NameMap.find?_insert_of_ne _ _ hk ▸ hq)

theorem Cover.erase (h : ps.Cover n) (key : String) : Cover (NameMap.erase ps key) n := by
  intro key' p hp
  by_cases hk : key' = key
  case pos =>
    rw [hk, NameMap.find?_erase_self] at hp
    cases hp
  case neg => exact h key' p (NameMap.find?_erase_of_ne _ hk ▸ hp)

theorem isEmpty_addIfAbsent (ps : NodeProperties) (p : NodeProperty) : (ps.addIfAbsent p).isEmpty = false := by
  have ⟨q, hq⟩ : ∃ q, (ps.addIfAbsent p).find? p.key = some q := by
    rw [NodeProperties.addIfAbsent]
    split
    case isTrue h => exact NameMap.contains_iff.mp h
    case isFalse => exact ⟨p, NameMap.find?_insert_self ..⟩
  rw [Bool.eq_false_iff]
  intro he
  rw [NameMap.isEmpty_iff.mp he] at hq
  cases hq

namespace Labeled

theorem insert (h : Labeled nodes byLabel) (hl : nodes.hasLabel l = true) (he : ps.isEmpty = false)
    (hc : ps.Cover nodes.nodeCount) : Labeled nodes (byLabel.insert l ps) := by
  intro l' ps' hf
  by_cases hl' : l' = l
  case pos =>
    rw [hl', NameMap.find?_insert_self] at hf
    exact hl' ▸ Option.some.inj hf ▸ ⟨hl, he, hc⟩
  case neg => exact h l' ps' (NameMap.find?_insert_of_ne _ _ hl' ▸ hf)

theorem erase (h : Labeled nodes byLabel) (l : Label) : Labeled nodes (byLabel.erase l) := by
  intro l' ps hf
  by_cases hl : l' = l
  case pos =>
    rw [hl, NameMap.find?_erase_self] at hf
    cases hf
  case neg => exact h l' ps (NameMap.find?_erase_of_ne _ hl ▸ hf)

theorem cover_getD (h : Labeled nodes byLabel) (l : Label) :
    Cover ((byLabel.find? l).getD ∅) nodes.nodeCount := by
  cases hf : byLabel.find? l
  case none => exact cover_empty _
  case some ps => exact (h l ps hf).right.right

end Labeled

end NodeProperties

namespace Catalog

open NodeProperties

variable {c : Catalog} {nodes : IdMap} {p : NodeProperty} {ls : List Label} {l : Label} {key : String}

-- The label has an entry afterwards, and the key stands in it.
theorem labeled_storeUnder {r : Bool × Catalog} (h : Labeled nodes r.2.nodeProperties) (hl : nodes.hasLabel l = true)
    (hp : p.values.nodeCount = nodes.nodeCount) : Labeled nodes (storeUnder p r l).2.nodeProperties := by
  have hcover := h.cover_getD l
  rw [storeUnder_eq]
  split
  case isTrue hc =>
    have hadded : (r.2.nodePropertiesOf l).addIfAbsent p = r.2.nodePropertiesOf l := if_pos hc
    exact h.insert hl (hadded ▸ isEmpty_addIfAbsent _ p) hcover
  case isFalse =>
    have hinserted : Labeled nodes (r.2.putNodeProperties l ((r.2.nodePropertiesOf l).addIfAbsent p)).nodeProperties :=
      h.insert hl (isEmpty_addIfAbsent ..) (hcover.addIfAbsent hp)
    intro l' ps hf
    refine hinserted l' ps ?_
    by_cases hl' : l' = l
    case pos =>
      rw [hl'] at hf ⊢
      rwa [putNodeProperties, NameMap.find?_insert_self] at hf ⊢
    case neg =>
      rw [putNodeProperties, NameMap.find?_insert_of_ne _ _ hl'] at hf ⊢
      rwa [putNodeProperties, NameMap.find?_insert_of_ne _ _ hl'] at hf

theorem labeled_addNodeProperty (h : Labeled nodes c.nodeProperties) (hl : ∀ l ∈ ls, nodes.hasLabel l = true)
    (hp : p.values.nodeCount = nodes.nodeCount) : Labeled nodes (c.addNodeProperty ls p).2.nodeProperties := by
  have hfoldl : ∀ r : Bool × Catalog, Labeled nodes r.2.nodeProperties →
      Labeled nodes (ls.foldl (storeUnder p) r).2.nodeProperties := by
    induction ls
    case nil => exact fun _ h => h
    case cons l ls hi =>
      have ⟨hl, hls⟩ := List.forall_mem_cons.mp hl
      exact fun r h => hi hls _ (labeled_storeUnder h hl hp)
  exact hfoldl (false, c) h

-- A label from which the last property is taken is not kept.
theorem labeled_removeNodeProperty (h : Labeled nodes c.nodeProperties) (l : Label) (key : String) :
    Labeled nodes (c.removeNodeProperty l key).nodeProperties := by
  rw [removeNodeProperty]
  dsimp only
  split
  case isTrue => exact h.erase l
  case isFalse he =>
    have hknown : nodes.hasLabel l = true := by
      cases hf : c.nodeProperties.find? l
      case none => simp [nodePropertiesOf, hf, NameMap.isEmpty_iff, NameMap.find?_erase] at he
      case some ps => exact (h l ps hf).left
    exact h.insert hknown (Bool.eq_false_iff.mpr he) ((h.cover_getD l).erase key)

end Catalog

namespace Store

open NodeProperties

variable {s s' : Store} {m : Mutation} {nodes : IdMap} {nodeColumns : NameMap Label (NameMap String Column)}
  {topologies : NameMap RelType Topology} {columns : NameMap RelType (NameMap String ValueRuns)}
  {options : StoreOptions} {metrics : Metrics}

theorem nodeCount_ofColumn (column : Column) : (NodeValues.ofColumn column).nodeCount = column.size := by
  cases column <;> rfl

theorem labeled_of_fitNodeColumns {byLabel : NameMap Label NodeProperties}
    (h : fitNodeColumns nodes nodeColumns = .ok byLabel) : Labeled nodes byLabel := by
  have hempty : Labeled nodes ∅ := fun _ _ hf => nomatch hf
  refine Outcome.of_foldlM_eq_ok (fun byLabel hb e _ byLabel' hs => ?_) hempty h
  dsimp only at hs
  split at hs
  case isTrue => cases hs
  case isFalse hl =>
    have hl : nodes.hasLabel e.1 = true := by simpa using hl
    have ⟨ps, hps, hs⟩ := Outcome.bind_eq_ok.mp hs
    have hcover : Cover ps nodes.nodeCount := by
      refine @Outcome.of_foldlM_eq_ok _ _ _ e.2.entries (fitNodeColumn nodes e.1) (Cover · nodes.nodeCount)
        (fun ps hc x _ ps' hx => ?_) _ _ (cover_empty _) hps
      rw [fitNodeColumn] at hx
      split at hx
      case isTrue => cases hx
      case isFalse hsize =>
        have hsize : (NodeValues.ofColumn x.2).nodeCount = nodes.nodeCount :=
          (nodeCount_ofColumn x.2).trans (not_not.mp hsize)
        exact Except.ok.inj hx ▸ hc.addIfAbsent hsize
    have hs := Except.ok.inj hs
    subst hs
    split
    case isTrue => exact hb
    case isFalse he => exact hb.insert hl (Bool.eq_false_iff.mpr he) hcover

theorem consistent_of (h : of nodes nodeColumns topologies columns options metrics = .ok s) :
    s.catalog.Consistent nodes where
  closed := (of_eq_ok h).closed
  covered t topology ht := (of_eq_ok h).sizes t topology ((of_eq_ok h).topologies_eq ▸ ht)
  columns t topology key p ht hk := by
    have ha := of_eq_ok h
    obtain ⟨_, topology', values, _, ht', _, ⟨hn, hc⟩, rfl⟩ := ha.given hk
    have he : topology' = topology := Option.some.inj (ht'.symm.trans (ha.topologies_eq ▸ ht))
    exact ⟨rfl, hn.trans (ha.sizes t _ ht'), he ▸ hc⟩
  labels := labeled_of_fitNodeColumns (of_eq_ok h).nodeProperties

theorem Step.labeled (h : Step s m s') (hl : Labeled s.nodes s.catalog.nodeProperties) :
    Labeled s.nodes s'.catalog.nodeProperties := by
  cases h
  case addNodeProperty hknown hn => exact Catalog.labeled_addNodeProperty hl hknown hn
  case removeNodeProperty l key => exact Catalog.labeled_removeNodeProperty hl l key
  case addRelationshipType | deleteRelationships | canRelease => exact hl
  case release => exact fun _ _ hf => nomatch hf

theorem mutate_consistent (h : s.catalog.Consistent s.nodes) (m : Mutation) :
    (s.mutate m).catalog.Consistent s.nodes where
  closed := (mutate_changed s m).closed h.closed
  covered t topology ht := by
    cases (mutate_changed s m).type_cases ht
    case inl hk => exact h.covered t topology hk.left
    case inr ha =>
      have ⟨_, _, _, hr, hcount, _⟩ := ha
      exact hr ▸ hcount
  columns t topology key p ht hk := by
    cases (mutate_changed s m).column_cases h.closed ht hk
    case inl hsame => exact h.columns t topology key p hsame.left hsame.right
    case inr ha =>
      obtain ⟨rs, values, _, rfl, hcount, _, ⟨hn, hc⟩, rfl⟩ := ha
      exact ⟨rfl, hn.trans hcount, hc⟩
  labels := by
    cases mutate_step s m
    case inl he => exact he.symm ▸ h.labels
    case inr hs => exact hs.labeled h.labels

-- Whatever changes are made to a store, failing ones and such without effect among them.
theorem run_consistent (h : of nodes nodeColumns topologies columns options metrics = .ok s) (ms : List Mutation) :
    (s.run ms).catalog.Consistent nodes := by
  have hn := (of_eq_ok h).nodes_eq
  have hrun : (s.run ms).catalog.Consistent (s.run ms).nodes := by
    refine @run_induction s (fun s => s.catalog.Consistent s.nodes) ms (hn.symm ▸ consistent_of h) fun s hs m _ => ?_
    exact (mutate_changed s m).nodes ▸ mutate_consistent hs m
  rwa [(run_fixed s ms).left, hn] at hrun

theorem run_consistent_of_two_labels :
    ∃ nodes rs s, IdMap.ofNodes [(10, [⟨"A"⟩]), (20, [⟨"B"⟩])] = .ok nodes ∧
      ((Batch.empty 2 .natural [("weight", 1.0)]).collect [.add 0 1 [0.5], .addDefault 1 1]).compress 1 = .ok rs ∧
      of nodes (.ofList [(⟨"A"⟩, .ofList [("age", .long #[1, 2])])]) (.ofList [(⟨"LINKS"⟩, rs.topology)])
        (.ofList [(⟨"LINKS"⟩, rs.properties)]) {} {} = .ok s ∧
      (s.run [.addNodeProperty [⟨"A"⟩, ⟨"B"⟩] "rank" (.ofColumn (.double #[0.5, 1.5])),
        .removeNodeProperty ⟨"A"⟩ "age", .addRelationshipType ⟨"ROADS"⟩ rs, .deleteRelationships ⟨"LINKS"⟩,
        .canRelease false, .release]).catalog.Consistent nodes := by
  have ⟨nodes, hnodes, hcount, hlabels⟩ := @IdMap.exists_ofNodes_labeled [(10, [⟨"A"⟩]), (20, [⟨"B"⟩])]
    (by decide) (by decide)
  have ⟨rs, hrs, hn, _⟩ := Relationships.exists_built 2 .natural [("weight", 1.0)]
    [.add 0 1 [0.5], .addDefault 1 1] 1 (by decide) (by decide)
  have ⟨_, hstores⟩ := Relationships.Built.stores ⟨_, _, _, _, _, hrs⟩
  have ⟨byLabel, hfit, _⟩ := @exists_fitNodeColumns nodes (.ofList [(⟨"A"⟩, .ofList [("age", .long #[1, 2])])])
    fun l cs hl => by
      obtain ⟨rfl, rfl⟩ := NameMap.find?_ofList_singleton.mp hl
      refine ⟨NameMap.contains_iff.mpr (NameMap.mem_keys_iff.mp ?_), fun key column hk => ?_⟩
      · exact IdMap.known_of_contains (hlabels 0 _ rfl _ List.mem_cons_self)
      · obtain ⟨_, rfl⟩ := NameMap.find?_ofList_singleton.mp hk
        exact hcount.symm
  have ⟨s, hs⟩ := @exists_of nodes _ (.ofList [(⟨"LINKS"⟩, rs.topology)]) (.ofList [(⟨"LINKS"⟩, rs.properties)])
    byLabel hfit
    (fun t topology ht => by
      obtain ⟨_, rfl⟩ := NameMap.find?_ofList_singleton.mp ht
      exact hn.trans hcount.symm)
    (fun t cs hc => by
      obtain ⟨rfl, rfl⟩ := NameMap.find?_ofList_singleton.mp hc
      exact ⟨rs.topology, NameMap.find?_insert_self .., hstores.fit⟩) {} {}
  exact ⟨nodes, rs, s, hnodes, hrs, hs, run_consistent hs _⟩

end Store

end PropertyGraph
