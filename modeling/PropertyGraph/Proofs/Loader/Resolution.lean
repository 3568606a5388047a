import PropertyGraph.Proofs.Loader.NodeColumns
import PropertyGraph.Proofs.Store.Availability
import PropertyGraph.Proofs.Store.Resolution

namespace PropertyGraph

namespace Store

variable {s : Store} {ls : List Label} {l : Label} {key : String} {p : NodeProperty} {view : View}

-- A view that a store gives of some labels.
inductive Gives (s : Store) : List Label → View → Prop
  | getGraph {ls ts property concurrency view s'} :
    s.getGraph ls ts property concurrency = (.ok view, s') → Gives s ls view
  | getUnion {view s'} : s.getUnion = (.ok view, s') → Gives s s.nodeLabels view

theorem Gives.presents (h : s.Gives ls view) (hn : s.nodes.Sound)
    (hsize : s.options.filterChunkSize ≤ Word64.greatest) (hu : Uniform s.catalog) (hl : l ∈ ls)
    (hp : s.catalog.nodeProperty? l key = some p) : s.Presents ls key view := by
  cases h
  case getGraph hg => exact presents_of_materialize hn hsize hu (getGraph_eq_ok hg).left hl hp
  case getUnion hg => exact presents_of_materialize hn hsize hu hg hl hp

theorem exists_nodeProperty (h : Uniform s.catalog) (hp : s.catalog.nodeProperty? l key = some p) :
    ∃ values, s.nodeProperty key = .ok values ∧ s.Resolves (s.catalog.labelsStoring key) key values := by
  have ⟨values, hr⟩ := exists_resolves h (Catalog.mem_labelsStoring.mpr ⟨p, hp⟩) hp
  exact ⟨values, by rw [nodeProperty, hr]; rfl, resolves_of_resolveNodeProperty hr⟩

end Store

namespace Loader

variable {calls : List Call} {concurrency : Nat} {metrics : Metrics} {s₀ : Store} {ls : List Label} {l : Label}
  {key : String} {p : NodeProperty}

-- What holds of a loaded store whatever changes are made to it.
theorem run_of_build (hb : (attempts calls).build concurrency metrics = .ok s₀)
    (hsize : ∀ options, .options options ∈ calls → options.filterChunkSize ≤ Word64.greatest)
    (ms : List Store.Mutation) :
    (s₀.run ms).nodes.Sound ∧ (s₀.run ms).options.filterChunkSize ≤ Word64.greatest ∧
      Store.Uniform (s₀.run ms).catalog := by
  have ⟨_, _, hstores⟩ := build_eq_ok hb
  have ⟨hnodes, hoptions⟩ := s₀.run_fixed ms
  refine ⟨?nodes, ?options, (uniform_of_fitNodeColumns hstores.nodeProperties).run ms⟩
  case nodes => exact hnodes ▸ hstores.nodes_eq ▸ IdMap.Builder.build_sound (attempts_follows calls).sound
  case options =>
    rw [hoptions, hstores.options_eq]
    exact attempts_options (P := (·.filterChunkSize ≤ Word64.greatest)) (by decide) hsize

section Removed

-- Two nodes with a label each, both of which were given a value.
def ranked : List Call :=
  [.declare ⟨"LINKS"⟩ .natural, .addNode 1 [⟨"A"⟩] [("rank", .long 1)], .addNode 2 [⟨"B"⟩] [("rank", .long 2)]]

theorem exists_topology_ranked {s : Store} (hb : (attempts ranked).build 4 {} = .ok s) :
    ∃ topology, s.catalog.topologies.find? ⟨"LINKS"⟩ = some topology := by
  obtain ⟨types, hcompresses, hstores⟩ := build_eq_ok hb
  have hlayout : layoutOf ⟨"LINKS"⟩ (accepted ranked) = some .natural := by
    have hrest := (acceptedFrom_sublist (attempt {} (.declare ⟨"LINKS"⟩ .natural)) ranked.tail).filterMap
      (Call.layout? ⟨"LINKS"⟩)
    have hrest := List.sublist_nil.mp hrest
    have ha : accepted ranked = .declare ⟨"LINKS"⟩ .natural ::
      acceptedFrom (attempt {} (.declare ⟨"LINKS"⟩ .natural)) ranked.tail := rfl
    rw [ha, layoutOf, List.filterMap_cons, hrest]
    rfl
  obtain ⟨pending, hp, _⟩ := Option.map_eq_some_iff.mp (((attempts_follows ranked).declared _).trans hlayout)
  obtain ⟨rs, _, hmem, _⟩ := hcompresses.exists_relationships hp
  exact ⟨_, hstores.topology hcompresses hmem⟩

theorem eq_of_valuesGiven_ranked {x : Nat} (h : valuesGiven (mentionsIn ranked) x "rank" ≠ []) :
    x = 1 ∨ x = 2 := by
  have ⟨m, hm, he⟩ := exists_mention_of_valuesGiven h
  simp only [mentionsIn, ranked, Call.mention?, List.filterMap_cons, List.filterMap_nil, List.mem_cons,
    List.not_mem_nil, or_false] at hm
  exact he ▸ hm.imp (congrArg Mention.external) (congrArg Mention.external)

theorem not_givenDouble_ranked : ¬GivenDouble (mentionsIn ranked) "rank" := by
  rintro ⟨x, y, hy⟩
  have hA : valuesGiven (mentionsIn ranked) 1 "rank" = [.long 1] := rfl
  have hB : valuesGiven (mentionsIn ranked) 2 "rank" = [.long 2] := rfl
  cases eq_of_valuesGiven_ranked (List.ne_nil_of_mem hy) <;> simp_all

theorem exists_ranked :
    ∃ s v, (attempts ranked).build 4 {} = .ok s ∧ s.nodes.toExternal v = .ok 2 ∧
      (∀ label, label ∈ s.nodes.labelsOf v ↔ label = ⟨"B"⟩) ∧
      (∀ label ∈ [⟨"A"⟩, ⟨"B"⟩], label ∈ s.nodeLabels) ∧
      (∀ label, (∃ p, s.catalog.nodeProperty? label "rank" = some p) ↔ label = ⟨"A"⟩ ∨ label = ⟨"B"⟩) ∧
      ∀ label p, s.catalog.nodeProperty? label "rank" = some p → p.values.long? v = .ok (some 2) := by
  have hshort : Short (accepted ranked) := short_of_length_le
    (Nat.le_trans (Nat.mul_le_mul_left 2 (length_accepted_le ranked)) (show 2 * 3 ≤ Fault.maxRunLength by decide))
  obtain ⟨s, hb⟩ := @exists_build _ _ 4 {} (attempts_follows ranked) hshort
  obtain ⟨ms, hg, hms⟩ := attempts_settles (show Roomy ranked from show 2 ≤ Fault.maxNodeCount by decide)
  obtain ⟨types, _, hs⟩ := build_eq_ok hb
  have hnode : ∀ m ∈ mentionsIn ranked, ∃ v, s.nodes.toExternal v = .ok m.external := by
    intro m hm
    obtain ⟨m', hm', he⟩ := hms.known m hm
    exact he ▸ hs.exists_node hg hm'
  obtain ⟨u, hu⟩ := hnode ⟨1, [⟨"A"⟩], [("rank", .long 1)]⟩ List.mem_cons_self
  obtain ⟨v, hv⟩ := hnode ⟨2, [⟨"B"⟩], [("rank", .long 2)]⟩ (List.mem_cons_of_mem _ List.mem_cons_self)
  have hlabelsA : labelsGiven ms 1 = [⟨"A"⟩] := hms.labels 1
  have hlabelsB : labelsGiven ms 2 = [⟨"B"⟩] := hms.labels 2
  have hvaluesA : valuesGiven ms 1 "rank" = [.long 1] := hms.values 1 "rank"
  have hvaluesB : valuesGiven ms 2 "rank" = [.long 2] := hms.values 2 "rank"
  have hA : ⟨"A"⟩ ∈ s.nodes.labelsOf u := by simp [hs.mem_labelsOf_iff hg hu, hlabelsA]
  have hB : ⟨"B"⟩ ∈ s.nodes.labelsOf v := by simp [hs.mem_labelsOf_iff hg hv, hlabelsB]
  refine ⟨s, v, hb, hv, fun label => ?labels, ?known, fun label => ?stored, fun label p hp => ?value⟩
  case labels => simp [hs.mem_labelsOf_iff hg hv, hlabelsB]
  case known =>
    exact List.forall_mem_cons.mpr ⟨IdMap.known_of_contains (IdMap.mem_labelsOf.mp hA),
      List.forall_mem_singleton.mpr (IdMap.known_of_contains (IdMap.mem_labelsOf.mp hB))⟩
  case stored =>
    rw [hs.exists_nodeProperty?_iff hg]
    constructor
    case mp =>
      rintro ⟨w, x, hx, hl, hne⟩
      rw [hs.mem_labelsOf_iff hg hx] at hl
      cases eq_of_valuesGiven_ranked (hms.values x "rank" ▸ hne)
      case inl he => exact .inl (by simpa [he, hlabelsA] using hl)
      case inr he => exact .inr (by simpa [he, hlabelsB] using hl)
    case mpr =>
      intro hl
      cases hl
      case inl he => exact ⟨u, 1, hu, he ▸ hA, by simp [hvaluesA]⟩
      case inr he => exact ⟨v, 2, hv, he ▸ hB, by simp [hvaluesB]⟩
  case value =>
    obtain ⟨column, he, htype, hlast⟩ := hs.exists_column hg hp
    have hlast := hvaluesB ▸ hlast v 2 hv
    subst he
    cases column
    case double => exact absurd (hms.givenDouble.mp (htype.mp rfl)) not_givenDouble_ranked
    case long ns =>
      cases hlast
      case inl hnone => cases hnone.left
      case inr hsome =>
        obtain ⟨n, hn, hns⟩ := hsome
        cases hn
        exact congrArg Except.ok hns

-- After one of the labels has lost the key the other one still has a value for each node.
theorem exists_removed :
    ∃ s₀ v, (attempts ranked).build 4 {} = .ok s₀ ∧
      let s := s₀.run [.removeNodeProperty ⟨"B"⟩ "rank"]
      s.nodes.toExternal v = .ok 2 ∧ (∀ label, label ∈ s.nodes.labelsOf v ↔ label = ⟨"B"⟩) ∧
      (∀ label, (∃ p, s.catalog.nodeProperty? label "rank" = some p) ↔ label = ⟨"A"⟩) ∧
      (∀ label p, s.catalog.nodeProperty? label "rank" = some p → p.values.long? v = .ok (some 2)) ∧
      ∃ view, s.Gives [⟨"A"⟩, ⟨"B"⟩] view := by
  have ⟨s₀, v, hb, hv, hlabels, hknown, hstored, hvalue⟩ := exists_ranked
  have ⟨hn, hsize, hu⟩ := run_of_build hb (by simp [ranked]) [.removeNodeProperty ⟨"B"⟩ "rank"]
  have ⟨topology, ht⟩ := exists_topology_ranked hb
  have hlabel : s₀.nodes.hasLabel ⟨"B"⟩ = true := by
    have hB := NameMap.mem_keys_iff.mp (hknown ⟨"B"⟩ (List.mem_cons_of_mem _ List.mem_cons_self))
    exact NameMap.contains_iff.mpr hB
  have ⟨p, hp⟩ := (hstored ⟨"B"⟩).mpr (.inr rfl)
  have hs : s₀.run [.removeNodeProperty ⟨"B"⟩ "rank"] = _ := Store.mutate_removeNodeProperty hlabel hp
  have hcatalog : ∀ label, (s₀.run [.removeNodeProperty ⟨"B"⟩ "rank"]).catalog.nodeProperty? label "rank" =
      if label = ⟨"B"⟩ then none else s₀.catalog.nodeProperty? label "rank" := fun label => by
    rw [hs, Store.commit, Catalog.nodeProperty?_removeNodeProperty]
    simp
  have ⟨view, s', hg⟩ := (Store.getGraph_succeeds hn hsize hu [⟨"A"⟩, ⟨"B"⟩] [⟨"LINKS"⟩] none 2).mpr
    ⟨⟨List.cons_ne_nil _ _, hs ▸ hknown⟩, List.cons_ne_nil _ _, List.forall_mem_singleton.mpr
      ⟨⟨topology, hs ▸ ht⟩, fun _ h => nomatch h⟩⟩
  refine ⟨s₀, v, hb, hs ▸ hv, hs ▸ hlabels, fun label => ?stored, fun label p hp => ?value, view, .getGraph hg⟩
  case stored =>
    rw [hcatalog]
    split
    case isTrue h => simp [h]
    case isFalse h => simp [hstored, h]
  case value =>
    rw [hcatalog] at hp
    split at hp
    case isTrue => cases hp
    case isFalse => exact hvalue label p hp

end Removed

-- What is read of a node under a key, over all labels that store the key or in a view of some labels: what the
-- first label holds that stores the key and has the node, and otherwise nothing, unless a single label stores the
-- key. That label's values are read for all nodes.
theorem reads_of_build (hb : (attempts calls).build concurrency metrics = .ok s₀)
    (hsize : ∀ options, .options options ∈ calls → options.filterChunkSize ≤ Word64.greatest)
    (ms : List Store.Mutation) (hl : l ∈ ls) (hp : (s₀.run ms).catalog.nodeProperty? l key = some p) :
    let s := s₀.run ms
    (∃ values, s.nodeProperty key = .ok values ∧ s.Resolves (s.catalog.labelsStoring key) key values) ∧
      (s.catalog.labelsStoring key).Pairwise (·.name < ·.name) ∧
      (∀ l, l ∈ s.catalog.labelsStoring key ↔ ∃ p, s.catalog.nodeProperty? l key = some p) ∧
      ∀ view, s.Gives ls view → s.Presents ls key view := by
  have ⟨hn, hsize, hu⟩ := run_of_build hb hsize ms
  exact ⟨Store.exists_nodeProperty hu hp, Catalog.labelsStoring_ascending _ key, fun _ => Catalog.mem_labelsStoring,
    fun view hv => hv.presents hn hsize hu hl hp⟩

theorem reads_of_build_of_removed :
    ∃ s₀, (attempts ranked).build 4 {} = .ok s₀ ∧
      let s := s₀.run [.removeNodeProperty ⟨"B"⟩ "rank"]
      (∃ values, s.nodeProperty "rank" = .ok values ∧
        s.Resolves (s.catalog.labelsStoring "rank") "rank" values) ∧
      ∃ view, s.Gives [⟨"A"⟩, ⟨"B"⟩] view ∧ s.Presents [⟨"A"⟩, ⟨"B"⟩] "rank" view := by
  have ⟨s₀, _, hb, _, _, hstored, _, view, hg⟩ := exists_removed
  have ⟨p, hp⟩ := (hstored ⟨"A"⟩).mpr rfl
  have ⟨hread, _, _, hpresents⟩ := @reads_of_build _ 4 {} s₀ [⟨"A"⟩, ⟨"B"⟩] _ _ p hb (by simp [ranked])
    [.removeNodeProperty ⟨"B"⟩ "rank"] List.mem_cons_self hp
  exact ⟨s₀, hb, hread, view, hg, hpresents view hg⟩

-- So a node of whose labels none stores the key may have a value. Here its only label has just lost the key.
theorem exists_read_of_removed :
    ∃ s₀ v, (attempts ranked).build 4 {} = .ok s₀ ∧
      let s := s₀.run [.removeNodeProperty ⟨"B"⟩ "rank"]
      (∀ label, label ∈ s.nodes.labelsOf v ↔ label = ⟨"B"⟩) ∧ s.catalog.nodeProperty? ⟨"B"⟩ "rank" = none ∧
      (∃ values, s.nodeProperty "rank" = .ok values ∧ values.long? v = .ok (some 2)) ∧
      ∃ view values, s.Gives [⟨"A"⟩, ⟨"B"⟩] view ∧ view.nodeValues? "rank" = some values ∧
        ∃ w, view.toExternal w = s.nodes.toExternal v ∧ values.long? w = .ok (some 2) := by
  obtain ⟨s₀, v, hb, hv, hlabels, hstored, hvalue, view, hg⟩ := exists_removed
  obtain ⟨hn, hsize, hu⟩ := run_of_build hb (by simp [ranked]) [.removeNodeProperty ⟨"B"⟩ "rank"]
  have hmember : v ∈ (s₀.run [.removeNodeProperty ⟨"B"⟩ "rank"]).membersOf [⟨"A"⟩, ⟨"B"⟩] :=
    List.mem_filter.mpr ⟨List.mem_range.mpr (Numbering.lt_size_of_id? (IdMap.toExternal_eq_ok.mp hv)),
      IdMap.carries_iff.mpr ⟨⟨"B"⟩, List.mem_cons_of_mem _ List.mem_cons_self,
        IdMap.mem_labelsOf.mp ((hlabels ⟨"B"⟩).mpr rfl)⟩⟩
  refine ⟨s₀, v, hb, ?_⟩
  generalize s₀.run [.removeNodeProperty ⟨"B"⟩ "rank"] = s at *
  obtain ⟨p, hA⟩ := (hstored ⟨"A"⟩).mpr rfl
  have hB : s.catalog.nodeProperty? ⟨"B"⟩ "rank" = none :=
    Option.eq_none_iff_forall_ne_some.mpr fun p hp => absurd ((hstored ⟨"B"⟩).mp ⟨p, hp⟩) (by decide)
  have halone : ∀ ls values, s.Resolves ls "rank" values → s.storing ls "rank" = [⟨"A"⟩] →
      values.long? v = .ok (some 2) := fun ls values hr hs => by
    obtain ⟨p, hp, he⟩ := hr.alone ⟨"A"⟩ hs
    exact he ▸ hvalue ⟨"A"⟩ p hp
  refine ⟨hlabels, hB, ?store, ?view⟩
  case store =>
    obtain ⟨values, hvalues, hr⟩ := Store.exists_nodeProperty hu hA
    refine ⟨values, hvalues, halone _ values hr ?_⟩
    rw [Catalog.labelsStoring_eq_singleton hstored]
    simp [Store.storing, hA]
  case view =>
    obtain ⟨_, values, roots, hvalues, hr, hread⟩ := hg.presents hn hsize hu List.mem_cons_self hA
    obtain ⟨w, hw⟩ := List.mem_iff_getElem?.mp hmember
    obtain ⟨hexternal, hroot⟩ := hread w v hw
    refine ⟨view, values, hg, hvalues, w, hexternal, (congrArg Prod.fst hroot).trans (halone _ roots hr ?_)⟩
    simp [Store.storing, hA, hB]

end Loader

end PropertyGraph
