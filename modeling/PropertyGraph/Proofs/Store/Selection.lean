import PropertyGraph.Proofs.Store.Coherent
import PropertyGraph.Proofs.Store.Select

namespace PropertyGraph.Store

-- The targets that a store has of a node under a type, with the values of a key or with the fallback.
def storedPairs (s : Store) (key : Option String) (fallback : Float) (t : RelType) (node : Nat) :
    Except Fault (List (Nat × Float)) := do
  let targets ← (← s.catalog.topology t).targets node
  match key with
  | none => return targets.map (·, fallback)
  | some k =>
    match s.catalog.relationshipProperty? t k with
    | none => throw (.noRelationshipProperty k t)
    | some p => return targets.zip (← p.values.valuesOf node).toList

-- The pairs that a store has of a node under a type, one for each target.
def Has (s : Store) (key : Option String) (fallback : Float) (t : RelType) (node : Nat)
    (pairs : List (Nat × Float)) : Prop :=
  s.storedPairs key fallback t node = .ok pairs ∧
    (s.catalog.topology t >>= (·.targets node)) = .ok (pairs.map (·.1))

-- The nodes with one of the labels in ascending order.
def membersOf (s : Store) (ls : List Label) : List Nat :=
  (List.range s.nodeCount).filter (s.nodes.carries ls)

variable {s s' : Store} {ls : List Label} {ts : List RelType} {t : RelType} {key : Option String}
  {topology : Topology} {nodeProperties : NameMap String NodeValues} {subset : Option Subset}
  {p : Projection} {targets : Nat → List Nat} {values : Nat → List Float} {view : View} {workers : Nat}

theorem Coherent.exists_shows (h : s.Coherent) (ht : s.catalog.topologies.find? t = some topology)
    (nodeProperties : NameMap String NodeValues) (key : Option String) :
    ∃ targets values, (s.projectionOf nodeProperties ⟨t, key⟩ topology).Shows s.nodeCount targets values ∧
      topology.relationshipCount = ((List.range s.nodeCount).map fun v => (targets v).length).sum := by
  have ⟨rs, hb, hn, hf⟩ := h.types t topology ht
  have ⟨targets, hs⟩ := hb.stores
  have he : rs.topology = topology := Option.some.inj (hf.topology.symm.trans ht)
  have ⟨hserves, hcount, _⟩ := hs.topology
  rw [hn, he] at hserves
  rw [hn, he] at hcount
  have haligned : ∀ runs, (s.projectionOf nodeProperties ⟨t, key⟩ topology).values = some runs →
      ∀ v < s.nodeCount, ∃ values, runs.valuesOf v = .ok values ∧ values.size = (targets v).length := by
    intro runs hr v hv
    have ⟨k, hk, hr⟩ := Option.bind_eq_some_iff.mp hr
    have ⟨property, hp, hr⟩ := Option.map_eq_some_iff.mp hr
    exact hs.aligned k runs (hr ▸ hf.properties k property hp) v (hn ▸ hv)
  have ⟨values, hv⟩ := Projection.shows_of_aligned
    (p := s.projectionOf nodeProperties ⟨t, key⟩ topology) hserves haligned
  exact ⟨targets, values, hv, hcount⟩

-- A projection of a store shows what the store has.
theorem has_of_shows (ho : s.Offers key t) (ht : s.catalog.topologies.find? t = some topology)
    (hs : (s.projectionOf nodeProperties ⟨t, key⟩ topology).Shows s.nodeCount targets values) {v : Nat}
    (hv : v < s.nodeCount) (fallback : Float) :
    s.Has key fallback t v ((s.projectionOf nodeProperties ⟨t, key⟩ topology).seen targets values fallback v) := by
  have htargets : topology.targets v = .ok (targets v) := (Intersection.targets_of_serves hs.serves hv).left
  refine ⟨?pairs, ?targets⟩
  case pairs =>
    rw [storedPairs, Catalog.topology_eq_ok.mpr ht, Outcome.ok_bind, htargets, Outcome.ok_bind]
    cases key
    case none => rfl
    case some k =>
      have ⟨property, hp⟩ := ho.right k rfl
      have hvalues := values_projectionOf nodeProperties topology hp
      have hx := (hs.values _ hvalues v hv).left
      simp only [hp, hx, Outcome.ok_bind, Projection.seen, Projection.pairs, hvalues]
      rfl
  case targets =>
    rw [Catalog.topology_eq_ok.mpr ht, Outcome.ok_bind, htargets, hs.targets_seen hv]

-- A type that was added is offered with its columns.
theorem Coherent.offers_added (h : s.Coherent) {rs : Relationships} (hb : rs.Built)
    (hn : rs.topology.nodeCount = s.nodeCount) (hnew : s.catalog.topologies.contains t = false)
    (hk : ∀ k, key = some k → ∃ runs, rs.properties.find? k = some runs) :
    (s.mutate (.addRelationshipType t rs)).Offers key t ∧
      (s.mutate (.addRelationshipType t rs)).catalog.nodeProperties = s.catalog.nodeProperties := by
  obtain ⟨_, hs⟩ := hb.stores
  obtain ⟨ps, hps, he⟩ := addRelationshipType_of_admits (s := s) ⟨hn, hs.fit⟩
  have hm : s.mutate (.addRelationshipType t rs) =
      s.commit .addRelationshipType (s.catalog.addType t rs.topology ps) := by
    rw [mutate, answer, he, if_neg (Bool.eq_false_iff.mp hnew)]
  obtain ⟨htopology, hproperties⟩ := @Catalog.find?_addType_self s.catalog t rs.topology ps h.closed hnew
  rw [hm]
  refine ⟨⟨⟨rs.topology, htopology⟩, fun k hk' => ?_⟩, rfl⟩
  obtain ⟨runs, hr⟩ := hk k hk'
  have hp := (Catalog.find?_fitColumns hps).mpr ⟨runs, hr, hs.fit k runs hr, rfl⟩
  exact ⟨_, (hproperties k).trans hp⟩

namespace Chooses

theorem selects (h : s.Chooses ls subset) (hn : s.nodes.Sound)
    (hsize : s.options.filterChunkSize ≤ Word64.greatest) {sub : Subset} (hsub : subset = some sub) :
    sub.Selects s.nodes (s.nodes.carries ls) := by
  subst hsub
  have ⟨_, workers, h⟩ := h
  exact Subset.selects_of_ofLabels hn hsize h

theorem membersOf_eq_range (h : s.Chooses ls none) (hn : s.nodes.Sound) :
    s.membersOf ls = List.range s.nodeCount :=
  List.filter_eq_self.mpr fun v hv => (hn.coversAll_iff h).mp rfl v (List.mem_range.mp hv)

-- A part shows the members as its nodes, numbered in their order.
theorem numbers (h : s.Chooses ls subset) (hn : s.nodes.Sound)
    (hsize : s.options.filterChunkSize ≤ Word64.greatest) (hp : p.nodes = s.nodes) :
    (partOf p subset).nodeCount = (s.membersOf ls).length ∧
      ∀ v root : Nat, (s.membersOf ls)[v]? = some root →
        (partOf p subset).toExternal v = s.nodes.toExternal root ∧
        (partOf p subset).labelsOf v = .ok (s.nodes.labelsOf root) := by
  cases subset
  case none =>
    rw [membersOf_eq_range h hn]
    refine ⟨by simp [partOf, Part.nodeCount, hp, nodeCount], fun v root hv => ?_⟩
    have hv : v = root := by
      have ⟨_, hv⟩ := List.getElem?_eq_some_iff.mp hv
      rwa [List.getElem_range] at hv
    exact hv ▸ hp ▸ ⟨rfl, rfl⟩
  case some sub =>
    have hs := h.selects hn hsize rfl
    have hroots : sub.roots.toList = s.membersOf ls := hs.roots
    refine ⟨hroots ▸ sub.nodeCount_eq, fun v root hv => ?_⟩
    have hr : sub.toRoot v = .ok root := Subset.toRoot_eq_ok.mpr (hroots ▸ hv)
    constructor
    case left => simp [partOf, Part.toExternal, Subset.toExternal, hr, hs.root]
    case right => simp [partOf, Part.labelsOf, hr, hp]

theorem answers (h : s.Chooses ls subset) (hn : s.nodes.Sound)
    (hsize : s.options.filterChunkSize ≤ Word64.greatest) (hp : p.nodes = s.nodes)
    (hs : p.Shows s.nodeCount targets values)
    (hc : p.topology.relationshipCount = ((List.range s.nodeCount).map fun v => (targets v).length).sum)
    (fallback : Float) :
    (partOf p subset).Answers fallback (Part.seenIn (s.membersOf ls) (p.seen targets values fallback)) := by
  have hcount : p.nodes.nodeCount = s.nodeCount := congrArg IdMap.nodeCount hp
  cases subset
  case none =>
    rw [membersOf_eq_range h hn]
    refine (Part.whole_answers (hcount ▸ hs) (hcount ▸ hc) fallback).congr fun v hv => ?_
    have hv : v < s.nodeCount := hcount ▸ hv
    refine (Part.seenIn_range hv fun x hx => ?_).symm
    refine hs.serves.inside v hv x.1 ?_
    rw [← hs.targets_seen hv fallback]
    exact List.mem_map_of_mem hx
  case some sub =>
    have hsel := h.selects hn hsize rfl
    have hroots : sub.roots.toList = s.membersOf ls := hsel.roots
    rw [← hroots]
    exact Part.restricted_answers (hcount ▸ hs) (hp ▸ hsel) fallback

end Chooses

theorem Coherent.exists_stored (h : s.Coherent) (ho : ∀ t ∈ ts, s.Offers key t) (fallback : Float) :
    ∃ stored : RelType → Nat → List (Nat × Float),
      ∀ t ∈ ts, ∀ v < s.nodeCount, s.Has key fallback t v (stored t v) := by
  refine ⟨fun t v => (s.storedPairs key fallback t v).toOption.getD [], fun t ht v hv => ?_⟩
  have ⟨topology, htopology⟩ := (ho t ht).left
  have ⟨_, _, hshows, _⟩ := h.exists_shows htopology ∅ key
  have hs := has_of_shows (ho t ht) htopology hshows hv fallback
  simp only [hs.left]
  exact hs

theorem type_of_project {c : Choice} {part : Part} (h : s.project nodeProperties subset c = .ok part) :
    part.type = c.type := by
  have ⟨topology, _, he⟩ := project_eq_ok.mp h
  rw [he]
  cases subset <;> rfl

theorem Coherent.project_answers (h : s.Coherent) (hc : s.Chooses ls subset)
    (hsize : s.options.filterChunkSize ≤ Word64.greatest) (ho : s.Offers key t) {part : Part}
    (hp : s.project nodeProperties subset ⟨t, key⟩ = .ok part) {fallback : Float}
    {stored : Nat → List (Nat × Float)} (hs : ∀ v < s.nodeCount, s.Has key fallback t v (stored v)) :
    part.Answers fallback (Part.seenIn (s.membersOf ls) stored) ∧
      part.nodeCount = (s.membersOf ls).length ∧
      ∀ v root : Nat, (s.membersOf ls)[v]? = some root →
        part.toExternal v = s.nodes.toExternal root ∧ part.labelsOf v = .ok (s.nodes.labelsOf root) := by
  have ⟨topology, ht, he⟩ := project_eq_ok.mp hp
  have ⟨targets, values, hshows, hcount⟩ := h.exists_shows ht nodeProperties key
  have ⟨hn, hnodes⟩ := hc.numbers h.nodes hsize (p := s.projectionOf nodeProperties ⟨t, key⟩ topology) rfl
  subst he
  refine ⟨?answers, hn, hnodes⟩
  refine (hc.answers h.nodes hsize rfl hshows hcount fallback).congr fun v hv => ?_
  have hv : v < (s.membersOf ls).length := hn ▸ hv
  have hroot : (s.membersOf ls).getD v 0 < s.nodeCount := by
    rw [List.getD_eq_getElem?_getD, List.getElem?_eq_getElem hv]
    exact List.mem_range.mp (List.mem_filter.mp (List.getElem_mem hv)).left
  have hpairs := (has_of_shows ho ht hshows hroot fallback).left.symm.trans (hs _ hroot).left
  rw [Part.seenIn, Part.seenIn, Except.ok.inj hpairs]

-- A view of a store shows its members and what the store has of them, whether the labels cover all nodes or
-- not.
theorem Coherent.getGraph_shows (h : s.Coherent) (hsize : s.options.filterChunkSize ≤ Word64.greatest)
    (hg : s.getGraph ls ts key workers = (.ok view, s')) (fallback : Float) :
    view.nodeCount = (s.membersOf ls).length ∧
    (∀ v root : Nat, (s.membersOf ls)[v]? = some root →
      view.toExternal v = s.nodes.toExternal root ∧ view.labelsOf v = .ok (s.nodes.labelsOf root)) ∧
    ∃ stored : RelType → Nat → List (Nat × Float),
      (∀ t ∈ ts, ∀ v < s.nodeCount, s.Has key fallback t v (stored t v)) ∧
      view.Answers fallback fun v => ts.eraseDups.flatMap fun t =>
        Part.seenIn (s.membersOf ls) (stored t) v := by
  have ⟨hm, ho⟩ := getGraph_eq_ok hg
  have ⟨nodeProperties, subset, _, hc, hparts, hn⟩ := materialize_eq_ok hm
  have ⟨stored, hs⟩ := h.exists_stored ho fallback
  rw [List.forall₂_map_left_iff] at hparts
  have htypes : view.parts.map (·.type) = ts.eraseDups := by
    have ht : List.Forall₂ (fun t (part : Part) => t = part.type) ts.eraseDups view.parts :=
      hparts.imp fun _ _ hp => (type_of_project hp).symm
    rw [← List.forall₂_map_right_iff, List.forall₂_eq_eq_eq] at ht
    exact ht.symm
  have hpart : ∀ part ∈ view.parts,
      part.Answers fallback (Part.seenIn (s.membersOf ls) (stored part.type)) ∧
      part.nodeCount = (s.membersOf ls).length ∧
      ∀ v root : Nat, (s.membersOf ls)[v]? = some root →
        part.toExternal v = s.nodes.toExternal root ∧ part.labelsOf v = .ok (s.nodes.labelsOf root) := by
    intro part hmem
    have ⟨t, ht, hp⟩ := Outcome.exists_of_forall₂_right hparts hmem
    have ht := List.mem_eraseDups.mp ht
    have htype : part.type = t := type_of_project hp
    exact htype ▸ h.project_answers hc hsize (ho t ht) hp (hs t ht)
  have ⟨_, hcount, hnumbers⟩ := hpart view.head List.mem_cons_self
  refine ⟨hcount, hnumbers, stored, hs, ?answers⟩
  have ha := @View.answers_of_parts (fun part => Part.seenIn (s.membersOf ls) (stored part.type)) fallback
    view fun part hp => ⟨(hpart part hp).left, hn part hp⟩
  simp only [← htypes, List.flatMap_map]
  exact ha

end PropertyGraph.Store
