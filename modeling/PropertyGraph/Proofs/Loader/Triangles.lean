import PropertyGraph.Proofs.Loader.Recount
import PropertyGraph.Proofs.Loader.Success
import PropertyGraph.Proofs.Store.Availability
import PropertyGraph.Proofs.Triangle.Cliques

namespace PropertyGraph.Loader

open Relationships

-- The pairs of different external ids that the relationships of a type connect.
def pairsOf (t : RelType) (calls : List Call) : Finset (Sym2 Nat) :=
  (((givenOf t calls).filter fun g => g.source ≠ g.target).map fun g => s(g.source, g.target)).toFinset

def graphOf (t : RelType) (calls : List Call) : SimpleGraph Nat :=
  .fromEdgeSet (pairsOf t calls)

variable {l : Loader} {calls : List Call} {concurrency workers : Nat} {metrics : Metrics} {t : RelType}
  {layout : Layout} {key : Option String} {s : Store} {ls : List Label} {x y : Nat}

theorem adj_graphOf : (graphOf t calls).Adj x y ↔
    x ≠ y ∧ ∃ g ∈ givenOf t calls, g.source = x ∧ g.target = y ∨ g.source = y ∧ g.target = x := by
  simp only [graphOf, pairsOf, SimpleGraph.fromEdgeSet_adj, Finset.mem_coe, List.mem_toFinset, List.mem_map,
    List.mem_filter, decide_eq_true_eq, Sym2.eq_iff]
  constructor
  case mp =>
    rintro ⟨⟨g, ⟨hg, _⟩, he⟩, hne⟩
    exact ⟨hne, g, hg, he⟩
  case mpr =>
    rintro ⟨hne, g, hg, he⟩
    refine ⟨⟨g, ⟨hg, fun hloop => hne ?_⟩, he⟩, hne⟩
    rcases he with ⟨rfl, rfl⟩ | ⟨rfl, rfl⟩
    exacts [hloop, hloop.symm]

namespace PendingType

variable {b : IdMap.Builder} {pending : PendingType} {gs : List Given} {v w : Nat}

-- The rows of undirected relationships lead from either end to the other one.
theorem exists_row_iff (h : Records b pending gs) (hu : pending.layout.orientation = .undirected)
    (hv : b.externals.id? v = some x) (hw : b.externals.id? w = some y) :
    (∃ row ∈ pending.rows, row.source = v ∧ row.target = w) ↔
      ∃ g ∈ gs, g.source = x ∧ g.target = y ∨ g.source = y ∧ g.target = x := by
  have hends : (x, y) ∈ pending.rows.map (fun r => (externalOf b r.source, externalOf b r.target)) ↔
      ∃ g ∈ gs, g.source = x ∧ g.target = y ∨ g.source = y ∧ g.target = x := by
    rw [rows_ends h, List.mem_flatMap]
    simp [hu, Orientation.ways, eq_comm, and_comm]
  have hx : externalOf b v = x := by rw [externalOf, hv, Option.getD_some]
  have hy : externalOf b w = y := by rw [externalOf, hw, Option.getD_some]
  rw [← hends, List.mem_map]
  refine exists_congr fun row => and_congr_right fun hrow => ?_
  obtain ⟨hs, ht⟩ := lt_of_mem_rows h hrow
  rw [Prod.mk.injEq, ← hx, ← hy, externalOf_inj hs (Numbering.lt_size_of_id? hv),
    externalOf_inj ht (Numbering.lt_size_of_id? hw)]

theorem hasRelationship_iff (h : Records b pending gs) (hu : pending.layout.orientation = .undirected)
    {batch : Batch} {rs : Relationships} (hb : pending.batch b.nodeCount = .ok batch)
    (hc : batch.compress concurrency = .ok rs) {p : Projection} (hp : p.topology = rs.topology)
    (hv : b.externals.id? v = some x) (hw : b.externals.id? w = some y) :
    p.hasRelationship v w = .ok true ↔ ∃ g ∈ gs, g.source = x ∧ g.target = y ∨ g.source = y ∧ g.target = x := by
  have ⟨hn, _, _, hl⟩ := lists_of_records h hb
  have hserves := Batch.serves_of_tells hl (Batch.lt_maxVector_of_compress hc) (Batch.tells_of_compress hl hc)
  rw [hn, ← hp] at hserves
  rw [Projection.hasRelationship_of_serves hserves (Numbering.lt_size_of_id? hv) (Numbering.lt_size_of_id? hw),
    Except.ok.injEq, decide_eq_true_eq, Batch.mem_targetsOf, exists_row_iff h hu hv hw]

theorem isUndirected_of_records (h : Records b pending gs) (hu : pending.layout.orientation = .undirected)
    {batch : Batch} {rs : Relationships} (hb : pending.batch b.nodeCount = .ok batch)
    (hc : batch.compress concurrency = .ok rs) : rs.topology.isUndirected = true := by
  have ⟨_, hlayout, _, hl⟩ := lists_of_records h hb
  exact decide_eq_true ((Batch.orientation_of_compress hl hc).trans (hlayout ▸ hu))

end PendingType

-- A loaded type can be viewed over all nodes.
theorem exists_whole_view {types : List (RelType × Relationships)} {rs : Relationships} (hf : l.Follows calls)
    (hc : l.Compresses concurrency types) (hs : l.Stores types s) (hm : (t, rs) ∈ types)
    (hls : ∀ label, label ∈ ls ↔ label ∈ s.nodeLabels)
    (hk : ∀ k, key = some k → ∃ property, s.catalog.relationshipProperty? t k = some property) (workers : Nat) :
    ∃ views s', s.getGraph ls [t] key workers =
      (.ok (.single (.whole (s.projectionOf views ⟨t, key⟩ rs.topology))), s') := by
  have htopology := hs.topology hc hm
  have hsound : s.nodes.Sound := hs.nodes_eq ▸ IdMap.Builder.build_sound hf.sound
  have ⟨views, hviews⟩ := Store.exists_nodePropertyViews (uniform_of_fitNodeColumns hs.nodeProperties) ls
  have hne : ls ≠ [] := by
    have ⟨label, hlabel⟩ := List.exists_mem_of_ne_nil _ hsound.known
    exact List.ne_nil_of_mem ((hls label).mpr hlabel)
  have ⟨s', hget⟩ := Store.exists_getGraph_of_covers (hsound.coversAll_of_all hls) hne hviews
    ⟨⟨_, htopology⟩, hk⟩ htopology workers
  exact ⟨views, s', hget⟩

-- Such a view draws the graph of the type.
theorem exists_drawn (hf : l.Follows calls) (hl : layoutOf t calls = some layout)
    (hu : layout.orientation = .undirected) (hb : l.build concurrency metrics = .ok s)
    (hls : ∀ label, label ∈ ls ↔ label ∈ s.nodeLabels)
    (hk : ∀ k, key = some k → ∃ property, s.catalog.relationshipProperty? t k = some property) (workers : Nat) :
    ∃ part s', s.getGraph ls [t] key workers = (.ok (.single part), s') ∧ part.Made ∧ part.isUndirected = true ∧
      part.Draws (graphOf t calls) := by
  have ⟨types, hc, hs⟩ := build_eq_ok hb
  have ⟨pending, hp, hlayout⟩ := Option.map_eq_some_iff.mp ((hf.declared t).trans hl)
  subst hlayout
  have hr := hf.records t pending hp
  have ⟨rs, batch, hmem, hbatch, hcompress⟩ := hc.exists_relationships hp
  have htopology := hs.topology hc hmem
  have ⟨views, s', hget⟩ := exists_whole_view hf hc hs hmem hls hk workers
  have hn : s.nodes.nodeCount = l.nodes.nodeCount := congrArg IdMap.nodeCount hs.nodes_eq
  have hid : ∀ v x, s.nodes.toExternal v = .ok x ↔ l.nodes.externals.id? v = some x := fun v x => by
    rw [IdMap.toExternal_eq_ok, hs.nodes_eq]
    rfl
  refine ⟨_, s', hget, .whole (.borrowed (build_reachable hf hb) (Store.project_eq_ok.mpr ⟨_, htopology, rfl⟩)),
    PendingType.isUndirected_of_records hr hu hbatch hcompress,
    ⟨fun v w x y hx hy hvw => ?connects, fun x y hxy => ?covers⟩⟩
  case connects =>
    have hx := (hid v x).mp hx
    have hy := (hid w y).mp hy
    have hne : x ≠ y := fun he => hvw (Numbering.id?_injective hx (he ▸ hy))
    have hrelated := PendingType.hasRelationship_iff hr hu hbatch hcompress
      (p := s.projectionOf views ⟨t, key⟩ rs.topology) rfl hx hy
    exact hrelated.trans (adj_graphOf.trans (and_iff_right hne)).symm
  case covers =>
    have ⟨_, g, hg, he⟩ := adj_graphOf.mp hxy
    have ⟨e, _, hstands⟩ := Outcome.exists_of_forall₂_right hr.edges hg
    have ⟨v, hv⟩ : ∃ v, l.nodes.externals.id? v = some x := by
      rcases he with ⟨rfl, _⟩ | ⟨_, rfl⟩
      exacts [⟨_, hstands.source⟩, ⟨_, hstands.target⟩]
    exact ⟨v, Nat.lt_of_lt_of_eq (Numbering.lt_size_of_id? hv) hn.symm, (hid v x).mpr hv⟩

-- A store that was loaded with an undirected type, whichever calls were rejected, and a request for all its nodes.
structure UndirectedRun where
  calls : List Call
  type : RelType
  layout : Layout
  declared : layoutOf type (accepted calls) = some layout
  undirected : layout.orientation = .undirected
  concurrency : Nat
  metrics : Metrics
  store : Store
  built : (attempts calls).build concurrency metrics = .ok store
  labels : List Label
  all : ∀ label, label ∈ labels ↔ label ∈ store.nodeLabels
  key : Option String
  stored : ∀ k, key = some k → ∃ property, store.catalog.relationshipProperty? type k = some property
  workers : Nat

namespace UndirectedRun

variable {r r' : UndirectedRun}

-- The pairs that the relationships connect that were accepted.
def pairs (r : UndirectedRun) : Finset (Sym2 Nat) := pairsOf r.type (accepted r.calls)

def view (r : UndirectedRun) : Except Fault View × Store :=
  r.store.getGraph r.labels [r.type] r.key r.workers

theorem exists_view (r : UndirectedRun) :
    ∃ part s', r.view = (.ok (.single part), s') ∧ part.Made ∧ part.isUndirected = true ∧
      part.Draws (.fromEdgeSet r.pairs) :=
  exists_drawn (attempts_follows r.calls) r.declared r.undirected r.built r.all r.stored r.workers

-- Loaded stores whose relationships connect the same pairs have the same triangles by external ids, and every node
-- is in as many of them, however the calls were ordered and the nodes numbered, and however often and in which
-- direction two nodes were related.
theorem triangles_of_pairs (h : r.pairs = r'.pairs) :
    ∃ view s view' s', r.view = (.ok view, s) ∧ r'.view = (.ok view', s') ∧
      ∀ c c' : TriangleConfig, c.maxDegree = noDegreeLimit → c'.maxDegree = noDegreeLimit →
        c.chunkSize ≤ Word64.greatest → c'.chunkSize ≤ Word64.greatest →
        (∀ anchors anchors' : List Nat, anchors.Perm (List.range view.nodeCount) →
          anchors'.Perm (List.range view'.nodeCount) → ∃ named named' : List Triangle,
            view.Enumerates c anchors named ∧ view'.Enumerates c' anchors' named' ∧
            (named.map Triangle.corners).Nodup ∧
            (named.map Triangle.corners).Perm (named'.map Triangle.corners) ∧
            ∀ S, S ∈ named.map Triangle.corners ↔ (SimpleGraph.fromEdgeSet r.pairs).IsNClique 3 S) ∧
        ∃ counts counts', view.countTriangles c false = .ok counts ∧ view'.countTriangles c' false = .ok counts' ∧
          counts.global = counts'.global ∧
          ∀ x v v', view.toInternal? x = some v → view'.toInternal? x = some v' →
            ∃ n, counts.perNode[v]? = some n ∧ counts'.perNode[v']? = some n := by
  have ⟨part, s, hv, hm, hu, hd⟩ := r.exists_view
  have ⟨part', s', hv', hm', hu', hd'⟩ := r'.exists_view
  rw [← h] at hd'
  refine ⟨.single part, s, .single part', s', hv, hv', fun c c' hc hc' hs hs' => ?_⟩
  have ⟨counts, hcounts, ht⟩ := View.tells_cliques hm hu hd hc hs
  have ⟨counts', hcounts', ht'⟩ := View.tells_cliques hm' hu' hd' hc' hs'
  refine ⟨fun anchors anchors' hp hp' => ?enumerated, counts, counts', hcounts, hcounts', ?counted⟩
  case enumerated =>
    have ⟨named, he, hn, hmem, _⟩ := ht anchors hp
    have ⟨named', he', hn', hmem', _⟩ := ht' anchors' hp'
    have hp := (List.perm_ext_iff_of_nodup hn hn').mpr fun S => (hmem S).trans (hmem' S).symm
    exact ⟨named, named', he, he', hn, hp, hmem⟩
  case counted =>
    have ⟨named, _, hn, hmem, hglobal, hlocal⟩ := ht _ (.refl _)
    have ⟨named', _, hn', hmem', hglobal', hlocal'⟩ := ht' _ (.refl _)
    have hp := (List.perm_ext_iff_of_nodup hn hn').mpr fun S => (hmem S).trans (hmem' S).symm
    refine ⟨?_, fun x v v' hx hx' => ⟨_, hlocal x v hx, hp.countP_eq _ ▸ hlocal' x v' hx'⟩⟩
    simpa [hglobal, hglobal'] using hp.length_eq

-- The first relationship comes too early to be accepted.
theorem exists_of_given (t : RelType) (layout : Layout) (hu : layout.orientation = .undirected) (early : Given)
    (gs : List Given) (hn : 2 * (gs.length + 2) ≤ Fault.maxRunLength) :
    ∃ r : UndirectedRun,
      r.calls = .addRelationship t early.source early.target early.values :: .implicitNodes true ::
        .declare t layout :: gs.map (fun g => .addRelationship t g.source g.target g.values) ∧
      accepted r.calls = r.calls.tail ∧ r.type = t := by
  have hroom : Fault.maxRunLength ≤ Fault.maxNodeCount := by decide
  obtain ⟨l, hload⟩ := exists_load t layout gs (by omega)
  obtain ⟨hl, haccepted⟩ := attempts_of_load hload
  obtain ⟨s, hs⟩ := @exists_build _ _ 4 {} (load_follows hload) (short_of_length_le (by simpa using hn))
  have hdeclared : layoutOf t (.implicitNodes true :: .declare t layout ::
      gs.map fun g => .addRelationship t g.source g.target g.values) = some layout := by
    have hnone : (gs.map fun g => Call.addRelationship t g.source g.target g.values).filterMap (Call.layout? t) = [] :=
      List.filterMap_eq_nil_iff.mpr (List.forall_mem_map.mpr fun _ _ => rfl)
    simp [layoutOf, List.filterMap_cons, hnone, Call.layout?]
  generalize hcalls : (.implicitNodes true :: .declare t layout ::
    gs.map fun g => .addRelationship t g.source g.target g.values : List Call) = calls at *
  obtain ⟨hc, ha⟩ := @attempt_undeclared {} t rfl early.source early.target early.values
  have hattempts : attempts (.addRelationship t early.source early.target early.values :: calls) = l := by
    rw [attempts, List.foldl_cons, ha]
    exact hl
  have haccepted : accepted (.addRelationship t early.source early.target early.values :: calls) = calls := by
    rw [accepted, acceptedFrom, hc, ha]
    exact haccepted
  exact ⟨⟨_, t, layout, haccepted.symm ▸ hdeclared, hu, 4, {}, s, hattempts.symm ▸ hs, s.nodeLabels, fun _ => Iff.rfl,
    none, fun _ h => absurd h.symm (Option.some_ne_none _), 2⟩, rfl, haccepted, rfl⟩

-- Two runs that relate 4, 7 and 9 in other orders and directions, one of them more often and the other with a loop.
theorem triangles_of_pairs_of_reordered :
    ∃ r r' : UndirectedRun,
      r.calls = [.addRelationship ⟨"LINKS"⟩ 1 4 [], .implicitNodes true, .declare ⟨"LINKS"⟩ .undirected,
        .addRelationship ⟨"LINKS"⟩ 7 9 [], .addRelationship ⟨"LINKS"⟩ 9 4 [],
        .addRelationship ⟨"LINKS"⟩ 9 7 [("weight", 0.5)], .addRelationship ⟨"LINKS"⟩ 4 7 []] ∧
      r'.calls = [.addRelationship ⟨"KNOWS"⟩ 1 9 [], .implicitNodes true, .declare ⟨"KNOWS"⟩ ⟨.undirected, .sum⟩,
        .addRelationship ⟨"KNOWS"⟩ 4 4 [], .addRelationship ⟨"KNOWS"⟩ 7 4 [], .addRelationship ⟨"KNOWS"⟩ 4 9 [],
        .addRelationship ⟨"KNOWS"⟩ 7 9 []] ∧
      r.pairs = r'.pairs ∧ ∃ view s view' s', r.view = (.ok view, s) ∧ r'.view = (.ok view', s') ∧
        ∃ (named named' : List Triangle) (counts counts' : TriangleCounts),
          view.Enumerates {} (List.range view.nodeCount) named ∧
          view'.Enumerates {} (List.range view'.nodeCount).reverse named' ∧
          (named.map Triangle.corners).Perm (named'.map Triangle.corners) ∧ {4, 7, 9} ∈ named.map Triangle.corners ∧
          view.countTriangles {} false = .ok counts ∧ view'.countTriangles {} false = .ok counts' ∧
          counts.global = counts'.global := by
  have ⟨r, hcalls, haccepted, htype⟩ := exists_of_given ⟨"LINKS"⟩ .undirected rfl ⟨1, 4, []⟩
    [⟨7, 9, []⟩, ⟨9, 4, []⟩, ⟨9, 7, [("weight", 0.5)]⟩, ⟨4, 7, []⟩] (by decide)
  have ⟨r', hcalls', haccepted', htype'⟩ := exists_of_given ⟨"KNOWS"⟩ ⟨.undirected, .sum⟩ rfl ⟨1, 9, []⟩
    [⟨4, 4, []⟩, ⟨7, 4, []⟩, ⟨4, 9, []⟩, ⟨7, 9, []⟩] (by decide)
  have hpairs : r.pairs = {s(7, 9), s(9, 4), s(4, 7)} := by
    rw [pairs, haccepted, hcalls, htype]
    decide
  have hpairs' : r'.pairs = {s(7, 9), s(9, 4), s(4, 7)} := by
    rw [pairs, haccepted', hcalls', htype']
    decide
  have hclique : (SimpleGraph.fromEdgeSet (r.pairs : Set (Sym2 Nat))).IsNClique 3 {4, 7, 9} := by
    rw [SimpleGraph.is3Clique_triple_iff, hpairs]
    simp
  have ⟨view, s, view', s', hv, hv', htriangles⟩ := triangles_of_pairs (hpairs.trans hpairs'.symm)
  have hsize : Chunk.defaultSize ≤ Word64.greatest := by decide
  have ⟨hfound, counts, counts', hcounts, hcounts', hglobal, _⟩ := htriangles {} {} rfl rfl hsize hsize
  have ⟨named, named', he, he', _, hp, hmem⟩ := hfound (List.range view.nodeCount) (List.range view'.nodeCount).reverse
    (.refl _) (List.reverse_perm _)
  exact ⟨r, r', hcalls, hcalls', hpairs.trans hpairs'.symm, view, s, view', s', hv, hv', named, named', counts, counts',
    he, he', hp, (hmem _).mpr hclique, hcounts, hcounts', hglobal⟩

end UndirectedRun

end PropertyGraph.Loader
