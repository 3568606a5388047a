import PropertyGraph.Proofs.Loader.Recount
import PropertyGraph.Proofs.Loader.Success
import PropertyGraph.Proofs.Store.Availability
import PropertyGraph.Proofs.Store.Selection

namespace PropertyGraph.Loader

open Relationships

variable {l : Loader} {calls : List Call} {concurrency : Nat} {metrics : Metrics} {t : RelType}
  {layout : Layout} {key : String} {j : Nat}

namespace PendingType

variable {b : IdMap.Builder} {pending : PendingType} {gs : List Given} {batch : Batch} {rs : Relationships}

-- Where parallel relationships are kept, the rows of a node are stored one by one.
theorem map_stored {rows : List Row} (h : batch.layout.aggregation = .none) (j v : Nat) :
    (batch.stored rows v).map (fun e => (e.target, e.valueAt j)) =
      ((rows.filter (·.source = v)).mergeSort (·.target ≤ ·.target)).map fun r => (r.target, r.valueAt j) := by
  rw [Batch.stored, finish_of_not_merges (by rw [h]; rfl), List.map_map]
  rfl

theorem exists_answers (h : Records b pending gs) (hb : pending.batch b.nodeCount = .ok batch)
    (hc : batch.compress concurrency = .ok rs) (ha : pending.layout.aggregation = .none)
    (hj : pending.keys[j]? = some key) :
    ∃ runs, rs.properties.find? key = some runs ∧
      ∀ p : Projection, p.nodes.nodeCount = b.nodeCount → p.topology = rs.topology → p.values = some runs →
        ∀ fallback, (Part.whole p).Answers fallback (pending.seen j) := by
  have ⟨hn, hlayout, hcolumns, hl⟩ := lists_of_records h hb
  have ht := Batch.tells_of_compress hl hc
  have ⟨runs, hr, _, hx⟩ := ht.kept j key doubleDefault (hcolumns ▸ keeps_of_records h hj)
  refine ⟨runs, hr, fun p hpn hpt hpv fallback => ?_⟩
  have hs : p.Shows p.nodes.nodeCount (batch.targetsOf pending.rows)
      fun v => (batch.stored pending.rows v).map (Entry.valueAt j) := by
    rw [hpn, ← hn]
    refine ⟨hpt ▸ Batch.serves_of_tells hl (Batch.lt_maxVector_of_compress hc) ht, fun runs' hr' v hv => ?_⟩
    have hr' : runs = runs' := Option.some.inj (hpv.symm.trans hr')
    exact ⟨hr' ▸ hx v _ (by simp [hv]), by simp [Batch.targetsOf]⟩
  have hcount : p.topology.relationshipCount = ((List.range p.nodes.nodeCount).map fun v =>
      (batch.targetsOf pending.rows v).length).sum := by
    rw [hpt, ht.relationshipCount, hpn, ← hn, List.map_map]
    simp [Batch.targetsOf, Function.comp_def]
  have hseen : p.seen (batch.targetsOf pending.rows)
      (fun v => (batch.stored pending.rows v).map (Entry.valueAt j)) fallback = pending.seen j := by
    funext v
    rw [Projection.seen, Projection.pairs, hpv, Option.isSome_some, if_pos rfl, Batch.targetsOf, List.zip_map',
      map_stored (hlayout ▸ ha)]
    rfl
  exact hseen ▸ Part.whole_answers hs hcount fallback

end PendingType

-- A view of a type over all nodes visits exactly the relationships that were added, each with the value that
-- it was given last under the key. The loader is assembled unless a node has too many of them.
theorem getGraph_recounts (h : load calls = .ok l) (hl : layoutOf t calls = some layout)
    (ha : layout.aggregation = .none) (hk : ∃ g ∈ givenOf t calls, ∃ x, (key, x) ∈ g.values)
    (concurrency : Nat) (metrics : Metrics) :
    (Short calls → ∃ s, l.build concurrency metrics = .ok s) ∧
    ∀ s, l.build concurrency metrics = .ok s → ∀ ls, (∀ label, label ∈ ls ↔ label ∈ s.nodeLabels) →
      ∀ workers, ∃ view s', s.getGraph ls [t] (some key) workers = (.ok view, s') ∧
        ∃ external seen,
          (∀ v < view.nodeCount, view.toExternal v = .ok (external v)) ∧
          (∀ fallback, view.Answers fallback seen) ∧
          Recounts view.nodeCount external seen
            ((givenOf t calls).flatMap (·.shown layout.orientation key)) := by
  have hf := load_follows h
  refine ⟨exists_build hf, fun s hb ls hls workers => ?_⟩
  have ⟨types, hc, hs⟩ := build_eq_ok hb
  have ⟨pending, hp, hlayout⟩ := Option.map_eq_some_iff.mp ((hf.declared t).trans hl)
  subst hlayout
  have hr := hf.records t pending hp
  have ⟨g, hg, x, hx⟩ := hk
  have ⟨j, hj⟩ := PendingType.mem_keys_of_records hr hg hx
  have ⟨rs, batch, hmem, hbatch, hcompress⟩ := hc.exists_relationships hp
  have ⟨runs, hruns, hanswers⟩ := PendingType.exists_answers hr hbatch hcompress ha hj
  have ⟨property, hproperty, hvalues⟩ := hs.exists_property hc hf hmem hruns
  have htopology := hs.topology hc hmem
  have hsound : s.nodes.Sound := hs.nodes_eq ▸ IdMap.Builder.build_sound hf.sound
  have ⟨views, hviews⟩ := Store.exists_nodePropertyViews
    (uniform_of_fitNodeColumns hs.nodeProperties) ls
  have hne : ls ≠ [] := by
    have ⟨label, hlabel⟩ := List.exists_mem_of_ne_nil _ hsound.known
    exact List.ne_nil_of_mem ((hls label).mpr hlabel)
  have hoffers : s.Offers (some key) t :=
    ⟨⟨_, htopology⟩, fun k hk => Option.some.inj hk ▸ ⟨_, hproperty⟩⟩
  have ⟨s', hget⟩ := Store.exists_getGraph_of_covers (hsound.coversAll_of_all hls) hne hviews hoffers
    htopology workers
  have hn : s.nodes.nodeCount = l.nodes.nodeCount := congrArg IdMap.nodeCount hs.nodes_eq
  refine ⟨_, s', hget, PendingType.externalOf l.nodes, pending.seen j, fun v hv => ?external,
    fun fallback => ?answers, ?recounts⟩
  case external =>
    have hv : v < s.nodes.nodeCount := hv
    have hid : s.nodes.externals.id? v = some (PendingType.externalOf l.nodes v) :=
      hs.nodes_eq ▸ PendingType.exists_external (hn ▸ hv)
    change s.nodes.toExternal v = _
    rw [IdMap.toExternal, hid]
  case answers =>
    refine View.single_answers (hanswers _ hn rfl ?_ fallback)
    rw [Store.projectionOf, Option.bind_some, hproperty, Option.map_some, hvalues]
  case recounts =>
    change Recounts s.nodes.nodeCount _ _ _
    rw [hn]
    exact PendingType.recounts hr hj

theorem getGraph_recounts_of_loop :
    ∃ l, load [.implicitNodes true, .declare ⟨"LINKS"⟩ .undirected, .addRelationship ⟨"LINKS"⟩ 7 9 [],
        .addRelationship ⟨"LINKS"⟩ 9 9 [("weight", 0.5), ("weight", 2.5)]] = .ok l ∧
      ∃ s, l.build 4 {} = .ok s ∧
        ∃ view s', s.getGraph s.nodeLabels [⟨"LINKS"⟩] (some "weight") 2 = (.ok view, s') ∧
          ∃ external seen,
            (∀ v < view.nodeCount, view.toExternal v = .ok (external v)) ∧
            (∀ fallback, view.Answers fallback seen) ∧
            Recounts view.nodeCount external seen
              [(7, 9, doubleDefault), (9, 7, doubleDefault), (9, 9, 2.5), (9, 9, 2.5)] := by
  have ⟨l, hload⟩ := exists_load ⟨"LINKS"⟩ .undirected
    [⟨7, 9, []⟩, ⟨9, 9, [("weight", 0.5), ("weight", 2.5)]⟩] (by decide)
  have ⟨hbuilt, hrecounts⟩ := @getGraph_recounts l _ ⟨"LINKS"⟩ .undirected "weight" hload rfl rfl
    ⟨⟨9, 9, [("weight", 0.5), ("weight", 2.5)]⟩, List.mem_cons_of_mem _ List.mem_cons_self, 2.5,
      List.mem_cons_of_mem _ List.mem_cons_self⟩ 4 {}
  have ⟨s, hs⟩ := hbuilt (short_of_length_le (by decide))
  exact ⟨l, hload, s, hs, hrecounts s hs s.nodeLabels (fun _ => Iff.rfl) 2⟩

theorem built_of_added {rs rs' : Relationships} {t' : RelType} (h : rs.Built)
    (hm : .addRelationshipType t' rs' ∈ [Store.Mutation.addRelationshipType t rs]) : rs'.Built := by
  cases List.mem_singleton.mp hm
  exact h

-- A type that is added to a loaded store can be viewed from then on.
theorem exists_getGraph_added {s₀ : Store} {rs : Relationships} {key? : Option String} {ls : List Label}
    {ts : List RelType} (hl : load calls = .ok l) (hb : l.build concurrency metrics = .ok s₀)
    (hsize : l.options.filterChunkSize ≤ Word64.greatest) (hbuilt : rs.Built)
    (hn : rs.topology.nodeCount = l.nodes.nodeCount) (hnew : l.types.find? t = none)
    (hk : ∀ k, key? = some k → ∃ runs, rs.properties.find? k = some runs) (hls : ls ≠ [])
    (hknown : ∀ label ∈ ls, label ∈ s₀.nodeLabels) (hts : ts ≠ []) (ht : ∀ t' ∈ ts, t' = t) (workers : Nat) :
    ∃ view s', (s₀.run [.addRelationshipType t rs]).getGraph ls ts key? workers = (.ok view, s') := by
  have ⟨hc, hnodes, hoptions⟩ := build_coherent hl hb
  have ⟨types, hcompresses, hstores⟩ := build_eq_ok hb
  have hnew : s₀.catalog.topologies.contains t = false := by
    refine Bool.eq_false_iff.mpr fun hcontains => ?_
    have ⟨_, hf⟩ := NameMap.contains_iff.mp hcontains
    have ⟨_, hx, _⟩ := (find?_topologies hcompresses.distinct).mp (hstores.topologies_eq ▸ hf)
    have ⟨_, _, hp, _⟩ := hcompresses.exists_pending hx
    simp [hnew] at hp
  have ⟨hoffers, hproperties⟩ := hc.offers_added hbuilt
    (hn.trans (congrArg IdMap.nodeCount hnodes.symm)) hnew hk
  have ⟨hsame, hkept⟩ := s₀.run_fixed [.addRelationshipType t rs]
  have ⟨views, hviews⟩ := @Store.exists_nodePropertyViews (s₀.run [.addRelationshipType t rs])
    (uniform_of_fitNodeColumns (hstores.nodeProperties.trans (congrArg Except.ok hproperties.symm))) ls
  have hknown : ∀ label ∈ ls, label ∈ (s₀.run [.addRelationshipType t rs]).nodeLabels := fun label hlabel => by
    rw [Store.nodeLabels, hsame]
    exact hknown label hlabel
  exact Store.exists_getGraph (hc.run fun _ _ => built_of_added hbuilt).nodes (hkept ▸ hoptions ▸ hsize) hls hknown hts
    (fun t' hmem => ht t' hmem ▸ hoffers) hviews workers

-- A view of a store that was loaded and changed shows the nodes with one of the labels, and of these nodes
-- everything that the store has among them.
theorem getGraph_shows_stored {s₀ s' : Store} {ms : List Store.Mutation} {ls : List Label}
    {ts : List RelType} {key : Option String} {view : View} {workers : Nat}
    (hl : load calls = .ok l) (hb : l.build concurrency metrics = .ok s₀)
    (hm : ∀ t rs, .addRelationshipType t rs ∈ ms → rs.Built)
    (hsize : l.options.filterChunkSize ≤ Word64.greatest)
    (hg : (s₀.run ms).getGraph ls ts key workers = (.ok view, s')) (fallback : Float) :
    let s := s₀.run ms
    view.nodeCount = (s.membersOf ls).length ∧
    (∀ v root : Nat, (s.membersOf ls)[v]? = some root →
      view.toExternal v = s.nodes.toExternal root ∧ view.labelsOf v = .ok (s.nodes.labelsOf root)) ∧
    ∃ stored : RelType → Nat → List (Nat × Float),
      (∀ t ∈ ts, ∀ v < s.nodeCount, s.Has key fallback t v (stored t v)) ∧
      view.Answers fallback fun v => ts.eraseDups.flatMap fun t =>
        Part.seenIn (s.membersOf ls) (stored t) v := by
  have ⟨hc, _, ho⟩ := build_coherent hl hb
  have ⟨_, hoptions⟩ := s₀.run_fixed ms
  exact (hc.run hm).getGraph_shows (hoptions ▸ ho ▸ hsize) hg fallback

theorem getGraph_shows_stored_of_label :
    ∃ l s₀ rs view s',
      load [.addNode 10 [⟨"A"⟩] [], .addNode 20 [⟨"B"⟩] [], .addNode 30 [⟨"A"⟩] []] = .ok l ∧
      l.build 4 {} = .ok s₀ ∧
      ((Batch.empty 3 .natural [("weight", 1.0)]).collect [.add 0 1 [0.5], .add 0 2 [2.0]]).compress 1 =
        .ok rs ∧
      let s := s₀.run [.addRelationshipType ⟨"LINKS"⟩ rs]
      s.getGraph [⟨"A"⟩] [⟨"LINKS"⟩, ⟨"LINKS"⟩] (some "weight") 2 = (.ok view, s') ∧
      view.nodeCount = (s.membersOf [⟨"A"⟩]).length ∧
      ∃ stored : RelType → Nat → List (Nat × Float),
        (∀ v < s.nodeCount, s.Has (some "weight") 0 ⟨"LINKS"⟩ v (stored ⟨"LINKS"⟩ v)) ∧
        view.Answers 0 fun v => Part.seenIn (s.membersOf [⟨"A"⟩]) (stored ⟨"LINKS"⟩) v := by
  have ⟨b, hload, hcount, hlabels⟩ := @exists_load_nodes
    [(10, [⟨"A"⟩]), (20, [⟨"B"⟩]), (30, [⟨"A"⟩])] (by decide) (by decide)
  have ⟨s₀, hbuild⟩ := @exists_build { nodes := b } _ 4 {} (load_follows hload) (short_of_length_le (by decide))
  have ⟨rs, hrs, hn, _, hcolumns⟩ := Relationships.exists_built 3 .natural [("weight", 1.0)]
    [.add 0 1 [0.5], .add 0 2 [2.0]] 1 (by decide) (by decide)
  have hbuilt : rs.Built := ⟨_, _, _, _, _, hrs⟩
  have hsize : ({} : StoreOptions).filterChunkSize ≤ Word64.greatest := by decide
  have hknown : (⟨"A"⟩ : Label) ∈ s₀.nodeLabels := by
    have hlabel := hlabels 0 (10, [⟨"A"⟩]) rfl ⟨"A"⟩ List.mem_cons_self
    have ⟨_, hnodes, _⟩ := build_coherent hload hbuild
    rw [Store.nodeLabels, hnodes]
    exact IdMap.known_of_contains (IdMap.Builder.contains_build (load_follows hload).sound.bounded hlabel)
  have ⟨view, s', hg⟩ := @exists_getGraph_added _ _ 4 {} ⟨"LINKS"⟩ s₀ rs (some "weight") [⟨"A"⟩]
    [⟨"LINKS"⟩, ⟨"LINKS"⟩] hload hbuild hsize hbuilt (hn.trans hcount.symm) rfl
    (fun k hk => hcolumns k (Option.some.inj hk ▸ List.mem_cons_self)) (List.cons_ne_nil _ _)
    (fun label hlabel => List.mem_singleton.mp hlabel ▸ hknown) (List.cons_ne_nil _ _) (by simp) 2
  have ⟨hview, _, stored, hhas, hanswers⟩ :=
    getGraph_shows_stored hload hbuild (fun _ _ => built_of_added hbuilt) hsize hg 0
  have htypes : [(⟨"LINKS"⟩ : RelType), ⟨"LINKS"⟩].eraseDups = [⟨"LINKS"⟩] := by decide
  simp only [htypes, List.flatMap_singleton] at hanswers
  exact ⟨_, s₀, rs, view, s', hload, hbuild, hrs, hg, hview, stored,
    hhas ⟨"LINKS"⟩ List.mem_cons_self, hanswers⟩

-- A store that was loaded can be viewed whenever that makes sense, whatever changes were made to it.
theorem build_serves {s₀ : Store} (hl : load calls = .ok l) (hb : l.build concurrency metrics = .ok s₀)
    (hsize : l.options.filterChunkSize ≤ Word64.greatest) (ms : List Store.Mutation) : (s₀.run ms).Serves := by
  have ⟨hc, _, ho⟩ := build_coherent hl hb
  have ⟨_, _, hstores⟩ := build_eq_ok hb
  have ⟨hnodes, hoptions⟩ := s₀.run_fixed ms
  exact Store.serves_of_uniform (hnodes ▸ hc.nodes) (hoptions ▸ ho ▸ hsize)
    ((uniform_of_fitNodeColumns hstores.nodeProperties).run ms)

theorem build_serves_of_other_type :
    ∃ l s₀, load [.addNode 10 [⟨"A"⟩] [], .addNode 20 [⟨"B"⟩] []] = .ok l ∧ l.build 4 {} = .ok s₀ ∧
      (s₀.run [.release, .addNodeProperty [⟨"A"⟩, ⟨"B"⟩] "rank" (.ofColumn (.long #[1, 2])),
        .removeNodeProperty ⟨"A"⟩ "rank", .removeNodeProperty ⟨"B"⟩ "rank",
        .addNodeProperty [⟨"B"⟩] "rank" (.ofColumn (.double #[0.5, 1.5])),
        .addNodeProperty [⟨"A"⟩] "rank" (.ofColumn (.long #[1, 2]))]).Serves := by
  have ⟨b, hload, _⟩ := @exists_load_nodes [(10, [⟨"A"⟩]), (20, [⟨"B"⟩])] (by decide) (by decide)
  have ⟨s₀, hbuild⟩ := @exists_build { nodes := b } _ 4 {} (load_follows hload) (short_of_length_le (by decide))
  have hsize : ({} : StoreOptions).filterChunkSize ≤ Word64.greatest := by decide
  exact ⟨_, s₀, hload, hbuild, build_serves hload hbuild hsize _⟩

end PropertyGraph.Loader
