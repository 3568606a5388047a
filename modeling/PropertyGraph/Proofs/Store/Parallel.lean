import Mathlib.Algebra.Order.BigOperators.Group.List
import PropertyGraph.Proofs.Store.NodeProperties
import PropertyGraph.Proofs.View.Queries

namespace PropertyGraph

-- Every node has as many values as relationships.
def Topology.Parallel (t : Topology) (values : ValueRuns) : Prop :=
  ∀ v < t.nodeCount, ∃ xs, values.valuesOf v = .ok xs ∧ t.degree v = .ok xs.size

-- All nodes together have as many values as relationships.
structure Topology.Tallies (t : Topology) (values : ValueRuns) (targets : Nat → List Nat) (xs : Nat → Array Float) :
    Prop where
  targets_eq : ∀ v < t.nodeCount, t.targets v = .ok (targets v) ∧ t.degree v = .ok (targets v).length
  values_eq : ∀ v < t.nodeCount, values.valuesOf v = .ok (xs v)
  total : ((List.range t.nodeCount).map fun v => (xs v).size).sum =
    ((List.range t.nodeCount).map fun v => (targets v).length).sum

-- A visitor of a node sees its targets with these values, and with the fallback behind the last value.
def Projection.ShowsFilled (p : Projection) (targets : Nat → List Nat) (xs : Nat → Array Float) : Prop :=
  ∀ v < p.topology.nodeCount, ∀ fallback, ∀ {σ : Type} (visitor : σ → Nat → Float → σ × Bool) (s : σ),
    p.visitValues v fallback visitor s =
      .ok (Visitor.run (fun s x => visitor s x.1 x.2) (filled (targets v) (xs v) fallback) s)

namespace Topology

variable {t : Topology} {values : ValueRuns} {targets : Nat → List Nat} {xs : Nat → Array Float}

theorem exists_tallies (hs : t.Stores targets) (hl : values.LaidOut) (hf : Catalog.Fits t values) :
    ∃ xs, t.Tallies values targets xs := by
  have ⟨xs, hxs, hsum⟩ := hl.exists_valuesOf
  have ⟨hn, hc⟩ := hf
  rw [hn] at hxs hsum
  exact ⟨xs, fun v hv => Intersection.targets_of_serves hs.serves hv, hxs, hsum.trans (hc.trans hs.count)⟩

-- What one node has too much another one lacks.
theorem Tallies.parallel_or_short (h : t.Tallies values targets xs) :
    t.Parallel values ∨ ∃ v < t.nodeCount, (xs v).size < (targets v).length := by
  by_cases hshort : ∃ v < t.nodeCount, (xs v).size < (targets v).length
  case pos => exact .inr hshort
  case neg =>
    have hle : ∀ v ∈ List.range t.nodeCount, (targets v).length ≤ (xs v).size := fun v hv =>
      Nat.le_of_not_lt fun hlt => hshort ⟨v, List.mem_range.mp hv, hlt⟩
    refine .inl fun v hv => ⟨xs v, h.values_eq v hv, ?_⟩
    have hv' : v ∈ List.range t.nodeCount := List.mem_range.mpr hv
    have heq : (targets v).length = (xs v).size := by
      by_contra hne
      have hlt := List.sum_lt_sum _ _ hle ⟨v, hv', Nat.lt_of_le_of_ne (hle v hv') hne⟩
      exact Nat.ne_of_gt hlt h.total
    exact heq ▸ (h.targets_eq v hv).right

end Topology

namespace Store

-- A store has a column under a key of a type with this topology.
def HasColumn (s : Store) (t : RelType) (topology : Topology) (key : String) (p : RelationshipProperty) : Prop :=
  s.catalog.topologies.find? t = some topology ∧ s.catalog.relationshipProperty? t key = some p

-- The columns that a store was given for its topologies, and those that came with the types that were added.
inductive Supplied (topologies : NameMap RelType Topology) (columns : NameMap RelType (NameMap String ValueRuns))
    (ms : List Mutation) (t : RelType) (key : String) : Topology → ValueRuns → Prop
  | given {topology cs values} : topologies.find? t = some topology → columns.find? t = some cs →
    cs.find? key = some values → Supplied topologies columns ms t key topology values
  | added {rs values} : .addRelationshipType t rs ∈ ms → rs.properties.find? key = some values →
    Supplied topologies columns ms t key rs.topology values

variable {nodeList : List (Nat × List Label)} {nodes : IdMap}
  {nodeColumns : NameMap Label (NameMap String Column)} {topologies : NameMap RelType Topology}
  {columns : NameMap RelType (NameMap String ValueRuns)} {options : StoreOptions} {metrics : Metrics}
  {s s' : Store} {ms : List Mutation} {t : RelType} {topology : Topology} {key : String} {p : RelationshipProperty}
  {ls : List Label} {ts : List RelType} {workers : Nat} {view : View} {values : ValueRuns}

-- A store takes columns as they are, if their totals fit.
theorem run_supplied (h : of nodes nodeColumns topologies columns options metrics = .ok s)
    (hh : (s.run ms).HasColumn t topology key p) :
    Supplied topologies columns ms t key topology p.values ∧ Catalog.Fits topology p.values := by
  have ha := of_eq_ok h
  refine (@run_induction s (fun s => s.catalog.Closed ∧ ∀ t topology key p, s.HasColumn t topology key p →
      Supplied topologies columns ms t key topology p.values ∧ Catalog.Fits topology p.values) ms
    ⟨ha.closed, fun t topology key p hh => ?given⟩
    fun s ⟨hc, hs⟩ m hm => ⟨(mutate_changed s m).closed hc, fun t topology key p hh => ?kept⟩).right t topology key p hh
  case given =>
    obtain ⟨cs, topology', values, hcs, ht, hv, hf, rfl⟩ := ha.given hh.right
    have he : topology' = topology := Option.some.inj (ht.symm.trans (ha.topologies_eq ▸ hh.left))
    exact he ▸ ⟨.given ht hcs hv, hf⟩
  case kept =>
    cases (mutate_changed s m).column_cases hc hh.left hh.right
    case inl hsame => exact hs t topology key p hsame
    case inr hadded =>
      obtain ⟨rs, values, rfl, rfl, _, hv, hf, rfl⟩ := hadded
      exact ⟨.added hm hv, hf⟩

-- The parts of a view with a key have the columns of their types.
theorem Reachable.aligned_of_getGraph (h : s.Reachable)
    (hg : s.getGraph ls ts (some key) workers = (.ok view, s'))
    (hp : ∀ t ∈ ts, ∀ topology p, s.HasColumn t topology key p → topology.Parallel p.values) :
    ∀ part ∈ view.parts, part.hasValues = true ∧ part.projection.Aligned := by
  intro part hm
  have ⟨hmaterialize, ho⟩ := getGraph_eq_ok hg
  have ⟨nodeProperties, subset, _, _, hparts, _⟩ := materialize_eq_ok hmaterialize
  have ⟨c, hc, hproject⟩ := Outcome.exists_of_forall₂_right hparts hm
  obtain ⟨t, ht, rfl⟩ := List.mem_map.mp hc
  obtain ⟨topology, hf, rfl⟩ := project_eq_ok.mp hproject
  have ht : t ∈ ts := List.mem_eraseDups.mp ht
  have ⟨p, hk⟩ := (ho t ht).right key rfl
  have hprojection : (partOf (s.projectionOf nodeProperties ⟨t, some key⟩ topology) subset).projection =
      s.projectionOf nodeProperties ⟨t, some key⟩ topology := by
    cases subset <;> rfl
  have hvalues := values_projectionOf nodeProperties topology hk
  rw [Part.hasValues, hprojection]
  refine ⟨by rw [hvalues]; rfl, fun runs hr v hv => ?_⟩
  obtain rfl : p.values = runs := Option.some.inj (hvalues.symm.trans hr)
  exact hp t ht topology p ⟨hf, hk⟩ v ((h.sound.topologies t topology hf).right ▸ hv)

-- A view whose columns are parallel to their topologies has no use for the fallback.
theorem Reachable.answers_of_parallel (h : s.Reachable) (hsize : s.options.filterChunkSize ≤ Word64.greatest)
    (hg : s.getGraph ls ts (some key) workers = (.ok view, s'))
    (hp : ∀ t ∈ ts, ∀ topology p, s.HasColumn t topology key p → topology.Parallel p.values) :
    ∃ seen, ∀ fallback, view.Answers fallback seen := by
  have haligned := h.aligned_of_getGraph hg hp
  have hmade := h.made_of_getGraph hsize hg
  have hseen : ∀ part ∈ view.parts, ∃ seen : Nat → List (Nat × Float), ∀ fallback, part.Answers fallback seen := by
    intro part hm
    have ⟨hv, ha⟩ := haligned part hm
    have ⟨seen, hs, hsame⟩ := (hmade part hm).left.exists_seen ha
    exact ⟨seen 0, fun fallback => hsame hv fallback 0 ▸ hs fallback⟩
  choose! seen hs using hseen
  exact ⟨_, fun fallback => View.answers_of_parts fun part hm => ⟨hs part hm fallback, (hmade part hm).right⟩⟩

-- A column is taken whose totals fit.
theorem exists_of_column (hcount : topology.nodeCount = nodes.nodeCount) (hf : Catalog.Fits topology values)
    (t : RelType) (key : String) (options : StoreOptions) (metrics : Metrics) :
    ∃ s, of nodes ∅ (.ofList [(t, topology)]) (.ofList [(t, .ofList [(key, values)])]) options metrics = .ok s ∧
      s.nodes = nodes ∧ s.catalog.nodeProperties = ∅ ∧ s.HasColumn t topology key ⟨key, .persistent, values⟩ := by
  have hfits : ∀ key' values', (NameMap.ofList [(key, values)]).find? key' = some values' →
      Catalog.Fits topology values' := by
    intro key' values' h
    obtain ⟨_, rfl⟩ := NameMap.find?_ofList_singleton.mp h
    exact hf
  have ⟨s, hs⟩ := @exists_of nodes ∅ (.ofList [(t, topology)]) (.ofList [(t, .ofList [(key, values)])]) ∅ rfl
    (fun t' topology' h => by
      obtain ⟨_, rfl⟩ := NameMap.find?_ofList_singleton.mp h
      exact hcount)
    (fun t' cs h => by
      obtain ⟨rfl, rfl⟩ := NameMap.find?_ofList_singleton.mp h
      exact ⟨topology, NameMap.find?_insert_self .., hfits⟩) options metrics
  have ha := of_eq_ok hs
  refine ⟨s, hs, ha.nodes_eq, (Except.ok.inj ha.nodeProperties).symm, ?topology, ?column⟩
  case topology => exact ha.topologies_eq ▸ NameMap.find?_insert_self ..
  case column =>
    have ⟨ps, hps⟩ := Catalog.exists_fitColumns hfits t .persistent
    have hp : s.catalog.relationshipProperties.find? t = some ps :=
      (ha.properties t ps).mpr ⟨_, _, NameMap.find?_insert_self .., NameMap.find?_insert_self .., hps⟩
    rw [Catalog.relationshipProperty?, Catalog.propertiesOf, hp, Option.getD_some]
    exact (Catalog.find?_fitColumns hps).mpr ⟨values, NameMap.find?_insert_self .., hf, rfl⟩

theorem exists_view_of_column (hh : s.HasColumn t topology key p) (hcovers : s.nodes.coversAll ls = .ok true)
    (hl : ls ≠ []) (hnone : s.catalog.nodeProperties = ∅) (workers : Nat) :
    ∃ nodeProperties s', s.getGraph ls [t] (some key) workers =
      (.ok (.single (.whole (s.projectionOf nodeProperties ⟨t, some key⟩ topology))), s') := by
  have huniform : Uniform s.catalog := fun key l _ p _ hp => by
    rw [Catalog.nodeProperty?, Catalog.nodePropertiesOf, hnone] at hp
    cases hp
  obtain ⟨nodeProperties, hviews⟩ := exists_nodePropertyViews huniform ls
  have ho : s.Offers (some key) t := ⟨⟨topology, hh.left⟩, fun k hk => Option.some.inj hk ▸ ⟨p, hh.right⟩⟩
  exact ⟨nodeProperties, exists_getGraph_of_covers hcovers hl hviews ho hh.left workers⟩

-- Two nodes and a relationship from the first to the second.
theorem exists_edge : ∃ nodes rs targets, IdMap.ofNodes [(0, [⟨"A"⟩]), (1, [⟨"A"⟩])] = .ok nodes ∧
    ((Batch.empty 2 .natural []).collect [.addDefault 0 1]).compress 1 = .ok rs ∧
    nodes.coversAll [⟨"A"⟩] = .ok true ∧ nodes.nodeCount = 2 ∧ rs.topology.nodeCount = 2 ∧
    rs.topology.relationshipCount = 1 ∧ rs.topology.Serves 2 targets ∧ targets 0 = [1] ∧ targets 1 = [] := by
  have ⟨nodes, hnodes, hcount, hlabels⟩ := @IdMap.exists_ofNodes_labeled [(0, [⟨"A"⟩]), (1, [⟨"A"⟩])]
    (by decide) (by decide)
  have ⟨rs, hrs, hn, _⟩ := Relationships.exists_built 2 .natural [] [.addDefault 0 1] 1 (by decide) (by decide)
  have hcount : nodes.nodeCount = 2 := hcount
  have hfirst := hlabels 0 _ rfl ⟨"A"⟩ List.mem_cons_self
  have hsecond := hlabels 1 _ rfl ⟨"A"⟩ List.mem_cons_self
  have hcovers : nodes.coversAll [⟨"A"⟩] = .ok true := by
    refine (IdMap.ofNodes_sound hnodes).coversAll_of_carries (fun l hl => ?known) fun v hv => ?carries
    case known => exact List.mem_singleton.mp hl ▸ IdMap.known_of_contains hfirst
    case carries =>
      refine IdMap.carries_iff.mpr ⟨_, List.mem_cons_self, ?_⟩
      obtain rfl | rfl : v = 0 ∨ v = 1 := by omega
      · exact hfirst
      · exact hsecond
  have hs := (Relationships.stores_of_compress hrs).topology
  have hrows : Batch.rowsOfCalls 2 .natural [] [.addDefault 0 1] = [⟨0, 1, []⟩] := rfl
  have hmerges : ((Batch.empty 2 .natural []).collect [.addDefault 0 1]).layout.aggregation.merges = false := rfl
  have htargets : ∀ v, ((Batch.empty 2 .natural []).collect [.addDefault 0 1]).targetsOf
      (Batch.rowsOfCalls 2 .natural [] [.addDefault 0 1]) v = if v = 0 then [1] else [] := by
    intro v
    rw [hrows, Batch.targetsOf, Batch.stored, Relationships.finish_of_not_merges hmerges]
    cases v <;> simp
  have hcount' := hs.count
  rw [hn] at hcount'
  exact ⟨nodes, rs, _, hnodes, hrs, hcovers, hcount, hn, hcount'.trans (by simp [htargets]; rfl), hn ▸ hs.serves,
    htargets 0, htargets 1⟩

-- Every column is the one that was supplied, with as many values as there are relationships. So it is parallel to its
-- topology, or leaves a relationship to the fallback somewhere. A view of parallel columns never shows the fallback.
theorem run_parallel (hn : IdMap.ofNodes nodeList = .ok nodes)
    (h : of nodes nodeColumns topologies columns options metrics = .ok s)
    (ht : ∀ t topology, topologies.find? t = some topology → topology.Built)
    (hm : ∀ t rs, .addRelationshipType t rs ∈ ms → rs.topology.Built)
    (hl : ∀ t key topology values, Supplied topologies columns ms t key topology values → values.LaidOut)
    (hsize : options.filterChunkSize ≤ Word64.greatest) :
    (∀ t topology key p, (s.run ms).HasColumn t topology key p →
      Supplied topologies columns ms t key topology p.values ∧
      ∃ targets xs, topology.Tallies p.values targets xs ∧
        (topology.Parallel p.values ∨ ∃ v < topology.nodeCount, (xs v).size < (targets v).length) ∧
        ∀ nodeProperties,
          ((s.run ms).projectionOf nodeProperties ⟨t, some key⟩ topology).ShowsFilled targets xs) ∧
    ∀ ls ts key workers view s', (s.run ms).getGraph ls ts (some key) workers = (.ok view, s') →
      (∀ t ∈ ts, ∀ topology p, (s.run ms).HasColumn t topology key p → topology.Parallel p.values) →
      ∃ seen, ∀ fallback, view.Answers fallback seen := by
  have hreachable : (s.run ms).Reachable := Reachable.run (.assembled hn ht h) hm
  have hsize : (s.run ms).options.filterChunkSize ≤ Word64.greatest := by
    rwa [(run_fixed s ms).right, (of_eq_ok h).options_eq]
  refine ⟨fun t topology key p hh => ?column, fun _ _ _ _ _ _ hg hp => hreachable.answers_of_parallel hsize hg hp⟩
  have ⟨hsupplied, hfits⟩ := run_supplied h hh
  have hsound := hreachable.sound
  have ⟨hbuilt, hcount⟩ := hsound.topologies t topology hh.left
  have hle : topology.nodeCount ≤ Word64.greatest := hcount ▸ Nat.le_trans hsound.nodes.bounded (by decide)
  have ⟨targets, hs⟩ := hbuilt.stores hle
  have ⟨xs, htallies⟩ := Topology.exists_tallies hs (hl t key topology p.values hsupplied) hfits
  refine ⟨hsupplied, targets, xs, htallies, htallies.parallel_or_short, fun nodeProperties v hv fallback => ?_⟩
  have hvalues := values_projectionOf nodeProperties topology hh.right
  exact fun {_} => Projection.visitValues_of_serves hs.serves hv hvalues (htallies.values_eq v hv) fallback

theorem run_parallel_of_canRelease :
    ∃ nodes rs s view s', IdMap.ofNodes [(0, [⟨"A"⟩]), (1, [⟨"A"⟩])] = .ok nodes ∧
      ((Batch.empty 2 .natural []).collect [.addDefault 0 1]).compress 1 = .ok rs ∧
      of nodes ∅ (.ofList [(⟨"LINKS"⟩, rs.topology)])
        (.ofList [(⟨"LINKS"⟩, .ofList [("w", ⟨#[0, 1, 1], #[5.0], 0.0⟩)])]) {} {} = .ok s ∧
      (s.run [.canRelease false]).getGraph [⟨"A"⟩] [⟨"LINKS"⟩] (some "w") 1 = (.ok view, s') ∧
      ∃ seen, ∀ fallback, view.Answers fallback seen := by
  obtain ⟨nodes, rs, targets, hnodes, hrs, hcovers, hcount, hn, hrelationships, hserves, hfirst, hsecond⟩ :=
    exists_edge
  have ⟨s, ho, hsame, hnone, hh⟩ := @exists_of_column nodes rs.topology ⟨#[0, 1, 1], #[5.0], 0.0⟩
    (hn.trans hcount.symm) ⟨hn.symm, hrelationships.symm⟩ ⟨"LINKS"⟩ "w" {} {}
  have hh' : (s.run [.canRelease false]).HasColumn ⟨"LINKS"⟩ rs.topology "w"
      ⟨"w", .persistent, ⟨#[0, 1, 1], #[5.0], 0.0⟩⟩ := hh
  have hcovers : (s.run [.canRelease false]).nodes.coversAll [⟨"A"⟩] = .ok true := hsame.symm ▸ hcovers
  have ⟨nodeProperties, s', hg⟩ := exists_view_of_column hh' hcovers (List.cons_ne_nil _ _) hnone 1
  refine ⟨nodes, rs, s, _, s', hnodes, hrs, ho, hg, ?_⟩
  have ⟨_, hviews⟩ := @run_parallel _ _ _ _ _ _ _ _ [.canRelease false] hnodes ho
    (fun t topology ht => by
      obtain ⟨_, rfl⟩ := NameMap.find?_ofList_singleton.mp ht
      exact .compressed ⟨_, _, _, _, _, hrs⟩)
    (fun t rs hm => nomatch List.mem_singleton.mp hm)
    (fun t key topology values h => by
      cases h with
      | given _ hc hv =>
        obtain ⟨_, rfl⟩ := NameMap.find?_ofList_singleton.mp hc
        obtain ⟨_, rfl⟩ := NameMap.find?_ofList_singleton.mp hv
        rfl
      | added hm _ => exact nomatch List.mem_singleton.mp hm)
    (by decide)
  refine hviews _ _ _ _ _ _ hg fun t ht topology p hp v hv => ?_
  obtain rfl := List.mem_singleton.mp ht
  obtain rfl : rs.topology = topology := Option.some.inj (hh'.left.symm.trans hp.left)
  obtain rfl : _ = p := Option.some.inj (hh'.right.symm.trans hp.right)
  obtain rfl | rfl : v = 0 ∨ v = 1 := by omega
  · exact ⟨#[5.0], rfl, (Intersection.targets_of_serves hserves (by decide)).right.trans (by rw [hfirst]; rfl)⟩
  · exact ⟨#[], rfl, (Intersection.targets_of_serves hserves (by decide)).right.trans (by rw [hsecond]; rfl)⟩

-- The totals of a column fit that has its only value for the wrong node.
theorem exists_fallback_of_totals :
    ∃ nodes rs s view s', IdMap.ofNodes [(0, [⟨"A"⟩]), (1, [⟨"A"⟩])] = .ok nodes ∧
      ((Batch.empty 2 .natural []).collect [.addDefault 0 1]).compress 1 = .ok rs ∧
      ValueRuns.ofLayout #[0, 0, 1] #[5.0] 0.0 = .ok ⟨#[0, 0, 1], #[5.0], 0.0⟩ ∧
      of nodes ∅ (.ofList [(⟨"LINKS"⟩, rs.topology)])
        (.ofList [(⟨"LINKS"⟩, .ofList [("w", ⟨#[0, 0, 1], #[5.0], 0.0⟩)])]) {} {} = .ok s ∧
      s.HasColumn ⟨"LINKS"⟩ rs.topology "w" ⟨"w", .persistent, ⟨#[0, 0, 1], #[5.0], 0.0⟩⟩ ∧
      ¬rs.topology.Parallel ⟨#[0, 0, 1], #[5.0], 0.0⟩ ∧
      s.getGraph [⟨"A"⟩] [⟨"LINKS"⟩] (some "w") 1 = (.ok view, s') ∧
      ∀ fallback, view.targetValues 0 fallback none = .ok [(1, fallback)] ∧
        view.relationshipValue 0 1 fallback = .ok fallback := by
  have ⟨nodes, rs, targets, hnodes, hrs, hcovers, hcount, hn, hrelationships, hserves, hfirst, _⟩ := exists_edge
  have ⟨s, ho, hsame, hnone, hh⟩ := @exists_of_column nodes rs.topology ⟨#[0, 0, 1], #[5.0], 0.0⟩
    (hn.trans hcount.symm) ⟨hn.symm, hrelationships.symm⟩ ⟨"LINKS"⟩ "w" {} {}
  have ⟨nodeProperties, s', hg⟩ := exists_view_of_column hh (hsame.symm ▸ hcovers) (List.cons_ne_nil _ _) hnone 1
  have hvalues : (⟨#[0, 0, 1], #[5.0], 0.0⟩ : ValueRuns).valuesOf 0 = .ok #[] := rfl
  have hprojection := values_projectionOf nodeProperties rs.topology hh.right
  refine ⟨nodes, rs, s, _, s', hnodes, hrs, rfl, ho, hh, fun hp => ?parallel, hg, fun fallback => ⟨?visited, ?asked⟩⟩
  case parallel =>
    have ⟨xs, hx, hd⟩ := hp 0 (hn ▸ by decide)
    obtain rfl : #[] = xs := Except.ok.inj (hvalues.symm.trans hx)
    have hd := Except.ok.inj ((Intersection.targets_of_serves hserves (by decide)).right.symm.trans hd)
    rw [hfirst] at hd
    cases hd
  case visited =>
    rw [View.targetValues, View.visitValues, View.parts, View.partsOf, View.visitParts, Part.visitValues,
      Projection.visitValues_of_serves hserves (by decide) hprojection hvalues, hfirst]
    rfl
  case asked =>
    rw [View.relationshipValue, Part.relationshipValue,
      Projection.relationshipValue_of_serves hserves (by decide) hprojection hvalues, hfirst]
    rfl

end Store

end PropertyGraph
