import PropertyGraph.Proofs.Relationship.Built

namespace PropertyGraph

open Relationships

-- The values of parallel rows, condensed.
def Aggregation.condense (a : Aggregation) : List (List Float) → List (List Float)
  | [] => []
  | vs :: vss => if a.merges then [vss.foldl (List.zipWith a.combine) (vs.map a.seed)] else vs :: vss

namespace Relationships

-- The values that stand beside one of the targets.
def valuesBeside (t : Nat) (targets : List Nat) (values : List Float) : List Float :=
  ((targets.zip values).filter (·.1 = t)).map (·.2)

-- The values of the rows between two nodes, in the order the rows came.
def valuesBetween (rows : List Row) (u v : Nat) : List (List Float) :=
  ((rows.filter (·.source = u)).filter (·.target = v)).map (·.values)

variable {a : Aggregation} {k t u v : Nat} {r : Row} {rows : List Row} {entries : List Entry}

theorem valuesBetween_append (rows rows' : List Row) (u v : Nat) :
    valuesBetween (rows ++ rows') u v = valuesBetween rows u v ++ valuesBetween rows' u v := by
  simp [valuesBetween]

theorem condense_group {others : List Row} (h : a.merges = true) :
    a.condense ((r :: others).map (·.values)) = [(Entry.ofGroup a r others).values] := by
  rw [List.map_cons, Aggregation.condense, if_pos h, List.foldl_map, Entry.ofGroup]

-- No target has a second entry where parallel rows are merged.
theorem filter_finish_of_mem (h : a.merges = true) {e : Entry} (he : e ∈ finish a rows) :
    (finish a rows).filter (·.target = e.target) = [e] := by
  have hasc := targets_ofSorted_ascending h (StableSort.mergeSort rows).ascending
  rw [← finish, List.pairwise_map] at hasc
  generalize finish a rows = entries at he hasc
  induction entries
  case nil => simp at he
  case cons e' entries hi =>
    obtain ⟨hlt, hp⟩ := List.pairwise_cons.mp hasc
    cases List.mem_cons.mp he
    case inl he =>
      subst he
      have hne : ∀ s ∈ entries, s.target ≠ e.target := fun s hs => Nat.ne_of_gt (hlt s hs)
      simpa using hne
    case inr he =>
      rw [List.filter_cons, if_neg (by simpa using Nat.ne_of_lt (hlt e he)), hi he hp]

-- What is stored of one target depends only on the values of its rows, whichever rows stand around them.
theorem values_filter_finish (a : Aggregation) (rows : List Row) (t : Nat) :
    ((finish a rows).filter (·.target = t)).map (·.values) =
      a.condense ((rows.filter (·.target = t)).map (·.values)) := by
  cases ha : a.merges
  case false =>
    have hc : ∀ vss, a.condense vss = vss := fun vss => by cases vss <;> simp [Aggregation.condense, ha]
    rw [hc, ← (StableSort.mergeSort rows).stable t, finish_of_not_merges ha, List.filter_map, List.map_map]
    rfl
  case true =>
    by_cases ht : t ∈ (finish a rows).map (·.target)
    case pos =>
      have ⟨e, he, het⟩ := List.mem_map.mp ht
      have ⟨r, others, hg, heq⟩ := exists_group_of_mem_finish ha he
      subst het
      rw [filter_finish_of_mem ha he, hg, condense_group ha, List.map_singleton, ← heq]
    case neg =>
      have hentries : (finish a rows).filter (·.target = t) = [] := by simpa using ht
      have hrows : rows.filter (·.target = t) = [] := by simpa [mem_targets_finish] using ht
      rw [hentries, hrows]
      rfl

theorem valuesBeside_entries (t k : Nat) (entries : List Entry) :
    valuesBeside t (entries.map (·.target)) (entries.map (Entry.valueAt k)) =
      ((entries.filter (·.target = t)).map (·.values)).map (·.getD k 0) := by
  rw [valuesBeside, List.zip_map', List.filter_map, List.map_map, List.map_map]
  rfl

theorem count_targets (t : Nat) (entries : List Entry) :
    (entries.map (·.target)).count t = ((entries.filter (·.target = t)).map (·.values)).length := by
  rw [List.length_map, ← List.countP_eq_length_filter, List.count, List.countP_map]
  rfl

end Relationships

namespace Batch

variable {b : Batch} {rows : List Row} {u v : Nat} {r : Relationships} {nodeCount width concurrency : Nat}
  {aggregation : Aggregation} {columns : List (String × Float)} {calls : List Call}

theorem values_filter_stored (b : Batch) (rows : List Row) (u v : Nat) :
    ((b.stored rows u).filter (·.target = v)).map (·.values) =
      b.layout.aggregation.condense (valuesBetween rows u v) :=
  values_filter_finish ..

-- Of the two rows of a relationship, one points from `u` to `v` and one back, or none does.
theorem valuesBetween_storedRows (nodeCount width : Nat) (r : Row) (u v : Nat) :
    valuesBetween (storedRows nodeCount .undirected width r) u v =
      valuesBetween (storedRows nodeCount .undirected width r) v u := by
  by_cases huv : u = v
  case pos => rw [huv]
  case neg =>
    rw [storedRows]
    split
    case isFalse => rfl
    case isTrue =>
      by_cases hu : r.source = u <;> by_cases hv : r.target = v <;> by_cases hu' : r.target = u <;>
        by_cases hv' : r.source = v <;> simp_all [valuesBetween, rowsIn]

theorem valuesBetween_rowsOfCalls (nodeCount : Nat) (aggregation : Aggregation)
    (columns : List (String × Float)) (calls : List Call) (u v : Nat) :
    valuesBetween (rowsOfCalls nodeCount ⟨.undirected, aggregation⟩ columns calls) u v =
      valuesBetween (rowsOfCalls nodeCount ⟨.undirected, aggregation⟩ columns calls) v u := by
  induction calls
  case nil => rfl
  case cons c calls hi =>
    rw [rowsOfCalls, List.flatMap_cons, ← rowsOfCalls, valuesBetween_append, valuesBetween_append, hi,
      valuesBetween_storedRows]

-- The calls that are accepted when they are made one after the other.
def accepted (b : Batch) : List Call → List Call
  | [] => []
  | c :: calls =>
    match b.perform c with
    | (.ok _, b') => c :: accepted b' calls
    | (.error _, b') => accepted b' calls

theorem length_rowsOfCalls (ho : b.layout.orientation = .undirected) (calls : List Call) :
    (rowsOfCalls b.nodeCount b.layout b.columns calls).length = 2 * (accepted b calls).length := by
  induction calls generalizing b
  case nil => rfl
  case cons c calls hi =>
    rw [rowsOfCalls, List.flatMap_cons, List.length_append, ← rowsOfCalls, accepted, perform_eq_add]
    generalize c.relationship (b.columns.map (·.2)) = r
    by_cases hr : b.Fits r
    case pos =>
      have hrows : storedRows b.nodeCount b.layout.orientation b.columns.length r = rowsIn .undirected r :=
        ho ▸ if_pos hr
      have hi := @hi ((b.push r.source r.target r.values).push r.target r.source r.values) ho
      change (rowsOfCalls b.nodeCount b.layout b.columns calls).length = _ at hi
      rw [hrows, add_of_fits hr, ho, hi]
      exact Nat.add_comm _ _
    case neg =>
      obtain ⟨f, hf⟩ := add_of_not_fits hr
      have hrows : storedRows b.nodeCount b.layout.orientation b.columns.length r = [] := if_neg hr
      rw [hrows, hf, List.length_nil, Nat.zero_add, hi ho]

theorem sum_length_filter_source (h : b.Lists rows) :
    ((List.range b.nodeCount).map fun v => (rows.filter (·.source = v)).length).sum = rows.length := by
  have hp := flatMap_filter_perm (·.source) rows b.nodeCount
  have hall : rows.filter (·.source < b.nodeCount) = rows :=
    List.filter_eq_self.mpr fun r hr => by simpa using (h.inside r hr).left
  rw [← List.length_flatMap, hp.length_eq, hall]

theorem exists_compress_iff (h : b.Lists rows) (concurrency : Nat) :
    (∃ r, b.compress concurrency = .ok r) ↔ b.nodeCount < Word64.maxVector ∧
      ∀ v < b.nodeCount, (b.stored rows v).length ≤ Fault.maxRunLength where
  mp := fun ⟨_, hc⟩ => ⟨lt_maxVector_of_compress hc, fun _ hv => length_le_of_compress h hc hv⟩
  mpr := fun ⟨hn, hl⟩ => have ⟨r, hc, _⟩ := compress_tells h hn concurrency hl; ⟨r, hc⟩

theorem relationshipCount_of_none (h : b.Lists rows) (hc : b.compress concurrency = .ok r)
    (ha : b.layout.aggregation = .none) : r.topology.relationshipCount = rows.length := by
  rw [(tells_of_compress h hc).relationshipCount, List.map_map, ← sum_length_filter_source h]
  refine congrArg List.sum (List.map_congr_left fun v _ => ?_)
  rw [Function.comp_apply, stored, ha, finish_of_not_merges rfl, List.length_map, List.length_mergeSort]

-- Two nodes between which the same values stand both ways have as many entries for each other, with the same
-- values.
theorem exists_targets_of_swap (h : b.Lists rows) (hc : b.compress concurrency = .ok r)
    (hswap : valuesBetween rows u v = valuesBetween rows v u) (hu : u < b.nodeCount) (hv : v < b.nodeCount) :
    ∃ us vs, r.topology.targets u = .ok us ∧ r.topology.targets v = .ok vs ∧ us.count v = vs.count u ∧
      ∀ key ∈ b.columns.map (·.1), ∃ runs xs ys,
        r.properties.find? key = some runs ∧ runs.valuesOf u = .ok xs ∧ runs.valuesOf v = .ok ys ∧
        xs.size = us.length ∧ ys.size = vs.length ∧
        valuesBeside v us xs.toList = valuesBeside u vs ys.toList := by
  have ht := tells_of_compress h hc
  have hs := serves_of_tells h (lt_maxVector_of_compress hc) ht
  have hentries : ((b.stored rows u).filter (·.target = v)).map (·.values) =
      ((b.stored rows v).filter (·.target = u)).map (·.values) := by
    rw [values_filter_stored, values_filter_stored, hswap]
  refine ⟨b.targetsOf rows u, b.targetsOf rows v, (Intersection.targets_of_serves hs hu).left,
    (Intersection.targets_of_serves hs hv).left, ?number, fun key hkey => ?values⟩
  case number => rw [targetsOf, targetsOf, count_targets, count_targets, hentries]
  case values =>
    obtain ⟨k, default, hkeeps⟩ := exists_keeps hkey
    obtain ⟨runs, hf, _, hvalues⟩ := ht.kept k key default hkeeps
    refine ⟨runs, _, _, hf, hvalues u (b.stored rows u) (by simp [hu]),
      hvalues v (b.stored rows v) (by simp [hv]), by simp [targetsOf], by simp [targetsOf], ?_⟩
    rw [targetsOf, targetsOf, valuesBeside_entries, valuesBeside_entries, hentries]

-- The numbers of entries between two nodes agree, and so do their values one by one, in every column. Where
-- parallel relationships are kept, each accepted call is counted once for both of its ends.
theorem compress_symmetric (nodeCount : Nat) (aggregation : Aggregation) (columns : List (String × Float))
    (calls : List Call) (concurrency : Nat) :
    let b := empty nodeCount ⟨.undirected, aggregation⟩ columns
    ((∃ r, (b.collect calls).compress concurrency = .ok r) ↔ nodeCount < Word64.maxVector ∧
      ∀ v < nodeCount, (finish aggregation
        ((rowsOfCalls nodeCount b.layout columns calls).filter (·.source = v))).length ≤ Fault.maxRunLength) ∧
    ∀ r, (b.collect calls).compress concurrency = .ok r →
      (∀ u < nodeCount, ∀ v < nodeCount, ∃ us vs,
        r.topology.targets u = .ok us ∧ r.topology.targets v = .ok vs ∧ us.count v = vs.count u ∧
        ∀ key ∈ columns.map (·.1), ∃ runs xs ys,
          r.properties.find? key = some runs ∧ runs.valuesOf u = .ok xs ∧ runs.valuesOf v = .ok ys ∧
          xs.size = us.length ∧ ys.size = vs.length ∧
          valuesBeside v us xs.toList = valuesBeside u vs ys.toList) ∧
      (∀ key ∉ columns.map (·.1), r.properties.find? key = none) ∧
      (aggregation = .none → r.topology.relationshipCount = 2 * (b.accepted calls).length) := by
  intro b
  have ⟨hn, hl, hk, hb⟩ : (b.collect calls).nodeCount = nodeCount ∧ (b.collect calls).layout = b.layout ∧
      (b.collect calls).columns = columns ∧
      (b.collect calls).Lists (rowsOfCalls nodeCount b.layout columns calls) := collect_empty ..
  refine ⟨?built, fun r hc => ⟨fun u hu v hv => ?targets, ?others, fun ha => ?count⟩⟩
  case built =>
    have hbuilt := exists_compress_iff hb concurrency
    simp only [stored, hn, hl] at hbuilt
    exact hbuilt
  case targets =>
    have hswap := valuesBetween_rowsOfCalls nodeCount aggregation columns calls u v
    have htargets := exists_targets_of_swap hb hc hswap (hn.symm ▸ hu) (hn.symm ▸ hv)
    rwa [hk] at htargets
  case others => exact hk ▸ (tells_of_compress hb hc).others
  case count =>
    rw [relationshipCount_of_none hb hc (by rw [hl]; exact ha)]
    exact length_rowsOfCalls (b := b) rfl calls

theorem compress_symmetric_of_parallel_edges :
    let b := empty 3 ⟨.undirected, .none⟩ [("weight", 1.0)]
    let calls : List Call := [.add 0 2 [0.5], .add 1 2 [4.0], .addDefault 2 0, .add 3 0 [2.0]]
    ∃ r : Relationships, (b.collect calls).compress 2 = .ok r ∧ r.topology.relationshipCount = 6 ∧
      ∃ us vs, r.topology.targets 0 = .ok us ∧ r.topology.targets 2 = .ok vs ∧ us.count 2 = vs.count 0 := by
  intro b calls
  have ⟨hbuilt, hsymmetric⟩ := compress_symmetric 3 .none [("weight", 1.0)] calls 2
  have ⟨r, hc⟩ := hbuilt.mpr ⟨by decide, fun v _ => Nat.le_trans length_finish_le
    (Nat.le_trans (List.length_filter_le _ _) (Nat.le_trans (length_rowsOfCalls_le ..) (by decide)))⟩
  have ⟨htargets, _, hcount⟩ := hsymmetric r hc
  have ⟨us, vs, hus, hvs, hnumber, _⟩ := htargets 0 (by decide) 2 (by decide)
  exact ⟨r, hc, hcount rfl, us, vs, hus, hvs, hnumber⟩

end Batch

end PropertyGraph
