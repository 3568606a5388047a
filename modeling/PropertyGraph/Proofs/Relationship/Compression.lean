import Mathlib.Data.List.Perm.Basic
import PropertyGraph.Proofs.Chunk.Completion
import PropertyGraph.Proofs.Relationship.Collection
import PropertyGraph.Proofs.Relationship.Columns

namespace PropertyGraph

open Relationships

namespace Batch

variable {b : Batch} {g : Grouping} {c : Chunk} {cs : List Chunk} {kept : List Segment} {e : Fault}

def segmentOf (b : Batch) (g : Grouping) (c : Chunk) : Except Fault Segment :=
  Segment.compress b.layout.aggregation b.columns.length (b.rowsOf g) c

-- What a worker of the pass does with one more chunk.
def work (b : Batch) (g : Grouping) (kept : List Segment) (c : Chunk) (_ : Unit) :
    Except Fault (List Segment) × Unit :=
  (b.compressChunk g kept c, ())

theorem work_fst (kept : List Segment) (c : Chunk) (u : Unit) :
    (b.work g kept c u).1 = (b.segmentOf g c).map (· :: kept) :=
  rfl

theorem map_segmentOf_of_kept (h : Pass.Kept (b.work g) [] cs kept) :
    cs.map (b.segmentOf g) = kept.map .ok := by
  induction h
  case nothing => rfl
  case chunk c cs s s' _ _ hs hi =>
    rw [work_fst] at hs
    rw [List.map_cons, hi]
    cases hc : b.segmentOf g c
    case error => simp [hc, Except.map] at hs
    case ok segment =>
      simp only [hc, Except.map, Except.ok.injEq] at hs
      rw [← hs, List.map_cons]

theorem exists_of_fails (h : Pass.Fails (b.work g) [] cs e) : ∃ c ∈ cs, b.segmentOf g c = .error e := by
  cases h
  case intro c cs s _ _ hs =>
    rw [work_fst] at hs
    refine ⟨c, List.mem_cons_self, ?_⟩
    cases hc : b.segmentOf g c
    case error => simpa [hc, Except.map] using hs
    case ok => simp [hc, Except.map] at hs

theorem map_segmentOf_of_shares {shares : List (List Chunk)} {kepts : List (List Segment)}
    (h : List.Forall₂ (Pass.Kept (b.work g) []) shares kepts) :
    shares.flatten.map (b.segmentOf g) = kepts.flatten.map .ok := by
  induction h
  case nil => rfl
  case cons hk _ hi =>
    rw [List.flatten_cons, List.flatten_cons, List.map_append, List.map_append, hi,
      map_segmentOf_of_kept hk]

theorem compress_eq_perform (concurrency : Nat) (hn : b.nodeCount < Word64.maxVector) :
    b.compress concurrency =
      (Pass.perform b.nodeCount (effectiveConcurrency concurrency) Chunk.defaultSize [] () false (fun _ => false)
        Fault.isViolation (b.work (.ofSources b.nodeCount b.sources))).outcome >>= fun kept =>
          b.ofSegments kept.flatten :=
  if_neg (Nat.not_le.mpr hn)

-- However the chunks were shared out, those that were worked through are all of them, each once.
theorem compress_cases (concurrency : Nat) (hn : b.nodeCount < Word64.maxVector) :
    let g := Grouping.ofSources b.nodeCount b.sources
    let chunks := Chunk.all b.nodeCount Chunk.defaultSize
    (∃ e, b.compress concurrency = .error e ∧ ∃ c ∈ chunks, b.segmentOf g c = .error e) ∨
      ∃ segments, b.compress concurrency = b.ofSegments segments ∧
        (segments.map .ok).Perm (chunks.map (b.segmentOf g)) := by
  intro g chunks
  have hu := Pass.le_greatest (Word64.three_mul_le_count hn)
  have hs : Chunk.defaultSize ≤ Word64.greatest := by decide
  have hl := Pass.lasts_workerCount (effectiveConcurrency concurrency) hs (Word64.three_mul_le_count hn)
  rw [compress_eq_perform concurrency hn]
  cases @Pass.perform_cases _ _ _ (b.work g) Fault.isViolation [] _ _ _ () hu hl
  case inl h =>
    have ⟨e, cs, ho, hf, hcs⟩ := h
    have ⟨c, hm, hce⟩ := exists_of_fails hf
    exact .inl ⟨e, by rw [ho, Outcome.error_bind], c, hcs c hm, hce⟩
  case inr h =>
    have ⟨kept, shares, ho, hk, hp⟩ := h
    refine .inr ⟨kept.flatten, by rw [ho, Outcome.ok_bind], ?_⟩
    rw [← map_segmentOf_of_shares hk]
    exact hp.map _

def entriesAt (b : Batch) (g : Grouping) (v : Nat) : List Entry :=
  finish b.layout.aggregation (b.rowsOf g v)

theorem exists_segments (h : ∀ c ∈ cs, ∀ v ∈ c.ids, IsRun ((b.entriesAt g v).map (·.target))) :
    ∃ segments : List Segment,
      cs.map (b.segmentOf g) = segments.map .ok ∧ segments.map (·.chunk) = cs ∧
      List.Forall₂ (fun s nodes => s.Stores b.columns.length nodes) segments
        (cs.map fun c => c.ids.map (b.entriesAt g)) := by
  induction cs
  case nil => exact ⟨[], rfl, rfl, .nil⟩
  case cons c cs hi =>
    have ⟨s, hs, hc, hst⟩ := @Segment.compress_stores b.columns.length _ _ _ (h c List.mem_cons_self)
    have ⟨segments, hss, hcs, hsts⟩ := hi fun c' hm => h c' (List.mem_cons_of_mem _ hm)
    refine ⟨s :: segments, ?_, by simp [hc, hcs], .cons hst hsts⟩
    rw [List.map_cons, List.map_cons, hss, segmentOf, hs]

-- Put in order, the segments are those of the chunks in order, whoever compressed them.
theorem inOrder_stores {segments : List Segment}
    (hp : (segments.map .ok).Perm ((Chunk.all b.nodeCount Chunk.defaultSize).map (b.segmentOf g)))
    (h : ∀ v < b.nodeCount, IsRun ((b.entriesAt g v).map (·.target))) :
    (Chunk.all b.nodeCount Chunk.defaultSize).map (b.segmentOf g) = (Segment.inOrder segments).map .ok ∧
      List.Forall₂ (fun s nodes => s.Stores b.columns.length nodes) (Segment.inOrder segments)
        ((Chunk.all b.nodeCount Chunk.defaultSize).map fun c => c.ids.map (b.entriesAt g)) := by
  have ⟨ordered, hs, hc, hst⟩ := @exists_segments b g (Chunk.all b.nodeCount Chunk.defaultSize)
    fun c hm v hv => h v (Chunk.lt_of_mem_ids hm hv)
  rw [hs, List.map_perm_map_iff fun _ _ => Except.ok.inj] at hp
  have hasc : ordered.Pairwise (·.chunk.start < ·.chunk.start) := by
    rw [← List.pairwise_map (R := fun c d : Chunk => c.start < d.start), hc]
    exact Chunk.all_ascending
  have ho : Segment.inOrder segments = ordered :=
    mergeSort_eq_of_perm (fun s : Segment => s.chunk.start) hp hasc
  exact ho ▸ ⟨hs, hst⟩

theorem assemble_stores {segments : List Segment}
    (hp : (segments.map .ok).Perm ((Chunk.all b.nodeCount Chunk.defaultSize).map (b.segmentOf g)))
    (h : ∀ v < b.nodeCount, IsRun ((b.entriesAt g v).map (·.target))) :
    (Segment.assemble b.columns.length segments).Stores b.columns.length
      ((List.range b.nodeCount).map (b.entriesAt g)) := by
  have ⟨_, hst⟩ := inOrder_stores hp h
  have hw := Segment.Assembly.foldl_push_stores hst (Segment.Assembly.empty_stores _)
  rwa [List.nil_append, ← List.flatMap_def, ← List.map_flatMap, Chunk.flatMap_ids_all] at hw

-- What is stored of a node when these rows were collected.
def stored (b : Batch) (rows : List Row) (v : Nat) : List Entry :=
  finish b.layout.aggregation (rows.filter (·.source = v))

variable {rows : List Row} {v : Nat} {r : Relationships} {concurrency : Nat}

theorem entriesAt_eq_stored (h : b.Lists rows) (hv : v < b.nodeCount) :
    b.entriesAt (.ofSources b.nodeCount b.sources) v = b.stored rows v := by
  rw [entriesAt, rowsOf_eq_filter h hv, stored]

theorem isRun_stored (h : b.Lists rows) (hn : b.nodeCount ≤ Word64.greatest)
    (hl : (b.stored rows v).length ≤ Fault.maxRunLength) :
    IsRun ((b.stored rows v).map (·.target)) where
  ascending := targets_finish_ascending
  bounded := by
    intro t ht
    have ⟨r, hr, hrt⟩ := mem_targets_finish.mp ht
    have := (h.inside r (List.mem_of_mem_filter hr)).right
    omega
  short := by simpa using hl

theorem length_values_stored (h : b.Lists rows) :
    ∀ e ∈ b.stored rows v, e.values.length = b.columns.length :=
  fun _ => length_values_of_mem_finish fun r hr => h.width r (List.mem_of_mem_filter hr)

theorem lt_maxVector_of_compress (hc : b.compress concurrency = .ok r) :
    b.nodeCount < Word64.maxVector := by
  rw [compress] at hc
  split at hc
  case isTrue  => simp at hc
  case isFalse h => exact Nat.not_le.mp h

theorem length_le_of_compress (h : b.Lists rows) (hc : b.compress concurrency = .ok r)
    (hv : v < b.nodeCount) : (b.stored rows v).length ≤ Fault.maxRunLength := by
  cases compress_cases concurrency (lt_maxVector_of_compress hc)
  case inl he =>
    have ⟨_, he, _⟩ := he
    simp [he] at hc
  case inr ho =>
    have ⟨segments, _, hp⟩ := ho
    have ⟨c, hcm, hvc⟩ := @Chunk.exists_chunk _ Chunk.defaultSize _ hv
    have ⟨s, _, hs⟩ := List.mem_map.mp (hp.symm.subset (List.mem_map_of_mem hcm))
    rw [← entriesAt_eq_stored h hv]
    exact Segment.length_le_of_compress hs.symm v hvc

theorem compress_tells (h : b.Lists rows) (hn : b.nodeCount < Word64.maxVector) (concurrency : Nat)
    (hl : ∀ v < b.nodeCount, (b.stored rows v).length ≤ Fault.maxRunLength) :
    ∃ r, b.compress concurrency = .ok r ∧ r.topology.orientation = b.layout.orientation ∧
      r.Tells b.columns ((List.range b.nodeCount).map (b.stored rows)) := by
  have hu := Pass.le_greatest (Word64.three_mul_le_count hn)
  have hrun : ∀ v < b.nodeCount,
      IsRun ((b.entriesAt (.ofSources b.nodeCount b.sources) v).map (·.target)) := by
    intro v hv
    rw [entriesAt_eq_stored h hv]
    exact isRun_stored h hu (hl v hv)
  cases compress_cases concurrency hn
  case inl he =>
    -- No chunk fails, for a run that is short enough is all that a segment asks for.
    have ⟨e, _, c, hcm, hce⟩ := he
    have ⟨s, hs, _⟩ := @Segment.compress_stores b.columns.length _ _ c fun v hv =>
      hrun v (Chunk.lt_of_mem_ids hcm hv)
    simp [segmentOf, hs] at hce
  case inr ho =>
    have ⟨segments, hc, hp⟩ := ho
    have hw := assemble_stores hp hrun
    rw [List.map_congr_left fun v hv => entriesAt_eq_stored h (List.mem_range.mp hv)] at hw
    rw [hc]
    refine ofSegments_tells hw fun entries hm => ?_
    have ⟨v, _, hv⟩ := List.mem_map.mp hm
    exact hv ▸ length_values_stored h

-- Every node answers with what its rows are condensed to, whatever calls were made before and however many
-- workers compress. Rejected calls leave no rows. More nodes than a vector has room for are refused before
-- anything is compressed.
theorem compress_collected (nodeCount : Nat) (layout : Layout) (columns : List (String × Float))
    (calls : List Call) (concurrency : Nat)
    (h : ∀ v < nodeCount, ((rowsOfCalls nodeCount layout columns calls).filter (·.source = v)).length ≤
      Fault.maxRunLength) :
    let b := (empty nodeCount layout columns).collect calls
    (Word64.maxVector ≤ nodeCount → b.compress concurrency = .error .vectorTooLong) ∧
    (nodeCount < Word64.maxVector → ∃ (r : Relationships) (targets : Nat → List Nat) (values : Nat → Nat → List Float),
      b.compress concurrency = .ok r ∧
      r.topology.nodeCount = nodeCount ∧ r.topology.orientation = layout.orientation ∧
      r.topology.relationshipCount = ((List.range nodeCount).map fun v => (targets v).length).sum ∧
      (∀ v < nodeCount,
        Condensed layout.aggregation columns.length
          ((rowsOfCalls nodeCount layout columns calls).filter (·.source = v)) (targets v) (values v) ∧
        (∃ c, r.topology.cursor v = .ok c ∧ (r.topology.arena.drain c).1 = .ok (targets v)) ∧
        r.topology.degree v = .ok (targets v).length ∧
        ∃ offset, r.topology.offset v = .ok offset ∧ (offset = 0 ↔ targets v = [])) ∧
      (∀ k key default, Keeps columns k key default →
        ∃ runs, r.properties.find? key = some runs ∧ runs.default = default ∧
          ∀ v < nodeCount, runs.valuesOf v = .ok (values v k).toArray) ∧
      ∀ key, key ∉ columns.map (·.1) → r.properties.find? key = none) := by
  have ⟨hn', hl', hk', hb⟩ := collect_empty nodeCount layout columns calls
  generalize (empty nodeCount layout columns).collect calls = b at hn' hl' hk' hb
  subst hn' hl' hk'
  generalize rowsOfCalls b.nodeCount b.layout b.columns calls = rows at h hb
  refine ⟨fun hle => if_pos hle, fun hn => ?_⟩
  have ⟨r, hc, ho, ht⟩ := compress_tells hb hn concurrency fun v hv =>
    Nat.le_trans length_finish_le (h v hv)
  have hnode : ∀ v < b.nodeCount, ((List.range b.nodeCount).map (b.stored rows))[v]? =
      some (b.stored rows v) := fun v hv => by simp [hv]
  refine ⟨r, fun v => (b.stored rows v).map (·.target), fun v k => (b.stored rows v).map (Entry.valueAt k),
    hc, ?nodeCount, ho, ?count, fun v hv => ?node, fun k key default hk => ?kept, ht.others⟩
  case nodeCount => simpa using ht.nodeCount
  case count =>
    rw [ht.relationshipCount, List.map_map]
    simp [Function.comp_def]
  case node =>
    have ⟨offset, hoff, hh, hz⟩ := ht.points v _ (hnode v hv)
    have ⟨c, hcur, hs⟩ := Arena.cursor_of_holds hh
    have ⟨c', hd, _⟩ := Arena.drain_of_shows hs
    refine ⟨?condensed, ⟨c, ?cursor, by rw [hd]; rfl⟩, ?degree, offset, hoff, by simpa using hz⟩
    case condensed => exact finish_condensed fun r hr => hb.width r (List.mem_of_mem_filter hr)
    case cursor => rw [Topology.cursor, hoff, Outcome.ok_bind, hcur]
    case degree => rw [Topology.degree, hoff, Outcome.ok_bind, Arena.degree_of_holds hh]
  case kept =>
    have ⟨runs, hf, hd, hv⟩ := ht.kept k key default hk
    exact ⟨runs, hf, hd, fun v hlt => hv v _ (hnode v hlt)⟩

theorem compress_collected_of_parallel_edges :
    ∃ r : Relationships,
      ((empty 3 ⟨.natural, .sum⟩ [("weight", 1.0)]).collect
        [.add 0 2 [0.5], .addDefault 0 1, .add 0 2 [2.0], .add 3 0 [1.0]]).compress 2 = .ok r ∧
      r.topology.degree 0 = .ok 2 ∧
      ∃ c, r.topology.cursor 0 = .ok c ∧ (r.topology.arena.drain c).1 = .ok [1, 2] := by
  have hrows : rowsOfCalls 3 ⟨.natural, .sum⟩ [("weight", 1.0)]
      [.add 0 2 [0.5], .addDefault 0 1, .add 0 2 [2.0], .add 3 0 [1.0]] =
      [⟨0, 2, [0.5]⟩, ⟨0, 1, [1.0]⟩, ⟨0, 2, [2.0]⟩] := rfl
  have ⟨_, hmade⟩ := compress_collected 3 ⟨.natural, .sum⟩
    [("weight", 1.0)] [.add 0 2 [0.5], .addDefault 0 1, .add 0 2 [2.0], .add 3 0 [1.0]] 2
    fun v _ => Nat.le_trans (List.length_filter_le _ _) (hrows ▸ by decide)
  have ⟨r, targets, values, hc, _, _, _, hnode, _⟩ := hmade (by decide)
  have ⟨⟨hasc, hmem, _⟩, hcur, hd, _⟩ := hnode 0 (by decide)
  rw [hrows] at hmem
  have htargets : targets 0 = [1, 2] := by
    have hp : (targets 0).Perm [1, 2] :=
      (List.perm_ext_iff_of_nodup (hasc.imp Nat.ne_of_lt) (by decide)).mpr fun t => by
        rw [hmem]
        simp
        omega
    exact hp.eq_of_pairwise (fun _ _ _ _ h₁ h₂ => absurd h₁ (Nat.lt_asymm h₂)) hasc (by decide)
  rw [htargets] at hcur hd
  exact ⟨r, hc, hd, hcur⟩

end Batch

end PropertyGraph
