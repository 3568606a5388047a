import PropertyGraph.Proofs.Chunk.Tally
import PropertyGraph.Proofs.Relationship.Compression

namespace PropertyGraph

open Relationships

namespace Relationships.Segment

-- Appends the entries of one more node: its run to the arena and its values to the columns.
def Assembly.append (w : Assembly) (entries : List Entry) : Except Fault Assembly := do
  let (offset, arena) ← w.arena.appendRun (entries.map (·.target))
  let count := w.relationshipCount + entries.length
  return {
    arena
    offsets := w.offsets.push offset
    starts := w.starts.push count
    relationshipCount := count
    columns := w.columns.mapIdx fun k column => column ++ (entries.filterMap (·.values[k]?)).toArray }

-- Appends nodes in order, with as many columns as `width` tells.
def Assembly.inTurn (width : Nat) (nodes : List (List Entry)) : Except Fault Assembly :=
  nodes.foldlM append (.empty width)

namespace Assembly

variable {w w' : Assembly} {s s' : Segment} {width : Nat} {nodes : List (List Entry)} {entries : List Entry}

theorem foldl_note (base : Nat) (arena : Arena) (columns : List (Array Float)) (runs : List (Option Nat × Nat)) :
    runs.foldl (note base) { w with arena, columns } = { runs.foldl (note base) w with arena, columns } := by
  induction runs generalizing w
  case nil => rfl
  case cons run runs hi => exact @hi (w.note base run)

theorem zipWith_append_mapIdx (columns columns' : List (Array Float)) (more : Nat → Array Float) :
    List.zipWith (· ++ ·) columns (columns'.mapIdx fun k column => column ++ more k) =
      (List.zipWith (· ++ ·) columns columns').mapIdx fun k column => column ++ more k := by
  apply List.ext_getElem?
  intro k
  simp only [List.getElem?_zipWith, List.getElem?_mapIdx]
  cases columns[k]? <;> cases columns'[k]? <;> simp

theorem push_close (w : Assembly) (s : Segment) :
    w.push s.close = { s.runs.reverse.foldl (note w.arena.size) w with
      arena := ⟨w.arena.bytes ++ s.bytes⟩
      columns := List.zipWith (· ++ ·) w.columns s.columns } :=
  foldl_note ..

-- To append a node behind a segment is to append a segment with the node.
theorem append_push (h : s.push entries = .ok s') : (w.push s.close).append entries = .ok (w.push s'.close) := by
  rw [Segment.push] at h
  split at h
  case isTrue he =>
    have he : entries = [] := by simpa using he
    subst he
    have hs := Except.ok.inj h
    subst hs
    rw [push_close, push_close, zipWith_append_mapIdx, List.reverse_cons, List.foldl_append]
    rfl
  case isFalse he =>
    obtain ⟨encoded, he', h⟩ := Outcome.bind_eq_ok.mp h
    have hs := Except.ok.inj h
    subst hs
    have hr : (w.push s.close).arena.appendRun (entries.map (·.target)) =
        .ok ((w.push s.close).arena.appendEncoded encoded) := by
      rw [Arena.appendRun_eq (by simpa using he), he']
      rfl
    have hbytes : w.arena.bytes ++ s.bytes ++ encoded = w.arena.bytes ++ (s.bytes ++ encoded) := by
      simp [← Array.toList_inj]
    rw [append, hr, push_close, push_close, zipWith_append_mapIdx, List.reverse_cons, List.foldl_append]
    simp [Arena.appendEncoded, Arena.size, note, hbytes]

theorem foldlM_append_of_push {vs : List Nat} {f : Nat → List Entry}
    (h : vs.foldlM (fun s v => s.push (f v)) s = .ok s') :
    (vs.map f).foldlM append (w.push s.close) = .ok (w.push s'.close) := by
  induction vs generalizing s
  case nil => exact congrArg (Except.ok <| w.push <| close ·) (Except.ok.inj h)
  case cons v vs hi =>
    have ⟨s₁, hp, h⟩ := Outcome.bind_eq_ok.mp h
    rw [List.map_cons, List.foldlM_cons, append_push hp, Outcome.ok_bind, hi h]

theorem push_empty (h : w.columns.length = width) (c : Chunk) :
    w.push ⟨c, #[], [], List.replicate width #[]⟩ = w := by
  have hc : List.zipWith (· ++ ·) w.columns (List.replicate width #[]) = w.columns := by
    apply List.ext_getElem <;> simp [h]
  rw [push, hc]
  simp

theorem foldlM_append_of_compress {a : Aggregation} {rowsOf : Nat → List Row} {c : Chunk}
    (hw : w.columns.length = width) (h : compress a width rowsOf c = .ok s) :
    (c.ids.map fun v => finish a (rowsOf v)).foldlM append w = .ok (w.push s) := by
  have ⟨s₀, hf, hs⟩ := Outcome.bind_eq_ok.mp h
  have hs : s₀.close = s := Except.ok.inj hs
  have hempty : w.push (close ⟨c, #[], [], List.replicate width #[]⟩) = w := push_empty hw c
  have hr := foldlM_append_of_push (w := w) hf
  rwa [hempty, hs] at hr

-- The bytes of a node: none if it has no run.
def written (entries : List Entry) : List UInt8 :=
  if entries.isEmpty then [] else Arena.runBytes (entries.map (·.target))

-- Behind the first byte stand the runs of the nodes, one right behind the other.
structure Tiles (w : Assembly) (nodes : List (List Entry)) : Prop where
  bytes : w.arena.bytes.toList = 0 :: nodes.flatMap written
  offsets : w.offsets.toList = nodes.mapIdx fun v entries =>
    if entries.isEmpty then 0 else 1 + ((nodes.take v).flatMap written).length

theorem append_tiles (hl : entries.length ≤ Fault.maxRunLength) (h : w.Tiles nodes) :
    ∃ w', w.append entries = .ok w' ∧ w'.Tiles (nodes ++ [entries]) := by
  have hsize : w.arena.size = 1 + (nodes.flatMap written).length := by
    rw [Arena.size, ← Array.length_toList, h.bytes, List.length_cons, Nat.add_comm]
  have hr : w.arena.appendRun (entries.map (·.target)) =
      .ok (if entries.isEmpty then 0 else w.arena.size, ⟨w.arena.bytes ++ written entries⟩) := by
    cases entries
    case nil => simp [Arena.appendRun, written]
    case cons =>
      rw [Arena.appendRun_eq (by simp)]
      simp_all [Arena.encodeRun, Arena.appendEncoded, Except.map, written, Arena.runBytes]
  refine ⟨_, by rw [append, hr]; rfl, ?bytes, ?offsets⟩
  case bytes => simp [h.bytes]
  case offsets =>
    have htake : ∀ v (hv : v < nodes.length), (nodes ++ [entries]).take v = nodes.take v := fun v hv =>
      List.take_append_of_le_length (Nat.le_of_lt hv)
    rw [Array.toList_push, h.offsets, List.mapIdx_concat, hsize]
    congr 1
    · exact List.mapIdx_eq_mapIdx_iff.mpr fun v hv => by rw [htake v hv]
    · simp

theorem inTurn_tiles (width : Nat) (hl : ∀ entries ∈ nodes, entries.length ≤ Fault.maxRunLength) :
    ∃ w, inTurn width nodes = .ok w ∧ w.Tiles nodes := by
  have hrun : ∀ {done w}, Tiles w done → ∃ w', nodes.foldlM append w = .ok w' ∧ w'.Tiles (done ++ nodes) := by
    induction nodes
    case nil => exact fun {done w} h => ⟨w, rfl, by simpa using h⟩
    case cons entries nodes hi =>
      intro done w h
      have ⟨hle, hls⟩ := List.forall_mem_cons.mp hl
      have ⟨w₁, ha, h₁⟩ := append_tiles hle h
      have ⟨w', hf, h'⟩ := hi hls h₁
      exact ⟨w', by rw [List.foldlM_cons, ha, Outcome.ok_bind, hf], by simpa using h'⟩
  have hempty : (Assembly.empty width).Tiles [] := ⟨rfl, rfl⟩
  exact hrun hempty

end Assembly

end Relationships.Segment

namespace Batch

open Segment (Assembly)

variable {b : Batch} {g : Grouping} {cs : List Chunk} {segments : List Segment} {w : Assembly}

-- The topology and the columns of what was appended.
def ofAssembly (b : Batch) (w : Assembly) : Except Fault Relationships := do
  let properties ← (b.columns.zip w.columns).foldlM (addColumn w.starts) ∅
  return {
    topology := ⟨w.offsets, w.arena, w.relationshipCount, b.layout.orientation⟩
    properties }

theorem foldlM_append_of_segments {nodes : List (List Entry)} (hs : cs.map (b.segmentOf g) = segments.map .ok)
    (hst : List.Forall₂ (fun s nodes => s.Stores b.columns.length nodes) segments
      (cs.map fun c => c.ids.map (b.entriesAt g))) (hw : w.Stores b.columns.length nodes) :
    ((cs.flatMap (·.ids)).map (b.entriesAt g)).foldlM Assembly.append w = .ok (segments.foldl Assembly.push w) := by
  induction cs generalizing segments w nodes
  case nil =>
    have hs : segments = [] := by simpa using hs.symm
    subst hs
    rfl
  case cons c cs hi =>
    cases segments
    case nil => simp at hs
    case cons s segments =>
      have ⟨hc, hcs⟩ := List.cons.inj hs
      have ⟨hst, hsts⟩ := List.forall₂_cons.mp hst
      have hlen : w.columns.length = b.columns.length := by simp [hw.columns, columnsOf]
      have ha := Assembly.foldlM_append_of_compress hlen hc
      have hr := hi hcs hsts (Assembly.push_stores hst hw)
      rw [List.flatMap_cons, List.map_append, List.foldlM_append, List.foldl_cons, ← hr]
      exact congrArg (· >>= _) ha

theorem inTurn_of_segments
    (hp : (segments.map .ok).Perm ((Chunk.all b.nodeCount Chunk.defaultSize).map (b.segmentOf g)))
    (h : ∀ v < b.nodeCount, IsRun ((b.entriesAt g v).map (·.target))) :
    Assembly.inTurn b.columns.length ((List.range b.nodeCount).map (b.entriesAt g)) =
      .ok (Segment.assemble b.columns.length segments) := by
  have ⟨hs, hst⟩ := inOrder_stores hp h
  have hr := foldlM_append_of_segments hs hst (Assembly.empty_stores _)
  rwa [Chunk.flatMap_ids_all] at hr

-- No chunk fails, for a run that is short enough is all that a segment asks for.
theorem work_adds (h : ∀ v < b.nodeCount, IsRun ((b.entriesAt g v).map (·.target))) :
    Pass.Adds (b.work g) (fun u _ => u) b.nodeCount Chunk.defaultSize := by
  intro kept c u hc
  have ⟨s, hs, _⟩ := @Segment.compress_stores b.columns.length _ _ c fun v hv => h v (Chunk.lt_of_mem_ids hc hv)
  exact ⟨s :: kept, by rw [work, compressChunk, hs]; rfl⟩

-- Whichever turns the workers take, they come to the nodes in order.
theorem inTurn_of_follow {concurrency : Nat} {es : List Pass.Event} (hn : b.nodeCount < Word64.maxVector)
    (h : ∀ v < b.nodeCount, IsRun ((b.entriesAt g v).map (·.target))) (he : .raise ∉ es) :
    let p := (Pass.start b.nodeCount concurrency Chunk.defaultSize [] () false).follow
      (.whole (b.work g) Fault.isViolation) es
    p.isComplete = true → ∃ kept, p.outcome = .ok kept ∧
      Assembly.inTurn b.columns.length ((List.range b.nodeCount).map (b.entriesAt g)) =
        .ok (Segment.assemble b.columns.length kept.flatten) := by
  intro p hc
  have hroom := Word64.three_mul_le_count hn
  have hl := Pass.lasts_workerCount concurrency (show Chunk.defaultSize ≤ Word64.greatest by decide) hroom
  have ⟨kept, shares, _, ho, _, hk, hp, _⟩ := Pass.follow_tallies (Pass.le_greatest hroom) hl (work_adds h) he hc
  exact ⟨kept, ho, inTurn_of_segments (map_segmentOf_of_shares hk ▸ hp.map _) h⟩

theorem ofSegments_of_follow {rows : List Row} (hb : b.Lists rows) (hn : b.nodeCount < Word64.maxVector)
    (hl : ∀ v < b.nodeCount, (b.stored rows v).length ≤ Fault.maxRunLength)
    (hw : Assembly.inTurn b.columns.length ((List.range b.nodeCount).map (b.stored rows)) = .ok w)
    {concurrency : Nat} {es : List Pass.Event} (he : .raise ∉ es) :
    let p := (Pass.start b.nodeCount concurrency Chunk.defaultSize [] () false).follow
      (.whole (b.work (.ofSources b.nodeCount b.sources)) Fault.isViolation) es
    p.isComplete = true → ∃ kept, p.outcome = .ok kept ∧ b.ofSegments kept.flatten = b.ofAssembly w := by
  intro p hc
  have hentries : ∀ v ∈ List.range b.nodeCount,
      b.entriesAt (.ofSources b.nodeCount b.sources) v = b.stored rows v := fun v hv =>
    entriesAt_eq_stored hb (List.mem_range.mp hv)
  have hrun : ∀ v < b.nodeCount, IsRun ((b.entriesAt (.ofSources b.nodeCount b.sources) v).map (·.target)) :=
    fun v hv => by
      rw [hentries v (List.mem_range.mpr hv)]
      exact isRun_stored hb (Pass.le_greatest (Word64.three_mul_le_count hn)) (hl v hv)
  have ⟨kept, ho, ht⟩ := inTurn_of_follow hn hrun he hc
  rw [List.map_congr_left hentries, hw] at ht
  exact ⟨kept, ho, congrArg b.ofAssembly (Except.ok.inj ht).symm⟩

theorem compress_eq_ofAssembly {rows : List Row} (hb : b.Lists rows) (hn : b.nodeCount < Word64.maxVector)
    (hl : ∀ v < b.nodeCount, (b.stored rows v).length ≤ Fault.maxRunLength)
    (hw : Assembly.inTurn b.columns.length ((List.range b.nodeCount).map (b.stored rows)) = .ok w)
    (concurrency : Nat) : b.compress concurrency = b.ofAssembly w := by
  have hroom := Word64.three_mul_le_count hn
  have hs : Chunk.defaultSize ≤ Word64.greatest := by decide
  have hl' := Pass.lasts_workerCount (effectiveConcurrency concurrency) hs hroom
  have ⟨hc, es, he, hp⟩ := @Pass.exists_follow_of_perform _ _ _ (b.work (.ofSources b.nodeCount b.sources))
    Fault.isViolation [] _ _ () _ (Pass.le_greatest hroom) hl'
  rw [hp] at hc
  have ⟨kept, ho, hk⟩ := ofSegments_of_follow hb hn hl hw he hc
  rw [compress_eq_perform concurrency hn, hp, ho, Outcome.ok_bind, hk]

-- The rows of each node condense to one list of entries. However many workers compress and whichever turns they take,
-- the outcome is that of appending these lists in turn. More nodes than a vector has room for are refused before
-- anything is compressed.
theorem compress_in_turn (nodeCount : Nat) (layout : Layout) (columns : List (String × Float)) (calls : List Call) :
    let b := (empty nodeCount layout columns).collect calls
    ∃ entriesOf : Nat → List Entry,
      (∀ v < nodeCount, ∀ entries,
        Condenses layout.aggregation columns.length
          ((rowsOfCalls nodeCount layout columns calls).filter (·.source = v)) entries ↔ entries = entriesOf v) ∧
      ((∀ v < nodeCount, (entriesOf v).length ≤ Fault.maxRunLength) →
        let nodes := (List.range nodeCount).map entriesOf
        ∃ w, Assembly.inTurn columns.length nodes = .ok w ∧ w.Tiles nodes ∧
          (Word64.maxVector ≤ nodeCount → ∀ concurrency, b.compress concurrency = .error .vectorTooLong) ∧
          (nodeCount < Word64.maxVector → ∃ r, b.ofAssembly w = .ok r ∧
            (∀ concurrency, b.compress concurrency = .ok r) ∧
            ∀ concurrency es, .raise ∉ es →
              let p := (Pass.start nodeCount concurrency Chunk.defaultSize [] () false).follow
                (.whole (b.work (.ofSources nodeCount b.sources)) Fault.isViolation) es
              p.isComplete = true → ∃ kept, p.outcome = .ok kept ∧ b.ofSegments kept.flatten = .ok r)) := by
  have ⟨hn', hl', hk', hb⟩ := collect_empty nodeCount layout columns calls
  generalize (empty nodeCount layout columns).collect calls = b at hn' hl' hk' hb
  subst hn' hl' hk'
  generalize rowsOfCalls b.nodeCount b.layout b.columns calls = rows at hb
  intro _
  refine ⟨b.stored rows, fun v _ entries => condenses_iff fun r hr => hb.width r (List.mem_of_mem_filter hr),
    fun h => ?_⟩
  intro nodes
  have hshort : ∀ entries ∈ nodes, entries.length ≤ Fault.maxRunLength := fun entries hm => by
    have ⟨v, hv, he⟩ := List.mem_map.mp hm
    exact he ▸ h v (List.mem_range.mp hv)
  have ⟨w, hw, ht⟩ := Assembly.inTurn_tiles b.columns.length hshort
  refine ⟨w, hw, ht, fun hle _ => if_pos hle, fun hn => ?_⟩
  have ⟨r, hr, _⟩ := compress_tells hb hn 1 h
  have hcompress := compress_eq_ofAssembly hb hn h hw
  have hr : b.ofAssembly w = .ok r := (hcompress 1).symm.trans hr
  exact ⟨r, hr, fun concurrency => (hcompress concurrency).trans hr, fun _ _ he hc =>
    have ⟨kept, ho, hs⟩ := ofSegments_of_follow hb hn h hw he hc
    ⟨kept, ho, hs.trans hr⟩⟩

theorem compress_in_turn_of_three_chunks :
    let calls := [.add 0 129 [0.5], .addDefault 129 0, .add 0 129 [2.0], .addDefault 70 5]
    let b := (empty 130 ⟨.natural, .sum⟩ [("weight", 1.0)]).collect calls
    ∃ w r, w.Tiles ((List.range 130).map fun v =>
        finish .sum ((rowsOfCalls 130 ⟨.natural, .sum⟩ [("weight", 1.0)] calls).filter (·.source = v))) ∧
      b.ofAssembly w = .ok r ∧ b.compress 1 = .ok r ∧ b.compress 3 = .ok r := by
  intro calls b
  have hrows := length_rowsOfCalls_le 130 ⟨.natural, .sum⟩ [("weight", 1.0)] calls
  have ⟨_, _, _, hb⟩ := collect_empty 130 ⟨.natural, .sum⟩ [("weight", 1.0)] calls
  have ⟨entriesOf, hentries, hturn⟩ := compress_in_turn 130 ⟨.natural, .sum⟩ [("weight", 1.0)] calls
  have he : ∀ v < 130, finish .sum ((rowsOfCalls 130 ⟨.natural, .sum⟩ [("weight", 1.0)] calls).filter (·.source = v)) =
      entriesOf v := fun v hv =>
    (hentries v hv _).mp (finish_condenses fun r hr => hb.width r (List.mem_of_mem_filter hr))
  have ⟨w, _, ht, _, hc⟩ := hturn fun v hv => he v hv ▸
    Nat.le_trans length_finish_le (Nat.le_trans (List.length_filter_le _ _) (Nat.le_trans hrows (by decide)))
  have ⟨r, hr, hcompress, _⟩ := hc (by decide)
  rw [List.map_congr_left fun v hv => he v (List.mem_range.mp hv)]
  exact ⟨w, r, ht, hr, hcompress 1, hcompress 3⟩

end Batch

end PropertyGraph
