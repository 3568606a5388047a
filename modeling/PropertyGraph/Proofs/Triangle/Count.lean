import Mathlib.Data.List.Flatten
import PropertyGraph.Proofs.Chunk.Tally
import PropertyGraph.Proofs.Triangle.Part
import PropertyGraph.Triangle.Count

namespace PropertyGraph

-- Whatever cursors were used for before, these triangles are found at each node.
def PartIntersection.Finds (e : PartIntersection) (ts : Nat → List Triangle) : Prop :=
  ∀ v < e.nodeCount, ∀ pool, ∃ pool', e.trianglesAt v pool = .ok (pool', (ts v).toArray)

namespace Part

variable {p : Part} {targets : Nat → List Nat} {roots : List Nat} {maxDegree : Nat} {t : Triangle}

namespace Rooted

theorem corners_of_isTriangle (h : p.Rooted targets roots) (ht : p.IsTriangle maxDegree t) :
    ∃ a b c, Corners targets roots maxDegree t a b c := by
  have ⟨⟨hab, hbc, hc⟩, hconnected, hwithin⟩ := ht
  rw [h.nodeCount] at hc
  have hat : ∀ v < roots.length, ∃ a, roots[v]? = some a := fun v hv => ⟨_, List.getElem?_eq_getElem hv⟩
  have ⟨a, ha⟩ := hat t.a (by omega)
  have ⟨b, hb⟩ := hat t.b (by omega)
  have ⟨c, hc⟩ := hat t.c hc
  have hmem : ∀ {v w a b}, v ∈ t.toList → w ∈ t.toList → v < w → roots[v]? = some a → roots[w]? = some b →
      b ∈ targets a := fun hv hw hlt ha hb => by
    have hr := hconnected _ hv _ hw (Nat.ne_of_lt hlt)
    simpa [h.hasRelationship _ _ _ _ ha hb] using hr
  have hdegree : ∀ {v a}, v ∈ t.toList → roots[v]? = some a → (targets a).length ≤ maxDegree := fun hv ha => by
    have ⟨d, hd, hle⟩ := hwithin _ hv
    rw [h.rootDegree _ _ ha] at hd
    exact Except.ok.inj hd ▸ hle
  have hta : t.a ∈ t.toList := List.mem_cons_self
  have htb : t.b ∈ t.toList := List.mem_cons_of_mem _ List.mem_cons_self
  have htc : t.c ∈ t.toList := List.mem_cons_of_mem _ (List.mem_cons_of_mem _ List.mem_cons_self)
  exact ⟨a, b, c, ha, hb, hc,
    ⟨(lt_iff_of_ascending h.ascending ha hb).mpr hab, (lt_iff_of_ascending h.ascending hb hc).mpr hbc⟩,
    ⟨hmem hta htb hab ha hb, hmem hta htc (Nat.lt_trans hab hbc) ha hc, hmem htb htc hbc hb hc⟩,
    hdegree hta ha, hdegree htb hb, hdegree htc hc⟩

-- Undirected relationships connect both ways.
theorem isTriangle_of_corners (h : p.Rooted targets roots) (hu : p.isUndirected = true) {a b c : Nat}
    (ht : Corners targets roots maxDegree t a b c) : p.IsTriangle maxDegree t := by
  have ⟨ha, hb, hc, ⟨hab, hbc⟩, ⟨hba, hca, hcb⟩, hda, hdb, hdc⟩ := ht
  have ⟨hlt, _⟩ := List.getElem?_eq_some_iff.mp hc
  have hboth : ∀ {v w x y : Nat}, roots[v]? = some x → roots[w]? = some y → y ∈ targets x →
      p.hasRelationship v w = .ok true ∧ p.hasRelationship w v = .ok true := fun hv hw hm => by
    have hm' := h.mirrored hu _ (List.mem_of_getElem? hv) _ (List.mem_of_getElem? hw) hm
    rw [h.hasRelationship _ _ _ _ hv hw, h.hasRelationship _ _ _ _ hw hv]
    simp [hm, hm']
  refine ⟨⟨(lt_iff_of_ascending h.ascending ha hb).mp hab, (lt_iff_of_ascending h.ascending hb hc).mp hbc,
    h.nodeCount.symm ▸ hlt⟩, fun v hv w hw hne => ?connected, fun v hv => ?within⟩
  case connected =>
    have hab := hboth ha hb hba
    have hac := hboth ha hc hca
    have hbc := hboth hb hc hcb
    simp only [Triangle.toList, List.mem_cons, List.not_mem_nil, or_false] at hv hw
    grind
  case within =>
    simp only [Triangle.toList, List.mem_cons, List.not_mem_nil, or_false] at hv
    have hd := h.rootDegree
    grind

theorem exists_finds (h : p.Rooted targets roots) (maxDegree : Nat) :
    ∃ ts : Nat → List Triangle, (p.intersection maxDegree).Finds ts ∧ ∀ v < roots.length,
      (ts v).Nodup ∧ ∀ t, t ∈ ts v ↔ t.a = v ∧ ∃ a b c, Corners targets roots maxDegree t a b c := by
  let ts (v : Nat) : List Triangle := match (p.intersection maxDegree).trianglesAt v .fresh with
    | .ok (_, found) => found.toList
    | .error _ => []
  have hts : ∀ v < roots.length, ∀ pool, ∃ pool' found,
      (p.intersection maxDegree).trianglesAt v pool = .ok (pool', found) ∧ found.toList = ts v ∧ (ts v).Nodup ∧
      ∀ t, t ∈ ts v ↔ t.a = v ∧ ∃ a b c, Corners targets roots maxDegree t a b c := by
    intro v hv pool
    have ⟨_, found₀, hr₀, hmem₀, hord₀⟩ := h.findsAt maxDegree v hv .fresh
    have ⟨pool', found, hr, hmem, hord⟩ := h.findsAt maxDegree v hv pool
    have hfresh : ts v = found₀.toList := by simp only [ts, hr₀]
    have he := Triangle.eq_of_before hord hord₀ fun t => by
      rw [Array.mem_toList_iff, Array.mem_toList_iff, hmem, hmem₀]
    rw [hfresh]
    exact ⟨pool', found, hr, he, hord₀.nodup, fun t => Array.mem_toList_iff.trans (hmem₀ t)⟩
  refine ⟨ts, fun v hv pool => ?_, fun v hv => ?_⟩
  · have ⟨pool', found, hr, he, _⟩ := hts v (h.count maxDegree ▸ hv) pool
    exact ⟨pool', by rw [hr, ← he]⟩
  · have ⟨_, _, _, _, hmem⟩ := hts v hv .fresh
    exact hmem

-- The triangles that are found at the nodes are those of the part, each of them once and at its smallest corner.
theorem exists_anchored (h : p.Rooted targets roots) (hu : p.isUndirected = true) (maxDegree : Nat) :
    ∃ ts : Nat → List Triangle, (p.intersection maxDegree).Finds ts ∧
      (∀ v < p.nodeCount, ∀ t ∈ ts v, t.a = v) ∧ ((List.range p.nodeCount).flatMap ts).Nodup ∧
      ∀ t, t ∈ (List.range p.nodeCount).flatMap ts ↔ p.IsTriangle maxDegree t := by
  have ⟨ts, hfinds, hts⟩ := h.exists_finds maxDegree
  rw [h.nodeCount]
  have hin : ∀ v ∈ List.range roots.length, v < roots.length := fun _ => List.mem_range.mp
  refine ⟨ts, hfinds, fun v hv t ht => (((hts v hv).right t).mp ht).left,
    List.nodup_flatMap.mpr ⟨fun v hv => (hts v (hin v hv)).left, ?disjoint⟩, fun t => ?mem⟩
  case disjoint =>
    refine List.nodup_range.imp_of_mem fun {v w} hv hw hne => List.disjoint_left.mpr fun t ht ht' => hne ?_
    exact (((hts v (hin v hv)).right t).mp ht).left.symm.trans (((hts w (hin w hw)).right t).mp ht').left
  case mem =>
    rw [List.mem_flatMap]
    constructor
    case mp =>
      intro ⟨v, hv, ht⟩
      have ⟨_, _, _, _, hc⟩ := ((hts v (hin v hv)).right t).mp ht
      exact h.isTriangle_of_corners hu hc
    case mpr =>
      intro ht
      have ⟨a, b, c, hc⟩ := h.corners_of_isTriangle ht
      have ⟨hlt, _⟩ := List.getElem?_eq_some_iff.mp hc.at_a
      exact ⟨t.a, List.mem_range.mpr hlt, ((hts t.a hlt).right t).mpr ⟨rfl, a, b, c, hc⟩⟩

theorem nodeCount_intersection (h : p.Rooted targets roots) (maxDegree : Nat) :
    (p.intersection maxDegree).nodeCount = p.nodeCount :=
  (h.count maxDegree).trans h.nodeCount.symm

-- Three counters of the nodes fit into a word.
theorem room (h : p.Rooted targets roots) (maxDegree : Nat) :
    3 * (p.intersection maxDegree).nodeCount ≤ Word64.count := by
  rw [h.count]
  exact Word64.three_mul_le_count (Nat.lt_of_le_of_lt h.bounded (by decide))

theorem exists_triangles (h : p.Rooted targets roots) (hu : p.isUndirected = true) (maxDegree : Nat) :
    ∃ ts : Nat → List Triangle, (p.intersection maxDegree).Finds ts ∧
      ((List.range p.nodeCount).flatMap ts).Nodup ∧
      ∀ t, t ∈ (List.range p.nodeCount).flatMap ts ↔ p.IsTriangle maxDegree t :=
  have ⟨ts, hfinds, _, h⟩ := h.exists_anchored hu maxDegree
  ⟨ts, hfinds, h⟩

end Rooted

end Part

namespace TriangleCounts

-- The counts of some triangles among `n` nodes.
def ofTriangles (n : Nat) (ts : List Triangle) : TriangleCounts where
  global := ts.length
  perNode := (Array.range n).map fun (v : Nat) => ts.countP (v ∈ ·.toList)

section Corners

variable {ts : List Triangle} {n v : Nat}

theorem count_corners (h : ∀ t ∈ ts, t.a < t.b ∧ t.b < t.c) (v : Nat) :
    (ts.flatMap Triangle.toList).count v = ts.countP (v ∈ ·.toList) := by
  induction ts
  case nil => rfl
  case cons t ts hi =>
    have ⟨⟨hab, hbc⟩, hts⟩ := List.forall_mem_cons.mp h
    have hnodup : t.toList.Nodup := by
      simp only [Triangle.toList, List.nodup_cons, List.mem_cons, List.not_mem_nil, or_false, not_false_eq_true,
        List.nodup_nil, and_true]
      omega
    rw [List.flatMap_cons, List.count_append, hi hts, List.countP_cons, hnodup.count, Nat.add_comm]
    simp only [decide_eq_true_eq]

theorem shared_eq {counted : List Triangle} (hp : counted.Perm ts) (h : ∀ t ∈ ts, t.a < t.b ∧ t.b < t.c) :
    counted.foldl addCorners (Array.replicate n 0) = (ofTriangles n ts).perNode := by
  have hf : counted.foldl addCorners (Array.replicate n 0) =
      (counted.flatMap Triangle.toList).foldl (fun counts v => counts.modify v (· + 1)) (Array.replicate n 0) :=
    List.foldl_flatMap.symm
  apply Array.ext_getElem?
  intro v
  rw [hf, getElem?_foldl_modify, (hp.flatMap_right Triangle.toList).count_eq, count_corners h]
  by_cases hv : v < n <;> simp [ofTriangles, hv]

-- Every triangle has three corners.
theorem sum_perNode (h : ∀ t ∈ ts, t.a < t.b ∧ t.b < t.c ∧ t.c < n) :
    (ofTriangles n ts).perNode.toList.sum = 3 * (ofTriangles n ts).global := by
  have hlen : (ts.flatMap Triangle.toList).length = 3 * ts.length := by
    have hthree : (fun t : Triangle => t.toList.length) = fun _ => 3 := rfl
    rw [List.length_flatMap, hthree, List.map_const', List.sum_replicate_nat, Nat.mul_comm]
  have hin : ∀ v ∈ ts.flatMap Triangle.toList, v < n := fun v hv => by
    have ⟨t, ht, hvt⟩ := List.mem_flatMap.mp hv
    have ⟨hab, hbc, hc⟩ := h t ht
    simp only [Triangle.toList, List.mem_cons, List.not_mem_nil, or_false] at hvt
    omega
  have hp := (flatMap_filter_perm id (ts.flatMap Triangle.toList) n).length_eq
  rw [List.filter_eq_self.mpr (by simpa using hin), hlen, List.length_flatMap] at hp
  rw [ofTriangles, ← hp, Array.toList_map, Array.toList_range]
  congr 1
  refine List.map_congr_left fun v _ => ?_
  rw [← count_corners (fun t ht => ⟨(h t ht).left, (h t ht).right.left⟩) v, List.count, List.countP_eq_length_filter]
  rfl

theorem getElem?_perNode (hv : v < n) :
    (ofTriangles n ts).perNode[v]? = some (ts.countP (v ∈ ·.toList)) := by
  simp [ofTriangles, hv]

theorem perNode_of_no_corner (hv : v < n) (h : ∀ t ∈ ts, v ∉ t.toList) : (ofTriangles n ts).perNode[v]? = some 0 := by
  have hzero : ts.countP (v ∈ ·.toList) = 0 := List.countP_eq_zero.mpr fun t ht => by simpa using h t ht
  rw [getElem?_perNode hv, hzero]

end Corners

section Pass

variable {e : PartIntersection} {ts : Nat → List Triangle} {n size concurrency : Nat} {es : List Pass.Event}

theorem foldlM_countAt (h : e.Finds ts) {anchors : List Nat} (ha : ∀ v ∈ anchors, v < e.nodeCount) (w : Worker)
    (counts : Array Nat) :
    ∃ pool, anchors.foldlM (countAt e) (w, counts) =
      .ok (⟨pool, w.found + (anchors.flatMap ts).length⟩, (anchors.flatMap ts).foldl addCorners counts) := by
  induction anchors generalizing w counts
  case nil => exact ⟨w.pool, rfl⟩
  case cons v anchors hi =>
    have ⟨hv, hvs⟩ := List.forall_mem_cons.mp ha
    have ⟨pool, hp⟩ := h v hv w.pool
    have hc : countAt e (w, counts) v = .ok (⟨pool, w.found + (ts v).length⟩, (ts v).foldl addCorners counts) := by
      simp [countAt, hp]
    have ⟨pool', hr⟩ := hi hvs ⟨pool, w.found + (ts v).length⟩ ((ts v).foldl addCorners counts)
    refine ⟨pool', ?_⟩
    rw [List.foldlM_cons, hc, Outcome.ok_bind, hr, List.flatMap_cons, List.length_append, List.foldl_append,
      Nat.add_assoc]

theorem exists_countChunk (h : e.Finds ts) {c : Chunk} (hc : c ∈ Chunk.all e.nodeCount size) (w : Worker)
    (counts : Array Nat) :
    ∃ pool, countChunk e w c counts =
      (.ok ⟨pool, w.found + (c.ids.flatMap ts).length⟩, (c.ids.flatMap ts).foldl addCorners counts) := by
  have ⟨pool, hr⟩ := foldlM_countAt h (fun v hv => Chunk.lt_of_mem_ids hc hv) w counts
  exact ⟨pool, by rw [countChunk, hr]⟩

theorem countChunk_adds (h : e.Finds ts) :
    Pass.Adds (countChunk e) (fun counts c => (c.ids.flatMap ts).foldl addCorners counts) e.nodeCount size :=
  fun w _ counts hc => have ⟨_, hr⟩ := exists_countChunk h hc w counts; ⟨_, hr⟩

-- A worker kept the number of the triangles of its share.
theorem found_of_kept (h : e.Finds ts) {share : List Chunk} {w : Worker} (hk : Pass.Kept (countChunk e) {} share w)
    (hs : ∀ c ∈ share, c ∈ Chunk.all e.nodeCount size) :
    w.found = (share.flatMap fun c => c.ids.flatMap ts).length := by
  induction hk
  case nothing => rfl
  case chunk c cs w w' counts _ hb hi =>
    have ⟨hc, hcs⟩ := List.forall_mem_cons.mp hs
    have ⟨pool, hr⟩ := exists_countChunk h hc w counts
    rw [hr] at hb
    rw [← Except.ok.inj hb, hi hcs, List.flatMap_cons, List.length_append, Nat.add_comm]

theorem foldr_found (h : e.Finds ts) {shares : List (List Chunk)} {kept : List Worker}
    (hk : List.Forall₂ (Pass.Kept (countChunk e) {}) shares kept)
    (hs : ∀ c ∈ shares.flatten, c ∈ Chunk.all e.nodeCount size) :
    kept.foldr (·.found + ·) 0 = (shares.flatten.flatMap fun c => c.ids.flatMap ts).length := by
  induction hk
  case nil => rfl
  case cons share w shares kept hw _ hi =>
    rw [List.flatten_cons] at hs
    have ⟨hshare, hshares⟩ := List.forall_mem_append.mp hs
    rw [List.foldr_cons, found_of_kept h hw hshare, hi hshares, List.flatten_cons, List.flatMap_append,
      List.length_append]

theorem flatMap_ids_perm {chunks : List Chunk} (h : chunks.Perm (Chunk.all e.nodeCount size)) :
    (chunks.flatMap fun c => c.ids.flatMap ts).Perm ((List.range e.nodeCount).flatMap ts) := by
  have hall : (Chunk.all e.nodeCount size).flatMap (fun c => c.ids.flatMap ts) =
      (List.range e.nodeCount).flatMap ts := by
    rw [← List.flatMap_assoc, Chunk.flatMap_ids_all]
  exact hall ▸ h.flatMap_right _

-- Whichever turns the workers take.
theorem ofPass_follow (h : e.Finds ts) (hn : e.nodeCount = n) (hu : e.nodeCount ≤ Word64.greatest)
    (hl : Dispenser.Lasts e.nodeCount size (Pass.workerCount e.nodeCount concurrency size))
    (ht : ∀ t ∈ (List.range n).flatMap ts, t.a < t.b ∧ t.b < t.c) (he : .raise ∉ es) :
    let p := (Pass.start e.nodeCount concurrency size {} (Array.replicate e.nodeCount 0) false).follow
      (.whole (countChunk e) Fault.isViolation) es
    p.isComplete = true → ofPass p = .ok (ofTriangles n ((List.range n).flatMap ts)) := by
  intro p hc
  subst hn
  have ⟨kept, shares, finished, ho, hr, hk, hshares, hshared, hfinished⟩ :=
    Pass.follow_tallies hu hl (countChunk_adds h) he hc
  have hglobal := (foldr_found h hk fun c hm => hshares.mem_iff.mp hm).trans
    (flatMap_ids_perm hshares).length_eq
  have hperNode := (hshared.trans List.foldl_flatMap.symm).trans (shared_eq (flatMap_ids_perm hfinished) ht)
  rw [ofPass, ho, Outcome.ok_bind, if_neg (Bool.eq_false_iff.mp hr), hglobal, hperNode]
  rfl

theorem ofPass_perform (h : e.Finds ts) (hn : e.nodeCount = n) (hu : e.nodeCount ≤ Word64.greatest)
    (hl : Dispenser.Lasts e.nodeCount size (Pass.workerCount e.nodeCount concurrency size))
    (ht : ∀ t ∈ (List.range n).flatMap ts, t.a < t.b ∧ t.b < t.c) :
    ofPass (Pass.perform e.nodeCount concurrency size {} (Array.replicate e.nodeCount 0) false (fun _ => false)
      Fault.isViolation (countChunk e)) = .ok (ofTriangles n ((List.range n).flatMap ts)) := by
  have ⟨hc, es, he, hp⟩ := @Pass.exists_follow_of_perform _ _ _ (countChunk e) Fault.isViolation {} _ _
    (Array.replicate e.nodeCount 0) _ hu hl
  rw [hp] at hc ⊢
  exact ofPass_follow h hn hu hl ht he hc

end Pass

end TriangleCounts

namespace View

open TriangleCounts

theorem triangles_of_undirected {part : Part} (hu : part.isUndirected = true) (c : TriangleConfig) :
    (single part).triangles c = .ok (part.intersection c.maxDegree) :=
  if_pos ((Bool.and_true _).trans hu)

-- A count tells of the triangles that are found at the nodes.
theorem countTriangles_of_finds {part : Part} {c : TriangleConfig} {targets : Nat → List Nat} {roots : List Nat}
    {ts : Nat → List Triangle} (hr : part.Rooted targets roots) (hu : part.isUndirected = true)
    (hs : c.chunkSize ≤ Word64.greatest) (hfinds : (part.intersection c.maxDegree).Finds ts)
    (ht : ∀ t ∈ (List.range part.nodeCount).flatMap ts, t.a < t.b ∧ t.b < t.c) :
    (single part).countTriangles c false =
      .ok (ofTriangles part.nodeCount ((List.range part.nodeCount).flatMap ts)) := by
  have hroom := hr.room c.maxDegree
  rw [countTriangles, triangles_of_undirected hu, Outcome.ok_bind]
  exact ofPass_perform hfinds (hr.nodeCount_intersection _) (Pass.le_greatest hroom)
    (Pass.lasts_workerCount _ hs hroom) ht

-- However the workers of a count take turns, it tells how many triangles a view has in all and at each node.
theorem countTriangles_counts {part : Part} {c : TriangleConfig} (hm : part.Made) (hu : part.isUndirected = true)
    (hs : c.chunkSize ≤ Word64.greatest) :
    ∃ triangles : List Triangle, triangles.Nodup ∧ (∀ t, t ∈ triangles ↔ part.IsTriangle c.maxDegree t) ∧
      let counts := ofTriangles part.nodeCount triangles
      (single part).countTriangles c false = .ok counts ∧
      (∀ e, (single part).triangles c = .ok e → ∀ concurrency es, .raise ∉ es →
        let p := (Pass.start e.nodeCount concurrency c.chunkSize {} (Array.replicate e.nodeCount 0) false).follow
          (.whole (countChunk e) Fault.isViolation) es
        p.isComplete = true → ofPass p = .ok counts) ∧
      counts.perNode.toList.sum = 3 * counts.global ∧
      ∀ v < part.nodeCount, ∀ d, part.rootDegree v = .ok d → c.maxDegree < d → counts.perNode[v]? = some 0 := by
  have ⟨targets, roots, hr⟩ := hm.rooted
  have ⟨ts, hfinds, hnodup, hmem⟩ := hr.exists_triangles hu c.maxDegree
  have hcount : (part.intersection c.maxDegree).nodeCount = part.nodeCount :=
    (hr.count c.maxDegree).trans hr.nodeCount.symm
  have hroom : 3 * (part.intersection c.maxDegree).nodeCount ≤ Word64.count := by
    rw [hr.count]
    exact Word64.three_mul_le_count (Nat.lt_of_le_of_lt hr.bounded (by decide))
  have htriangles : (single part).triangles c = .ok (part.intersection c.maxDegree) :=
    if_pos ((Bool.and_true _).trans hu)
  have hids := Pass.le_greatest hroom
  have hl := fun concurrency => Pass.lasts_workerCount concurrency hs hroom
  have hascending : ∀ t ∈ (List.range part.nodeCount).flatMap ts, t.a < t.b ∧ t.b < t.c := fun t ht =>
    have ⟨hab, hbc, _⟩ := ((hmem t).mp ht).ascending
    ⟨hab, hbc⟩
  refine ⟨(List.range part.nodeCount).flatMap ts, hnodup, hmem, ?run, fun e he concurrency es hes => ?turns, ?sum,
    fun v hv d hd hlt => ?capped⟩
  case run =>
    rw [countTriangles, htriangles, Outcome.ok_bind]
    exact ofPass_perform hfinds hcount hids (hl _) hascending
  case turns =>
    have he : part.intersection c.maxDegree = e := Except.ok.inj (htriangles.symm.trans he)
    subst he
    exact ofPass_follow hfinds hcount hids (hl _) hascending hes
  case sum => exact sum_perNode fun t ht => ((hmem t).mp ht).ascending
  case capped =>
    refine perNode_of_no_corner hv fun t ht hvt => ?_
    have ⟨d', hd', hle⟩ := ((hmem t).mp ht).within v hvt
    exact Nat.not_le.mpr hlt (Except.ok.inj (hd'.symm.trans hd) ▸ hle)

theorem countTriangles_counts_of_parallel :
    ∃ nodes rs p, IdMap.ofNodes [(10, []), (20, []), (30, [])] = .ok nodes ∧
      ((Batch.empty 3 .undirected []).collect
        [.addDefault 0 1, .addDefault 0 1, .addDefault 1 2, .addDefault 2 0, .addDefault 1 1]).compress 1 = .ok rs ∧
      Projection.owned nodes ⟨"LINKS"⟩ rs none = .ok p ∧
      ∃ triangles : List Triangle, (∀ t, t ∈ triangles ↔ (Part.whole p).IsTriangle 4 t) ∧
        (single (.whole p)).countTriangles { concurrency := 2, maxDegree := 4, chunkSize := 1 } false =
          .ok (ofTriangles 3 triangles) := by
  have ⟨nodes, hnodes, hcount⟩ := @IdMap.exists_ofNodes [(10, []), (20, []), (30, [])] (by decide) (by decide)
  have ⟨rs, hrs, hn, horientation, _⟩ := Relationships.exists_built 3 .undirected []
    [.addDefault 0 1, .addDefault 0 1, .addDefault 1 2, .addDefault 2 0, .addDefault 1 1] 1 (by decide) (by decide)
  have ⟨p, hp⟩ := @Projection.exists_owned rs none (fun _ h => nomatch h) nodes ⟨"LINKS"⟩
  have ⟨hpnodes, htopology⟩ := Projection.topology_of_owned hp
  have hmade : (Part.whole p).Made :=
    .whole (.owned hnodes (.compressed ⟨_, _, _, _, _, hrs⟩) (hn.trans hcount.symm) hp)
  have hundirected : (Part.whole p).isUndirected = true := by
    rw [Part.isUndirected, Part.projection, htopology, Topology.isUndirected, horientation]
    rfl
  have hnodeCount : (Part.whole p).nodeCount = 3 := (congrArg IdMap.nodeCount hpnodes).trans hcount
  have ⟨triangles, _, hmem, hok, _⟩ :=
    @countTriangles_counts (.whole p) { concurrency := 2, maxDegree := 4, chunkSize := 1 } hmade hundirected
      (by decide)
  exact ⟨nodes, rs, p, hnodes, hrs, hp, triangles, hmem, hnodeCount ▸ hok⟩

end View

end PropertyGraph
