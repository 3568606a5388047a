import PropertyGraph.Proofs.Relationship.Compression
import PropertyGraph.Proofs.Triangle.Intersect

namespace PropertyGraph

open Relationships

namespace Batch

variable {b : Batch} {rows : List Row} {r : Relationships} {concurrency v : Nat}

-- The targets of a node as they are stored.
def targetsOf (b : Batch) (rows : List Row) (v : Nat) : List Nat :=
  (b.stored rows v).map (·.target)

theorem mem_targetsOf {w : Nat} :
    w ∈ b.targetsOf rows v ↔ ∃ row ∈ rows, row.source = v ∧ row.target = w := by
  simp only [targetsOf, stored, mem_targets_finish, List.mem_filter, decide_eq_true_eq, and_assoc]

theorem tells_of_compress (h : b.Lists rows) (hc : b.compress concurrency = .ok r) :
    r.Tells b.columns ((List.range b.nodeCount).map (b.stored rows)) := by
  have ⟨r', hc', _, ht⟩ := compress_tells h (lt_maxVector_of_compress hc) concurrency
    fun v hv => length_le_of_compress h hc hv
  have hr : r' = r := by simpa [hc'] using hc
  exact hr ▸ ht

theorem orientation_of_compress (h : b.Lists rows) (hc : b.compress concurrency = .ok r) :
    r.topology.orientation = b.layout.orientation := by
  have ⟨r', hc', ho, _⟩ := compress_tells h (lt_maxVector_of_compress hc) concurrency
    fun v hv => length_le_of_compress h hc hv
  have hr : r' = r := by simpa [hc'] using hc
  exact hr ▸ ho

theorem serves_of_tells (h : b.Lists rows) (hn : b.nodeCount < Word64.maxVector)
    (ht : r.Tells b.columns ((List.range b.nodeCount).map (b.stored rows))) :
    r.topology.Serves b.nodeCount (b.targetsOf rows) where
  bounded := Pass.le_greatest (Word64.three_mul_le_count hn)
  inside v _ w hw := by
    have ⟨row, hr, hrw⟩ := mem_targets_finish.mp hw
    exact hrw ▸ (h.inside row (List.mem_of_mem_filter hr)).right
  holds v hv := by
    have ⟨offset, ho, hp⟩ := ht.points v (b.stored rows v) (by simp [hv])
    exact ⟨offset, ho, hp.left⟩

end Batch

namespace Intersection

theorem targets_of_serves {t : Topology} {n v : Nat} {targets : Nat → List Nat}
    (h : t.Serves n targets) (hv : v < n) :
    t.targets v = .ok (targets v) ∧ t.degree v = .ok (targets v).length := by
  have ⟨offset, ho, hh⟩ := h.holds v hv
  simp [Topology.targets, Topology.degree, ho, Arena.run_of_holds hh, Arena.degree_of_holds hh]

-- A corner is answered with its triangles, each of them once and in order, whatever the cursors of the pool
-- were used for before. The degree of a node counts parallel relationships as far as they are stored.
theorem trianglesAt_of_compress (nodeCount : Nat) (layout : Layout) (columns : List (String × Float))
    (calls : List Batch.Call) (concurrency : Nat) {r : Relationships}
    (hc : ((Batch.empty nodeCount layout columns).collect calls).compress concurrency = .ok r)
    (maxDegree : Nat) (members : Option NodeSet) {a : Nat} (ha : a < nodeCount) (pool : Pool) :
    ∃ targets : Nat → List Nat,
      (∀ v < nodeCount,
        r.topology.targets v = .ok (targets v) ∧ r.topology.degree v = .ok (targets v).length) ∧
      ∃ pool' found,
        (⟨r.topology, maxDegree, members⟩ : Intersection).trianglesAt a pool = .ok (pool', found) ∧
        (∀ t, t ∈ found ↔ IsTriangleAt ⟨r.topology, maxDegree, members⟩ targets a t) ∧
        found.toList.Pairwise fun s t => s.b < t.b ∨ s.b = t.b ∧ s.c < t.c := by
  have ⟨hn, _, _, hb⟩ := Batch.collect_empty nodeCount layout columns calls
  generalize (Batch.empty nodeCount layout columns).collect calls = b at hn hb hc
  subst hn
  have hs := Batch.serves_of_tells hb (Batch.lt_maxVector_of_compress hc) (Batch.tells_of_compress hb hc)
  exact ⟨_, fun v hv => targets_of_serves hs hv,
    @trianglesAt_finds ⟨r.topology, maxDegree, members⟩ _ _ hs a ha pool⟩

theorem trianglesAt_of_three_edges :
    ∃ r : Relationships,
      ((Batch.empty 3 .undirected []).collect [.addDefault 0 1, .addDefault 1 2, .addDefault 2 0]).compress 1 =
        .ok r ∧
      ∃ pool' found,
        (⟨r.topology, noDegreeLimit, none⟩ : Intersection).trianglesAt 0 .fresh = .ok (pool', found) ∧
        ∀ t, t ∈ found ↔ t = ⟨0, 1, 2⟩ := by
  have ⟨hn, _, _, hb⟩ := Batch.collect_empty 3 .undirected []
    [.addDefault 0 1, .addDefault 1 2, .addDefault 2 0]
  have hrows : Batch.rowsOfCalls 3 .undirected [] [.addDefault 0 1, .addDefault 1 2, .addDefault 2 0] =
      [⟨0, 1, []⟩, ⟨1, 0, []⟩, ⟨1, 2, []⟩, ⟨2, 1, []⟩, ⟨2, 0, []⟩, ⟨0, 2, []⟩] := rfl
  rw [hrows] at hb
  have hcount : 3 < Word64.maxVector := by decide
  have ⟨r, hc, _, ht⟩ := Batch.compress_tells hb (hn.symm ▸ hcount) 1 fun v _ =>
    Nat.le_trans length_finish_le (Nat.le_trans (List.length_filter_le _ _) (by decide))
  have hs := Batch.serves_of_tells hb (hn.symm ▸ hcount) ht
  have ⟨targets, htargets, pool', found, hf, hmem, _⟩ := trianglesAt_of_compress 3 .undirected [] _ 1
    hc noDegreeLimit none (show 0 < 3 by decide) .fresh
  have heq : ∀ v < 3, targets v = Batch.targetsOf _ _ v := fun v hv =>
    Except.ok.inj ((htargets v hv).left.symm.trans (targets_of_serves hs (hn.symm ▸ hv)).left)
  have hlimit : ∀ v < 3, (targets v).length ≤ noDegreeLimit := fun v hv => by
    have hle := Batch.length_le_of_compress hb hc (hn.symm ▸ hv)
    have : Fault.maxRunLength ≤ noDegreeLimit := by decide
    rw [heq v hv, Batch.targetsOf, List.length_map]
    omega
  have hm : ∀ v < 3, ∀ w, w ∈ targets v ↔ (v, w) ∈ [(0, 1), (1, 0), (1, 2), (2, 1), (2, 0), (0, 2)] := by
    intro v hv w
    rw [heq v hv, Batch.mem_targetsOf]
    simp
    omega
  refine ⟨r, hc, pool', found, hf, fun t => (hmem t).trans ⟨fun ht => ?found, fun ht => ?triangle⟩⟩
  case found =>
    have ⟨ta, tb, tc⟩ := t
    have ⟨hta, hab, hbc, hb, hc, _⟩ := ht
    simp only at hta hab hbc hb hc
    subst hta
    have hb := (hm 0 (by decide) tb).mp hb
    have hc := (hm 0 (by decide) tc).mp hc
    simp at hb hc
    simp
    omega
  case triangle =>
    subst ht
    exact ⟨rfl, by decide, by decide, (hm 0 (by decide) 1).mpr (by decide),
      (hm 0 (by decide) 2).mpr (by decide), (hm 1 (by decide) 2).mpr (by decide), hlimit 0 (by decide),
      hlimit 1 (by decide), hlimit 2 (by decide), rfl, rfl⟩

end Intersection

end PropertyGraph
