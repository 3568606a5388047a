import Mathlib.Combinatorics.SimpleGraph.Clique
import PropertyGraph.Proofs.Triangle.External
import PropertyGraph.Proofs.Triangle.Restriction

namespace PropertyGraph

open TriangleStream

namespace Triangle

variable {s t : Triangle}

-- The corners without their order.
def corners (t : Triangle) : Finset Nat := t.toList.toFinset

theorem corners_eq (t : Triangle) : t.corners = {t.a, t.b, t.c} := by
  simp [corners, toList]

-- Three different nodes can be put in order.
theorem exists_ascending {vs : List Nat} (hn : vs.Nodup) (hl : vs.length = 3) :
    ∃ t : Triangle, (t.a < t.b ∧ t.b < t.c) ∧ t.toList.Perm vs := by
  have hp := List.mergeSort_perm vs (· ≤ ·)
  have hs := mergeSort_ascending id vs
  have hd := hp.nodup_iff.mpr hn
  have ⟨a, b, c, he⟩ := List.length_eq_three.mp (hp.length_eq.trans hl)
  have he' : vs.mergeSort (fun v w => id v ≤ id w) = [a, b, c] := he
  rw [he] at hp hd
  rw [he'] at hs
  refine ⟨⟨a, b, c⟩, ?_, hp⟩
  simp only [List.pairwise_cons, List.nodup_cons, List.mem_cons, List.not_mem_nil, or_false, id] at hs hd
  have hab := hs.left b (.inl rfl)
  have hbc := hs.right.left c rfl
  change a < b ∧ b < c
  omega

theorem eq_of_ascending (hs : s.a < s.b ∧ s.b < s.c) (ht : t.a < t.b ∧ t.b < t.c)
    (h : ∀ v, v ∈ s.toList ↔ v ∈ t.toList) : s = t := by
  simp only [mem_toList] at h
  have ha := (h s.a).mp (.inl rfl)
  have hb := (h s.b).mp (.inr (.inl rfl))
  have hc := (h s.c).mp (.inr (.inr rfl))
  have ha' := (h t.a).mpr (.inl rfl)
  have hc' := (h t.c).mpr (.inr (.inr rfl))
  obtain ⟨a, b, c⟩ := s
  obtain ⟨a', b', c'⟩ := t
  simp only [mk.injEq] at *
  omega

end Triangle

namespace Part

-- Two nodes of a part are related just if their external ids are connected in a graph, which has no other ids.
structure Draws (p : Part) (G : SimpleGraph Nat) : Prop where
  connects : ∀ v w x y, p.toExternal v = .ok x → p.toExternal w = .ok y → v ≠ w →
    (p.hasRelationship v w = .ok true ↔ G.Adj x y)
  covers : ∀ x y, G.Adj x y → ∃ v < p.nodeCount, p.toExternal v = .ok x

variable {part : Part} {G : SimpleGraph Nat} {maxDegree : Nat} {targets : Nat → List Nat} {roots : List Nat}
  {s t x y : Triangle} {S : Finset Nat}

theorem mem_corners (hx : externalTriangle (.single part) t = .ok x) (i : Nat) :
    i ∈ x.corners ↔ ∃ v ∈ t.toList, part.toExternal v = .ok i := by
  have ⟨ha, hb, hc⟩ := externalTriangle_eq_ok.mp hx
  have ha : part.toExternal t.a = .ok x.a := ha
  have hb : part.toExternal t.b = .ok x.b := hb
  have hc : part.toExternal t.c = .ok x.c := hc
  simp [Triangle.corners_eq, Triangle.toList, ha, hb, hc, eq_comm]

-- Triangles with the same external ids are the same.
theorem Made.corners_injective (hm : part.Made) (hs : s.a < s.b ∧ s.b < s.c) (ht : t.a < t.b ∧ t.b < t.c)
    (hx : externalTriangle (.single part) s = .ok x) (hy : externalTriangle (.single part) t = .ok y)
    (h : x.corners = y.corners) : s = t := by
  have hin : ∀ {s t x y : Triangle}, externalTriangle (.single part) s = .ok x →
      externalTriangle (.single part) t = .ok y → x.corners = y.corners → ∀ v ∈ s.toList, v ∈ t.toList := by
    intro s t x y hx hy h v hv
    have ⟨ha, hb, hc⟩ := externalTriangle_eq_ok.mp hx
    have ⟨i, hi⟩ : ∃ i, part.toExternal v = .ok i := by
      rcases Triangle.mem_toList.mp hv with rfl | rfl | rfl
      exacts [⟨_, ha⟩, ⟨_, hb⟩, ⟨_, hc⟩]
    have ⟨w, hw, hwi⟩ := (mem_corners hy i).mp (h ▸ (mem_corners hx i).mpr ⟨v, hv, hi⟩)
    exact hm.external_injective hi hwi ▸ hw
  exact Triangle.eq_of_ascending hs ht fun v => ⟨hin hx hy h v, hin hy hx h.symm v⟩

namespace Draws

theorem clique_of_triangle (h : part.Draws G) (ht : part.IsTriangle maxDegree t)
    (hx : externalTriangle (.single part) t = .ok x) : G.IsNClique 3 x.corners := by
  have ⟨ha, hb, hc⟩ := externalTriangle_eq_ok.mp hx
  have ⟨hab, hbc, _⟩ := ht.ascending
  have hadj : ∀ v ∈ t.toList, ∀ w ∈ t.toList, v < w → ∀ i j, part.toExternal v = .ok i →
      part.toExternal w = .ok j → G.Adj i j := fun v hv w hw hlt i j hi hj =>
    (h.connects v w i j hi hj (Nat.ne_of_lt hlt)).mp (ht.connected v hv w hw (Nat.ne_of_lt hlt))
  have hta : t.a ∈ t.toList := Triangle.mem_toList.mpr (.inl rfl)
  have htb : t.b ∈ t.toList := Triangle.mem_toList.mpr (.inr (.inl rfl))
  have htc : t.c ∈ t.toList := Triangle.mem_toList.mpr (.inr (.inr rfl))
  rw [Triangle.corners_eq, SimpleGraph.is3Clique_triple_iff]
  exact ⟨hadj _ hta _ htb hab _ _ ha hb, hadj _ hta _ htc (Nat.lt_trans hab hbc) _ _ ha hc,
    hadj _ htb _ htc hbc _ _ hb hc⟩

theorem exists_nodes_of_clique (h : part.Draws G) (hS : G.IsNClique 3 S) :
    ∃ vs : List Nat, vs.Nodup ∧ vs.length = 3 ∧ (∀ v ∈ vs, v < part.nodeCount ∧ ∃ i ∈ S, part.toExternal v = .ok i) ∧
      ∀ i, i ∈ S ↔ ∃ v ∈ vs, part.toExternal v = .ok i := by
  obtain ⟨i, j, k, hij, hik, hjk, rfl⟩ := SimpleGraph.is3Clique_iff.mp hS
  have ⟨u, hu, hi⟩ := h.covers i j hij
  have ⟨v, hv, hj⟩ := h.covers j k hjk
  have ⟨w, hw, hk⟩ := h.covers k i hik.symm
  have hne : ∀ {v w x y : Nat}, part.toExternal v = .ok x → part.toExternal w = .ok y → x ≠ y → v ≠ w :=
    fun hx hy hne he => hne (Except.ok.inj (hx.symm.trans (he ▸ hy)))
  refine ⟨[u, v, w], ?distinct, rfl, ?named, fun x => ?onto⟩
  case distinct => simp [hne hi hj hij.ne, hne hi hk hik.ne, hne hj hk hjk.ne]
  case named => simp [hu, hv, hw, hi, hj, hk]
  case onto => simp [hi, hj, hk, eq_comm]

-- Nodes that are named by a clique make a triangle, in whichever order they were numbered.
theorem exists_triangle_of_clique (h : part.Draws G) (hm : part.Made) (hr : part.Rooted targets roots)
    (hS : G.IsNClique 3 S) :
    ∃ t x, part.IsTriangle noDegreeLimit t ∧ externalTriangle (.single part) t = .ok x ∧ x.corners = S := by
  have hshort : ∀ a ∈ roots, (targets a).length ≤ noDegreeLimit := fun a ha =>
    Nat.le_trans (hr.short a ha) (by decide)
  have ⟨vs, hn, hl, hnamed, honto⟩ := h.exists_nodes_of_clique hS
  have ⟨t, ⟨hab, hbc⟩, hp⟩ := Triangle.exists_ascending hn hl
  have hnamed : ∀ v ∈ t.toList, v < part.nodeCount ∧ ∃ i ∈ S, part.toExternal v = .ok i := fun v hv =>
    hnamed v (hp.mem_iff.mp hv)
  have ⟨hc, _⟩ := hnamed t.c (Triangle.mem_toList.mpr (.inr (.inr rfl)))
  have hconnected : ∀ v ∈ t.toList, ∀ w ∈ t.toList, v ≠ w → part.hasRelationship v w = .ok true := by
    intro v hv w hw hne
    have ⟨_, i, hi, hvi⟩ := hnamed v hv
    have ⟨_, j, hj, hwj⟩ := hnamed w hw
    have hij : i ≠ j := fun he => hne (hm.external_injective hvi (he ▸ hwj))
    exact (h.connects v w i j hvi hwj hne).mpr (hS.isClique hi hj hij)
  have ht : part.IsTriangle noDegreeLimit t := (hr.isTriangle_iff hshort).mpr ⟨⟨hab, hbc, hc⟩, hconnected⟩
  have ⟨x, hx⟩ := exists_externalTriangle hm ht
  refine ⟨t, x, ht, hx, Finset.ext fun i => ?_⟩
  simp only [mem_corners hx, honto, hp.mem_iff]

end Draws

end Part

namespace View

-- A triangle by external ids, if its corners have any.
def named (view : View) (t : Triangle) : Triangle :=
  (externalTriangle view t).toOption.getD t

-- These are the triangles that a view answers with at the anchors, by external ids.
def Enumerates (view : View) (c : TriangleConfig) (anchors : List Nat) (named : List Triangle) : Prop :=
  ∃ e found, view.triangles c = .ok e ∧ e.trianglesAll anchors = .ok found ∧
    found.toList.map (externalTriangle view) = named.map .ok

variable {part : Part} {G : SimpleGraph Nat} {c : TriangleConfig} {t : Triangle} {maxDegree x v : Nat}

theorem externalTriangle_named (hm : part.Made) (ht : part.IsTriangle maxDegree t) :
    externalTriangle (single part) t = .ok ((single part).named t) := by
  have ⟨x, hx⟩ := exists_externalTriangle hm ht
  rw [named, hx]
  rfl

theorem mem_corners_named (hm : part.Made) (ht : part.IsTriangle maxDegree t) (hx : part.toInternal? x = some v) :
    x ∈ ((single part).named t).corners ↔ v ∈ t.toList := by
  have hv := hm.toInternal?_eq_some.mp hx
  rw [Part.mem_corners (externalTriangle_named hm ht)]
  constructor
  case mp =>
    intro ⟨w, hw, hwx⟩
    exact hm.external_injective hv hwx ▸ hw
  case mpr => exact fun hmem => ⟨v, hmem, hv⟩

section Cliques

variable {targets : Nat → List Nat} {roots : List Nat} {ts : List Triangle}

theorem nodup_corners (hm : part.Made) (hn : ts.Nodup) (ht : ∀ t ∈ ts, part.IsTriangle maxDegree t) :
    (ts.map fun t => ((single part).named t).corners).Nodup :=
  hn.map_on fun s hs t ht' he =>
    have ⟨hab, hbc, _⟩ := (ht s hs).ascending
    have ⟨hab', hbc', _⟩ := (ht t ht').ascending
    hm.corners_injective ⟨hab, hbc⟩ ⟨hab', hbc'⟩ (externalTriangle_named hm (ht s hs))
      (externalTriangle_named hm (ht t ht')) he

theorem mem_corners_iff_clique (hm : part.Made) (hr : part.Rooted targets roots) (hd : part.Draws G)
    (ht : ∀ t, t ∈ ts ↔ part.IsTriangle noDegreeLimit t) (S : Finset Nat) :
    S ∈ ts.map (fun t => ((single part).named t).corners) ↔ G.IsNClique 3 S := by
  rw [List.mem_map]
  constructor
  case mp =>
    rintro ⟨t, hmem, rfl⟩
    have htriangle := (ht t).mp hmem
    exact hd.clique_of_triangle htriangle (externalTriangle_named hm htriangle)
  case mpr =>
    intro hS
    have ⟨t, x, htriangle, hx, hcorners⟩ := hd.exists_triangle_of_clique hm hr hS
    have he : (single part).named t = x := Except.ok.inj ((externalTriangle_named hm htriangle).symm.trans hx)
    exact ⟨t, (ht t).mpr htriangle, he ▸ hcorners⟩

end Cliques

-- Whatever the order of the anchors, a view answers with the cliques, each of them once, and counts these.
theorem tells_cliques (hm : part.Made) (hu : part.isUndirected = true) (hd : part.Draws G)
    (hc : c.maxDegree = noDegreeLimit) (hs : c.chunkSize ≤ Word64.greatest) :
    ∃ counts, (single part).countTriangles c false = .ok counts ∧
      ∀ anchors : List Nat, anchors.Perm (List.range part.nodeCount) →
        ∃ named : List Triangle, (single part).Enumerates c anchors named ∧ (named.map Triangle.corners).Nodup ∧
          (∀ S, S ∈ named.map Triangle.corners ↔ G.IsNClique 3 S) ∧ counts.global = named.length ∧
          ∀ x v, part.toInternal? x = some v →
            counts.perNode[v]? = some ((named.map Triangle.corners).countP (x ∈ ·)) := by
  have ⟨targets, roots, hr⟩ := hm.rooted
  have ⟨ts, hfinds, _, hnodup, hmem⟩ := hr.exists_anchored hu c.maxDegree
  rw [hc] at hmem
  have hascending : ∀ t ∈ (List.range part.nodeCount).flatMap ts, t.a < t.b ∧ t.b < t.c := fun t ht =>
    have ⟨hab, hbc, _⟩ := ((hmem t).mp ht).ascending
    ⟨hab, hbc⟩
  refine ⟨_, countTriangles_of_finds hr hu hs hfinds hascending, fun anchors hp => ?_⟩
  have hts := hp.flatMap_right ts
  have htriangle : ∀ t, t ∈ anchors.flatMap ts ↔ part.IsTriangle noDegreeLimit t := fun t => hts.mem_iff.trans (hmem t)
  refine ⟨(anchors.flatMap ts).map (single part).named, ⟨_, _, triangles_of_undirected hu c,
    PartIntersection.trianglesAll_of_finds hfinds fun v hv => ?inside, ?named⟩, ?nodup, fun S => ?cliques, ?global,
    fun x v hx => ?corner⟩
  case inside =>
    rw [hr.nodeCount_intersection]
    exact List.mem_range.mp (hp.mem_iff.mp hv)
  case named =>
    rw [List.map_map]
    exact List.map_congr_left fun t ht => externalTriangle_named hm ((htriangle t).mp ht)
  case nodup =>
    rw [List.map_map]
    exact nodup_corners hm (hts.nodup_iff.mpr hnodup) fun t ht => (htriangle t).mp ht
  case cliques =>
    rw [List.map_map]
    exact mem_corners_iff_clique hm hr hd htriangle S
  case global => rw [List.length_map, hts.length_eq]; rfl
  case corner =>
    have hv := hm.lt_nodeCount (hm.toInternal?_eq_some.mp hx)
    have hcount : ((anchors.flatMap ts).map fun t => ((single part).named t).corners).countP (x ∈ ·) =
        (anchors.flatMap ts).countP (v ∈ ·.toList) := by
      rw [List.countP_map]
      exact List.countP_congr fun t ht => by simpa using mem_corners_named hm ((htriangle t).mp ht) hx
    rw [List.map_map]
    exact (TriangleCounts.getElem?_perNode hv).trans (congrArg some (hts.countP_eq _ ▸ hcount.symm))

end View

end PropertyGraph
