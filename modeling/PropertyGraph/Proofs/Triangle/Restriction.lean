import PropertyGraph.Proofs.Triangle.Count

namespace PropertyGraph

namespace Intersection

variable {t : Topology} {n maxDegree a : Nat} {targets : Nat → List Nat} {members : NodeSet}

theorem trianglesAt_of_members (h : t.Serves n targets) (ha : a < n) (pool pool' : Pool) :
    ∃ after after' all found, (⟨t, maxDegree, none⟩ : Intersection).trianglesAt a pool = .ok (after, all) ∧
      (⟨t, maxDegree, some members⟩ : Intersection).trianglesAt a pool' = .ok (after', found) ∧
      (∀ s, s ∈ all ↔ IsTriangleAt ⟨t, maxDegree, none⟩ targets a s) ∧
      found.toList = all.toList.filter fun s => members.contains s.b && members.contains s.c := by
  have ⟨after, all, hr, hmem, hord⟩ := @trianglesAt_finds ⟨t, maxDegree, none⟩ _ _ h a ha pool
  have ⟨after', found, hr', hmem', hord'⟩ := @trianglesAt_finds ⟨t, maxDegree, some members⟩ _ _ h a ha pool'
  refine ⟨after, after', all, found, hr, hr', hmem, Triangle.eq_of_before hord' (hord.filter _) fun s => ?_⟩
  rw [Array.mem_toList_iff, hmem', List.mem_filter, Array.mem_toList_iff, hmem, Bool.and_eq_true]
  simp [IsTriangleAt, includes, and_assoc]

end Intersection

namespace PartIntersection

variable {e : PartIntersection} {ts : Nat → List Triangle} {anchors : List Nat}

-- Takes in the triangles of one more anchor.
def gather (e : PartIntersection) (acc : Pool × Array Triangle) (a : Nat) :
    Except Fault (Pool × Array Triangle) := do
  let r ← e.trianglesAt a acc.1
  return (r.1, acc.2 ++ r.2)

theorem trianglesAll_eq_foldlM (e : PartIntersection) (anchors : List Nat) :
    e.trianglesAll anchors = anchors.foldlM e.gather (Pool.fresh, #[]) >>= fun r => pure r.2 :=
  rfl

theorem foldlM_gather (h : e.Finds ts) (ha : ∀ v ∈ anchors, v < e.nodeCount) (pool : Pool)
    (found : Array Triangle) :
    ∃ pool', anchors.foldlM e.gather (pool, found) = .ok (pool', found ++ (anchors.flatMap ts).toArray) := by
  induction anchors generalizing pool found
  case nil => exact ⟨pool, by simp⟩
  case cons v anchors hi =>
    have ⟨hv, hvs⟩ := List.forall_mem_cons.mp ha
    have ⟨pool₁, hr⟩ := h v hv pool
    have ⟨pool₂, hr'⟩ := hi hvs pool₁ (found ++ (ts v).toArray)
    exact ⟨pool₂, by simpa [List.foldlM_cons, gather, hr] using hr'⟩

theorem trianglesAll_of_finds (h : e.Finds ts) (ha : ∀ v ∈ anchors, v < e.nodeCount) :
    e.trianglesAll anchors = .ok (anchors.flatMap ts).toArray := by
  have ⟨_, hr⟩ := foldlM_gather h ha .fresh #[]
  rw [trianglesAll_eq_foldlM, hr]
  simp

end PartIntersection

namespace Part

-- Whatever the pools, a node of a subset is answered with the triangles of its root in the whole whose other corners
-- are in the subset: all of them, by their ids in the subset and in the same order.
def RestrictsAt (p : Projection) (sub : Subset) (maxDegree v : Nat) : Prop :=
  ∀ pool pool', ∃ root after after' all found, sub.toRoot v = .ok root ∧
    ((whole p).intersection maxDegree).trianglesAt root pool = .ok (after, all) ∧
    ((restricted p sub).intersection maxDegree).trianglesAt v pool' = .ok (after', found) ∧
    (∀ t ∈ all, t.a = root) ∧
    found.toList.map some =
      (all.toList.filter fun t => sub.containsRoot t.b && sub.containsRoot t.c).map (translateTriangle sub v) ∧
    ∀ t ∈ found, v < t.b ∧ t.b < t.c ∧ t.c < sub.nodeCount

variable {p : Projection} {sub : Subset} {part : Part} {targets : Nat → List Nat} {roots anchors : List Nat}
  {keep : Nat → Bool} {ls : List Label} {maxDegree v : Nat} {t : Triangle}

-- No node has more relationships than the limit allows.
theorem Rooted.isTriangle_iff (h : part.Rooted targets roots)
    (hl : ∀ a ∈ roots, (targets a).length ≤ maxDegree) :
    part.IsTriangle maxDegree t ↔ (t.a < t.b ∧ t.b < t.c ∧ t.c < part.nodeCount) ∧
      ∀ v ∈ t.toList, ∀ w ∈ t.toList, v ≠ w → part.hasRelationship v w = .ok true := by
  constructor
  case mp => exact fun ht => ⟨ht.ascending, ht.connected⟩
  case mpr =>
    intro ⟨ha, hc⟩
    refine ⟨ha, hc, fun v hv => ?_⟩
    have hlt : v < roots.length := by
      simp only [Triangle.toList, List.mem_cons, List.not_mem_nil, or_false] at hv
      rw [← h.nodeCount]
      omega
    have hroot : roots[v]? = some roots[v] := List.getElem?_eq_getElem hlt
    exact ⟨_, h.rootDegree v _ hroot, hl _ (List.mem_of_getElem? hroot)⟩

-- Whatever the order of the anchors.
theorem Rooted.trianglesAll_enumerates (h : part.Rooted targets roots) (hu : part.isUndirected = true)
    (hp : anchors.Perm (List.range part.nodeCount)) (maxDegree : Nat) :
    ∃ found, (part.intersection maxDegree).trianglesAll anchors = .ok found ∧ found.toList.Nodup ∧
      ∀ t, t ∈ found ↔ part.IsTriangle maxDegree t := by
  have ⟨ts, hfinds, hnodup, hmem⟩ := h.exists_triangles hu maxDegree
  have hin : ∀ v ∈ anchors, v < (part.intersection maxDegree).nodeCount := fun v hv => by
    rw [h.count, ← h.nodeCount]
    exact List.mem_range.mp (hp.mem_iff.mp hv)
  have hts := hp.flatMap_right ts
  refine ⟨_, PartIntersection.trianglesAll_of_finds hfinds hin, hts.nodup_iff.mpr hnodup, fun t => ?_⟩
  rw [List.mem_toArray, hts.mem_iff, hmem]

theorem map_some_filterMap {α β : Type} {f : α → Option β} {as : List α} (h : ∀ a ∈ as, (f a).isSome) :
    (as.filterMap f).map some = as.map f := by
  induction as
  case nil => rfl
  case cons a as hi =>
    have ⟨ha, has⟩ := List.forall_mem_cons.mp h
    have ⟨b, hb⟩ := Option.isSome_iff_exists.mp ha
    rw [List.filterMap_cons_some hb, List.map_cons, List.map_cons, hi has, hb]

-- Members are named in the subset, so that no triangle between them is lost.
theorem isSome_translateTriangle (hb : sub.containsRoot t.b = true) (hc : sub.containsRoot t.c = true) :
    (translateTriangle sub v t).isSome := by
  simp [translateTriangle, Subset.toFiltered, hb, hc]

theorem restrictsAt_of_selects (hs : p.topology.Serves p.nodes.nodeCount targets) (hsub : sub.Selects p.nodes keep)
    (hv : v < sub.nodeCount) : RestrictsAt p sub maxDegree v := by
  intro pool pool'
  have ⟨root, hroot, hlt⟩ := hsub.exists_root hv
  have ⟨after, after', all, among, hr, hr', hmem, hamong⟩ :=
    @Intersection.trianglesAt_of_members _ _ maxDegree _ _ sub.members hs hlt pool pool'
  have hv : sub.toRoot v = .ok root := Subset.toRoot_eq_ok.mpr hroot
  refine ⟨root, after, after', all, _, hv, hr, trianglesAt_restricted hv hr',
    fun t ht => ((hmem t).mp ht).left, ?images, fun t ht => ?ascending⟩
  case images =>
    have hin : ∀ x, sub.members.contains x = sub.containsRoot x := fun x =>
      (hsub.members x).trans (hsub.containsRoot_eq x).symm
    rw [Array.toList_filterMap, hamong]
    simp only [hin]
    refine map_some_filterMap fun t ht => ?_
    have ⟨_, ht⟩ := List.mem_filter.mp ht
    have ⟨hb, hc⟩ := Bool.and_eq_true_iff.mp ht
    exact isSome_translateTriangle hb hc
  case ascending =>
    have ⟨s, hst, ht⟩ := Array.mem_filterMap.mp ht
    have ⟨_, hb, hc⟩ := (translateTriangle_eq_some hsub).mp ht
    have hst : s ∈ all.toList := List.mem_of_mem_filter (hamong ▸ Array.mem_toList_iff.mpr hst)
    obtain ⟨rfl, hab, hbc, _⟩ := (hmem s).mp (Array.mem_toList_iff.mp hst)
    have ⟨hlt, _⟩ := List.getElem?_eq_some_iff.mp hc
    exact ⟨(lt_iff_of_ascending hsub.ascending hroot hb).mp hab,
      (lt_iff_of_ascending hsub.ascending hb hc).mp hbc, hlt⟩

-- A search in a subset is the search among all nodes less the triangles that have a corner outside: all triangles
-- that the relationships between its nodes make, each of them once.
theorem restricted_triangles {nodeList : List (Nat × List Label)} {concurrency size : Nat}
    (hnodes : IdMap.ofNodes nodeList = .ok p.nodes) (hb : p.topology.Built)
    (hn : p.topology.nodeCount = p.nodes.nodeCount) (hsize : size ≤ Word64.greatest)
    (hsub : Subset.ofLabels p.nodes ls concurrency size = .ok sub) :
    (∀ maxDegree, ∀ v < sub.nodeCount, RestrictsAt p sub maxDegree v) ∧
    ((restricted p sub).isUndirected = true → ∀ anchors : List Nat, anchors.Perm (List.range sub.nodeCount) →
      ∃ found, ((restricted p sub).intersection noDegreeLimit).trianglesAll anchors = .ok found ∧
        found.toList.Nodup ∧ ∀ t, t ∈ found ↔ (t.a < t.b ∧ t.b < t.c ∧ t.c < sub.nodeCount) ∧
          ∀ v ∈ t.toList, ∀ w ∈ t.toList, v ≠ w → (restricted p sub).hasRelationship v w = .ok true) := by
  have hm := IdMap.ofNodes_sound hnodes
  have hsel := Subset.selects_of_ofLabels hm hsize hsub
  have ⟨targets, hs⟩ := hb.stores (hn ▸ Nat.le_trans hm.bounded (by decide))
  have hserves : p.topology.Serves p.nodes.nodeCount targets := hn ▸ hs.serves
  have hrooted := restricted_rooted hs hn hm.bounded hsel
  have hshort : ∀ a ∈ sub.roots.toList, (targets a).length ≤ noDegreeLimit := fun a ha => by
    have ⟨_, _, hh⟩ := hserves.holds a (hsel.mem_iff.mp ha).left
    exact Nat.le_trans hh.isRun.short (by decide)
  refine ⟨fun maxDegree v hv => restrictsAt_of_selects hserves hsel hv, fun hu anchors hp => ?_⟩
  have ⟨found, hr, hnodup, hmem⟩ := hrooted.trianglesAll_enumerates hu hp noDegreeLimit
  exact ⟨found, hr, hnodup, fun t => (hmem t).trans (hrooted.isTriangle_iff hshort)⟩

theorem restricted_triangles_of_label :
    ∃ nodes rs p sub, IdMap.ofNodes [(10, [⟨"A"⟩]), (20, []), (30, [⟨"A"⟩]), (40, [⟨"A"⟩])] = .ok nodes ∧
      ((Batch.empty 4 .undirected []).collect
        [.addDefault 0 1, .addDefault 1 2, .addDefault 2 0, .addDefault 2 3, .addDefault 3 0]).compress 1 = .ok rs ∧
      Projection.owned nodes ⟨"LINKS"⟩ rs none = .ok p ∧ Subset.ofLabels nodes [⟨"A"⟩] 2 64 = .ok sub ∧
      0 < sub.nodeCount ∧ RestrictsAt p sub 8 0 := by
  have ⟨nodes, hnodes, hcount, hlabels⟩ := @IdMap.exists_ofNodes_labeled
    [(10, [⟨"A"⟩]), (20, []), (30, [⟨"A"⟩]), (40, [⟨"A"⟩])] (by decide) (by decide)
  have ⟨rs, hrs, hn, _⟩ := Relationships.exists_built 4 .undirected []
    [.addDefault 0 1, .addDefault 1 2, .addDefault 2 0, .addDefault 2 3, .addDefault 3 0] 1 (by decide) (by decide)
  have ⟨p, hp⟩ := @Projection.exists_owned rs none (fun _ h => nomatch h) nodes ⟨"LINKS"⟩
  have ⟨hpnodes, htopology⟩ := Projection.topology_of_owned hp
  have hsound := IdMap.ofNodes_sound hnodes
  have hcarries : nodes.carries [⟨"A"⟩] 0 = true :=
    IdMap.carries_iff.mpr ⟨_, List.mem_cons_self, hlabels 0 _ rfl _ List.mem_cons_self⟩
  have ⟨union, hunion⟩ := @IdMap.unionOf_of_known nodes [⟨"A"⟩] fun l hl => by
    rw [List.mem_singleton.mp hl]
    exact NameMap.mem_keys_iff.mp (IdMap.known_of_contains (hlabels 0 _ rfl _ List.mem_cons_self))
  have hsize : 64 ≤ Word64.greatest := by decide
  have ⟨sub, hsub, hsel⟩ := Subset.ofLabels_selects hsound hsize 2 hunion
  have hzero : 0 ∈ sub.roots.toList := hsel.mem_iff.mpr ⟨hcount ▸ (by decide), hcarries⟩
  have hpos : 0 < sub.nodeCount := List.length_pos_of_mem hzero
  have ⟨hat, _⟩ := restricted_triangles (hpnodes.symm ▸ hnodes) (htopology.symm ▸ .compressed ⟨_, _, _, _, _, hrs⟩)
    (by rw [htopology, hpnodes, hn, hcount]; rfl) hsize (hpnodes.symm ▸ hsub)
  exact ⟨nodes, rs, p, sub, hnodes, hrs, hp, hsub, hpos, hat 8 0 hpos⟩

end Part

end PropertyGraph
