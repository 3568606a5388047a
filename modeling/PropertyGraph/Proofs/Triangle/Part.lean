import PropertyGraph.Proofs.View.Queries

namespace PropertyGraph

theorem Triangle.mem_toList {t : Triangle} {v : Nat} : v ∈ t.toList ↔ v = t.a ∨ v = t.b ∨ v = t.c := by
  simp [toList]

-- The order in which the triangles of one corner are found.
def Triangle.Before (s t : Triangle) : Prop := s.b < t.b ∨ s.b = t.b ∧ s.c < t.c

instance : Std.Asymm Triangle.Before where
  asymm s t h := by
    rw [Triangle.Before] at h ⊢
    omega

-- There is only one order in which the same triangles can be found.
theorem Triangle.eq_of_before {ss ts : List Triangle} (hs : ss.Pairwise Triangle.Before)
    (ht : ts.Pairwise Triangle.Before) (h : ∀ t, t ∈ ss ↔ t ∈ ts) : ss = ts :=
  hs.eq_of_mem_iff ht h

namespace Part

-- The degree of a node in the topology, whatever the part leaves out.
def rootDegree (p : Part) (node : Nat) : Except Fault Nat :=
  match p with
  | whole p => p.topology.degree node
  | restricted p s => do p.topology.degree (← s.toRoot node)

-- Three nodes, each connected with each other, none of which has too many relationships.
structure IsTriangle (p : Part) (maxDegree : Nat) (t : Triangle) : Prop where
  ascending : t.a < t.b ∧ t.b < t.c ∧ t.c < p.nodeCount
  connected : ∀ v ∈ t.toList, ∀ w ∈ t.toList, v ≠ w → p.hasRelationship v w = .ok true
  within : ∀ v ∈ t.toList, ∃ d, p.rootDegree v = .ok d ∧ d ≤ maxDegree

theorem IsTriangle.lt_nodeCount {p : Part} {maxDegree v : Nat} {t : Triangle} (h : p.IsTriangle maxDegree t)
    (hv : v ∈ t.toList) : v < p.nodeCount := by
  have ⟨hab, hbc, hc⟩ := h.ascending
  rcases Triangle.mem_toList.mp hv with rfl | rfl | rfl <;> omega

-- The nodes of a triangle in the topology, if `roots` are the nodes by the ids of the part.
structure Corners (targets : Nat → List Nat) (roots : List Nat) (maxDegree : Nat) (t : Triangle)
    (a b c : Nat) : Prop where
  at_a : roots[t.a]? = some a
  at_b : roots[t.b]? = some b
  at_c : roots[t.c]? = some c
  ascending : a < b ∧ b < c
  connected : b ∈ targets a ∧ c ∈ targets a ∧ c ∈ targets b
  within : (targets a).length ≤ maxDegree ∧ (targets b).length ≤ maxDegree ∧ (targets c).length ≤ maxDegree

-- Whatever the pool, the triangles of a corner are found, each of them once.
def FindsAt (e : PartIntersection) (targets : Nat → List Nat) (roots : List Nat) (maxDegree v : Nat) : Prop :=
  ∀ pool, ∃ pool' found, e.trianglesAt v pool = .ok (pool', found) ∧
    (∀ t, t ∈ found ↔ t.a = v ∧ ∃ a b c, Corners targets roots maxDegree t a b c) ∧
    found.toList.Pairwise Triangle.Before

-- A part whose nodes are these of its topology in ascending order.
structure Rooted (p : Part) (targets : Nat → List Nat) (roots : List Nat) : Prop where
  nodeCount : p.nodeCount = roots.length
  bounded : roots.length ≤ Fault.maxNodeCount
  ascending : roots.Pairwise (· < ·)
  hasRelationship : ∀ (v w : Nat) a b, roots[v]? = some a → roots[w]? = some b →
    p.hasRelationship v w = .ok (decide (b ∈ targets a))
  rootDegree : ∀ (v : Nat) a, roots[v]? = some a → p.rootDegree v = .ok (targets a).length
  short : ∀ a ∈ roots, (targets a).length ≤ Fault.maxRunLength
  mirrored : p.isUndirected = true → ∀ a ∈ roots, ∀ b ∈ roots, b ∈ targets a → a ∈ targets b
  count : ∀ maxDegree, (p.intersection maxDegree).nodeCount = roots.length
  findsAt : ∀ maxDegree, ∀ v < roots.length, FindsAt (p.intersection maxDegree) targets roots maxDegree v

variable {p : Projection} {sub : Subset} {m : IdMap} {targets : Nat → List Nat} {keep : Nat → Bool}
  {n maxDegree v : Nat} {t : Triangle}

theorem getElem?_range_eq_some {a : Nat} : (List.range n)[v]? = some a ↔ a = v ∧ v < n := by
  rw [List.getElem?_eq_some_iff]
  simp [eq_comm, and_comm]

theorem corners_range : (∃ a b c, Corners targets (List.range n) maxDegree t a b c) ↔
    (t.a < t.b ∧ t.b < t.c ∧ t.c < n) ∧ (t.b ∈ targets t.a ∧ t.c ∈ targets t.a ∧ t.c ∈ targets t.b) ∧
      (targets t.a).length ≤ maxDegree ∧ (targets t.b).length ≤ maxDegree ∧ (targets t.c).length ≤ maxDegree := by
  constructor
  case mp =>
    rintro ⟨a, b, c, ha, hb, hc, ⟨hab, hbc⟩, hconnected, hwithin⟩
    obtain ⟨rfl, _⟩ := getElem?_range_eq_some.mp ha
    obtain ⟨rfl, _⟩ := getElem?_range_eq_some.mp hb
    obtain ⟨rfl, hlt⟩ := getElem?_range_eq_some.mp hc
    exact ⟨⟨hab, hbc, hlt⟩, hconnected, hwithin⟩
  case mpr =>
    rintro ⟨⟨hab, hbc, hlt⟩, hconnected, hwithin⟩
    have hb := Nat.lt_trans hbc hlt
    exact ⟨t.a, t.b, t.c, getElem?_range_eq_some.mpr ⟨rfl, Nat.lt_trans hab hb⟩,
      getElem?_range_eq_some.mpr ⟨rfl, hb⟩, getElem?_range_eq_some.mpr ⟨rfl, hlt⟩, ⟨hab, hbc⟩, hconnected, hwithin⟩

theorem whole_findsAt (hs : p.topology.Serves n targets) (hv : v < n) :
    FindsAt ((whole p).intersection maxDegree) targets (List.range n) maxDegree v := by
  intro pool
  obtain ⟨pool', found, hr, hmem, hord⟩ :=
    @Intersection.trianglesAt_finds ⟨p.topology, maxDegree, none⟩ _ _ hs v hv pool
  refine ⟨pool', found, hr, fun t => (hmem t).trans ?_, hord⟩
  rw [corners_range]
  constructor
  case mp =>
    rintro ⟨rfl, hab, hbc, hb, hc, hcb, hda, hdb, hdc, _⟩
    exact ⟨rfl, ⟨hab, hbc, hs.inside _ hv _ hc⟩, ⟨hb, hc, hcb⟩, hda, hdb, hdc⟩
  case mpr =>
    rintro ⟨rfl, ⟨hab, hbc, _⟩, ⟨hb, hc, hcb⟩, hda, hdb, hdc⟩
    exact ⟨rfl, hab, hbc, hb, hc, hcb, hda, hdb, hdc, rfl, rfl⟩

theorem whole_rooted (hs : p.topology.Stores targets) (hn : p.topology.nodeCount = p.nodes.nodeCount)
    (hb : p.nodes.nodeCount ≤ Fault.maxNodeCount) :
    (whole p).Rooted targets (List.range p.nodes.nodeCount) := by
  obtain ⟨hserves, _, hm⟩ := hs
  rw [hn] at hserves hm
  refine ⟨List.length_range.symm, by simpa using hb, List.pairwise_lt_range, fun v w a b hv hw => ?has,
    fun v a hv => ?degree, fun a ha => hserves.length_le (List.mem_range.mp ha), fun hu a ha b hb => ?mirrored,
    fun _ => hn.trans List.length_range.symm,
    fun maxDegree v hv => whole_findsAt hserves (by simpa using hv)⟩
  case has =>
    obtain ⟨rfl, ha⟩ := getElem?_range_eq_some.mp hv
    obtain ⟨rfl, hb⟩ := getElem?_range_eq_some.mp hw
    exact Projection.hasRelationship_of_serves hserves ha hb
  case degree =>
    obtain ⟨rfl, ha⟩ := getElem?_range_eq_some.mp hv
    exact (Intersection.targets_of_serves hserves ha).right
  case mirrored => exact hm hu a (List.mem_range.mp ha) b (List.mem_range.mp hb)

-- A triangle by the ids of a subset, if all corners are in it.
def translateTriangle (sub : Subset) (v : Nat) (t : Triangle) : Option Triangle := do
  return ⟨v, ← sub.toFiltered t.b, ← sub.toFiltered t.c⟩

theorem translateTriangle_eq_some (hs : sub.Selects m keep) {v : Nat} {t t' : Triangle} :
    translateTriangle sub v t = some t' ↔ t'.a = v ∧ sub.roots.toList[t'.b]? = some t.b ∧
      sub.roots.toList[t'.c]? = some t.c := by
  rw [← hs.toFiltered_eq_some, ← hs.toFiltered_eq_some, translateTriangle]
  cases sub.toFiltered t.b
  case none => simp
  case some b =>
    cases sub.toFiltered t.c
    case none => simp
    case some c =>
      obtain ⟨a', b', c'⟩ := t'
      simp [eq_comm]

theorem translateTriangle_before (hsub : sub.Selects m keep) {v : Nat} {s t s' t' : Triangle}
    (hs : translateTriangle sub v s = some s') (ht : translateTriangle sub v t = some t')
    (h : s.Before t) : s'.Before t' := by
  have ⟨_, hsb, hsc⟩ := (translateTriangle_eq_some hsub).mp hs
  have ⟨_, htb, htc⟩ := (translateTriangle_eq_some hsub).mp ht
  cases h
  case inl hb => exact .inl ((lt_iff_of_ascending hsub.ascending hsb htb).mp hb)
  case inr hb =>
    have ⟨hb, hc⟩ := hb
    refine .inr ⟨Nat.le_antisymm ?_ ?_, (lt_iff_of_ascending hsub.ascending hsc htc).mp hc⟩
    · exact Nat.not_lt.mp fun hlt => Nat.ne_of_gt ((lt_iff_of_ascending hsub.ascending htb hsb).mpr hlt) hb
    · exact Nat.not_lt.mp fun hlt => Nat.ne_of_lt ((lt_iff_of_ascending hsub.ascending hsb htb).mpr hlt) hb

theorem trianglesAt_restricted {root : Nat} {pool pool' : Pool} {found : Array Triangle}
    (hroot : sub.toRoot v = .ok root)
    (h : (⟨p.topology, maxDegree, some sub.members⟩ : Intersection).trianglesAt root pool = .ok (pool', found)) :
    ((restricted p sub).intersection maxDegree).trianglesAt v pool =
      .ok (pool', found.filterMap (translateTriangle sub v)) := by
  simp only [intersection, PartIntersection.trianglesAt, hroot, Outcome.ok_bind, h]
  rfl

theorem restricted_findsAt (hs : p.topology.Serves p.nodes.nodeCount targets) (hsub : sub.Selects p.nodes keep)
    (hv : v < sub.nodeCount) :
    FindsAt ((restricted p sub).intersection maxDegree) targets sub.roots.toList maxDegree v := by
  intro pool
  obtain ⟨root, hroot, hlt⟩ := hsub.exists_root hv
  obtain ⟨pool', found, hr, hmem, hord⟩ :=
    @Intersection.trianglesAt_finds ⟨p.topology, maxDegree, some sub.members⟩ _ _ hs root hlt pool
  refine ⟨pool', found.filterMap (translateTriangle sub v),
    trianglesAt_restricted (Subset.toRoot_eq_ok.mpr hroot) hr, fun t => ?mem, ?ordered⟩
  case ordered =>
    rw [Array.toList_filterMap, List.pairwise_filterMap]
    exact hord.imp fun h s' hs' t' ht' => translateTriangle_before hsub hs' ht' h
  case mem =>
    rw [Array.mem_filterMap]
    constructor
    case mp =>
      rintro ⟨s, hs, hst⟩
      obtain ⟨hta, htb, htc⟩ := (translateTriangle_eq_some hsub).mp hst
      obtain ⟨hsa, hab, hbc, hb, hc, hcb, hda, hdb, hdc, _⟩ := (hmem s).mp hs
      exact ⟨hta, s.a, s.b, s.c, hsa ▸ hta ▸ hroot, htb, htc, ⟨hab, hbc⟩, ⟨hb, hc, hcb⟩, hda, hdb, hdc⟩
    case mpr =>
      rintro ⟨hta, a, b, c, ha, hb, hc, ⟨hab, hbc⟩, ⟨hba, hca, hcb⟩, hda, hdb, hdc⟩
      have ha : a = root := Option.some.inj (ha.symm.trans (hta ▸ hroot))
      have hmember : ∀ {i x}, sub.roots.toList[i]? = some x → sub.members.contains x = true := fun h =>
        (hsub.members _).trans (hsub.mem_iff.mp (List.mem_of_getElem? h)).right
      refine ⟨⟨a, b, c⟩, (hmem _).mpr ⟨ha, hab, hbc, hba, hca, hcb, hda, hdb, hdc, hmember hb, hmember hc⟩, ?_⟩
      exact (translateTriangle_eq_some hsub).mpr ⟨hta, hb, hc⟩

theorem restricted_rooted (hs : p.topology.Stores targets) (hn : p.topology.nodeCount = p.nodes.nodeCount)
    (hb : p.nodes.nodeCount ≤ Fault.maxNodeCount) (hsub : sub.Selects p.nodes keep) :
    (restricted p sub).Rooted targets sub.roots.toList := by
  obtain ⟨hserves, _, hm⟩ := hs
  rw [hn] at hserves hm
  have hin : ∀ {v a : Nat}, sub.roots.toList[v]? = some a → a < p.nodes.nodeCount := fun h =>
    (hsub.mem_iff.mp (List.mem_of_getElem? h)).left
  have hlen : sub.roots.toList.length ≤ p.nodes.nodeCount := by
    rw [hsub.roots]
    exact Nat.le_trans (List.length_filter_le ..) (Nat.le_of_eq List.length_range)
  refine ⟨sub.nodeCount_eq, Nat.le_trans hlen hb, hsub.ascending, fun v w a b hv hw => ?has,
    fun v a hv => ?degree, fun a ha => hserves.length_le (hsub.mem_iff.mp ha).left, fun hu a ha b hb => ?mirrored,
    fun _ => sub.nodeCount_eq,
    fun maxDegree v hv => restricted_findsAt hserves hsub hv⟩
  case has =>
    rw [hasRelationship, Subset.toRoot_eq_ok.mpr hv, Outcome.ok_bind, Subset.toRoot_eq_ok.mpr hw, Outcome.ok_bind]
    exact Projection.hasRelationship_of_serves hserves (hin hv) (hin hw)
  case degree =>
    rw [rootDegree, Subset.toRoot_eq_ok.mpr hv, Outcome.ok_bind]
    exact (Intersection.targets_of_serves hserves (hin hv)).right
  case mirrored => exact hm hu a (hsub.mem_iff.mp ha).left b (hsub.mem_iff.mp hb).left

theorem Made.rooted {part : Part} (h : part.Made) : ∃ targets roots, part.Rooted targets roots := by
  cases h
  case whole p hp =>
    have ⟨hm, hb, hn⟩ := hp.sound
    have ⟨targets, hs⟩ := hb.stores (hn ▸ Nat.le_trans hm.bounded (by decide))
    exact ⟨targets, _, whole_rooted hs hn hm.bounded⟩
  case restricted p ls concurrency size sub hp hsize hsub =>
    have ⟨hm, hb, hn⟩ := hp.sound
    have ⟨targets, hs⟩ := hb.stores (hn ▸ Nat.le_trans hm.bounded (by decide))
    exact ⟨targets, _, restricted_rooted hs hn hm.bounded (Subset.selects_of_ofLabels hm hsize hsub)⟩

end Part

end PropertyGraph
