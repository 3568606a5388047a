import PropertyGraph.Node.Subset
import PropertyGraph.Proofs.Chunk.Tally
import PropertyGraph.Proofs.Node.IdMap
import PropertyGraph.Proofs.Sorting

namespace PropertyGraph.Subset

-- The nodes of a map that `p` holds of, numbered in ascending order.
structure Selects (sub : Subset) (m : IdMap) (p : Nat → Bool) : Prop where
  root : sub.root = m
  bounded : m.nodeCount ≤ Fault.maxNodeCount
  inside : ∀ v, p v = true → v < m.nodeCount
  members : ∀ v, sub.members.contains v = p v
  roots : sub.roots.toList = (List.range m.nodeCount).filter p

variable {m : IdMap} {sub : Subset} {ls : List Label} {p : Nat → Bool} {size v root : Nat}

namespace Selects

theorem ascending (h : sub.Selects m p) : sub.roots.toList.Pairwise (· < ·) :=
  h.roots ▸ List.pairwise_lt_range.filter _

theorem mem_iff (h : sub.Selects m p) : root ∈ sub.roots.toList ↔ root < m.nodeCount ∧ p root = true := by
  rw [h.roots, List.mem_filter, List.mem_range]

theorem exists_root (h : sub.Selects m p) (hv : v < sub.nodeCount) :
    ∃ root, sub.roots.toList[v]? = some root ∧ root < m.nodeCount := by
  have hr : sub.roots.toList[v]? = some sub.roots.toList[v] := List.getElem?_eq_getElem hv
  exact ⟨_, hr, (h.mem_iff.mp (List.mem_of_getElem? hr)).left⟩

end Selects

theorem nodeCount_eq (sub : Subset) : sub.nodeCount = sub.roots.toList.length :=
  rfl

theorem toRoot_eq_ok : sub.toRoot v = .ok root ↔ sub.roots.toList[v]? = some root := by
  rw [toRoot, Array.getElem?_toList]
  cases sub.roots[v]? <;> simp

namespace Selects

theorem containsRoot_eq (h : sub.Selects m p) (root : Nat) : sub.containsRoot root = p root := by
  rw [containsRoot, h.members, Bool.and_eq_right_iff_imp, decide_eq_true_eq]
  exact fun hp => Nat.lt_of_lt_of_le (h.inside root hp) h.bounded

-- The rank of a member tells its place among the members.
theorem getElem?_rank (h : sub.Selects m p) (hp : p root = true) :
    sub.roots.toList[sub.members.rank root - 1]? = some root := by
  have ⟨k, hk⟩ : ∃ k, m.nodeCount = root + 1 + k := Nat.exists_eq_add_of_le (h.inside root hp)
  have hc : sub.members.contains = p := funext h.members
  rw [NodeSet.rank_eq_length, hc, h.roots, hk, List.range_add, List.filter_append, List.range_succ,
    List.filter_append]
  simp [hp]

-- A node has the new id at which its root id stands, and no other node has a new id.
theorem toFiltered_eq_some (h : sub.Selects m p) :
    sub.toFiltered root = some v ↔ sub.roots.toList[v]? = some root := by
  rw [toFiltered, h.containsRoot_eq]
  constructor
  case mp =>
    intro hf
    split at hf
    case isTrue hp => exact Option.some.inj hf ▸ h.getElem?_rank hp
    case isFalse => cases hf
  case mpr =>
    intro hr
    have hp := (h.mem_iff.mp (List.mem_of_getElem? hr)).right
    have ⟨hlt, _⟩ := List.getElem?_eq_some_iff.mp hr
    have hn : sub.roots.toList.Nodup := h.ascending.imp Nat.ne_of_lt
    rw [if_pos hp, (List.getElem?_inj hlt hn).mp (hr.trans (h.getElem?_rank hp).symm)]

theorem toFiltered_eq_idxOf? (h : sub.Selects m p) (root : Nat) :
    sub.toFiltered root = sub.roots.toList.idxOf? root := by
  refine Option.ext fun v => ?_
  rw [h.toFiltered_eq_some, idxOf?_of_ascending h.ascending]

end Selects

section Pass

variable {members : NodeSet}

-- What a worker of the pass does with one more chunk.
def work (members : NodeSet) (parts : List Part) (c : Chunk) (_ : Unit) :
    Except Fault (List Part) × Unit :=
  (.ok (Part.ofChunk members c :: parts), ())

theorem parts_of_kept {cs : List Chunk} {parts : List Part} (h : Pass.Kept (work members) [] cs parts) :
    parts = cs.map (Part.ofChunk members) := by
  induction h
  case nothing => rfl
  case chunk hs hi =>
    have hs := Except.ok.inj hs
    rw [← hs, hi, List.map_cons]

theorem parts_of_shares {shares : List (List Chunk)} {kept : List (List Part)}
    (h : List.Forall₂ (Pass.Kept (work members) []) shares kept) :
    kept.flatten = shares.flatten.map (Part.ofChunk members) := by
  induction h
  case nil => rfl
  case cons hk _ hi => rw [List.flatten_cons, List.flatten_cons, List.map_append, hi, parts_of_kept hk]

-- All members of a map in order.
def ordered (m : IdMap) (members : NodeSet) : Subset where
  root := m
  members
  roots := ((List.range m.nodeCount).filter members.contains).toArray

theorem ordered_selects (hm : m.Sound) (hu : m.unionOf ls = .ok members) :
    (ordered m members).Selects m (m.carries ls) where
  root := rfl
  bounded := hm.bounded
  inside v hv := hm.lt_of_unionOf hu ((IdMap.contains_unionOf hu v).trans hv)
  members := IdMap.contains_unionOf hu
  roots := by
    have hc : m.carries ls = members.contains := funext fun v => (IdMap.contains_unionOf hu v).symm
    rw [hc]
    rfl

-- The parts in order are those of all chunks, in each of which the members ascend.
theorem ofParts_eq_ordered (hm : m.Sound) {parts : List Part}
    (hp : parts.Perm ((Chunk.all m.nodeCount size).map (Part.ofChunk members))) :
    ofParts m members parts = ordered m members := by
  have hs := mergeSort_eq_of_perm (fun part : Part => part.start) hp (List.pairwise_map.mpr Chunk.all_ascending)
  have hf : ((Chunk.all m.nodeCount size).map (Part.ofChunk members)).flatMap (·.ids) =
      (List.range m.nodeCount).filter members.contains := by
    have hcut : (List.range m.nodeCount).filter (fun v => members.contains (Word32.truncate v)) =
        (List.range m.nodeCount).filter members.contains := List.filter_congr fun v hv => by
      rw [IdMap.truncate_of_lt (List.mem_range.mp hv) hm.bounded]
    rw [← hcut, List.flatMap_map, ← @Chunk.flatMap_ids_all m.nodeCount size, List.filter_flatMap]
    rfl
  rw [ofParts, hs, hf, ordered]

-- A search for the members, after these events.
def search (m : IdMap) (members : NodeSet) (concurrency size : Nat) (es : List Pass.Event) :
    Pass (List Part) (List Part × Chunk) Unit Fault :=
  (Pass.start m.nodeCount concurrency size [] () false).follow (.whole (work members) Fault.isViolation) es

-- What is made of the parts that were found by then.
def found (m : IdMap) (members : NodeSet) (concurrency size : Nat) (es : List Pass.Event) :
    Except Fault Subset := do
  return ofParts m members (← (search m members concurrency size es).outcome).flatten

theorem lasts_of_sound (hm : m.Sound) (hs : size ≤ Word64.greatest) (concurrency : Nat) :
    m.nodeCount ≤ Word64.greatest ∧
      Dispenser.Lasts m.nodeCount size (Pass.workerCount m.nodeCount concurrency size) := by
  have hn : 3 * m.nodeCount ≤ Word64.count := by
    have := hm.bounded
    simp only [Fault.maxNodeCount, Word64.count] at this ⊢
    omega
  exact ⟨Pass.le_greatest hn, Pass.lasts_workerCount concurrency hs hn⟩

-- Whatever turns the workers take, they find the same.
theorem found_eq_ordered (hm : m.Sound) (hs : size ≤ Word64.greatest) {concurrency : Nat} {es : List Pass.Event}
    (he : .raise ∉ es) (hc : (search m members concurrency size es).isComplete = true) :
    found m members concurrency size es = .ok (ordered m members) := by
  have ⟨hu, hl⟩ := lasts_of_sound hm hs concurrency
  have hadds : Pass.Adds (work members) (fun g _ => g) m.nodeCount size := fun _ _ _ _ => ⟨_, rfl⟩
  have ⟨kept, shares, _, ho, _, hk, hp, _⟩ := Pass.follow_tallies hu hl hadds he hc
  have hparts := ofParts_eq_ordered hm (parts_of_shares hk ▸ hp.map (Part.ofChunk members))
  rw [found, search, ho, Outcome.ok_bind, hparts]
  rfl

end Pass

theorem ofLabels_eq_ordered (hm : m.Sound) (hs : size ≤ Word64.greatest) (concurrency : Nat) {members : NodeSet}
    (hu : m.unionOf ls = .ok members) : ofLabels m ls concurrency size = .ok (ordered m members) := by
  have ⟨hn, hl⟩ := lasts_of_sound hm hs concurrency
  have ⟨hc, es, he, hp⟩ := @Pass.exists_follow_of_perform _ _ _ (work members) Fault.isViolation [] _ _ () _ hn hl
  rw [hp] at hc
  rw [ofLabels, hu, Outcome.ok_bind]
  refine .trans ?_ (found_eq_ordered hm hs he hc)
  exact congrArg (fun p => p.outcome >>= fun parts => pure (ofParts m members parts.flatten)) hp

theorem ofLabels_selects (hm : m.Sound) (hs : size ≤ Word64.greatest) (concurrency : Nat) {s : NodeSet}
    (hu : m.unionOf ls = .ok s) :
    ∃ sub, ofLabels m ls concurrency size = .ok sub ∧ sub.Selects m (m.carries ls) :=
  ⟨_, ofLabels_eq_ordered hm hs concurrency hu, ordered_selects hm hu⟩

theorem selects_of_ofLabels (hm : m.Sound) (hs : size ≤ Word64.greatest) {concurrency : Nat}
    (h : ofLabels m ls concurrency size = .ok sub) : sub.Selects m (m.carries ls) := by
  have ⟨_, hu, _⟩ := Outcome.bind_eq_ok.mp h
  have ⟨sub', h', hsel⟩ := ofLabels_selects hm hs concurrency hu
  have he : sub' = sub := Except.ok.inj (h'.symm.trans h)
  exact he ▸ hsel

end PropertyGraph.Subset
