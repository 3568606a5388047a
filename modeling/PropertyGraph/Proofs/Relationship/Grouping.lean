import Mathlib.Data.List.Count
import Mathlib.Data.List.Nodup
import PropertyGraph.Proofs.Sorting
import PropertyGraph.Relationship.Batch

namespace PropertyGraph.Grouping

-- How many of the sources are in front of a node.
def before (sources : Array Nat) (v : Nat) : Nat :=
  sources.toList.countP (· < v)

-- Those of the first `n` rows that come from a node.
def rowsFrom (sources : Array Nat) (v n : Nat) : List Nat :=
  (List.range n).filter (sources[·]? = some v)

variable {sources : Array Nat} {nodeCount v w i n s : Nat}

@[simp]
theorem before_zero (sources : Array Nat) : before sources 0 = 0 :=
  List.countP_eq_zero.mpr fun s _ => by simp

-- The places of a node begin behind those of all nodes in front of it.
theorem before_succ (sources : Array Nat) (v : Nat) :
    before sources (v + 1) = before sources v + sources.toList.count v := by
  unfold before
  induction sources.toList
  case nil => rfl
  case cons s ss hi =>
    simp only [List.countP_cons, List.count_cons, hi, decide_eq_true_eq, beq_iff_eq]
    split <;> split <;> split <;> omega

theorem before_monotone (sources : Array Nat) : Monotone (before sources) :=
  fun v w h => List.countP_mono_left fun s _ hs => by simp at hs ⊢; omega

theorem lt_of_before_lt (h : before sources v < before sources w) : v < w :=
  (before_monotone sources).reflect_lt h

theorem before_le_size (sources : Array Nat) (v : Nat) : before sources v ≤ sources.size :=
  List.countP_le_length

theorem before_eq_size (h : ∀ s ∈ sources, s < v) : before sources v = sources.size :=
  List.countP_eq_length.mpr fun s hs => decide_eq_true (h s (Array.mem_toList_iff.mp hs))

theorem mem_rowsFrom : i ∈ rowsFrom sources v n ↔ i < n ∧ sources[i]? = some v := by
  simp [rowsFrom]

theorem pairwise_rowsFrom (sources : Array Nat) (v n : Nat) : (rowsFrom sources v n).Pairwise (· < ·) :=
  List.pairwise_lt_range.filter _

theorem rowsFrom_succ (hi : sources[i]? = some s) (v : Nat) :
    rowsFrom sources v (i + 1) = rowsFrom sources v i ++ if s = v then [i] else [] := by
  rw [rowsFrom, List.range_succ, List.filter_append]
  congr 1
  by_cases h : s = v <;> simp [h, hi]

theorem length_rowsFrom_size (sources : Array Nat) (v : Nat) :
    (rowsFrom sources v sources.size).length = sources.toList.count v := by
  have hs : sources.toList.map some = (List.range sources.size).map (sources[·]?) := by
    apply List.ext_getElem <;> simp
  rw [← List.count_map_of_injective _ _ (fun _ _ => Option.some.inj), hs, List.count, List.countP_map,
    List.countP_eq_length_filter, rowsFrom]
  congr 1
  refine List.filter_congr fun i _ => ?_
  rw [Bool.eq_iff_iff]
  simp

theorem length_rowsFrom_le (hn : n ≤ sources.size) (v : Nat) :
    (rowsFrom sources v n).length ≤ sources.toList.count v := by
  have hs : (rowsFrom sources v n).Sublist (rowsFrom sources v sources.size) :=
    (List.range_sublist.mpr hn).filter _
  rw [← length_rowsFrom_size]
  exact hs.length_le

theorem length_rowsFrom_lt (hi : sources[i]? = some s) :
    (rowsFrom sources s i).length < sources.toList.count s := by
  have ⟨hlt, _⟩ := Array.getElem?_eq_some_iff.mp hi
  have hl := length_rowsFrom_le hlt s
  rw [rowsFrom_succ hi, if_pos rfl, List.length_append] at hl
  exact hl

-- A row stands behind the rows of its node that came before it.
theorem getElem?_rowsFrom_length (hi : sources[i]? = some s) :
    (rowsFrom sources s sources.size)[(rowsFrom sources s i).length]? = some i := by
  have ⟨hlt, _⟩ := Array.getElem?_eq_some_iff.mp hi
  have htake : (List.range sources.size).take (i + 1) = List.range (i + 1) := by
    rw [List.take_range, Nat.min_eq_left hlt]
  have hp : rowsFrom sources s (i + 1) <+: rowsFrom sources s sources.size :=
    (htake ▸ List.take_prefix _ _).filter _
  rw [rowsFrom_succ hi, if_pos rfl] at hp
  have hl := List.prefix_iff_getElem?.mp hp (rowsFrom sources s i).length (by simp)
  simpa using hl

theorem place_unique {p q : Nat} (hp : (rowsFrom sources v n)[p]? = some i)
    (hq : (rowsFrom sources v n)[q]? = some i) : p = q := by
  have ⟨hlt, _⟩ := List.getElem?_eq_some_iff.mp hp
  have hnodup : (rowsFrom sources v n).Nodup := List.nodup_range.filter _
  exact (List.getElem?_inj hlt hnodup).mp (hp.trans hq.symm)

-- The places of two nodes do not overlap.
theorem before_add_ne {p q : Nat} (h : v ≠ w) (hp : p < sources.toList.count v)
    (hq : q < sources.toList.count w) : before sources v + p ≠ before sources w + q := by
  have hv := before_succ sources v
  have hw := before_succ sources w
  cases Nat.lt_or_gt_of_ne h
  case inl h =>
    have : before sources (v + 1) ≤ before sources w := before_monotone sources h
    omega
  case inr h =>
    have : before sources (w + 1) ≤ before sources v := before_monotone sources h
    omega

theorem foldl_counts (ss : List Nat) (counts : Array Nat) :
    let counts' := ss.foldl (fun counts s => counts.modify (s + 1) (· + 1)) counts
    counts'[0]? = counts[0]? ∧ ∀ v, counts'[v + 1]? = counts[v + 1]?.map (· + ss.count v) := by
  have hfold : ss.foldl (fun counts s => counts.modify (s + 1) (· + 1)) counts =
      (ss.map (· + 1)).foldl (fun counts w => counts.modify w (· + 1)) counts := by rw [List.foldl_map]
  rw [hfold]
  constructor
  case left => simp [getElem?_foldl_modify, List.count_eq_zero.mpr]
  case right =>
    intro v
    rw [getElem?_foldl_modify, List.count_map_of_injective _ _ fun _ _ => Nat.succ.inj]

theorem counts_spec (nodeCount : Nat) (sources : Array Nat) :
    (counts nodeCount sources)[0]? = some 0 ∧
      ∀ v < nodeCount, (counts nodeCount sources)[v + 1]? = some (sources.toList.count v) := by
  have ⟨h₀, h⟩ := foldl_counts sources.toList (Array.replicate (nodeCount + 1) 0)
  simp only [Array.foldl_toList] at h₀ h
  exact ⟨h₀.trans (by simp), fun v hv => (h v).trans (by simp [hv])⟩

-- With `m` sums made, the next one still has its count, and the sum in front of it is the last one made.
theorem foldl_sums {counts : Array Nat} (h₀ : counts[0]? = some 0)
    (h : ∀ v < nodeCount, counts[v + 1]? = some (sources.toList.count v)) {m : Nat} (hm : m ≤ nodeCount) :
    let sums := (List.range m).foldl
      (fun sums v => let sum := sums.getD v 0; sums.modify (v + 1) (· + sum)) counts
    (∀ v ≤ m, sums[v]? = some (before sources v)) ∧
      ∀ v, m ≤ v → v < nodeCount → sums[v + 1]? = some (sources.toList.count v) := by
  induction m
  case zero => exact ⟨fun v hv => by simp [Nat.le_zero.mp hv, h₀, before], fun v _ hv => h v hv⟩
  case succ m hi =>
    have ⟨hd, ht⟩ := hi (by omega)
    simp only [List.range_succ, List.foldl_append, List.foldl_cons, List.foldl_nil]
    generalize (List.range m).foldl _ counts = sums at hd ht
    have hsum : sums.getD m 0 = before sources m := by simp [hd m (Nat.le_refl m)]
    refine ⟨fun v hv => ?made, fun v hv hn => ?unmade⟩
    case made =>
      rw [Array.getElem?_modify, hsum]
      by_cases hvm : m + 1 = v
      case pos =>
        subst hvm
        rw [if_pos rfl, ht m (Nat.le_refl m) hm, before_succ]
        simp [Nat.add_comm]
      case neg => rw [if_neg hvm, hd v (by omega)]
    case unmade => rw [Array.getElem?_modify, if_neg (by omega), ht v (by omega) hn]

theorem sums_spec (nodeCount : Nat) (sources : Array Nat) (hv : v ≤ nodeCount) :
    (sums nodeCount (counts nodeCount sources))[v]? = some (before sources v) := by
  have ⟨h₀, h⟩ := counts_spec nodeCount sources
  exact (foldl_sums h₀ h (Nat.le_refl nodeCount)).left v hv

-- After the first `n` rows: the next free place of each node, and its rows so far where they belong.
structure Placed (nodeCount : Nat) (sources : Array Nat) (n : Nat) (state : Array Nat × Array Nat) : Prop where
  free : ∀ v < nodeCount, state.1[v]? = some (before sources v + (rowsFrom sources v n).length)
  size : state.2.size = sources.size
  order : ∀ v < nodeCount, ∀ p i, (rowsFrom sources v n)[p]? = some i →
    state.2[before sources v + p]? = some i

theorem put_placed {state : Array Nat × Array Nat} (hi : sources[i]? = some s) (hs : s < nodeCount)
    (h : Placed nodeCount sources i state) : Placed nodeCount sources (i + 1) (put sources state i) := by
  have ⟨free, order⟩ := state
  have ⟨hi', _⟩ := Array.getElem?_eq_some_iff.mp hi
  have hlt := length_rowsFrom_lt hi
  have hplace : free.getD s 0 = before sources s + (rowsFrom sources s i).length := by
    simp [h.free s hs]
  have hput : put sources (free, order) i =
      (free.setIfInBounds s (before sources s + (rowsFrom sources s i).length + 1),
        order.setIfInBounds (before sources s + (rowsFrom sources s i).length) i) := by
    simp only [put, show sources.getD i 0 = s by simp [hi], hplace]
  rw [hput]
  refine ⟨fun v hv => ?free, by simpa using h.size, fun v hv p j hp => ?order⟩
  case free =>
    have hf := h.free v hv
    rw [rowsFrom_succ hi]
    by_cases hsv : s = v
    case pos =>
      subst hsv
      have ⟨hlt, _⟩ := Array.getElem?_eq_some_iff.mp hf
      simp only [Array.getElem?_setIfInBounds_self_of_lt hlt, if_true, List.length_append]
      rfl
    case neg => simpa [hsv] using hf
  case order =>
    rw [rowsFrom_succ hi] at hp
    by_cases hsv : s = v
    case pos =>
      subst hsv
      rw [if_pos rfl] at hp
      cases Nat.lt_or_ge p (rowsFrom sources s i).length
      case inl hlp =>
        rw [List.getElem?_append_left hlp] at hp
        rw [Array.getElem?_setIfInBounds_ne (by omega)]
        exact h.order s hv p j hp
      case inr hge =>
        have ⟨hle, hj⟩ := List.getElem?_eq_some_iff.mp hp
        have hpl : p = (rowsFrom sources s i).length := by simp at hle; omega
        have hsize := before_le_size sources (s + 1)
        have hsucc := before_succ sources s
        have hjs := h.size
        subst hpl
        rw [Array.getElem?_setIfInBounds_self_of_lt (by simp only at hjs; omega)]
        simpa using hj
    case neg =>
      rw [if_neg hsv, List.append_nil] at hp
      have ⟨hlp, _⟩ := List.getElem?_eq_some_iff.mp hp
      have := length_rowsFrom_le (Nat.le_of_lt hi') v
      rw [Array.getElem?_setIfInBounds_ne (before_add_ne hsv hlt (by omega))]
      exact h.order v hv p j hp

theorem foldl_put_placed {state : Array Nat × Array Nat} (hs : ∀ s ∈ sources, s < nodeCount)
    (h : Placed nodeCount sources 0 state) (hn : n ≤ sources.size) :
    Placed nodeCount sources n ((List.range n).foldl (put sources) state) := by
  induction n
  case zero => exact h
  case succ n hi =>
    have hsome : sources[n]? = some sources[n] := Array.getElem?_eq_getElem hn
    rw [List.range_succ, List.foldl_append, List.foldl_cons, List.foldl_nil]
    exact put_placed hsome (hs _ (Array.getElem_mem hn)) (hi (by omega))

theorem rowsAt_ofSources (hs : ∀ s ∈ sources, s < nodeCount) (hv : v < nodeCount) :
    (ofSources nodeCount sources).rowsAt v = rowsFrom sources v sources.size := by
  have hinit : Placed nodeCount sources 0
      (sums nodeCount (counts nodeCount sources), Array.replicate sources.size 0) :=
    ⟨fun v hv => sums_spec nodeCount sources (by omega), by simp, by simp [rowsFrom]⟩
  have h := foldl_put_placed hs hinit (Nat.le_refl _)
  have hstart := sums_spec nodeCount sources (Nat.le_of_lt hv)
  have hstop := sums_spec nodeCount sources (show v + 1 ≤ nodeCount by omega)
  have hsize := before_le_size sources (v + 1)
  have hsucc := before_succ sources v
  have hlen := length_rowsFrom_size sources v
  simp only [rowsAt, ofSources, Array.getD_eq_getD_getElem?, hstart, hstop, Option.getD_some]
  apply List.ext_getElem
  case hl =>
    have := h.size
    simp only [Array.length_toList, Array.size_extract]
    omega
  case h =>
    intro p h₁ h₂
    have hp := h.order v hv p _ (List.getElem?_eq_getElem h₂)
    have ⟨_, hp⟩ := Array.getElem?_eq_some_iff.mp hp
    simpa using hp

end PropertyGraph.Grouping
