import Mathlib.Algebra.BigOperators.Group.List.Lemmas
import Mathlib.Algebra.Order.Ring.Nat
import PropertyGraph.Proofs.Outcome
import PropertyGraph.Proofs.Sorting
import PropertyGraph.Relationship.ValueRuns

namespace PropertyGraph.ValueRuns

variable {lengths : List Nat} {starts : Array Nat} {values : Array Float} {default : Float} {v : Nat}

theorem ascends_iff {starts : List Nat} : ascends starts = true ↔ starts.Pairwise (· ≤ ·) := by
  rw [← List.isChain_iff_pairwise]
  induction starts
  case nil => simp [ascends]
  case cons s starts hi =>
    cases starts
    case nil => simp [ascends]
    case cons s' starts => rw [ascends, Bool.and_eq_true, decide_eq_true_eq, hi, List.isChain_cons_cons]

-- Starts that begin at the first of `count` values, never fall and end behind the last.
structure Splits (starts : Array Nat) (count : Nat) : Prop where
  nonempty : starts ≠ #[]
  first : starts[0]? = some 0
  ascending : starts.toList.Pairwise (· ≤ ·)
  last : starts.back? = some count

theorem indexes_iff {count : Nat} : indexes starts count = true ↔ Splits starts count := by
  simp only [indexes, Bool.and_eq_true, decide_eq_true_eq, ascends_iff]
  constructor
  case mp =>
    intro ⟨⟨hfirst, hlast⟩, hascends⟩
    exact ⟨fun hempty => by simp [hempty] at hfirst, hfirst, hascends, hlast⟩
  case mpr => exact fun h => ⟨⟨h.first, h.last⟩, h.ascending⟩

instance (starts : Array Nat) (count : Nat) : Decidable (Splits starts count) :=
  decidable_of_iff _ indexes_iff

theorem ofLayout_of_splits (h : Splits starts values.size) :
    ofLayout starts values default = .ok ⟨starts, values, default⟩ :=
  if_pos (indexes_iff.mpr h)

theorem ofLayout_of_not_splits (h : ¬Splits starts values.size) :
    ofLayout starts values default = .error (.valueLayout starts.size values.size) :=
  if_neg (mt indexes_iff.mp h)

theorem exists_ofLayout_iff : (∃ r, ofLayout starts values default = .ok r) ↔ Splits starts values.size := by
  constructor
  case mp =>
    intro ⟨r, hr⟩
    by_contra hs
    rw [ofLayout_of_not_splits hs] at hr
    cases hr
  case mpr => exact fun hs => ⟨_, ofLayout_of_splits hs⟩

-- Where the values of each node start and those of the last one end, given how many every node has.
def startsOf (lengths : List Nat) : List Nat :=
  (List.range (lengths.length + 1)).map fun v => (lengths.take v).sum

theorem startsOf_concat (lengths : List Nat) (n : Nat) :
    startsOf (lengths ++ [n]) = startsOf lengths ++ [lengths.sum + n] := by
  rw [startsOf, List.length_append, List.length_singleton, List.range_succ, List.map_append]
  congr 1
  · refine List.map_congr_left fun v hv => ?_
    rw [List.take_append_of_le_length (by simp at hv; omega)]
  · simp [List.take_of_length_le]

theorem getElem?_startsOf (hv : v ≤ lengths.length) :
    (startsOf lengths)[v]? = some (lengths.take v).sum := by
  simp [startsOf, Nat.lt_succ_of_le hv]

theorem startsOf_ascending (lengths : List Nat) : (startsOf lengths).Pairwise (· ≤ ·) := by
  rw [startsOf, List.pairwise_map]
  refine List.pairwise_lt_range.imp fun {v w} hvw => ?_
  rw [← List.take_append_drop v (lengths.take w), List.sum_append, List.take_take,
    Nat.min_eq_left (Nat.le_of_lt hvw)]
  exact Nat.le_add_right _ _

theorem splits_startsOf (h : starts.toList = startsOf lengths) : Splits starts lengths.sum where
  nonempty hempty := by simp [startsOf, hempty] at h
  first := by
    rw [← Array.getElem?_toList, h, getElem?_startsOf (Nat.zero_le _)]
    simp
  ascending := h ▸ startsOf_ascending lengths
  last := by
    rw [← Array.getLast?_toList, h, startsOf, List.range_succ]
    simp

theorem ofLayout_flatten {lists : List (List Float)} (h : starts.toList = startsOf (lists.map (·.length)))
    (default : Float) :
    ofLayout starts lists.flatten.toArray default = .ok ⟨starts, lists.flatten.toArray, default⟩ := by
  refine ofLayout_of_splits ?_
  rw [List.size_toArray, List.length_flatten]
  exact splits_startsOf h

theorem valuesOf_flatten {lists : List (List Float)} (h : starts.toList = startsOf (lists.map (·.length)))
    (hv : v < lists.length) :
    (⟨starts, lists.flatten.toArray, default⟩ : ValueRuns).valuesOf v = .ok lists[v].toArray := by
  have hstart : starts[v]? = some ((lists.map (·.length)).take v).sum := by
    rw [← Array.getElem?_toList, h, getElem?_startsOf (by simp; omega)]
  have hstop : starts[v + 1]? = some ((lists.map (·.length)).take (v + 1)).sum := by
    rw [← Array.getElem?_toList, h, getElem?_startsOf (by rw [List.length_map]; omega)]
  simp only [valuesOf, hstart, hstop]
  congr 1
  rw [← Array.toList_inj, Array.toList_extract, List.extract_eq_take_drop, ← List.drop_take]
  exact List.drop_take_succ_flatten_eq_getElem lists v hv

-- The values of a node stand between these places. Both of its starts are there and all values between them, so that
-- nothing is cut off when they are read.
structure Spans (r : ValueRuns) (v start stop : Nat) : Prop where
  start_eq : r.starts[v]? = some start
  stop_eq : r.starts[v + 1]? = some stop
  ordered : start ≤ stop
  inside : stop ≤ r.values.size

-- The value at a place is one of a node.
def Holds (r : ValueRuns) (v p : Nat) : Prop :=
  ∃ start stop, r.Spans v start stop ∧ start ≤ p ∧ p < stop

-- The nodes one after the other have these runs of values, and each value is in one of the runs.
structure Divides (r : ValueRuns) (runs : List (Array Float)) : Prop where
  nodeCount_eq : r.nodeCount + 1 = r.starts.size
  reads : (List.range r.nodeCount).mapM r.valuesOf = .ok runs
  spans : ∀ v < r.nodeCount, ∃ start stop, r.Spans v start stop ∧
    r.valuesOf v = .ok (r.values.extract start stop)
  joined : runs.flatMap (·.toList) = r.values.toList
  total : (runs.map (·.size)).sum = r.elementCount
  holder : ∀ p < r.elementCount, ∃! v, v < r.nodeCount ∧ r.Holds v p

-- Where the values of a node start. Behind the last node there are no more of them.
def startAt (r : ValueRuns) (v : Nat) : Nat :=
  r.starts[v]?.getD r.elementCount

def runAt (r : ValueRuns) (v : Nat) : Array Float :=
  r.values.extract (r.startAt v) (r.startAt (v + 1))

-- Values that were laid out by their starts.
def LaidOut (r : ValueRuns) : Prop :=
  ofLayout r.starts r.values r.default = .ok r

section LaidOut

variable {r : ValueRuns} {p : Nat}

theorem laidOut_of_ofLayout (h : ofLayout starts values default = .ok r) :
    r = ⟨starts, values, default⟩ ∧ r.LaidOut := by
  have hs := exists_ofLayout_iff.mp ⟨r, h⟩
  obtain rfl : _ = r := Except.ok.inj ((ofLayout_of_splits hs).symm.trans h)
  exact ⟨rfl, h⟩

namespace LaidOut

variable (h : r.LaidOut)
include h

theorem splits : Splits r.starts r.elementCount :=
  exists_ofLayout_iff.mp ⟨r, h⟩

theorem nodeCount_succ : r.nodeCount + 1 = r.starts.size :=
  Nat.sub_add_cancel (Array.size_pos_iff.mpr h.splits.nonempty)

theorem getElem?_starts (hv : v ≤ r.nodeCount) : r.starts[v]? = some (r.startAt v) := by
  have hv : v < r.starts.size := by
    have := h.nodeCount_succ
    omega
  simp [startAt, hv]

theorem startAt_zero : r.startAt 0 = 0 := by
  rw [startAt, h.splits.first, Option.getD_some]

theorem startAt_of_nodeCount_le (hv : r.nodeCount ≤ v) : r.startAt v = r.elementCount := by
  cases Nat.eq_or_lt_of_le hv
  case inl he =>
    have hlast := h.splits.last
    rw [Array.back?_eq_getElem?] at hlast
    exact he ▸ Option.some.inj ((h.getElem?_starts (Nat.le_refl _)).symm.trans hlast)
  case inr hlt =>
    have hnone : r.starts[v]? = none := Array.getElem?_eq_none (h.nodeCount_succ ▸ hlt)
    rw [startAt, hnone, Option.getD_none]

theorem startAt_monotone : Monotone r.startAt := by
  refine monotone_nat_of_le_succ fun v => ?_
  by_cases hv : v < r.nodeCount
  case pos =>
    have ⟨_, he⟩ := Array.getElem?_eq_some_iff.mp (h.getElem?_starts (Nat.le_of_lt hv))
    have ⟨_, he'⟩ := Array.getElem?_eq_some_iff.mp (h.getElem?_starts hv)
    have hle := List.pairwise_iff_getElem.mp h.splits.ascending v (v + 1) (by simpa) (by simpa) (Nat.lt_succ_self v)
    rwa [Array.getElem_toList, Array.getElem_toList, he, he'] at hle
  case neg =>
    have hv := Nat.not_lt.mp hv
    exact Nat.le_of_eq ((h.startAt_of_nodeCount_le hv).trans
      (h.startAt_of_nodeCount_le (Nat.le_succ_of_le hv)).symm)

theorem startAt_le (v : Nat) : r.startAt v ≤ r.elementCount :=
  (h.startAt_monotone (Nat.le_add_right v r.nodeCount)).trans_eq
    (h.startAt_of_nodeCount_le (Nat.le_add_left ..))

theorem spans_startAt (hv : v < r.nodeCount) : r.Spans v (r.startAt v) (r.startAt (v + 1)) where
  start_eq := h.getElem?_starts (Nat.le_of_lt hv)
  stop_eq := h.getElem?_starts hv
  ordered := h.startAt_monotone (Nat.le_succ v)
  inside := h.startAt_le (v + 1)

theorem valuesOf_eq (hv : v < r.nodeCount) : r.valuesOf v = .ok (r.runAt v) := by
  have hs := h.spans_startAt hv
  simp only [valuesOf, hs.start_eq, hs.stop_eq, runAt]

theorem holds_iff (hv : v < r.nodeCount) : r.Holds v p ↔ r.startAt v ≤ p ∧ p < r.startAt (v + 1) := by
  have hs := h.spans_startAt hv
  constructor
  case mp =>
    intro ⟨start, stop, hs', hp⟩
    obtain rfl : start = r.startAt v := Option.some.inj (hs'.start_eq.symm.trans hs.start_eq)
    obtain rfl : stop = r.startAt (v + 1) := Option.some.inj (hs'.stop_eq.symm.trans hs.stop_eq)
    exact hp
  case mpr => exact fun hp => ⟨_, _, hs, hp⟩

theorem flatMap_runAt : (List.range r.nodeCount).flatMap (fun v => (r.runAt v).toList) = r.values.toList := by
  have hall := flatMap_slices h.startAt_zero h.startAt_monotone r.values.toList r.nodeCount
  have hlength : r.values.toList.length ≤ r.elementCount := Nat.le_refl _
  rw [h.startAt_of_nodeCount_le (Nat.le_refl _), List.take_of_length_le hlength] at hall
  simpa only [runAt, Array.toList_extract, List.extract_eq_take_drop] using hall

theorem sum_size_runAt : ((List.range r.nodeCount).map fun v => (r.runAt v).size).sum = r.elementCount := by
  have hlength := congrArg List.length h.flatMap_runAt
  simpa only [List.length_flatMap, Array.length_toList, elementCount] using hlength

-- The values of all nodes together are those that were laid out.
theorem exists_valuesOf : ∃ xs : Nat → Array Float, (∀ v < r.nodeCount, r.valuesOf v = .ok (xs v)) ∧
    ((List.range r.nodeCount).map fun v => (xs v).size).sum = r.elementCount :=
  ⟨r.runAt, fun _ => h.valuesOf_eq, h.sum_size_runAt⟩

theorem mapM_valuesOf : (List.range r.nodeCount).mapM r.valuesOf = .ok ((List.range r.nodeCount).map r.runAt) := by
  rw [Outcome.mapM_eq_ok, List.forall₂_map_right_iff, List.forall₂_same]
  exact fun v hv => h.valuesOf_eq (List.mem_range.mp hv)

theorem existsUnique_holds (hp : p < r.elementCount) : ∃! v, v < r.nodeCount ∧ r.Holds v p := by
  rw [← h.startAt_of_nodeCount_le (Nat.le_refl _)] at hp
  have ⟨v, hv, hin⟩ := exists_slice h.startAt_zero hp
  refine ⟨v, ⟨hv, (h.holds_iff hv).mpr hin⟩, fun w ⟨hw, hin'⟩ => ?_⟩
  exact slice_unique h.startAt_monotone ((h.holds_iff hw).mp hin') hin

theorem divides : r.Divides ((List.range r.nodeCount).map r.runAt) where
  nodeCount_eq := h.nodeCount_succ
  reads := h.mapM_valuesOf
  spans _ hv := ⟨_, _, h.spans_startAt hv, h.valuesOf_eq hv⟩
  joined := by rw [List.flatMap_map, h.flatMap_runAt]
  total := by rw [List.map_map]; exact h.sum_size_runAt
  holder _ hp := h.existsUnique_holds hp

end LaidOut

end LaidOut

-- Starts are accepted if and only if they begin at the first value, never fall and end behind the last. Then no node is
-- read from a place that is not there, and each value is read for one node, in the order of the values.
theorem ofLayout_divides (starts : Array Nat) (values : Array Float) (default : Float) :
    ((∃ r, ofLayout starts values default = .ok r) ↔ Splits starts values.size) ∧
      (¬Splits starts values.size →
        ofLayout starts values default = .error (.valueLayout starts.size values.size)) ∧
      ∀ r, ofLayout starts values default = .ok r →
        r = ⟨starts, values, default⟩ ∧ ∃ runs, r.Divides runs := by
  refine ⟨exists_ofLayout_iff, ofLayout_of_not_splits, fun r hr => ?_⟩
  have ⟨he, hl⟩ := laidOut_of_ofLayout hr
  exact ⟨he, _, hl.divides⟩

-- The first node, the last one and one between the others have no values. Starts that fall in between are refused,
-- though they begin and end where they should.
theorem ofLayout_divides_of_empty_nodes :
    (let r : ValueRuns := ⟨#[0, 0, 2, 2, 3, 3], #[1.5, 2.5, 3.5], 0.5⟩
    ofLayout #[0, 0, 2, 2, 3, 3] #[1.5, 2.5, 3.5] 0.5 = .ok r ∧
      r.Divides [#[], #[1.5, 2.5], #[], #[3.5], #[]]) ∧
    ¬Splits #[0, 3, 1, 3] 3 ∧ ofLayout #[0, 3, 1, 3] #[1.5, 2.5, 3.5] 0.5 = .error (.valueLayout 4 3) := by
  have ⟨_, _, haccepted⟩ := ofLayout_divides #[0, 0, 2, 2, 3, 3] #[1.5, 2.5, 3.5] 0.5
  have ⟨_, hrefused, _⟩ := ofLayout_divides #[0, 3, 1, 3] #[1.5, 2.5, 3.5] 0.5
  have hfalls : ¬Splits #[0, 3, 1, 3] 3 := by decide
  have ⟨_, runs, hd⟩ := haccepted _ rfl
  obtain rfl : runs = _ := Except.ok.inj (hd.reads.symm.trans rfl)
  exact ⟨⟨rfl, hd⟩, hfalls, hrefused hfalls⟩

end PropertyGraph.ValueRuns
