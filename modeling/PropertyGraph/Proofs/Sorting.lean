import Mathlib.Data.List.Basic
import Mathlib.Order.Monotone.Basic

namespace PropertyGraph

variable {α : Type} (key : α → Nat)

theorem mergeSort_ascending (xs : List α) : (xs.mergeSort (key · ≤ key ·)).Pairwise (key · ≤ key ·) := by
  have := @List.pairwise_mergeSort α (fun x y => decide (key x ≤ key y)) (by simp; omega)
    (by simp; omega) xs
  simpa using this

-- Where no two have the same number, there is only one order.
theorem mergeSort_eq_of_perm {xs ys : List α} (hp : xs.Perm ys) (h : ys.Pairwise (key · < key ·)) :
    xs.mergeSort (key · ≤ key ·) = ys := by
  have hinj : ∀ ⦃x⦄, x ∈ ys → ∀ ⦃y⦄, y ∈ ys → key x = key y → x = y :=
    List.Pairwise.forall_of_forall_of_flip (fun _ _ _ => rfl)
      (h.imp fun hlt heq => absurd heq (Nat.ne_of_lt hlt))
      (h.imp fun hlt heq => absurd heq.symm (Nat.ne_of_lt hlt))
  refine List.Perm.eq_of_pairwise ?_ (mergeSort_ascending key xs) (h.imp Nat.le_of_lt)
    ((List.mergeSort_perm _ _).trans hp)
  intro x y hx hy hxy hyx
  exact hinj (hp.subset (List.mem_mergeSort.mp hx)) hy (Nat.le_antisymm hxy hyx)

-- What has the same number keeps its order.
theorem filter_mergeSort (xs : List α) (n : Nat) :
    (xs.mergeSort (key · ≤ key ·)).filter (key · = n) = xs.filter (key · = n) := by
  have hp := (List.mergeSort_perm xs (key · ≤ key ·)).filter (key · = n)
  have hs : (xs.filter (key · = n)).Sublist (xs.mergeSort (key · ≤ key ·)) := by
    refine List.sublist_mergeSort (by simp; omega) (by simp; omega) ?_ List.filter_sublist
    refine List.pairwise_of_forall_mem_list fun x hx y hy => ?_
    simp_all
  have hf := hs.filter (key · = n)
  simp only [List.filter_filter, Bool.and_self] at hf
  exact (hf.eq_of_length hp.length_eq.symm).symm

-- What ascends is sorted so that those of the same number ascend too.
theorem mergeSort_eq_of_lex {key : Nat → Nat} {xs ys : List Nat} (hx : xs.Pairwise (· < ·)) (hp : ys.Perm xs)
    (hy : ys.Pairwise fun v w => key v < key w ∨ key v = key w ∧ v < w) :
    xs.mergeSort (key · ≤ key ·) = ys := by
  have hlex : (xs.mergeSort (key · ≤ key ·)).Pairwise fun v w => key v < key w ∨ key v = key w ∧ v < w := by
    rw [List.pairwise_iff_forall_sublist]
    intro v w hvw
    have hle := List.pairwise_iff_forall_sublist.mp (mergeSort_ascending key xs) hvw
    cases Nat.lt_or_eq_of_le hle
    case inl hlt => exact .inl hlt
    case inr he =>
      have hf := hvw.filter (key · = key w)
      rw [filter_mergeSort] at hf
      have hs : [v, w].Sublist xs := by simpa [he] using hf.trans List.filter_sublist
      exact .inr ⟨he, List.pairwise_iff_forall_sublist.mp hx hs⟩
  refine List.Perm.eq_of_pairwise (fun v w _ _ hvw hwv => ?_) hlex hy ((List.mergeSort_perm _ _).trans hp.symm)
  omega

-- Where no two have the same number, a sorted list is told by its members.
theorem eq_of_ascending {xs ys : List α} (hx : xs.Pairwise (key · < key ·)) (hy : ys.Pairwise (key · < key ·))
    (h : ∀ x, x ∈ xs ↔ x ∈ ys) : xs = ys := by
  have hnodup : ∀ {zs : List α}, zs.Pairwise (key · < key ·) → zs.Nodup := fun hz =>
    hz.imp fun hlt he => absurd (congrArg key he) (Nat.ne_of_lt hlt)
  have hp := (List.perm_ext_iff_of_nodup (hnodup hx) (hnodup hy)).mpr h
  exact hp.eq_of_pairwise (fun _ _ _ _ hxy hyx => absurd hxy (Nat.lt_asymm hyx)) hx hy

variable {key} in
theorem mem_iff_of_filters {xs ys : List α} (h : ∀ n, xs.filter (key · = n) = ys.filter (key · = n)) (x : α) :
    x ∈ xs ↔ x ∈ ys := by
  simpa using congrArg (x ∈ ·) (h (key x))

-- A sorted list is told by what it has of each number: the two lists have the same number in front, for in each of them
-- it is the least, and so the first of that number.
theorem eq_of_filters {xs ys : List α} (hx : xs.Pairwise (key · ≤ key ·)) (hy : ys.Pairwise (key · ≤ key ·))
    (h : ∀ n, xs.filter (key · = n) = ys.filter (key · = n)) : xs = ys := by
  have hleast {x y : α} {zs : List α} (hz : (x :: zs).Pairwise (key · ≤ key ·)) (hm : y ∈ x :: zs) : key x ≤ key y := by
    cases List.mem_cons.mp hm
    case inl he => exact he ▸ Nat.le_refl _
    case inr hm => exact (List.pairwise_cons.mp hz).left y hm
  induction xs generalizing ys
  case nil => exact (List.eq_nil_iff_forall_not_mem.mpr fun y hm => nomatch (mem_iff_of_filters h y).mpr hm).symm
  case cons x xs hi =>
    cases ys
    case nil => exact nomatch (mem_iff_of_filters h x).mp List.mem_cons_self
    case cons y ys =>
      have hxy := hleast hx ((mem_iff_of_filters h y).mpr List.mem_cons_self)
      have hyx := hleast hy ((mem_iff_of_filters h x).mp List.mem_cons_self)
      have hfront := h (key y)
      rw [List.filter_cons_of_pos (by simpa using Nat.le_antisymm hxy hyx), List.filter_cons_of_pos (by simp)] at hfront
      have ⟨he, _⟩ := List.cons.inj hfront
      have htail : ∀ n, xs.filter (key · = n) = ys.filter (key · = n) := fun n => by
        have hn := h n
        rw [he, List.filter_cons, List.filter_cons] at hn
        split at hn
        case isTrue => exact (List.cons.inj hn).right
        case isFalse => exact hn
      rw [he, hi hx.of_cons hy.of_cons htail]

-- To collect by the number is to bring together what has a number below the bound.
theorem flatMap_filter_perm (xs : List α) (n : Nat) :
    ((List.range n).flatMap fun i => xs.filter (key · = i)).Perm (xs.filter (key · < n)) := by
  induction n
  case zero => simp
  case succ n hi =>
    rw [List.range_succ, List.flatMap_append, List.flatMap_singleton]
    have hp := List.filter_append_perm (fun x => decide (key x < n)) (xs.filter (key · < n + 1))
    refine .trans (.append_right _ hi) (.trans (.of_eq ?_) hp)
    simp only [List.filter_filter]
    congr 1
    all_goals
      apply List.filter_congr
      intro x _
      rw [Bool.eq_iff_iff]
      simp only [Bool.and_eq_true, Bool.not_eq_true', decide_eq_true_eq, decide_eq_false_iff_not]
      omega

-- Counting up from what was counted so far.
theorem getElem?_foldl_modify (vs : List Nat) (counts : Array Nat) (v : Nat) :
    (vs.foldl (fun counts w => counts.modify w (· + 1)) counts)[v]? = counts[v]?.map (· + vs.count v) := by
  induction vs generalizing counts
  case nil => simp
  case cons w vs hi =>
    rw [List.foldl_cons, hi, Array.getElem?_modify, List.count_cons]
    by_cases hw : w = v
    case pos => simp [hw, Function.comp_def, Nat.add_comm, Nat.add_left_comm]
    case neg => simp [hw]

-- Ascending numbers are ordered as their places are.
theorem lt_iff_of_ascending {xs : List Nat} (h : xs.Pairwise (· < ·)) {i j a b : Nat}
    (hi : xs[i]? = some a) (hj : xs[j]? = some b) : a < b ↔ i < j := by
  have ⟨hli, hai⟩ := List.getElem?_eq_some_iff.mp hi
  have ⟨hlj, hbj⟩ := List.getElem?_eq_some_iff.mp hj
  have hlt := List.pairwise_iff_getElem.mp h
  constructor
  case mp =>
    intro hab
    by_contra hij
    cases Nat.eq_or_lt_of_le (Nat.not_lt.mp hij)
    case inl he =>
      have hba : b = a := Option.some.inj (hj.symm.trans (he ▸ hi))
      omega
    case inr hji =>
      have := hlt j i hlj hli hji
      omega
  case mpr => exact fun hij => hai ▸ hbj ▸ hlt i j hli hlj hij

theorem idxOf?_of_ascending {xs : List Nat} (h : xs.Pairwise (· < ·)) {i x : Nat} :
    xs.idxOf? x = some i ↔ xs[i]? = some x := by
  rw [List.idxOf?_eq_some_iff, List.getElem?_eq_some_iff]
  refine exists_congr fun hi => and_iff_left_of_imp fun hx j hj he => ?_
  exact Nat.ne_of_lt (List.pairwise_iff_getElem.mp h j i _ hi hj) (he.trans hx.symm)

theorem eraseReps_cons_cons (a b : Nat) (xs : List Nat) :
    (a :: b :: xs).eraseReps = if a = b then (a :: xs).eraseReps else a :: (b :: xs).eraseReps := by
  have hloop : ∀ (xs : List Nat) (a : Nat) (acc : List Nat),
      List.eraseRepsBy.loop (· == ·) a xs acc = acc.reverse ++ List.eraseRepsBy.loop (· == ·) a xs [] := by
    intro xs
    induction xs
    case nil => simp [List.eraseRepsBy.loop]
    case cons b xs hi =>
      intro a acc
      simp only [List.eraseRepsBy.loop]
      split
      case h_1 => exact hi a acc
      case h_2 => rw [hi b (a :: acc), hi b [a]]; simp
  by_cases h : a = b
  case pos => simp [List.eraseReps, List.eraseRepsBy, List.eraseRepsBy.loop, h]
  case neg =>
    rw [if_neg h, List.eraseReps, List.eraseRepsBy, List.eraseRepsBy.loop, beq_eq_false_iff_ne.mpr h]
    exact hloop xs b [a]

theorem mem_eraseReps {x : Nat} {xs : List Nat} : x ∈ xs.eraseReps ↔ x ∈ xs := by
  cases xs
  case nil => rfl
  case cons a xs =>
    induction xs generalizing a
    case nil => rfl
    case cons b xs hi =>
      rw [eraseReps_cons_cons]
      by_cases h : a = b
      case pos => simp [h, hi]
      case neg => simp [h, hi]

-- Without the repetitions, what ascends has each number once.
theorem eraseReps_ascending {xs : List Nat} (h : xs.Pairwise (· ≤ ·)) : xs.eraseReps.Pairwise (· < ·) := by
  cases xs
  case nil => exact .nil
  case cons a xs =>
    induction xs generalizing a
    case nil => exact List.pairwise_singleton ..
    case cons b xs hi =>
      have ⟨ha, htail⟩ := List.pairwise_cons.mp h
      rw [eraseReps_cons_cons]
      by_cases hab : a = b
      case pos =>
        rw [if_pos hab]
        exact hi a (hab ▸ htail)
      case neg =>
        rw [if_neg hab]
        refine List.pairwise_cons.mpr ⟨fun y hy => ?_, hi b htail⟩
        have hb := ha b List.mem_cons_self
        have hy := ha y (mem_eraseReps.mp hy)
        have hby : b ≤ y := by
          cases List.mem_cons.mp (mem_eraseReps.mp ‹y ∈ _›)
          case inl he => exact Nat.le_of_eq he.symm
          case inr hm => exact (List.pairwise_cons.mp htail).left y hm
        omega

theorem filter_lt_append_of_greatest {xs : List Nat} (h : xs.Pairwise (· < ·)) {n : Nat} (hn : n ∈ xs)
    (hle : ∀ x ∈ xs, x ≤ n) : xs.filter (· < n) ++ [n] = xs := by
  induction xs
  case nil => exact nomatch hn
  case cons a xs hi =>
    have ⟨ha, htail⟩ := List.pairwise_cons.mp h
    have ⟨_, hxs⟩ := List.forall_mem_cons.mp hle
    cases List.mem_cons.mp hn
    case inl he =>
      subst he
      have hnil : xs = [] := List.eq_nil_iff_forall_not_mem.mpr fun x hx =>
        Nat.not_lt.mpr (hxs x hx) (ha x hx)
      simp [hnil]
    case inr hm =>
      rw [List.filter_cons_of_pos (by simpa using ha n hm), List.cons_append, hi htail hm hxs]

theorem find?_of_ascending {xs : List Nat} (h : xs.Pairwise (· < ·)) {n x : Nat} (hx : x ∈ xs) (hn : n < x)
    (hmin : ∀ y ∈ xs, n < y → x ≤ y) : xs.find? (n < ·) = some x := by
  induction xs
  case nil => exact nomatch hx
  case cons a xs hi =>
    have ⟨ha, htail⟩ := List.pairwise_cons.mp h
    by_cases han : n < a
    case pos =>
      have hxa := hmin a List.mem_cons_self han
      cases List.mem_cons.mp hx
      case inl he => simp [he ▸ hn, he]
      case inr hm => exact absurd (ha x hm) (Nat.not_lt.mpr hxa)
    case neg =>
      rw [List.find?_cons_of_neg (by simpa using han)]
      cases List.mem_cons.mp hx
      case inl he => exact absurd (he ▸ hn) han
      case inr hm => exact hi htail hm fun y hy => hmin y (List.mem_cons_of_mem _ hy)

-- Bounds that start at zero and never fall cut what is in front of a bound into slices, one behind the other.
section Slices

variable {f : Nat → Nat} {n p v w : Nat}

-- Each place is in a slice.
theorem exists_slice (hz : f 0 = 0) (hp : p < f n) : ∃ v < n, f v ≤ p ∧ p < f (v + 1) := by
  induction n
  case zero => exact absurd (hz ▸ hp) (Nat.not_lt_zero p)
  case succ n hi =>
    cases Nat.lt_or_ge p (f n)
    case inl hlt =>
      have ⟨v, hv, h⟩ := hi hlt
      exact ⟨v, Nat.lt_succ_of_lt hv, h⟩
    case inr hge => exact ⟨n, Nat.lt_succ_self n, hge, hp⟩

-- No place is in two slices.
theorem slice_unique (hm : Monotone f) (hv : f v ≤ p ∧ p < f (v + 1)) (hw : f w ≤ p ∧ p < f (w + 1)) :
    v = w := by
  have hvw : v < w + 1 := hm.reflect_lt (Nat.lt_of_le_of_lt hv.left hw.right)
  have hwv : w < v + 1 := hm.reflect_lt (Nat.lt_of_le_of_lt hw.left hv.right)
  omega

theorem flatMap_slices (hz : f 0 = 0) (hm : Monotone f) (xs : List α) (n : Nat) :
    (List.range n).flatMap (fun v => (xs.drop (f v)).take (f (v + 1) - f v)) = xs.take (f n) := by
  induction n
  case zero => rw [List.range_zero, List.flatMap_nil, hz, List.take_zero]
  case succ n hi =>
    rw [List.range_succ, List.flatMap_append, List.flatMap_singleton, hi, ← List.take_add,
      Nat.add_sub_cancel' (hm (Nat.le_succ n))]

end Slices

end PropertyGraph
