import Mathlib.Data.List.Basic
import Mathlib.Data.List.Pairwise
import PropertyGraph.Proofs.Sorting
import PropertyGraph.Relationship.Segment

namespace PropertyGraph

-- The value made of those of a group, the first of which starts it. An empty group has none.
def Aggregation.fold (a : Aggregation) : List Float → Option Float
  | [] => Option.none
  | x :: xs => some (xs.foldl a.combine (a.seed x))

namespace Relationships

def Row.valueAt (k : Nat) (r : Row) : Float := r.values.getD k 0

def Entry.valueAt (k : Nat) (e : Entry) : Float := e.values.getD k 0

-- The rows by target, those of one target in the order they had.
structure StableSort (sorted rows : List Row) : Prop where
  perm : sorted.Perm rows
  ascending : sorted.Pairwise (·.target ≤ ·.target)
  stable : ∀ t, sorted.filter (·.target = t) = rows.filter (·.target = t)

-- Targets, and the values of each of `width` columns in the same order, made of the rows of a node.
def Condensed (a : Aggregation) (width : Nat) (rows : List Row) (targets : List Nat)
    (values : Nat → List Float) : Prop :=
  if a.merges then
    targets.Pairwise (· < ·) ∧
    (∀ t, t ∈ targets ↔ ∃ r ∈ rows, r.target = t) ∧
    ∀ k < width, (values k).map some =
      targets.map fun t => a.fold ((rows.filter (·.target = t)).map (Row.valueAt k))
  else
    ∃ sorted, StableSort sorted rows ∧ targets = sorted.map (·.target) ∧
      ∀ k < width, values k = sorted.map (Row.valueAt k)

-- Entries made of the rows of a node, each with a value for every column.
structure Condenses (a : Aggregation) (width : Nat) (rows : List Row) (entries : List Entry) : Prop where
  filled : ∀ e ∈ entries, e.values.length = width
  condensed : Condensed a width rows (entries.map (·.target)) fun k => entries.map (Entry.valueAt k)

variable {a : Aggregation} {width k t : Nat} {r : Row} {rows : List Row}

theorem StableSort.mergeSort (rows : List Row) :
    StableSort (rows.mergeSort (·.target ≤ ·.target)) rows where
  perm := List.mergeSort_perm _ _
  ascending := mergeSort_ascending _ _
  stable := filter_mergeSort _ _

-- In front of the first row of another target stand all rows of the least target.
theorem takeWhile_eq_filter (h : rows.Pairwise (·.target ≤ ·.target)) (ht : ∀ s ∈ rows, t ≤ s.target) :
    rows.takeWhile (·.target = t) = rows.filter (·.target = t) ∧
      rows.dropWhile (·.target = t) = rows.filter (·.target ≠ t) := by
  induction rows
  case nil => simp
  case cons s rows hi =>
    have ⟨hle, hp⟩ := List.pairwise_cons.mp h
    have hs := ht s List.mem_cons_self
    by_cases hst : s.target = t
    case pos =>
      have ⟨h₁, h₂⟩ := hi hp fun s' hm => ht s' (List.mem_cons_of_mem _ hm)
      simp only [List.takeWhile_cons, List.dropWhile_cons, List.filter_cons, hst, decide_true,
        ne_eq, not_true_eq_false, decide_false, if_true, h₁, h₂]
      simp
    case neg =>
      have hne : ∀ s' ∈ rows, s'.target ≠ t := fun s' hm => by
        have := hle s' hm
        omega
      have hf : rows.filter (·.target = t) = [] := by simpa using hne
      have hf' : rows.filter (fun s' => !decide (s'.target = t)) = rows := by simpa using hne
      simp [hst, hf, hf']

theorem merges_eq_false (h : a.merges = false) : a = .none := by
  cases a <;> simp [Aggregation.merges] at h ⊢

theorem ofSorted_of_not_merges (h : a.merges = false) :
    Entry.ofSorted a rows = rows.map fun r => ⟨r.target, r.values⟩ := by
  have ha := merges_eq_false h
  subst ha
  fun_induction Entry.ofSorted .none rows
  case case1 => rfl
  case case2 hm _ => exact absurd hm (by decide)
  case case3 r rows _ hi =>
    have hseed : Aggregation.seed .none = id := rfl
    rw [hi, List.map_cons, Entry.ofGroup, hseed, List.map_id, List.foldl_nil]

theorem mem_targets_ofSorted (h : a.merges = true) (hp : rows.Pairwise (·.target ≤ ·.target)) :
    t ∈ (Entry.ofSorted a rows).map (·.target) ↔ ∃ r ∈ rows, r.target = t := by
  fun_induction Entry.ofSorted a rows
  case case1 => simp
  case case2 r rows _ hi =>
    have ⟨hle, hp'⟩ := List.pairwise_cons.mp hp
    rw [(takeWhile_eq_filter hp' hle).right] at hi ⊢
    rw [List.map_cons, List.mem_cons, hi (hp'.filter _)]
    simp only [Entry.ofGroup, List.mem_filter, List.mem_cons, exists_eq_or_imp]
    by_cases htr : r.target = t
    case pos => simp [htr]
    case neg => grind
  case case3 hm _ => exact absurd h hm

-- What is left behind a group has greater targets only.
theorem targets_ofSorted_ascending (h : a.merges = true)
    (hp : rows.Pairwise (·.target ≤ ·.target)) :
    ((Entry.ofSorted a rows).map (·.target)).Pairwise (· < ·) := by
  fun_induction Entry.ofSorted a rows
  case case1 => exact .nil
  case case2 r rows _ hi =>
    have ⟨hle, hp'⟩ := List.pairwise_cons.mp hp
    have hp'' := hp'.filter (·.target ≠ r.target)
    rw [(takeWhile_eq_filter hp' hle).right] at hi ⊢
    refine List.pairwise_cons.mpr ⟨fun t ht => ?_, hi hp''⟩
    have ⟨s, hs, hst⟩ := (mem_targets_ofSorted h hp'').mp ht
    have ⟨hm, hne⟩ := List.mem_filter.mp hs
    have := hle s hm
    simp only [Entry.ofGroup, decide_eq_true_eq] at hne ⊢
    omega
  case case3 hm _ => exact absurd h hm

-- Every entry is made of all rows of its target, in their order.
theorem exists_group (h : a.merges = true) (hp : rows.Pairwise (·.target ≤ ·.target)) {e : Entry}
    (he : e ∈ Entry.ofSorted a rows) :
    ∃ r others, rows.filter (·.target = e.target) = r :: others ∧ e = Entry.ofGroup a r others := by
  fun_induction Entry.ofSorted a rows
  case case1 => simp at he
  case case2 r rows _ hi =>
    have ⟨hle, hp'⟩ := List.pairwise_cons.mp hp
    have hp'' := hp'.filter (·.target ≠ r.target)
    have ⟨ht, hd⟩ := takeWhile_eq_filter hp' hle
    rw [ht, List.mem_cons] at he
    rw [hd] at hi he
    cases he
    case inl he => exact ⟨r, rows.filter (·.target = r.target), by simp [he, Entry.ofGroup], he⟩
    case inr he =>
      have ⟨r', others, hg, heq⟩ := hi hp'' he
      have ⟨s, hs, hst⟩ := (mem_targets_ofSorted h hp'').mp (List.mem_map_of_mem he)
      have hne : r.target ≠ e.target := by
        have := (List.mem_filter.mp hs).right
        simp only [ne_eq, decide_eq_true_eq] at this
        omega
      refine ⟨r', others, ?_, heq⟩
      rw [List.filter_cons, if_neg (by simpa using hne), ← hg, List.filter_filter]
      apply List.filter_congr
      intro s _
      rw [Bool.eq_iff_iff]
      simp
      omega
  case case3 hm _ => exact absurd h hm

theorem length_ofSorted_le : (Entry.ofSorted a rows).length ≤ rows.length := by
  fun_induction Entry.ofSorted a rows
  case case1 => exact Nat.le_refl _
  case case2 r rows _ hi =>
    have := (List.dropWhile_sublist (·.target = r.target) (l := rows)).length_le
    rw [List.length_cons, List.length_cons]
    omega
  case case3 r rows _ hi => exact Nat.succ_le_succ hi

-- Rows have a value in every column, and so have what they are folded to.
theorem foldl_columns {acc : List Float} (ha : acc.length = width)
    (h : ∀ s ∈ rows, s.values.length = width) :
    let folded := rows.foldl (fun acc r => List.zipWith a.combine acc r.values) acc
    folded.length = width ∧
      ∀ k < width, folded.getD k 0 = (rows.map (Row.valueAt k)).foldl a.combine (acc.getD k 0) := by
  induction rows generalizing acc
  case nil => exact ⟨ha, fun _ _ => rfl⟩
  case cons s rows hi =>
    have hs := h s List.mem_cons_self
    have hz : (List.zipWith a.combine acc s.values).length = width := by simp [ha, hs]
    have ⟨hl, hv⟩ := hi hz fun s' hm => h s' (List.mem_cons_of_mem _ hm)
    refine ⟨hl, fun k hk => ?_⟩
    rw [List.foldl_cons, hv k hk, List.map_cons, List.foldl_cons]
    congr 1
    simp [Row.valueAt, ha, hs, hk]

theorem ofGroup_columns {others : List Row} (h : ∀ s ∈ r :: others, s.values.length = width) :
    (Entry.ofGroup a r others).values.length = width ∧
      ∀ k < width, some ((Entry.ofGroup a r others).valueAt k) =
        a.fold ((r :: others).map (Row.valueAt k)) := by
  have hr := h r List.mem_cons_self
  have ⟨hl, hv⟩ := @foldl_columns a width others (r.values.map a.seed) (by simpa using hr)
    fun s hm => h s (List.mem_cons_of_mem _ hm)
  refine ⟨hl, fun k hk => ?_⟩
  rw [Entry.valueAt, Entry.ofGroup, hv k hk, List.map_cons, Aggregation.fold]
  simp [Row.valueAt, hr, hk]

theorem finish_of_not_merges (h : a.merges = false) :
    finish a rows = (rows.mergeSort (·.target ≤ ·.target)).map fun r => ⟨r.target, r.values⟩ :=
  ofSorted_of_not_merges h

theorem exists_group_of_mem_finish (h : a.merges = true) {e : Entry} (he : e ∈ finish a rows) :
    ∃ r others, rows.filter (·.target = e.target) = r :: others ∧ e = Entry.ofGroup a r others := by
  have hs := StableSort.mergeSort rows
  rw [← hs.stable e.target]
  exact exists_group h hs.ascending he

theorem length_values_of_mem_finish (h : ∀ r ∈ rows, r.values.length = width) {e : Entry}
    (he : e ∈ finish a rows) : e.values.length = width := by
  cases ha : a.merges
  case true =>
    have ⟨r, others, hg, heq⟩ := exists_group_of_mem_finish ha he
    rw [heq]
    exact (ofGroup_columns fun s hs => h s (List.mem_of_mem_filter (hg ▸ hs))).left
  case false =>
    rw [finish_of_not_merges ha] at he
    have ⟨r, hr, heq⟩ := List.mem_map.mp he
    rw [← heq]
    exact h r (List.mem_mergeSort.mp hr)

-- What one column of a segment receives.
theorem filterMap_values {entries : List Entry} (h : ∀ e ∈ entries, e.values.length = width)
    (hk : k < width) : entries.filterMap (·.values[k]?) = entries.map (Entry.valueAt k) := by
  rw [← List.filterMap_eq_map]
  refine List.filterMap_congr fun e he => ?_
  simp [Entry.valueAt, h e he, hk]

theorem mem_targets_finish : t ∈ (finish a rows).map (·.target) ↔ ∃ r ∈ rows, r.target = t := by
  cases ha : a.merges
  case true =>
    have hs := StableSort.mergeSort rows
    rw [finish, mem_targets_ofSorted ha hs.ascending]
    simp [List.mem_mergeSort]
  case false => simp [finish_of_not_merges ha, List.mem_mergeSort]

theorem targets_finish_ascending : ((finish a rows).map (·.target)).Pairwise (· ≤ ·) := by
  have hs := StableSort.mergeSort rows
  cases ha : a.merges
  case true => exact (targets_ofSorted_ascending ha hs.ascending).imp Nat.le_of_lt
  case false => simpa [finish_of_not_merges ha, List.pairwise_map] using hs.ascending

theorem length_finish_le : (finish a rows).length ≤ rows.length := by
  have := @length_ofSorted_le a (rows.mergeSort (·.target ≤ ·.target))
  rwa [List.length_mergeSort] at this

theorem finish_condensed (h : ∀ r ∈ rows, r.values.length = width) :
    Condensed a width rows ((finish a rows).map (·.target))
      fun k => (finish a rows).map (Entry.valueAt k) := by
  have hs := StableSort.mergeSort rows
  unfold Condensed
  cases ha : a.merges
  case true =>
    refine ⟨targets_ofSorted_ascending ha hs.ascending, fun t => mem_targets_finish, fun k hk => ?_⟩
    rw [List.map_map, List.map_map]
    refine List.map_congr_left fun e he => ?_
    have ⟨r, others, hg, heq⟩ := exists_group_of_mem_finish ha he
    have hw : ∀ s ∈ r :: others, s.values.length = width :=
      fun s hs => h s (List.mem_of_mem_filter (hg ▸ hs))
    simp only [Function.comp_apply, hg]
    rw [← (ofGroup_columns hw).right k hk, ← heq]
  case false =>
    refine ⟨_, hs, ?targets, fun k _ => ?values⟩
    case targets => simp [finish_of_not_merges ha]
    case values =>
      simp only [finish_of_not_merges ha, List.map_map]
      rfl

theorem finish_condenses (h : ∀ r ∈ rows, r.values.length = width) : Condenses a width rows (finish a rows) where
  filled _ := length_values_of_mem_finish h
  condensed := finish_condensed h

-- There is only one way to condense rows.
theorem Condensed.unique {targets targets' : List Nat} {values values' : Nat → List Float}
    (h : Condensed a width rows targets values) (h' : Condensed a width rows targets' values') :
    targets = targets' ∧ ∀ k < width, values k = values' k := by
  unfold Condensed at h h'
  split at h
  case isTrue ha =>
    rw [if_pos ha] at h'
    have ⟨hasc, hmem, hvalues⟩ := h
    have ⟨hasc', hmem', hvalues'⟩ := h'
    have ht : targets = targets' := eq_of_ascending id hasc hasc' fun t => (hmem t).trans (hmem' t).symm
    subst ht
    exact ⟨rfl, fun k hk => List.map_injective_iff.mpr (fun _ _ => Option.some.inj)
      ((hvalues k hk).trans (hvalues' k hk).symm)⟩
  case isFalse ha =>
    rw [if_neg ha] at h'
    have ⟨sorted, hs, ht, hvalues⟩ := h
    have ⟨sorted', hs', ht', hvalues'⟩ := h'
    have he : sorted = sorted' :=
      eq_of_filters _ hs.ascending hs'.ascending fun t => (hs.stable t).trans (hs'.stable t).symm
    subst he
    exact ⟨ht.trans ht'.symm, fun k hk => (hvalues k hk).trans (hvalues' k hk).symm⟩

theorem Entry.eq_of_valueAt {e e' : Entry} (ht : e.target = e'.target) (he : e.values.length = width)
    (he' : e'.values.length = width) (h : ∀ k < width, e.valueAt k = e'.valueAt k) : e = e' := by
  have hvalues : e.values = e'.values := by
    refine List.ext_getElem (he.trans he'.symm) fun k hk hk' => ?_
    simpa [Entry.valueAt, hk, hk'] using h k (he ▸ hk)
  cases e
  cases e'
  exact congrArg₂ _ ht hvalues

theorem Condenses.unique {entries entries' : List Entry} (h : Condenses a width rows entries)
    (h' : Condenses a width rows entries') : entries = entries' := by
  have ⟨ht, hvalues⟩ := h.condensed.unique h'.condensed
  have hlength : entries.length = entries'.length := by simpa using congrArg List.length ht
  refine List.ext_getElem hlength fun i hi hi' => ?_
  have htarget : entries[i].target = entries'[i].target := by
    simpa [hi, hi'] using congrArg (·[i]?) ht
  refine Entry.eq_of_valueAt htarget (h.filled _ (List.getElem_mem hi)) (h'.filled _ (List.getElem_mem hi'))
    fun k hk => ?_
  simpa [hi, hi'] using congrArg (·[i]?) (hvalues k hk)

theorem condenses_iff (h : ∀ r ∈ rows, r.values.length = width) {entries : List Entry} :
    Condenses a width rows entries ↔ entries = finish a rows :=
  ⟨fun hc => hc.unique (finish_condenses h), fun he => he ▸ finish_condenses h⟩

end Relationships

end PropertyGraph
