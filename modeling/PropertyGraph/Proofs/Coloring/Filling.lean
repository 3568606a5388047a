import PropertyGraph.Coloring
import PropertyGraph.Proofs.Outcome
import PropertyGraph.Proofs.Relationship.Grouping

namespace PropertyGraph

open Grouping (before rowsFrom)

namespace Coloring

variable {numbers : List Nat} {count n s i : Nat}

-- Numbers are counted as the sources of a grouping are.
theorem before_succ (numbers : List Nat) (s : Nat) :
    before numbers.toArray (s + 1) = before numbers.toArray s + numbers.count s :=
  Grouping.before_succ numbers.toArray s

theorem before_le_length (numbers : List Nat) (s : Nat) : before numbers.toArray s ≤ numbers.length :=
  Grouping.before_le_size numbers.toArray s

theorem before_eq_length (hs : ∀ s ∈ numbers, s < count) : before numbers.toArray count = numbers.length :=
  Grouping.before_eq_size fun s hm => hs s (List.mem_toArray.mp hm)

theorem length_rowsFrom (numbers : List Nat) (s : Nat) :
    (rowsFrom numbers.toArray s numbers.length).length = numbers.count s :=
  Grouping.length_rowsFrom_size numbers.toArray s

theorem tally_eq (count : Nat) (numbers : List Nat) :
    (tally count numbers).toList = (List.range count).map numbers.count := by
  apply List.ext_getElem?
  intro v
  rw [Array.getElem?_toList, tally, getElem?_foldl_modify]
  by_cases hv : v < count <;> simp [hv]

theorem sums_tally (count : Nat) (numbers : List Nat) :
    sums (tally count numbers) = (List.range (count + 1)).map (before numbers.toArray) := by
  have hscan : ∀ n v, ((List.range' v n).map numbers.count).scanl (· + ·) (before numbers.toArray v) =
      (List.range' v (n + 1)).map (before numbers.toArray) := by
    intro n
    induction n
    case zero => exact fun v => rfl
    case succ n hi =>
      intro v
      rw [List.range'_succ, List.map_cons, List.scanl_cons, List.range'_succ, List.map_cons, ← hi, before_succ]
  rw [sums, tally_eq, List.range_eq_range', List.range_eq_range', ← hscan]
  rw [Grouping.before_zero]

-- With the nodes from `n` on in place: the first place of each number that is taken, and the nodes where they belong.
structure Filled (count : Nat) (numbers : List Nat) (n : Nat) (state : Array Nat × Array Nat) : Prop where
  free : ∀ v < count, state.1[v]? = some (before numbers.toArray v + (rowsFrom numbers.toArray v n).length)
  size : state.2.size = numbers.length
  order : ∀ v < count, ∀ p i, (rowsFrom numbers.toArray v numbers.length)[p]? = some i → n ≤ i →
    state.2[before numbers.toArray v + p]? = some i

theorem filled_init (count : Nat) (numbers : List Nat) :
    Filled count numbers numbers.length
      ((sums (tally count numbers)).tail.toArray, Array.replicate numbers.length 0) := by
  refine ⟨fun v hv => ?free, by simp, fun v _ p i hp hn => ?order⟩
  case free =>
    rw [length_rowsFrom, ← before_succ, sums_tally]
    simp [hv]
  case order =>
    have ⟨hi, _⟩ := Grouping.mem_rowsFrom.mp (List.mem_of_getElem? hp)
    omega

theorem place_filled {state : Array Nat × Array Nat} (hi : numbers[i]? = some s) (hs : s < count)
    (h : Filled count numbers (i + 1) state) :
    ∃ state', place state (s, i) = .ok state' ∧ Filled count numbers i state' := by
  have ⟨free, order⟩ := state
  have hrow : numbers.toArray[i]? = some s := by simpa using hi
  have hslot : (rowsFrom numbers.toArray s numbers.length)[(rowsFrom numbers.toArray s i).length]? = some i :=
    Grouping.getElem?_rowsFrom_length hrow
  have hfree : free[s]? = some (before numbers.toArray s + (rowsFrom numbers.toArray s i).length + 1) := by
    simpa [Grouping.rowsFrom_succ hrow, Nat.add_assoc] using h.free s hs
  have hlt : (rowsFrom numbers.toArray s i).length < numbers.count s := Grouping.length_rowsFrom_lt hrow
  have hroom : before numbers.toArray s + (rowsFrom numbers.toArray s i).length < order.size := by
    have hsucc := before_succ numbers s
    have hle := before_le_length numbers (s + 1)
    have hsize : order.size = numbers.length := h.size
    omega
  refine ⟨_, by simp only [place, hfree, if_pos hroom]; rfl, fun v hv => ?free, by simpa using h.size,
    fun v hv p j hp hj => ?order⟩
  case free =>
    by_cases hsv : s = v
    case pos =>
      have ⟨hlt, _⟩ := Array.getElem?_eq_some_iff.mp hfree
      rw [← hsv, Array.getElem?_setIfInBounds_self_of_lt hlt]
    case neg =>
      rw [Array.getElem?_setIfInBounds_ne hsv]
      simpa [Grouping.rowsFrom_succ hrow, hsv] using h.free v hv
  case order =>
    cases Nat.eq_or_lt_of_le hj
    case inl hij =>
      subst hij
      have ⟨_, hjv⟩ := Grouping.mem_rowsFrom.mp (List.mem_of_getElem? hp)
      have hsv : s = v := Option.some.inj (hrow.symm.trans hjv)
      subst hsv
      rw [Grouping.place_unique hp hslot, Array.getElem?_setIfInBounds_self_of_lt hroom]
    case inr hij =>
      rw [Array.getElem?_setIfInBounds_ne ?_]
      exact h.order v hv p j hp hij
      by_cases hsv : s = v
      case pos =>
        subst hsv
        intro he
        have hpl : (rowsFrom numbers.toArray s i).length = p := by omega
        rw [← hpl, hslot] at hp
        exact Nat.ne_of_lt hij (Option.some.inj hp)
      case neg =>
        have ⟨hlp, _⟩ := List.getElem?_eq_some_iff.mp hp
        exact Grouping.before_add_ne hsv hlt (length_rowsFrom numbers v ▸ hlp)

theorem foldlM_place_filled {state : Array Nat × Array Nat} (hs : ∀ s ∈ numbers, s < count)
    (hn : n ≤ numbers.length) (h : Filled count numbers n state) :
    ∃ state', (numbers.zipIdx.take n).reverse.foldlM place state = .ok state' ∧ Filled count numbers 0 state' := by
  induction n generalizing state
  case zero => exact ⟨state, rfl, h⟩
  case succ n hi =>
    have hsome : numbers[n]? = some numbers[n] := List.getElem?_eq_getElem hn
    have ⟨state₁, hstate₁, h₁⟩ := place_filled hsome (hs _ (List.getElem_mem hn)) h
    have htake : numbers.zipIdx.take (n + 1) = numbers.zipIdx.take n ++ [(numbers[n], n)] := by
      rw [List.take_succ_eq_append_getElem (by simpa using Nat.lt_of_succ_le hn)]
      simp
    rw [htake, List.reverse_append, List.reverse_singleton, List.singleton_append, List.foldlM_cons, hstate₁]
    exact hi (by omega) h₁

-- No place is missing, and no number runs out of places.
theorem exists_fill (hs : ∀ s ∈ numbers, s < count) :
    ∃ free order, fill (sums (tally count numbers)) numbers = .ok order ∧ Filled count numbers 0 (free, order) := by
  have ⟨⟨free, order⟩, hfold, h⟩ := foldlM_place_filled hs (Nat.le_refl _) (filled_init count numbers)
  rw [List.take_of_length_le (by simp)] at hfold
  exact ⟨free, order, by simp [fill, hfold], h⟩

end Coloring

end PropertyGraph
