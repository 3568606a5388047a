import Mathlib.Data.List.Iterate
import PropertyGraph.Proofs.Coloring.Filling

namespace PropertyGraph.Coloring

open Grouping (before rowsFrom)

variable {c : Coloring} {count : Nat} {numbers : List Nat} {n p s v b : Nat}

theorem sums_ascending (count : Nat) (numbers : List Nat) :
    (sums (tally count numbers)).eraseReps.Pairwise (· < ·) := by
  rw [sums_tally]
  apply eraseReps_ascending
  exact List.pairwise_map.mpr (List.pairwise_le_range.imp fun h => Grouping.before_monotone _ h)

theorem mem_sums : b ∈ (sums (tally count numbers)).eraseReps ↔ ∃ s ≤ count, before numbers.toArray s = b := by
  simp only [sums_tally, mem_eraseReps, List.mem_map, List.mem_range, Nat.lt_succ_iff]

theorem sums_eq_append (hs : ∀ s ∈ numbers, s < count) :
    (sums (tally count numbers)).eraseReps.filter (· < numbers.length) ++ [numbers.length] =
      (sums (tally count numbers)).eraseReps := by
  have hall := before_eq_length hs
  have hmem : numbers.length ∈ (sums (tally count numbers)).eraseReps :=
    mem_sums.mpr ⟨count, Nat.le_refl _, hall⟩
  refine filter_lt_append_of_greatest (sums_ascending _ _) hmem fun b hb => ?_
  have ⟨s, hle, he⟩ := mem_sums.mp hb
  rw [← he, ← hall]
  exact Grouping.before_monotone _ hle

-- The last sum is the node count already.
theorem boundsOf_sums (hs : ∀ s ∈ numbers, s < count) :
    boundsOf numbers.length (sums (tally count numbers)) = (sums (tally count numbers)).eraseReps := by
  rw [boundsOf, ← sums_eq_append hs, List.getLast?_concat]
  exact if_pos rfl

-- The bounds of a coloring ascend strictly, so that each leads to the one behind it.
theorem iterate_nextStart (h : c.bounds.Pairwise (· < ·)) {pre rest : List Nat} (hb : pre ++ b :: rest = c.bounds) :
    List.iterate c.nextStart b (rest.length + 1) = b :: rest := by
  induction rest generalizing pre b
  case nil => rfl
  case cons b' rest hi =>
    have hpair := List.pairwise_append.mp (hb ▸ h)
    have hlt : b < b' := List.rel_of_pairwise_cons hpair.right.left List.mem_cons_self
    have hnext : c.nextStart b = b' := by
      rw [nextStart, ← hb, List.find?_append, List.find?_eq_none.mpr, List.find?_cons_of_neg (by simp),
        List.find?_cons_of_pos (by simpa using hlt)]
      case _ => rfl
      case _ =>
        intro x hx
        simpa using Nat.le_of_lt (hpair.right.right x hx b List.mem_cons_self)
    rw [List.length_cons, List.iterate, hnext, hi (show (pre ++ [b]) ++ b' :: rest = c.bounds by simpa using hb)]

-- The nodes are in place by number, and a bound stands in front of and behind each number that has nodes.
structure Arranged (c : Coloring) (count : Nat) (numbers : List Nat) : Prop where
  lt : ∀ s ∈ numbers, s < count
  order : ∃ free, Filled count numbers 0 (free, c.order)
  bounds : c.bounds = (sums (tally count numbers)).eraseReps

namespace Arranged

variable (h : c.Arranged count numbers)
include h

theorem size : c.order.size = numbers.length :=
  have ⟨_, hf⟩ := h.order
  hf.size

theorem exists_number (hv : c.order[p]? = some v) : ∃ s q, numbers[v]? = some s ∧
    before numbers.toArray s + q = p ∧ (rowsFrom numbers.toArray s numbers.length)[q]? = some v := by
  have ⟨free, hf⟩ := h.order
  have ⟨hp, _⟩ := Array.getElem?_eq_some_iff.mp hv
  rw [h.size, ← before_eq_length h.lt] at hp
  have ⟨s, hs, hle, hlt⟩ := exists_slice (Grouping.before_zero _) hp
  rw [before_succ, ← length_rowsFrom] at hlt
  have hq := @List.getElem?_eq_getElem _ (rowsFrom numbers.toArray s numbers.length)
    (p - before numbers.toArray s) (by omega)
  have hat := hf.order s hs _ _ hq (Nat.zero_le _)
  rw [Nat.add_sub_cancel' hle] at hat
  have hr := hq.trans (hat.symm.trans hv)
  have ⟨_, hs⟩ := Grouping.mem_rowsFrom.mp (List.mem_of_getElem? hr)
  exact ⟨s, _, by simpa using hs, Nat.add_sub_cancel' hle, hr⟩

theorem slice (hv : c.order[p]? = some v) (hs : numbers[v]? = some s) :
    before numbers.toArray s ≤ p ∧ p < before numbers.toArray (s + 1) := by
  have ⟨t, q, ht, hp, hq⟩ := h.exists_number hv
  have ⟨hlt, _⟩ := List.getElem?_eq_some_iff.mp hq
  rw [Option.some.inj (hs.symm.trans ht), before_succ, ← length_rowsFrom]
  omega

theorem lex : c.order.toList.Pairwise fun v w =>
    ∃ s t, numbers[v]? = some s ∧ numbers[w]? = some t ∧ (s < t ∨ s = t ∧ v < w) := by
  rw [List.pairwise_iff_getElem]
  intro i j hi hj hij
  have hv := Array.getElem?_eq_getElem hi
  have hw := Array.getElem?_eq_getElem hj
  have ⟨s, p, hs, hp, hr⟩ := h.exists_number hv
  have ⟨t, q, ht, hq, hr'⟩ := h.exists_number hw
  refine ⟨s, t, hs, ht, ?_⟩
  have hst : s < t + 1 := by
    have ⟨hle, _⟩ := h.slice hv hs
    have ⟨_, hlt⟩ := h.slice hw ht
    exact Grouping.lt_of_before_lt (Nat.lt_of_le_of_lt hle (Nat.lt_trans hij hlt))
  cases Nat.lt_succ_iff_lt_or_eq.mp hst
  case inl hst => exact .inl hst
  case inr he =>
    subst he
    have ⟨hlp, hr⟩ := List.getElem?_eq_some_iff.mp hr
    have ⟨hlq, hr'⟩ := List.getElem?_eq_some_iff.mp hr'
    have := List.pairwise_iff_getElem.mp (Grouping.pairwise_rowsFrom numbers.toArray s numbers.length)
      p q hlp hlq (by omega)
    exact .inr ⟨rfl, hr ▸ hr' ▸ this⟩

theorem perm : c.order.toList.Perm (List.range numbers.length) := by
  have hnodup : c.order.toList.Nodup := h.lex.imp fun {v w} ⟨s, t, hs, ht, hlt⟩ he => by
    have hst : s = t := Option.some.inj (hs.symm.trans (he ▸ ht))
    omega
  have hin : c.order.toList ⊆ List.range numbers.length := by
    intro v hv
    have ⟨p, hp⟩ := List.mem_iff_getElem?.mp hv
    have ⟨_, _, hs, _⟩ := h.exists_number (Array.getElem?_toList ▸ hp)
    have ⟨hlt, _⟩ := List.getElem?_eq_some_iff.mp hs
    exact List.mem_range.mpr hlt
  exact (List.subperm_of_subset hnodup hin).perm_of_length_le (by simp [h.size])

theorem bounds_ascending : c.bounds.Pairwise (· < ·) :=
  h.bounds ▸ sums_ascending count numbers

theorem mem_bounds : b ∈ c.bounds ↔ ∃ s ≤ count, before numbers.toArray s = b :=
  h.bounds ▸ mem_sums

-- From inside of a slice the next one is at its end.
theorem nextStart_eq (hs : s < count) (hle : before numbers.toArray s ≤ p)
    (hlt : p < before numbers.toArray (s + 1)) : c.nextStart p = before numbers.toArray (s + 1) := by
  rw [nextStart, find?_of_ascending h.bounds_ascending (h.mem_bounds.mpr ⟨s + 1, hs, rfl⟩) hlt ?_]
  case _ => rfl
  case _ =>
    intro b hb hpb
    have ⟨t, _, he⟩ := h.mem_bounds.mp hb
    subst he
    exact Grouping.before_monotone _ (Grouping.lt_of_before_lt (Nat.lt_of_le_of_lt hle hpb))

-- The bounds are where the slices that are not empty start, and the end.
theorem bounds_eq : c.bounds = c.bounds.filter (· < numbers.length) ++ [numbers.length] := by
  rw [h.bounds]
  exact (sums_eq_append h.lt).symm

theorem colorCount_eq : c.colorCount = (c.bounds.filter (· < numbers.length)).length := by
  rw [colorCount, h.bounds_eq, List.length_append, List.length_singleton, Nat.add_sub_cancel, ← h.bounds_eq]

theorem iterate_colorCount :
    List.iterate c.nextStart 0 c.colorCount = c.bounds.filter (· < numbers.length) ∧
      c.nextStart^[c.colorCount] 0 = numbers.length := by
  have hzero : 0 ∈ c.bounds := h.mem_bounds.mpr ⟨0, Nat.zero_le _, Grouping.before_zero _⟩
  have hall : List.iterate c.nextStart 0 (c.colorCount + 1) = c.bounds := by
    have hasc := h.bounds_ascending
    rw [colorCount]
    cases hb : c.bounds
    case nil => exact absurd (hb ▸ hzero) List.not_mem_nil
    case cons b rest =>
      rw [hb] at hzero hasc
      have hfirst : b = 0 := by
        cases List.mem_cons.mp hzero
        case inl he => exact he.symm
        case inr hm => exact absurd (List.rel_of_pairwise_cons hasc hm) (Nat.not_lt_zero b)
      have hit := iterate_nextStart h.bounds_ascending (show [] ++ b :: rest = c.bounds from hb.symm)
      rwa [hfirst] at hit ⊢
  rw [List.iterate_add, h.bounds_eq] at hall
  obtain ⟨hstarts, hlast⟩ := List.append_inj' hall rfl
  exact ⟨hstarts, List.singleton_inj.mp hlast⟩

end Arranged

end PropertyGraph.Coloring
