import Mathlib.Data.List.Basic
import PropertyGraph.Proofs.Chunk.Dispenser

namespace PropertyGraph.Dispenser

-- Chunks of the ids below `upper`, each behind those in front of it, then nothing.
structure HandsOut (upper : Nat) (answers : List (Option Chunk)) : Prop where
  ascending : (answers.filterMap id).Pairwise (·.stop ≤ ·.start)
  nonempty : ∀ c, some c ∈ answers → c.start < c.stop
  -- The chunks have the first ids, each once, and all of them if a claim was answered with nothing.
  covers : ∃ k ≤ upper, (answers.filterMap id).flatMap Chunk.ids = List.range k ∧ (none ∈ answers → k = upper)
  exhausted : answers.Pairwise fun x y => x = none → y = none

-- The answer to the claim behind `t` others, if the counter did not wrap around.
def answer (upper size t : Nat) : Option Chunk :=
  if t < chunkCount upper size then some (.nth upper size t) else none

variable {upper size t n : Nat}

theorem answer_eq_none : answer upper size t = none ↔ chunkCount upper size ≤ t := by
  simp [answer]

theorem filterMap_answer (n : Nat) :
    ((List.range n).map (answer upper size)).filterMap id =
      (List.range (min n (chunkCount upper size))).map (.nth upper size) := by
  rw [List.filterMap_map]
  induction n
  case zero => simp
  case succ n hi =>
    rw [List.range_succ, List.filterMap_append, hi]
    by_cases h : n < chunkCount upper size
    case pos =>
      rw [Nat.min_eq_left (Nat.le_of_lt h), Nat.min_eq_left h, List.range_succ, List.map_append]
      simp [answer, h]
    case neg =>
      rw [Nat.min_eq_right (Nat.not_lt.mp h), Nat.min_eq_right (by omega)]
      simp [answer, h]

theorem stop_nth_le_start {s t : Nat} (h : s < t) :
    (Chunk.nth upper size s).stop ≤ (Chunk.nth upper size t).start := by
  have : (s + 1) * max size 1 ≤ t * max size 1 := Nat.mul_le_mul_right _ h
  exact Nat.le_trans (Nat.min_le_left ..) this

theorem start_nth_lt_stop (h : t < chunkCount upper size) :
    (Chunk.nth upper size t).start < (Chunk.nth upper size t).stop := by
  have : t * max size 1 < (t + 1) * max size 1 := Nat.mul_lt_mul_of_pos_right (by omega) (by omega)
  exact Nat.lt_min.mpr ⟨this, lt_chunkCount_iff.mp h⟩

theorem answers_handOut (upper size n : Nat) :
    HandsOut upper ((List.range n).map (answer upper size)) where
  ascending := by
    rw [filterMap_answer, List.pairwise_map]
    exact List.pairwise_lt_range.imp stop_nth_le_start
  nonempty c hc := by
    have ⟨t, _, ht⟩ := List.mem_map.mp hc
    have h : t < chunkCount upper size := by
      by_contra h
      simp [answer, h] at ht
    rw [answer, if_pos h] at ht
    exact Option.some.inj ht ▸ start_nth_lt_stop h
  covers := by
    exists min (min n (chunkCount upper size) * max size 1) upper
    refine ⟨Nat.min_le_right .., ?ids, ?all⟩
    case ids => rw [filterMap_answer, List.flatMap_map, Chunk.flatMap_ids_range]
    case all =>
      intro hn
      have ⟨t, ht, hnone⟩ := List.mem_map.mp hn
      have ht : t < n := List.mem_range.mp ht
      have hc : chunkCount upper size ≤ t := answer_eq_none.mp hnone
      rw [Nat.min_eq_right (show chunkCount upper size ≤ n by omega)]
      exact Nat.min_eq_right (le_chunkCount_mul upper size)
  exhausted := by
    rw [List.pairwise_map]
    apply List.pairwise_lt_range.imp
    intro s t hst hs
    exact answer_eq_none.mpr (Nat.le_trans (answer_eq_none.mp hs) (Nat.le_of_lt hst))

theorem claims_after (n t : Nat) :
    claims n (after upper size t) = (List.range' t n).map fun i => (after upper size i).claim.1 := by
  induction n generalizing t
  case zero => rfl
  case succ n hi => rw [claims, claim_after_snd, hi, List.range'_succ, List.map_cons]

theorem claims_below (upper size n : Nat) :
    claims n (below upper size) = (List.range n).map fun t => (after upper size t).claim.1 := by
  rw [below_eq_after, claims_after, List.range_eq_range']

theorem claims_of_lasts (hu : upper ≤ Word64.greatest) (h : Lasts upper size (n - chunkCount upper size)) :
    claims n (below upper size) = (List.range n).map (answer upper size) := by
  rw [claims_below]
  apply List.map_congr_left
  intro t ht
  have ht : t < n := List.mem_range.mp ht
  rw [answer]
  split
  case isTrue hlt => exact claim_of_lt hu hlt
  case isFalse hge => exact claim_of_ge h (Nat.not_lt.mp hge) (by omega)

-- The first claims get all the chunks.
theorem chunks_of_claims (hu : upper ≤ Word64.greatest) (h : chunkCount upper size ≤ n) :
    (claims n (below upper size)).filterMap id = Chunk.all upper size ++
      (List.range' (chunkCount upper size) (n - chunkCount upper size)).filterMap
        fun t => (after upper size t).claim.1 := by
  have hsplit := @List.range'_append_1 0 (chunkCount upper size) (n - chunkCount upper size)
  rw [Nat.zero_add, Nat.add_sub_cancel' h] at hsplit
  rw [claims_below, List.filterMap_map, List.range_eq_range', ← hsplit, List.filterMap_append]
  congr 1
  rw [Chunk.all, ← List.filterMap_eq_map', List.range_eq_range']
  apply List.filterMap_congr
  intro t ht
  have ht := (List.mem_range'_1.mp ht).right
  exact claim_of_lt hu (by omega)

-- A chunk that is claimed when all ids are handed out has one of them again.
theorem lasts_of_handsOut (hu : upper ≤ Word64.greatest) (h : HandsOut upper (claims n (below upper size))) :
    Lasts upper size (n - chunkCount upper size) := by
  intro t hc ht
  by_contra hlt
  have hlt : (after upper size t).next < (after upper size t).upper := Nat.not_le.mp hlt
  obtain ⟨c, hclaim, hstart⟩ : ∃ c, (after upper size t).claim.1 = some c ∧ c.start < upper := by
    rw [claim, if_pos hlt]
    exact ⟨_, rfl, hlt⟩
  have hmem : some c ∈ claims n (below upper size) := by
    rw [claims_below]
    exact List.mem_map.mpr ⟨t, List.mem_range.mpr (by omega), hclaim⟩
  obtain ⟨k, _, hids, _⟩ := h.covers
  have hnodup := hids ▸ @List.nodup_range k
  rw [chunks_of_claims hu (by omega), List.flatMap_append, Chunk.flatMap_ids_all] at hnodup
  have hagain : c.start ∈ ((List.range' (chunkCount upper size) (n - chunkCount upper size)).filterMap
      fun t => (after upper size t).claim.1).flatMap Chunk.ids := by
    apply List.mem_flatMap.mpr
    exists c
    refine ⟨List.mem_filterMap.mpr ⟨t, List.mem_range'_1.mpr (by omega), hclaim⟩, ?_⟩
    exact Chunk.mem_ids.mpr ⟨Nat.le_refl _, h.nonempty c hmem⟩
  exact (List.nodup_append.mp hnodup).right.right _ (List.mem_range.mpr hstart) _ hagain rfl

theorem lasts_of_lt_count (h : ∀ t < n, t * max size 1 < Word64.count) :
    Lasts upper size (n - chunkCount upper size) := by
  intro t hc ht
  rw [Nat.mod_eq_of_lt (h t (by omega))]
  exact Nat.le_trans (le_chunkCount_mul upper size) (Nat.mul_le_mul_right _ hc)

-- After as many claims as there are numbers, the counter is where it was.
theorem not_lasts (hu : upper ≤ Word64.greatest) (h : 0 < upper) :
    ¬Lasts upper size (Word64.count + 1 - chunkCount upper size) := by
  have hc : chunkCount upper size ≤ Word64.count := by
    by_contra hc
    have := lt_chunkCount_iff.mp (Nat.not_le.mp hc)
    have : Word64.count * 1 ≤ Word64.count * max size 1 := Nat.mul_le_mul_left _ (Nat.le_max_right ..)
    have : Word64.greatest < Word64.count := by decide
    omega
  intro hl
  have := hl Word64.count hc (by omega)
  rw [Nat.mul_mod_right] at this
  omega

-- What is true of a number of claims, of one that leaves the counter below its limit, and of every number.
theorem claims_handOut_iff (hu : upper ≤ Word64.greatest) (size : Nat) :
    (∀ n, HandsOut upper (claims n (below upper size)) ↔ Lasts upper size (n - chunkCount upper size)) ∧
      (∀ n, (∀ t < n, t * max size 1 < Word64.count) → HandsOut upper (claims n (below upper size))) ∧
      ((∀ n, HandsOut upper (claims n (below upper size))) ↔ upper = 0) := by
  have hiff : ∀ n, HandsOut upper (claims n (below upper size)) ↔
      Lasts upper size (n - chunkCount upper size) := by
    intro n
    constructor
    case mp => exact lasts_of_handsOut hu
    case mpr =>
      intro h
      rw [claims_of_lasts hu h]
      exact answers_handOut upper size n
  refine ⟨hiff, fun n h => (hiff n).mpr (lasts_of_lt_count h), ?_⟩
  constructor
  case mp =>
    intro h
    by_contra hne
    exact not_lasts hu (Nat.pos_of_ne_zero hne) ((hiff _).mp (h _))
  case mpr =>
    intro h n
    exact (hiff n).mpr fun _ _ _ => h ▸ Nat.zero_le _

theorem claims_handOut_iff_of_ten :
    10 ≤ Word64.greatest ∧ (∀ t < 5, t * max 4 1 < Word64.count) ∧ HandsOut 10 (claims 5 (below 10 4)) ∧
      claims 5 (below 10 4) = [some ⟨0, 4⟩, some ⟨4, 8⟩, some ⟨8, 10⟩, none, none] :=
  have hlt : ∀ t < 5, t * max 4 1 < Word64.count := by decide
  ⟨by decide, hlt, (claims_handOut_iff (by decide) 4).right.left 5 hlt, by decide⟩

-- Two chunks of this size make the counter wrap around, and the third claim gets the first chunk again.
theorem exists_chunk_handed_out_twice :
    claims 3 (below 10 0x8000000000000000) = [some ⟨0, 10⟩, none, some ⟨0, 10⟩] ∧
      ¬HandsOut 10 (claims 3 (below 10 0x8000000000000000)) := by
  have h : claims 3 (below 10 0x8000000000000000) = [some ⟨0, 10⟩, none, some ⟨0, 10⟩] := by decide
  refine ⟨h, ?_⟩
  intro hands
  have he := hands.exhausted
  rw [h] at he
  simp at he

end PropertyGraph.Dispenser
