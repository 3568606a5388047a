import Mathlib.Tactic.ByContra
import PropertyGraph.Chunk.Dispenser

namespace PropertyGraph

namespace Chunk

-- The chunk with `t` chunks in front of it.
def nth (upper size t : Nat) : Chunk :=
  ⟨t * max size 1, min ((t + 1) * max size 1) upper⟩

-- All chunks of the ids below `upper`.
def all (upper size : Nat) : List Chunk :=
  (List.range (Dispenser.chunkCount upper size)).map (nth upper size)

end Chunk

namespace Dispenser

variable {upper size t : Nat}

theorem lt_chunkCount_iff : t < chunkCount upper size ↔ t * max size 1 < upper := by
  have hs : 0 < max size 1 := by omega
  rw [chunkCount]
  generalize max size 1 = s at hs
  rw [Nat.lt_iff_add_one_le, Nat.le_div_iff_mul_le hs, Nat.add_one_mul]
  omega

theorem le_chunkCount_mul (upper size : Nat) : upper ≤ chunkCount upper size * max size 1 := by
  by_contra h
  exact Nat.lt_irrefl _ (lt_chunkCount_iff.mpr (Nat.not_le.mp h))

-- A dispenser that was asked `t` times.
def after (upper size t : Nat) : Dispenser :=
  ⟨t * max size 1 % Word64.count, upper, max size 1⟩

theorem below_eq_after (upper size : Nat) : below upper size = after upper size 0 := by
  simp [below, after]

theorem claim_after_snd : (after upper size t).claim.2 = after upper size (t + 1) := by
  rw [claim]
  split <;> simp [after, Nat.add_one_mul]

theorem claim_of_lt (hu : upper ≤ Word64.greatest) (h : t < chunkCount upper size) :
    (after upper size t).claim.1 = some (Chunk.nth upper size t) := by
  have hlt := lt_chunkCount_iff.mp h
  have hc : Word64.greatest < Word64.count := by decide
  have hm : t * max size 1 % Word64.count = t * max size 1 := Nat.mod_eq_of_lt (by omega)
  rw [claim]
  simp only [after, hm, if_pos hlt, Chunk.nth, Nat.add_one_mul]
  congr 2
  omega

-- Whether a dispenser that has given out all its chunks can be asked `workers` times more.
def Lasts (upper size workers : Nat) : Prop :=
  ∀ t, chunkCount upper size ≤ t → t < chunkCount upper size + workers →
    upper ≤ t * max size 1 % Word64.count

theorem claim_of_ge {workers : Nat} (hl : Lasts upper size workers)
    (h : chunkCount upper size ≤ t) (ht : t < chunkCount upper size + workers) :
    (after upper size t).claim.1 = none := by
  have := hl t h ht
  rw [claim, if_neg (by simpa [after] using this)]

end Dispenser

namespace Chunk

open Dispenser

variable {upper size : Nat}

theorem start_lt_of_lt {s t : Nat} (h : s < t) : (nth upper size s).start < (nth upper size t).start :=
  Nat.mul_lt_mul_of_pos_right h (by omega)

theorem all_ascending : (all upper size).Pairwise (·.start < ·.start) := by
  rw [all, List.pairwise_map]
  exact List.pairwise_lt_range.imp start_lt_of_lt

theorem ids_nth (t : Nat) :
    (nth upper size t).ids =
      List.range' (min (t * max size 1) upper)
        (min ((t + 1) * max size 1) upper - min (t * max size 1) upper) := by
  simp only [ids, width, nth]
  by_cases h : t * max size 1 ≤ upper
  case pos => rw [Nat.min_eq_left h]
  case neg =>
    have : t * max size 1 ≤ (t + 1) * max size 1 := Nat.mul_le_mul_right _ (by omega)
    rw [Nat.min_eq_right (by omega), Nat.min_eq_right (by omega)]
    simp [show upper - t * max size 1 = 0 by omega]

-- The chunks in front of a place make all ids in front of it.
theorem flatMap_ids_range (m : Nat) :
    (List.range m).flatMap (fun t => (nth upper size t).ids) =
      List.range (min (m * max size 1) upper) := by
  induction m
  case zero => simp
  case succ m hi =>
    have hle : m * max size 1 ≤ (m + 1) * max size 1 := Nat.mul_le_mul_right _ (by omega)
    rw [List.range_succ, List.flatMap_append, hi, List.flatMap_singleton, ids_nth,
      List.range_eq_range', List.range_eq_range']
    have := @List.range'_append_1 0 (min (m * max size 1) upper)
      (min ((m + 1) * max size 1) upper - min (m * max size 1) upper)
    rw [Nat.zero_add] at this
    rw [this]
    congr 1
    omega

theorem flatMap_ids_all : (all upper size).flatMap ids = List.range upper := by
  rw [all, List.flatMap_map, flatMap_ids_range, Nat.min_eq_right (le_chunkCount_mul upper size)]

theorem lt_of_mem_ids {c : Chunk} {id : Nat} (hc : c ∈ all upper size) (h : id ∈ c.ids) : id < upper := by
  rw [← List.mem_range, ← @flatMap_ids_all upper size]
  exact List.mem_flatMap.mpr ⟨c, hc, h⟩

theorem exists_chunk {id : Nat} (h : id < upper) : ∃ c ∈ all upper size, id ∈ c.ids := by
  rw [← List.mem_range, ← @flatMap_ids_all upper size] at h
  exact List.mem_flatMap.mp h

end Chunk

end PropertyGraph
