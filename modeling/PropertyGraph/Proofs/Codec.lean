import Mathlib.Algebra.Order.Ring.Nat
import PropertyGraph.Codec.Word32

namespace PropertyGraph

-- The part stands in the bytes from `pos` on.
def HasAt (bytes : Array UInt8) (pos : Nat) (part : List UInt8) : Prop :=
  ∀ i b, part[i]? = some b → bytes[pos + i]? = some b

namespace HasAt

variable {bytes : Array UInt8} {pos : Nat} {b : UInt8} {part part' : List UInt8}

theorem nil : HasAt bytes pos [] := by
  intro i b h
  simp at h

theorem cons_iff :
    HasAt bytes pos (b :: part) ↔ bytes[pos]? = some b ∧ HasAt bytes (pos + 1) part where
  mp h := by
    refine ⟨h 0 b rfl, fun i b' hb => ?_⟩
    have := h (i + 1) b' hb
    rwa [Nat.add_right_comm]
  mpr := by
    intro ⟨h₀, h⟩ i b' hb
    cases i
    case zero => simp_all
    case succ i =>
      have := h i b' hb
      rwa [Nat.add_right_comm] at this

theorem append_iff :
    HasAt bytes pos (part ++ part') ↔
      HasAt bytes pos part ∧ HasAt bytes (pos + part.length) part' := by
  induction part generalizing pos
  case nil => simp [nil]
  case cons b part hi =>
    rw [List.cons_append, cons_iff, hi, cons_iff, and_assoc, List.length_cons]
    rw [show pos + 1 + part.length = pos + (part.length + 1) by omega]

theorem iff_toList :
    HasAt bytes pos part ↔ ∀ i b, part[i]? = some b → bytes.toList[pos + i]? = some b := by
  simp [HasAt]

-- Bytes written behind a part do not touch it.
theorem extend {more : List UInt8} (h : HasAt bytes pos part) : HasAt (bytes ++ more) pos part := by
  rw [iff_toList] at h ⊢
  intro i b hb
  have hi := h i b hb
  have ⟨hlt, _⟩ := List.getElem?_eq_some_iff.mp hi
  rwa [Array.toList_appendList, List.getElem?_append_left hlt]

theorem append_self : HasAt (bytes ++ part) bytes.size part := by
  rw [iff_toList]
  intro i b hb
  rw [Array.toList_appendList, List.getElem?_append_right (by simp)]
  simpa using hb

-- Bytes written in front of a part move it.
theorem shift {front : Array UInt8} (h : HasAt bytes pos part) :
    HasAt (front ++ bytes.toList) (front.size + pos) part := by
  rw [iff_toList] at h ⊢
  intro i b hb
  rw [Array.toList_appendList, List.getElem?_append_right (by simp; omega), Array.length_toList]
  rw [show front.size + pos + i - front.size = pos + i by omega]
  exact h i b hb

end HasAt

namespace Word32

theorem decode_of_hasAt {bytes : Array UInt8} {pos n : Nat} (hn : n ≤ 0xffffffff)
    (h : HasAt bytes pos (encode n)) : decode bytes pos = .ok n := by
  simp only [encode, HasAt.cons_iff] at h
  have ⟨h₀, h₁, h₂, h₃, _⟩ := h
  simp only [decode, h₀, h₁, h₂, h₃, Nat.toUInt8_eq, UInt8.toNat_ofNat']
  congr 1
  omega

end Word32

end PropertyGraph
