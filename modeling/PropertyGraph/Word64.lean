namespace PropertyGraph.Word64

-- How many there are.
def count : Nat := 0x10000000000000000

-- The greatest one.
def greatest : Nat := count - 1

-- How many of them one vector holds at most: at eight bytes each, it takes fewer than half of `count`.
def maxVector : Nat := 0xfffffffffffffff

theorem three_mul_le_count {n : Nat} (h : n < maxVector) : 3 * n ≤ count := by
  simp only [maxVector, count] at h ⊢
  omega

end PropertyGraph.Word64
