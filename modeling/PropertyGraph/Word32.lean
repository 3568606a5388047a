namespace PropertyGraph.Word32

-- How many numbers of 32 bits there are.
def count : Nat := 0x100000000

-- The lowest 32 bits of a number.
def truncate (n : Nat) : Nat := n % count

theorem truncate_lt (n : Nat) : truncate n < count :=
  Nat.mod_lt n (by decide)

theorem truncate_of_lt {n : Nat} (h : n < count) : truncate n = n :=
  Nat.mod_eq_of_lt h

end PropertyGraph.Word32
