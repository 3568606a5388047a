import PropertyGraph.Codec.Varint

namespace PropertyGraph.Gap

-- The distances between neighbours, starting from `last`.
def gaps (last : Nat) : List Nat → List Nat
  | [] => []
  | id :: ids => (id - last) :: gaps id ids

-- Ascending ids by their gaps: each id is written as its distance from the one before it, the first as its distance
-- from zero.
def encode (ids : List Nat) : List UInt8 :=
  (gaps 0 ids).flatMap Varint.encode

@[simp]
theorem length_gaps (last : Nat) (ids : List Nat) : (gaps last ids).length = ids.length := by
  induction ids generalizing last with
  | nil => rfl
  | cons id ids ih => simp [gaps, ih]

end PropertyGraph.Gap
