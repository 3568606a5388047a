import PropertyGraph.Fault

namespace PropertyGraph.Varint

-- Numbers in groups of bytes: seven payload bits a byte, lowest first, and the top bit set on every byte but the last.
-- A group holds 64 bits, so it has ten bytes at most and its tenth byte only one payload bit.
def encode (n : Nat) : List UInt8 :=
  if n < 128 then [n.toUInt8] else (n % 128 + 128).toUInt8 :: encode (n / 128)
termination_by n
decreasing_by omega

-- The number of binary digits of `n`; zero has none.
def bitLength (n : Nat) : Nat :=
  if n = 0 then 0 else n.log2 + 1

-- How many bytes `encode` writes: one for every seven binary digits begun, and one for zero.
def encodedLength (n : Nat) : Nat :=
  (max (bitLength n) 1 + 6) / 7

def maxGroup : Nat := 10

-- Reads the rest of a group at `pos`, `left` bytes of which may follow. The payloads in front of it make `n` and take
-- `shift` bits. The second part of the answer is where reading stopped, also when it failed.
def decodeRest (bytes : Array UInt8) :
    (left pos : Nat) → (n shift : UInt64) → Except Fault UInt64 × Nat
  | 0, pos, _, _ => (.error .varintTooLong, pos)
  | left + 1, pos, n, shift =>
    match bytes[pos]? with
    | none => (.error (.varintTruncated (maxGroup - (left + 1))), pos)
    | some b =>
      let payload := (b &&& 0x7f).toUInt64
      if left = 0 ∧ 1 < payload then (.error .varintOverflow, pos + 1)
      else
        let n := n ||| payload <<< shift
        if b &&& 0x80 = 0 then (.ok n, pos + 1)
        else decodeRest bytes left (pos + 1) n (shift + 7)

def decode (bytes : Array UInt8) (pos : Nat) : Except Fault Nat × Nat :=
  match decodeRest bytes maxGroup pos 0 0 with
  | (.ok n, stop) => (.ok n.toNat, stop)
  | (.error e, stop) => (.error e, stop)

theorem encode_of_lt {n : Nat} (h : n < 128) : encode n = [n.toUInt8] := by
  rw [encode, if_pos h]

theorem encode_of_ge {n : Nat} (h : 128 ≤ n) :
    encode n = (n % 128 + 128).toUInt8 :: encode (n / 128) := by
  rw [encode, if_neg (by omega)]

end PropertyGraph.Varint
