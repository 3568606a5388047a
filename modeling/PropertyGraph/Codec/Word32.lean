import PropertyGraph.Fault

namespace PropertyGraph.Word32

def width : Nat := 4

-- Numbers of 32 bits in four bytes, lowest byte first.
def encode (n : Nat) : List UInt8 :=
  [n.toUInt8, (n / 0x100).toUInt8, (n / 0x10000).toUInt8, (n / 0x1000000).toUInt8]

def decode (bytes : Array UInt8) (pos : Nat) : Except Fault Nat :=
  match bytes[pos]?, bytes[pos + 1]?, bytes[pos + 2]?, bytes[pos + 3]? with
  | some a, some b, some c, some d =>
    .ok (a.toNat + 0x100 * b.toNat + 0x10000 * c.toNat + 0x1000000 * d.toNat)
  | _, _, _, _ => .error (.wordOverrun pos bytes.size)

@[simp]
theorem length_encode (n : Nat) : (encode n).length = width := rfl

end PropertyGraph.Word32
