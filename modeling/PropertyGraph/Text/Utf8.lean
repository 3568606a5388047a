namespace PropertyGraph.Text.Utf8

def isTail (b : UInt8) : Bool := 0x80 ≤ b && b < 0xc0

def tailBits (b : UInt8) : Nat := b.toNat % 0x40

-- Whether `b` may follow the lead byte `a` of three bytes: no longer form than needed, no half of a pair.
def follows3 (a b : UInt8) : Bool :=
  isTail b && (a ≠ 0xe0 || 0xa0 ≤ b) && (a ≠ 0xed || b < 0xa0)

-- Whether `b` may follow the lead byte `a` of four bytes: no longer form than needed, none out of range.
def follows4 (a b : UInt8) : Bool :=
  isTail b && (a ≠ 0xf0 || 0x90 ≤ b) && (a ≠ 0xf4 || b < 0x90)

-- Reads on; `acc` holds the characters so far, the last first, and `pos` counts their bytes.
def decodeFrom : List UInt8 → (pos : Nat) → (acc : List Char) → Except Nat (List Char)
  | [], _, acc => .ok acc.reverse
  | a :: rest, pos, acc =>
    if a < 0x80 then decodeFrom rest (pos + 1) (Char.ofNat a.toNat :: acc)
    else if 0xc2 ≤ a && a < 0xe0 then
      match rest with
      | b :: rest =>
        if isTail b then
          decodeFrom rest (pos + 2) (Char.ofNat ((a.toNat - 0xc0) * 0x40 + tailBits b) :: acc)
        else .error pos
      | _ => .error pos
    else if 0xe0 ≤ a && a < 0xf0 then
      match rest with
      | b :: c :: rest =>
        if follows3 a b && isTail c then
          decodeFrom rest (pos + 3)
            (Char.ofNat (((a.toNat - 0xe0) * 0x40 + tailBits b) * 0x40 + tailBits c) :: acc)
        else .error pos
      | _ => .error pos
    else if 0xf0 ≤ a && a < 0xf5 then
      match rest with
      | b :: c :: d :: rest =>
        if follows4 a b && isTail c && isTail d then
          decodeFrom rest (pos + 4)
            (Char.ofNat ((((a.toNat - 0xf0) * 0x40 + tailBits b) * 0x40 + tailBits c) * 0x40 +
              tailBits d) :: acc)
        else .error pos
      | _ => .error pos
    else .error pos

-- Text from bytes. Bytes that are no text are refused with the number of bytes in front of the first sequence that is
-- no character.
def decode (bytes : List UInt8) : Except Nat String :=
  (decodeFrom bytes 0 []).map String.ofList

end PropertyGraph.Text.Utf8
