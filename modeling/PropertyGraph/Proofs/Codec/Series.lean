import PropertyGraph.Proofs.Codec.Varint

namespace PropertyGraph.Varint

-- Writes numbers behind some bytes, one after the other.
def appendAll (bytes : Array UInt8) (values : List Nat) : Array UInt8 :=
  values.foldl (fun bytes n => bytes ++ encode n) bytes

-- Reads as many numbers as asked for, each from where the one before it ended. The second part of the answer is where
-- reading stopped, also when it failed.
def decodeAll (bytes : Array UInt8) : (count pos : Nat) → Except Fault (List Nat) × Nat
  | 0, pos => (.ok [], pos)
  | count + 1, pos =>
    match decode bytes pos with
    | (.error f, stop) => (.error f, stop)
    | (.ok n, stop) =>
      match decodeAll bytes count stop with
      | (.error f, stop) => (.error f, stop)
      | (.ok values, stop) => (.ok (n :: values), stop)

variable {bytes : Array UInt8} {pos n : Nat} {values : List Nat}

theorem appendAll_eq (bytes : Array UInt8) (values : List Nat) :
    appendAll bytes values = bytes ++ values.flatMap encode := by
  induction values generalizing bytes
  case nil => simp [appendAll]
  case cons n values hi =>
    rw [appendAll, List.foldl_cons, ← appendAll, hi]
    exact Array.toList_inj.mp (by simp)

theorem length_flatMap_encode (values : List Nat) :
    (values.flatMap encode).length = (values.map encodedLength).sum := by
  rw [List.length_flatMap]
  exact congrArg List.sum (List.map_congr_left fun n _ => length_encode_eq n)

-- What is read of numbers that stand one behind the other, wherever they stand.
theorem decodeAll_of_hasAt (hv : ∀ n ∈ values, n ≤ Word64.greatest) (h : HasAt bytes pos (values.flatMap encode)) :
    decodeAll bytes values.length pos = (.ok values, pos + (values.map encodedLength).sum) := by
  induction values generalizing pos
  case nil => rfl
  case cons n values hi =>
    have ⟨hn, hvalues⟩ := List.forall_mem_cons.mp hv
    have ⟨hfirst, hrest⟩ := HasAt.append_iff.mp (List.flatMap_cons ▸ h)
    have hd := decode_of_hasAt hn hfirst
    have hrest := hi hvalues hrest
    rw [length_encode_eq] at hd hrest
    rw [List.length_cons, decodeAll, hd]
    simp only [hrest, List.map_cons, List.sum_cons, Nat.add_assoc]

-- A number is added with as many bytes as its length tells, and nothing that stands around the numbers is read for
-- them.
theorem decodeAll_appendAll (front : Array UInt8) (values : List Nat) (hv : ∀ n ∈ values, n ≤ Word64.greatest) :
    (appendAll front values).size = front.size + (values.map encodedLength).sum ∧
      (appendAll front values).extract 0 front.size = front ∧
      ∀ (back : List UInt8) (count : Nat), count ≤ values.length →
        decodeAll (appendAll front values ++ back) count front.size =
          (.ok (values.take count), (appendAll front (values.take count)).size) := by
  have hsize : ∀ values, (appendAll front values).size = front.size + (values.map encodedLength).sum := by
    intro values
    rw [appendAll_eq, ← Array.length_toList, Array.toList_appendList, List.length_append, Array.length_toList,
      length_flatMap_encode]
  refine ⟨hsize values, ?untouched, fun back count hc => ?read⟩
  case untouched =>
    rw [appendAll_eq]
    apply Array.toList_inj.mp
    simp
  case read =>
    have hall : HasAt (appendAll front values ++ back) front.size (values.flatMap encode) := by
      rw [appendAll_eq]
      exact HasAt.append_self.extend
    rw [← List.take_append_drop count values, List.flatMap_append] at hall
    have ⟨hfirst, _⟩ := HasAt.append_iff.mp hall
    have hread := decodeAll_of_hasAt (fun n hn => hv n (List.mem_of_mem_take hn)) hfirst
    rwa [List.length_take_of_le hc, List.take_append_drop, ← hsize] at hread

-- The bytes around these numbers have their top bits set, as if a group began in front of them and another went on
-- behind.
theorem decodeAll_appendAll_of_bounds :
    (∀ n ∈ [0, 127, 128, Word64.greatest], n ≤ Word64.greatest) ∧
      (appendAll #[0x80] [0, 127, 128, Word64.greatest]).size = 15 ∧
      decodeAll (appendAll #[0x80] [0, 127, 128, Word64.greatest] ++ ([0xff, 0x80] : List UInt8)) 4 1 =
        (.ok [0, 127, 128, Word64.greatest], 15) := by
  have hv : ∀ n ∈ [0, 127, 128, Word64.greatest], n ≤ Word64.greatest := by decide
  have ⟨hsize, _, hread⟩ := decodeAll_appendAll #[0x80] [0, 127, 128, Word64.greatest] hv
  have hsum : ([0, 127, 128, Word64.greatest].map encodedLength).sum = 14 := by decide
  rw [hsum] at hsize
  have hread := hread [0xff, 0x80] 4 (Nat.le_refl 4)
  exact ⟨hv, hsize, hread.trans (congrArg (Prod.mk _) hsize)⟩

end PropertyGraph.Varint
