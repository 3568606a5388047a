import Mathlib.Data.Nat.Bitwise
import Mathlib.Data.Nat.Digits.Lemmas
import Mathlib.Tactic.Ring
import PropertyGraph.Codec.Varint
import PropertyGraph.Proofs.Codec
import PropertyGraph.Word64

namespace PropertyGraph.Varint

def payload (b : UInt8) : Nat := b.toNat % 128

-- What a group stands for: its payloads, each with a factor by its place.
def value (group : List UInt8) : Nat :=
  ((group.map payload).mapIdx fun i x => x * 128 ^ i).sum

-- The groups of at most `left` bytes. Where all of them are needed, the last one has room for one bit.
inductive IsGroup : (left : Nat) → List UInt8 → Prop
  | last {left b} : b.toNat < 128 → (left = 0 → b.toNat ≤ 1) → IsGroup (left + 1) [b]
  | more {left b group} : 128 ≤ b.toNat → IsGroup left group → IsGroup (left + 1) (b :: group)

variable {bytes : Array UInt8} {b : UInt8} {group : List UInt8} {left pos stop k n : Nat}

theorem payload_of_lt (h : b.toNat < 128) : payload b = b.toNat :=
  Nat.mod_eq_of_lt h

theorem payload_lt (b : UInt8) : payload b < 128 :=
  Nat.mod_lt _ (by decide)

theorem value_cons (b : UInt8) (group : List UInt8) :
    value (b :: group) = payload b + 128 * value group := by
  simp only [value, ← Nat.ofDigits_eq_sum_mapIdx, List.map_cons, Nat.ofDigits_cons]

theorem value_singleton (h : b.toNat < 128) : value [b] = b.toNat := by
  rw [value_cons, payload_of_lt h]
  rfl

section Words

variable {m word shift : UInt64}

theorem toNat_payload (b : UInt8) : (b &&& 0x7f).toUInt64.toNat = payload b := by
  rw [UInt8.toNat_toUInt64, UInt8.toNat_and]
  exact Nat.and_two_pow_sub_one_eq_mod b.toNat 7

theorem isLast_iff (b : UInt8) : b &&& 0x80 = 0 ↔ b.toNat < 128 := by
  have hlt := b.toNat_lt
  have hb : (b &&& 0x80).toNat = (b.toNat.testBit 7).toNat * 128 := by
    rw [UInt8.toNat_and]
    exact Nat.and_two_pow b.toNat 7
  rw [← UInt8.toNat_inj, hb, Nat.testBit_eq_decide_div_mod_eq]
  by_cases h : b.toNat < 128
  case pos => simp [h, show b.toNat / 128 = 0 by omega]
  case neg => simp [h, show b.toNat / 128 = 1 by omega]

-- A payload that is shifted behind the bits of a word neither meets them nor leaves the word.
theorem toNat_or_shift {x : UInt64} (hs : shift.toNat < 64) (hw : word.toNat < 2 ^ shift.toNat)
    (hx : x.toNat * 2 ^ shift.toNat < 2 ^ 64) :
    (word ||| x <<< shift).toNat = word.toNat + 2 ^ shift.toNat * x.toNat := by
  rw [UInt64.toNat_or, UInt64.toNat_shiftLeft, Nat.mod_eq_of_lt hs, Nat.shiftLeft_eq, Nat.mod_eq_of_lt hx,
    Nat.or_comm, Nat.mul_comm, ← Nat.two_pow_add_eq_or_of_lt hw, Nat.add_comm]

-- The bits in front of the rest of a group, and those of the rest, are 70: seven for each of the ten bytes.
theorem mul_two_pow_lt {x s : Nat} (hs : s + 7 * (left + 1) = 70) (hx : x < 128) (hlast : left = 0 → x ≤ 1) :
    x * 2 ^ s < 2 ^ 64 := by
  cases left
  case zero =>
    have hs : s = 63 := by omega
    have := Nat.mul_le_mul_right (2 ^ 63) (hlast rfl)
    rw [hs]
    omega
  case succ left =>
    have hpow : 2 ^ s ≤ 2 ^ 56 := Nat.pow_le_pow_right (by decide) (by omega)
    have := Nat.mul_le_mul (Nat.le_of_lt_succ hx) hpow
    omega

-- One byte further, with its payload in the word.
theorem word_step (hs : shift.toNat + 7 * (left + 1) = 70) (hw : word.toNat < 2 ^ shift.toNat) (hleft : left ≠ 0)
    (b : UInt8) :
    let word' := word ||| (b &&& 0x7f).toUInt64 <<< shift
    (shift + 7).toNat + 7 * left = 70 ∧ 2 ^ (shift + 7).toNat = 2 ^ shift.toNat * 128 ∧
      word'.toNat = word.toNat + 2 ^ shift.toNat * payload b ∧ word'.toNat < 2 ^ (shift + 7).toNat := by
  have hx := mul_two_pow_lt hs (payload_lt b) (absurd · hleft)
  have hor := toNat_or_shift (by omega) hw (toNat_payload b ▸ hx)
  rw [toNat_payload] at hor
  have hshift : (shift + 7).toNat = shift.toNat + 7 := by
    rw [UInt64.toNat_add]
    exact Nat.mod_eq_of_lt (show shift.toNat + 7 < 2 ^ 64 by omega)
  have hpow : 2 ^ (shift + 7).toNat = 2 ^ shift.toNat * 128 := by rw [hshift, Nat.pow_add]
  have hle := Nat.mul_le_mul_left (2 ^ shift.toNat) (Nat.succ_le_of_lt (payload_lt b))
  rw [Nat.mul_succ] at hle
  exact ⟨by omega, hpow, hor, by omega⟩

theorem decodeRest_of_isGroup (h : IsGroup left group) (hg : HasAt bytes pos group)
    (hs : shift.toNat + 7 * left = 70) (hw : word.toNat < 2 ^ shift.toNat) :
    ∃ m, decodeRest bytes left pos word shift = (.ok m, pos + group.length) ∧
      m.toNat = word.toNat + 2 ^ shift.toNat * value group := by
  induction h generalizing pos word shift
  case last left b hb hlast =>
    have ⟨hb', _⟩ := HasAt.cons_iff.mp hg
    have hp : (b &&& 0x7f).toUInt64.toNat = b.toNat := by rw [toNat_payload, payload_of_lt hb]
    have hfits : ¬(left = 0 ∧ 1 < (b &&& 0x7f).toUInt64) := by
      intro ⟨hl, hgt⟩
      have hgt := UInt64.lt_iff_toNat_lt.mp hgt
      rw [hp] at hgt
      exact Nat.not_le.mpr hgt (hlast hl)
    have hx := mul_two_pow_lt hs hb hlast
    exists word ||| (b &&& 0x7f).toUInt64 <<< shift
    constructor
    case left => simp only [decodeRest, hb', if_neg hfits, if_pos ((isLast_iff b).mpr hb), List.length_singleton]
    case right => rw [toNat_or_shift (by omega) hw (hp ▸ hx), hp, value_singleton hb]
  case more left b group hb hrest hi =>
    have ⟨hb', hg⟩ := HasAt.cons_iff.mp hg
    have hleft : left ≠ 0 := by
      intro hl
      subst hl
      cases hrest
    have ⟨hs', hpow, hor, hw'⟩ := word_step hs hw hleft b
    have ⟨m, hm, hv⟩ := hi hg hs' hw'
    exists m
    constructor
    case left =>
      have hb : ¬b &&& 0x80 = 0 := fun h => Nat.not_lt.mpr hb ((isLast_iff b).mp h)
      simp only [decodeRest, hb', hleft, false_and, if_false, hb, hm, List.length_cons]
      congr 1
      omega
    case right =>
      rw [hv, hor, hpow, value_cons]
      ring

theorem exists_group_of_decodeRest (h : decodeRest bytes left pos word shift = (.ok m, stop)) :
    ∃ group, IsGroup left group ∧ HasAt bytes pos group := by
  induction left generalizing pos word shift
  case zero => cases h
  case succ left hi =>
    rw [decodeRest] at h
    cases hb : bytes[pos]? <;> simp only [hb] at h
    case none => cases h
    case some b =>
      split at h
      case isTrue => cases h
      case isFalse hfits =>
        split at h
        case isTrue hl =>
          have hl := (isLast_iff b).mp hl
          refine ⟨[b], .last hl fun hz => ?_, HasAt.cons_iff.mpr ⟨hb, .nil⟩⟩
          have hle : ¬1 < (b &&& 0x7f).toUInt64 := fun hlt => hfits ⟨hz, hlt⟩
          rw [UInt64.lt_iff_toNat_lt, toNat_payload, payload_of_lt hl] at hle
          exact Nat.not_lt.mp hle
        case isFalse hl =>
          have ⟨group, hgroup, hg⟩ := hi h
          have hl : 128 ≤ b.toNat := Nat.not_lt.mp fun hlt => hl ((isLast_iff b).mpr hlt)
          exact ⟨b :: group, .more hl hgroup, HasAt.cons_iff.mpr ⟨hb, hg⟩⟩

end Words

theorem decode_of_isGroup (h : IsGroup maxGroup group) (hg : HasAt bytes pos group) :
    decode bytes pos = (.ok (value group), pos + group.length) := by
  have ⟨m, hm, hv⟩ := @decodeRest_of_isGroup _ _ _ _ 0 0 h hg (by decide) (by decide)
  rw [decode, hm]
  simp [hv]

theorem decode_eq_ok_iff : decode bytes pos = (.ok n, stop) ↔
    ∃ group, IsGroup maxGroup group ∧ HasAt bytes pos group ∧ n = value group ∧ stop = pos + group.length where
  mp h := by
    have ⟨m, hm⟩ : ∃ m, decodeRest bytes maxGroup pos 0 0 = (.ok m, stop) := by
      rw [decode] at h
      split at h
      case h_1 m stop' he =>
        have hstop : stop' = stop := congrArg Prod.snd h
        exact ⟨m, hstop ▸ he⟩
      case h_2 => cases h
    have ⟨group, hgroup, hg⟩ := exists_group_of_decodeRest hm
    have he := h.symm.trans (decode_of_isGroup hgroup hg)
    exact ⟨group, hgroup, hg, Except.ok.inj (congrArg Prod.fst he), congrArg Prod.snd he⟩
  mpr := by
    intro ⟨group, hgroup, hg, hn, hstop⟩
    rw [hn, hstop]
    exact decode_of_isGroup hgroup hg

-- Success as it shows in the bytes: the first of them without the top bit is the tenth at most.
theorem exists_group_iff : (∃ group, IsGroup left group ∧ HasAt bytes pos group) ↔
    ∃ k < left, (∀ i < k, ∃ b, bytes[pos + i]? = some b ∧ 128 ≤ b.toNat) ∧
      ∃ b, bytes[pos + k]? = some b ∧ b.toNat < 128 ∧ (k + 1 = left → b.toNat ≤ 1) := by
  constructor
  case mp =>
    intro ⟨group, hgroup, hg⟩
    induction hgroup generalizing pos
    case last left b hb hlast =>
      have ⟨hb', _⟩ := HasAt.cons_iff.mp hg
      exact ⟨0, Nat.succ_pos left, fun i hi => absurd hi (Nat.not_lt_zero i), b, hb', hb, fun hl => hlast (by omega)⟩
    case more left b group hb hrest hi =>
      have ⟨hb', hg⟩ := HasAt.cons_iff.mp hg
      have ⟨k, hk, hfront, c, hc, hlt, hlast⟩ := hi hg
      rw [Nat.add_right_comm] at hc
      refine ⟨k + 1, Nat.succ_lt_succ hk, fun i hi => ?_, c, hc, hlt, fun hl => hlast (Nat.succ.inj hl)⟩
      cases i
      case zero => exact ⟨b, hb', hb⟩
      case succ i =>
        have ⟨d, hd, hle⟩ := hfront i (Nat.lt_of_succ_lt_succ hi)
        rw [Nat.add_right_comm] at hd
        exact ⟨d, hd, hle⟩
  case mpr =>
    intro ⟨k, hk, hfront, c, hc, hlt, hlast⟩
    induction k generalizing left pos
    case zero =>
      have ⟨left, hl⟩ := Nat.exists_eq_succ_of_ne_zero (Nat.ne_of_gt hk)
      subst hl
      exact ⟨[c], .last hlt fun hl => hlast (by omega), HasAt.cons_iff.mpr ⟨hc, .nil⟩⟩
    case succ k hi =>
      have ⟨left, hl⟩ := Nat.exists_eq_succ_of_ne_zero (Nat.ne_zero_of_lt hk)
      subst hl
      have ⟨b, hb, hle⟩ := hfront 0 (Nat.succ_pos k)
      have ⟨group, hgroup, hg⟩ := @hi left (pos + 1) (Nat.lt_of_succ_lt_succ hk) (fun i hi => by
          rw [Nat.add_right_comm]
          exact hfront (i + 1) (Nat.succ_lt_succ hi))
        (by rwa [Nat.add_right_comm]) (fun hl => hlast (congrArg Nat.succ hl))
      exact ⟨b :: group, .more hle hgroup, HasAt.cons_iff.mpr ⟨hb, hg⟩⟩

theorem value_lt (h : IsGroup (left + 1) group) : value group < 2 * 128 ^ left := by
  induction left generalizing group
  case zero =>
    cases h
    case last b hb hlast =>
      rw [value_singleton hb]
      have := hlast rfl
      omega
    case more hrest => cases hrest
  case succ left hi =>
    rw [Nat.pow_succ]
    cases h
    case last b hb hlast =>
      rw [value_singleton hb]
      have := Nat.one_le_pow left 128 (by decide)
      omega
    case more b group hb hrest =>
      have := hi hrest
      have := payload_lt b
      rw [value_cons]
      omega

theorem toNat_toUInt8 (h : n < 256) : n.toUInt8.toNat = n :=
  UInt8.toNat_ofNat_of_lt' h

theorem value_encode (n : Nat) : value (encode n) = n := by
  induction n using Nat.strongRecOn
  case ind n hi =>
    by_cases h : n < 128
    case pos =>
      have hb := toNat_toUInt8 (show n < 256 by omega)
      rw [encode_of_lt h, value_singleton (by omega), hb]
    case neg =>
      have hb := toNat_toUInt8 (show n % 128 + 128 < 256 by omega)
      rw [encode_of_ge (Nat.not_lt.mp h), value_cons, hi (n / 128) (by omega), payload, hb]
      omega

theorem isGroup_encode (h : n < 2 * 128 ^ left) : IsGroup (left + 1) (encode n) := by
  induction left generalizing n
  case zero =>
    have h : n < 2 := by simpa using h
    have hb := toNat_toUInt8 (show n < 256 by omega)
    rw [encode_of_lt (by omega)]
    exact .last (by omega) fun _ => by omega
  case succ left hi =>
    rw [Nat.pow_succ] at h
    by_cases hs : n < 128
    case pos =>
      have hb := toNat_toUInt8 (show n < 256 by omega)
      rw [encode_of_lt hs]
      exact .last (by omega) fun hl => nomatch hl
    case neg =>
      have hb := toNat_toUInt8 (show n % 128 + 128 < 256 by omega)
      rw [encode_of_ge (Nat.not_lt.mp hs)]
      exact .more (by omega) (hi (by omega))

-- Bytes at the end of a group that have no payload are left out of what is written.
theorem length_encode_le (h : IsGroup left group) :
    (encode (value group)).length ≤ group.length ∧
      ((encode (value group)).length = group.length → group = encode (value group)) := by
  induction h
  case last b hb _ =>
    have he : b.toNat.toUInt8 = b := by simp
    rw [value_singleton hb, encode_of_lt hb, he]
    exact ⟨Nat.le_refl _, fun _ => rfl⟩
  case more b group hb hrest hi =>
    have ⟨hle, heq⟩ := hi
    have hne : group ≠ [] := by
      intro he
      subst he
      cases hrest
    have hpos : 0 < group.length := List.length_pos_iff.mpr hne
    have hlt := b.toNat_lt
    rw [value_cons, payload]
    by_cases hv : value group = 0
    case pos =>
      rw [hv, encode_of_lt (by omega)]
      simp only [List.length_cons, List.length_nil]
      exact ⟨by omega, fun h => by omega⟩
    case neg =>
      have hmod : (b.toNat % 128 + 128 * value group) % 128 = b.toNat % 128 := by omega
      have hdiv : (b.toNat % 128 + 128 * value group) / 128 = value group := by omega
      have hbyte : (b.toNat % 128 + 128).toUInt8 = b := by
        rw [show b.toNat % 128 + 128 = b.toNat by omega]
        simp
      rw [encode_of_ge (by omega), hmod, hdiv, hbyte]
      simp only [List.length_cons]
      exact ⟨by omega, fun h => congrArg (b :: ·) (heq (by omega))⟩

theorem bitLength_div (h : 128 ≤ n) : bitLength n = bitLength (n / 128) + 7 := by
  have hn : n ≠ 0 := by omega
  have hd : n / 128 ≠ 0 := by omega
  rw [bitLength, if_neg hn, bitLength, if_neg hd]
  have hlow := Nat.log2_self_le hd
  have hhigh := @Nat.lt_log2_self (n / 128)
  have hlog : n.log2 = (n / 128).log2 + 7 := by
    rw [Nat.log2_eq_iff hn]
    simp only [Nat.pow_add] at hhigh ⊢
    omega
  omega

theorem bitLength_le (h : n < 128) : bitLength n ≤ 7 := by
  rw [bitLength]
  split
  case isTrue => decide
  case isFalse hn => exact (Nat.log2_lt hn).mpr h

theorem length_encode_eq (n : Nat) : (encode n).length = encodedLength n := by
  induction n using Nat.strongRecOn
  case ind n hi =>
    by_cases h : n < 128
    case pos =>
      have := bitLength_le h
      rw [encode_of_lt h, encodedLength, List.length_singleton]
      omega
    case neg =>
      have hb := bitLength_div (Nat.not_lt.mp h)
      have hl := hi (n / 128) (by omega)
      rw [encodedLength] at hl ⊢
      rw [encode_of_ge (Nat.not_lt.mp h), List.length_cons, hl, hb]
      have : 0 < bitLength (n / 128) := by
        rw [bitLength, if_neg (by omega)]
        exact Nat.succ_pos _
      omega

theorem two_mul_pow_maxGroup : 2 * 128 ^ (maxGroup - 1) = Word64.count := by
  decide

theorem decode_of_hasAt (hn : n ≤ Word64.greatest) (h : HasAt bytes pos (encode n)) :
    decode bytes pos = (.ok n, pos + (encode n).length) := by
  have hlt : n < 2 * 128 ^ (maxGroup - 1) := by
    rw [two_mul_pow_maxGroup]
    exact Nat.lt_of_le_of_lt hn (by decide)
  have hd := decode_of_isGroup (isGroup_encode hlt) h
  rwa [value_encode] at hd

-- What is read is a group in the bytes and its value, which always fits. No group of this value is shorter than what is
-- written for it, and one of the same length is the same.
theorem decode_reads_groups (bytes : Array UInt8) (pos : Nat) :
    ((∃ n stop, decode bytes pos = (.ok n, stop)) ↔
        ∃ k < maxGroup, (∀ i < k, ∃ b, bytes[pos + i]? = some b ∧ 128 ≤ b.toNat) ∧
          ∃ b, bytes[pos + k]? = some b ∧ b.toNat < 128 ∧ (k + 1 = maxGroup → b.toNat ≤ 1)) ∧
      (∀ n stop, decode bytes pos = (.ok n, stop) ↔
        ∃ group, IsGroup maxGroup group ∧ HasAt bytes pos group ∧ n = value group ∧ stop = pos + group.length) ∧
      (∀ group, IsGroup maxGroup group → value group < Word64.count ∧
        encodedLength (value group) ≤ group.length ∧
        (encodedLength (value group) = group.length ↔ group = encode (value group))) ∧
      ∀ n < Word64.count, IsGroup maxGroup (encode n) ∧ value (encode n) = n ∧
        (encode n).length = encodedLength n := by
  refine ⟨?succeeds, fun _ _ => decode_eq_ok_iff, fun group h => ⟨?fits, ?shortest, ?unique⟩,
    fun n hn => ⟨?written, value_encode n, length_encode_eq n⟩⟩
  case succeeds =>
    rw [← exists_group_iff]
    simp only [decode_eq_ok_iff]
    exact ⟨fun ⟨_, _, group, hgroup, hg, _⟩ => ⟨group, hgroup, hg⟩,
      fun ⟨group, hgroup, hg⟩ => ⟨_, _, group, hgroup, hg, rfl, rfl⟩⟩
  case fits => exact two_mul_pow_maxGroup ▸ value_lt h
  case shortest => exact length_encode_eq _ ▸ (length_encode_le h).left
  case unique =>
    rw [← length_encode_eq]
    exact ⟨(length_encode_le h).right, fun he => congrArg List.length he.symm⟩
  case written => exact isGroup_encode (two_mul_pow_maxGroup ▸ hn)

-- A group of three bytes for a number that one byte is enough for.
theorem decode_reads_groups_of_overlong :
    IsGroup maxGroup [0x85, 0x80, 0x00] ∧ HasAt #[0xff, 0x85, 0x80, 0x00, 0x80] 1 [0x85, 0x80, 0x00] ∧
      decode #[0xff, 0x85, 0x80, 0x00, 0x80] 1 = (.ok 5, 4) ∧ encodedLength 5 ≤ 3 ∧ encodedLength 5 ≠ 3 := by
  have hgroup : IsGroup maxGroup [0x85, 0x80, 0x00] :=
    .more (by decide) (.more (by decide) (.last (by decide) (by decide)))
  have hg : HasAt #[0xff, 0x85, 0x80, 0x00, 0x80] 1 [0x85, 0x80, 0x00] := by
    simp [HasAt.cons_iff, HasAt.nil]
  have ⟨_, hreads, hcanonical, _⟩ := decode_reads_groups #[0xff, 0x85, 0x80, 0x00, 0x80] 1
  have hvalue : value [0x85, 0x80, 0x00] = 5 := by decide
  have hencode : encode 5 = [0x05] := encode_of_lt (by decide)
  have ⟨_, hle, hiff⟩ := hcanonical _ hgroup
  rw [hvalue] at hle hiff
  rw [hencode] at hiff
  exact ⟨hgroup, hg, (hreads 5 4).mpr ⟨_, hgroup, hg, hvalue.symm, rfl⟩, hle,
    fun he => absurd (hiff.mp he) (by decide)⟩

end PropertyGraph.Varint
