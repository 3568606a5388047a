import Mathlib.Data.List.DropRight
import Mathlib.Data.Nat.Digits.Defs
import PropertyGraph.Text.Blank
import PropertyGraph.Text.Number

namespace PropertyGraph.Text

-- A text, and what is left of it without the blanks around it.
structure Trims (s t : String) : Prop where
  between : ∃ front back, s.toList = front ++ t.toList ++ back ∧ ∀ c ∈ front ++ back, isBlank c = true
  first : ∀ c ∈ t.toList.head?, isBlank c = false
  last : ∀ c ∈ t.toList.getLast?, isBlank c = false

-- A text, and the texts between its separators.
structure Splits (separator : Char) (s : String) (parts : List String) : Prop where
  nonempty : parts ≠ []
  joined : [separator].intercalate (parts.map String.toList) = s.toList
  apart : ∀ part ∈ parts, separator ∉ part.toList

-- Decimal digits, and the number that they stand for.
structure Digits (digits : List Char) (n : Nat) : Prop where
  nonempty : digits ≠ []
  decimal : ∀ c ∈ digits, c.isDigit = true
  value : n = Nat.ofDigits 10 (digits.reverse.map fun c => c.toNat - '0'.toNat)

-- A natural number of 64 bits. It may have a plus sign.
def Natural (s : String) (n : Nat) : Prop :=
  (∃ digits, (s.toList = digits ∨ s.toList = '+' :: digits) ∧ Digits digits n) ∧ n < 2 ^ 64

-- A whole number. It may have a sign.
def Signed (cs : List Char) (z : Int) : Prop :=
  ∃ digits n, Digits digits n ∧ ((cs = digits ∨ cs = '+' :: digits) ∧ z = n ∨ cs = '-' :: digits ∧ z = -n)

-- A whole number of 64 bits.
def Whole (s : String) (z : Int) : Prop :=
  Signed s.toList z ∧ -2 ^ 63 ≤ z ∧ z < 2 ^ 63

-- Digits with at most one point among or around them, the number that they make without it, and how many of them stand
-- behind it.
inductive Mantissa : List Char → Nat → Nat → Prop
  | whole {digits n} : Digits digits n → Mantissa digits n 0
  | pointed {before behind n} : Digits (before ++ behind) n → Mantissa (before ++ '.' :: behind) n behind.length

-- An exponent of ten, which is zero if none is given.
inductive Exponent : List Char → Int → Prop
  | none : Exponent [] 0
  | given {e cs z} : e = 'e' ∨ e = 'E' → Signed cs z → Exponent (e :: cs) z

-- A decimal stands for the floating-point number next to it. The names of an infinity and of what is no number are
-- written in any case.
inductive Magnitude : List Char → Float → Prop
  | decimal {mantissa exponent n places z} : Mantissa mantissa n places → Exponent exponent z →
    Magnitude (mantissa ++ exponent) (nearest n (z - places))
  | infinity {cs} : cs.map Char.toLower = "inf".toList ∨ cs.map Char.toLower = "infinity".toList →
    Magnitude cs positiveInfinity
  | notANumber {cs} : cs.map Char.toLower = "nan".toList → Magnitude cs notANumber

-- A floating-point number. It may have a sign.
inductive Floating (s : String) : Float → Prop
  | positive {cs x} : s.toList = cs ∨ s.toList = '+' :: cs → Magnitude cs x → Floating s x
  | negative {cs x} : s.toList = '-' :: cs → Magnitude cs x → Floating s (-x)

section Trims

variable {s t : String} {p : Char → Bool} {cs : List Char}

theorem dropWhile_of_head (h : ∀ c ∈ cs.head?, p c = false) : cs.dropWhile p = cs := by
  cases cs
  case nil => rfl
  case cons c cs => exact List.dropWhile_cons_of_neg (by simp [h c rfl])

theorem rdropWhile_of_getLast (h : ∀ c ∈ cs.getLast?, p c = false) : cs.rdropWhile p = cs := by
  rw [List.rdropWhile, dropWhile_of_head (by simpa using h), List.reverse_reverse]

theorem not_of_head?_dropWhile {c : Char} (h : c ∈ (cs.dropWhile p).head?) : p c = false := by
  have hn := List.head?_dropWhile_not p cs
  rwa [h] at hn

theorem not_of_getLast?_rdropWhile {c : Char} (h : c ∈ (cs.rdropWhile p).getLast?) : p c = false := by
  rw [List.rdropWhile, List.getLast?_reverse] at h
  exact not_of_head?_dropWhile h

theorem toList_trim (s : String) : (trim s).toList = (s.toList.dropWhile isBlank).rdropWhile isBlank :=
  String.toList_ofList

theorem trims_iff : Trims s t ↔ trim s = t := by
  constructor
  case mp =>
    intro ⟨⟨front, back, hs, hblank⟩, hfirst, hlast⟩
    have ⟨hfront, hback⟩ := List.forall_mem_append.mp hblank
    rw [← String.toList_inj, toList_trim, hs, List.append_assoc, List.dropWhile_append_of_pos hfront]
    cases ht : t.toList
    case nil => simp [List.dropWhile_eq_nil_iff.mpr hback]
    case cons c cs =>
      rw [ht] at hfirst hlast
      have hback : (c :: cs ++ back).reverse.dropWhile isBlank = (c :: cs).reverse.dropWhile isBlank := by
        rw [List.reverse_append, List.dropWhile_append_of_pos (by simpa using hback)]
      rw [dropWhile_of_head (by simpa using hfirst), List.rdropWhile, hback]
      exact rdropWhile_of_getLast hlast
  case mpr =>
    rintro rfl
    refine ⟨⟨s.toList.takeWhile isBlank, (s.toList.dropWhile isBlank).rtakeWhile isBlank, ?text, ?blank⟩,
      fun c hc => ?first, fun c hc => ?last⟩
    case text =>
      rw [toList_trim, List.append_assoc, List.rdropWhile_append_rtakeWhile, List.takeWhile_append_dropWhile]
    case blank =>
      exact List.forall_mem_append.mpr ⟨fun _ => List.mem_takeWhile_imp, fun _ => List.mem_rtakeWhile_imp⟩
    case first =>
      rw [toList_trim] at hc
      have ⟨more, hp⟩ := List.rdropWhile_prefix isBlank (l := s.toList.dropWhile isBlank)
      have hhead : (s.toList.dropWhile isBlank).head? = some c := by
        rw [← hp, List.head?_append, hc, Option.some_or]
      exact not_of_head?_dropWhile hhead
    case last => exact not_of_getLast?_rdropWhile (toList_trim s ▸ hc)

end Trims

section Splits

variable {separator : Char} {s : String} {parts : List String}

end Splits

section Numbers

variable {s : String} {digits cs rest : List Char} {n : Nat} {z : Int}

end Numbers

section Floats

variable {s : String} {cs mantissa rest : List Char} {n places : Nat} {z : Int} {x : Float}

end Floats

end PropertyGraph.Text
