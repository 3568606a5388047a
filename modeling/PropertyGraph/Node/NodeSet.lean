import PropertyGraph.Word32

namespace PropertyGraph

-- A set of node ids, as one flag for each id up to the greatest member. An id goes in and out by its lowest 32 bits, so
-- every member has 32 bits.
structure NodeSet where
  flags : Array Bool
  bounded : flags.size ≤ Word32.count

namespace NodeSet

def empty : NodeSet := ⟨#[], Nat.zero_le _⟩

instance : EmptyCollection NodeSet := ⟨empty⟩

instance : Inhabited NodeSet := ⟨∅⟩

-- The ids up to `v`.
def upTo (v : Nat) : NodeSet where
  flags := Array.replicate (Word32.truncate v + 1) true
  bounded := Array.size_replicate ▸ Word32.truncate_lt v

def contains (s : NodeSet) (v : Nat) : Bool := s.flags[v]?.getD false

-- Adds an id of 32 bits.
def add (s : NodeSet) (v : Nat) (h : v < Word32.count) : NodeSet :=
  if hs : v < s.flags.size then ⟨s.flags.setIfInBounds v true, by simpa using s.bounded⟩
  else ⟨(s.flags ++ Array.replicate (v - s.flags.size) false).push true, by simp; omega⟩

def insert (s : NodeSet) (v : Nat) : NodeSet := s.add (Word32.truncate v) (Word32.truncate_lt v)

def erase (s : NodeSet) (v : Nat) : NodeSet :=
  ⟨s.flags.setIfInBounds (Word32.truncate v) false, by simpa using s.bounded⟩

def union (s t : NodeSet) : NodeSet where
  flags := Array.ofFn fun v : Fin (max s.flags.size t.flags.size) => s.contains v || t.contains v
  bounded := by simpa using Nat.max_le.mpr ⟨s.bounded, t.bounded⟩

instance : Union NodeSet := ⟨union⟩

-- The members, ascending.
def toList (s : NodeSet) : List Nat := (List.range s.flags.size).filter s.contains

def ofList (vs : List Nat) : NodeSet := vs.foldl insert ∅

def size (s : NodeSet) : Nat := s.flags.count true

-- How many members there are up to an id, which is counted if it is one.
def rank (s : NodeSet) (v : Nat) : Nat := (s.flags.take (v + 1)).count true

def isEmpty (s : NodeSet) : Bool := !s.flags.contains true

def isDisjoint (s t : NodeSet) : Bool := !s.toList.any t.contains

@[simp]
theorem contains_empty (v : Nat) : (∅ : NodeSet).contains v = false := rfl

@[simp]
theorem contains_upTo (v w : Nat) : (upTo v).contains w = decide (w ≤ Word32.truncate v) := by
  by_cases h : w < Word32.truncate v + 1 <;> simp [upTo, contains, h] <;> omega

theorem contains_add (s : NodeSet) {v : Nat} (hv : v < Word32.count) (w : Nat) :
    (s.add v hv).contains w = (decide (w = v) || s.contains w) := by
  unfold add contains
  split
  · next h =>
    by_cases e : w = v
    · subst e; simp [h]
    · simp [Array.getElem?_setIfInBounds_ne (Ne.symm e), e]
  · next h =>
    simp only [Array.getElem?_push, Array.getElem?_append, Array.getElem?_replicate,
      Array.size_append, Array.size_replicate]
    by_cases e : w = v
    · have : v = s.flags.size + (v - s.flags.size) := by omega
      simp [e, ← this]
    · have : w ≠ s.flags.size + (v - s.flags.size) := by omega
      by_cases hw : w < s.flags.size
      · simp [this, e, hw]
      · simp [this, e, hw]
        split <;> rfl

theorem contains_insert (s : NodeSet) (v w : Nat) :
    (s.insert v).contains w = (decide (w = Word32.truncate v) || s.contains w) :=
  contains_add s _ w

theorem contains_erase (s : NodeSet) (v w : Nat) :
    (s.erase v).contains w = (decide (w ≠ Word32.truncate v) && s.contains w) := by
  unfold erase contains
  by_cases e : w = Word32.truncate v
  · subst e
    by_cases h : Word32.truncate v < s.flags.size <;> simp [h]
  · simp [Array.getElem?_setIfInBounds_ne (Ne.symm e), e]

theorem lt_size_of_contains {s : NodeSet} {v : Nat} (h : s.contains v = true) :
    v < s.flags.size := by
  unfold contains at h
  cases g : s.flags[v]? with
  | none => simp [g] at h
  | some b => exact (Array.getElem?_eq_some_iff.1 g).1

theorem contains_union (s t : NodeSet) (v : Nat) :
    (s ∪ t).contains v = (s.contains v || t.contains v) := by
  show ((Array.ofFn _)[v]?).getD false = _
  rw [Array.getElem?_ofFn]
  split
  · rfl
  · next h =>
    have hs : s.contains v = false := Bool.eq_false_iff.2 fun hc => h (by
      have := lt_size_of_contains hc; omega)
    have ht : t.contains v = false := Bool.eq_false_iff.2 fun hc => h (by
      have := lt_size_of_contains hc; omega)
    simp [hs, ht]

@[simp]
theorem mem_toList {s : NodeSet} {v : Nat} : v ∈ s.toList ↔ s.contains v = true := by
  simp only [toList, List.mem_filter, List.mem_range, and_iff_right_iff_imp]
  exact lt_size_of_contains

theorem not_isDisjoint_iff {s t : NodeSet} :
    (!s.isDisjoint t) = true ↔ ∃ v, s.contains v = true ∧ t.contains v = true := by
  simp [isDisjoint]

-- The members of a list are there by their lowest 32 bits.
theorem contains_ofList {vs : List Nat} {w : Nat} :
    (ofList vs).contains w = true ↔ ∃ v ∈ vs, Word32.truncate v = w := by
  have hfoldl (s : NodeSet) :
      (vs.foldl insert s).contains w = true ↔ (∃ v ∈ vs, Word32.truncate v = w) ∨ s.contains w = true := by
    induction vs generalizing s
    case nil => simp
    case cons v vs hi =>
      rw [List.foldl_cons, hi, contains_insert]
      simp only [Bool.or_eq_true, decide_eq_true_eq, List.mem_cons, exists_eq_or_imp, eq_comm (a := w)]
      rw [or_left_comm, or_assoc]
  rw [ofList, hfoldl]
  simp

end NodeSet

end PropertyGraph
