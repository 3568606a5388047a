namespace PropertyGraph

-- What is pushed first is popped first.
structure Queue (α : Type) where
  front : List α := []
  -- What was pushed since `front` was filled, the last first.
  back : List α := []
  size : Nat := 0
  size_eq : size = front.length + back.length := by rfl

namespace Queue

variable {α : Type}

def empty : Queue α := {}

instance : EmptyCollection (Queue α) := ⟨empty⟩

instance : Inhabited (Queue α) := ⟨∅⟩

def toList (q : Queue α) : List α := q.front ++ q.back.reverse

def push (q : Queue α) (a : α) : Queue α where
  front := q.front
  back := a :: q.back
  size := q.size + 1
  size_eq := by simp [q.size_eq, Nat.add_assoc]

def pop? (q : Queue α) : Option (α × Queue α) :=
  match h : q.front, g : q.back.reverse with
  | a :: front, _ => some (a, ⟨front, q.back, q.size - 1, by simp [q.size_eq, h]⟩)
  | [], a :: front =>
    have : q.back.length = front.length + 1 := by simpa using congrArg List.length g
    some (a, ⟨front, [], q.size - 1, by simp [q.size_eq, h, this]⟩)
  | [], [] => none

@[simp]
theorem toList_empty : (∅ : Queue α).toList = [] := rfl

@[simp]
theorem toList_push (q : Queue α) (a : α) : (q.push a).toList = q.toList ++ [a] := by
  simp [push, toList]

theorem pop?_eq_none {q : Queue α} : q.pop? = none ↔ q.toList = [] := by
  unfold pop? toList
  split <;> simp_all

theorem toList_of_pop? {q r : Queue α} {a : α} (h : q.pop? = some (a, r)) :
    q.toList = a :: r.toList := by
  unfold pop? at h
  unfold toList
  split at h <;> simp_all
  all_goals obtain ⟨rfl, rfl⟩ := h; simp_all

end Queue

end PropertyGraph
