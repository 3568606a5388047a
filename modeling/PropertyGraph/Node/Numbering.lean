import Std.Data.HashMap

namespace PropertyGraph

-- A numbering gives the numbers 0, 1, 2, … to distinct ids, and finds the id of a number and the number of an id.
structure Numbering where
  ids : Array Nat
  index : Std.HashMap Nat Nat
  index_eq_some : ∀ id i : Nat, index[id]? = some i ↔ ids[i]? = some id

namespace Numbering

def empty : Numbering := ⟨#[], ∅, by simp⟩

instance : EmptyCollection Numbering := ⟨empty⟩

instance : Inhabited Numbering := ⟨∅⟩

def size (n : Numbering) : Nat := n.ids.size

def id? (n : Numbering) (number : Nat) : Option Nat := n.ids[number]?

def number? (n : Numbering) (id : Nat) : Option Nat := n.index[id]?

theorem number?_eq_some {n : Numbering} {id i : Nat} : n.number? id = some i ↔ n.id? i = some id :=
  n.index_eq_some id i

-- Gives the next number to an id that has none.
def push (n : Numbering) (id : Nat) (fresh : n.number? id = none) : Numbering where
  ids := n.ids.push id
  index := n.index.insert id n.ids.size
  index_eq_some := by
    intro x i
    have known := n.index_eq_some
    simp only [number?] at fresh
    grind

-- The number of an id, which is the next one if it had none.
def add (n : Numbering) (id : Nat) : Nat × Numbering :=
  match h : n.number? id with
  | some i => (i, n)
  | none => (n.size, n.push id h)

end Numbering

end PropertyGraph
