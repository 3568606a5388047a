import Mathlib.Data.List.Basic
import PropertyGraph.Node.Numbering

namespace PropertyGraph.Numbering

variable {n : Numbering} {id i : Nat}

theorem lt_size_of_id? (h : n.id? i = some id) : i < n.size :=
  (Array.getElem?_eq_some_iff.mp h).1

theorem exists_id? (h : i < n.size) : ∃ id, n.id? i = some id :=
  ⟨_, Array.getElem?_eq_getElem h⟩

theorem id?_injective {j : Nat} (hi : n.id? i = some id) (hj : n.id? j = some id) : i = j := by
  have hi := number?_eq_some.mpr hi
  have hj := number?_eq_some.mpr hj
  exact Option.some.inj (hi.symm.trans hj)

-- The number of an id is its place among all ids.
theorem number?_eq_idxOf? (n : Numbering) (id : Nat) : n.number? id = n.ids.toList.idxOf? id := by
  cases hi : n.ids.toList.idxOf? id
  case none =>
    cases hn : n.number? id
    case none => rfl
    case some i =>
      have hm : id ∈ n.ids.toList := List.mem_of_getElem? ((Array.getElem?_toList ..).trans (number?_eq_some.mp hn))
      exact absurd hm (List.idxOf?_eq_none_iff.mp hi)
  case some i =>
    have ⟨hlt, he, _⟩ := List.idxOf?_eq_some_iff.mp hi
    exact number?_eq_some.mpr (by rw [id?, ← Array.getElem?_toList, List.getElem?_eq_getElem hlt, he])

theorem add_of_fresh (h : n.number? id = none) : n.add id = (n.size, n.push id h) := by
  rw [add]
  split <;> simp_all

theorem id?_push (h : n.number? id = none) (j : Nat) :
    (n.push id h).id? j = if j = n.size then some id else n.id? j :=
  Array.getElem?_push

theorem size_push (h : n.number? id = none) : (n.push id h).size = n.size + 1 :=
  Array.size_push id

end PropertyGraph.Numbering
