import Mathlib.Data.List.Sort
import PropertyGraph.Node.NodeSet

namespace PropertyGraph.NodeSet

variable {s : NodeSet} {n : Nat}

theorem toList_eq_filter (h : ∀ v, s.contains v = true → v < n) :
    s.toList = (List.range n).filter s.contains := by
  refine List.Pairwise.eq_of_mem_iff (List.pairwise_lt_range.filter _) (List.pairwise_lt_range.filter _) fun v => ?_
  rw [mem_toList, List.mem_filter, List.mem_range]
  exact ⟨fun hv => ⟨h v hv, hv⟩, fun hv => hv.right⟩

theorem size_eq_length (s : NodeSet) : s.size = s.toList.length := by
  have hf : s.flags.toList = (List.range s.flags.size).map s.contains := by
    apply List.ext_getElem
    case hl => simp
    case h => exact fun i hi _ => by simp [contains, show i < s.flags.size by simpa using hi]
  rw [size, ← Array.count_toList, hf, List.count, List.countP_map, List.countP_eq_length_filter, toList]
  congr 2
  funext v
  simp

-- The members up to an id.
def front (s : NodeSet) (v : Nat) : NodeSet where
  flags := s.flags.take (v + 1)
  bounded := Nat.le_trans (by simp) s.bounded

theorem rank_eq_length (s : NodeSet) (v : Nat) : s.rank v = ((List.range (v + 1)).filter s.contains).length := by
  have hc : ∀ w, (s.front v).contains w = (decide (w < v + 1) && s.contains w) := fun w => by
    simp only [front, contains, Array.take, Array.getElem?_extract]
    grind
  have hbelow : ∀ w, (s.front v).contains w = true → w < v + 1 := fun w hw =>
    of_decide_eq_true (Bool.and_eq_true_iff.mp ((hc w).symm.trans hw)).left
  have hs := size_eq_length (s.front v)
  rw [toList_eq_filter hbelow] at hs
  refine hs.trans (congrArg List.length ?_)
  refine List.filter_congr fun w hw => ?_
  rw [hc, decide_eq_true (List.mem_range.mp hw), Bool.true_and]

theorem size_eq_iff (h : ∀ v, s.contains v = true → v < n) :
    s.size = n ↔ ∀ v < n, s.contains v = true := by
  have hl := List.length_filter_eq_length_iff (p := s.contains) (l := List.range n)
  rw [List.length_range] at hl
  rw [size_eq_length, toList_eq_filter h, hl]
  simp

theorem contains_of_isEmpty (h : s.isEmpty = true) (v : Nat) : s.contains v = false := by
  have hf : true ∉ s.flags := by simpa [isEmpty] using h
  cases hc : s.contains v
  case false => rfl
  case true =>
    have hv := lt_size_of_contains hc
    simp only [contains, Array.getElem?_eq_getElem hv, Option.getD_some] at hc
    exact absurd (hc ▸ Array.getElem_mem hv) hf

theorem exists_contains (h : ¬s.isEmpty = true) : ∃ v, s.contains v = true := by
  have ⟨v, hv, ht⟩ := Array.mem_iff_getElem.mp (show true ∈ s.flags by simpa [isEmpty] using h)
  exact ⟨v, by rw [contains, Array.getElem?_eq_getElem hv, ht, Option.getD_some]⟩

end PropertyGraph.NodeSet
