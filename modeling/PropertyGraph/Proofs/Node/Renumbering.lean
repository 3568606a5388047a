import PropertyGraph.Proofs.Chunk.Tally
import PropertyGraph.Proofs.Node.Calls
import PropertyGraph.Proofs.Node.Subset

namespace PropertyGraph

variable {m : IdMap} {sub : Subset} {ls : List Label} {members : NodeSet} {size v root x : Nat}

namespace Subset

-- The new ids and the root ids of the nodes that have one of the labels lead to each other, and so do the new ids
-- and the external ids of these nodes.
structure Renumbers (sub : Subset) (m : IdMap) (ls : List Label) : Prop where
  dense : ∀ v, (∃ root, sub.toRoot v = .ok root) ↔ v < sub.nodeCount
  ascending : ∀ v w a b, sub.toRoot v = .ok a → sub.toRoot w = .ok b → (v < w ↔ a < b)
  onto : ∀ root, (∃ v, sub.toRoot v = .ok root) ↔ root < m.nodeCount ∧ ∃ l ∈ ls, l ∈ m.labelsOf root
  inverse : ∀ root v, sub.toFiltered root = some v ↔ sub.toRoot v = .ok root
  containsRoot : ∀ root, sub.containsRoot root = true ↔ ∃ v, sub.toFiltered root = some v
  external : ∀ v < sub.nodeCount, ∃ x, sub.toExternal v = .ok x
  externalInverse : ∀ x v, sub.toInternal? x = some v ↔ sub.toExternal v = .ok x
  externalOnto : ∀ x, (∃ v, sub.toInternal? x = some v) ↔
    ∃ root, m.toInternal? x = some root ∧ ∃ l ∈ ls, l ∈ m.labelsOf root

theorem mem_roots_iff : root ∈ sub.roots.toList ↔ ∃ v, sub.toRoot v = .ok root := by
  simp only [toRoot_eq_ok, List.mem_iff_getElem?]

theorem toExternal_eq_ok :
    sub.toExternal v = .ok x ↔ ∃ root, sub.toRoot v = .ok root ∧ sub.root.toExternal root = .ok x :=
  Outcome.bind_eq_ok

theorem toInternal?_eq_some :
    sub.toInternal? x = some v ↔ ∃ root, sub.root.toInternal? x = some root ∧ sub.toFiltered root = some v :=
  Option.bind_eq_some_iff

theorem Selects.renumbers (h : sub.Selects m (m.carries ls)) : sub.Renumbers m ls := by
  have hlabels : ∀ root, m.carries ls root = true ↔ ∃ l ∈ ls, l ∈ m.labelsOf root := fun root => by
    simp only [IdMap.carries_iff, IdMap.mem_labelsOf]
  have honto : ∀ root, (∃ v, sub.toRoot v = .ok root) ↔ root < m.nodeCount ∧ ∃ l ∈ ls, l ∈ m.labelsOf root :=
    fun root => by rw [← mem_roots_iff, h.mem_iff, hlabels]
  have hinverse : ∀ root v, sub.toFiltered root = some v ↔ sub.toRoot v = .ok root := fun root v =>
    h.toFiltered_eq_some.trans toRoot_eq_ok.symm
  refine ⟨fun v => ?dense, fun v w a b ha hb => ?ascending, honto, hinverse, fun root => ?containsRoot,
    fun v hv => ?external, fun x v => ?externalInverse, fun x => ?externalOnto⟩
  case dense =>
    constructor
    case mp => exact fun ⟨_, hr⟩ => (List.getElem?_eq_some_iff.mp (toRoot_eq_ok.mp hr)).1
    case mpr =>
      intro hv
      have ⟨root, hr, _⟩ := h.exists_root hv
      exact ⟨root, toRoot_eq_ok.mpr hr⟩
  case ascending => exact (lt_iff_of_ascending h.ascending (toRoot_eq_ok.mp ha) (toRoot_eq_ok.mp hb)).symm
  case containsRoot =>
    simp only [hinverse, ← mem_roots_iff, h.mem_iff, h.containsRoot_eq]
    exact ⟨fun hc => ⟨h.inside root hc, hc⟩, And.right⟩
  case external =>
    have ⟨root, hr, hlt⟩ := h.exists_root hv
    have ⟨x, hx⟩ := Numbering.exists_id? hlt
    exact ⟨x, toExternal_eq_ok.mpr ⟨root, toRoot_eq_ok.mpr hr, h.root ▸ IdMap.toExternal_eq_ok.mpr hx⟩⟩
  case externalInverse =>
    rw [toInternal?_eq_some, toExternal_eq_ok]
    simp only [hinverse, IdMap.toInternal?_eq_some, IdMap.toExternal_eq_ok, and_comm]
  case externalOnto =>
    simp only [toInternal?_eq_some, hinverse, h.root]
    constructor
    case mp =>
      intro ⟨v, root, hx, hv⟩
      exact ⟨root, hx, ((honto root).mp ⟨v, hv⟩).right⟩
    case mpr =>
      intro ⟨root, hx, hl⟩
      have hlt := Numbering.lt_size_of_id? (IdMap.toInternal?_eq_some.mp hx)
      have ⟨v, hv⟩ := (honto root).mpr ⟨hlt, hl⟩
      exact ⟨v, root, hx, hv⟩

-- If all labels are known, the subset can be made, and it is the same one whatever the number of workers, the size of
-- the chunks and the turns that the workers take.
theorem ofLabels_renumbers {nodes : List (Nat × List Label)} (hm : IdMap.ofNodes nodes = .ok m)
    (hl : ∀ l ∈ ls, m.hasLabel l = true) :
    ∃ members sub, m.unionOf ls = .ok members ∧ sub.Renumbers m ls ∧
      ∀ concurrency size, size ≤ Word64.greatest → ofLabels m ls concurrency size = .ok sub ∧
        ∀ es, .raise ∉ es →
          (∃ es', .raise ∉ es' ∧ (search m members concurrency size (es ++ es')).isComplete = true) ∧
          ((search m members concurrency size es).isComplete = true →
            found m members concurrency size es = .ok sub) := by
  have hs := IdMap.ofNodes_sound hm
  have ⟨members, hu⟩ := IdMap.unionOf_of_known fun l h => NameMap.contains_iff.mp (hl l h)
  refine ⟨members, ordered m members, hu, (ordered_selects hs hu).renumbers, fun concurrency size hsize =>
    ⟨ofLabels_eq_ordered hs hsize concurrency hu, fun es he => ⟨?ends, found_eq_ordered hs hsize he⟩⟩⟩
  have ⟨hn, hlasts⟩ := lasts_of_sound hs hsize concurrency
  have hsound := (Pass.Sound.start (work members) Fault.isViolation [] () false hn hlasts).follow es
  have ⟨es', he', hc⟩ := Pass.exists_follow_isComplete hsound
  exact ⟨es', he', by rwa [search, Pass.follow_append]⟩

theorem ofLabels_renumbers_of_repeats :
    let nodes : List (Nat × List Label) := [(10, [⟨"A"⟩]), (20, [⟨"B"⟩]), (30, [⟨"B"⟩, ⟨"A"⟩]), (40, [])]
    let ls : List Label := [⟨"A"⟩, ⟨"A"⟩]
    ∃ m sub v, IdMap.ofNodes nodes = .ok m ∧ (∀ l ∈ ls, m.hasLabel l = true) ∧
      sub.Renumbers m ls ∧ ofLabels m ls 3 1 = .ok sub ∧ ofLabels m ls 1 Word64.greatest = .ok sub ∧
      sub.toFiltered 2 = some v ∧ sub.toRoot v = .ok 2 := by
  intro nodes ls
  have ⟨m, hm, hcount, hlabels⟩ := @IdMap.exists_ofNodes_labeled nodes (by decide) (by decide)
  have hmember : (m.members ⟨"A"⟩).contains 2 = true := hlabels 2 _ rfl _ (by decide)
  have hknown : ∀ l ∈ ls, m.hasLabel l = true := fun l hl => by
    have hl : l = ⟨"A"⟩ := by simpa [ls] using hl
    exact NameMap.contains_iff.mpr (NameMap.mem_keys_iff.mp (hl ▸ IdMap.known_of_contains hmember))
  have ⟨_, sub, _, hr, hsub⟩ := ofLabels_renumbers hm hknown
  have ⟨v, hv⟩ := (hr.onto 2).mpr ⟨hcount ▸ by decide, ⟨"A"⟩, List.mem_cons_self, IdMap.mem_labelsOf.mpr hmember⟩
  exact ⟨m, sub, v, hm, hknown, hr, (hsub 3 1 (by decide)).left, (hsub 1 _ (Nat.le_refl _)).left,
    (hr.inverse 2 v).mpr hv, hv⟩

end Subset

end PropertyGraph
