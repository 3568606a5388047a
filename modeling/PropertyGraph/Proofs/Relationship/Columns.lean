import PropertyGraph.Proofs.NameMap
import PropertyGraph.Proofs.Relationship.Assembly
import PropertyGraph.Relationship.Batch

namespace PropertyGraph

open Relationships

-- Column `k` has this key and default value, and no later column has the key.
def Keeps (columns : List (String × Float)) (k : Nat) (key : String) (default : Float) : Prop :=
  columns[k]? = some (key, default) ∧ ∀ j > k, columns[j]?.map (·.1) ≠ some key

namespace Relationships

-- What the relationships of some nodes look like from outside.
structure Tells (r : Relationships) (columns : List (String × Float)) (nodes : List (List Entry)) :
    Prop where
  nodeCount : r.topology.nodeCount = nodes.length
  relationshipCount : r.topology.relationshipCount = (nodes.map (·.length)).sum
  points : ∀ v entries, nodes[v]? = some entries →
    ∃ offset, r.topology.offset v = .ok offset ∧ Segment.Assembly.Points r.topology.arena offset entries
  kept : ∀ k key default, Keeps columns k key default →
    ∃ runs, r.properties.find? key = some runs ∧ runs.default = default ∧
      ∀ v entries, nodes[v]? = some entries →
        runs.valuesOf v = .ok (entries.map (Entry.valueAt k)).toArray
  others : ∀ key, key ∉ columns.map (·.1) → r.properties.find? key = none
  fit : ∀ k key default, Keeps columns k key default →
    ∀ runs, r.properties.find? key = some runs →
      runs.nodeCount = nodes.length ∧ runs.elementCount = (nodes.map (·.length)).sum

end Relationships

-- The last column with a key is kept.
theorem exists_keeps {columns : List (String × Float)} {key : String} (h : key ∈ columns.map (·.1)) :
    ∃ k default, Keeps columns k key default := by
  induction columns
  case nil => simp at h
  case cons column columns hi =>
    by_cases hm : key ∈ columns.map (·.1)
    case pos =>
      have ⟨k, default, hk, hl⟩ := hi hm
      refine ⟨k + 1, default, by simpa using hk, fun j hj => ?_⟩
      cases j
      case zero => omega
      case succ j => simpa using hl j (by omega)
    case neg =>
      have hc : column = (key, column.2) := by
        cases List.mem_cons.mp h
        case inl hk => rw [hk]
        case inr hk => exact absurd hk hm
      refine ⟨0, column.2, congrArg some hc, fun j hj => ?_⟩
      cases j
      case zero => omega
      case succ j =>
        rw [List.getElem?_cons_succ, ← List.getElem?_map]
        exact fun hk => hm (List.mem_of_getElem? hk)

namespace Batch

variable {b : Batch} {starts : Array Nat} {nodes : List (List Entry)}

theorem foldlM_addColumn {xs : List ((String × Float) × Array Float)} (m : NameMap String ValueRuns)
    (h : ∀ x ∈ xs, ValueRuns.ofLayout starts x.2 x.1.2 = .ok ⟨starts, x.2, x.1.2⟩) :
    xs.foldlM (addColumn starts) m = .ok
      ((xs.map fun x => (x.1.1, (⟨starts, x.2, x.1.2⟩ : ValueRuns))).foldl
        (fun m e => m.insert e.1 e.2) m) := by
  induction xs generalizing m
  case nil => rfl
  case cons x xs hi =>
    have ⟨hx, hxs⟩ := List.forall_mem_cons.mp h
    rw [List.foldlM_cons, addColumn, hx]
    exact hi _ hxs

theorem columnsOf_eq {width : Nat} (h : ∀ entries ∈ nodes, ∀ e ∈ entries, e.values.length = width) :
    columnsOf width nodes =
      (List.range width).map fun k => (nodes.map (·.map (Entry.valueAt k))).flatten.toArray := by
  refine List.map_congr_left fun k hk => ?_
  have hf : ∀ e ∈ nodes.flatten, e.values.length = width := by
    intro e he
    have ⟨entries, hm, hme⟩ := List.mem_flatten.mp he
    exact h entries hm e hme
  rw [filterMap_values hf (List.mem_range.mp hk), List.map_flatten]

theorem zip_map_range {α β : Type} (xs : List α) (f : Nat → β) :
    xs.zip ((List.range xs.length).map f) = xs.mapIdx fun k x => (x, f k) := by
  apply List.ext_getElem <;> simp

theorem foldlM_addColumn_laidOut {columns : List (String × Float)} {lists : Nat → List (List Float)}
    (hs : ∀ k, starts.toList = ValueRuns.startsOf ((lists k).map (·.length))) :
    ∃ properties : NameMap String ValueRuns,
      (columns.zip ((List.range columns.length).map fun k => (lists k).flatten.toArray)).foldlM
        (addColumn starts) ∅ = .ok properties ∧
      (∀ k key default, Keeps columns k key default →
        properties.find? key = some ⟨starts, (lists k).flatten.toArray, default⟩) ∧
      ∀ key, key ∉ columns.map (·.1) → properties.find? key = none := by
  rw [zip_map_range]
  refine ⟨_, foldlM_addColumn _ ?laidOut, ?kept, ?others⟩
  case laidOut =>
    intro x hx
    have ⟨k, _, hk⟩ := List.mem_mapIdx.mp hx
    rw [← hk]
    exact ValueRuns.ofLayout_flatten (hs k) _
  case kept =>
    intro k key default ⟨hk, hl⟩
    refine @NameMap.find?_foldl_insert_of_last _ _ _ key _ _ ∅ k (by simp [hk]) fun j hj => ?_
    simpa using hl j hj
  case others =>
    intro key hkey
    refine (NameMap.find?_foldl_insert_of_forall_ne _ fun e he hek => hkey ?_).trans rfl
    have ⟨x, hx, hxe⟩ := List.mem_map.mp he
    have ⟨k, hk, hkx⟩ := List.mem_mapIdx.mp hx
    exact List.mem_map.mpr ⟨columns[k], List.getElem_mem hk, by rw [← hek, ← hxe, ← hkx]⟩

theorem ofSegments_tells {segments : List Segment}
    (hw : (Segment.assemble b.columns.length segments).Stores b.columns.length nodes)
    (h : ∀ entries ∈ nodes, ∀ e ∈ entries, e.values.length = b.columns.length) :
    ∃ r, b.ofSegments segments = .ok r ∧ r.topology.orientation = b.layout.orientation ∧
      r.Tells b.columns nodes := by
  have hs : ∀ k, (Segment.assemble b.columns.length segments).starts.toList =
      ValueRuns.startsOf ((nodes.map (·.map (Entry.valueAt k))).map (·.length)) := by
    intro k
    rw [hw.indexes.starts, List.map_map]
    simp [Function.comp_def]
  have ⟨properties, hp, hkept, hothers⟩ := @foldlM_addColumn_laidOut _ b.columns _ hs
  have hlen := hw.indexes.offsets.length_eq
  refine ⟨_, by rw [ofSegments, hw.columns, columnsOf_eq h, hp]; rfl, rfl, ?tells⟩
  refine ⟨?nodeCount, ?relationshipCount, ?points, ?kept, ?others, ?fit⟩
  case nodeCount => simpa [Topology.nodeCount] using hlen
  case relationshipCount => exact hw.indexes.count
  case points =>
    intro v entries hv
    have ⟨hlt, hv⟩ := List.getElem?_eq_some_iff.mp hv
    have hpt := hw.indexes.offsets.get (by omega) hlt
    rw [List.get_eq_getElem, List.get_eq_getElem, hv] at hpt
    refine ⟨_, ?_, hpt⟩
    rw [Topology.offset, ← Array.getElem?_toList, List.getElem?_eq_getElem (hlen.symm ▸ hlt)]
  case kept =>
    intro k key default hk
    refine ⟨_, hkept k key default hk, rfl, fun v entries hv => ?_⟩
    have ⟨hlt, hv⟩ := List.getElem?_eq_some_iff.mp hv
    rw [ValueRuns.valuesOf_flatten (hs k) (by simpa using hlt)]
    simp [hv]
  case others => exact hothers
  case fit =>
    intro k key default hk runs hr
    have hr : _ = runs := Option.some.inj ((hkept k key default hk).symm.trans hr)
    have hn := congrArg List.length (hs k)
    subst hr
    constructor
    case left => simp_all [ValueRuns.nodeCount, ValueRuns.startsOf]
    case right => simp [ValueRuns.elementCount, List.length_flatten, Function.comp_def]

end Batch

end PropertyGraph
