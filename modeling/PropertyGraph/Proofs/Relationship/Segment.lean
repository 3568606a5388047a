import Mathlib.Data.List.Forall2
import PropertyGraph.Proofs.Relationship.Entries
import PropertyGraph.Proofs.Run.Writing

namespace PropertyGraph.Relationships

-- The values of each column over the entries of some nodes.
def columnsOf (width : Nat) (nodes : List (List Entry)) : List (Array Float) :=
  (List.range width).map fun k => (nodes.flatten.filterMap (·.values[k]?)).toArray

theorem columnsOf_nil (width : Nat) : columnsOf width [] = List.replicate width #[] := by
  simp [columnsOf]

theorem columnsOf_append (width : Nat) (nodes nodes' : List (List Entry)) :
    columnsOf width (nodes ++ nodes') =
      List.zipWith (· ++ ·) (columnsOf width nodes) (columnsOf width nodes') := by
  apply List.ext_getElem?
  intro k
  by_cases hk : k < width <;> simp [columnsOf, hk]

namespace Segment

-- What a segment tells of a node: how long its run is and, unless it is empty, where it starts.
def Places (bytes : Array UInt8) (run : Option Nat × Nat) (entries : List Entry) : Prop :=
  run.2 = entries.length ∧ IsRun (entries.map (·.target)) ∧
  match run.1 with
  | none => entries = []
  | some start => entries ≠ [] ∧ HasAt bytes start (Arena.runBytes (entries.map (·.target)))

structure Stores (s : Segment) (width : Nat) (nodes : List (List Entry)) : Prop where
  runs : List.Forall₂ (Places s.bytes) s.runs nodes
  columns : s.columns = columnsOf width nodes

-- The segment that is made when no more nodes follow.
def close (s : Segment) : Segment :=
  { s with runs := s.runs.reverse }

variable {s s' : Segment} {width : Nat} {nodes : List (List Entry)} {entries : List Entry}
  {run : Option Nat × Nat} {bytes : Array UInt8} {a : Aggregation} {rowsOf : Nat → List Row} {c : Chunk}

theorem Places.extend (more : List UInt8) (h : Places bytes run entries) :
    Places (bytes ++ more) run entries := by
  have ⟨start?, n⟩ := run
  have ⟨hn, hr, hs⟩ := h
  refine ⟨hn, hr, ?_⟩
  cases start?
  case none => exact hs
  case some => exact ⟨hs.left, hs.right.extend⟩

theorem mapIdx_columnsOf :
    ((columnsOf width nodes).mapIdx fun k column =>
      column ++ (entries.filterMap (·.values[k]?)).toArray) = columnsOf width (nodes ++ [entries]) := by
  apply List.ext_getElem?
  intro k
  by_cases hk : k < width <;> simp [columnsOf, hk]

-- The runs of a segment in the making stand in reverse, so that `close` comes before `Stores`.
theorem push_stores (hr : IsRun (entries.map (·.target))) (h : s.close.Stores width nodes) :
    ∃ s', s.push entries = .ok s' ∧ s'.chunk = s.chunk ∧ s'.close.Stores width (nodes ++ [entries]) := by
  have hc : s.columns = columnsOf width nodes := h.columns
  by_cases he : entries = []
  case pos =>
    subst he
    refine ⟨_, rfl, rfl, ⟨?runs, ?columns⟩⟩
    case runs => simpa [close] using List.rel_append h.runs (.cons ⟨rfl, hr, rfl⟩ .nil)
    case columns => exact (congrArg _ hc).trans mapIdx_columnsOf
  case neg =>
    have hp : s.push entries = .ok { s with
        bytes := s.bytes ++ Arena.runBytes (entries.map (·.target))
        runs := (some s.bytes.size, entries.length) :: s.runs
        columns := s.columns.mapIdx fun k column =>
          column ++ (entries.filterMap (·.values[k]?)).toArray } := by
      simp [push, he, Arena.encodeRun_of_isRun hr]
    refine ⟨_, hp, rfl, ⟨?runs, ?columns⟩⟩
    case runs =>
      have hl : List.Forall₂ (Places (s.bytes ++ Arena.runBytes (entries.map (·.target))))
          s.runs.reverse nodes := h.runs.imp fun _ _ hp => hp.extend _
      have hn : Places (s.bytes ++ Arena.runBytes (entries.map (·.target)))
          (some s.bytes.size, entries.length) entries := ⟨rfl, hr, he, .append_self⟩
      simpa [close] using List.rel_append hl (.cons hn .nil)
    case columns => exact (congrArg _ hc).trans mapIdx_columnsOf

theorem length_le_of_push (h : s.push entries = .ok s') : entries.length ≤ Fault.maxRunLength := by
  by_cases he : entries = []
  case pos => simp [he]
  case neg =>
    simp only [push, List.isEmpty_iff, List.map_eq_nil_iff, he, if_false] at h
    have ⟨_, he, _⟩ := Outcome.bind_eq_ok.mp h
    rw [Arena.encodeRun] at he
    split at he
    case isTrue hl => simpa using hl
    case isFalse => contradiction

theorem foldlM_push_stores {vs : List Nat}
    (hr : ∀ v ∈ vs, IsRun ((finish a (rowsOf v)).map (·.target))) (h : s.close.Stores width nodes) :
    ∃ s', vs.foldlM (fun s v => s.push (finish a (rowsOf v))) s = .ok s' ∧ s'.chunk = s.chunk ∧
      s'.close.Stores width (nodes ++ vs.map fun v => finish a (rowsOf v)) := by
  induction vs generalizing s nodes
  case nil => exact ⟨s, rfl, rfl, by simpa using h⟩
  case cons v vs hi =>
    have ⟨s₁, hp, hc, hs⟩ := push_stores (hr v List.mem_cons_self) h
    have ⟨s₂, hf, hc', hs'⟩ := hi (fun v' hm => hr v' (List.mem_cons_of_mem _ hm)) hs
    refine ⟨s₂, ?_, hc'.trans hc, by simpa using hs'⟩
    rw [List.foldlM_cons, hp, Outcome.ok_bind, hf]

theorem compress_stores (hr : ∀ v ∈ c.ids, IsRun ((finish a (rowsOf v)).map (·.target))) :
    ∃ s, compress a width rowsOf c = .ok s ∧ s.chunk = c ∧
      s.Stores width (c.ids.map fun v => finish a (rowsOf v)) := by
  have hinit : (⟨c, #[], [], List.replicate width #[]⟩ : Segment).close.Stores width [] :=
    ⟨.nil, (columnsOf_nil width).symm⟩
  have ⟨s, hf, hc, hs⟩ := foldlM_push_stores hr hinit
  exact ⟨s.close, by simp [compress, hf, close], hc, hs⟩

theorem length_le_of_foldlM_push {vs : List Nat}
    (h : vs.foldlM (fun s v => s.push (finish a (rowsOf v))) s = .ok s') :
    ∀ v ∈ vs, (finish a (rowsOf v)).length ≤ Fault.maxRunLength := by
  induction vs generalizing s
  case nil => simp
  case cons v vs hi =>
    rw [List.foldlM_cons] at h
    have ⟨s₁, hp, hf⟩ := Outcome.bind_eq_ok.mp h
    exact List.forall_mem_cons.mpr ⟨length_le_of_push hp, hi hf⟩

theorem length_le_of_compress (h : compress a width rowsOf c = .ok s) :
    ∀ v ∈ c.ids, (finish a (rowsOf v)).length ≤ Fault.maxRunLength := by
  have ⟨_, hf, _⟩ := Outcome.bind_eq_ok.mp h
  exact length_le_of_foldlM_push hf

end Segment

end PropertyGraph.Relationships
