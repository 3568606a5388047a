import PropertyGraph.Proofs.Relationship.Segment
import PropertyGraph.Proofs.Relationship.ValueRuns

namespace PropertyGraph.Relationships.Segment

namespace Assembly

-- Offset zero is free to stand for the empty run, since no run starts at the first byte of an arena.
def Points (arena : Arena) (offset : Nat) (entries : List Entry) : Prop :=
  arena.Holds offset (entries.map (·.target)) ∧ (offset = 0 ↔ entries = [])

-- The offsets, starts and count of an assembly fit the entries of the nodes in front.
structure Indexes (w : Assembly) (nodes : List (List Entry)) : Prop where
  offsets : List.Forall₂ (Points w.arena) w.offsets.toList nodes
  starts : w.starts.toList = ValueRuns.startsOf (nodes.map (·.length))
  count : w.relationshipCount = (nodes.map (·.length)).sum

-- A byte in front of all runs keeps their offsets apart from zero.
structure Stores (w : Assembly) (width : Nat) (nodes : List (List Entry)) : Prop where
  arena : 0 < w.arena.size
  indexes : w.Indexes nodes
  columns : w.columns = columnsOf width nodes

theorem append_toList (front bytes : Array UInt8) : front ++ bytes.toList = front ++ bytes := by
  simp [← Array.toList_inj]

variable {w : Assembly} {s : Segment} {width : Nat} {nodes nodes' : List (List Entry)}
  {entries : List Entry} {run : Option Nat × Nat} {bytes : Array UInt8}

theorem Points.extend {arena arena' : Arena} {offset : Nat} (hx : arena.Extends arena')
    (h : Points arena offset entries) : Points arena' offset entries :=
  ⟨hx.holds h.left, h.right⟩

-- What a segment stores moves by the size of the arena behind which its bytes are put.
theorem note_indexes {front : Arena} (hf : 0 < front.size) (ha : w.arena = ⟨front.bytes ++ bytes⟩)
    (h : Places bytes run entries) (hw : w.Indexes nodes) :
    (w.note front.size run).Indexes (nodes ++ [entries]) := by
  obtain ⟨start?, n⟩ := run
  obtain ⟨hn, hr, hs⟩ := h
  refine ⟨?offsets, ?starts, ?count⟩
  case offsets =>
    simp only [note, Array.toList_push]
    refine List.rel_append hw.offsets (.cons ?_ .nil)
    cases start?
    case none =>
      have he : entries = [] := hs
      subst he
      exact ⟨.zero _, by simp⟩
    case some start =>
      -- The offset is not zero, for the front is not empty.
      obtain ⟨he, hb⟩ := hs
      refine ⟨⟨hr, ?_⟩, iff_of_false (by simp only; omega) he⟩
      rw [if_neg (by simp only; omega), ha, ← append_toList]
      exact hb.shift
  case starts =>
    simp only [note, Array.toList_push, hw.starts, hw.count, List.map_append, List.map_singleton]
    rw [ValueRuns.startsOf_concat, show n = entries.length from hn]
  case count =>
    simp only [note, hw.count, List.map_append, List.map_singleton, List.sum_append]
    simp [show n = entries.length from hn]

theorem foldl_note_indexes {front : Arena} {runs : List (Option Nat × Nat)} (hf : 0 < front.size)
    (ha : w.arena = ⟨front.bytes ++ bytes⟩) (h : List.Forall₂ (Places bytes) runs nodes')
    (hw : w.Indexes nodes) :
    let w' := runs.foldl (note front.size) w
    w'.Indexes (nodes ++ nodes') ∧ w'.arena = w.arena ∧ w'.columns = w.columns := by
  induction h generalizing w nodes
  case nil => exact ⟨by simpa using hw, rfl, rfl⟩
  case cons run entries runs nodes' hr _ hi =>
    have ⟨hw', ha', hc'⟩ := @hi (w.note front.size run) _ ha (note_indexes hf ha hr hw)
    exact ⟨by simpa using hw', ha', hc'⟩

theorem push_stores (hs : s.Stores width nodes') (hw : w.Stores width nodes) :
    (w.push s).Stores width (nodes ++ nodes') := by
  have hx : w.arena.Extends ⟨w.arena.bytes ++ s.bytes⟩ := ⟨s.bytes.toList, (append_toList _ _).symm⟩
  have hi : Indexes { w with
      arena := ⟨w.arena.bytes ++ s.bytes⟩
      columns := List.zipWith (· ++ ·) w.columns s.columns } nodes :=
    ⟨hw.indexes.offsets.imp fun _ _ => Points.extend hx, hw.indexes.starts, hw.indexes.count⟩
  have ⟨hi', ha', hc'⟩ := foldl_note_indexes hw.arena rfl hs.runs hi
  refine ⟨?arena, hi', ?columns⟩
  case arena =>
    rw [push, ha']
    exact Nat.lt_of_lt_of_le hw.arena hx.size_le
  case columns =>
    rw [push, hc', columnsOf_append, hw.columns, hs.columns]

theorem foldl_push_stores {segments : List Segment} {groups : List (List (List Entry))}
    (hs : List.Forall₂ (fun s group => s.Stores width group) segments groups)
    (hw : w.Stores width nodes) :
    (segments.foldl push w).Stores width (nodes ++ groups.flatten) := by
  induction hs generalizing w nodes
  case nil => simpa using hw
  case cons s group segments groups h _ hi => simpa using hi (push_stores h hw)

theorem empty_stores (width : Nat) : (Assembly.empty width).Stores width [] where
  arena := by simp [Assembly.empty, Arena.empty, Arena.size]
  indexes := ⟨.nil, rfl, rfl⟩
  columns := (columnsOf_nil width).symm

end Assembly

end PropertyGraph.Relationships.Segment
