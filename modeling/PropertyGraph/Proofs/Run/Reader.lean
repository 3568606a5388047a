import PropertyGraph.Proofs.Codec.Varint
import PropertyGraph.Proofs.Outcome
import PropertyGraph.Run.Cursor

namespace PropertyGraph

-- The lists of ids that can be written as a run.
structure IsRun (ids : List Nat) : Prop where
  ascending : ids.Pairwise (· ≤ ·)
  bounded : ∀ id ∈ ids, id ≤ Word64.greatest
  short : ids.length ≤ Fault.maxRunLength

namespace IsRun

theorem «def» {ids : List Nat} :
    IsRun ids ↔ ids.Pairwise (· ≤ ·) ∧ (∀ id ∈ ids, id ≤ Word64.greatest) ∧
      ids.length ≤ Fault.maxRunLength where
  mp  := fun ⟨ascending, bounded, short⟩ => ⟨ascending, bounded, short⟩
  mpr := fun ⟨ascending, bounded, short⟩ => ⟨ascending, bounded, short⟩

instance (ids : List Nat) : Decidable (IsRun ids) :=
  decidable_of_iff _ «def».symm

theorem nil : IsRun [] where
  ascending := .nil
  bounded := by simp
  short := by simp

end IsRun

-- A cursor without bytes: the id that is current, and the ids that are still unread.
structure Reader where
  current : Option Nat
  rest : List Nat
deriving DecidableEq, Repr

namespace Reader

-- In front of the first id of a run.
def start (ids : List Nat) : Reader := ⟨none, ids⟩

def nextTarget (r : Reader) : Except Fault Nat × Reader :=
  match r.rest with
  | [] => (.error .cursorExhausted, r)
  | id :: rest => (.ok id, ⟨some id, rest⟩)

def next? (r : Reader) : Except Fault (Option Nat) × Reader :=
  match r.rest with
  | [] => (.ok none, r)
  | id :: rest => (.ok (some id), ⟨some id, rest⟩)

-- Reads up to the first hit.
def readUntil (hit : Nat → Bool) (r : Reader) : Except Fault Nat × Reader :=
  match r.rest.dropWhile (!hit ·) with
  | [] => (.ok notFound, ⟨none, []⟩)
  | id :: rest => (.ok id, ⟨some id, rest⟩)

def probe (hit : Nat → Bool) (r : Reader) : Except Fault Nat × Reader :=
  match r.current.filter hit with
  | some id => (.ok id, r)
  | none => r.readUntil hit

def skipUntil (target : Nat) (r : Reader) : Except Fault Nat × Reader :=
  r.probe (target < ·)

def advance (target : Nat) (r : Reader) : Except Fault Nat × Reader :=
  r.probe (target ≤ ·)

theorem readUntil_cons (hit : Nat → Bool) (current : Option Nat) (id : Nat) (rest : List Nat) :
    readUntil hit ⟨current, id :: rest⟩ =
      if hit id then (.ok id, ⟨some id, rest⟩) else readUntil hit ⟨some id, rest⟩ := by
  cases h : hit id <;> simp [readUntil, h]

end Reader

namespace Arena

def runBytes (ids : List Nat) : List UInt8 :=
  Word32.encode ids.length ++ Gap.encode ids

-- A run stands at an offset. No bytes are written for the empty run of offset zero.
structure Holds (a : Arena) (offset : Nat) (ids : List Nat) : Prop where
  isRun : IsRun ids
  written : if offset = 0 then ids = [] else HasAt a.bytes offset (runBytes ids)

theorem Holds.zero (a : Arena) : a.Holds 0 [] where
  isRun := .nil
  written := by simp

-- The last id read stays behind when none is current any more. Then either no id is left to be read
-- or none was read yet, so that the gaps of the unread ids always count from `c.last`.
structure Shows (a : Arena) (c : Cursor) (r : Reader) : Prop where
  remaining : c.remaining = r.rest.length
  current : c.current = r.current
  unread : HasAt a.bytes c.pos ((Gap.gaps c.last r.rest).flatMap Varint.encode)
  ascending : (c.last :: r.rest).Pairwise (· ≤ ·)
  bounded : ∀ id ∈ r.rest, id ≤ Word64.greatest

-- Two steps with one answer that lead from a cursor and from its reader to such a pair again.
def Agrees {α : Type} (a : Arena)
    (x : Except Fault α × Cursor) (y : Except Fault α × Reader) : Prop :=
  x.1 = y.1 ∧ a.Shows x.2 y.2

variable {a : Arena} {c : Cursor} {r : Reader} {offset : Nat} {ids : List Nat}

theorem degree_of_holds (h : a.Holds offset ids) : a.degree offset = .ok ids.length := by
  have hw := h.written
  rw [degree]
  split at hw
  case isTrue h₀ => simp [h₀, hw]
  case isFalse h₀ =>
    rw [if_neg h₀]
    exact Word32.decode_of_hasAt h.isRun.short (HasAt.append_iff.mp hw).left

theorem shows_exhausted : a.Shows .exhausted (.start []) where
  remaining := rfl
  current := rfl
  unread := .nil
  ascending := by simp [Reader.start]
  bounded := by simp [Reader.start]

theorem reset_agrees (h : a.Holds offset ids) :
    a.Agrees (a.reset offset c) (.ok (), .start ids) := by
  have hw := h.written
  rw [reset]
  split at hw
  case isTrue h₀ =>
    subst hw
    simp only [if_pos h₀]
    exact ⟨rfl, shows_exhausted⟩
  case isFalse h₀ =>
    have ⟨hn, hg⟩ := HasAt.append_iff.mp hw
    simp only [if_neg h₀, Word32.decode_of_hasAt h.isRun.short hn]
    refine ⟨rfl, ⟨rfl, rfl, hg, ?ascending, ?bounded⟩⟩
    case ascending => exact List.pairwise_cons.mpr ⟨fun _ _ => Nat.zero_le _, h.isRun.ascending⟩
    case bounded => exact h.isRun.bounded

theorem cursor_of_holds (h : a.Holds offset ids) :
    ∃ c, a.cursor offset = .ok c ∧ a.Shows c (.start ids) := by
  have ⟨ha, hs⟩ := reset_agrees (c := .exhausted) h
  exists (a.reset offset .exhausted).2
  refine ⟨?_, hs⟩
  rw [cursor]
  split <;> simp_all

theorem nextTarget_agrees (h : a.Shows c r) : a.Agrees (a.nextTarget c) r.nextTarget := by
  obtain ⟨current, rest⟩ := r
  have hr := h.remaining
  rw [nextTarget]
  cases rest
  case nil =>
    rw [if_pos (by simpa using hr)]
    exact ⟨rfl, h⟩
  case cons id rest =>
    obtain ⟨hle, hasc⟩ := List.pairwise_cons.mp h.ascending
    have hid := hle id List.mem_cons_self
    have hb := h.bounded id List.mem_cons_self
    have hu := h.unread
    simp only [Gap.gaps, List.flatMap_cons] at hu
    obtain ⟨hgap, hrest⟩ := HasAt.append_iff.mp hu
    have hlast : c.last + (id - c.last) = id := by omega
    rw [if_neg (by simp at hr; omega), Varint.decode_of_hasAt (by omega) hgap]
    simp only [hlast, if_neg (Nat.not_lt.mpr hb)]
    refine ⟨rfl, ⟨?remaining, rfl, hrest, hasc, ?bounded⟩⟩
    case remaining => simp [hr, Reader.nextTarget]
    case bounded => exact fun i hi => h.bounded i (List.mem_cons_of_mem _ hi)

theorem next?_agrees (h : a.Shows c r) : a.Agrees (a.next? c) r.next? := by
  have ⟨ha, hs⟩ := nextTarget_agrees h
  have hr := h.remaining
  have ⟨current, rest⟩ := r
  rw [next?]
  cases rest
  case nil =>
    rw [if_pos (by simpa using hr)]
    exact ⟨rfl, h⟩
  case cons id rest =>
    rw [if_neg (by simp at hr; omega)]
    split <;> simp_all [Agrees, Reader.next?, Reader.nextTarget]

theorem shows_of_none_left (h : a.Shows c ⟨current, []⟩) :
    a.Shows { c with live := false } ⟨none, []⟩ where
  remaining := h.remaining
  current := rfl
  unread := .nil
  ascending := by simp
  bounded := by simp

theorem readUntil_agrees (hit : Nat → Bool) (h : a.Shows c r) :
    a.Agrees (a.readUntil hit c.remaining c) (r.readUntil hit) := by
  have ⟨current, rest⟩ := r
  rw [h.remaining]
  induction rest generalizing c current
  case nil => exact ⟨rfl, shows_of_none_left h⟩
  case cons id rest hi =>
    have ⟨ha, hs⟩ := nextTarget_agrees h
    rw [List.length_cons, readUntil, Reader.readUntil_cons]
    split
    case h_2 => simp_all [Reader.nextTarget]
    case h_1 id' c' he =>
      have hid : id' = id := by simpa [he, Reader.nextTarget] using ha
      subst hid
      simp only [he, Reader.nextTarget] at hs
      cases hit id'
      case true => exact ⟨rfl, hs⟩
      case false => exact hi _ hs

theorem probe_agrees (hit : Nat → Bool) (h : a.Shows c r) :
    a.Agrees (a.probe hit c) (r.probe hit) := by
  have hc := h.current
  have hu := readUntil_agrees hit h
  rw [probe, Reader.probe, ← hc, Cursor.current]
  cases c.live
  case false => simpa using hu
  case true =>
    cases hh : hit c.last
    case false => simpa [Option.filter, hh] using hu
    case true =>
      simp only [Bool.and_self, if_true, Option.filter, hh]
      exact ⟨rfl, h⟩

theorem drain_of_shows (h : a.Shows c r) :
    ∃ c', a.drain c = (.ok r.rest, c') ∧ c'.remaining = 0 := by
  have ⟨current, rest⟩ := r
  rw [drain, h.remaining]
  induction rest generalizing c current
  case nil => exact ⟨c, rfl, h.remaining⟩
  case cons id rest hi =>
    have ⟨ha, hs⟩ := nextTarget_agrees h
    rw [List.length_cons, readMany]
    split
    case h_1 => simp_all [Reader.nextTarget]
    case h_2 id' c' he =>
      have hid : id' = id := by simpa [he, Reader.nextTarget] using ha
      subst hid
      simp only [he, Reader.nextTarget] at hs
      have ⟨c'', hd, hz⟩ := hi _ hs
      exact ⟨c'', by simp [hd], hz⟩

theorem run_of_holds (h : a.Holds offset ids) : a.run offset = .ok ids := by
  have ⟨c, hc, hs⟩ := cursor_of_holds h
  have ⟨c', hd, _⟩ := drain_of_shows hs
  simp [run, hc, hd, Reader.start]

end Arena

end PropertyGraph
