import Mathlib.Logic.Function.Basic
import PropertyGraph.Proofs.Run.Reader

namespace PropertyGraph

-- What is done to one of several cursors, each of which has a number.
inductive Access
  | reset (k offset : Nat)
  | nextTarget (k : Nat)
  | next (k : Nat)
  | skipUntil (k target : Nat)
  | advance (k target : Nat)
  -- Cursor `k` becomes a copy of another one.
  | copy (k origin : Nat)
deriving DecidableEq

inductive Answer
  | done
  | target (id : Nat)
  | target? (id? : Option Nat)
deriving DecidableEq

-- What can be seen of a cursor without moving it.
structure Glance where
  hasNext : Bool
  remaining : Nat
  sizeHint : Nat × Option Nat
  current : Option Nat
deriving DecidableEq

-- What moves one cursor, and what can be seen of it.
structure Motion (σ : Type) where
  reset (offset : Nat) : σ → Except Fault Unit × σ
  nextTarget : σ → Except Fault Nat × σ
  next? : σ → Except Fault (Option Nat) × σ
  skipUntil (target : Nat) : σ → Except Fault Nat × σ
  advance (target : Nat) : σ → Except Fault Nat × σ
  view : σ → Glance

namespace Motion

variable {σ : Type} (m : Motion σ)

-- One step of cursor `k`; the others stay where they are.
def move {α : Type} (k : Nat) (step : σ → Except Fault α × σ) (answer : α → Answer) (s : Nat → σ) :
    Except Fault Answer × (Nat → σ) :=
  ((step (s k)).1.map answer, Function.update s k (step (s k)).2)

def perform (s : Nat → σ) : Access → Except Fault Answer × (Nat → σ)
  | .reset k offset     => move k (m.reset offset) (fun _ => .done) s
  | .nextTarget k       => move k m.nextTarget .target s
  | .next k             => move k m.next? .target? s
  | .skipUntil k target => move k (m.skipUntil target) .target s
  | .advance k target   => move k (m.advance target) .target s
  | .copy k origin      => (.ok .done, Function.update s k (s origin))

-- The answers in a row, each with what can be seen of all cursors after it.
def trace : List Access → (Nat → σ) → List (Except Fault Answer × (Nat → Glance))
  | [], _ => []
  | x :: xs, s =>
    let (answer, s) := m.perform s x
    (answer, fun k => m.view (s k)) :: trace xs s

end Motion

def Cursor.view (c : Cursor) : Glance :=
  ⟨c.hasNext, c.remaining, c.sizeHint, c.current⟩

def Arena.motion (a : Arena) : Motion Cursor where
  reset := a.reset
  nextTarget := a.nextTarget
  next? := a.next?
  skipUntil := a.skipUntil
  advance := a.advance
  view := Cursor.view

namespace Reader

def view (r : Reader) : Glance :=
  ⟨!r.rest.isEmpty, r.rest.length, (r.rest.length, some r.rest.length), r.current⟩

-- Readers are put on the run that stands at an offset.
def motion (runAt : Nat → List Nat) : Motion Reader where
  reset offset _ := (.ok (), .start (runAt offset))
  nextTarget := nextTarget
  next? := next?
  skipUntil := skipUntil
  advance := advance
  view := view

variable {runAt : Nat → List Nat} {r : Reader} {rs : Nat → Reader} {x : Access}

theorem probe_ok (hit : Nat → Bool) (r : Reader) : ∃ id, (r.probe hit).1 = .ok id := by
  rw [probe, readUntil]
  split
  · exact ⟨_, rfl⟩
  · split <;> exact ⟨_, rfl⟩

theorem nextTarget_eq_error {f : Fault} (h : r.nextTarget.1 = .error f) :
    f = .cursorExhausted ∧ r.rest = [] := by
  rw [nextTarget] at h
  split at h
  case h_1 hr => exact ⟨by simpa using h.symm, hr⟩
  case h_2 => simp at h

theorem next?_ok (r : Reader) : ∃ id?, r.next?.1 = .ok id? := by
  rw [next?]
  split <;> exact ⟨_, rfl⟩

theorem perform_eq_error {f : Fault} (h : ((motion runAt).perform rs x).1 = .error f) :
    f = .cursorExhausted ∧ ∃ k, x = .nextTarget k ∧ (rs k).rest = [] := by
  cases x <;> simp only [Motion.perform, Motion.move, motion] at h
  case reset => simp [Except.map] at h
  case nextTarget k =>
    cases hn : (rs k).nextTarget.1
    case ok => simp [hn, Except.map] at h
    case error f' =>
      have hf : f' = f := by simpa [hn, Except.map] using h
      have ⟨he, hr⟩ := nextTarget_eq_error (hf ▸ hn)
      exact ⟨he, k, rfl, hr⟩
  case next k =>
    have ⟨_, hn⟩ := next?_ok (rs k)
    simp [hn, Except.map] at h
  case skipUntil k target =>
    have ⟨_, hn⟩ := probe_ok (target < ·) (rs k)
    simp [skipUntil, hn, Except.map] at h
  case advance k target =>
    have ⟨_, hn⟩ := probe_ok (target ≤ ·) (rs k)
    simp [advance, hn, Except.map] at h
  case copy => simp at h

end Reader

namespace Arena

variable {a : Arena} {runAt : Nat → List Nat} {cs : Nat → Cursor} {rs : Nat → Reader}

theorem view_of_shows {c : Cursor} {r : Reader} (h : a.Shows c r) : c.view = r.view := by
  have hr := h.remaining
  have hc := h.current
  cases hn : r.rest <;> simp_all [Cursor.view, Reader.view, Cursor.hasNext, Cursor.sizeHint]

theorem shows_update {c : Cursor} {r : Reader} {k : Nat}
    (h : ∀ i, a.Shows (cs i) (rs i)) (hk : a.Shows c r) (i : Nat) :
    a.Shows (Function.update cs k c i) (Function.update rs k r i) := by
  by_cases hi : i = k
  case pos => simpa [hi] using hk
  case neg => simpa [hi] using h i

theorem move_agrees {α : Type} {k : Nat} {step : Cursor → Except Fault α × Cursor}
    {step' : Reader → Except Fault α × Reader} {answer : α → Answer}
    (h : ∀ i, a.Shows (cs i) (rs i)) (hk : a.Agrees (step (cs k)) (step' (rs k))) :
    (Motion.move k step answer cs).1 = (Motion.move k step' answer rs).1 ∧
      ∀ i, a.Shows ((Motion.move k step answer cs).2 i) ((Motion.move k step' answer rs).2 i) :=
  ⟨by simp [Motion.move, hk.left], shows_update h hk.right⟩

theorem perform_agrees {x : Access} (h : ∀ i, a.Shows (cs i) (rs i))
    (hx : ∀ k offset, x = .reset k offset → a.Holds offset (runAt offset)) :
    (a.motion.perform cs x).1 = ((Reader.motion runAt).perform rs x).1 ∧
      ∀ i, a.Shows ((a.motion.perform cs x).2 i) (((Reader.motion runAt).perform rs x).2 i) := by
  cases x
  case reset k offset     => exact move_agrees h (reset_agrees (hx k offset rfl))
  case nextTarget k       => exact move_agrees h (nextTarget_agrees (h k))
  case next k             => exact move_agrees h (next?_agrees (h k))
  case skipUntil k target => exact move_agrees h (probe_agrees _ (h k))
  case advance k target   => exact move_agrees h (probe_agrees _ (h k))
  case copy k origin      => exact ⟨rfl, shows_update h (h origin)⟩

theorem trace_agrees {xs : List Access} (h : ∀ i, a.Shows (cs i) (rs i))
    (hx : ∀ k offset, .reset k offset ∈ xs → a.Holds offset (runAt offset)) :
    a.motion.trace xs cs = (Reader.motion runAt).trace xs rs := by
  induction xs generalizing cs rs
  case nil => rfl
  case cons x xs hi =>
    have ⟨ha, hs⟩ := perform_agrees (x := x) h fun k offset he => hx k offset (by simp [he])
    have ht := hi hs fun k offset hm => hx k offset (List.mem_cons_of_mem _ hm)
    simp only [Motion.trace, ha, ht]
    congr 2
    funext k
    exact view_of_shows (hs k)

-- The bytes of a run are all that its cursors read.
theorem Holds.of_same_bytes {a' : Arena} {offset : Nat} {ids : List Nat} (h : a.Holds offset ids)
    (hb : offset ≠ 0 → ∀ i, offset ≤ i → i < offset + (runBytes ids).length →
      a'.bytes[i]? = a.bytes[i]?) :
    a'.Holds offset ids where
  isRun := h.isRun
  written := by
    have hw := h.written
    split at hw
    case isTrue h₀ => rwa [if_pos h₀]
    case isFalse h₀ =>
      rw [if_neg h₀]
      intro i b hi
      have ⟨hlt, _⟩ := List.getElem?_eq_some_iff.mp hi
      rw [hb h₀ (offset + i) (by omega) (by omega)]
      exact hw i b hi

end Arena

theorem Reader.fault_of_mem_trace {runAt : Nat → List Nat} {xs : List Access} {rs : Nat → Reader}
    {o : Except Fault Answer × (Nat → Glance)} {f : Fault}
    (h : o ∈ (Reader.motion runAt).trace xs rs) (hf : o.1 = .error f) : f = .cursorExhausted := by
  induction xs generalizing rs
  case nil => simp [Motion.trace] at h
  case cons x xs hi =>
    cases List.mem_cons.mp h
    case inl h => exact (perform_eq_error (h ▸ hf)).left
    case inr h => exact hi h

-- Cursors that are put on runs only answer as readers of these runs do and show the same. The one fault
-- there can be is to read behind the last id. Bytes outside of the runs make no difference.
theorem Arena.cursors_refine_readers (a : Arena) (runAt : Nat → List Nat) (xs : List Access)
    (h : ∀ k offset, .reset k offset ∈ xs → a.Holds offset (runAt offset)) :
    a.motion.trace xs (fun _ => .exhausted) =
        (Reader.motion runAt).trace xs (fun _ => .start []) ∧
      (∀ o ∈ a.motion.trace xs (fun _ => .exhausted), ∀ f, o.1 = .error f → f = .cursorExhausted) ∧
      ∀ a' : Arena,
        (∀ k offset, .reset k offset ∈ xs → offset ≠ 0 →
          ∀ i, offset ≤ i → i < offset + (runBytes (runAt offset)).length →
            a'.bytes[i]? = a.bytes[i]?) →
        a'.motion.trace xs (fun _ => .exhausted) = a.motion.trace xs (fun _ => .exhausted) := by
  have ht := trace_agrees (fun _ => shows_exhausted) h
  refine ⟨ht, ?fault, ?bytes⟩
  case fault =>
    intro o ho f hf
    exact Reader.fault_of_mem_trace (ht ▸ ho) hf
  case bytes =>
    intro a' hb
    rw [ht]
    exact trace_agrees (fun _ => shows_exhausted) fun k offset hm =>
      (h k offset hm).of_same_bytes (hb k offset hm)

theorem Arena.cursors_refine_readers_of_short_run :
    let a : Arena := ⟨#[0, 2, 0, 0, 0, 5, 2, 99]⟩
    let runAt : Nat → List Nat := fun offset => if offset = 1 then [5, 7] else []
    let xs : List Access := [.reset 0 1, .nextTarget 0, .copy 1 0, .advance 1 8, .skipUntil 0 5]
    (∀ k offset, .reset k offset ∈ xs → a.Holds offset (runAt offset)) ∧
      a.motion.trace xs (fun _ => .exhausted) =
        (Reader.motion runAt).trace xs (fun _ => .start []) := by
  intro a runAt xs
  have h : ∀ k offset, .reset k offset ∈ xs → a.Holds offset (runAt offset) := by
    intro k offset hm
    have ho : offset = 1 := by simp_all [xs]
    subst ho
    refine ⟨by decide, ?_⟩
    simp [runAt, a, runBytes, Word32.encode, Gap.encode, Gap.gaps, Varint.encode_of_lt,
      HasAt.cons_iff, HasAt.nil]
  exact ⟨h, (a.cursors_refine_readers runAt xs h).left⟩

end PropertyGraph
