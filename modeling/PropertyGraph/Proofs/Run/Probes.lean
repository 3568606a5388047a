import Mathlib.Data.List.Induction
import PropertyGraph.Proofs.Run.Probe
import PropertyGraph.Proofs.Run.Writing

namespace PropertyGraph

inductive Probe
  | skipUntil (target : Nat)
  | advance (target : Nat)
deriving DecidableEq

-- The least id that a probe accepts.
def Probe.threshold : Probe → Nat
  | skipUntil target => target + 1
  | advance target => target

def Probe.highest : List Probe → Nat
  | [] => 0
  | p :: ps => max p.threshold (highest ps)

namespace Probe

variable {ps : List Probe} {p q : Probe} {id : Nat}

theorem highest_concat (ps : List Probe) (p : Probe) :
    highest (ps ++ [p]) = max (highest ps) p.threshold := by
  induction ps
  case nil => simp [highest]
  case cons q ps hi => rw [List.cons_append, highest, hi, highest, Nat.max_assoc]

theorem threshold_le_highest (h : q ∈ ps) : q.threshold ≤ highest ps := by
  induction h
  case head => exact Nat.le_max_left _ _
  case tail hi => exact Nat.le_trans hi (Nat.le_max_right _ _)

theorem filter_highest_concat (ids : List Nat) (ps : List Probe) (p : Probe) :
    ids.filter (highest (ps ++ [p]) ≤ ·) = (ids.filter (highest ps ≤ ·)).filter (p.threshold ≤ ·) := by
  rw [List.filter_filter, highest_concat]
  congr 1
  funext id
  simp [Bool.and_comm]

end Probe

theorem Reader.probe_current (hit : Nat → Bool) (r : Reader) :
    (r.probe hit).2.current = (r.probe hit).2.ahead.head? := by
  have hu : (r.readUntil hit).2.current = (r.readUntil hit).2.ahead.head? := by
    rw [readUntil]
    split <;> rfl
  rw [probe]
  split
  case h_1 id hc => rw [ahead, (Option.filter_eq_some_iff.mp hc).left]; rfl
  case h_2 => exact hu

namespace Arena

variable {a : Arena} {c : Cursor} {ids : List Nat} {offset : Nat}

def ask (a : Arena) : Probe → Cursor.Step Nat
  | .skipUntil target => a.skipUntil target
  | .advance target => a.advance target

-- The cursor that is left behind by probes in a row.
def after (a : Arena) (c : Cursor) (ps : List Probe) : Cursor :=
  ps.foldl (fun c p => (a.ask p c).2) c

theorem ask_eq_probe (a : Arena) (p : Probe) : a.ask p = a.probe (p.threshold ≤ ·) := by
  cases p <;> rfl

theorem after_concat (a : Arena) (c : Cursor) (ps : List Probe) (p : Probe) :
    a.after c (ps ++ [p]) = (a.ask p (a.after c ps)).2 := by
  simp [after]

-- The cursor stands on the first of the ids it has not passed, if there is one.
def Stops (a : Arena) (c : Cursor) (ids : List Nat) : Prop :=
  a.Stands c ids ∧ c.current = ids.head?

theorem probe_stops {hit : Nat → Bool} (hm : ∀ i j, i ≤ j → hit i = true → hit j = true)
    (h : a.Stands c ids) : a.Stops (a.probe hit c).2 (ids.filter hit) := by
  have ⟨r, hs, he⟩ := h
  have ⟨_, hs'⟩ := probe_agrees hit hs
  have ⟨_, hr⟩ := r.probe_ahead hit
  rw [he, dropWhile_eq_filter h.ascending hm] at hr
  refine ⟨⟨_, hs', hr⟩, ?_⟩
  rw [hs'.current, r.probe_current, hr]

theorem ask_stops (p : Probe) (h : a.Stands c ids) :
    a.Stops (a.ask p c).2 (ids.filter (p.threshold ≤ ·)) := by
  rw [ask_eq_probe]
  exact probe_stops (by simp; omega) h

theorem ask_answers (p : Probe) (h : a.Stands c ids) :
    (a.ask p c).1 = .ok ((ids.find? (p.threshold ≤ ·)).getD notFound) := by
  have ⟨_, he, _⟩ := @probe_stands a c ids (p.threshold ≤ ·) (by simp; omega) h
  rw [ask_eq_probe, he, List.head?_filter]

-- Either the current id is a hit, or no id is left and there is nothing to be read.
theorem probe_of_stops {hit : Nat → Bool} (h : a.Stops c ids) (hh : ∀ id ∈ ids, hit id = true) :
    (a.probe hit c).2 = c := by
  have ⟨⟨r, hs, he⟩, hc⟩ := h
  rw [Cursor.current] at hc
  cases hl : c.live
  case true =>
    have hid : c.last ∈ ids := List.mem_of_mem_head? (by simp [← hc, hl])
    simp [probe, hl, hh c.last hid]
  case false =>
    have hn : ids = [] := List.head?_eq_none_iff.mp (by simp [← hc, hl])
    have hr : c.remaining = 0 := by
      have hrest : r.rest = [] := (List.append_eq_nil_iff.mp (he.trans hn)).right
      rw [hs.remaining, hrest, List.length_nil]
    rw [probe, hl, Bool.false_and, if_neg Bool.false_ne_true, hr, readUntil, ← hl]

-- By induction from the last probe: each one filters what the ones before it have left.
theorem after_stands (h : a.Stands c ids) (ps : List Probe) :
    a.Stands (a.after c ps) (ids.filter (Probe.highest ps ≤ ·)) ∧
      (ps ≠ [] → a.Stops (a.after c ps) (ids.filter (Probe.highest ps ≤ ·))) := by
  induction ps using List.reverseRecOn
  case nil => simpa [after, Probe.highest] using h
  case append_singleton ps p hi =>
    have hs := ask_stops p hi.left
    rw [← after_concat, ← Probe.filter_highest_concat] at hs
    exact ⟨hs.left, fun _ => hs⟩

theorem reset_of_reset {c c' : Cursor} (h : a.reset offset c = (.ok (), c')) (c₀ : Cursor) :
    a.reset offset c₀ = (.ok (), c') := by
  rw [reset] at h ⊢
  by_cases h₀ : offset = 0
  case pos => simpa [h₀] using h
  case neg =>
    rw [if_neg h₀] at h ⊢
    cases hd : Word32.decode a.bytes offset <;> simp_all

theorem reset_of_cursor (h : a.cursor offset = .ok c) (c₀ : Cursor) :
    a.reset offset c₀ = (.ok (), c) := by
  rw [cursor] at h
  split at h
  case h_1 hr => exact reset_of_reset (Except.ok.inj h ▸ hr) c₀
  case h_2 => simp at h

-- What a probe answers depends on the whole run and on the highest threshold so far, not on how the cursor came
-- to where it stands.
theorem probes_answer_from_whole_run (h : a.Holds offset ids) :
    ∃ c, a.cursor offset = .ok c ∧ (∀ c₀, a.reset offset c₀ = (.ok (), c)) ∧
      ∀ (before : List Probe) (p : Probe),
        (a.ask p (a.after c before)).1 =
            .ok ((ids.find? (Probe.highest (before ++ [p]) ≤ ·)).getD notFound) ∧
          ((∃ q ∈ before, p.threshold ≤ q.threshold) →
            (a.ask p (a.after c before)).2 = a.after c before) := by
  obtain ⟨c, hc, hs⟩ := cursor_of_holds h
  refine ⟨c, hc, reset_of_cursor hc, fun before p => ?_⟩
  obtain ⟨hstands, hstops⟩ := after_stands ⟨_, hs, rfl⟩ before
  simp only [Reader.ahead, Reader.start, Option.toList_none, List.nil_append] at hstands hstops
  refine ⟨?answer, ?still⟩
  case answer =>
    rw [ask_answers p hstands, ← List.head?_filter, ← List.head?_filter, Probe.filter_highest_concat]
  case still =>
    rintro ⟨q, hq, hle⟩
    rw [ask_eq_probe]
    refine probe_of_stops (hstops (List.ne_nil_of_mem hq)) fun id hid => ?_
    have hid : Probe.highest before ≤ id := by simpa using (List.mem_filter.mp hid).right
    simpa using Nat.le_trans hle (Nat.le_trans (Probe.threshold_le_highest hq) hid)

theorem probes_answer_from_whole_run_of_repeated_ids :
    let ids := [5, 5, 9]
    let a := (Arena.empty.appendEncoded (runBytes ids)).2
    a.Holds Arena.empty.size ids ∧ ∃ c, a.cursor Arena.empty.size = .ok c ∧
      (a.ask (.advance 3) (a.after c [.advance 5, .skipUntil 5])).1 = .ok 9 ∧
      (a.ask (.advance 3) (a.after c [.advance 5, .skipUntil 5])).2 =
        a.after c [.advance 5, .skipUntil 5] ∧
      (a.ask (.skipUntil 5) (a.after c [.skipUntil Word64.greatest])).1 = .ok notFound := by
  intro ids a
  have h : a.Holds Arena.empty.size ids := holds_appendEncoded (by decide) (by decide)
  have ⟨c, hc, _, hp⟩ := probes_answer_from_whole_run h
  have ⟨hanswer, hstill⟩ := hp [.advance 5, .skipUntil 5] (.advance 3)
  have ⟨hexhausted, _⟩ := hp [.skipUntil Word64.greatest] (.skipUntil 5)
  exact ⟨h, c, hc, hanswer, hstill ⟨.advance 5, by simp, by decide⟩, hexhausted⟩

end Arena

end PropertyGraph
