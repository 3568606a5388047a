import Mathlib.Data.List.Basic
import Mathlib.Tactic.ByContra
import PropertyGraph.Chunk.Pass
import PropertyGraph.Proofs.Chunk.Dispenser

namespace PropertyGraph

variable {σ τ γ ε : Type}

namespace Phase

def isStopped : Phase σ τ ε → Bool
  | stopped _ => true
  | _ => false

-- Whether a worker has put the flag up.
def hasAnnounced : Phase σ τ ε → Bool
  | reporting _ | failed => true
  | _ => false

end Phase

namespace Pass

-- What one worker has claimed, the last chunk first.
def claimsOf (p : Pass σ τ γ ε) (i : Nat) : List Chunk :=
  (p.claims.filter (·.1 = i)).map (·.2)

-- The moves of worker `i`.
inductive Move (job : Job σ τ γ ε) (p : Pass σ τ γ ε) (i : Nat) : Pass σ τ γ ε → Prop
  | leave {s} : p.workers[i]? = some (.ready s) → p.raised = true → Move job p i (p.setWorker i (.stopped s))
  | spare {s} : p.workers[i]? = some (.ready s) → p.raised = false → Move job p i (p.setWorker i (.spared s))
  | yield {s} : p.workers[i]? = some (.spared s) → p.announced = true →
    Move job p i (p.setWorker i (.stopped s))
  | clear {s} : p.workers[i]? = some (.spared s) → p.announced = false →
    Move job p i (p.setWorker i (.cleared s))
  | exhaust {s} : p.workers[i]? = some (.cleared s) → p.dispenser.claim.1 = none →
    Move job p i ({ p with dispenser := p.dispenser.claim.2 }.setWorker i (.stopped s))
  | claim {s c} : p.workers[i]? = some (.cleared s) → p.dispenser.claim.1 = some c →
    Move job p i ({ p with dispenser := p.dispenser.claim.2, claims := (i, c) :: p.claims }.setWorker i
      (.working (job.enter s c)))
  | advance {t t' g} : p.workers[i]? = some (.working t) → job.advance t p.shared = (.working t', g) →
    Move job p i ({ p with shared := g }.setWorker i (.working t'))
  | finish {t s g} : p.workers[i]? = some (.working t) → job.advance t p.shared = (.ended (.ok s), g) →
    Move job p i ({ p with shared := g }.setWorker i (.ready s))
  | crash {t e g} : p.workers[i]? = some (.working t) → job.advance t p.shared = (.ended (.error e), g) →
    job.lethal e = true → Move job p i ({ p with shared := g }.setWorker i (.crashed e))
  | fail {t e g} : p.workers[i]? = some (.working t) → job.advance t p.shared = (.ended (.error e), g) →
    job.lethal e = false → Move job p i ({ p with shared := g }.setWorker i (.announcing e))
  | announce {e} : p.workers[i]? = some (.announcing e) →
    Move job p i ({ p with announced := true }.setWorker i (.reporting e))
  | report {e} : p.workers[i]? = some (.reporting e) →
    Move job p i ({ p with failure := p.failure <|> some e }.setWorker i .failed)

variable {job : Job σ τ γ ε} {p q : Pass σ τ γ ε} {i j : Nat} {w w' : Phase σ τ ε}

theorem move_of_step (h : p.step job i = some q) : Move job p i q := by
  rw [step] at h
  split at h
  case h_1 s hw =>
    cases hr : p.raised
    all_goals
      simp only [hr, Option.some.injEq] at h
      subst h
    case false => exact .spare hw hr
    case true => exact .leave hw hr
  case h_2 s hw =>
    cases ha : p.announced
    all_goals
      simp only [ha, Option.some.injEq] at h
      subst h
    case false => exact .clear hw ha
    case true => exact .yield hw ha
  case h_3 s hw =>
    split at h
    case h_1 d hc =>
      cases h
      have hd : d = p.dispenser.claim.2 := by rw [hc]
      exact hd ▸ .exhaust hw (by rw [hc])
    case h_2 c d hc =>
      cases h
      have hd : d = p.dispenser.claim.2 := by rw [hc]
      exact hd ▸ .claim hw (by rw [hc])
  case h_4 t hw =>
    split at h
    case h_1 => cases h
    case h_2 ha =>
      cases h
      exact .advance hw ha
    case h_3 ha =>
      cases h
      exact .finish hw ha
    case h_4 e g ha =>
      cases hl : job.lethal e
      all_goals
        simp only [hl] at h
        cases h
      case false => exact .fail hw ha hl
      case true => exact .crash hw ha hl
  case h_5 e hw =>
    cases h
    exact .announce hw
  case h_6 e hw =>
    cases h
    exact .report hw
  case h_7 => cases h

variable (job) in
-- A worker can move until it has come to its end, unless it waits inside a chunk.
theorem exists_step (hw : p.workers[i]? = some w) (hf : w.isFinal = false)
    (hb : ∀ t, w = .working t → (job.advance t p.shared).1 ≠ .blocked) : ∃ q, p.step job i = some q := by
  rw [step, hw]
  cases w
  case cleared =>
    simp only
    split <;> exact ⟨_, rfl⟩
  case working t =>
    have hb := hb t rfl
    simp only
    split
    case h_1 ha => exact absurd (by rw [ha]) hb
    all_goals exact ⟨_, rfl⟩
  case stopped | failed | crashed => cases hf
  all_goals exact ⟨_, rfl⟩

theorem step_eq_none_of_isComplete (h : p.isComplete = true) : p.step job i = none := by
  rw [isComplete, List.all_eq_true] at h
  rw [step]
  cases hw : p.workers[i]?
  case none => rfl
  case some w =>
    have hf := h w (List.mem_of_getElem? hw)
    cases w
    case stopped | failed | crashed => rfl
    all_goals cases hf

@[simp]
theorem workers_setWorker (p : Pass σ τ γ ε) (i : Nat) (w : Phase σ τ ε) :
    (p.setWorker i w).workers = p.workers.set i w :=
  rfl

section Workers

variable {ws : List (Phase σ τ ε)}

theorem getElem?_set_of_some (hw : ws[i]? = some w) (j : Nat) :
    (ws.set i w')[j]? = if j = i then some w' else ws[j]? := by
  have ⟨hlt, _⟩ := List.getElem?_eq_some_iff.mp hw
  rw [List.getElem?_set]
  grind

theorem countP_set_of_some (hw : ws[i]? = some w) (hs : w.isStopped = false) :
    (ws.set i w').countP Phase.isStopped =
      ws.countP Phase.isStopped + if w'.isStopped then 1 else 0 := by
  have ⟨hlt, hi⟩ := List.getElem?_eq_some_iff.mp hw
  rw [List.countP_set hlt, hi, hs]
  rfl

theorem countP_lt_length (hw : ws[i]? = some w) (hs : w.isStopped = false) :
    ws.countP Phase.isStopped < ws.length := by
  rw [List.countP_eq_length_filter, List.length_filter_lt_length_iff_exists]
  exact ⟨w, List.mem_of_getElem? hw, by simp [hs]⟩

theorem exists_mem_set_iff {P : Phase σ τ ε → Prop} (hw : ws[i]? = some w)
    (hP : P w' ↔ P w) : (∃ x ∈ ws.set i w', P x) ↔ ∃ x ∈ ws, P x := by
  have ⟨hlt, _⟩ := List.getElem?_eq_some_iff.mp hw
  constructor
  case mp =>
    intro ⟨x, hx, hp⟩
    cases List.mem_or_eq_of_mem_set hx
    case inl hx => exact ⟨x, hx, hp⟩
    case inr hx => exact ⟨w, List.mem_of_getElem? hw, hP.mp (hx ▸ hp)⟩
  case mpr =>
    intro ⟨x, hx, hp⟩
    have ⟨j, hj⟩ := List.mem_iff_getElem?.mp hx
    by_cases hi : j = i
    case pos =>
      have hx : x = w := by simpa [← hi, hj] using hw
      exact ⟨w', List.mem_set hlt w', hP.mpr (hx ▸ hp)⟩
    case neg =>
      have : (ws.set i w')[j]? = some x := by rw [getElem?_set_of_some hw, if_neg hi, hj]
      exact ⟨x, List.mem_of_getElem? this, hp⟩

-- What the workers carry in all, before and after one of them changes.
theorem flatMap_set_perm {α : Type} (load : Phase σ τ ε → List α) (hw : ws[i]? = some w) (w' : Phase σ τ ε) :
    (load w ++ (ws.set i w').flatMap load).Perm (load w' ++ ws.flatMap load) := by
  induction ws generalizing i
  case nil => simp at hw
  case cons x ws hi =>
    cases i
    case zero =>
      have hx : x = w := by simpa using hw
      rw [List.set_cons_zero, List.flatMap_cons, List.flatMap_cons, hx]
      exact List.perm_append_comm_assoc ..
    case succ i =>
      have hp := (@hi i (by simpa using hw)).append_left (load x)
      rw [List.set_cons_succ, List.flatMap_cons, List.flatMap_cons]
      exact (List.perm_append_comm_assoc ..).trans (hp.trans (List.perm_append_comm_assoc ..))

end Workers

theorem length_move (h : Move job p i q) : q.workers.length = p.workers.length := by
  cases h <;> exact List.length_set

theorem raised_move (h : Move job p i q) : q.raised = p.raised := by
  cases h <;> rfl

variable (job) in
-- An event is nothing, the raising of the flag, or a move of a worker.
theorem apply_cases (p : Pass σ τ γ ε) (e : Event) :
    p.apply job e = p ∨ (e = .raise ∧ p.apply job e = { p with raised := true }) ∨
      ∃ i, e = .worker i ∧ Move job p i (p.apply job e) := by
  cases e
  case raise => exact .inr (.inl ⟨rfl, rfl⟩)
  case worker i =>
    cases hs : p.step job i
    case none => exact .inl (by simp [apply, hs])
    case some q => exact .inr (.inr ⟨i, rfl, by simpa [apply, hs] using move_of_step hs⟩)

theorem follow_append (p : Pass σ τ γ ε) (es es' : List Event) :
    p.follow job (es ++ es') = (p.follow job es).follow job es' :=
  List.foldl_append ..

theorem length_follow (p : Pass σ τ γ ε) (es : List Event) :
    (p.follow job es).workers.length = p.workers.length := by
  induction es generalizing p
  case nil => rfl
  case cons e es hi =>
    refine (hi _).trans ?_
    rcases apply_cases job p e with h | ⟨_, h⟩ | ⟨i, _, hm⟩
    case inl => rw [h]
    case inr.inl => rw [h]
    case inr.inr => exact length_move hm

theorem raised_follow (p : Pass σ τ γ ε) {es : List Event} (he : .raise ∉ es) :
    (p.follow job es).raised = p.raised := by
  induction es generalizing p
  case nil => rfl
  case cons e es hi =>
    have ⟨hne, hes⟩ := List.ne_and_not_mem_of_not_mem_cons he
    refine (hi _ hes).trans ?_
    rcases apply_cases job p e with h | ⟨h, _⟩ | ⟨i, _, hm⟩
    case inl => rw [h]
    case inr.inl => exact absurd h.symm hne
    case inr.inr => exact raised_move hm

end Pass

end PropertyGraph
