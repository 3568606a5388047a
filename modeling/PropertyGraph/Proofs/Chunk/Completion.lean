import Mathlib.Algebra.BigOperators.Group.List.Basic
import Mathlib.Data.List.Forall2
import PropertyGraph.Proofs.Chunk.Trace
import PropertyGraph.Proofs.Sorting

namespace PropertyGraph

open Dispenser (chunkCount)

section Moves

variable {σ τ γ ε : Type}

namespace Phase

-- How many moves a worker has still to make in front of its next claim, if `task` bounds those inside a chunk.
def weight (task : τ → Nat) : Phase σ τ ε → Nat
  | working t => task t + 4
  | ready _ => 3
  | spared _ | announcing _ => 2
  | cleared _ | reporting _ => 1
  | _ => 0

theorem weight_eq_zero {task : τ → Nat} {w : Phase σ τ ε} : w.weight task = 0 ↔ w.isFinal = true := by
  cases w <;> simp [weight, isFinal]

end Phase

namespace Pass

variable {job : Job σ τ γ ε} {task : τ → Nat} {chunk : Chunk → Nat} {pending : γ → Nat} {upper size : Nat}
  {p q : Pass σ τ γ ε} {i k k' : Nat} {w w' : Phase σ τ ε}

-- Moves that are certainly enough to come to an end, with `chunk` of them inside a chunk.
def toGo (task : τ → Nat) (chunk : Chunk → Nat) (upper size : Nat) (p : Pass σ τ γ ε) : Nat :=
  (((Chunk.all upper size).drop p.claims.length).map fun c => chunk c + 4).sum +
    (p.workers.map (Phase.weight task)).sum

theorem sum_weight_set (task : τ → Nat) {ws : List (Phase σ τ ε)} (hw : ws[i]? = some w) (w' : Phase σ τ ε) :
    ((ws.set i w').map (Phase.weight task)).sum + w.weight task =
      (ws.map (Phase.weight task)).sum + w'.weight task := by
  induction ws generalizing i
  case nil => simp at hw
  case cons x ws hi =>
    cases i
    case zero =>
      have hx : x = w := by simpa using hw
      subst hx
      simp only [List.set_cons_zero, List.map_cons, List.sum_cons]
      omega
    case succ i =>
      have := @hi i (by simpa using hw)
      simp only [List.set_cons_succ, List.map_cons, List.sum_cons]
      omega

theorem toGo_of_weight (hw : p.workers[i]? = some w) (hq : q.workers = p.workers.set i w')
    (hc : q.claims = p.claims) (hlt : w'.weight task + k' < w.weight task + k) :
    q.toGo task chunk upper size + k' < p.toGo task chunk upper size + k := by
  have := sum_weight_set task hw w'
  rw [toGo, toGo, hq, hc]
  omega

theorem toGo_of_claim {c : Chunk} (hw : p.workers[i]? = some w) (hq : q.workers = p.workers.set i w')
    (hc : q.claims = (i, c) :: p.claims) (hall : (Chunk.all upper size)[p.claims.length]? = some c)
    (hlt : w'.weight task < w.weight task + (chunk c + 4)) :
    q.toGo task chunk upper size < p.toGo task chunk upper size := by
  have := sum_weight_set task hw w'
  have ⟨hin, he⟩ := List.getElem?_eq_some_iff.mp hall
  rw [toGo, toGo, hq, hc, List.length_cons, List.drop_eq_getElem_cons hin, he, List.map_cons, List.sum_cons]
  omega

variable (pending) in
-- Every move brings the end nearer, if those inside a chunk do.
theorem toGo_move (h : Orderly upper size p) (hm : Move job p i q)
    (henter : ∀ s c, task (job.enter s c) ≤ chunk c)
    (hworking : ∀ t t' g, p.workers[i]? = some (.working t) → job.advance t p.shared = (.working t', g) →
      task t' + pending g < task t + pending p.shared)
    (hended : ∀ t r g, p.workers[i]? = some (.working t) → job.advance t p.shared = (.ended r, g) →
      pending g ≤ task t + pending p.shared) :
    q.toGo task chunk upper size + pending q.shared < p.toGo task chunk upper size + pending p.shared := by
  cases hm
  case claim s c hw hc =>
    have ⟨hlt, hcn, _⟩ := h.dealing.claim_eq_some h.bounded h.lasts hw rfl hc
    have hall : (Chunk.all upper size)[p.claims.length]? = some c := by
      rw [Chunk.all, List.getElem?_map, List.getElem?_range hlt, hcn]
      rfl
    have henter := henter s c
    refine Nat.add_lt_add_right (toGo_of_claim hw rfl rfl hall ?_) _
    simp only [Phase.weight]
    omega
  case advance t t' g hw ha =>
    have hworking := hworking t t' g hw ha
    refine toGo_of_weight hw rfl rfl ?_
    simp only [Phase.weight, setWorker]
    omega
  case finish t _ g hw ha | crash t _ g hw ha _ | fail t _ g hw ha _ =>
    have hended := hended t _ g hw ha
    refine toGo_of_weight hw rfl rfl ?_
    simp only [Phase.weight, setWorker]
    omega
  all_goals exact toGo_of_weight ‹_› rfl rfl (by simp [Phase.weight, setWorker])

-- Where workers can always go on inside a chunk, only a pass at its end cannot move.
theorem isComplete_of_forall_step (h : ∀ i < p.workers.length, p.step job i = none)
    (hb : ∀ t : τ, .working t ∈ p.workers → (job.advance t p.shared).1 ≠ .blocked) : p.isComplete = true := by
  rw [isComplete, List.all_eq_true]
  intro w hw
  obtain ⟨i, hi⟩ := List.mem_iff_getElem?.mp hw
  obtain ⟨hlt, _⟩ := List.getElem?_eq_some_iff.mp hi
  by_contra hf
  obtain ⟨q, hq⟩ := exists_step job hi (by simpa using hf) fun t ht => hb t (ht ▸ hw)
  simp [h i hlt] at hq

theorem isComplete_of_toGo_eq_zero (h : p.toGo task chunk upper size = 0) : p.isComplete = true := by
  rw [isComplete, List.all_eq_true]
  intro w hw
  have hs : (p.workers.map (Phase.weight task)).sum = 0 := by
    rw [toGo] at h
    omega
  have := List.sum_eq_zero_iff_forall_eq_nat.mp hs (w.weight task) (List.mem_map_of_mem hw)
  exact Phase.weight_eq_zero.mp this

end Pass

end Moves

namespace Pass

variable {σ γ ε : Type} {body : σ → Chunk → γ → Except ε σ × γ} {lethal : ε → Bool} {init : σ}
  {upper size : Nat} {p q : Pass σ (σ × Chunk) γ ε} {i : Nat}

-- Moves that are certainly enough for a job that takes each chunk in one move.
def wholeToGo (upper size : Nat) (p : Pass σ (σ × Chunk) γ ε) : Nat :=
  p.toGo (fun _ => 0) (fun _ => 0) upper size

theorem wholeToGo_move (h : Orderly upper size p) (hm : Move (.whole body lethal) p i q) :
    q.wholeToGo upper size < p.wholeToGo upper size :=
  toGo_move (fun _ => 0) h hm (fun _ _ => Nat.le_refl _)
    (fun _ _ _ _ ha => absurd ha Job.whole_ne_working) fun _ _ _ _ _ => Nat.le_refl _

theorem move?_eq_some (h : p.move? (.whole body lethal) = some q) : ∃ i, Move (.whole body lethal) p i q := by
  have ⟨i, _, hs⟩ := List.exists_of_findSome?_eq_some h
  exact ⟨i, move_of_step hs⟩

theorem isComplete_of_move?_eq_none (h : p.move? (.whole body lethal) = none) :
    p.isComplete = true := by
  rw [move?, List.findSome?_eq_none_iff] at h
  refine isComplete_of_forall_step (fun i hi => h i (List.mem_range.mpr hi)) fun t _ => Job.whole_ne_blocked t _

theorem run_spec (raiseOn : γ → Bool) {fuel : Nat} (h : Sound body lethal init upper size p)
    (hf : p.wholeToGo upper size ≤ fuel) :
    Sound body lethal init upper size (p.run (.whole body lethal) raiseOn fuel) ∧
      (p.run (.whole body lethal) raiseOn fuel).isComplete = true := by
  induction fuel generalizing p
  case zero => exact ⟨h, isComplete_of_toGo_eq_zero (Nat.le_zero.mp hf)⟩
  case succ fuel hi =>
    rw [run]
    have ⟨p', hp, hs, hg⟩ : ∃ p', (if raiseOn p.shared then p.apply (.whole body lethal) .raise else p)
        = p' ∧ Sound body lethal init upper size p' ∧ p'.wholeToGo upper size ≤ fuel + 1 := by
      split
      · exact ⟨_, rfl, h.raise, hf⟩
      · exact ⟨_, rfl, h, hf⟩
    simp only [hp]
    split
    case h_1 q hq =>
      have ⟨i, hm⟩ := move?_eq_some hq
      have := wholeToGo_move hs.toOrderly hm
      exact hi (hs.move hm) (by omega)
    case h_2 hq => exact ⟨hs, isComplete_of_move?_eq_none hq⟩

theorem run_raised {fuel : Nat} :
    (p.run (.whole body lethal) (fun _ => false) fuel).raised = p.raised := by
  induction fuel generalizing p
  case zero => rfl
  case succ fuel hi =>
    rw [run]
    simp only [Bool.false_eq_true, if_false]
    split
    case h_1 q hq =>
      have ⟨i, hm⟩ := move?_eq_some hq
      rw [hi, raised_move hm]
    case h_2 => rfl

theorem shares_perm (h : ∀ x ∈ p.claims, x.1 < p.workers.length) :
    ((List.range p.workers.length).map p.claimsOf).flatten.Perm (p.claims.map (·.2)) := by
  have hp := (flatMap_filter_perm (fun x : Nat × Chunk => x.1) p.claims p.workers.length).map (·.2)
  rw [List.filter_eq_self.mpr (by simpa using h), List.map_flatMap] at hp
  exact hp

-- The outcome of a complete pass is the error of a chunk, or what the workers kept. In the second case the
-- chunks of an uninterrupted pass are shared out among the workers.
theorem outcome_cases (h : Sound body lethal init upper size p) (hn : p.workers ≠ [])
    (hc : p.isComplete = true) :
    (∃ e cs, p.outcome = .error e ∧ Fails body init cs e ∧ ∀ c ∈ cs, c ∈ Chunk.all upper size) ∨
      ∃ kept shares, p.outcome = .ok kept ∧ p.workers = kept.map .stopped ∧
        List.Forall₂ (Kept body init) shares kept ∧
        (p.raised = false → shares.flatten.Perm (Chunk.all upper size)) := by
  rcases h.outcome_of_complete hc with ⟨e, hw, ho⟩ | ⟨e, hf, ho⟩ | ⟨kept, hs, ho⟩
  case inl =>
    have ⟨j, hj⟩ := List.mem_iff_getElem?.mp hw
    have hf := h.traced.history j _ hj
    exact .inl ⟨e, _, ho, hf.left, fun c => h.dealing.mem_all_of_mem_claimsOf⟩
  case inr.inl =>
    have ⟨j, _, hfe, _⟩ := h.traced.failure e hf
    exact .inl ⟨e, _, ho, hfe, fun c => h.dealing.mem_all_of_mem_claimsOf⟩
  case inr.inr =>
    have hlen : p.workers.length = kept.length := by rw [hs, List.length_map]
    refine .inr ⟨kept, (List.range p.workers.length).map p.claimsOf, ho, hs, ?kept, fun hr => ?shares⟩
    case kept =>
      rw [List.forall₂_iff_get]
      refine ⟨by simpa using hlen, fun j h₁ h₂ => ?_⟩
      have hj : p.workers[j]? = some (.stopped (kept.get ⟨j, h₂⟩)) := by
        rw [hs, List.getElem?_map, List.getElem?_eq_getElem h₂]
        rfl
      have hk : Kept body init (p.claimsOf j) (kept.get ⟨j, h₂⟩) := h.traced.history j _ hj
      simpa using hk
    case shares =>
      exact (shares_perm h.traced.owners).trans (h.dealing.claims_perm (h.length_claims_of_stopped hs hn hr))

theorem wholeToGo_start {concurrency : Nat} {shared : γ} {raised : Bool} :
    (start upper concurrency size init shared raised : Pass σ (σ × Chunk) γ ε).wholeToGo upper size ≤
      moveBound upper concurrency size := by
  simp only [wholeToGo, toGo, start, List.length_nil, List.drop_zero, List.map_const', List.map_replicate,
    List.sum_replicate_nat, Phase.weight, Chunk.all, List.length_map, List.length_range, moveBound]
  omega

theorem length_run (raiseOn : γ → Bool) (fuel : Nat) (p : Pass σ (σ × Chunk) γ ε) :
    (p.run (.whole body lethal) raiseOn fuel).workers.length = p.workers.length := by
  induction fuel generalizing p
  case zero => rfl
  case succ fuel hi =>
    have hr : (if raiseOn p.shared then p.apply (.whole body lethal) .raise else p).workers.length =
        p.workers.length := by
      split <;> rfl
    rw [run]
    split
    case h_1 q hq =>
      have ⟨i, hm⟩ := move?_eq_some hq
      rw [hi, length_move hm, hr]
    case h_2 => exact hr

theorem perform_cases {concurrency : Nat} {shared : γ} (hu : upper ≤ Word64.greatest)
    (hl : Dispenser.Lasts upper size (workerCount upper concurrency size)) :
    let p := perform upper concurrency size init shared false (fun _ => false) lethal body
    (∃ e cs, p.outcome = .error e ∧ Fails body init cs e ∧ ∀ c ∈ cs, c ∈ Chunk.all upper size) ∨
      ∃ kept shares, p.outcome = .ok kept ∧ List.Forall₂ (Kept body init) shares kept ∧
        shares.flatten.Perm (Chunk.all upper size) := by
  intro p
  have hs := Sound.start body lethal init shared false hu hl
  have ⟨hp, hc⟩ := run_spec (fun _ => false) hs wholeToGo_start
  have hr : p.raised = false := run_raised
  have hn : p.workers ≠ [] := by
    have hlen : p.workers.length = workerCount upper concurrency size :=
      (length_run _ _ _).trans List.length_replicate
    have := workerCount_pos upper concurrency size
    intro hnil
    simp [hnil] at hlen
    omega
  refine (outcome_cases hp hn hc).imp id ?_
  intro ⟨kept, shares, ho, _, hk, hsh⟩
  exact ⟨kept, shares, ho, hk, hsh hr⟩

end Pass

end PropertyGraph
