import PropertyGraph.Proofs.Chunk.Pass

namespace PropertyGraph

open Dispenser (chunkCount)

variable {σ γ ε : Type} {body : σ → Chunk → γ → Except ε σ × γ} {lethal : ε → Bool}

namespace Job

theorem whole_ends {t : σ × Chunk} {g g' : γ} {r : Except ε σ}
    (h : (Job.whole body lethal).advance t g = (.ended r, g')) : body t.1 t.2 g = (r, g') := by
  simp only [whole, Prod.mk.injEq, Progress.ended.injEq] at h
  exact Prod.ext h.left h.right

theorem whole_ne_working {t t' : σ × Chunk} {g g' : γ} :
    (Job.whole body lethal).advance t g ≠ (.working t', g') := by
  simp [whole]

theorem whole_ne_blocked (t : σ × Chunk) (g : γ) : ((Job.whole body lethal).advance t g).1 ≠ .blocked := by
  simp [whole]

end Job

namespace Pass

-- A worker that worked through some chunks, the last one first, can have kept this.
inductive Kept (body : σ → Chunk → γ → Except ε σ × γ) (init : σ) : List Chunk → σ → Prop
  | nothing : Kept body init [] init
  | chunk {c cs s s' g} : Kept body init cs s → (body s c g).1 = .ok s' → Kept body init (c :: cs) s'

-- A worker can have failed with an error at the first of the chunks, having kept the others.
inductive Fails (body : σ → Chunk → γ → Except ε σ × γ) (init : σ) : List Chunk → ε → Prop
  | intro {c cs s e g} : Kept body init cs s → (body s c g).1 = .error e → Fails body init (c :: cs) e

end Pass

-- Where a worker can be that claimed these chunks, the last one first.
def Phase.Fits (body : σ → Chunk → γ → Except ε σ × γ) (lethal : ε → Bool) (init : σ) (cs : List Chunk) :
    Phase σ (σ × Chunk) ε → Prop
  | ready s | spared s | cleared s | stopped s => Pass.Kept body init cs s
  | working t => ∃ cs', cs = t.2 :: cs' ∧ Pass.Kept body init cs' t.1
  | announcing e | reporting e => Pass.Fails body init cs e ∧ lethal e = false
  | failed => ∃ e, Pass.Fails body init cs e ∧ lethal e = false
  | crashed e => Pass.Fails body init cs e ∧ lethal e = true

namespace Pass

variable {init : σ} {upper size : Nat} {p q : Pass σ (σ × Chunk) γ ε} {i j : Nat}
  {w w' : Phase σ (σ × Chunk) ε}

-- Every worker is where its own chunks have led it, and the error that was left behind is that of a worker.
structure Traced (body : σ → Chunk → γ → Except ε σ × γ) (lethal : ε → Bool) (init : σ)
    (p : Pass σ (σ × Chunk) γ ε) : Prop where
  history : ∀ j (w : Phase σ (σ × Chunk) ε), p.workers[j]? = some w →
    w.Fits body lethal init (p.claimsOf j)
  owners : ∀ x ∈ p.claims, x.1 < p.workers.length
  failure : ∀ e, p.failure = some e → ∃ j, p.workers[j]? = some .failed ∧
    Fails body init (p.claimsOf j) e ∧ lethal e = false

namespace Traced

-- A worker that failed claims nothing any more and stays where it is.
theorem failure_stays (h : Traced body lethal init p) {e : ε} (hw : p.workers[i]? = some w)
    (hn : w ≠ .failed) (hq : q.workers = p.workers.set i w') (hf : p.failure = some e)
    (hc : ∀ j, j ≠ i → q.claimsOf j = p.claimsOf j) :
    ∃ j, q.workers[j]? = some .failed ∧ Fails body init (q.claimsOf j) e ∧ lethal e = false := by
  have ⟨j, hj, hfe⟩ := h.failure e hf
  have hji : j ≠ i := by
    intro hji
    simp_all
  refine ⟨j, ?_, hc j hji ▸ hfe⟩
  rw [hq, getElem?_set_of_some hw, if_neg hji, hj]

theorem failure_move (h : Traced body lethal init p) (hm : Move (.whole body lethal) p i q) (e : ε)
    (hf : q.failure = some e) :
    ∃ j, q.workers[j]? = some .failed ∧ Fails body init (q.claimsOf j) e ∧ lethal e = false := by
  cases hm
  case claim hw _ =>
    refine h.failure_stays hw (by simp) rfl hf fun j hj => ?_
    simp [claimsOf, setWorker, Ne.symm hj]
  case report e' hw =>
    cases hp : p.failure
    case none =>
      have he : e' = e := by simpa [setWorker, hp] using hf
      have hr := h.history i _ hw
      refine ⟨i, ?_, he ▸ hr⟩
      rw [workers_setWorker, getElem?_set_of_some hw, if_pos rfl]
    case some e'' =>
      have he : e'' = e := by simpa [setWorker, hp] using hf
      exact h.failure_stays hw (by simp) rfl (he ▸ hp) fun _ _ => rfl
  all_goals exact h.failure_stays ‹_› (by simp) rfl hf fun _ _ => rfl

-- A worker that does not claim goes on to where its chunks lead it.
theorem of_same_claims (h : Traced body lethal init p) (hm : Move (.whole body lethal) p i q)
    (hc : q.claims = p.claims) (hq : q.workers = p.workers.set i w') (hw : p.workers[i]? = some w)
    (hf : w'.Fits body lethal init (p.claimsOf i)) : Traced body lethal init q where
  history j x hx := by
    rw [claimsOf, hc]
    rw [hq, getElem?_set_of_some hw] at hx
    split at hx
    case isTrue hj =>
      have hx : w' = x := by simpa using hx
      exact hj ▸ hx ▸ hf
    case isFalse => exact h.history j x hx
  owners := by
    rw [hc, hq, List.length_set]
    exact h.owners
  failure := h.failure_move hm

theorem claim {s : σ} {c : Chunk} (h : Traced body lethal init p) (hm : Move (.whole body lethal) p i q)
    (hc : q.claims = (i, c) :: p.claims) (hq : q.workers = p.workers.set i (.working (s, c)))
    (hw : p.workers[i]? = some (.cleared s)) : Traced body lethal init q where
  history j x hx := by
    rw [hq, getElem?_set_of_some hw] at hx
    rw [claimsOf, hc]
    split at hx
    case isTrue hj =>
      have hx : .working (s, c) = x := by simpa using hx
      subst hj hx
      exact ⟨p.claimsOf j, by simp [claimsOf], h.history j _ hw⟩
    case isFalse hj =>
      have := h.history j x hx
      simpa [claimsOf, Ne.symm hj] using this
  owners := by
    have ⟨hlt, _⟩ := List.getElem?_eq_some_iff.mp hw
    rw [hc, hq, List.length_set]
    exact List.forall_mem_cons.mpr ⟨hlt, h.owners⟩
  failure := h.failure_move hm

theorem move (h : Traced body lethal init p) (hm : Move (.whole body lethal) p i q) :
    Traced body lethal init q := by
  have hcases := hm
  cases hcases
  case claim s c hw _ => exact h.claim hm rfl rfl hw
  case leave hw _ | spare hw _ | yield hw _ | clear hw _ | exhaust hw _ =>
    have hk := h.history i _ hw
    exact h.of_same_claims hm rfl rfl hw hk
  case advance ha => exact absurd ha Job.whole_ne_working
  case finish hw ha =>
    have ⟨cs, hc, hk⟩ := h.history i _ hw
    exact h.of_same_claims hm rfl rfl hw (hc ▸ .chunk hk (by rw [Job.whole_ends ha]))
  case crash hw ha hl | fail hw ha hl =>
    have ⟨cs, hc, hk⟩ := h.history i _ hw
    exact h.of_same_claims hm rfl rfl hw ⟨hc ▸ .intro hk (by rw [Job.whole_ends ha]), hl⟩
  case announce hw =>
    have hf := h.history i _ hw
    exact h.of_same_claims hm rfl rfl hw hf
  case report e hw => exact h.of_same_claims hm rfl rfl hw ⟨e, h.history i _ hw⟩

end Traced

-- Every worker keeps what came of its own chunks, and an error that was left behind came from a chunk of the worker
-- that failed.
structure Sound (body : σ → Chunk → γ → Except ε σ × γ) (lethal : ε → Bool) (init : σ)
    (upper size : Nat) (p : Pass σ (σ × Chunk) γ ε) : Prop extends Orderly upper size p where
  traced : Traced body lethal init p

namespace Sound

variable (body lethal init) in
theorem start {concurrency : Nat} (shared : γ) (raised : Bool) (hu : upper ≤ Word64.greatest)
    (hl : Dispenser.Lasts upper size (workerCount upper concurrency size)) :
    Sound body lethal init upper size (start upper concurrency size init shared raised) where
  toOrderly := .start init shared raised hu hl
  traced := {
    history := by
      intro j w hw
      have hw := List.eq_of_mem_replicate (List.mem_of_getElem? hw)
      exact hw ▸ .nothing
    owners := by simp [Pass.start]
    failure := by simp [Pass.start] }

theorem move (h : Sound body lethal init upper size p) (hm : Move (.whole body lethal) p i q) :
    Sound body lethal init upper size q where
  toOrderly := h.toOrderly.move hm
  traced := h.traced.move hm

theorem raise (h : Sound body lethal init upper size p) :
    Sound body lethal init upper size { p with raised := true } where
  toOrderly := h.toOrderly.raise
  traced := ⟨h.traced.history, h.traced.owners, h.traced.failure⟩

theorem apply (h : Sound body lethal init upper size p) (e : Event) :
    Sound body lethal init upper size (p.apply (.whole body lethal) e) := by
  rcases apply_cases (.whole body lethal) p e with he | ⟨_, he⟩ | ⟨i, _, hm⟩
  case inl => rwa [he]
  case inr.inl => rw [he]; exact h.raise
  case inr.inr => exact h.move hm

theorem follow (h : Sound body lethal init upper size p) (es : List Event) :
    Sound body lethal init upper size (p.follow (.whole body lethal) es) := by
  induction es generalizing p
  case nil => exact h
  case cons e es hi => exact hi (h.apply e)

end Sound

end Pass

end PropertyGraph
