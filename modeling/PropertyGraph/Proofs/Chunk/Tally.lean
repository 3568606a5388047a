import PropertyGraph.Proofs.Chunk.Completion

namespace PropertyGraph

variable {σ γ ε : Type}

-- The chunk that a worker is at, if it is at one.
def Phase.atChunk : Phase σ (σ × Chunk) ε → List Chunk
  | .working t => [t.2]
  | _ => []

namespace Pass

variable {body : σ → Chunk → γ → Except ε σ × γ} {lethal : ε → Bool} {init : σ} {upper size : Nat}
  {add : γ → Chunk → γ} {shared : γ} {p q : Pass σ (σ × Chunk) γ ε} {i : Nat}
  {w w' : Phase σ (σ × Chunk) ε}

-- No chunk fails, and what a chunk does to the shared state does not depend on the worker.
def Adds (body : σ → Chunk → γ → Except ε σ × γ) (add : γ → Chunk → γ) (upper size : Nat) : Prop :=
  ∀ s c g, c ∈ Chunk.all upper size → ∃ s', body s c g = (.ok s', add g c)

-- The shared state went through the chunks that were claimed and that no worker is at any more.
def Tallied (add : γ → Chunk → γ) (shared : γ) (p : Pass σ (σ × Chunk) γ ε) : Prop :=
  ∃ finished : List Chunk, p.shared = finished.foldl add shared ∧
    (p.workers.flatMap Phase.atChunk ++ finished).Perm (p.claims.map (·.2))

namespace Tallied

theorem of_same (h : Tallied add shared p) (hw : p.workers[i]? = some w) (hq : q.workers = p.workers.set i w')
    (hs : q.shared = p.shared) (hc : q.claims = p.claims) (hn : w.atChunk = []) (hn' : w'.atChunk = []) :
    Tallied add shared q := by
  have ⟨finished, hf, hp⟩ := h
  have hset := flatMap_set_perm Phase.atChunk hw w'
  rw [hn, hn', List.nil_append, List.nil_append, ← hq] at hset
  exact ⟨finished, hs.trans hf, hc ▸ (hset.append_right finished).trans hp⟩

theorem move (ha : Adds body add upper size) (hs : Sound body lethal init upper size p)
    (h : Tallied add shared p) (hm : Move (.whole body lethal) p i q) : Tallied add shared q := by
  have hadd : ∀ s c r g, p.workers[i]? = some (.working (s, c)) →
      (Job.whole body lethal).advance (s, c) p.shared = (.ended r, g) →
      (∃ s', r = .ok s') ∧ g = add p.shared c := fun s c r g hw hb => by
    obtain ⟨cs, hc, _⟩ := hs.traced.history i _ hw
    obtain ⟨s', hadd⟩ := ha s c p.shared (hs.dealing.mem_all_of_mem_claimsOf (hc ▸ List.mem_cons_self))
    have he := (Job.whole_ends hb).symm.trans hadd
    exact ⟨⟨s', congrArg Prod.fst he⟩, congrArg Prod.snd he⟩
  cases hm
  case advance hb => exact absurd hb Job.whole_ne_working
  case claim s c hw _ =>
    obtain ⟨finished, hf, hp⟩ := h
    have hset := flatMap_set_perm Phase.atChunk hw (.working (s, c))
    exact ⟨finished, hf, (hset.append_right finished).trans (hp.cons c)⟩
  case finish t s' g hw hb =>
    obtain ⟨finished, hf, hp⟩ := h
    obtain ⟨_, hg⟩ := hadd t.1 t.2 _ _ hw hb
    have hset := flatMap_set_perm Phase.atChunk hw (.ready s')
    refine ⟨finished ++ [t.2], by simp [setWorker, hg, hf], .trans ?_ hp⟩
    rw [← List.append_assoc]
    exact (List.perm_append_singleton ..).trans (hset.append_right finished)
  case crash t e g hw hb _ | fail t e g hw hb _ =>
    obtain ⟨⟨_, he⟩, _⟩ := hadd t.1 t.2 _ _ hw hb
    cases he
  all_goals exact h.of_same ‹_› rfl rfl rfl rfl rfl

theorem apply (ha : Adds body add upper size) (hs : Sound body lethal init upper size p)
    (h : Tallied add shared p) (e : Event) : Tallied add shared (p.apply (.whole body lethal) e) := by
  rcases apply_cases (.whole body lethal) p e with he | ⟨_, he⟩ | ⟨i, _, hm⟩
  case inl => rwa [he]
  case inr.inl => rw [he]; exact h
  case inr.inr => exact h.move ha hs hm

theorem follow (ha : Adds body add upper size) (hs : Sound body lethal init upper size p)
    (h : Tallied add shared p) (es : List Event) : Tallied add shared (p.follow (.whole body lethal) es) := by
  induction es generalizing p
  case nil => exact h
  case cons e es hi => exact hi (hs.apply e) (h.apply ha hs e)

theorem start (concurrency : Nat) (raised : Bool) :
    Tallied add shared (start upper concurrency size init shared raised : Pass σ (σ × Chunk) γ ε) :=
  ⟨[], rfl, by simp [Pass.start, Phase.atChunk]⟩

end Tallied

-- A run is one of the ways in which the workers can take turns.
theorem exists_follow_of_run (job : Job σ (σ × Chunk) γ ε) (fuel : Nat) (p : Pass σ (σ × Chunk) γ ε) :
    ∃ es, .raise ∉ es ∧ p.run job (fun _ => false) fuel = p.follow job es := by
  induction fuel generalizing p
  case zero => exact ⟨[], List.not_mem_nil, rfl⟩
  case succ fuel hi =>
    rw [run]
    simp only [Bool.false_eq_true, if_false]
    cases hm : p.move? job
    case none => exact ⟨[], List.not_mem_nil, rfl⟩
    case some q =>
      obtain ⟨i, _, hs⟩ := List.exists_of_findSome?_eq_some hm
      obtain ⟨es, he, hr⟩ := hi q
      refine ⟨.worker i :: es, by simp [he], ?_⟩
      simp [hr, follow, apply, hs]

-- However far a pass got, its workers can still take turns that bring it to its end.
theorem exists_follow_isComplete (h : Sound body lethal init upper size p) :
    ∃ es, .raise ∉ es ∧ (p.follow (.whole body lethal) es).isComplete = true :=
  have ⟨es, he, hr⟩ := exists_follow_of_run (.whole body lethal) (p.wholeToGo upper size) p
  ⟨es, he, hr ▸ (run_spec (fun _ => false) h (Nat.le_refl _)).right⟩

variable {concurrency : Nat} {es : List Event}

theorem exists_follow_of_perform (hu : upper ≤ Word64.greatest)
    (hl : Dispenser.Lasts upper size (workerCount upper concurrency size)) :
    let p := perform upper concurrency size init shared false (fun _ => false) lethal body
    p.isComplete = true ∧ ∃ es, .raise ∉ es ∧
      p = (start upper concurrency size init shared false).follow (.whole body lethal) es :=
  ⟨(run_spec _ (Sound.start body lethal init shared false hu hl) wholeToGo_start).right, exists_follow_of_run ..⟩

-- Without failures and without being asked to end early, a complete pass has worked through all chunks: the
-- workers kept what came of their shares, and the shared state went through each chunk once.
theorem follow_tallies (hu : upper ≤ Word64.greatest)
    (hl : Dispenser.Lasts upper size (workerCount upper concurrency size))
    (ha : Adds body add upper size) (he : .raise ∉ es) :
    let p := (start upper concurrency size init shared false).follow (.whole body lethal) es
    p.isComplete = true →
      ∃ (kept : List σ) (shares : List (List Chunk)) (finished : List Chunk), p.outcome = .ok kept ∧ p.raised = false ∧
        List.Forall₂ (Kept body init) shares kept ∧ shares.flatten.Perm (Chunk.all upper size) ∧
        p.shared = finished.foldl add shared ∧ finished.Perm (Chunk.all upper size) := by
  intro p hc
  have hstart := Sound.start body lethal init shared false hu hl
  have hs : Sound body lethal init upper size p := hstart.follow es
  have ⟨finished, hf, hp⟩ := (Tallied.start concurrency false).follow ha hstart es
  have hr : p.raised = false := raised_follow _ he
  have hn : p.workers ≠ [] := by
    have hlen : p.workers.length = workerCount upper concurrency size :=
      (length_follow _ _).trans List.length_replicate
    have := workerCount_pos upper concurrency size
    exact List.ne_nil_of_length_pos (by omega)
  cases outcome_cases hs hn hc
  case inl h =>
    have ⟨e, cs, _, hfail, hcs⟩ := h
    cases hfail
    case intro c cs s g _ hb =>
      have ⟨_, hadd⟩ := ha s c g (hcs c List.mem_cons_self)
      cases hb.symm.trans (congrArg Prod.fst hadd)
  case inr h =>
    have ⟨kept, shares, ho, hstopped, hk, hsh⟩ := h
    have hall := hs.dealing.claims_perm (hs.length_claims_of_stopped hstopped hn hr)
    have hnone : p.workers.flatMap Phase.atChunk = [] := by
      rw [hstopped, List.flatMap_map]
      exact List.flatMap_eq_nil_iff.mpr fun _ _ => rfl
    refine ⟨kept, shares, finished, ho, hr, hk, hsh hr, hf, .trans ?_ hall⟩
    rwa [hnone] at hp

end Pass

end PropertyGraph
