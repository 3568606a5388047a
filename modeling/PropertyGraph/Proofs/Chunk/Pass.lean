import Mathlib.Algebra.Order.Ring.Nat
import Mathlib.Tactic.Ring
import PropertyGraph.Proofs.Chunk.Move

namespace PropertyGraph

open Dispenser (chunkCount)

namespace Pass

variable {σ τ γ ε : Type} {job : Job σ τ γ ε} {upper size : Nat} {p q : Pass σ τ γ ε} {i : Nat}
  {w w' : Phase σ τ ε}

-- The chunks claimed are the first ones in order. Whoever came too late for a chunk has stopped.
structure Dealing (upper size : Nat) (p : Pass σ τ γ ε) : Prop where
  dispenser : ∃ late, p.dispenser = .after upper size (p.claims.length + late) ∧
    (late = 0 ∨ p.claims.length = chunkCount upper size) ∧
    late ≤ p.workers.countP Phase.isStopped
  claims : p.claims.map (·.2) = ((List.range p.claims.length).map (Chunk.nth upper size)).reverse
  length_le : p.claims.length ≤ chunkCount upper size

namespace Dealing

-- A worker that does not claim leaves the dispenser and the claims alone.
theorem of_same (h : Dealing upper size p) (hd : q.dispenser = p.dispenser) (hc : q.claims = p.claims)
    (hs : p.workers.countP Phase.isStopped ≤ q.workers.countP Phase.isStopped) :
    Dealing upper size q where
  dispenser := by
    have ⟨late, h, h', hle⟩ := h.dispenser
    exact ⟨late, by rw [hd, hc, h], by rwa [hc], Nat.le_trans hle hs⟩
  claims := by rw [hc, h.claims]
  length_le := hc ▸ h.length_le

theorem claim_eq_none (hl : Dispenser.Lasts upper size p.workers.length) (h : Dealing upper size p)
    (hw : p.workers[i]? = some w) (hs : w.isStopped = false) (hu : upper ≤ Word64.greatest) :
    p.dispenser.claim.1 = none ↔ p.claims.length = chunkCount upper size := by
  have ⟨late, hd, hz, hle⟩ := h.dispenser
  have hlt := countP_lt_length hw hs
  have hm := h.length_le
  rw [hd]
  constructor
  case mp =>
    intro hn
    by_contra hne
    have hlate : late = 0 := hz.resolve_right hne
    rw [hlate, Nat.add_zero, Dispenser.claim_of_lt hu (by omega)] at hn
    simp at hn
  case mpr =>
    intro heq
    exact Dispenser.claim_of_ge hl (by omega) (by omega)

theorem claim_eq_some {c : Chunk} (h : Dealing upper size p) (hu : upper ≤ Word64.greatest)
    (hl : Dispenser.Lasts upper size p.workers.length) (hw : p.workers[i]? = some w)
    (hs : w.isStopped = false) (hc : p.dispenser.claim.1 = some c) :
    p.claims.length < chunkCount upper size ∧ c = Chunk.nth upper size p.claims.length ∧
      p.dispenser.claim.2 = .after upper size (p.claims.length + 1) := by
  have hm := h.length_le
  have hne : p.claims.length ≠ chunkCount upper size := by
    intro heq
    simp [(h.claim_eq_none hl hw hs hu).mpr heq] at hc
  have ⟨late, hd, hz, _⟩ := h.dispenser
  have hlate : late = 0 := hz.resolve_right hne
  rw [hlate, Nat.add_zero] at hd
  have hlt : p.claims.length < chunkCount upper size := by omega
  rw [hd, Dispenser.claim_of_lt hu hlt] at hc
  exact ⟨hlt, by simpa using hc.symm, by rw [hd, Dispenser.claim_after_snd]⟩

theorem move (hu : upper ≤ Word64.greatest) (hl : Dispenser.Lasts upper size p.workers.length)
    (h : Dealing upper size p) (hm : Move job p i q) : Dealing upper size q := by
  cases hm
  case exhaust s hw hc =>
    have ⟨late, hd, hz, hle⟩ := h.dispenser
    have heq := (h.claim_eq_none hl hw rfl hu).mp hc
    refine ⟨⟨late + 1, ?_, .inr heq, ?_⟩, h.claims, h.length_le⟩
    · simp only [setWorker, hd, Dispenser.claim_after_snd]
      rfl
    · rw [workers_setWorker, countP_set_of_some hw rfl]
      exact Nat.add_le_add_right hle 1
  case claim s c hw hc =>
    have ⟨hlt, hcn, hd⟩ := h.claim_eq_some hu hl hw rfl hc
    refine ⟨⟨0, ?_, .inl rfl, Nat.zero_le _⟩, ?_, hlt⟩
    · simp [setWorker, hd]
    · simp [setWorker, List.range_succ, h.claims, hcn]
  all_goals
    refine h.of_same rfl rfl ?_
    rw [workers_setWorker, countP_set_of_some ‹_› rfl]
    exact Nat.le_add_right ..

theorem mem_all (h : Dealing upper size p) {x : Nat × Chunk} (hx : x ∈ p.claims) :
    x.2 ∈ Chunk.all upper size := by
  have hm : x.2 ∈ p.claims.map (·.2) := List.mem_map_of_mem hx
  rw [h.claims, List.mem_reverse, List.mem_map] at hm
  have ⟨t, ht, htc⟩ := hm
  have := h.length_le
  exact List.mem_map.mpr ⟨t, by simp at ht ⊢; omega, htc⟩

theorem mem_all_of_mem_claimsOf {c : Chunk} (h : Dealing upper size p) (hc : c ∈ p.claimsOf i) :
    c ∈ Chunk.all upper size := by
  have ⟨x, hx, hxc⟩ := List.mem_map.mp hc
  exact hxc ▸ h.mem_all (List.mem_of_mem_filter hx)

theorem claims_perm (h : Dealing upper size p) (hall : p.claims.length = chunkCount upper size) :
    (p.claims.map (·.2)).Perm (Chunk.all upper size) := by
  rw [h.claims, hall]
  exact List.reverse_perm _

end Dealing

-- The flag of the workers is up as soon as one of them put it up, and an error is left behind as soon as one of
-- them has come to that. No worker stops before the chunks run out unless a flag is up.
structure Reported (upper size : Nat) (p : Pass σ τ γ ε) : Prop where
  announced : p.announced = true ↔ ∃ w ∈ p.workers, Phase.hasAnnounced w = true
  left : p.failure.isSome = true ↔ ∃ w ∈ p.workers, w = .failed
  stopped : (∃ w ∈ p.workers, Phase.isStopped w = true) →
    p.raised = true ∨ p.announced = true ∨ p.claims.length = chunkCount upper size

namespace Reported

theorem announced_move (h : Reported upper size p) (hm : Move job p i q) :
    q.announced = true ↔ ∃ w ∈ q.workers, Phase.hasAnnounced w = true := by
  have ha := h.announced
  cases hm
  case announce hw =>
    have ⟨hlt, _⟩ := List.getElem?_eq_some_iff.mp hw
    exact iff_of_true rfl ⟨_, List.mem_set hlt _, rfl⟩
  all_goals
    rw [workers_setWorker, exists_mem_set_iff ‹_› (by simp [Phase.hasAnnounced])]
    exact ha

theorem left_move (h : Reported upper size p) (hm : Move job p i q) :
    q.failure.isSome = true ↔ ∃ w ∈ q.workers, w = .failed := by
  have hf := h.left
  cases hm
  case report hw =>
    have ⟨hlt, _⟩ := List.getElem?_eq_some_iff.mp hw
    exact iff_of_true (by simp [setWorker]) ⟨_, List.mem_set hlt _, rfl⟩
  all_goals
    rw [workers_setWorker, exists_mem_set_iff ‹_› (by simp)]
    exact hf

theorem stopped_move (hu : upper ≤ Word64.greatest)
    (hl : Dispenser.Lasts upper size p.workers.length) (hd : Dealing upper size p)
    (h : Reported upper size p) (hm : Move job p i q)
    (hq : ∃ w ∈ q.workers, Phase.isStopped w = true) :
    q.raised = true ∨ q.announced = true ∨ q.claims.length = chunkCount upper size := by
  have hs := h.stopped
  cases hm
  case leave hr => exact .inl hr
  case yield ha => exact .inr (.inl ha)
  case exhaust hw hc => exact .inr (.inr ((hd.claim_eq_none hl hw rfl hu).mp hc))
  case announce => exact .inr (.inl rfl)
  case claim c hw hc =>
    have ⟨hlt, _⟩ := hd.claim_eq_some hu hl hw rfl hc
    rw [workers_setWorker, exists_mem_set_iff hw (by simp [Phase.isStopped])] at hq
    have := (hs hq).imp id fun ha => ha.resolve_right (by omega)
    exact this.imp id .inl
  all_goals
    rw [workers_setWorker, exists_mem_set_iff ‹_› (by simp [Phase.isStopped])] at hq
    exact hs hq

end Reported

-- What holds of a pass whatever turns its workers have taken.
structure Orderly (upper size : Nat) (p : Pass σ τ γ ε) : Prop where
  bounded : upper ≤ Word64.greatest
  lasts : Dispenser.Lasts upper size p.workers.length
  dealing : Dealing upper size p
  reported : Reported upper size p

namespace Orderly

theorem start {concurrency : Nat} (init : σ) (shared : γ) (raised : Bool) (hu : upper ≤ Word64.greatest)
    (hl : Dispenser.Lasts upper size (workerCount upper concurrency size)) :
    Orderly upper size (start upper concurrency size init shared raised : Pass σ τ γ ε) where
  bounded := hu
  lasts := by simpa [Pass.start] using hl
  dealing := {
    dispenser := ⟨0, by simp [Pass.start, Dispenser.below_eq_after], .inl rfl, Nat.zero_le _⟩
    claims := rfl
    length_le := Nat.zero_le _ }
  reported := by constructor <;> simp [Pass.start, Phase.hasAnnounced, Phase.isStopped]

theorem move (h : Orderly upper size p) (hm : Move job p i q) : Orderly upper size q where
  bounded := h.bounded
  lasts := length_move hm ▸ h.lasts
  dealing := h.dealing.move h.bounded h.lasts hm
  reported := {
    announced := h.reported.announced_move hm
    left := h.reported.left_move hm
    stopped := h.reported.stopped_move h.bounded h.lasts h.dealing hm }

theorem raise (h : Orderly upper size p) : Orderly upper size { p with raised := true } where
  bounded := h.bounded
  lasts := h.lasts
  dealing := h.dealing.of_same rfl rfl (Nat.le_refl _)
  reported := ⟨h.reported.announced, h.reported.left, fun _ => .inl rfl⟩

theorem apply (h : Orderly upper size p) (e : Event) : Orderly upper size (p.apply job e) := by
  rcases apply_cases job p e with he | ⟨_, he⟩ | ⟨i, _, hm⟩
  case inl => rwa [he]
  case inr.inl => rw [he]; exact h.raise
  case inr.inr => exact h.move hm

theorem follow (h : Orderly upper size p) (es : List Event) : Orderly upper size (p.follow job es) := by
  induction es generalizing p
  case nil => exact h
  case cons e es hi => exact hi (h.apply e)

-- Where no worker failed and none was asked to stop, a worker stops for want of chunks.
theorem length_claims (h : Orderly upper size p) (hs : ∃ w ∈ p.workers, Phase.isStopped w = true)
    (hf : ∀ w ∈ p.workers, Phase.hasAnnounced w = false) (hr : p.raised = false) :
    p.claims.length = chunkCount upper size := by
  have hna : ¬p.announced = true := by
    intro ha
    have ⟨w, hw, hfw⟩ := h.reported.announced.mp ha
    simp [hf w hw] at hfw
  exact ((h.reported.stopped hs).resolve_left (by simp [hr])).resolve_left hna

end Orderly

section Outcome

theorem exists_kept (hc : p.isComplete = true) (hcr : p.workers.findSome? Phase.crash? = none)
    (hf : .failed ∉ p.workers) : ∃ kept : List σ, p.workers = kept.map .stopped := by
  rw [isComplete, List.all_eq_true] at hc
  rw [List.findSome?_eq_none_iff] at hcr
  generalize p.workers = ws at hc hcr hf
  induction ws
  case nil => exact ⟨[], rfl⟩
  case cons w ws hi =>
    have hw := hc w List.mem_cons_self
    have hcw := hcr w List.mem_cons_self
    obtain ⟨kept, ht⟩ := hi (fun x hx => hc x (List.mem_cons_of_mem _ hx))
      (fun x hx => hcr x (List.mem_cons_of_mem _ hx)) (fun hm => hf (List.mem_cons_of_mem _ hm))
    cases w
    case stopped s => exact ⟨s :: kept, by rw [ht, List.map_cons]⟩
    case failed => exact absurd List.mem_cons_self hf
    case crashed => simp [Phase.crash?] at hcw
    all_goals simp [Phase.isFinal] at hw

theorem filterMap_result? (kept : List σ) :
    (kept.map .stopped).filterMap (Phase.result? : Phase σ τ ε → Option σ) = kept := by
  rw [List.filterMap_map]
  exact List.filterMap_some

-- A complete pass ends with the error of a worker that crashed, with the one that was left behind first, or with
-- what the workers kept.
theorem Orderly.outcome_of_complete (h : Orderly upper size p) (hc : p.isComplete = true) :
    (∃ e, .crashed e ∈ p.workers ∧ p.outcome = .error e) ∨
      (∃ e, p.failure = some e ∧ p.outcome = .error e) ∨
      ∃ kept, p.workers = kept.map .stopped ∧ p.outcome = .ok kept := by
  rw [outcome]
  cases hcr : p.workers.findSome? Phase.crash?
  case some e =>
    have ⟨w, hw, he⟩ := List.exists_of_findSome?_eq_some hcr
    cases w <;> simp [Phase.crash?] at he
    exact .inl ⟨e, he ▸ hw, rfl⟩
  case none =>
    cases hf : p.failure
    case some e => exact .inr (.inl ⟨e, rfl, rfl⟩)
    case none =>
      have hnf : .failed ∉ p.workers := by
        intro hm
        simpa [hf] using h.reported.left.mpr ⟨_, hm, rfl⟩
      have ⟨kept, hs⟩ := exists_kept hc hcr hnf
      exact .inr (.inr ⟨kept, hs, by rw [hs, filterMap_result?]⟩)

-- Where no worker failed and none was asked to stop, the chunks ran out.
theorem Orderly.length_claims_of_stopped (h : Orderly upper size p) {kept : List σ}
    (hs : p.workers = kept.map .stopped) (hn : p.workers ≠ []) (hr : p.raised = false) :
    p.claims.length = chunkCount upper size := by
  refine h.length_claims ?_ (fun w hw => ?_) hr
  · have ⟨w, hw⟩ := List.exists_mem_of_ne_nil _ hn
    have ⟨s, _, hsw⟩ := List.mem_map.mp (hs ▸ hw)
    exact ⟨w, hw, by rw [← hsw]; rfl⟩
  · have ⟨s, _, hsw⟩ := List.mem_map.mp (hs ▸ hw)
    rw [← hsw]
    rfl

end Outcome

section Count

theorem workerCount_pos (upper concurrency size : Nat) : 0 < workerCount upper concurrency size := by
  rw [workerCount]
  omega

theorem le_greatest (h : 3 * upper ≤ Word64.count) : upper ≤ Word64.greatest := by
  simp only [Word64.greatest, Word64.count] at h ⊢
  omega

-- There are no more workers than chunks. With two chunks at least, each is smaller than the bound, and the
-- starts stay below three times the bound while the last of the workers learn that no chunk is left.
theorem lasts_workerCount (concurrency : Nat) (hs : size ≤ Word64.greatest)
    (h : 3 * upper ≤ Word64.count) :
    Dispenser.Lasts upper size (workerCount upper concurrency size) := by
  intro t hge hlt
  have hle : ¬t * max size 1 < upper := fun hc => Nat.not_lt.mpr hge (Dispenser.lt_chunkCount_iff.mpr hc)
  have hw : workerCount upper concurrency size ≤ max (chunkCount upper size) 1 := Nat.min_le_right _ _
  have hpos : 0 < max size 1 := by omega
  have hmax : max size 1 < Word64.count := by
    simp only [Word64.greatest, Word64.count] at hs ⊢
    omega
  have hfew : chunkCount upper size ≤ 1 → t ≤ 1 := by omega
  have hmany : ∀ k, chunkCount upper size = k + 2 → t ≤ 2 * k + 3 ∧ (k + 1) * max size 1 < upper :=
    fun k hk => ⟨by omega, Dispenser.lt_chunkCount_iff.mp (by omega)⟩
  suffices ht : t * max size 1 < Word64.count by
    rw [Nat.mod_eq_of_lt ht]
    exact Nat.not_lt.mp hle
  generalize max size 1 = s at hpos hmax hmany
  by_cases hk : chunkCount upper size ≤ 1
  case pos =>
    calc t * s ≤ 1 * s := Nat.mul_le_mul_right s (hfew hk)
      _ < Word64.count := by rwa [Nat.one_mul]
  case neg =>
    obtain ⟨ht, hlast⟩ := hmany (chunkCount upper size - 2) (by omega)
    generalize chunkCount upper size - 2 = k at ht hlast
    have hone : s ≤ (k + 1) * s := Nat.le_mul_of_pos_left s (Nat.succ_pos k)
    calc t * s ≤ (2 * k + 3) * s := Nat.mul_le_mul_right s ht
      _ = 2 * ((k + 1) * s) + s := by ring
      _ < Word64.count := by omega

end Count

end Pass

end PropertyGraph
