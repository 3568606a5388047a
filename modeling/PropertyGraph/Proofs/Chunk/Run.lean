import Mathlib.Algebra.Order.Floor.Div
import Mathlib.Data.List.Perm.Lattice
import PropertyGraph.Proofs.Chunk.Pass
import PropertyGraph.Proofs.Sorting

namespace PropertyGraph

open Dispenser (chunkCount)

variable {σ τ γ ε : Type}

namespace Pass

-- A worker came to the end of a chunk.
structure Run (σ ε : Type) where
  worker : Nat
  chunk : Chunk
  result : Except ε σ

-- What worker `i` comes to the end of with its next move, if it does.
def run? (job : Job σ τ γ ε) (p : Pass σ τ γ ε) (i : Nat) : Option (Run σ ε) :=
  match p.workers[i]? with
  | some (.working t) =>
    match (job.advance t p.shared).1, p.claimsOf i with
    | .ended r, c :: _ => some ⟨i, c, r⟩
    | _, _ => none
  | _ => none

-- All that the workers come to the end of in a series of events, in that order.
def runs (job : Job σ τ γ ε) (p : Pass σ τ γ ε) : List Event → List (Run σ ε)
  | [] => []
  | .raise :: es => (p.apply job .raise).runs job es
  | .worker i :: es => (p.run? job i).toList ++ (p.apply job (.worker i)).runs job es

end Pass

-- Where a worker can be that claimed these chunks, the last one first, and came to the end of these.
def Phase.Ran (claimed : List Chunk) (rs : List (Pass.Run σ ε)) : Phase σ τ ε → Prop
  | ready _ | spared _ | cleared _ | stopped _ =>
    claimed = (rs.map (·.chunk)).reverse ∧ ∀ r ∈ rs, ∃ s, r.result = .ok s
  | working _ => ∃ c, claimed = c :: (rs.map (·.chunk)).reverse ∧ ∀ r ∈ rs, ∃ s, r.result = .ok s
  | announcing e | reporting e | crashed e =>
    claimed = (rs.map (·.chunk)).reverse ∧ ∃ r ∈ rs, r.result = .error e
  | failed => claimed = (rs.map (·.chunk)).reverse ∧ ∃ r ∈ rs, ∃ e, r.result = .error e

namespace Pass

variable {job : Job σ τ γ ε} {upper size i : Nat} {p q : Pass σ τ γ ε} {rs : List (Run σ ε)} {w w' : Phase σ τ ε}

def runsOf (rs : List (Run σ ε)) (i : Nat) : List (Run σ ε) :=
  rs.filter (·.worker = i)

theorem runsOf_append (rs rs' : List (Run σ ε)) (i : Nat) : runsOf (rs ++ rs') i = runsOf rs i ++ runsOf rs' i :=
  List.filter_append ..

theorem runsOf_self (c : Chunk) (r : Except ε σ) : runsOf [⟨i, c, r⟩] i = [⟨i, c, r⟩] := by
  simp [runsOf]

theorem runsOf_of_ne {j : Nat} (h : j ≠ i) (c : Chunk) (r : Except ε σ) : runsOf [⟨i, c, r⟩] j = [] := by
  simp [runsOf, h.symm]

theorem run?_of_working {t : τ} {c : Chunk} {cs : List Chunk} {r : Except ε σ} {g : γ}
    (hw : p.workers[i]? = some (.working t)) (ha : job.advance t p.shared = (.ended r, g))
    (hc : p.claimsOf i = c :: cs) : p.run? job i = some ⟨i, c, r⟩ := by
  simp [run?, hw, ha, hc]

theorem run?_of_not_ended {t : τ} (hw : p.workers[i]? = some (.working t))
    (ha : ∀ r, (job.advance t p.shared).1 ≠ .ended r) : p.run? job i = none := by
  cases h : (job.advance t p.shared).1
  case ended r => exact absurd h (ha r)
  all_goals simp [run?, hw, h]

theorem run?_of_not_working (hw : p.workers[i]? = some w) (hn : ∀ t, w ≠ .working t) : p.run? job i = none := by
  rw [run?, hw]
  split
  case h_1 t he => exact absurd (Option.some.inj he) (hn t)
  case h_2 => rfl

-- A worker that cannot move comes to the end of nothing.
theorem run?_of_step_eq_none (h : p.step job i = none) : p.run? job i = none := by
  cases hw : p.workers[i]?
  case none => simp [run?, hw]
  case some w =>
    cases w
    case working t =>
      refine run?_of_not_ended hw fun r hr => ?_
      have ⟨q, hq⟩ := exists_step job hw rfl fun t' ht => by
        cases ht
        simp [hr]
      simp [hq] at h
    all_goals exact run?_of_not_working hw nofun

-- The workers are where these runs have led them.
structure Logged (p : Pass σ τ γ ε) (rs : List (Run σ ε)) : Prop where
  history : ∀ j (w : Phase σ τ ε), p.workers[j]? = some w → w.Ran (p.claimsOf j) (runsOf rs j)
  claimants : ∀ x ∈ p.claims, x.1 < p.workers.length
  workers : ∀ r ∈ rs, r.worker < p.workers.length
  failure : ∀ e, p.failure = some e → ∃ r ∈ rs, r.result = .error e

namespace Logged

-- A worker that comes to the end of nothing and does not claim.
theorem of_same (h : Logged p rs) (hw : p.workers[i]? = some w) (hq : q.workers = p.workers.set i w')
    (hc : q.claims = p.claims) (hr : w'.Ran (p.claimsOf i) (runsOf rs i))
    (hf : ∀ e, q.failure = some e → ∃ r ∈ rs, r.result = .error e) : Logged q rs where
  history j x hx := by
    rw [claimsOf, hc]
    rw [hq, getElem?_set_of_some hw] at hx
    split at hx
    case isTrue hj =>
      have hx : w' = x := Option.some.inj hx
      exact hj ▸ hx ▸ hr
    case isFalse => exact h.history j x hx
  claimants := by
    rw [hc, hq, List.length_set]
    exact h.claimants
  workers := by
    rw [hq, List.length_set]
    exact h.workers
  failure := hf

theorem of_claim {c : Chunk} {t : τ} (h : Logged p rs) (hw : p.workers[i]? = some w)
    (hq : q.workers = p.workers.set i (.working t)) (hc : q.claims = (i, c) :: p.claims)
    (hf : q.failure = p.failure) (hr : p.claimsOf i = ((runsOf rs i).map (·.chunk)).reverse)
    (hok : ∀ r ∈ runsOf rs i, ∃ s, r.result = .ok s) : Logged q rs where
  history j x hx := by
    rw [hq, getElem?_set_of_some hw] at hx
    split at hx
    case isTrue hj =>
      have hx : .working t = x := Option.some.inj hx
      subst hj hx
      refine ⟨c, ?_, hok⟩
      rw [← hr]
      simp [claimsOf, hc]
    case isFalse hj =>
      have := h.history j x hx
      simpa [claimsOf, hc, Ne.symm hj] using this
  claimants := by
    have ⟨hlt, _⟩ := List.getElem?_eq_some_iff.mp hw
    rw [hc, hq, List.length_set]
    exact List.forall_mem_cons.mpr ⟨hlt, h.claimants⟩
  workers := by
    rw [hq, List.length_set]
    exact h.workers
  failure := hf ▸ h.failure

theorem of_run {c : Chunk} {r : Except ε σ} (h : Logged p rs) (hw : p.workers[i]? = some w)
    (hq : q.workers = p.workers.set i w') (hc : q.claims = p.claims) (hf : q.failure = p.failure)
    (hr : w'.Ran (p.claimsOf i) (runsOf rs i ++ [⟨i, c, r⟩])) : Logged q (rs ++ [⟨i, c, r⟩]) where
  history j x hx := by
    rw [claimsOf, hc, runsOf_append]
    rw [hq, getElem?_set_of_some hw] at hx
    split at hx
    case isTrue hj =>
      have hx : w' = x := Option.some.inj hx
      subst hj hx
      rw [runsOf_self]
      exact hr
    case isFalse hj =>
      rw [runsOf_of_ne hj, List.append_nil]
      exact h.history j x hx
  claimants := by
    rw [hc, hq, List.length_set]
    exact h.claimants
  workers := by
    have ⟨hlt, _⟩ := List.getElem?_eq_some_iff.mp hw
    rw [hq, List.length_set]
    exact List.forall_mem_append.mpr ⟨h.workers, by simpa using hlt⟩
  failure e he := by
    have ⟨r', hr', hre⟩ := h.failure e (hf ▸ he)
    exact ⟨r', List.mem_append_left _ hr', hre⟩

theorem move (h : Logged p rs) (hm : Move job p i q) : Logged q (rs ++ (p.run? job i).toList) := by
  have hnone : p.run? job i = none → rs ++ (p.run? job i).toList = rs := fun hn => by simp [hn]
  have hran := h.history i
  cases hm
  case leave hw _ | spare hw _ | yield hw _ | clear hw _ | exhaust hw _ | announce hw =>
    have hr := hran _ hw
    rw [hnone (run?_of_not_working hw nofun)]
    exact h.of_same hw rfl rfl hr h.failure
  case claim hw _ =>
    have ⟨hc, hok⟩ := hran _ hw
    rw [hnone (run?_of_not_working hw nofun)]
    exact h.of_claim hw rfl rfl rfl hc hok
  case advance hw ha =>
    have hr := hran _ hw
    rw [hnone (run?_of_not_ended hw fun r => by simp [ha])]
    exact h.of_same hw rfl rfl hr h.failure
  case finish s g hw ha =>
    have ⟨c, hc, hok⟩ := hran _ hw
    rw [run?_of_working hw ha hc]
    refine h.of_run hw rfl rfl rfl ⟨by simp [hc], ?_⟩
    exact List.forall_mem_append.mpr ⟨hok, by simp⟩
  case crash e g hw ha _ | fail e g hw ha _ =>
    have ⟨c, hc, _⟩ := hran _ hw
    rw [run?_of_working hw ha hc]
    exact h.of_run hw rfl rfl rfl ⟨by simp [hc], ⟨i, c, .error e⟩, by simp, rfl⟩
  case report e hw =>
    have ⟨hc, r, hr, he⟩ := hran _ hw
    rw [hnone (run?_of_not_working hw nofun)]
    refine h.of_same hw rfl rfl ⟨hc, r, hr, e, he⟩ fun e' he' => ?_
    cases hp : p.failure
    case none =>
      have hee : e = e' := by simpa [setWorker, hp] using he'
      exact ⟨r, List.mem_of_mem_filter hr, hee ▸ he⟩
    case some e'' =>
      have hee : e'' = e' := by simpa [setWorker, hp] using he'
      exact h.failure e' (hee ▸ hp)

theorem follow (h : Logged p rs) (es : List Event) : Logged (p.follow job es) (rs ++ p.runs job es) := by
  induction es generalizing p rs
  case nil => simpa [runs, Pass.follow] using h
  case cons e es hi =>
    cases e
    case raise =>
      have hraise : Logged (p.apply job .raise) rs := ⟨h.history, h.claimants, h.workers, h.failure⟩
      exact hi hraise
    case worker i =>
      have hmove : Logged (p.apply job (.worker i)) (rs ++ (p.run? job i).toList) := by
        cases hs : p.step job i
        case none => simpa [apply, hs, run?_of_step_eq_none hs] using h
        case some q => simpa [apply, hs] using h.move (move_of_step hs)
      rw [runs, ← List.append_assoc]
      exact hi hmove

theorem start {concurrency : Nat} (init : σ) (shared : γ) (raised : Bool) :
    Logged (start upper concurrency size init shared raised : Pass σ τ γ ε) [] where
  history j w hw := by
    have hw := List.eq_of_mem_replicate (List.mem_of_getElem? hw)
    subst hw
    exact ⟨rfl, nofun⟩
  claimants := nofun
  workers := nofun
  failure := nofun

-- At the end, a worker has come to the end of all the chunks that it claimed, in that order.
theorem chunks_runsOf (h : Logged p rs) (hc : p.isComplete = true) (hi : i < p.workers.length) :
    (runsOf rs i).map (·.chunk) = (p.claimsOf i).reverse := by
  have hw := List.getElem?_eq_getElem hi
  have hr := h.history i _ hw
  have hf := List.all_eq_true.mp hc _ (List.mem_of_getElem? hw)
  rw [← List.reverse_eq_iff]
  generalize p.workers[i] = w at hr hf
  cases w
  case stopped | failed | crashed => exact hr.left.symm
  all_goals cases hf

theorem runs_perm (h : Logged p rs) (hc : p.isComplete = true) :
    (rs.map fun r => (r.worker, r.chunk)).Perm p.claims := by
  have hclaims := flatMap_filter_perm (fun x : Nat × Chunk => x.1) p.claims p.workers.length
  have hruns := flatMap_filter_perm (fun r : Run σ ε => r.worker) rs p.workers.length
  rw [List.filter_eq_self.mpr (by simpa using h.claimants)] at hclaims
  rw [List.filter_eq_self.mpr (by simpa using h.workers)] at hruns
  refine (hruns.map _).symm.trans (.trans ?_ hclaims)
  rw [List.map_flatMap]
  refine List.Perm.flatMap_left _ fun i hi => ?_
  have hof := congrArg (List.map (Prod.mk i)) (h.chunks_runsOf hc (List.mem_range.mp hi))
  have hworker : (runsOf rs i).map (fun r => (r.worker, r.chunk)) =
      ((runsOf rs i).map (·.chunk)).map (Prod.mk i) := by
    rw [List.map_map]
    refine List.map_congr_left fun r hr => ?_
    have : r.worker = i := by simpa using List.of_mem_filter hr
    rw [this, Function.comp_apply]
  have hclaimant : (p.claimsOf i).map (Prod.mk i) = p.claims.filter (·.1 = i) := by
    rw [claimsOf, List.map_map]
    refine (List.map_congr_left fun x hx => ?_).trans (List.map_id _)
    have : x.1 = i := by simpa using List.of_mem_filter hx
    exact Prod.ext this.symm rfl
  rw [List.map_reverse, hclaimant, ← hworker] at hof
  exact .trans (.of_eq hof) (List.reverse_perm _)

end Logged

namespace Dealing

theorem flatMap_ids (h : Dealing upper size p) :
    p.claims.reverse.flatMap (·.2.ids) = List.range (min (p.claims.length * max size 1) upper) := by
  rw [← Chunk.flatMap_ids_range, ← List.flatMap_map, List.map_reverse, h.claims, List.reverse_reverse,
    List.flatMap_map]

-- The chunks are cut at the multiples of the size.
theorem cut (h : Dealing upper size p) {x : Nat × Chunk} (hx : x ∈ p.claims) :
    max size 1 ∣ x.2.start ∧ x.2.start < x.2.stop ∧ x.2.stop = min (x.2.start + max size 1) upper := by
  have ⟨t, ht, htc⟩ := List.mem_map.mp (h.mem_all hx)
  have hlt := Dispenser.lt_chunkCount_iff.mp (List.mem_range.mp ht)
  rw [← htc]
  simp only [Chunk.nth, Nat.add_one_mul]
  exact ⟨Nat.dvd_mul_left .., by omega, trivial⟩

theorem nodup (h : Dealing upper size p) : (p.claims.map (·.2)).Nodup := by
  rw [h.claims, List.nodup_reverse]
  refine List.Pairwise.map _ (fun {s t} hst => ?_) List.pairwise_lt_range
  exact fun he => Nat.ne_of_lt (Chunk.start_lt_of_lt hst) (congrArg Chunk.start he)

theorem disjoint (h : Dealing upper size p) : p.claims.Pairwise fun x y => x.2.ids.Disjoint y.2.ids := by
  have hn : (p.claims.reverse.flatMap (·.2.ids)).Nodup := h.flatMap_ids ▸ List.nodup_range
  have := (List.nodup_flatMap.mp hn).right
  rw [List.pairwise_reverse] at this
  exact this.imp List.Disjoint.symm

-- Who claims a chunk has claimed only chunks in front of it.
theorem ascending (h : Dealing upper size p) (i : Nat) :
    (p.claimsOf i).reverse.Pairwise fun c d => c.stop ≤ d.start := by
  have hsub : (p.claimsOf i).reverse.Sublist (p.claims.map (·.2)).reverse :=
    (List.filter_sublist.map _).reverse
  refine List.Pairwise.sublist hsub ?_
  rw [h.claims, List.reverse_reverse, List.pairwise_map]
  refine List.pairwise_lt_range.imp fun {s t} hst => ?_
  have : (s + 1) * max size 1 ≤ t * max size 1 := Nat.mul_le_mul_right _ hst
  simp only [Chunk.nth]
  omega

end Dealing

-- A complete pass ends with an error if a chunk failed, and with the error of such a chunk.
theorem outcome_of_runs (ho : Orderly upper size p) (hl : Logged p rs) (hc : p.isComplete = true) :
    (∃ e, p.outcome = .error e ∧ ∃ r ∈ rs, r.result = .error e) ∨
      ∃ kept, p.workers = kept.map .stopped ∧ p.outcome = .ok kept ∧ ∀ r ∈ rs, ∃ s, r.result = .ok s := by
  rcases ho.outcome_of_complete hc with ⟨e, hw, he⟩ | ⟨e, hf, he⟩ | ⟨kept, hk, he⟩
  case inl =>
    have ⟨j, hj⟩ := List.mem_iff_getElem?.mp hw
    have ⟨_, r, hr, hre⟩ := hl.history j _ hj
    exact .inl ⟨e, he, r, List.mem_of_mem_filter hr, hre⟩
  case inr.inl => exact .inl ⟨e, he, hl.failure e hf⟩
  case inr.inr =>
    refine .inr ⟨kept, hk, he, fun r hr => ?_⟩
    have ⟨w, hw⟩ : ∃ w, p.workers[r.worker]? = some w := ⟨_, List.getElem?_eq_getElem (hl.workers r hr)⟩
    have hmem := List.mem_of_getElem? hw
    rw [hk] at hmem
    have ⟨s, _, hs⟩ := List.mem_map.mp hmem
    have ⟨_, hok⟩ := hl.history r.worker _ (hw.trans (congrArg some hs.symm))
    exact hok r (List.mem_filter.mpr ⟨hr, by simp⟩)

theorem length_kept {concurrency : Nat} {es : List Event} {init : σ} {shared : γ} {raised : Bool} {kept : List σ}
    (h : ((start upper concurrency size init shared raised).follow job es).workers = kept.map .stopped) :
    kept.length = min (max concurrency 1) (max (upper ⌈/⌉ max size 1) 1) := by
  have hl := congrArg List.length h
  rw [length_follow, List.length_map, Pass.start, List.length_replicate] at hl
  rw [← hl, workerCount, chunkCount, Nat.ceilDiv_eq_add_pred_div]
  congr 3
  omega

variable {concurrency : Nat} {init : σ} {shared : γ} {raised : Bool} {es : List Event}

-- Whatever turns the workers take and whenever the flag is raised, a complete pass has worked through a first part
-- of the ids, each of its chunks once, and ends with the error of a chunk if and only if one failed.
theorem follow_runs (hu : upper ≤ 2 ^ 32) (hs : size ≤ Word64.greatest) :
    let p := (start upper concurrency size init shared raised).follow job es
    let rs := (start upper concurrency size init shared raised).runs job es
    p.isComplete = true →
      (rs.map fun r => (r.worker, r.chunk)).Perm p.claims ∧
      (p.claims.map (·.2)).Nodup ∧
      p.claims.Pairwise (fun x y => x.2.ids.Disjoint y.2.ids) ∧
      (∀ i, ((rs.filter (·.worker = i)).map (·.chunk)).Pairwise fun c d => c.stop ≤ d.start) ∧
      (∀ x ∈ p.claims,
        max size 1 ∣ x.2.start ∧ x.2.start < x.2.stop ∧ x.2.stop = min (x.2.start + max size 1) upper) ∧
      (∃ m ≤ upper, p.claims.reverse.flatMap (·.2.ids) = List.range m ∧
        (raised = false → .raise ∉ es → (∀ r ∈ rs, ∃ s, r.result = .ok s) → m = upper)) ∧
      ((∃ e, p.outcome = .error e ∧ ∃ r ∈ rs, r.result = .error e) ∨
        ∃ kept, p.outcome = .ok kept ∧ (∀ r ∈ rs, ∃ s, r.result = .ok s) ∧
          kept.length = min (max concurrency 1) (max (upper ⌈/⌉ max size 1) 1)) := by
  intro p rs hc
  have hcount : 3 * upper ≤ Word64.count := by
    simp only [Word64.count]
    omega
  have ho : Orderly upper size p :=
    (Orderly.start init shared raised (le_greatest hcount) (lasts_workerCount concurrency hs hcount)).follow es
  have hl : Logged p rs := (Logged.start init shared raised).follow es
  have hp := hl.runs_perm hc
  have hcases := outcome_of_runs ho hl hc
  refine ⟨hp, ho.dealing.nodup, ho.dealing.disjoint, fun i => ?ascending, fun x hx => ho.dealing.cut hx,
    ⟨_, Nat.min_le_right .., ho.dealing.flatMap_ids, fun hr he hok => ?all⟩,
    ?outcome⟩
  case ascending =>
    by_cases hi : i < p.workers.length
    case pos =>
      have hof : (rs.filter (·.worker = i)).map (·.chunk) = (p.claimsOf i).reverse := hl.chunks_runsOf hc hi
      exact hof ▸ ho.dealing.ascending i
    case neg =>
      have hnone : rs.filter (·.worker = i) = [] :=
        List.filter_eq_nil_iff.mpr fun r hr => by
          have := hl.workers r hr
          simp
          omega
      rw [hnone]
      exact .nil
  case outcome =>
    refine hcases.imp_right ?_
    rintro ⟨kept, hk, ho, hok⟩
    exact ⟨kept, ho, hok, length_kept hk⟩
  case all =>
    rcases hcases with ⟨e, _, r, hr', hre⟩ | ⟨kept, hk, _⟩
    case inl =>
      obtain ⟨s, hs⟩ := hok r hr'
      cases hre.symm.trans hs
    case inr =>
      have hn : p.workers ≠ [] := by
        have hlen : p.workers.length = workerCount upper concurrency size :=
          (length_follow _ _).trans List.length_replicate
        exact List.ne_nil_of_length_pos (hlen ▸ workerCount_pos ..)
      have hraised : p.raised = false := (raised_follow _ he).trans hr
      rw [ho.length_claims_of_stopped hk hn hraised]
      exact Nat.min_eq_right (Dispenser.le_chunkCount_mul upper size)

-- One worker fails at the second chunk. The other has seen no flag up and claims the third.
theorem follow_runs_of_failure :
    let job : Job Nat (Nat × Chunk) Unit String :=
      .whole (fun s c g => (if c.start = 2 then .error "second" else .ok (s + c.width), g)) fun _ => false
    let es : List Event := List.replicate 3 (.worker 0) ++ List.replicate 4 (.worker 1) ++
      List.replicate 4 (.worker 0) ++ List.replicate 2 (.worker 1) ++ List.replicate 3 (.worker 0)
    let p := (start 5 2 2 0 () false).follow job es
    let rs := (start 5 2 2 0 () false).runs job es
    p.isComplete = true ∧ p.outcome = .error "second" ∧ rs.length = 3 ∧
      (rs.map fun r => (r.worker, r.chunk)).Perm p.claims ∧
      p.claims.Pairwise (fun x y => x.2.ids.Disjoint y.2.ids) := by
  intro job es p rs
  have hc : p.isComplete = true := by decide +kernel
  have ⟨hp, _, hd, _⟩ := @follow_runs _ _ _ _ job 5 2 2 0 () false es (by decide) (by decide) hc
  exact ⟨hc, by decide +kernel, by decide +kernel, hp, hd⟩

end Pass

end PropertyGraph
