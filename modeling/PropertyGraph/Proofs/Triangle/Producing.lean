import PropertyGraph.Proofs.Chunk.Run
import PropertyGraph.Proofs.Triangle.Count
import PropertyGraph.Triangle.Stream

namespace PropertyGraph

open TriangleStream (Task Channel)

variable {v : View} {e : PartIntersection} {ts : Nat → List Triangle} {size i : Nat}
  {p q : Pass Pool Task Channel Fault} {sent : List Triangle} {task : Task} {channel : Channel}
  {w w' : Phase Pool Task Fault}

namespace TriangleStream

-- At every node these triangles are found, whatever the cursors were used for before, and they have external ids.
structure Searches (v : View) (e : PartIntersection) (ts : Nat → List Triangle) : Prop where
  finds : e.Finds ts
  named : ∀ a < e.nodeCount, ∀ t ∈ ts a, ∃ x, externalTriangle v t = .ok x

-- What a worker has still to send of a chunk.
def Task.load (ts : Nat → List Triangle) (task : Task) : List Triangle :=
  task.unsent ++ task.anchors.flatMap ts

structure Task.Valid (v : View) (e : PartIntersection) (task : Task) : Prop where
  anchors : ∀ a ∈ task.anchors, a < e.nodeCount
  unsent : ∀ t ∈ task.unsent, ∃ x, externalTriangle v t = .ok x

-- What a worker can do next inside a chunk while there is a reader.
inductive Task.Turn (v : View) (ts : Nat → List Triangle) (task : Task) (channel : Channel) :
    Progress Pool Task Fault × Channel → Prop
  | wait : channel.isFull = true → Turn v ts task channel (.blocked, channel)
  | send {t unsent x} : task.unsent = t :: unsent → channel.isFull = false → externalTriangle v t = .ok x →
    Turn v ts task channel (.working { task with unsent }, channel.send (.ok x))
  | search {a anchors pool} : task.unsent = [] → task.anchors = a :: anchors →
    Turn v ts task channel (.working ⟨pool, anchors, ts a⟩, channel)
  | finish : task.unsent = [] → task.anchors = [] →
    Turn v ts task channel (.ended (.ok task.pool), channel)

theorem Task.Valid.turn (hs : Searches v e ts) (h : task.Valid v e) (ho : channel.isOpen = true) :
    Turn v ts task channel (task.advance v e channel) := by
  rw [advance]
  split
  case h_1 t unsent hu =>
    have ⟨x, hx⟩ := h.unsent t (hu ▸ List.mem_cons_self)
    cases hf : channel.isFull
    case false => simpa [hx, ho, hf] using .send hu hf hx
    case true => simpa [hx, ho, hf] using .wait hf
  case h_2 hu =>
    split
    case h_1 ha => exact .finish hu ha
    case h_2 a anchors ha =>
      have ⟨pool, hp⟩ := hs.finds a (h.anchors a (ha ▸ List.mem_cons_self)) task.pool
      rw [hp]
      exact .search hu ha

-- The part of a task that is left after some triangles were sent.
theorem Task.Turn.exists_sent {task' : Task} {channel' : Channel}
    (h : Turn v ts task channel (.working task', channel')) :
    ∃ now, task.load ts = now ++ task'.load ts ∧
      channel'.waiting.toList = channel.waiting.toList ++ now.map (externalTriangle v) ∧
      channel'.isOpen = channel.isOpen ∧ channel'.capacity = channel.capacity := by
  cases h
  case send t unsent x hu _ hx =>
    refine ⟨[t], by simp [load, hu], ?_, rfl, rfl⟩
    rw [List.map_singleton, hx]
    exact Queue.toList_push ..
  case search a anchors pool hu ha => exact ⟨[], by simp [load, hu, ha], by simp, rfl, rfl⟩

theorem Task.Turn.valid {task' : Task} {channel' : Channel} (hs : Searches v e ts) (hv : task.Valid v e)
    (h : Turn v ts task channel (.working task', channel')) : task'.Valid v e := by
  cases h
  case send hu _ _ => exact ⟨hv.anchors, fun t ht => hv.unsent t (hu ▸ List.mem_cons_of_mem _ ht)⟩
  case search a anchors pool _ ha =>
    have ⟨hlt, hanchors⟩ := List.forall_mem_cons.mp (ha ▸ hv.anchors)
    exact ⟨hanchors, hs.named a hlt⟩

end TriangleStream

namespace Phase

-- What a worker has still to send.
def load (ts : Nat → List Triangle) : Phase Pool Task Fault → List Triangle
  | working task => task.load ts
  | _ => []

-- Where a worker can be that has not failed.
def Calm (v : View) (e : PartIntersection) : Phase Pool Task Fault → Prop
  | ready _ | spared _ | cleared _ | stopped _ => True
  | working task => task.Valid v e
  | _ => False

end Phase

namespace TriangleStream

-- The triangles of the chunks that were claimed.
def claimed (ts : Nat → List Triangle) (p : Pass Pool Task Channel Fault) : List Triangle :=
  p.claims.flatMap fun x => x.2.ids.flatMap ts

-- No worker failed, and all that the workers have sent or have still to send is what they claimed.
structure Producing (v : View) (e : PartIntersection) (ts : Nat → List Triangle) (size : Nat)
    (p : Pass Pool Task Channel Fault) (sent : List Triangle) : Prop where
  orderly : p.Orderly e.nodeCount size
  workers : p.workers ≠ []
  isOpen : p.shared.isOpen = true
  room : 0 < p.shared.capacity
  calm : ∀ w ∈ p.workers, w.Calm v e
  sent : (p.workers.flatMap (Phase.load ts) ++ sent).Perm (claimed ts p)

namespace Producing

-- A worker takes over what it gained, and sends some of what it has.
theorem of_set (h : Producing v e ts size p sent) (hw : p.workers[i]? = some w)
    (hq : q.workers = p.workers.set i w') (ho : q.Orderly e.nodeCount size) {gained now : List Triangle}
    (hc : claimed ts q = gained ++ claimed ts p) (hl : gained ++ w.load ts = now ++ w'.load ts)
    (hcalm : w'.Calm v e) (hopen : q.shared.isOpen = p.shared.isOpen)
    (hroom : q.shared.capacity = p.shared.capacity) : Producing v e ts size q (sent ++ now) where
  orderly := ho
  workers := by
    rw [hq, Ne, List.set_eq_nil_iff]
    exact h.workers
  isOpen := hopen.trans h.isOpen
  room := hroom ▸ h.room
  calm x hx := by
    rw [hq] at hx
    cases List.mem_or_eq_of_mem_set hx
    case inl hx => exact h.calm x hx
    case inr hx => exact hx ▸ hcalm
  sent := by
    have hset := Pass.flatMap_set_perm (Phase.load ts) hw w'
    have hsent := h.sent
    rw [hq, hc]
    rw [List.perm_iff_count] at hset hsent ⊢
    intro t
    have hset := hset t
    have hsent := hsent t
    have hl := congrArg (List.count t) hl
    simp only [List.count_append] at hset hsent hl ⊢
    omega

theorem turn (hs : Searches v e ts) (h : Producing v e ts size p sent)
    (hw : p.workers[i]? = some (.working task)) :
    task.Turn v ts p.shared (task.advance v e p.shared) :=
  Task.Valid.turn hs (h.calm _ (List.mem_of_getElem? hw)) h.isOpen

theorem move (hs : Searches v e ts) (h : Producing v e ts size p sent) (hm : Pass.Move (job v e) p i q) :
    ∃ now, Producing v e ts size q (sent ++ now) ∧
      q.shared.waiting.toList = p.shared.waiting.toList ++ now.map (externalTriangle v) := by
  have ho := h.orderly.move hm
  have hcalm : ∀ w, p.workers[i]? = some w → w.Calm v e := fun w hw => h.calm w (List.mem_of_getElem? hw)
  cases hm
  case leave hw _ | spare hw _ | yield hw _ | clear hw _ | exhaust hw _ =>
    refine ⟨[], h.of_set hw rfl ho (List.nil_append _).symm ?load ?calm rfl rfl, (List.append_nil _).symm⟩
    case load => rfl
    case calm => exact trivial
  case claim pool c hw hc =>
    have hin : c ∈ Chunk.all e.nodeCount size := ho.dealing.mem_all List.mem_cons_self
    refine ⟨[], h.of_set hw rfl ho (List.flatMap_cons ..) ?load ?calm rfl rfl, (List.append_nil _).symm⟩
    case load => simp [Phase.load, Task.load, job]
    case calm => exact ⟨fun a ha => Chunk.lt_of_mem_ids hin ha, nofun⟩
  case advance task task' channel hw ha =>
    have hturn : task.Turn v ts p.shared (.working task', channel) := ha ▸ h.turn hs hw
    have ⟨now, hload, hwaiting, hopen, hroom⟩ := hturn.exists_sent
    refine ⟨now, h.of_set hw rfl ho (List.nil_append _).symm ?load ?calm hopen hroom, hwaiting⟩
    case load => exact hload
    case calm => exact hturn.valid hs (hcalm _ hw)
  case finish task pool channel hw ha =>
    have hturn : task.Turn v ts p.shared (.ended (.ok pool), channel) := ha ▸ h.turn hs hw
    cases hturn
    case finish hu hanchors =>
      refine ⟨[], h.of_set hw rfl ho (List.nil_append _).symm ?load ?calm rfl rfl, (List.append_nil _).symm⟩
      case load => simp [Phase.load, Task.load, hu, hanchors]
      case calm => exact trivial
  case crash task f channel hw ha _ | fail task f channel hw ha _ =>
    have hturn : task.Turn v ts p.shared (.ended (.error f), channel) := ha ▸ h.turn hs hw
    cases hturn
  case announce hw | report hw => exact absurd (hcalm _ hw) id

-- What holds of the workers does not depend on what waits for the reader.
theorem of_shared (h : Producing v e ts size p sent) {channel : Channel} (ho : channel.isOpen = p.shared.isOpen)
    (hc : channel.capacity = p.shared.capacity) : Producing v e ts size { p with shared := channel } sent where
  orderly := ⟨h.orderly.bounded, h.orderly.lasts, h.orderly.dealing.of_same rfl rfl (Nat.le_refl _),
    h.orderly.reported.announced, h.orderly.reported.left, h.orderly.reported.stopped⟩
  workers := h.workers
  isOpen := ho.trans h.isOpen
  room := hc ▸ h.room
  calm := h.calm
  sent := h.sent

theorem raise (h : Producing v e ts size p sent) : Producing v e ts size { p with raised := true } sent where
  orderly := h.orderly.raise
  workers := h.workers
  isOpen := h.isOpen
  room := h.room
  calm := h.calm
  sent := h.sent

theorem start {concurrency capacity : Nat} (hu : e.nodeCount ≤ Word64.greatest)
    (hl : Dispenser.Lasts e.nodeCount size (Pass.workerCount e.nodeCount concurrency size)) (hc : 0 < capacity)
    (raised : Bool) :
    Producing v e ts size (.start e.nodeCount concurrency size .fresh { capacity } raised) [] where
  orderly := .start _ _ raised hu hl
  workers := List.ne_nil_of_length_pos (List.length_replicate ▸ Pass.workerCount_pos ..)
  isOpen := rfl
  room := hc
  calm w hw := by
    rw [List.eq_of_mem_replicate hw]
    trivial
  sent := by
    simp [Pass.start, Phase.load, claimed]

-- At the end the workers have sent all triangles of the chunks that they claimed, which are all chunks unless the
-- flag is up.
theorem complete (h : Producing v e ts size p sent) (hc : p.isComplete = true) :
    ∃ kept, p.outcome = .ok kept ∧ sent.Perm (claimed ts p) ∧
      (p.raised = false → p.claims.length = Dispenser.chunkCount e.nodeCount size) := by
  rcases h.orderly.outcome_of_complete hc with ⟨f, hw, _⟩ | ⟨f, hf, _⟩ | ⟨kept, hk, ho⟩
  case inl => exact absurd (h.calm _ hw) id
  case inr.inl =>
    have ⟨w, hw, he⟩ := h.orderly.reported.left.mp (by rw [hf]; rfl)
    exact absurd (h.calm w hw) (he ▸ id)
  case inr.inr =>
    have hload : p.workers.flatMap (Phase.load ts) = [] := by
      rw [hk, List.flatMap_map]
      exact List.flatMap_eq_nil_iff.mpr fun _ _ => rfl
    exact ⟨kept, ho, by simpa [hload] using h.sent, h.orderly.length_claims_of_stopped hk h.workers⟩

-- The anchors of the chunks that were claimed are the first ones.
theorem claimed_perm (h : Producing v e ts size p sent) :
    (claimed ts p).Perm ((List.range (min (p.claims.length * max size 1) e.nodeCount)).flatMap ts) := by
  rw [← h.orderly.dealing.flatMap_ids, List.flatMap_assoc]
  exact (List.reverse_perm p.claims).symm.flatMap_right _

section Progress

-- Moves that are enough to send everything of a task.
def weight (ts : Nat → List Triangle) (task : Task) : Nat :=
  2 * task.unsent.length + (task.anchors.map fun a => 2 * (ts a).length + 1).sum

-- Moves that are enough for the workers to come to their end and for the reader to take out what was sent.
def toGo (ts : Nat → List Triangle) (n size : Nat) (p : Pass Pool Task Channel Fault) : Nat :=
  p.toGo (weight ts) (fun c => (c.ids.map fun a => 2 * (ts a).length + 1).sum) n size + p.shared.waiting.size

theorem toGo_move (hs : Searches v e ts) (h : Producing v e ts size p sent) (hm : Pass.Move (job v e) p i q) :
    toGo ts e.nodeCount size q < toGo ts e.nodeCount size p := by
  refine Pass.toGo_move (fun channel : Channel => channel.waiting.size) h.orderly hm (fun pool c => ?enter)
    (fun task task' channel hw ha => ?working) (fun task r channel hw ha => ?ended)
  case enter => simp [weight, job]
  case working =>
    have hturn : task.Turn v ts p.shared (.working task', channel) := ha ▸ h.turn hs hw
    cases hturn
    case send hu _ _ =>
      simp only [weight, hu, List.length_cons, Channel.send, Queue.push]
      omega
    case search hu hanchors =>
      simp only [weight, hu, hanchors, List.length_nil, List.map_cons, List.sum_cons]
      omega
  case ended =>
    have hturn : task.Turn v ts p.shared (.ended r, channel) := ha ▸ h.turn hs hw
    cases hturn
    exact Nat.le_add_left ..

-- A worker waits only where the reader has to take something out first.
theorem exists_move (hs : Searches v e ts) (h : Producing v e ts size p sent) (hc : p.isComplete = false)
    (hf : p.shared.isFull = false) : ∃ i q, p.step (job v e) i = some q := by
  by_contra hn
  have hnone : ∀ i < p.workers.length, p.step (job v e) i = none := fun i _ =>
    Option.eq_none_iff_forall_ne_some.mpr fun q hq => hn ⟨i, q, hq⟩
  refine Bool.eq_false_iff.mp hc (Pass.isComplete_of_forall_step hnone fun task hw hb => ?_)
  have ⟨i, hi⟩ := List.mem_iff_getElem?.mp hw
  have hturn := h.turn hs hi
  generalize hr : task.advance v e p.shared = r at hturn
  have hb : r.1 = .blocked := by rw [← hr]; exact hb
  cases hturn
  case wait hfull => simp [hf] at hfull
  all_goals cases hb

end Progress

end Producing

end TriangleStream

end PropertyGraph
