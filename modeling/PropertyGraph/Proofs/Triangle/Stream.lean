import PropertyGraph.Proofs.Triangle.External
import PropertyGraph.Proofs.Triangle.Producing

namespace PropertyGraph

open Dispenser (chunkCount)

namespace Queue

theorem size_eq_length {α : Type} (q : Queue α) : q.size = q.toList.length := by
  rw [q.size_eq, toList, List.length_append, List.length_reverse]

end Queue

namespace TriangleStream

variable {v : View} {e : PartIntersection} {ts : Nat → List Triangle} {size i : Nat} {s : TriangleStream}
  {taken : List (Except Fault Triangle)} {sent : List Triangle} {last : List Fault} {es : List Event}

-- How far the producer can be if it sent these errors.
def Producer.Fits (n size : Nat) (p : Pass Pool Task Channel Fault) (last : List Fault) : Producer → Prop
  | .waiting => last = []
  | .handingOver f => p.isComplete = true ∧ last = [] ∧ f = .terminated ∧ p.raised = true
  | .done r => p.isComplete = true ∧ r = .ok () ∧
    (last = [] ∧ p.claims.length = chunkCount n size ∨ last = [.terminated] ∧ p.raised = true)

theorem Producer.Fits.raise {n : Nat} {p : Pass Pool Task Channel Fault} {producer : Producer}
    (h : producer.Fits n size p last) : producer.Fits n size { p with raised := true } last := by
  cases producer
  case waiting => exact h
  case handingOver =>
    have ⟨hc, hl, hf, _⟩ := h
    exact ⟨hc, hl, hf, rfl⟩
  case done =>
    have ⟨hc, hr, hl⟩ := h
    exact ⟨hc, hr, hl.imp_right fun hl => ⟨hl.left, rfl⟩⟩

-- What was taken out and what waits are all triangles that the workers sent and the error behind them, in that order.
structure Flowing (v : View) (e : PartIntersection) (ts : Nat → List Triangle) (size : Nat) (s : TriangleStream)
    (taken : List (Except Fault Triangle)) (sent : List Triangle) (last : List Fault) : Prop where
  view : s.view = v
  intersection : s.intersection = e
  producing : Producing v e ts size s.pass sent
  items : taken ++ s.channel.waiting.toList = sent.map (externalTriangle v) ++ last.map .error
  producer : s.producer.Fits e.nodeCount size s.pass last

theorem exists_start {c : TriangleConfig} (he : v.triangles c = .ok e) (hu : e.nodeCount ≤ Word64.greatest)
    (hl : ∀ concurrency, Dispenser.Lasts e.nodeCount c.chunkSize (Pass.workerCount e.nodeCount concurrency c.chunkSize))
    (raised : Bool) :
    ∃ s, start v c raised = .ok s ∧ s.pass.raised = raised ∧ Flowing v e ts c.chunkSize s [] [] [] := by
  have hroom : 0 < max c.queueCapacity 1 := by omega
  exact ⟨_, congrArg (· >>= _) he, rfl, rfl, rfl, .start hu (hl _) hroom raised, rfl, rfl⟩

namespace Flowing

-- Behind the last error no worker moves any more.
theorem worker (hs : Searches v e ts) (h : Flowing v e ts size s taken sent last) (i : Nat) :
    ∃ sent', Flowing v e ts size ((s.stepWorker i).getD s) taken sent' last := by
  obtain ⟨rfl, rfl, hp, hitems, hproducer⟩ := h
  rw [stepWorker]
  cases hstep : s.pass.step (job s.view s.intersection) i
  case none => exact ⟨sent, rfl, rfl, hp, hitems, hproducer⟩
  case some q =>
    have ⟨now, hq, hwaiting⟩ := hp.move hs (Pass.move_of_step hstep)
    have hwaits : s.producer = .waiting := by
      have hn : ¬s.pass.isComplete = true := fun hc => by simp [Pass.step_eq_none_of_isComplete hc] at hstep
      cases hr : s.producer
      case waiting => rfl
      all_goals exact absurd (hr ▸ hproducer).left hn
    rw [hwaits] at hproducer
    have hlast : last = [] := hproducer
    refine ⟨sent ++ now, rfl, rfl, hq, ?items, ?producer⟩
    case items =>
      rw [hlast] at hitems ⊢
      rw [List.map_nil, List.append_nil] at hitems ⊢
      rw [List.map_append, ← hitems, List.append_assoc]
      exact congrArg (taken ++ ·) hwaiting
    case producer =>
      rw [Option.map_some, Option.getD_some, hwaits]
      exact hlast

-- The producer sends an error only if the flag is up.
theorem produce (h : Flowing v e ts size s taken sent last) :
    ∃ last', Flowing v e ts size (s.stepProducer.getD s) taken sent last' := by
  obtain ⟨hv, he, hp, hitems, hproducer⟩ := h
  rw [stepProducer]
  cases hr : s.producer
  case done => exact ⟨last, hv, he, hp, hitems, hproducer⟩
  case handingOver f =>
    rw [hr] at hproducer
    obtain ⟨hc, rfl, rfl, hraised⟩ := hproducer
    have hopen : s.channel.isOpen = true := hp.isOpen
    simp only [hopen, Bool.not_true, Bool.false_eq_true, if_false]
    split
    case isTrue => exact ⟨[], hv, he, hp, hitems, hr ▸ ⟨hc, rfl, rfl, hraised⟩⟩
    case isFalse =>
      refine ⟨[.terminated], hv, he, hp.of_shared rfl rfl, ?_, hc, rfl, .inr ⟨rfl, hraised⟩⟩
      simp only [List.map_nil, List.append_nil] at hitems
      rw [← hitems, List.append_assoc]
      exact congrArg (taken ++ ·) (Queue.toList_push ..)
  case waiting =>
    rw [hr] at hproducer
    obtain rfl : last = [] := hproducer
    by_cases hc : s.pass.isComplete = true
    case neg =>
      rw [if_neg hc]
      exact ⟨[], hv, he, hp, hitems, by rw [Option.getD_none, hr]; exact rfl⟩
    case pos =>
      have ⟨kept, ho, _, hall⟩ := hp.complete hc
      rw [if_pos hc, ho]
      cases hraised : s.pass.raised
      case false => exact ⟨[], hv, he, hp, hitems, hc, rfl, .inl ⟨rfl, hall hraised⟩⟩
      case true => exact ⟨[], hv, he, hp, hitems, hc, rfl, rfl, hraised⟩

theorem raise (h : Flowing v e ts size s taken sent last) : Flowing v e ts size s.raise taken sent last :=
  ⟨h.view, h.intersection, h.producing.raise, h.items, h.producer.raise⟩

theorem receive (h : Flowing v e ts size s taken sent last) {item : Except Fault Triangle} {s' : TriangleStream}
    (hr : s.receive? = some (item, s')) : Flowing v e ts size s' (taken ++ [item]) sent last := by
  obtain ⟨⟨item', waiting⟩, hpop, he⟩ := Option.map_eq_some_iff.mp hr
  cases he
  refine ⟨h.view, h.intersection, h.producing.of_shared rfl rfl, ?items, h.producer⟩
  rw [← h.items, Queue.toList_of_pop? hpop, List.append_assoc]
  rfl

theorem apply (hs : Searches v e ts) (h : Flowing v e ts size s taken sent last) (event : Event) :
    ∃ sent' last', Flowing v e ts size (s.apply event).1 (taken ++ (s.apply event).2) sent' last' := by
  cases event
  case worker i =>
    have ⟨sent', h⟩ := h.worker hs i
    exact ⟨sent', last, (List.append_nil taken).symm ▸ h⟩
  case producer =>
    have ⟨last', h⟩ := h.produce
    exact ⟨sent, last', (List.append_nil taken).symm ▸ h⟩
  case raise => exact ⟨sent, last, (List.append_nil taken).symm ▸ h.raise⟩
  case receive =>
    rw [TriangleStream.apply]
    cases hr : s.receive?
    case none => exact ⟨sent, last, (List.append_nil taken).symm ▸ h⟩
    case some r => exact ⟨sent, last, h.receive hr⟩

theorem follow (hs : Searches v e ts) (h : Flowing v e ts size s taken sent last) (es : List Event) :
    ∃ sent' last', Flowing v e ts size (s.follow es).1 (taken ++ (s.follow es).2) sent' last' := by
  induction es generalizing s taken sent last
  case nil => exact ⟨sent, last, (List.append_nil taken).symm ▸ h⟩
  case cons event es hi =>
    have ⟨_, _, h⟩ := h.apply hs event
    have ⟨sent', last', h⟩ := hi h
    exact ⟨sent', last', List.append_assoc taken _ _ ▸ h⟩

end Flowing

theorem follow_append (s : TriangleStream) (es es' : List Event) :
    s.follow (es ++ es') = (((s.follow es).1.follow es').1, (s.follow es).2 ++ ((s.follow es).1.follow es').2) := by
  induction es generalizing s
  case nil => rfl
  case cons event es hi => simp only [List.cons_append, follow, hi, List.append_assoc]

theorem raised_apply {event : Event} (he : event ≠ .raise) : (s.apply event).1.pass.raised = s.pass.raised := by
  cases event
  case raise => exact absurd rfl he
  case worker i =>
    rw [apply, stepWorker]
    cases hs : s.pass.step (job s.view s.intersection) i
    case none => rfl
    case some q => exact Pass.raised_move (Pass.move_of_step hs)
  case producer =>
    simp only [apply, stepProducer]
    repeat' split
    all_goals rfl
  case receive =>
    rw [apply, receive?]
    cases s.channel.waiting.pop? <;> rfl

theorem raised_follow (he : .raise ∉ es) : (s.follow es).1.pass.raised = s.pass.raised := by
  induction es generalizing s
  case nil => rfl
  case cons event es hi =>
    have ⟨hne, hes⟩ := List.ne_and_not_mem_of_not_mem_cons he
    exact (hi hes).trans (raised_apply hne.symm)

section Progress

-- Moves that the producer has still to make, and what it adds to the queue.
def Producer.weight : Producer → Nat
  | .waiting => 3
  | .handingOver _ => 2
  | .done _ => 0

-- Moves that are enough to drain a stream.
def remaining (ts : Nat → List Triangle) (n size : Nat) (s : TriangleStream) : Nat :=
  Producing.toGo ts n size s.pass + s.producer.weight

namespace Flowing

theorem receive_remaining {item : Except Fault Triangle} {s' : TriangleStream}
    (hr : s.receive? = some (item, s')) : remaining ts e.nodeCount size s' < remaining ts e.nodeCount size s := by
  obtain ⟨⟨item', waiting⟩, hpop, he⟩ := Option.map_eq_some_iff.mp hr
  cases he
  have hsize : s.pass.shared.waiting.size = waiting.size + 1 := by
    have htoList := congrArg List.length (Queue.toList_of_pop? hpop)
    rwa [List.length_cons, ← Queue.size_eq_length, ← Queue.size_eq_length] at htoList
  simp only [remaining, Producing.toGo, setChannel, Pass.toGo, hsize]
  omega

theorem produce_remaining (h : Flowing v e ts size s taken sent last) (hc : s.pass.isComplete = true)
    (hf : s.channel.isFull = false) (hd : ∀ r, s.producer ≠ .done r) :
    remaining ts e.nodeCount size (s.stepProducer.getD s) < remaining ts e.nodeCount size s := by
  have hopen : s.channel.isOpen = true := h.producing.isOpen
  have ⟨kept, ho, _⟩ := h.producing.complete hc
  cases hr : s.producer
  case done r => exact absurd hr (hd r)
  case handingOver f =>
    have hstep : s.stepProducer =
        some { s.setChannel (s.channel.send (.error f)) with producer := .done (.ok ()) } := by
      simp [stepProducer, hr, hopen, hf]
    have hsize : (s.channel.send (.error f)).waiting.size = s.pass.shared.waiting.size + 1 := rfl
    simp only [hstep, Option.getD_some, remaining, Producing.toGo, setChannel, Pass.toGo, hsize, hr, Producer.weight]
    omega
  case waiting =>
    cases hraised : s.pass.raised
    all_goals simp [stepProducer, hr, hc, ho, hraised, remaining, Producer.weight]

-- As long as a stream is not drained, the reader can take something out, or someone else can move.
theorem exists_event (hs : Searches v e ts) (h : Flowing v e ts size s taken sent last)
    (hd : s.isDrained = false) :
    ∃ event, event ≠ .raise ∧ remaining ts e.nodeCount size (s.apply event).1 < remaining ts e.nodeCount size s := by
  cases hr : s.receive?
  case some r =>
    refine ⟨.receive, nofun, ?_⟩
    simp only [TriangleStream.apply, hr]
    exact receive_remaining hr
  case none =>
    have hempty : s.channel.waiting.toList = [] := Queue.pop?_eq_none.mp (by simpa [receive?] using hr)
    have hf : s.channel.isFull = false := by
      have hroom : 0 < s.channel.capacity := h.producing.room
      rw [Channel.isFull, Queue.size_eq_length, hempty]
      exact decide_eq_false (Nat.not_le.mpr hroom)
    cases hc : s.pass.isComplete
    case false =>
      have ⟨i, q, hq⟩ := h.producing.exists_move hs hc hf
      have hlt := Producing.toGo_move hs h.producing (Pass.move_of_step hq)
      refine ⟨.worker i, nofun, ?_⟩
      rw [← h.view, ← h.intersection] at hq
      simp only [TriangleStream.apply, stepWorker, hq, Option.map_some, Option.getD_some, remaining]
      omega
    case true =>
      refine ⟨.producer, nofun, h.produce_remaining hc hf fun r hdone => ?_⟩
      simp [isDrained, hempty, hdone] at hd

-- However far a stream got, it can still be drained.
theorem exists_drained (hs : Searches v e ts) (h : Flowing v e ts size s taken sent last) :
    ∃ es, .raise ∉ es ∧ (s.follow es).1.isDrained = true := by
  generalize hm : remaining ts e.nodeCount size s = m
  induction m using Nat.strong_induction_on generalizing s taken sent last
  case h m hi =>
    cases hd : s.isDrained
    case true => exact ⟨[], List.not_mem_nil, hd⟩
    case false =>
      have ⟨event, hne, hlt⟩ := h.exists_event hs hd
      have ⟨_, _, h'⟩ := h.apply hs event
      have ⟨es, hes, hdrained⟩ := hi _ (hm ▸ hlt) h' rfl
      exact ⟨event :: es, List.not_mem_cons_of_ne_of_not_mem hne.symm hes, hdrained⟩

end Flowing

end Progress

-- The triangles of the first anchors are those whose smallest corner is one of them.
theorem flatMap_range_eq_filter {n m : Nat} (h : ∀ a < n, ∀ t ∈ ts a, t.a = a) :
    (List.range (min m n)).flatMap ts = ((List.range n).flatMap ts).filter (·.a < m) := by
  have hfilter : ∀ a < n, (ts a).filter (·.a < m) = if a < m then ts a else [] := fun a ha => by
    split
    case isTrue hm => exact List.filter_eq_self.mpr fun t ht => decide_eq_true (h a ha t ht ▸ hm)
    case isFalse hm => exact List.filter_eq_nil_iff.mpr fun t ht => by simpa [h a ha t ht] using hm
  have ⟨k, hk⟩ : ∃ k, n = min m n + k := Nat.exists_eq_add_of_le (Nat.min_le_right m n)
  have hrange : List.range n = List.range (min m n) ++ (List.range k).map (min m n + ·) := by
    conv => lhs; rw [hk, List.range_add]
  rw [List.filter_flatMap, hrange, List.flatMap_append]
  have hfirst : (List.range (min m n)).flatMap (fun a => (ts a).filter (·.a < m)) = (List.range (min m n)).flatMap ts :=
    List.flatMap_congr fun a ha => by
      have ha := List.mem_range.mp ha
      rw [hfilter a (by omega), if_pos (by omega)]
  have hrest : ((List.range k).map (min m n + ·)).flatMap (fun a => (ts a).filter (·.a < m)) = [] := by
    rw [List.flatMap_eq_nil_iff]
    intro a ha
    have ⟨j, hj, hja⟩ := List.mem_map.mp ha
    have hj := List.mem_range.mp hj
    rw [hfilter a (by omega), if_neg (by omega)]
  rw [hfirst, hrest, List.append_nil]

-- The reader of a drained stream has taken out everything.
theorem Flowing.of_drained (h : Flowing v e ts size s taken sent last) (hd : s.isDrained = true) :
    taken = sent.map (externalTriangle v) ++ last.map .error ∧
    sent.Perm ((List.range (min (s.pass.claims.length * max size 1) e.nodeCount)).flatMap ts) ∧
    (last = [] ∧ e.nodeCount ≤ s.pass.claims.length * max size 1 ∨ last = [.terminated] ∧ s.pass.raised = true) := by
  have ⟨hempty, hdone⟩ := Bool.and_eq_true_iff.mp hd
  have hitems := h.items
  rw [List.isEmpty_iff.mp hempty, List.append_nil] at hitems
  have hproducer := h.producer
  cases hr : s.producer
  case waiting | handingOver => simp [hr] at hdone
  case done r =>
    rw [hr] at hproducer
    have ⟨hc, _, hlast⟩ := hproducer
    have ⟨_, _, hsent, _⟩ := h.producing.complete hc
    refine ⟨hitems, hsent.trans h.producing.claimed_perm, hlast.imp_left fun ⟨hl, hall⟩ => ⟨hl, ?_⟩⟩
    exact hall ▸ Dispenser.le_chunkCount_mul e.nodeCount size

-- What the reader has taken out of a drained stream is the triangles of the first anchors by external ids.
theorem Flowing.delivers {part : Part} (hm : part.Made) (hs : Searches (.single part) e ts)
    (ha : ∀ a < e.nodeCount, ∀ t ∈ ts a, t.a = a) {triangles : List Triangle}
    (ht : triangles = (List.range e.nodeCount).flatMap ts) (hn : triangles.Nodup)
    (h : Flowing (.single part) e ts size s taken sent last) (hd : s.isDrained = true) :
    ∃ (delivered : List Triangle) (k : Nat), taken = delivered.map .ok ++ last.map .error ∧ delivered.Nodup ∧
      ((triangles.filter (·.a < k * max size 1)).map (externalTriangle (.single part))).Perm (delivered.map .ok) ∧
      (last = [] ∧ (triangles.map (externalTriangle (.single part))).Perm (delivered.map .ok) ∨
        last = [.terminated] ∧ s.pass.raised = true) := by
  have ⟨htaken, hsent, hlast⟩ := h.of_drained hd
  rw [flatMap_range_eq_filter ha, ← ht] at hsent
  have hnamed : ∀ t ∈ sent, ∃ x, externalTriangle (.single part) t = .ok x := fun t hmem => by
    have hmem := List.mem_of_mem_filter (hsent.mem_iff.mp hmem)
    rw [ht, List.mem_flatMap] at hmem
    have ⟨a, hlt, hmem⟩ := hmem
    exact hs.named a (List.mem_range.mp hlt) t hmem
  have ⟨delivered, hdelivered⟩ := Outcome.exists_map_ok hnamed
  have hfirst := (hsent.symm.map (externalTriangle (.single part))).trans (.of_eq hdelivered)
  refine ⟨delivered, _, hdelivered ▸ htaken, ?nodup, hfirst, hlast.imp_left fun ⟨hl, hle⟩ => ⟨hl, ?all⟩⟩
  case nodup =>
    have hn : (sent.map (externalTriangle (.single part))).Nodup := by
      refine (hsent.nodup_iff.mpr (hn.filter _)).map_on fun t hmem t' _ he => ?_
      have ⟨x, hx⟩ := hnamed t hmem
      exact externalTriangle_injective hm hx (he ▸ hx)
    exact .of_map _ (hdelivered ▸ hn)
  case all =>
    rw [List.filter_eq_self.mpr fun t hmem => ?_] at hfirst
    case _ => exact hfirst
    rw [ht, List.mem_flatMap] at hmem
    have ⟨a, hlt, hmem⟩ := hmem
    have hlt := List.mem_range.mp hlt
    exact decide_eq_true (ha a hlt t hmem ▸ Nat.lt_of_lt_of_le hlt hle)

end TriangleStream

open TriangleStream

-- A reader who drains a stream gets, each of them once, the triangles that a count of the same view tells of, by
-- external ids: all of them, or those of the first chunks of anchors and an error behind them, which takes the flag to
-- be raised. However the workers, the producer and the reader take turns, the stream can be drained. Nothing here
-- depends on how many workers there are, so it holds of any number that a request for any number is taken for.
theorem View.stream_delivers {part : Part} {c : TriangleConfig} (hm : part.Made) (hu : part.isUndirected = true)
    (hs : c.chunkSize ≤ Word64.greatest) :
    ∃ triangles : List Triangle, triangles.Nodup ∧ (∀ t, t ∈ triangles ↔ part.IsTriangle c.maxDegree t) ∧
      (single part).countTriangles c false = .ok (.ofTriangles part.nodeCount triangles) ∧
      ∀ raised, ∃ s, start (single part) c raised = .ok s ∧ ∀ es,
        (∃ es', .raise ∉ es' ∧ (s.follow (es ++ es')).1.isDrained = true) ∧
        ((s.follow es).1.isDrained = true →
          ∃ (delivered : List Triangle) (last : List Fault) (k : Nat),
            (s.follow es).2 = delivered.map .ok ++ last.map .error ∧ delivered.Nodup ∧
            ((triangles.filter (·.a < k * max c.chunkSize 1)).map (externalTriangle (single part))).Perm
              (delivered.map .ok) ∧
            (last = [] ∧ (triangles.map (externalTriangle (single part))).Perm (delivered.map .ok) ∨
              last = [.terminated]) ∧
            (raised = false → .raise ∉ es → last = [])) := by
  have ⟨targets, roots, hr⟩ := hm.rooted
  have ⟨ts, hfinds, hanchored, hnodup, hmem⟩ := hr.exists_anchored hu c.maxDegree
  have hcount := hr.nodeCount_intersection c.maxDegree
  have hroom := hr.room c.maxDegree
  have hnamed : ∀ t ∈ (List.range part.nodeCount).flatMap ts, ∃ x, externalTriangle (single part) t = .ok x :=
    fun t ht => exists_externalTriangle hm ((hmem t).mp ht)
  have hsearches : Searches (single part) (part.intersection c.maxDegree) ts :=
    ⟨hfinds, fun a ha t ht => hnamed t (List.mem_flatMap.mpr ⟨a, List.mem_range.mpr (hcount ▸ ha), ht⟩)⟩
  refine ⟨_, hnodup, hmem, countTriangles_of_finds hr hu hs hfinds fun t ht => ?ascending, fun raised => ?stream⟩
  case ascending =>
    have ⟨hab, hbc, _⟩ := ((hmem t).mp ht).ascending
    exact ⟨hab, hbc⟩
  case stream =>
    have ⟨s, hstart, hraised, hflowing⟩ := @exists_start _ _ ts _ (triangles_of_undirected hu c)
      (Pass.le_greatest hroom) (fun concurrency => Pass.lasts_workerCount concurrency hs hroom) raised
    refine ⟨s, hstart, fun es => ?_⟩
    have ⟨sent, last, h⟩ := hflowing.follow hsearches es
    refine ⟨?drains, fun hd => ?delivers⟩
    case drains =>
      have ⟨es', he, hd⟩ := h.exists_drained hsearches
      exact ⟨es', he, by rwa [follow_append]⟩
    case delivers =>
      have ⟨delivered, k, hitems, hdistinct, hfirst, hlast⟩ := h.delivers hm hsearches (hcount ▸ hanchored)
        (congrArg (fun n => (List.range n).flatMap ts) hcount.symm) hnodup hd
      refine ⟨delivered, last, k, hitems, hdistinct, hfirst, hlast.imp_right And.left, fun hr he => ?calm⟩
      case calm =>
        have hdown : (s.follow es).1.pass.raised = false := (raised_follow he).trans (hraised.trans hr)
        rcases hlast with ⟨hl, _⟩ | ⟨_, hup⟩
        case inl => exact hl
        case inr => simp [hdown] at hup

-- The queue takes one triangle, and another worker finds none.
theorem View.stream_delivers_of_short_queue :
    ∃ nodes rs p, IdMap.ofNodes [(10, []), (20, []), (30, []), (40, [])] = .ok nodes ∧
      ((Batch.empty 4 .undirected []).collect [.addDefault 0 1, .addDefault 0 1, .addDefault 1 2, .addDefault 2 0,
        .addDefault 2 3, .addDefault 3 0]).compress 1 = .ok rs ∧
      Projection.owned nodes ⟨"LINKS"⟩ rs none = .ok p ∧
      ∃ (s : TriangleStream) (es : List Event) (triangles delivered : List Triangle),
        start (single (.whole p)) { concurrency := 2, chunkSize := 1, queueCapacity := 0 } false = .ok s ∧
        .raise ∉ es ∧ (s.follow es).1.isDrained = true ∧
        (∀ t, t ∈ triangles ↔ (Part.whole p).IsTriangle noDegreeLimit t) ∧
        (s.follow es).2 = delivered.map .ok ∧
        (triangles.map (externalTriangle (single (.whole p)))).Perm (delivered.map .ok) := by
  obtain ⟨nodes, hnodes, hcount⟩ :=
    @IdMap.exists_ofNodes [(10, []), (20, []), (30, []), (40, [])] (by decide) (by decide)
  obtain ⟨rs, hrs, hn, horientation, _⟩ := Relationships.exists_built 4 .undirected []
    [.addDefault 0 1, .addDefault 0 1, .addDefault 1 2, .addDefault 2 0, .addDefault 2 3, .addDefault 3 0] 1
    (by decide) (by decide)
  obtain ⟨p, hp⟩ := @Projection.exists_owned rs none (fun _ h => absurd h.symm (Option.some_ne_none _)) nodes ⟨"LINKS"⟩
  obtain ⟨_, htopology⟩ := Projection.topology_of_owned hp
  have hmade : (Part.whole p).Made :=
    .whole (.owned hnodes (.compressed ⟨_, _, _, _, _, hrs⟩) (hn.trans hcount.symm) hp)
  have hundirected : (Part.whole p).isUndirected = true := by
    rw [Part.isUndirected, Part.projection, htopology, Topology.isUndirected, horientation]
    rfl
  obtain ⟨triangles, _, hmem, _, h⟩ :=
    @stream_delivers (.whole p) { concurrency := 2, chunkSize := 1, queueCapacity := 0 } hmade hundirected (by decide)
  obtain ⟨s, hs, h⟩ := h false
  obtain ⟨⟨es, he, hd⟩, _⟩ := h []
  obtain ⟨_, hdelivers⟩ := h es
  obtain ⟨delivered, last, _, hitems, _, _, hlast, hcalm⟩ := hdelivers hd
  have hl : last = [] := hcalm rfl he
  subst hl
  have hall := hlast.resolve_right (List.cons_ne_nil _ _).symm
  exact ⟨nodes, rs, p, hnodes, hrs, hp, s, es, triangles, delivered, hs, he, hd, hmem,
    hitems.trans (List.append_nil _), hall.right⟩

end PropertyGraph
