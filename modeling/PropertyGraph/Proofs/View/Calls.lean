import PropertyGraph.Proofs.View.Outside

namespace PropertyGraph

namespace Visitor

variable {σ α : Type} {visitor : σ → α → σ × Bool} {s : σ} {a : α} {items calls : List α}

-- The state of a visitor after some calls, whatever it answered.
def after (visitor : σ → α → σ × Bool) (s : σ) (calls : List α) : σ :=
  calls.foldl (fun s a => (visitor s a).1) s

-- The calls that show items to a visitor: it answers `true` to each of them but the last one, and to that one as well
-- unless they end there.
structure Asks (visitor : σ → α → σ × Bool) (s : σ) (items calls : List α) : Prop where
  inOrder : calls <+: items
  continues : ∀ before a behind, calls = before ++ a :: behind → behind ≠ [] →
    (visitor (after visitor s before) a).2 = true
  ends : calls = items ∨ ∃ before a, calls = before ++ [a] ∧ (visitor (after visitor s before) a).2 = false

-- The visitor, which keeps a record of its calls.
def recording (visitor : σ → α → σ × Bool) : σ × List α → α → (σ × List α) × Bool :=
  fun (s, calls) a => (((visitor s a).1, calls ++ [a]), (visitor s a).2)

-- Items are shown to every visitor, whose state goes from call to call.
def AsksEach (items : List α) (showAll : ∀ {σ : Type}, (σ → α → σ × Bool) → σ → Except Fault σ) : Prop :=
  ∀ {σ : Type} (visitor : σ → α → σ × Bool) (s : σ), ∃ calls, Asks visitor s items calls ∧
    showAll visitor s = .ok (after visitor s calls) ∧
    showAll (recording visitor) (s, []) = .ok (after visitor s calls, calls)

theorem Asks.nil : Asks visitor s [] [] where
  inOrder := List.prefix_rfl
  continues before a behind h := absurd h.symm (by simp)
  ends := .inl rfl

theorem Asks.refused (h : (visitor s a).2 = false) (items : List α) : Asks visitor s (a :: items) [a] where
  inOrder := ⟨items, rfl⟩
  continues before b behind hc hb := by
    have hlength := congrArg List.length hc
    have := List.length_pos_of_ne_nil hb
    simp only [List.length_append, List.length_cons, List.length_nil] at hlength
    omega
  ends := .inr ⟨[], a, rfl, h⟩

theorem Asks.cons (ha : (visitor s a).2 = true) (h : Asks visitor (visitor s a).1 items calls) :
    Asks visitor s (a :: items) (a :: calls) where
  inOrder := List.cons_prefix_cons.mpr ⟨rfl, h.inOrder⟩
  continues before b behind hc hb := by
    cases before
    case nil =>
      cases hc
      exact ha
    case cons a' before =>
      cases hc
      exact h.continues before b behind rfl hb
  ends := by
    cases h.ends
    case inl he => exact .inl (he ▸ rfl)
    case inr he =>
      obtain ⟨before, b, he, hb⟩ := he
      exact .inr ⟨a :: before, b, he ▸ rfl, hb⟩

theorem Asks.eq_of_prefix {calls' : List α} (h : Asks visitor s items calls) (h' : Asks visitor s items calls')
    (hp : calls <+: calls') : calls = calls' := by
  obtain ⟨behind, rfl⟩ := hp
  cases behind
  case nil => exact (List.append_nil calls).symm
  case cons b behind =>
    cases h.ends
    case inl he =>
      have hlength := h'.inOrder.length_le
      rw [he, List.length_append, List.length_cons] at hlength
      omega
    case inr he =>
      obtain ⟨before, a, rfl, ha⟩ := he
      have hc := h'.continues before a (b :: behind) (List.append_assoc ..) (List.cons_ne_nil _ _)
      exact absurd (ha.symm.trans hc) (by decide)

-- There is only one way to show items to a visitor.
theorem Asks.unique {calls' : List α} (h : Asks visitor s items calls) (h' : Asks visitor s items calls') :
    calls = calls' := by
  cases List.prefix_or_prefix_of_prefix h.inOrder h'.inOrder
  case inl hp => exact h.eq_of_prefix h' hp
  case inr hp => exact (h'.eq_of_prefix h hp).symm

-- Induction on the items. The record has the calls behind those that were in it.
theorem exists_asks (visitor : σ → α → σ × Bool) (items : List α) (s : σ) :
    ∃ calls, Asks visitor s items calls ∧ (run visitor items s).1 = after visitor s calls ∧
      ∀ done, (run (recording visitor) items (s, done)).1 = (after visitor s calls, done ++ calls) := by
  induction items generalizing s
  case nil => exact ⟨[], .nil, rfl, fun done => by simp [run, after]⟩
  case cons a items hi =>
    have hr : ∀ done, recording visitor (s, done) a = (((visitor s a).1, done ++ [a]), (visitor s a).2) :=
      fun _ => rfl
    cases hv : visitor s a with | mk s' more => ?_
    simp only [run, hr, hv]
    cases more
    case false => exact ⟨[a], .refused (by rw [hv]) items, by simp [after, hv], fun done => by simp [after, hv]⟩
    case true =>
      obtain ⟨calls, hc, hs, hd⟩ := hi s'
      refine ⟨a :: calls, .cons (by rw [hv]) (by rwa [hv]), ?state, fun done => ?record⟩
      case state => simpa [after, hv] using hs
      case record =>
        simp only [hd (done ++ [a])]
        simp [after, hv]

theorem asksEach_of_run {showAll : ∀ {σ : Type}, (σ → α → σ × Bool) → σ → Except Fault σ}
    (h : ∀ {σ : Type} (visitor : σ → α → σ × Bool) (s : σ), showAll visitor s = .ok (run visitor items s).1) :
    AsksEach items showAll := by
  intro σ visitor s
  have ⟨calls, hc, hs, hd⟩ := exists_asks visitor items s
  exact ⟨calls, hc, (h visitor s).trans (congrArg Except.ok hs),
    (h (recording visitor) (s, [])).trans (congrArg Except.ok (hd []))⟩

-- The last answer is noted, and is `true` if there was none.
theorem run_noting (visitor : σ → α → σ × Bool) (items : List α) (s : σ) :
    run (View.noting visitor) items (s, true) = (run visitor items s, (run visitor items s).2) := by
  induction items generalizing s
  case nil => rfl
  case cons a items hi =>
    rw [run, run, View.noting]
    cases visitor s a with | mk s' more => ?_
    cases more
    case false => rfl
    case true => exact hi s'

end Visitor

-- If there are values, there are some for each of the nodes.
def Projection.Readable (p : Projection) : Prop :=
  ∀ runs, p.values = some runs → p.nodes.nodeCount ≤ runs.nodeCount

def Projection.valuesAt (p : Projection) (node : Nat) : Except Fault (Array Float) :=
  p.values.elim (.ok #[]) (·.valuesOf node)

-- The targets of a node, each with its value, or with the fallback where there is none.
def Projection.pairsOf (p : Projection) (node : Nat) (fallback : Float) : Except Fault (List (Nat × Float)) := do
  return filled (← p.topology.targets node) (← p.valuesAt node) fallback

-- Targets that are hidden are left out, with their values.
def Part.pairsOf (p : Part) (node : Nat) (fallback : Float) : Except Fault (List (Nat × Float)) :=
  match p with
  | whole p => p.pairsOf node fallback
  | restricted p sub => do
    let pairs ← p.pairsOf (← sub.toRoot node) fallback
    return pairs.filterMap fun x => (sub.toFiltered x.1).map (·, x.2)

-- All that a view has of a node, part after part.
def View.pairsOf (view : View) (node : Nat) (fallback : Float) : Except Fault (List (Nat × Float)) := do
  return (← view.parts.mapM (·.pairsOf node fallback)).flatten

-- A part shows its pairs to every visitor, or their targets only.
structure Part.Presents (p : Part) (node : Nat) (fallback : Float) (pairs : List (Nat × Float)) : Prop where
  pairsOf : p.pairsOf node fallback = .ok pairs
  visit : ∀ {σ : Type} (visitor : σ → Nat → σ × Bool) (s : σ),
    p.visit node visitor s = .ok (Visitor.run visitor (pairs.map (·.1)) s)
  visitValues : ∀ {σ : Type} (visitor : σ → Nat → Float → σ × Bool) (s : σ),
    p.visitValues node fallback visitor s = .ok (Visitor.run (fun s x => visitor s x.1 x.2) pairs s)

namespace Projection

variable {p : Projection} {v : Nat}

theorem targets_filled (ts : List Nat) (xs : Array Float) (fallback : Float) :
    (filled ts xs fallback).map (·.1) = ts := by
  rw [filled, List.map_map]
  exact List.zipIdx_map_fst ..

theorem visitValues_eq {σ : Type} (p : Projection) (node : Nat) (fallback : Float)
    (visitor : σ → Nat → Float → σ × Bool) (s : σ) :
    p.visitValues node fallback visitor s = p.valuesAt node >>= fun values =>
      p.topology.visit node (fun s i target => visitor s target (values[i]?.getD fallback)) s := by
  rw [visitValues, valuesAt]
  cases p.values <;> rfl

theorem Readable.exists_valuesAt (h : p.Readable) (hv : v < p.nodes.nodeCount) : ∃ xs, p.valuesAt v = .ok xs := by
  rw [valuesAt]
  cases hp : p.values
  case none => exact ⟨_, rfl⟩
  case some runs =>
    have hlt : v + 1 < runs.starts.size := Nat.add_lt_of_lt_sub (Nat.lt_of_lt_of_le hv (h runs hp))
    simp only [Option.elim_some, ValueRuns.valuesOf, Array.getElem?_eq_getElem (Nat.lt_of_succ_lt hlt),
      Array.getElem?_eq_getElem hlt]
    exact ⟨_, rfl⟩

theorem Made.exists_presents (h : p.Made) (hr : p.Readable) (hv : v < p.nodes.nodeCount) (fallback : Float) :
    ∃ pairs, (Part.whole p).Presents v fallback pairs := by
  have ⟨targets, hs⟩ := h.exists_serves
  have ⟨ht, _⟩ := Intersection.targets_of_serves hs hv
  have ⟨xs, hx⟩ := hr.exists_valuesAt hv
  refine ⟨filled (targets v) xs fallback, ?pairsOf, fun visitor s => ?visit, fun visitor s => ?visitValues⟩
  case pairsOf => rw [Part.pairsOf, pairsOf, ht, Outcome.ok_bind, hx, Outcome.ok_bind, Outcome.pure_eq_ok]
  case visit =>
    rw [targets_filled]
    exact visit_of_serves hs hv visitor s
  case visitValues =>
    rw [Part.visitValues, visitValues_eq, hx, Outcome.ok_bind, topology_visit hs hv, filled,
      Visitor.run_map (fun s (x : Nat × Float) => visitor s x.1 x.2) s fun x : Nat × Nat =>
        (x.1, xs[x.2]?.getD fallback)]

end Projection

namespace Part

variable {p : Projection} {sub : Subset} {v root : Nat} {fallback : Float} {pairs : List (Nat × Float)}

-- To leave out hidden targets is to show the others only. The visitor does not learn of them.
theorem Presents.restrict (h : (whole p).Presents root fallback pairs) (hr : sub.toRoot v = .ok root) :
    (restricted p sub).Presents v fallback (pairs.filterMap fun x => (sub.toFiltered x.1).map (·, x.2)) where
  pairsOf := by
    have hp : p.pairsOf root fallback = .ok pairs := h.pairsOf
    rw [Part.pairsOf, hr, Outcome.ok_bind, hp]
    rfl
  visit {σ} visitor s := by
    have htargets : (pairs.filterMap fun x => (sub.toFiltered x.1).map (·, x.2)).map (·.1) =
        (pairs.map (·.1)).filterMap sub.toFiltered := by
      rw [List.map_filterMap, List.filterMap_map]
      congr 1
      funext x
      cases hx : sub.toFiltered x.1 <;> simp [hx]
    have hp : ∀ (visitor : σ → Nat → σ × Bool) (s : σ), p.visit root visitor s = _ := h.visit
    rw [Part.visit, hr, Outcome.ok_bind, hp, htargets, ← Visitor.run_filterMap]
    congr 2
    funext s target
    cases sub.toFiltered target <;> rfl
  visitValues {σ} visitor s := by
    have hp : ∀ (visitor : σ → Nat → Float → σ × Bool) (s : σ), p.visitValues root fallback visitor s = _ :=
      h.visitValues
    rw [Part.visitValues, hr, Outcome.ok_bind, hp, ← Visitor.run_filterMap]
    congr 2
    funext s x
    cases sub.toFiltered x.1 <;> rfl

theorem Made.exists_presents {p : Part} (h : p.Made) (hr : p.projection.Readable) (hv : v < p.nodeCount)
    (fallback : Float) : ∃ pairs, p.Presents v fallback pairs := by
  cases h
  case whole p hp => exact hp.exists_presents hr hv fallback
  case restricted p ls concurrency size sub hp hsize hsub =>
    have hs := Subset.selects_of_ofLabels hp.sound.left hsize hsub
    have ⟨root, hroot, hlt⟩ := hs.exists_root hv
    have ⟨pairs, hpairs⟩ := hp.exists_presents hr hlt fallback
    exact ⟨_, hpairs.restrict (Subset.toRoot_eq_ok.mpr hroot)⟩

end Part

namespace View

variable {α : Type} {showing : Showing α} {items : Part → List α}

mutual

-- Induction on the view. What a union reads from the notes is whether the visitor was shown everything so far.
theorem relay_eq {σ : Type} (visitor : σ → α → σ × Bool) : ∀ (view : View) (s : σ),
    (∀ p ∈ view.parts, ∀ {σ : Type} (visitor : σ → α → σ × Bool) (s : σ),
      showing p visitor s = .ok (Visitor.run visitor (items p) s)) →
    relay showing visitor view s = .ok (Visitor.run visitor (view.parts.flatMap items) s).1
  | single p, s, h => by
    rw [relay, h p List.mem_cons_self]
    simp [parts, partsOf, Except.map]
  | union first rest, s, h => by
    have hp : (union first rest).parts = first.parts ++ partsOfAll rest := by simp [parts, partsOf]
    rw [hp] at h ⊢
    have hfirst := relay_eq (noting visitor) first (s, true) fun p hm => h p (List.mem_append_left _ hm)
    rw [relay, hfirst, Visitor.run_noting, Outcome.ok_bind, List.flatMap_append, Visitor.run_append]
    cases Visitor.run visitor (first.parts.flatMap items) s with | mk s' more => ?_
    cases more
    case false => rfl
    case true => exact relayAll_eq visitor rest s' fun p hm => h p (List.mem_append_right _ hm)

theorem relayAll_eq {σ : Type} (visitor : σ → α → σ × Bool) : ∀ (views : List View) (s : σ),
    (∀ p ∈ partsOfAll views, ∀ {σ : Type} (visitor : σ → α → σ × Bool) (s : σ),
      showing p visitor s = .ok (Visitor.run visitor (items p) s)) →
    relayAll showing visitor views (s, true) = .ok (Visitor.run visitor ((partsOfAll views).flatMap items) s).1
  | [], s, _ => rfl
  | view :: views, s, h => by
    have hp : partsOfAll (view :: views) = view.parts ++ partsOfAll views := by simp [parts, partsOfAll]
    rw [hp] at h ⊢
    have hview := relay_eq (noting visitor) view (s, true) fun p hm => h p (List.mem_append_left _ hm)
    rw [relayAll, hview, Visitor.run_noting, Outcome.ok_bind, List.flatMap_append, Visitor.run_append]
    cases Visitor.run visitor (view.parts.flatMap items) s with | mk s' more => ?_
    cases more
    case false => rfl
    case true => exact relayAll_eq visitor views s' fun p hm => h p (List.mem_append_right _ hm)

end

variable {view : View} {v : Nat} {fallback : Float} {pairs : Part → List (Nat × Float)}

theorem exists_presents (h : ∀ p ∈ view.parts, p.Made ∧ p.projection.Readable ∧ p.nodeCount = view.nodeCount)
    (hv : v < view.nodeCount) (fallback : Float) :
    ∃ pairs : Part → List (Nat × Float), ∀ p ∈ view.parts, p.Presents v fallback (pairs p) := by
  refine ⟨fun p => (p.pairsOf v fallback).toOption.getD [], fun p hp => ?_⟩
  have ⟨hm, hr, hn⟩ := h p hp
  have ⟨pairs, hpairs⟩ := hm.exists_presents hr (hn ▸ hv) fallback
  simp only [hpairs.pairsOf]
  exact hpairs

theorem pairsOf_of_presents (h : ∀ p ∈ view.parts, p.Presents v fallback (pairs p)) :
    view.pairsOf v fallback = .ok (view.parts.flatMap pairs) := by
  have hpairs := Outcome.mapM_eq_ok.mpr (List.forall₂_map_right_iff.mpr
    (List.forall₂_same.mpr fun p hp => (h p hp).pairsOf))
  rw [pairsOf, hpairs, List.flatMap_def]
  rfl

theorem forEach_of_presents (h : ∀ p ∈ view.parts, p.Presents v fallback (pairs p)) {σ : Type}
    (visitor : σ → Nat → σ × Bool) (s : σ) :
    view.forEach v visitor s = .ok (Visitor.run visitor ((view.parts.flatMap pairs).map (·.1)) s).1 := by
  rw [List.map_flatMap]
  exact relay_eq visitor view s fun p hp => (h p hp).visit

theorem forEachValue_of_presents (h : ∀ p ∈ view.parts, p.Presents v fallback (pairs p)) {σ : Type}
    (visitor : σ → Nat → Float → σ × Bool) (s : σ) :
    view.forEachValue v fallback visitor s =
      .ok (Visitor.run (fun s x => visitor s x.1 x.2) (view.parts.flatMap pairs) s).1 :=
  relay_eq _ view s fun p hp _ visitor s => (h p hp).visitValues (fun s t x => visitor s (t, x)) s

-- What the notes are for is what the answers of the parts tell.
theorem forEach_eq_visit (h : ∀ p ∈ view.parts, p.Made ∧ p.projection.Readable ∧ p.nodeCount = view.nodeCount)
    (hv : v < view.nodeCount) (fallback : Float) {σ : Type} (s : σ) :
    (∀ visitor : σ → Nat → σ × Bool, view.forEach v visitor s = (view.visit v visitor s).map (·.1)) ∧
      ∀ visitor : σ → Nat → Float → σ × Bool,
        view.forEachValue v fallback visitor s = (view.visitValues v fallback visitor s).map (·.1) := by
  have ⟨pairs, hp⟩ := exists_presents h hv fallback
  constructor
  case left =>
    intro visitor
    rw [forEach_of_presents hp, visit, visitParts_eq (fun p hm s => (hp p hm).visit visitor s), List.map_flatMap]
    rfl
  case right =>
    intro visitor
    rw [forEachValue_of_presents hp, visitValues, visitParts_eq fun p hm s => (hp p hm).visitValues visitor s]
    rfl

-- Whatever views a view is made of, a visitor is called with all that they have of a node, one after the other, until
-- it answers `false`. Nothing is left out before, and there are no calls afterwards.
theorem forEach_asks_until_refused
    (h : ∀ p ∈ view.parts, p.Made ∧ p.projection.Readable ∧ p.nodeCount = view.nodeCount) (hv : v < view.nodeCount)
    (fallback : Float) :
    ∃ pairs, view.pairsOf v fallback = .ok pairs ∧
      Visitor.AsksEach (pairs.map (·.1)) (fun visitor s => view.forEach v visitor s) ∧
      Visitor.AsksEach pairs (fun visitor s => view.forEachValue v fallback (fun s t x => visitor s (t, x)) s) := by
  have ⟨pairs, hp⟩ := exists_presents h hv fallback
  exact ⟨_, pairsOf_of_presents hp, Visitor.asksEach_of_run (forEach_of_presents hp),
    Visitor.asksEach_of_run fun visitor s => forEachValue_of_presents hp (fun s t x => visitor s (t, x)) s⟩

-- The same relationship is in three parts, two of which are in a union inside of the union. A visitor that answers
-- `true` only once is called for the first of these two, and not for the second.
theorem forEach_asks_until_refused_of_nested :
    ∃ nodes rs p, IdMap.ofNodes [(0, [⟨"A"⟩]), (1, [⟨"A"⟩])] = .ok nodes ∧
      ((Batch.empty 2 .natural []).collect [.addDefault 0 1]).compress 1 = .ok rs ∧
      Projection.owned nodes ⟨"LINKS"⟩ rs none = .ok p ∧
      (let view := union (single (.whole p)) [union (single (.whole p)) [single (.whole p)]]
      view.pairsOf 0 0.5 = .ok [(1, 0.5), (1, 0.5), (1, 0.5)] ∧
        view.forEach 0 (Visitor.recording fun (n : Nat) _ => (n + 1, n = 0)) (0, []) = .ok (2, [1, 1])) := by
  obtain ⟨nodes, rs, targets, hnodes, hrs, _, hcount, hn, _, hserves, hfirst, _⟩ := Store.exists_edge
  obtain ⟨p, hp⟩ := @Projection.exists_owned rs none (fun _ h => absurd h (by simp)) nodes ⟨"LINKS"⟩
  obtain ⟨hsame, htopology⟩ := Projection.topology_of_owned hp
  have hmade : p.Made := .owned hnodes (.compressed ⟨_, _, _, _, _, hrs⟩) (hn.trans hcount.symm) hp
  have hvalues : p.values = none := (Except.ok.inj hp) ▸ rfl
  have hnodeCount : p.nodes.nodeCount = 2 := (congrArg IdMap.nodeCount hsame).trans hcount
  refine ⟨nodes, rs, p, hnodes, hrs, hp, ?_⟩
  intro view
  have hparts : view.parts = [.whole p, .whole p, .whole p] := rfl
  have hall : ∀ part ∈ view.parts, part.Made ∧ part.projection.Readable ∧ part.nodeCount = view.nodeCount := by
    intro part hm
    have he : part = .whole p := by simpa [hparts] using hm
    subst he
    exact ⟨.whole hmade, fun runs hr => by simp [Part.projection, hvalues] at hr, rfl⟩
  have hpairs : view.pairsOf 0 0.5 = .ok [(1, 0.5), (1, 0.5), (1, 0.5)] := by
    have hpart : (Part.whole p).pairsOf 0 0.5 = .ok [(1, 0.5)] := by
      have htargets := (Intersection.targets_of_serves (htopology ▸ hserves) (by decide : 0 < 2)).left
      have hvaluesAt : p.valuesAt 0 = .ok #[] := by rw [Projection.valuesAt, hvalues]; rfl
      rw [Part.pairsOf, Projection.pairsOf, htargets, hfirst, Outcome.ok_bind, hvaluesAt]
      rfl
    rw [pairsOf, hparts]
    simp only [List.mapM_cons, List.mapM_nil, hpart, Outcome.ok_bind, Outcome.pure_eq_ok]
    rfl
  have hpos : 0 < view.nodeCount := by
    rw [show view.nodeCount = 2 from hnodeCount]
    decide
  obtain ⟨pairs, hp, heach, _⟩ := forEach_asks_until_refused hall hpos 0.5
  rw [Except.ok.inj (hp.symm.trans hpairs)] at heach
  obtain ⟨calls, hcalls, _, hrecord⟩ := heach (fun (n : Nat) _ => (n + 1, n = 0)) 0
  have htwice : Visitor.Asks (fun (n : Nat) _ => (n + 1, decide (n = 0))) 0 [1, 1, 1] [1, 1] :=
    .cons rfl (.refused rfl [1])
  rw [hcalls.unique htwice] at hrecord
  exact ⟨hpairs, hrecord⟩

end View

end PropertyGraph
