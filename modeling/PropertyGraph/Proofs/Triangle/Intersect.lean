import PropertyGraph.Proofs.Run.Probe
import PropertyGraph.Triangle.Intersect

namespace PropertyGraph

-- The run of every node below `n` stands where the topology says, and has targets below `n`.
structure Topology.Serves (t : Topology) (n : Nat) (targets : Nat → List Nat) : Prop where
  bounded : n ≤ Word64.greatest
  inside : ∀ v < n, ∀ w ∈ targets v, w < n
  holds : ∀ v < n, ∃ offset, t.offset v = .ok offset ∧ t.arena.Holds offset (targets v)

theorem Topology.Serves.length_le {t : Topology} {n v : Nat} {targets : Nat → List Nat} (h : t.Serves n targets)
    (hv : v < n) : (targets v).length ≤ Fault.maxRunLength :=
  have ⟨_, _, hh⟩ := h.holds v hv
  hh.isRun.short

namespace Intersection

variable {e : Intersection} {n : Nat} {targets : Nat → List Nat}

-- Whether a node can be a corner other than the smallest.
def fits (e : Intersection) (targets : Nat → List Nat) (v : Nat) : Bool :=
  e.includes v && decide ((targets v).length ≤ e.maxDegree)

theorem fits_iff {v : Nat} :
    e.fits targets v = true ↔ e.includes v = true ∧ (targets v).length ≤ e.maxDegree := by
  simp [fits]

theorem degreeOk_eq (h : e.topology.Serves n targets) {v : Nat} (hv : v < n) :
    e.degreeOk v = .ok (decide ((targets v).length ≤ e.maxDegree)) := by
  have ⟨offset, ho, hh⟩ := h.holds v hv
  rw [degreeOk]
  split
  case isTrue hm =>
    -- The limit that lets every node pass is above the length of any run.
    have hs := hh.isRun.short
    have : Fault.maxRunLength ≤ noDegreeLimit := by decide
    rw [hm, decide_eq_true (by omega)]
  case isFalse => simp [Topology.degree, ho, Arena.degree_of_holds hh, Except.map]

theorem admits_eq (h : e.topology.Serves n targets) {v : Nat} (hv : v < n) :
    e.admits v = .ok (e.fits targets v) := by
  rw [admits, fits]
  cases e.includes v
  case false => rfl
  case true => simp [degreeOk_eq h hv]

-- Where a cursor stands that has these ids ahead.
def headOr (ids : List Nat) : Nat := ids.head?.getD notFound

theorem move_advance {arena : Arena} {c : Cursor} {ids : List Nat} (x : Nat) (h : arena.Stands c ids) :
    ∃ c', move (arena.advance x) c = .ok (headOr (ids.filter (x ≤ ·)), c') ∧
      arena.Stands c' (ids.filter (x ≤ ·)) := by
  have ⟨c', hc, hs⟩ := Arena.advance_stands x h
  exact ⟨c', by rw [move, hc]; rfl, hs⟩

theorem move_skipUntil {arena : Arena} {c : Cursor} {ids : List Nat} (x : Nat) (h : arena.Stands c ids) :
    ∃ c', move (arena.skipUntil x) c = .ok (headOr (ids.filter (x < ·)), c') ∧
      arena.Stands c' (ids.filter (x < ·)) := by
  have ⟨c', hc, hs⟩ := Arena.skipUntil_stands x h
  exact ⟨c', by rw [move, hc]; rfl, hs⟩

-- A walk with these ids ahead on its two sides.
structure Walk.Stands (w : Walk) (arena : Arena) (as bs : List Nat) : Prop where
  ofA : arena.Stands w.ofA as
  atA : w.atA = headOr as
  ofB : arena.Stands w.ofB bs
  atB : w.atB = headOr bs

-- The ids ahead on both sides that can be corners, in order.
structure Common (e : Intersection) (targets : Nat → List Nat) (as bs cs : List Nat) : Prop where
  mem : ∀ c, c ∈ cs ↔ (c ∈ as ∧ c ∈ bs) ∧ e.fits targets c = true
  ascending : cs.Pairwise (· < ·)

namespace Common

variable {as bs cs : List Nat} {x y : Nat}

-- What is in front of the first id of the other side is not common.
theorem of_advance_left (hb : (y :: bs).Pairwise (· ≤ ·))
    (h : Common e targets (as.filter (y ≤ ·)) (y :: bs) cs) : Common e targets as (y :: bs) cs where
  mem c := by
    have hle : c ∈ y :: bs → y ≤ c := fun hc =>
      (List.mem_cons.mp hc).elim (Nat.le_of_eq ·.symm) ((List.pairwise_cons.mp hb).left c)
    rw [h.mem, List.mem_filter, decide_eq_true_eq]
    grind
  ascending := h.ascending

theorem of_advance_right (ha : (x :: as).Pairwise (· ≤ ·))
    (h : Common e targets (x :: as) (bs.filter (x ≤ ·)) cs) : Common e targets (x :: as) bs cs where
  mem c := by
    have hle : c ∈ x :: as → x ≤ c := fun hc =>
      (List.mem_cons.mp hc).elim (Nat.le_of_eq ·.symm) ((List.pairwise_cons.mp ha).left c)
    rw [h.mem, List.mem_filter, decide_eq_true_eq]
    grind
  ascending := h.ascending

-- Both sides are left behind a match, which may stand there several times.
theorem of_match (ha : (x :: as).Pairwise (· ≤ ·))
    (h : Common e targets ((x :: as).filter (x < ·)) ((x :: bs).filter (x < ·)) cs) :
    Common e targets (x :: as) (x :: bs) (if e.fits targets x then x :: cs else cs) := by
  have hmem : ∀ c, c ∈ cs ↔ ((c ∈ as ∧ x < c) ∧ c ∈ bs ∧ x < c) ∧ e.fits targets c = true := by
    intro c
    rw [h.mem, List.mem_filter, List.mem_filter, decide_eq_true_eq]
    grind
  have hle : ∀ c ∈ as, x ≤ c := (List.pairwise_cons.mp ha).left
  split
  case isTrue hx =>
    refine ⟨fun c => ?_, List.pairwise_cons.mpr ⟨fun c hc => ((hmem c).mp hc).left.left.right, h.ascending⟩⟩
    rw [List.mem_cons, hmem]
    grind
  case isFalse hx =>
    refine ⟨fun c => ?_, h.ascending⟩
    rw [hmem]
    grind

end Common

section Step

variable (a b fuel : Nat) (found : Array Triangle) {x y : Nat} {w : Walk} {as bs : List Nat}

theorem walk_of_left_nil (hw : w.Stands e.topology.arena [] bs) :
    e.walk a b (fuel + 1) w found = .ok (w, found) := by
  rw [walk, if_pos (.inl hw.atA)]
  rfl

theorem walk_of_right_nil (hw : w.Stands e.topology.arena as []) :
    e.walk a b (fuel + 1) w found = .ok (w, found) := by
  rw [walk, if_pos (.inr hw.atB)]
  rfl

theorem walk_of_lt (hw : w.Stands e.topology.arena (x :: as) (y :: bs)) (hx : x < notFound)
    (hy : y < notFound) (h : x < y) :
    ∃ w', e.walk a b (fuel + 1) w found = e.walk a b fuel w' found ∧
      w'.Stands e.topology.arena ((x :: as).filter (y ≤ ·)) (y :: bs) := by
  have ⟨c, hm, hs⟩ := move_advance y hw.ofA
  have hA : w.atA = x := hw.atA
  have hB : w.atB = y := hw.atB
  refine ⟨{ w with ofA := c, atA := headOr ((x :: as).filter (y ≤ ·)) }, ?_, hs, rfl, hw.ofB, hw.atB⟩
  rw [walk, if_neg (by omega), hA, hB, if_pos h, hm, Outcome.ok_bind]

theorem walk_of_gt (hw : w.Stands e.topology.arena (x :: as) (y :: bs)) (hx : x < notFound)
    (hy : y < notFound) (h : y < x) :
    ∃ w', e.walk a b (fuel + 1) w found = e.walk a b fuel w' found ∧
      w'.Stands e.topology.arena (x :: as) ((y :: bs).filter (x ≤ ·)) := by
  have ⟨c, hm, hs⟩ := move_advance x hw.ofB
  have hA : w.atA = x := hw.atA
  have hB : w.atB = y := hw.atB
  refine ⟨{ w with ofB := c, atB := headOr ((y :: bs).filter (x ≤ ·)) }, ?_, hw.ofA, hw.atA, hs, rfl⟩
  rw [walk, if_neg (by omega), hA, hB, if_neg (by omega), if_pos h, hm, Outcome.ok_bind]

theorem walk_of_match (hv : e.topology.Serves n targets)
    (hw : w.Stands e.topology.arena (x :: as) (x :: bs)) (hx : x < n) :
    ∃ w', e.walk a b (fuel + 1) w found =
        e.walk a b fuel w' (if e.fits targets x then found.push ⟨a, b, x⟩ else found) ∧
      w'.Stands e.topology.arena ((x :: as).filter (x < ·)) ((x :: bs).filter (x < ·)) := by
  have ⟨c, hm, hs⟩ := move_skipUntil x hw.ofA
  have ⟨c', hm', hs'⟩ := move_skipUntil x hw.ofB
  have hA : w.atA = x := hw.atA
  have hB : w.atB = x := hw.atB
  have hn : n ≤ notFound := hv.bounded
  refine ⟨⟨c, _, c', _⟩, ?_, hs, rfl, hs', rfl⟩
  rw [walk, if_neg (by omega), hA, hB, if_neg (Nat.lt_irrefl x), if_neg (Nat.lt_irrefl x),
    admits_eq hv hx, hm, hm']
  rfl

end Step

theorem length_filter_lt {p : Nat → Bool} (x : Nat) (ids : List Nat) (hx : p x = false) :
    ((x :: ids).filter p).length < (x :: ids).length := by
  have := List.length_filter_le p ids
  rw [List.filter_cons, hx, List.length_cons]
  simpa using Nat.lt_succ_of_le this

theorem forall_lt_filter {p : Nat → Bool} {ids : List Nat} (h : ∀ i ∈ ids, i < n) :
    ∀ i ∈ ids.filter p, i < n :=
  fun i hi => h i (List.mem_filter.mp hi).left

-- Every look but the last takes an id from one of the sides, and the last one finds a side empty.
theorem walk_finds (h : e.topology.Serves n targets) {a b fuel : Nat} {w : Walk} {as bs : List Nat}
    {found : Array Triangle} (hw : w.Stands e.topology.arena as bs) (ha : ∀ i ∈ as, i < n)
    (hb : ∀ i ∈ bs, i < n) (hf : as.length + bs.length ≤ fuel) (hf' : 0 < fuel) :
    ∃ w' found' cs, e.walk a b fuel w found = .ok (w', found') ∧
      found'.toList = found.toList ++ cs.map (Triangle.mk a b) ∧ Common e targets as bs cs := by
  induction fuel generalizing w as bs found
  case zero => omega
  case succ fuel hi =>
    cases as
    case nil => exact ⟨w, found, [], walk_of_left_nil a b fuel found hw, by simp, by simp, .nil⟩
    case cons x as =>
      cases bs
      case nil => exact ⟨w, found, [], walk_of_right_nil a b fuel found hw, by simp, by simp, .nil⟩
      case cons y bs =>
        have hn : n ≤ notFound := h.bounded
        have hx := ha x List.mem_cons_self
        have hy := hb y List.mem_cons_self
        simp only [List.length_cons] at hf
        cases Nat.lt_trichotomy x y
        case inl hlt =>
          have ⟨w', he, hw'⟩ := walk_of_lt a b fuel found hw (by omega) (by omega) hlt
          have hl := length_filter_lt (p := (y ≤ ·)) x as (by simpa using hlt)
          have ⟨w'', found', cs, hr, hfound, hcs⟩ := @hi w' _ _ found hw' (forall_lt_filter ha) hb
            (by simp only [List.length_cons] at hl ⊢; omega) (by omega)
          exact ⟨w'', found', cs, he.trans hr, hfound, hcs.of_advance_left hw.ofB.ascending⟩
        case inr hge =>
          cases hge
          case inl heq =>
            subst heq
            have ⟨w', he, hw'⟩ := walk_of_match a b fuel found h hw hx
            have hla := length_filter_lt (p := (x < ·)) x as (by simp)
            have hlb := length_filter_lt (p := (x < ·)) x bs (by simp)
            have ⟨w'', found', cs, hr, hfound, hcs⟩ := @hi w' _ _
              (if e.fits targets x then found.push ⟨a, b, x⟩ else found) hw' (forall_lt_filter ha)
              (forall_lt_filter hb) (by simp only [List.length_cons] at hla hlb ⊢; omega) (by omega)
            refine ⟨w'', found', _, he.trans hr, ?_, hcs.of_match hw.ofA.ascending⟩
            rw [hfound]
            split <;> simp
          case inr hgt =>
            have ⟨w', he, hw'⟩ := walk_of_gt a b fuel found hw (by omega) (by omega) hgt
            have hl := length_filter_lt (p := (x ≤ ·)) y bs (by simpa using hgt)
            have ⟨w'', found', cs, hr, hfound, hcs⟩ := @hi w' _ _ found hw' ha (forall_lt_filter hb)
              (by simp only [List.length_cons] at hl ⊢; omega) (by omega)
            exact ⟨w'', found', cs, he.trans hr, hfound, hcs.of_advance_right hw.ofA.ascending⟩

theorem closeEdge_finds (h : e.topology.Serves n targets) {a b : Nat} {pool : Pool} {ahead : List Nat}
    {found : Array Triangle} (hm : e.topology.arena.Stands pool.main ahead) (hb : b < n)
    (ha : ∀ i ∈ ahead, i < n) :
    ∃ pool' found' cs, e.closeEdge a b pool found = .ok (pool', found') ∧ pool'.main = pool.main ∧
      found'.toList = found.toList ++ cs.map (Triangle.mk a b) ∧
      Common e targets ahead ((targets b).filter (b < ·)) cs := by
  obtain ⟨offset, ho, hh⟩ := h.holds b hb
  obtain ⟨c₁, hr, hs⟩ := Arena.reset_stands pool.ofB hh
  obtain ⟨c₂, hk, hB⟩ := move_skipUntil b hs
  have hbs : ∀ i ∈ (targets b).filter (b < ·), i < n := forall_lt_filter (h.inside b hb)
  rw [closeEdge, ho, Outcome.ok_bind, hr]
  simp only [Outcome.pure_eq_ok, Outcome.ok_bind, hk]
  -- Either no target of `b` is above it, or the main cursor's copy moves up to the first one that is.
  generalize (targets b).filter (b < ·) = bs at hB hbs
  cases bs
  case nil => exact ⟨{ pool with ofB := c₂ }, found, [], rfl, rfl, by simp, by simp, .nil⟩
  case cons y bs =>
    have hy : y < n := hbs y List.mem_cons_self
    have hn : n ≤ notFound := h.bounded
    obtain ⟨c₃, hadv, hA⟩ := move_advance y hm
    have hla := hA.length_le
    have hlb := hB.length_le
    have hw : Walk.Stands ⟨c₃, headOr (ahead.filter (y ≤ ·)), c₂, y⟩ e.topology.arena
      (ahead.filter (y ≤ ·)) (y :: bs) := ⟨hA, rfl, hB, rfl⟩
    obtain ⟨w', found', cs, hr, hfound, hcs⟩ := @walk_finds _ _ _ h a b (c₃.remaining + c₂.remaining + 2)
      _ _ _ found hw (forall_lt_filter ha) hbs (by omega) (by omega)
    refine ⟨{ pool with ofA := w'.ofA, ofB := w'.ofB }, found', cs, ?_, rfl, hfound,
      hcs.of_advance_left hB.ascending⟩
    have hhead : headOr (y :: bs) = y := rfl
    rw [hhead, if_neg (by omega), hadv, Outcome.ok_bind]
    simp only [hr]
    rfl

-- What a look at the first node ahead finds.
def FoundAt (e : Intersection) (targets : Nat → List Nat) (b : Nat) (ahead cs : List Nat) : Prop :=
  if e.fits targets b then Common e targets ahead ((targets b).filter (b < ·)) cs else cs = []

theorem closeEdges_of_cons (h : e.topology.Serves n targets) (a fuel : Nat) {b : Nat} {pool : Pool}
    {ahead : List Nat} (found : Array Triangle) (hm : e.topology.arena.Stands pool.main (b :: ahead))
    (ha : ∀ i ∈ b :: ahead, i < n) :
    ∃ pool' found' cs,
      e.closeEdges a (fuel + 1) b pool found =
        e.closeEdges a fuel (headOr ((b :: ahead).filter (b < ·))) pool' found' ∧
      e.topology.arena.Stands pool'.main ((b :: ahead).filter (b < ·)) ∧
      found'.toList = found.toList ++ cs.map (Triangle.mk a b) ∧ FoundAt e targets b (b :: ahead) cs := by
  have hb := ha b List.mem_cons_self
  have hn : n ≤ notFound := h.bounded
  have ⟨c, hk, hs⟩ := move_skipUntil b hm
  rw [closeEdges, if_neg (by omega), admits_eq h hb, Outcome.ok_bind]
  unfold FoundAt
  cases e.fits targets b
  case false =>
    refine ⟨{ pool with main := c }, found, [], ?_, hs, by simp, rfl⟩
    simp only [Bool.false_eq_true, if_false, Outcome.pure_eq_ok, Outcome.ok_bind, hk]
  case true =>
    have ⟨pool', found', cs, hr, hmain, hfound, hcs⟩ := @closeEdge_finds _ _ _ h a b pool _ found hm hb ha
    refine ⟨{ pool' with main := c }, found', cs, ?_, hs, hfound, hcs⟩
    simp only [if_true, hr, Outcome.ok_bind, hmain, hk]

-- The triangles over the edges from `a` to the nodes ahead, by `b` and then by `c`.
structure Closed (e : Intersection) (targets : Nat → List Nat) (a : Nat) (ahead : List Nat)
    (ts : List Triangle) : Prop where
  mem : ∀ t, t ∈ ts ↔ t.a = a ∧ (t.b ∈ ahead ∧ e.fits targets t.b = true) ∧
    (t.c ∈ ahead ∧ t.c ∈ targets t.b ∧ t.b < t.c) ∧ e.fits targets t.c = true
  ordered : ts.Pairwise fun s t => s.b < t.b ∨ s.b = t.b ∧ s.c < t.c

theorem foundAt_iff {b : Nat} {ahead cs : List Nat} :
    FoundAt e targets b ahead cs ↔ cs.Pairwise (· < ·) ∧
      ∀ c, c ∈ cs ↔ e.fits targets b = true ∧ (c ∈ ahead ∧ c ∈ targets b ∧ b < c) ∧
        e.fits targets c = true := by
  rw [FoundAt]
  cases e.fits targets b
  case false =>
    constructor
    case mp => exact fun h => by simp [show cs = [] by simpa using h]
    case mpr => exact fun ⟨_, hmem⟩ => by simpa [List.eq_nil_iff_forall_not_mem] using hmem
  case true =>
    constructor
    case mp => exact fun h => ⟨h.ascending, fun c => by simp [h.mem]⟩
    case mpr => exact fun ⟨hasc, hmem⟩ => ⟨fun c => by simp [hmem], hasc⟩

-- Nodes ahead that equal the first one make no edges of their own: the walk past it passes them too.
theorem Closed.of_foundAt {a b : Nat} {ahead cs : List Nat} {ts : List Triangle}
    (ha : (b :: ahead).Pairwise (· ≤ ·)) (hc : FoundAt e targets b (b :: ahead) cs)
    (ht : Closed e targets a ((b :: ahead).filter (b < ·)) ts) :
    Closed e targets a (b :: ahead) (cs.map (Triangle.mk a b) ++ ts) := by
  have ⟨hasc, hmem⟩ := foundAt_iff.mp hc
  have hin : ∀ i, i ∈ (b :: ahead).filter (b < ·) ↔ i ∈ b :: ahead ∧ b < i := fun i => by
    rw [List.mem_filter, decide_eq_true_eq]
  refine ⟨fun t => ?mem, List.pairwise_append.mpr ⟨?same, ht.ordered, ?later⟩⟩
  case mem =>
    rw [List.mem_append, ht.mem, hin, hin, List.mem_map]
    constructor
    case mp =>
      intro ht
      cases ht
      case inl ht =>
        have ⟨c, hcs, hct⟩ := ht
        have ⟨hb, hct', hfc⟩ := (hmem c).mp hcs
        exact hct ▸ ⟨rfl, ⟨List.mem_cons_self, hb⟩, hct', hfc⟩
      case inr ht =>
        have ⟨hta, ⟨⟨hb, _⟩, hfb⟩, ⟨⟨hc, _⟩, hct, hlt⟩, hfc⟩ := ht
        exact ⟨hta, ⟨hb, hfb⟩, ⟨hc, hct, hlt⟩, hfc⟩
    case mpr =>
      intro ⟨hta, ⟨hb, hfb⟩, ⟨hc, hct, hlt⟩, hfc⟩
      cases Nat.lt_or_ge b t.b
      case inl hbt => exact .inr ⟨hta, ⟨⟨hb, hbt⟩, hfb⟩, ⟨⟨hc, by omega⟩, hct, hlt⟩, hfc⟩
      case inr hbt =>
        have hle : b ≤ t.b :=
          (List.mem_cons.mp hb).elim (Nat.le_of_eq ·.symm) ((List.pairwise_cons.mp ha).left t.b)
        have heq : t.b = b := by omega
        rw [heq] at hfb hct hlt
        exact .inl ⟨t.c, (hmem t.c).mpr ⟨hfb, ⟨hc, hct, hlt⟩, hfc⟩, by rw [← hta, ← heq]⟩
  case same => exact List.pairwise_map.mpr (hasc.imp fun hlt => .inr ⟨rfl, hlt⟩)
  case later =>
    intro s hs t htm
    have ⟨c, _, hcs⟩ := List.mem_map.mp hs
    have ⟨_, hbt⟩ := (hin t.b).mp ((ht.mem t).mp htm).right.left.left
    exact .inl (by rwa [← hcs])

theorem closeEdges_finds (h : e.topology.Serves n targets) (a : Nat) {fuel : Nat} {pool : Pool}
    {ahead : List Nat} (found : Array Triangle) (hm : e.topology.arena.Stands pool.main ahead)
    (ha : ∀ i ∈ ahead, i < n) (hf : ahead.length < fuel) :
    ∃ pool' found' ts, e.closeEdges a fuel (headOr ahead) pool found = .ok (pool', found') ∧
      found'.toList = found.toList ++ ts ∧ Closed e targets a ahead ts := by
  induction fuel generalizing pool ahead found
  case zero => omega
  case succ fuel hi =>
    cases ahead
    case nil =>
      have hnil : headOr [] = notFound := rfl
      refine ⟨pool, found, [], ?_, by simp, by simp, .nil⟩
      rw [closeEdges, if_pos hnil]
      rfl
    case cons b ahead =>
      have ⟨pool₁, found₁, cs, he, hm₁, hfound₁, hcs⟩ := closeEdges_of_cons h a fuel found hm ha
      have hl := length_filter_lt (p := (b < ·)) b ahead (by simp)
      have ⟨pool₂, found₂, ts, hr, hfound₂, hts⟩ := hi found₁ hm₁ (forall_lt_filter ha) (by omega)
      refine ⟨pool₂, found₂, cs.map (Triangle.mk a b) ++ ts, he.trans hr, ?_, hts.of_foundAt hm.ascending hcs⟩
      rw [hfound₂, hfound₁, List.append_assoc]

-- The triangles whose smallest corner is `a`.
def IsTriangleAt (e : Intersection) (targets : Nat → List Nat) (a : Nat) (t : Triangle) : Prop :=
  t.a = a ∧ t.a < t.b ∧ t.b < t.c ∧ t.b ∈ targets t.a ∧ t.c ∈ targets t.a ∧ t.c ∈ targets t.b ∧
  (targets t.a).length ≤ e.maxDegree ∧ (targets t.b).length ≤ e.maxDegree ∧
  (targets t.c).length ≤ e.maxDegree ∧ e.includes t.b = true ∧ e.includes t.c = true

theorem trianglesAt_finds (h : e.topology.Serves n targets) {a : Nat} (ha : a < n) (pool : Pool) :
    ∃ pool' found, e.trianglesAt a pool = .ok (pool', found) ∧
      (∀ t, t ∈ found ↔ IsTriangleAt e targets a t) ∧
      found.toList.Pairwise fun s t => s.b < t.b ∨ s.b = t.b ∧ s.c < t.c := by
  by_cases hd : (targets a).length ≤ e.maxDegree
  case neg =>
    refine ⟨pool, #[], ?_, fun t => ?_, .nil⟩
    · rw [trianglesAt, degreeOk_eq h ha, Outcome.ok_bind, decide_eq_false hd]
      rfl
    · have : ¬IsTriangleAt e targets a t := fun ht => hd (ht.left ▸ ht.right.right.right.right.right.right.left)
      simp [this]
  case pos =>
    have ⟨offset, ho, hh⟩ := h.holds a ha
    have ⟨c₁, hr, hs⟩ := Arena.reset_stands pool.main hh
    have ⟨c₂, hk, hm⟩ := move_skipUntil a hs
    have hl := hm.length_le
    have ⟨pool', found, ts, hc, hfound, hts⟩ := @closeEdges_finds _ _ _ h a (c₂.remaining + 2)
      { pool with main := c₂ } _ #[] hm (forall_lt_filter (h.inside a ha)) (by omega)
    refine ⟨pool', found, ?_, fun t => ?_, by simpa [hfound] using hts.ordered⟩
    · rw [trianglesAt, degreeOk_eq h ha, Outcome.ok_bind, decide_eq_true hd]
      simp only [if_true, ho, Outcome.ok_bind, hr, Outcome.pure_eq_ok, hk, hc]
    · have ht : t ∈ found ↔ t ∈ ts := by rw [← Array.mem_toList_iff, hfound]; simp
      rw [ht, hts.mem, fits_iff, fits_iff, List.mem_filter, List.mem_filter, decide_eq_true_eq,
        decide_eq_true_eq]
      constructor
      case mp =>
        intro ⟨hta, ⟨⟨hb, hab⟩, hib, hdb⟩, ⟨⟨hc, _⟩, hcb, hbc⟩, hic, hdc⟩
        exact ⟨hta, hta ▸ hab, hbc, hta ▸ hb, hta ▸ hc, hcb, hta ▸ hd, hdb, hdc, hib, hic⟩
      case mpr =>
        intro ⟨hta, hab, hbc, hb, hc, hcb, _, hdb, hdc, hib, hic⟩
        rw [hta] at hab hb hc
        exact ⟨hta, ⟨⟨hb, hab⟩, hib, hdb⟩, ⟨⟨hc, by omega⟩, hcb, hbc⟩, hic, hdc⟩

end Intersection

end PropertyGraph
