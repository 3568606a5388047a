import PropertyGraph.Proofs.Run.Reader

namespace PropertyGraph.Arena

-- What can be appended: a run, or a buffer of runs encoded behind some other bytes.
inductive Write
  | run (ids : List Nat)
  | detached (front : Array UInt8) (runs : List (List Nat))

def Write.runs : Write → List (List Nat)
  | run ids => [ids]
  | detached _ runs => runs

-- Appends, and tells of each run the offset at which it is found from now on.
def perform (a : Arena) : Write → Except Fault (List (Nat × List Nat) × Arena)
  | .run ids => do
    let (offset, a) ← a.appendRun ids
    return ([(offset, ids)], a)
  | .detached front runs => do
    let (starts, buffer) ← encodeRuns front runs
    let (base, a) := a.appendEncoded buffer.toList
    return ((starts.map (base + ·)).zip runs, a)

def performAll : List Write → Arena → Except Fault (List (Nat × List Nat) × Arena)
  | [], a => .ok ([], a)
  | w :: ws, a => do
    let (placed, a) ← a.perform w
    let (more, a) ← performAll ws a
    return (placed ++ more, a)

def Extends (a a' : Arena) : Prop :=
  ∃ more : List UInt8, a'.bytes = a.bytes ++ more

variable {a a' a'' : Arena} {offset : Nat} {ids : List Nat}

namespace Extends

theorem refl (a : Arena) : a.Extends a :=
  ⟨[], by simp⟩

theorem trans (h : a.Extends a') (h' : a'.Extends a'') : a.Extends a'' := by
  have ⟨more, h⟩ := h
  have ⟨more', h'⟩ := h'
  exact ⟨more ++ more', by simp [h, h', ← Array.toList_inj]⟩

theorem size_le (h : a.Extends a') : a.size ≤ a'.size := by
  have ⟨more, h⟩ := h
  simp [size, h, ← Array.length_toList]

theorem holds (h : a.Extends a') (hh : a.Holds offset ids) : a'.Holds offset ids where
  isRun := hh.isRun
  written := by
    have ⟨more, h⟩ := h
    have hw := hh.written
    split at hw
    case isTrue h₀ => rwa [if_pos h₀]
    case isFalse h₀ =>
      rw [if_neg h₀, h]
      exact hw.extend

end Extends

theorem extends_appendEncoded (a : Arena) (encoded : List UInt8) :
    a.Extends (a.appendEncoded encoded).2 :=
  ⟨encoded, rfl⟩

theorem encodeRun_of_isRun (h : IsRun ids) : encodeRun ids = .ok (runBytes ids) :=
  if_pos h.short

theorem holds_appendEncoded (ha : 0 < a.size) (h : IsRun ids) :
    (a.appendEncoded (runBytes ids)).2.Holds a.size ids where
  isRun := h
  written := by
    rw [if_neg (by omega)]
    exact .append_self

theorem appendRun_nil (a : Arena) : a.appendRun [] = .ok (0, a) := rfl

-- To write a run is to append the bytes that encode it.
theorem appendRun_eq (hn : ids ≠ []) : a.appendRun ids = (encodeRun ids).map a.appendEncoded := by
  rw [appendRun, encodeRun, if_neg (by simpa using hn)]
  split
  case isTrue hl =>
    rw [if_neg (Nat.not_le.mpr hl)]
    rfl
  case isFalse hl =>
    rw [if_pos (Nat.not_lt.mp hl)]
    simp [Except.map, appendEncoded, ← Array.toList_inj]

theorem appendRun_of_isRun (hn : ids ≠ []) (h : IsRun ids) :
    a.appendRun ids = .ok (a.appendEncoded (runBytes ids)) := by
  rw [appendRun_eq hn, encodeRun_of_isRun h]
  rfl

theorem appendRun_holds (ha : 0 < a.size) (h : IsRun ids) :
    ∃ offset a', a.appendRun ids = .ok (offset, a') ∧ a.Extends a' ∧ a'.Holds offset ids := by
  by_cases hn : ids = []
  case pos =>
    subst hn
    exact ⟨0, a, appendRun_nil a, .refl a, .zero a⟩
  case neg =>
    refine ⟨_, _, appendRun_of_isRun hn h, extends_appendEncoded _ _, ?_⟩
    exact holds_appendEncoded ha h

-- Runs behind the first one are written behind its bytes, which therefore stay where they are.
theorem encodeRuns_of_isRun (out : Array UInt8) {runs : List (List Nat)}
    (h : ∀ ids ∈ runs, IsRun ids) :
    ∃ starts all, encodeRuns out runs = .ok (starts, all) ∧ starts.length = runs.length ∧
      Extends ⟨out⟩ ⟨all⟩ ∧ ∀ p ∈ starts.zip runs, HasAt all p.1 (runBytes p.2) := by
  induction runs generalizing out
  case nil => exact ⟨[], out, rfl, rfl, .refl _, by simp⟩
  case cons ids runs hi =>
    have hids := h ids List.mem_cons_self
    have ⟨starts, all, he, hl, hx, hs⟩ :=
      hi (out ++ runBytes ids) fun ids' hm => h ids' (List.mem_cons_of_mem _ hm)
    refine ⟨out.size :: starts, all, ?ok, by simp [hl], .trans ⟨_, rfl⟩ hx, ?stand⟩
    case ok => simp [encodeRuns, encodeRun_of_isRun hids, he]
    case stand =>
      intro p hp
      cases List.mem_cons.mp hp
      case inl hp =>
        have ⟨more, hx⟩ := hx
        simp only at hx
        rw [hp, hx]
        exact HasAt.append_self.extend
      case inr hp => exact hs p hp

-- The buffer is appended as a whole, so that each of its runs moves by the size of the arena.
theorem perform_holds {w : Write} (ha : 0 < a.size) (h : ∀ ids ∈ w.runs, IsRun ids) :
    ∃ placed a', a.perform w = .ok (placed, a') ∧ placed.map (·.2) = w.runs ∧
      a.Extends a' ∧ ∀ p ∈ placed, a'.Holds p.1 p.2 := by
  cases w
  case run ids =>
    obtain ⟨offset, a', he, hx, hh⟩ := appendRun_holds ha (h ids List.mem_cons_self)
    refine ⟨[(offset, ids)], a', ?_, rfl, hx, by simpa using hh⟩
    simp [perform, he]
  case detached front runs =>
    simp only [Write.runs] at h
    obtain ⟨starts, buffer, he, hl, _, hs⟩ := encodeRuns_of_isRun front h
    refine ⟨(starts.map (a.size + ·)).zip runs, (a.appendEncoded buffer.toList).2, ?ok, ?runs,
      extends_appendEncoded _ _, ?holds⟩
    case ok => simp [perform, he, appendEncoded]
    case runs => exact List.map_snd_zip (by simp [hl])
    case holds =>
      intro p hp
      rw [List.zip_map_left, List.mem_map] at hp
      obtain ⟨q, hq, hp⟩ := hp
      subst hp
      refine ⟨h q.2 (List.of_mem_zip hq).right, ?_⟩
      rw [if_neg (by simp; omega)]
      exact (hs q hq).shift

theorem performAll_holds {ws : List Write} (ha : 0 < a.size)
    (h : ∀ w ∈ ws, ∀ ids ∈ w.runs, IsRun ids) :
    ∃ placed a', performAll ws a = .ok (placed, a') ∧ placed.map (·.2) = ws.flatMap Write.runs ∧
      a.Extends a' ∧ ∀ p ∈ placed, a'.Holds p.1 p.2 := by
  induction ws generalizing a
  case nil => exact ⟨[], a, rfl, rfl, .refl a, by simp⟩
  case cons w ws hi =>
    have ⟨placed, a₁, he, hr, hx, hh⟩ := perform_holds ha (h w List.mem_cons_self)
    have ⟨more, a₂, he', hr', hx', hh'⟩ :=
      hi (Nat.lt_of_lt_of_le ha hx.size_le) fun w' hm => h w' (List.mem_cons_of_mem _ hm)
    refine ⟨placed ++ more, a₂, ?ok, by simp [hr, hr'], hx.trans hx', ?holds⟩
    case ok => simp [performAll, he, he']
    case holds =>
      intro p hp
      cases List.mem_append.mp hp
      case inl hp => exact hx'.holds (hh p hp)
      case inr hp => exact hh' p hp

-- Each run that was written is read back from its offset. Zero is told for the empty run only; any other
-- run is appended with the bytes that encode it.
theorem performAll_reads_back (ws : List Write) (h : ∀ w ∈ ws, ∀ ids ∈ w.runs, IsRun ids) :
    ∃ placed a, performAll ws .empty = .ok (placed, a) ∧
      placed.map (·.2) = ws.flatMap Write.runs ∧
      (∀ offset ids, (offset, ids) ∈ placed →
        a.degree offset = .ok ids.length ∧
        ∃ c c', a.cursor offset = .ok c ∧ a.drain c = (.ok ids, c') ∧ c'.hasNext = false) ∧
      ∀ ids, IsRun ids → ∃ offset a', a.appendRun ids = .ok (offset, a') ∧
        (offset = 0 ↔ ids = []) ∧
        if ids = [] then a' = a
        else ∃ encoded, encodeRun ids = .ok encoded ∧ a.appendEncoded encoded = (offset, a') := by
  have ⟨placed, a, he, hr, hx, hh⟩ := performAll_holds (a := .empty) (by decide) h
  refine ⟨placed, a, he, hr, ?read, ?append⟩
  case read =>
    intro offset ids hp
    have hp := hh _ hp
    have ⟨c, hc, hs⟩ := cursor_of_holds hp
    have ⟨c', hd, hz⟩ := drain_of_shows hs
    exact ⟨degree_of_holds hp, c, c', hc, hd, by simp [Cursor.hasNext, hz]⟩
  case append =>
    intro ids hi
    have ha : 0 < a.size := Nat.lt_of_lt_of_le (by decide) hx.size_le
    by_cases hn : ids = []
    case pos =>
      subst hn
      exact ⟨0, a, appendRun_nil a, by simp, by simp⟩
    case neg =>
      refine ⟨_, _, appendRun_of_isRun hn hi, ?_, ?_⟩
      · simp only [hn, iff_false]
        omega
      · rw [if_neg hn]
        exact ⟨_, encodeRun_of_isRun hi, rfl⟩

theorem performAll_reads_back_parallel :
    let ws := [.run [3, 3, 300], .detached #[7] [[], [Word64.greatest]], .run []]
    (∀ w ∈ ws, ∀ ids ∈ w.runs, IsRun ids) ∧
      ∃ placed a, performAll ws .empty = .ok (placed, a) ∧
        placed.map (·.2) = [[3, 3, 300], [], [Word64.greatest], []] := by
  intro ws
  have h : ∀ w ∈ ws, ∀ ids ∈ w.runs, IsRun ids := by
    have h₁ : IsRun [3, 3, 300] := by decide
    have h₂ : IsRun [Word64.greatest] := by decide
    simp [ws, Write.runs, h₁, h₂, IsRun.nil]
  have ⟨placed, a, he, hr, _⟩ := performAll_reads_back ws h
  exact ⟨h, placed, a, he, hr⟩

end PropertyGraph.Arena
