import PropertyGraph.Proofs.Run.Reader

namespace PropertyGraph

-- The ids from the current one on.
def Reader.ahead (r : Reader) : List Nat :=
  r.current.toList ++ r.rest

theorem Reader.probe_ahead (hit : Nat → Bool) (r : Reader) :
    (r.probe hit).1 = .ok ((r.ahead.dropWhile (!hit ·)).head?.getD notFound) ∧
      (r.probe hit).2.ahead = r.ahead.dropWhile (!hit ·) := by
  have hu : (r.readUntil hit).1 = .ok ((r.rest.dropWhile (!hit ·)).head?.getD notFound) ∧
      (r.readUntil hit).2.ahead = r.rest.dropWhile (!hit ·) := by
    rw [readUntil]
    cases r.rest.dropWhile (!hit ·) <;> exact ⟨rfl, rfl⟩
  obtain ⟨current, rest⟩ := r
  cases current
  case none => exact hu
  case some id =>
    cases hid : hit id
    case false => simpa [probe, ahead, Option.filter, hid] using hu
    case true => simp [probe, ahead, Option.filter, hid]

theorem dropWhile_eq_filter {hit : Nat → Bool} {ids : List Nat} (h : ids.Pairwise (· ≤ ·))
    (hm : ∀ i j, i ≤ j → hit i = true → hit j = true) : ids.dropWhile (!hit ·) = ids.filter hit := by
  induction ids
  case nil => rfl
  case cons id ids hi =>
    have ⟨hle, hp⟩ := List.pairwise_cons.mp h
    cases hid : hit id
    case false => simpa [hid] using hi hp
    case true =>
      have hall : ∀ i ∈ ids, hit i = true := fun i hmem => hm id i (hle i hmem) hid
      simpa [hid] using (List.filter_eq_self.mpr hall).symm

namespace Arena

-- The ids of a run that a cursor has not passed yet, its current one included.
def Stands (a : Arena) (c : Cursor) (ids : List Nat) : Prop :=
  ∃ r, a.Shows c r ∧ r.ahead = ids

variable {a : Arena} {c : Cursor} {ids : List Nat} {offset : Nat}

theorem Stands.ascending (h : a.Stands c ids) : ids.Pairwise (· ≤ ·) := by
  have ⟨⟨current, rest⟩, hs, he⟩ := h
  have hc := hs.current
  have hp := hs.ascending
  cases current
  case none => exact he ▸ (List.pairwise_cons.mp hp).right
  case some id =>
    have hid : c.last = id := by
      rw [Cursor.current] at hc
      split at hc <;> simp_all
    exact he ▸ hid ▸ hp

theorem Stands.length_le (h : a.Stands c ids) : ids.length ≤ c.remaining + 1 := by
  have ⟨⟨current, rest⟩, hs, he⟩ := h
  have hr : c.remaining = rest.length := hs.remaining
  rw [← he, Reader.ahead, List.length_append, hr]
  cases current <;> simp [Nat.add_comm]

theorem reset_stands (c : Cursor) (h : a.Holds offset ids) :
    ∃ c', a.reset offset c = (.ok (), c') ∧ a.Stands c' ids := by
  have ⟨ha, hs⟩ := @reset_agrees a c offset ids h
  exact ⟨_, Prod.ext ha rfl, _, hs, rfl⟩

theorem probe_stands {hit : Nat → Bool} (hm : ∀ i j, i ≤ j → hit i = true → hit j = true)
    (h : a.Stands c ids) :
    ∃ c', a.probe hit c = (.ok ((ids.filter hit).head?.getD notFound), c') ∧
      a.Stands c' (ids.filter hit) := by
  have ⟨r, hs, he⟩ := h
  have ⟨ha, hs'⟩ := probe_agrees hit hs
  have ⟨hp, hr⟩ := r.probe_ahead hit
  rw [he, dropWhile_eq_filter h.ascending hm] at hp hr
  exact ⟨_, Prod.ext (ha.trans hp) rfl, _, hs', hr⟩

theorem skipUntil_stands (x : Nat) (h : a.Stands c ids) :
    ∃ c', a.skipUntil x c = (.ok ((ids.filter (x < ·)).head?.getD notFound), c') ∧
      a.Stands c' (ids.filter (x < ·)) :=
  probe_stands (by simp; omega) h

theorem advance_stands (x : Nat) (h : a.Stands c ids) :
    ∃ c', a.advance x c = (.ok ((ids.filter (x ≤ ·)).head?.getD notFound), c') ∧
      a.Stands c' (ids.filter (x ≤ ·)) :=
  probe_stands (by simp; omega) h

end Arena

end PropertyGraph
