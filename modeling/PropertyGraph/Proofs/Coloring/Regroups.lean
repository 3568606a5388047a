import Mathlib.Data.List.Dedup
import Mathlib.Data.List.Sort
import PropertyGraph.Proofs.Coloring.Slices

namespace PropertyGraph.Coloring

open Grouping (before rowsFrom)

-- The nodes in a stable order by color.
def byColor (colors : List Nat) : List Nat :=
  (List.range colors.length).mergeSort (colors.getD · 0 ≤ colors.getD · 0)

-- The colors that nodes have, ascending and each once.
def carried (colors : List Nat) : List Nat :=
  colors.dedup.mergeSort (· ≤ ·)

-- The coordinate of the first node of a color.
structure Starts (c : Coloring) (colors : List Nat) (x p : Nat) : Prop where
  color : ∃ v, c.get p = .ok v ∧ colors[v]? = some x
  first : ∀ r < p, ∀ v, c.get r = .ok v → colors[v]? ≠ some x

-- A coloring of nodes that have these colors.
structure Regroups (c : Coloring) (colors : List Nat) : Prop where
  order : (List.range colors.length).mapM c.get = .ok (byColor colors)
  ascending : ∀ p q v w x y, p < q → c.get p = .ok v → c.get q = .ok w →
    colors[v]? = some x → colors[w]? = some y → x < y ∨ x = y ∧ v < w
  colorCount : c.colorCount = colors.dedup.length
  slice : ∀ p v x, c.get p = .ok v → colors[v]? = some x →
    p < c.nextStart p ∧ c.nextStart p ≤ colors.length ∧ c.count p = .ok (c.nextStart p - p) ∧
      ∃ start ≤ p, ∀ r w, c.get r = .ok w → (colors[w]? = some x ↔ start ≤ r ∧ r < c.nextStart p)
  starts : List.Forall₂ (c.Starts colors) (carried colors) (List.iterate c.nextStart 0 c.colorCount)
  stop : c.nextStart^[c.colorCount] 0 = colors.length

variable {c : Coloring} {colors used known numbers : List Nat} {p s v x y : Nat}

theorem palette_ascending (used : List Nat) : (palette used).Pairwise (· < ·) :=
  eraseReps_ascending (mergeSort_ascending id used)

theorem mem_palette : x ∈ palette used ↔ x ∈ used := by
  rw [palette, mem_eraseReps, List.mem_mergeSort]

theorem mem_carried : x ∈ carried colors ↔ x ∈ colors := by
  rw [carried, List.mem_mergeSort, List.mem_dedup]

theorem carried_ascending (colors : List Nat) : (carried colors).Pairwise (· < ·) := by
  have hle := mergeSort_ascending id colors.dedup
  have hne : (carried colors).Nodup := (List.mergeSort_perm _ _).nodup_iff.mpr (List.nodup_dedup colors)
  exact hle.imp₂ (fun _ _ => Nat.lt_of_le_of_ne) hne

theorem number_eq_ok (h : number known (x, v) = .ok s) : known[s]? = some x := by
  rw [number] at h
  split at h
  case h_1 t ht =>
    rw [← Except.ok.inj h]
    exact List.getElem?_eq_some_iff.mpr ((List.idxOf?_eq_some_iff.mp ht).imp fun _ => And.left)
  case h_2 => cases h

theorem exists_number (h : x ∈ known) (v : Nat) : ∃ s, number known (x, v) = .ok s := by
  have ⟨s, hs⟩ := Option.isSome_iff_exists.mp (List.isSome_idxOf?.mpr h)
  exact ⟨s, by rw [number, hs]⟩

-- The number of each node is that of its color.
structure Numbered (known colors numbers : List Nat) : Prop where
  ascending : known.Pairwise (· < ·)
  numbers : numbers.map (known[·]?) = colors.map some

theorem numbered_of_mapM (ha : known.Pairwise (· < ·)) (h : colors.zipIdx.mapM (number known) = .ok numbers) :
    Numbered known colors numbers := by
  refine ⟨ha, ?_⟩
  have hcolors : colors.map some = colors.zipIdx.map fun e => some e.1 := by
    conv_lhs => rw [← List.zipIdx_map_fst 0 colors]
    exact List.map_map
  rw [hcolors, ← List.forall₂_eq_eq_eq, List.forall₂_map_left_iff, List.forall₂_map_right_iff]
  exact (Outcome.mapM_eq_ok.mp h).flip.imp fun _ _ hs => number_eq_ok hs

namespace Numbered

variable (h : Numbered known colors numbers)
include h

theorem length_eq : numbers.length = colors.length := by
  simpa using congrArg List.length h.numbers

theorem lt (s : Nat) (hs : s ∈ numbers) : s < known.length := by
  have hk : known[s]? ∈ colors.map some := h.numbers ▸ List.mem_map_of_mem hs
  have ⟨x, _, hx⟩ := List.mem_map.mp hk
  exact (List.getElem?_eq_some_iff.mp hx.symm).1

theorem getElem?_iff : colors[v]? = some x ↔ ∃ s, numbers[v]? = some s ∧ known[s]? = some x := by
  have hv : (numbers[v]?).map (known[·]?) = (colors[v]?).map some := by
    rw [← List.getElem?_map, h.numbers, List.getElem?_map]
  cases hn : numbers[v]?
  case none => simp_all
  case some s => cases hc : colors[v]? <;> simp_all

-- The colors are ordered as their numbers are.
theorem before_eq (hs : known[s]? = some x) : before colors.toArray x = before numbers.toArray s := by
  have hc : before colors.toArray x = (colors.map some).countP fun y => y.any (· < x) := by
    rw [List.countP_map]
    rfl
  rw [hc, ← h.numbers, List.countP_map]
  refine List.countP_congr fun t ht => ?_
  have hy := List.getElem?_eq_getElem (h.lt t ht)
  simp [hy, lt_iff_of_ascending h.ascending hy hs]

-- The slice of a color that a node has begins behind the nodes of all smaller colors, and is not empty.
theorem exists_slice_of_mem (hx : x ∈ colors) : ∃ s < known.length, known[s]? = some x ∧
    before colors.toArray x = before numbers.toArray s ∧
      before numbers.toArray s < before numbers.toArray (s + 1) ∧ before numbers.toArray s < numbers.length := by
  have ⟨v, hv⟩ := List.mem_iff_getElem?.mp hx
  have ⟨s, hs, hk⟩ := h.getElem?_iff.mp hv
  have hpos := List.count_pos_iff.mpr (List.mem_of_getElem? hs)
  have hsucc := before_succ numbers s
  have hle := before_le_length numbers (s + 1)
  exact ⟨s, h.lt s (List.mem_of_getElem? hs), hk, h.before_eq hk, by omega, by omega⟩

end Numbered

theorem exists_ofColors (h : colors.zipIdx.mapM (number (palette used)) = .ok numbers) :
    ∃ c, ofColors colors used = .ok c ∧ Numbered (palette used) colors numbers ∧
      c.Arranged (palette used).length numbers := by
  have hn := numbered_of_mapM (palette_ascending used) h
  have ⟨free, order, hfill, hfilled⟩ := exists_fill hn.lt
  have hbounds := boundsOf_sums hn.lt
  rw [hn.length_eq] at hbounds
  exact ⟨⟨order, boundsOf colors.length _⟩, by simp [ofColors, h, hfill], hn, hn.lt, ⟨free, hfilled⟩, hbounds⟩

theorem exists_of_ofColors (h : ofColors colors used = .ok c) :
    ∃ numbers, Numbered (palette used) colors numbers ∧ c.Arranged (palette used).length numbers := by
  have ⟨numbers, hnumbers, _⟩ := Outcome.bind_eq_ok.mp h
  have ⟨c', hc', hn, ha⟩ := exists_ofColors hnumbers
  exact ⟨numbers, hn, Except.ok.inj (hc'.symm.trans h) ▸ ha⟩

theorem exists_ofColors_iff (colors used : List Nat) :
    (∃ c, ofColors colors used = .ok c) ↔ ∀ x ∈ colors, x ∈ used := by
  constructor
  case mp =>
    intro ⟨c, h⟩ x hx
    have ⟨numbers, hn, _⟩ := exists_of_ofColors h
    have ⟨v, hv⟩ := List.mem_iff_getElem?.mp hx
    have ⟨s, _, hs⟩ := hn.getElem?_iff.mp hv
    exact mem_palette.mp (List.mem_of_getElem? hs)
  case mpr =>
    intro hused
    have ⟨numbers, hnumbers⟩ : ∃ numbers, colors.zipIdx.mapM (number (palette used)) = .ok numbers :=
      Outcome.exists_mapM fun e he => exists_number (mem_palette.mpr (hused e.1 (List.fst_mem_of_mem_zipIdx he))) e.2
    have ⟨c, hc, _⟩ := exists_ofColors hnumbers
    exact ⟨c, hc⟩

theorem get_eq_ok : c.get p = .ok v ↔ c.order[p]? = some v := by
  rw [get]
  cases c.order[p]? <;> simp

namespace Arranged

variable (hn : Numbered known colors numbers) (h : c.Arranged known.length numbers)
include hn h

theorem lex_colors : c.order.toList.Pairwise fun v w =>
    colors.getD v 0 < colors.getD w 0 ∨ colors.getD v 0 = colors.getD w 0 ∧ v < w := by
  refine h.lex.imp fun {v w} ⟨s, t, hs, ht, hlt⟩ => ?_
  have hx := List.getElem?_eq_getElem (h.lt s (List.mem_of_getElem? hs))
  have hy := List.getElem?_eq_getElem (h.lt t (List.mem_of_getElem? ht))
  have hv := hn.getElem?_iff.mpr ⟨s, hs, hx⟩
  have hw := hn.getElem?_iff.mpr ⟨t, ht, hy⟩
  rw [List.getD_eq_getElem?_getD, List.getD_eq_getElem?_getD, hv, hw, Option.getD_some, Option.getD_some]
  cases hlt
  case inl hst => exact .inl ((lt_iff_of_ascending hn.ascending hx hy).mpr hst)
  case inr he =>
    have ⟨he, hvw⟩ := he
    subst he
    exact .inr ⟨rfl, hvw⟩

theorem toList_order : c.order.toList = byColor colors :=
  (mergeSort_eq_of_lex List.pairwise_lt_range (hn.length_eq ▸ h.perm) (h.lex_colors hn)).symm

theorem mapM_get : (List.range colors.length).mapM c.get = .ok (byColor colors) := by
  rw [← h.toList_order hn, Outcome.mapM_eq_ok, List.forall₂_iff_get]
  refine ⟨by simp [h.size, hn.length_eq], fun p hp hp' => ?_⟩
  rw [get_eq_ok]
  simp

-- A node with a color is in the slice of the number of this color.
theorem slice_iff {r w : Nat} (hs : known[s]? = some x) (hw : c.order[r]? = some w) :
    colors[w]? = some x ↔ before numbers.toArray s ≤ r ∧ r < before numbers.toArray (s + 1) := by
  constructor
  case mp =>
    intro hx
    have ⟨t, ht, htx⟩ := hn.getElem?_iff.mp hx
    have hst : s = t := by
      have ⟨hlt, _⟩ := List.getElem?_eq_some_iff.mp hs
      exact (List.getElem?_inj hlt (hn.ascending.imp Nat.ne_of_lt)).mp (hs.trans htx.symm)
    exact h.slice hw (hst ▸ ht)
  case mpr =>
    intro hr
    have ⟨t, _, ht, _⟩ := h.exists_number hw
    rw [hn.getElem?_iff]
    exact ⟨t, ht, slice_unique (Grouping.before_monotone numbers.toArray) hr (h.slice hw ht) ▸ hs⟩

theorem starts_before (hx : x ∈ colors) : c.Starts colors x (before colors.toArray x) := by
  have ⟨s, _, hk, he, hlt, hn'⟩ := hn.exists_slice_of_mem hx
  have hw := Array.getElem?_eq_getElem (h.size ▸ hn')
  rw [he]
  constructor
  case color => exact ⟨_, get_eq_ok.mpr hw, (h.slice_iff hn hk hw).mpr ⟨Nat.le_refl _, hlt⟩⟩
  case first =>
    intro r hr v hv hx
    have ⟨hle, _⟩ := (h.slice_iff hn hk (get_eq_ok.mp hv)).mp hx
    omega

theorem mem_starts {b : Nat} :
    b ∈ c.bounds.filter (· < numbers.length) ↔ b ∈ (carried colors).map (before colors.toArray) := by
  simp only [List.mem_filter, h.mem_bounds, decide_eq_true_eq, List.mem_map, mem_carried]
  constructor
  case mp =>
    intro ⟨⟨t, _, ht⟩, hlt⟩
    have hw := Array.getElem?_eq_getElem (h.size ▸ hlt)
    have ⟨s, _, hs, _⟩ := h.exists_number hw
    have hk := List.getElem?_eq_getElem (h.lt s (List.mem_of_getElem? hs))
    refine ⟨_, List.mem_of_getElem? (hn.getElem?_iff.mpr ⟨s, hs, hk⟩), (hn.before_eq hk).trans ?_⟩
    -- A bound inside of a slice is its start.
    have ⟨hle, hsucc⟩ := h.slice hw hs
    have hts : t < s + 1 := Grouping.lt_of_before_lt (ht ▸ hsucc)
    have := Grouping.before_monotone numbers.toArray (Nat.le_of_lt_succ hts)
    omega
  case mpr =>
    intro ⟨x, hx, hb⟩
    have ⟨s, hs, _, he, _, hlt⟩ := hn.exists_slice_of_mem hx
    exact ⟨⟨s, Nat.le_of_lt hs, he.symm.trans hb⟩, hb ▸ he ▸ hlt⟩

theorem starts_eq : c.bounds.filter (· < numbers.length) = (carried colors).map (before colors.toArray) := by
  refine List.Pairwise.eq_of_mem_iff (h.bounds_ascending.filter _) ?_ fun b => mem_starts hn h
  refine List.pairwise_map.mpr (List.Pairwise.imp_of_mem ?_ (carried_ascending colors))
  intro x y hx _ hxy
  have hpos := List.count_pos_iff.mpr (mem_carried.mp hx)
  have hsucc := before_succ colors x
  have hle := Grouping.before_monotone colors.toArray (show x + 1 ≤ y from hxy)
  omega

theorem slice_color (hv : c.get p = .ok v) (hx : colors[v]? = some x) :
    p < c.nextStart p ∧ c.nextStart p ≤ colors.length ∧ c.count p = .ok (c.nextStart p - p) ∧
      ∃ start ≤ p, ∀ r w, c.get r = .ok w → (colors[w]? = some x ↔ start ≤ r ∧ r < c.nextStart p) := by
  have ⟨s, hs, hk⟩ := hn.getElem?_iff.mp hx
  have ⟨hle, hlt⟩ := h.slice (get_eq_ok.mp hv) hs
  have hnext := h.nextStart_eq (h.lt s (List.mem_of_getElem? hs)) hle hlt
  rw [count, hnext, if_pos (Nat.le_of_lt hlt), ← hn.length_eq]
  refine ⟨hlt, before_le_length _ _, rfl, _, hle, fun r w hw => ?_⟩
  exact h.slice_iff hn hk (get_eq_ok.mp hw)

theorem regroups : c.Regroups colors where
  order := h.mapM_get hn
  ascending p q v w x y hpq hv hw hx hy := by
    have ⟨hp, hv⟩ := Array.getElem?_eq_some_iff.mp (get_eq_ok.mp hv)
    have ⟨hq, hw⟩ := Array.getElem?_eq_some_iff.mp (get_eq_ok.mp hw)
    have := List.pairwise_iff_getElem.mp (h.lex_colors hn) p q hp hq hpq
    simpa [hv, hw, List.getD_eq_getElem?_getD, hx, hy] using this
  colorCount := by
    rw [h.colorCount_eq, starts_eq hn h, List.length_map, carried, List.length_mergeSort]
  slice _ _ _ := h.slice_color hn
  starts := by
    rw [h.iterate_colorCount.left, starts_eq hn h, List.forall₂_map_right_iff, List.forall₂_same]
    exact fun x hx => h.starts_before hn (mem_carried.mp hx)
  stop := hn.length_eq ▸ h.iterate_colorCount.right

end Arranged

theorem ofColors_regroups (colors used : List Nat) :
    ((∃ c, ofColors colors used = .ok c) ↔ ∀ x ∈ colors, x ∈ used) ∧
      ∀ c, ofColors colors used = .ok c → c.Regroups colors :=
  ⟨exists_ofColors_iff colors used, fun _ hc =>
    have ⟨_, hn, ha⟩ := exists_of_ofColors hc
    ha.regroups hn⟩

-- Between the colors that nodes have is one that no node has.
theorem ofColors_regroups_of_unused :
    ∃ c, ofColors [7, 1, 7] [1, 4, 7] = .ok c ∧ c.Regroups [7, 1, 7] ∧ c.colorCount = 2 := by
  have ⟨hiff, h⟩ := ofColors_regroups [7, 1, 7] [1, 4, 7]
  have ⟨c, hc⟩ := hiff.mpr (by decide)
  exact ⟨c, hc, h c hc, (h c hc).colorCount⟩

end PropertyGraph.Coloring
