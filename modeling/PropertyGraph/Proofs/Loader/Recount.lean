import PropertyGraph.Proofs.Loader.Rows

namespace PropertyGraph.Loader

open Relationships

-- What is seen of the nodes, by external ids, is what is to be shown.
structure Recounts (n : Nat) (external : Nat → Nat) (seen : Nat → List (Nat × Float))
    (shown : List (Nat × Nat × Float)) : Prop where
  all : ((List.range n).flatMap fun v => (seen v).map fun x => (external v, external x.1, x.2)).Perm shown
  ascending : ∀ v < n, (seen v).Pairwise (·.1 ≤ ·.1)
  parallel : ∀ v < n, ∀ w < n, ((seen v).filter (·.1 = w)).map (·.2) =
    (shown.filter fun x => x.1 = external v ∧ x.2.1 = external w).map (·.2.2)

namespace PendingType

variable {b : IdMap.Builder} {t : PendingType} {gs : List Given} {key : String} {j v : Nat}

-- The rows of a node by target.
def sortedRows (t : PendingType) (v : Nat) : List Row :=
  (t.rows.filter (·.source = v)).mergeSort (·.target ≤ ·.target)

def seen (t : PendingType) (j v : Nat) : List (Nat × Float) :=
  (t.sortedRows v).map fun r => (r.target, r.valueAt j)

theorem exists_external (hv : v < b.nodeCount) : b.externals.id? v = some (externalOf b v) := by
  have ⟨x, hx⟩ := Numbering.exists_id? hv
  rw [externalOf, hx, Option.getD_some]

theorem externalOf_inj {w : Nat} (hv : v < b.nodeCount) (hw : w < b.nodeCount) :
    externalOf b v = externalOf b w ↔ v = w := by
  constructor
  case mp => exact fun he => Numbering.id?_injective (exists_external hv) (he ▸ exists_external hw)
  case mpr => exact fun he => he ▸ rfl

theorem lt_of_mem_rows (h : Records b t gs) {r : Row} (hr : r ∈ t.rows) :
    r.source < b.nodeCount ∧ r.target < b.nodeCount := by
  have ⟨e, he, hre⟩ := List.mem_flatMap.mp hr
  have ⟨hs, ht, _⟩ := fits_of_records h e he
  cases ho : t.layout.orientation
  all_goals simp only [ho, Batch.rowsIn] at hre
  case natural => exact List.mem_singleton.mp hre ▸ ⟨hs, ht⟩
  case reverse => exact List.mem_singleton.mp hre ▸ ⟨ht, hs⟩
  case undirected =>
    cases List.mem_cons.mp hre
    case inl hre => exact hre ▸ ⟨hs, ht⟩
    case inr hre => exact List.mem_singleton.mp hre ▸ ⟨ht, hs⟩

theorem map_seen (t : PendingType) (b : IdMap.Builder) (j v : Nat) :
    (t.seen j v).map (fun x => (externalOf b v, externalOf b x.1, x.2)) =
      (t.sortedRows v).map (rowShown b j) := by
  rw [seen, List.map_map]
  refine List.map_congr_left fun r hr => ?_
  have hs : r.source = v := by simpa using List.of_mem_filter (List.mem_mergeSort.mp hr)
  rw [rowShown, hs]
  rfl

theorem seen_perm (h : Records b t gs) (j : Nat) :
    ((List.range b.nodeCount).flatMap fun v =>
      (t.seen j v).map fun x => (externalOf b v, externalOf b x.1, x.2)).Perm
        (t.rows.map (rowShown b j)) := by
  have hp := flatMap_filter_perm Row.source t.rows b.nodeCount
  rw [List.filter_eq_self.mpr fun r hr => decide_eq_true (lt_of_mem_rows h hr).left] at hp
  have hsort : ((List.range b.nodeCount).flatMap t.sortedRows).Perm
      ((List.range b.nodeCount).flatMap fun v => t.rows.filter (·.source = v)) :=
    List.Perm.flatMap_left _ fun v _ => List.mergeSort_perm _ _
  simp only [map_seen]
  rw [← List.map_flatMap]
  exact (hsort.trans hp).map _

theorem recounts (h : Records b t gs) (hj : t.keys[j]? = some key) :
    Recounts b.nodeCount (externalOf b) (t.seen j)
      (gs.flatMap (·.shown t.layout.orientation key)) where
  all := rows_shown h hj ▸ seen_perm h j
  ascending v _ := List.pairwise_map.mpr (mergeSort_ascending Row.target _)
  parallel v hv w hw := by
    have hs := (StableSort.mergeSort (t.rows.filter (·.source = v))).stable w
    have hf : (t.seen j v).filter (·.1 = w) =
        ((t.sortedRows v).filter (·.target = w)).map fun r => (r.target, r.valueAt j) := List.filter_map ..
    have hends : t.rows.filter (fun r => decide (r.target = w) && decide (r.source = v)) =
        t.rows.filter ((fun x : Nat × Nat × Float =>
          decide (x.1 = externalOf b v ∧ x.2.1 = externalOf b w)) ∘ rowShown b j) := by
      refine List.filter_congr fun r hr => ?_
      have ⟨hsource, htarget⟩ := lt_of_mem_rows h hr
      simp only [Function.comp_apply, rowShown, externalOf_inj hsource hv, externalOf_inj htarget hw]
      rw [Bool.eq_iff_iff]
      simp [and_comm]
    rw [hf, sortedRows, hs, ← rows_shown h hj, List.filter_map, List.filter_filter, hends, List.map_map,
      List.map_map]
    rfl

end PendingType

end PropertyGraph.Loader
