import PropertyGraph.Proofs.Loader.Pending
import PropertyGraph.Proofs.Relationship.Built

namespace PropertyGraph

open Relationships

namespace Batch

def Call.ofRow (r : Row) : Call := .add r.source r.target r.values

variable {b : Batch} {rows rs : List Row}

-- Where every row fits, no call is rejected.
theorem foldlM_add_eq_collect (hb : b.Lists rows) (h : ∀ r ∈ rs, b.Fits r) :
    rs.foldlM (fun b r => Outcome.after (b.add r.source r.target r.values)) b =
      .ok (b.collect (rs.map Call.ofRow)) := by
  induction rs generalizing b rows
  case nil => rfl
  case cons r rs hi =>
    have ⟨hr, hrs⟩ := List.forall_mem_cons.mp h
    have ⟨b', hadd⟩ : ∃ b', b.add r.source r.target r.values = (.ok (), b') := ⟨_, add_of_fits hr⟩
    have ⟨⟨hn, _, hk⟩, hb'⟩ := add_lists hb r
    rw [hadd] at hn hk hb'
    have hfit : ∀ r' ∈ rs, b'.Fits r' := fun r' hm => by
      have ⟨hs, ht, hw⟩ := hrs r' hm
      exact ⟨Nat.lt_of_lt_of_eq hs hn.symm, Nat.lt_of_lt_of_eq ht hn.symm, hw.trans (congrArg _ hk).symm⟩
    have hi' := hi (b := b') hb' hfit
    have hcall : b.perform (.ofRow r) = (.ok (), b') := hadd
    rw [List.foldlM_cons, hadd, Outcome.after_ok, Outcome.ok_bind, hi', List.map_cons, collect, collect,
      List.foldl_cons, hcall]

theorem rowsOfCalls_ofRow {nodeCount : Nat} {layout : Layout} {columns : List (String × Float)}
    (h : ∀ r ∈ rs, r.source < nodeCount ∧ r.target < nodeCount ∧ r.values.length = columns.length) :
    rowsOfCalls nodeCount layout columns (rs.map Call.ofRow) = rs.flatMap (rowsIn layout.orientation) := by
  rw [rowsOfCalls, List.flatMap_map]
  exact List.flatMap_congr fun r hr => if_pos (h r hr)

end Batch

namespace Loader

-- What is shown of a relationship under a key, by external ids.
def Given.shown (g : Given) (o : Orientation) (key : String) : List (Nat × Nat × Float) :=
  (o.ways g.source g.target).map fun (source, target) => (source, target, g.valueOf key)

def PendingEdge.toRow (keyCount : Nat) (e : PendingEdge) : Row :=
  ⟨e.source, e.target, e.row keyCount⟩

namespace PendingType

-- The rows that are stored of the edges.
def rows (t : PendingType) : List Row :=
  (t.edges.toList.map (PendingEdge.toRow t.keys.length)).flatMap (Batch.rowsIn t.layout.orientation)

def columns (t : PendingType) : List (String × Float) := t.keys.map (·, doubleDefault)

variable {b : IdMap.Builder} {t : PendingType} {gs : List Given} {key : String} {j : Nat}

theorem fits_of_records (h : Records b t gs) :
    ∀ r ∈ t.edges.toList.map (PendingEdge.toRow t.keys.length),
      r.source < b.nodeCount ∧ r.target < b.nodeCount ∧ r.values.length = t.columns.length := by
  intro r hr
  have ⟨e, he, her⟩ := List.mem_map.mp hr
  have ⟨g, _, hs⟩ := Outcome.exists_of_forall₂_left h.edges he
  subst her
  refine ⟨Numbering.lt_size_of_id? hs.source, Numbering.lt_size_of_id? hs.target, ?_⟩
  exact (PendingEdge.length_row e _).trans (List.length_map ..).symm

-- Every edge finds a row of the right length, and leaves one.
theorem foldlM_addTo (row : List Float) (b : Batch) (edges : List PendingEdge) :
    (return (← edges.foldlM PendingEdge.addTo (row, b)).2) =
      edges.foldlM (fun b e => Outcome.after (b.add e.source e.target (e.row row.length))) b := by
  induction edges generalizing row b
  case nil => rfl
  case cons e edges hi =>
    rw [List.foldlM_cons, List.foldlM_cons, PendingEdge.addTo, PendingEdge.fill_eq_row]
    cases Outcome.after (b.add e.source e.target (e.row row.length))
    case error => rfl
    case ok b' => exact (hi (e.row row.length) b').trans (by rw [PendingEdge.length_row]; rfl)

-- The batch of a type takes all its edges.
theorem batch_of_records (h : Records b t gs) :
    ∃ calls, t.batch b.nodeCount = .ok ((Batch.empty b.nodeCount t.layout t.columns).collect calls) ∧
      Batch.rowsOfCalls b.nodeCount t.layout t.columns calls = t.rows := by
  have hf := fits_of_records h
  refine ⟨_, ?_, Batch.rowsOfCalls_ofRow hf⟩
  have hb := Batch.foldlM_add_eq_collect (Batch.empty_lists b.nodeCount t.layout t.columns) hf
  rw [List.foldlM_map] at hb
  have hrow := foldlM_addTo (List.replicate t.keys.length doubleDefault) (.empty b.nodeCount t.layout t.columns)
    t.edges.toList
  rw [List.length_replicate] at hrow
  rw [batch, ← Array.foldlM_toList]
  exact hrow.trans hb

theorem lists_of_records (h : Records b t gs) {batch : Batch} (hb : t.batch b.nodeCount = .ok batch) :
    batch.nodeCount = b.nodeCount ∧ batch.layout = t.layout ∧ batch.columns = t.columns ∧ batch.Lists t.rows := by
  have ⟨calls, hb', hrows⟩ := batch_of_records h
  have hl := Batch.collect_empty b.nodeCount t.layout t.columns calls
  rwa [Except.ok.inj (hb'.symm.trans hb), hrows] at hl

theorem keeps_of_records (h : Records b t gs) (hj : t.keys[j]? = some key) :
    Keeps t.columns j key doubleDefault := by
  refine ⟨by simp [columns, hj], fun i hi hk => ?_⟩
  have hk : t.keys[i]? = some key := by simpa [columns] using hk
  have ⟨hlt, hj⟩ := List.getElem?_eq_some_iff.mp hj
  have ⟨hlt', hk⟩ := List.getElem?_eq_some_iff.mp hk
  exact Nat.ne_of_gt hi ((List.getElem_inj h.distinct).mp (hk.trans hj.symm))

-- The external id of a node, if it has one.
def externalOf (b : IdMap.Builder) (v : Nat) : Nat := (b.externals.id? v).getD 0

def rowShown (b : IdMap.Builder) (j : Nat) (r : Row) : Nat × Nat × Float :=
  (externalOf b r.source, externalOf b r.target, r.valueAt j)

theorem rowsIn_ends {keys : List String} {e : PendingEdge} {g : Given} (hs : Stands b keys e g)
    (o : Orientation) (keyCount : Nat) :
    (Batch.rowsIn o (e.toRow keyCount)).map (fun r => (externalOf b r.source, externalOf b r.target)) =
      o.ways g.source g.target := by
  cases o <;>
    simp [Batch.rowsIn, PendingEdge.toRow, Orientation.ways, externalOf, hs.source, hs.target]

theorem rows_ends (h : Records b t gs) :
    t.rows.map (fun r => (externalOf b r.source, externalOf b r.target)) =
      gs.flatMap fun g => t.layout.orientation.ways g.source g.target := by
  rw [rows, List.map_flatMap, List.flatMap_map]
  have he := h.edges
  generalize t.edges.toList = edges at he
  clear h
  induction he
  case nil => rfl
  case cons hs _ hi => rw [List.flatMap_cons, List.flatMap_cons, hi, rowsIn_ends hs]

theorem rowsIn_shown (hn : t.keys.Nodup) (hj : t.keys[j]? = some key) {e : PendingEdge} {g : Given}
    (hs : Stands b t.keys e g) (o : Orientation) :
    (Batch.rowsIn o (e.toRow t.keys.length)).map (rowShown b j) = g.shown o key := by
  have hx := PendingEdge.getElem?_row hs.values hn hj
  cases o <;>
    simp [Batch.rowsIn, PendingEdge.toRow, Given.shown, Orientation.ways, rowShown, externalOf, hs.source,
      hs.target, Row.valueAt, hx]

-- The rows show the relationships that were given, in their order.
theorem rows_shown (h : Records b t gs) (hj : t.keys[j]? = some key) :
    t.rows.map (rowShown b j) = gs.flatMap (·.shown t.layout.orientation key) := by
  rw [rows, List.map_flatMap, List.flatMap_map]
  have ⟨hn, he⟩ := h
  generalize t.edges.toList = edges at he
  clear h
  induction he
  case nil => rfl
  case cons hs _ hi => rw [List.flatMap_cons, List.flatMap_cons, hi, rowsIn_shown hn hj hs]

theorem mem_keys_of_records (h : Records b t gs) {g : Given} (hg : g ∈ gs) {x : Float}
    (hx : (key, x) ∈ g.values) : ∃ j : Nat, t.keys[j]? = some key := by
  have ⟨e, _, hs⟩ := Outcome.exists_of_forall₂_right h.edges hg
  have ⟨v, _, hk, _⟩ := Outcome.exists_of_forall₂_right hs.values hx
  exact ⟨v.1, hk⟩

end PendingType

end Loader

end PropertyGraph
