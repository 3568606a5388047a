import PropertyGraph.Proofs.Relationship.Grouping
import PropertyGraph.Proofs.Relationship.ValueRuns

namespace PropertyGraph

open Relationships

namespace Batch

-- Makes calls one after the other, whatever they answer.
def collect (b : Batch) (calls : List Call) : Batch :=
  calls.foldl (fun b c => (b.perform c).2) b

-- The relationship that a call asks for.
def Call.relationship (defaults : List Float) : Call → Row
  | .add source target values => ⟨source, target, values⟩
  | .addDefault source target => ⟨source, target, defaults⟩

def rowsIn (o : Orientation) (r : Row) : List Row :=
  match o with
  | .natural => [r]
  | .reverse => [{ r with source := r.target, target := r.source }]
  | .undirected => [r, { r with source := r.target, target := r.source }]

-- What is stored of a relationship: nothing if it does not fit the nodes or the columns.
def storedRows (nodeCount : Nat) (o : Orientation) (width : Nat) (r : Row) : List Row :=
  if r.source < nodeCount ∧ r.target < nodeCount ∧ r.values.length = width then rowsIn o r else []

-- The rows that are stored after some calls, in their order.
def rowsOfCalls (nodeCount : Nat) (layout : Layout) (columns : List (String × Float)) (calls : List Call) :
    List Row :=
  calls.flatMap fun c =>
    storedRows nodeCount layout.orientation columns.length (c.relationship (columns.map (·.2)))

theorem length_rowsOfCalls_le (nodeCount : Nat) (layout : Layout) (columns : List (String × Float))
    (calls : List Call) : (rowsOfCalls nodeCount layout columns calls).length ≤ 2 * calls.length := by
  induction calls
  case nil => exact Nat.le_refl 0
  case cons c calls hi =>
    have hc : (storedRows nodeCount layout.orientation columns.length
        (c.relationship (columns.map (·.2)))).length ≤ 2 := by
      rw [storedRows]
      cases layout.orientation <;> split <;> simp [rowsIn]
    rw [rowsOfCalls, List.flatMap_cons, List.length_append, List.length_cons, ← rowsOfCalls]
    omega

-- The three arrays of a batch hold these rows, all of which fit it.
structure Lists (b : Batch) (rows : List Row) : Prop where
  sources : b.sources.toList = rows.map (·.source)
  targets : b.targets.toList = rows.map (·.target)
  values : b.values.toList = rows.flatMap (·.values)
  inside : ∀ r ∈ rows, r.source < b.nodeCount ∧ r.target < b.nodeCount
  width : ∀ r ∈ rows, r.values.length = b.columns.length

variable {b : Batch} {rows : List Row} {v i : Nat}

theorem empty_lists (nodeCount : Nat) (layout : Layout) (columns : List (String × Float)) :
    (empty nodeCount layout columns).Lists [] where
  sources := rfl
  targets := rfl
  values := rfl
  inside := by simp
  width := by simp

theorem push_lists (h : b.Lists rows) {r : Row} (hs : r.source < b.nodeCount)
    (ht : r.target < b.nodeCount) (hw : r.values.length = b.columns.length) :
    (b.push r.source r.target r.values).Lists (rows ++ [r]) where
  sources := by simp [push, h.sources]
  targets := by simp [push, h.targets]
  values := by simp [push, h.values]
  inside := List.forall_mem_append.mpr ⟨h.inside, by simpa [push] using ⟨hs, ht⟩⟩
  width := List.forall_mem_append.mpr ⟨h.width, by simpa [push] using hw⟩

-- What no call changes.
def SameFrame (b b' : Batch) : Prop :=
  b'.nodeCount = b.nodeCount ∧ b'.layout = b.layout ∧ b'.columns = b.columns

def Fits (b : Batch) (r : Row) : Prop :=
  r.source < b.nodeCount ∧ r.target < b.nodeCount ∧ r.values.length = b.columns.length

theorem add_of_fits {r : Row} (h : b.Fits r) :
    b.add r.source r.target r.values =
      (.ok (), (b.layout.orientation.ways r.source r.target).foldl (fun b (s, t) => b.push s t r.values) b) := by
  have ⟨hs, ht, hw⟩ := h
  rw [add, if_neg (by omega), if_neg (by omega), if_neg (by omega)]

theorem add_of_not_fits {r : Row} (h : ¬b.Fits r) :
    ∃ f, b.add r.source r.target r.values = (.error f, b) := by
  rw [add]
  split
  case isTrue => exact ⟨_, rfl⟩
  case isFalse hs =>
    split
    case isTrue => exact ⟨_, rfl⟩
    case isFalse ht =>
      split
      case isTrue => exact ⟨_, rfl⟩
      case isFalse hw => exact absurd ⟨by omega, by omega, by omega⟩ h

-- What is stored has nothing to do with where the default values are.
theorem foldl_push_putDefaults (ways : List (Nat × Nat)) (b : Batch) (values defaults : List Float) :
    (ways.foldl (fun b (s, t) => b.push s t values) b).putDefaults defaults =
      ways.foldl (fun b (s, t) => b.push s t values) (b.putDefaults defaults) := by
  induction ways generalizing b
  case nil => rfl
  case cons way ways hi => exact hi (b.push way.1 way.2 values)

theorem add_putDefaults {defaults : List Float} (h : defaults.length = b.columns.length) (source target : Nat)
    (values : List Float) :
    (b.putDefaults defaults).add source target values =
      ((b.add source target values).1, (b.add source target values).2.putDefaults defaults) := by
  have hlength : (b.putDefaults defaults).columns.length = b.columns.length := by simp [putDefaults, h]
  have hnodes : (b.putDefaults defaults).nodeCount = b.nodeCount := rfl
  rw [add, add, hlength, hnodes]
  split_ifs
  case neg => exact congrArg (Prod.mk _) (foldl_push_putDefaults ..).symm
  all_goals rfl

theorem putDefaults_takeDefaults (b : Batch) : b.takeDefaults.2.putDefaults b.takeDefaults.1 = b := by
  have hkeys : (b.columns.map fun c => (c.1, (0.0 : Float))).map (·.1) = b.columns.map (·.1) := by
    rw [List.map_map]
    rfl
  rw [takeDefaults, putDefaults, hkeys, ← List.zip_of_prod rfl rfl]

-- The default values are back in their places, whether the relationship is added or not.
theorem addDefault_eq_add (b : Batch) (source target : Nat) :
    b.addDefault source target = b.add source target (b.columns.map (·.2)) := by
  have hlength : b.takeDefaults.1.length = b.takeDefaults.2.columns.length := by simp [takeDefaults]
  have hadd := add_putDefaults hlength source target b.takeDefaults.1
  rw [putDefaults_takeDefaults] at hadd
  exact hadd.symm

theorem perform_eq_add (b : Batch) (c : Call) :
    b.perform c = b.add (c.relationship (b.columns.map (·.2))).source (c.relationship (b.columns.map (·.2))).target
      (c.relationship (b.columns.map (·.2))).values := by
  cases c
  case add => rfl
  case addDefault source target => exact addDefault_eq_add b source target

-- An end of the relationship is none of the nodes, or there are too few or too many values.
def Rejects (b : Batch) : Call → Prop
  | .add source target values =>
    b.nodeCount ≤ source ∨ b.nodeCount ≤ target ∨ values.length ≠ b.columns.length
  | .addDefault source target => b.nodeCount ≤ source ∨ b.nodeCount ≤ target

theorem perform_of_rejects {c : Call} (h : b.Rejects c) : ∃ f, b.perform c = (.error f, b) := by
  rw [perform_eq_add]
  refine add_of_not_fits fun hfits => ?_
  have ⟨hs, ht, hw⟩ := hfits
  cases c
  case add => exact h.elim (Nat.not_le_of_lt hs) fun h => h.elim (Nat.not_le_of_lt ht) fun h => h hw
  case addDefault => exact h.elim (Nat.not_le_of_lt hs) (Nat.not_le_of_lt ht)

theorem add_lists (h : b.Lists rows) (r : Row) :
    let b' := (b.add r.source r.target r.values).2
    SameFrame b b' ∧
      b'.Lists (rows ++ storedRows b.nodeCount b.layout.orientation b.columns.length r) := by
  by_cases hr : b.Fits r
  case neg =>
    have ⟨f, hf⟩ := add_of_not_fits hr
    have hrows : storedRows b.nodeCount b.layout.orientation b.columns.length r = [] := if_neg hr
    rw [hf, hrows, List.append_nil]
    exact ⟨⟨rfl, rfl, rfl⟩, h⟩
  case pos =>
    have ⟨hs, ht, hw⟩ := hr
    have hrows : storedRows b.nodeCount b.layout.orientation b.columns.length r =
        rowsIn b.layout.orientation r := if_pos hr
    rw [add_of_fits hr, hrows]
    cases b.layout.orientation
    case natural => exact ⟨⟨rfl, rfl, rfl⟩, push_lists h hs ht hw⟩
    case reverse => exact ⟨⟨rfl, rfl, rfl⟩, @push_lists _ _ h ⟨r.target, r.source, r.values⟩ ht hs hw⟩
    case undirected =>
      have hb := @push_lists _ _ (push_lists h hs ht hw) ⟨r.target, r.source, r.values⟩ ht hs hw
      rw [List.append_assoc] at hb
      exact ⟨⟨rfl, rfl, rfl⟩, hb⟩

theorem collect_lists (h : b.Lists rows) (calls : List Call) :
    SameFrame b (b.collect calls) ∧
      (b.collect calls).Lists (rows ++ rowsOfCalls b.nodeCount b.layout b.columns calls) := by
  induction calls generalizing b rows
  case nil => exact ⟨⟨rfl, rfl, rfl⟩, by simpa [rowsOfCalls, collect] using h⟩
  case cons c calls hi =>
    have ⟨⟨hn, hl, hk⟩, hb⟩ := add_lists h (c.relationship (b.columns.map (·.2)))
    have ⟨⟨hn', hl', hk'⟩, hb'⟩ := hi hb
    rw [collect, List.foldl_cons, perform_eq_add, ← collect]
    refine ⟨⟨hn'.trans hn, hl'.trans hl, hk'.trans hk⟩, ?_⟩
    rw [hn, hl, hk] at hb'
    simpa [rowsOfCalls] using hb'

theorem collect_empty (nodeCount : Nat) (layout : Layout) (columns : List (String × Float))
    (calls : List Call) :
    let b := (empty nodeCount layout columns).collect calls
    b.nodeCount = nodeCount ∧ b.layout = layout ∧ b.columns = columns ∧
      b.Lists (rowsOfCalls nodeCount layout columns calls) := by
  have ⟨⟨hn, hl, hk⟩, hb⟩ := collect_lists (empty_lists nodeCount layout columns) calls
  exact ⟨hn, hl, hk, hb⟩

-- The values of a row are found behind those of all rows in front, which have as many each.
theorem row_eq_getElem (h : b.Lists rows) (hi : i < rows.length) : b.row i = rows[i] := by
  have hs : b.sources[i]? = some rows[i].source := by
    rw [← Array.getElem?_toList, h.sources]
    simp [hi]
  have ht : b.targets[i]? = some rows[i].target := by
    rw [← Array.getElem?_toList, h.targets]
    simp [hi]
  have hlen : (rows.map (·.values)).map List.length = List.replicate rows.length b.columns.length := by
    rw [List.map_map, List.eq_replicate_iff]
    exact ⟨by simp, by simpa using h.width⟩
  have hv := List.drop_take_succ_flatten_eq_getElem (rows.map (·.values)) i (by simpa using hi)
  rw [hlen, List.take_replicate, List.take_replicate, ← List.flatMap_def, ← h.values] at hv
  simp only [List.sum_replicate_nat, List.getElem_map] at hv
  rw [Nat.min_eq_left (show i + 1 ≤ rows.length from hi), Nat.min_eq_left (by omega)] at hv
  simp only [row, Array.getD_eq_getD_getElem?, hs, ht, Option.getD_some, Array.toList_extract,
    List.extract_eq_take_drop, ← List.drop_take, hv]

theorem rowsOf_eq_filter (h : b.Lists rows) (hv : v < b.nodeCount) :
    b.rowsOf (.ofSources b.nodeCount b.sources) v = rows.filter (·.source = v) := by
  have hin : ∀ s ∈ b.sources, s < b.nodeCount := by
    intro s hs
    rw [← Array.mem_toList_iff, h.sources] at hs
    have ⟨r, hr, hrs⟩ := List.mem_map.mp hs
    exact hrs ▸ (h.inside r hr).left
  have hlen : b.sources.size = rows.length := by
    rw [← Array.length_toList, h.sources, List.length_map]
  have hrows : rows = (List.range rows.length).map b.row := by
    apply List.ext_getElem
    case hl => simp
    case h => exact fun i hi _ => by simp [row_eq_getElem h hi]
  rw [rowsOf, Grouping.rowsAt_ofSources hin hv, hlen, Grouping.rowsFrom]
  conv_rhs => rw [hrows, List.filter_map]
  congr 1
  refine List.filter_congr fun i hi => ?_
  have hi := List.mem_range.mp hi
  have hs : b.sources[i]? = some rows[i].source := by
    rw [← Array.getElem?_toList, h.sources]
    simp [hi]
  simp [row_eq_getElem h hi, hs]

end Batch

end PropertyGraph
