import PropertyGraph.Proofs.Loader.Success
import PropertyGraph.Proofs.Loader.Values
import PropertyGraph.Proofs.Store.NodeColumns

namespace PropertyGraph.Loader

section NodeColumns

variable {l : Loader} {nodes : IdMap} {label : Label} {key : String} {pending : PendingColumn} {v : Nat}

-- Adds one more column under each of the labels that own it.
def freezeInto (nodes : IdMap) (byLabel : NameMap Label (NameMap String Column)) (e : String × PendingColumn) :
    NameMap Label (NameMap String Column) :=
  (nodes.availableLabels.filter fun l => !(nodes.members l).isDisjoint e.2.holders).foldl (fun byLabel l =>
    byLabel.alter l fun columns? => (columns?.getD ∅).insert e.1 (e.2.freeze nodes.nodeCount)) byLabel

theorem nodeColumns_eq (l : Loader) (nodes : IdMap) :
    l.nodeColumns nodes = l.columns.entries.foldl (freezeInto nodes) ∅ :=
  rfl

theorem findNested?_alter (byLabel : NameMap Label (NameMap String Column)) (label' : Label) (key' : String)
    (column : Column) :
    (byLabel.alter label' fun columns? => (columns?.getD ∅).insert key' column).findNested? label key =
      if label = label' ∧ key = key' then some column else byLabel.findNested? label key := by
  rw [NameMap.alter_eq, NameMap.findNested?, NameMap.findNested?]
  by_cases hl : label = label'
  case neg => rw [NameMap.find?_insert_of_ne _ _ hl, if_neg fun h => hl h.left]
  case pos =>
    rw [hl, NameMap.find?_insert_self, Option.bind_some]
    by_cases hk : key = key'
    case pos => rw [hk, NameMap.find?_insert_self, if_pos ⟨rfl, rfl⟩]
    case neg =>
      rw [NameMap.find?_insert_of_ne _ _ hk, if_neg fun h => hk h.right]
      cases byLabel.find? label' <;> rfl

theorem findNested?_foldl_alter (labels : List Label) (byLabel : NameMap Label (NameMap String Column))
    (key' : String) (column : Column) :
    (labels.foldl (fun byLabel l => byLabel.alter l fun columns? => (columns?.getD ∅).insert key' column)
        byLabel).findNested? label key =
      if label ∈ labels ∧ key = key' then some column else byLabel.findNested? label key := by
  induction labels generalizing byLabel
  case nil => simp
  case cons label' labels hi =>
    rw [List.foldl_cons, hi, findNested?_alter]
    by_cases hl : label = label' <;> by_cases hk : key = key' <;> simp [hl, hk]

-- The column of a key under a label, if one of its nodes has a value.
def ownedBy (nodes : IdMap) (label : Label) (pending : PendingColumn) : Option Column :=
  if label ∈ nodes.availableLabels ∧ (!(nodes.members label).isDisjoint pending.holders) = true then
    some (pending.freeze nodes.nodeCount)
  else none

theorem findNested?_freezeInto (byLabel : NameMap Label (NameMap String Column)) (e : String × PendingColumn) :
    (freezeInto nodes byLabel e).findNested? label key =
      if key = e.1 then (ownedBy nodes label e.2).or (byLabel.findNested? label key)
      else byLabel.findNested? label key := by
  rw [freezeInto, findNested?_foldl_alter, ownedBy]
  by_cases hk : key = e.1
  case neg => simp [hk]
  case pos =>
    simp only [List.mem_filter, hk, and_true, if_true]
    split <;> rfl

theorem findNested?_foldl_freezeInto {es : List (String × PendingColumn)} (hd : NameMap.Distinct es)
    (byLabel : NameMap Label (NameMap String Column)) :
    (es.foldl (freezeInto nodes) byLabel).findNested? label key =
      ((es.find? (·.1 = key)).bind fun e => ownedBy nodes label e.2).or (byLabel.findNested? label key) := by
  induction es generalizing byLabel
  case nil => exact (Option.none_or).symm
  case cons e es hi =>
    rw [List.foldl_cons, hi (List.pairwise_cons.mp hd).right, findNested?_freezeInto, List.find?_cons]
    by_cases hk : e.1 = key
    case pos =>
      subst hk
      simp [NameMap.find?_entries_of_distinct hd]
    case neg => simp [hk, Ne.symm hk]

theorem findNested?_nodeColumns (l : Loader) (nodes : IdMap) (label : Label) (key : String) :
    (l.nodeColumns nodes).findNested? label key = (l.columns.find? key).bind (ownedBy nodes label) := by
  rw [nodeColumns_eq, findNested?_foldl_freezeInto l.columns.distinct_entries, NameMap.find?_eq_find?_entries,
    Option.bind_map]
  exact Option.or_none

theorem contains_holders (hb : ∀ v, pending.values[v]? ≠ none → v < Word32.count) :
    pending.holders.contains v = true ↔ pending.values[v]? ≠ none := by
  rw [PendingColumn.holders, NodeSet.contains_ofList]
  simp only [Std.HashMap.mem_keys, Std.HashMap.mem_iff_isSome_getElem?, Option.isSome_iff_ne_none]
  constructor
  case mp =>
    intro ⟨w, hw, he⟩
    rw [Word32.truncate_of_lt (hb w hw)] at he
    exact he ▸ hw
  case mpr => exact fun hv => ⟨v, hv, Word32.truncate_of_lt (hb v hv)⟩

-- Only for nodes of 32 bits do the values tell the labels.
theorem ownedBy_eq_some (hb : ∀ v, pending.values[v]? ≠ none → v < Word32.count) {column : Column} :
    ownedBy nodes label pending = some column ↔
      (∃ v, pending.values[v]? ≠ none ∧ label ∈ nodes.labelsOf v) ∧ pending.freeze nodes.nodeCount = column := by
  have hknown : label ∈ nodes.availableLabels ∧ (!(nodes.members label).isDisjoint pending.holders) = true ↔
      ∃ v, pending.values[v]? ≠ none ∧ label ∈ nodes.labelsOf v := by
    simp only [NodeSet.not_isDisjoint_iff, contains_holders hb, IdMap.mem_labelsOf]
    constructor
    case mp => exact fun ⟨_, v, hl, hv⟩ => ⟨v, hv, hl⟩
    case mpr => exact fun ⟨v, hv, hl⟩ => ⟨IdMap.known_of_contains hl, v, hl, hv⟩
  rw [ownedBy, ← hknown]
  split
  case isTrue h => rw [Option.some.injEq, and_iff_right h]
  case isFalse h => exact ⟨(nomatch ·), fun ho => absurd ho.left h⟩

-- What a column has for a node: the last of the values it was given, or the default.
def HasLast (given : List PropertyValue) (v : Nat) : Column → Prop
  | .long ns =>
    given = [] ∧ ns[v]? = some longDefault ∨ ∃ n, given.getLast? = some (.long n) ∧ ns[v]? = some n
  | .double xs => xs[v]? = some ((given.getLast?.map PropertyValue.toFloat).getD doubleDefault)

theorem freeze_hasLast {nodeCount : Nat} {given : List PropertyValue} (hv : v < nodeCount)
    (hg : pending.values[v]? = given.getLast?) (hd : pending.anyDouble = false → ∀ x, .double x ∉ given) :
    HasLast given v (pending.freeze nodeCount) := by
  rw [PendingColumn.freeze]
  split
  case isTrue =>
    simp only [HasLast, Array.getElem?_map, Array.getElem?_range, hv, if_true, hg, Option.map_some]
    cases given.getLast? <;> rfl
  case isFalse hany =>
    simp only [HasLast, Array.getElem?_map, Array.getElem?_range, hv, if_true, hg, Option.map_some]
    cases hl : given.getLast?
    case none => exact .inl ⟨List.getLast?_eq_none_iff.mp hl, rfl⟩
    case some value =>
      cases value
      case long n => exact .inr ⟨n, rfl, rfl⟩
      case double x => exact absurd (List.mem_of_getLast? hl) (hd (by simpa using hany) x)

theorem type_freeze (pending : PendingColumn) (nodeCount : Nat) :
    (NodeValues.ofColumn (pending.freeze nodeCount)).type = .double ↔ pending.anyDouble = true := by
  rw [PendingColumn.freeze]
  split
  case isTrue h => simp [h, NodeValues.ofColumn]
  case isFalse h => simp [h, NodeValues.ofColumn]

end NodeColumns

variable {l : Loader} {s : Store} {types : List (RelType × Relationships)} {ms : List Mention} {calls : List Call}
  {label : Label} {key : String} {p : NodeProperty}

theorem Stores.nodeProperty?_eq (hs : l.Stores types s) (label : Label) (key : String) :
    s.catalog.nodeProperty? label key =
      ((l.columns.find? key).bind (ownedBy s.nodes label)).map (Store.loaded key) := by
  rw [Catalog.nodeProperty?_eq_findNested?, Store.findNested?_fitNodeColumns hs.nodeProperties,
    findNested?_nodeColumns, hs.nodes_eq]

theorem Stores.toExternal_iff (hs : l.Stores types s) {v x : Nat} :
    s.nodes.toExternal v = .ok x ↔ l.nodes.externals.id? v = some x := by
  rw [hs.nodes_eq]
  exact IdMap.toExternal_eq_ok

theorem Stores.exists_node (hs : l.Stores types s) (hg : l.Gathers ms) {m : Mention} (hm : m ∈ ms) :
    ∃ v, s.nodes.toExternal v = .ok m.external := by
  have ⟨v, hv⟩ := List.mem_iff_getElem?.mp (mem_named_nodeCalls.mpr ⟨m, hm, rfl⟩)
  exact ⟨v, hs.toExternal_iff.mpr (hg.tracks.id?_iff.mpr hv)⟩

theorem Stores.mem_labelsOf_iff (hs : l.Stores types s) (hg : l.Gathers ms) {v x : Nat}
    (hx : s.nodes.toExternal v = .ok x) :
    label ∈ s.nodes.labelsOf v ↔ label ∈ labelsGiven ms x ∨ labelsGiven ms x = [] ∧ label = .allNodes := by
  rw [hs.nodes_eq, hg.tracks.mem_labelsOf_build (hs.toExternal_iff.mp hx), givenTo_nodeCalls]

theorem Gathers.lt_of_value {pending : PendingColumn} (hg : l.Gathers ms) (hf : l.columns.find? key = some pending)
    (v : Nat) (hv : pending.values[v]? ≠ none) : v < Word32.count := by
  have hat : valueAt l.columns key v ≠ none := by rwa [valueAt, hf]
  have hcount : Fault.maxNodeCount ≤ Word32.count := by decide
  exact Nat.lt_of_lt_of_le (hg.bounded key v hat) (Nat.le_trans hg.tracks.sound.bounded hcount)

-- A label stores a key for the sake of one node that has both the label and a value.
theorem Stores.exists_nodeProperty?_iff (hs : l.Stores types s) (hg : l.Gathers ms) :
    (∃ p, s.catalog.nodeProperty? label key = some p) ↔
      ∃ v x, s.nodes.toExternal v = .ok x ∧ label ∈ s.nodes.labelsOf v ∧ valuesGiven ms x key ≠ [] := by
  have hvalue : ∀ v x, l.nodes.externals.id? v = some x →
      (valueAt l.columns key v ≠ none ↔ valuesGiven ms x key ≠ []) := fun v x hx => by
    rw [hg.values key v x hx, ne_eq, List.getLast?_eq_none_iff]
  rw [hs.nodeProperty?_eq]
  constructor
  case mp =>
    rintro ⟨p, hp⟩
    obtain ⟨column, hc, _⟩ := Option.map_eq_some_iff.mp hp
    obtain ⟨pending, hf, ho⟩ := Option.bind_eq_some_iff.mp hc
    obtain ⟨⟨v, hv, hl⟩, _⟩ := (ownedBy_eq_some (hg.lt_of_value hf)).mp ho
    have hat : valueAt l.columns key v ≠ none := by rwa [valueAt, hf]
    obtain ⟨x, hx⟩ := Numbering.exists_id? (hg.bounded key v hat)
    exact ⟨v, x, hs.toExternal_iff.mpr hx, hl, (hvalue v x hx).mp hat⟩
  case mpr =>
    rintro ⟨v, x, hx, hl, hne⟩
    have hat := (hvalue v x (hs.toExternal_iff.mp hx)).mpr hne
    rw [valueAt] at hat
    cases hf : l.columns.find? key
    case none => simp [hf] at hat
    case some pending =>
      have ho := (ownedBy_eq_some (hg.lt_of_value hf)).mpr ⟨⟨v, by simpa [hf] using hat, hl⟩, rfl⟩
      exact ⟨_, by rw [Option.bind_some, ho]; rfl⟩

theorem Stores.exists_column (hs : l.Stores types s) (hg : l.Gathers ms)
    (hp : s.catalog.nodeProperty? label key = some p) :
    ∃ column, p = Store.loaded key column ∧ (p.values.type = .double ↔ GivenDouble ms key) ∧
      ∀ v x, s.nodes.toExternal v = .ok x → HasLast (valuesGiven ms x key) v column := by
  rw [hs.nodeProperty?_eq] at hp
  have ⟨column, hc, hp⟩ := Option.map_eq_some_iff.mp hp
  have ⟨pending, hf, ho⟩ := Option.bind_eq_some_iff.mp hc
  have ⟨_, hfreeze⟩ := (ownedBy_eq_some (hg.lt_of_value hf)).mp ho
  have hretyped : pending.anyDouble = true ↔ GivenDouble ms key := by
    rw [← hg.retyped key, isRetyped, hf, Option.any_some]
  subst hfreeze hp
  refine ⟨_, rfl, (type_freeze ..).trans hretyped, fun v x hx => ?_⟩
  have hid := hs.toExternal_iff.mp hx
  refine freeze_hasLast ?bound ?value ?longs
  case bound => exact hs.nodes_eq ▸ Numbering.lt_size_of_id? hid
  case value =>
    rw [← hg.values key v x hid, valueAt, hf]
    rfl
  case longs =>
    intro hany x' hx'
    exact Bool.false_ne_true (hany.symm.trans (hretyped.mpr ⟨x, x', hx'⟩))

end PropertyGraph.Loader
