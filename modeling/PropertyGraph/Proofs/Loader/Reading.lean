import PropertyGraph.Loader.Import
import PropertyGraph.Proofs.Outcome
import PropertyGraph.Proofs.Sorting
import PropertyGraph.Proofs.Text

namespace PropertyGraph

namespace Table

section Header

-- A title has a name whatever the case of the letters and the blanks around it.
def Named (title name : String) : Prop :=
  ∃ s, Text.Trims title s ∧ s.toList.map Char.toLower = name.toList.map Char.toLower

-- The first column of a name.
def IsColumn (header : List String) (name : String) (i : Nat) : Prop :=
  (∃ title, header[i]? = some title ∧ Named title name) ∧
    ∀ j < i, ∀ title, header[j]? = some title → ¬Named title name

-- The first of some names that no column has.
def FirstMissing (header names : List String) (name : String) : Prop :=
  Outcome.Reaches (fun n => ∃ i, IsColumn header n i) names name ∧ ∀ title ∈ header, ¬Named title name

-- The names and positions of the columns with values: those asked for, or else all that are none of the others.
inductive ValueColumns (header : List String) (others : List Nat) : Option (List String) → List (String × Nat) → Prop
  | asked {names columns} :
    List.Forall₂ (fun name column => column.1 = name ∧ IsColumn header name column.2) names columns →
    ValueColumns header others (some names) columns
  | rest {columns} : columns.Pairwise (·.2 < ·.2) →
    (∀ column, column ∈ columns ↔
      column.2 ∉ others ∧ ∃ title, header[column.2]? = some title ∧ Text.Trims title column.1) →
    ValueColumns header others none columns

variable {header names : List String} {title name : String} {name? : Option String} {asked : Option (List String)}
  {others : List Nat} {i : Nat} {f : Fault}

theorem named_iff : Named title name ↔ Text.sameUpToCase (Text.trim title) name = true := by
  simp [Named, Text.trims_iff, Text.sameUpToCase]

theorem isColumn_iff :
    IsColumn header name i ↔ header.findIdx? (fun h => Text.sameUpToCase (Text.trim h) name) = some i := by
  simp only [IsColumn, named_iff, List.findIdx?_eq_some_iff_getElem, List.getElem?_eq_some_iff]
  constructor
  case mp =>
    rintro ⟨⟨_, ⟨hi, rfl⟩, hname⟩, hfirst⟩
    exact ⟨hi, hname, fun j hj => by simpa using hfirst j hj _ ⟨Nat.lt_trans hj hi, rfl⟩⟩
  case mpr =>
    rintro ⟨hi, hname, hfirst⟩
    exact ⟨⟨_, ⟨hi, rfl⟩, hname⟩, fun j hj title ⟨_, he⟩ => he ▸ by simpa using hfirst j hj⟩

theorem column_eq_ok : column header name = .ok i ↔ IsColumn header name i := by
  rw [isColumn_iff, column]
  cases header.findIdx? fun h => Text.sameUpToCase (Text.trim h) name <;> simp

theorem columns_eq_ok {columns : List (String × Nat)} :
    (names.mapM fun name => do return (name, ← column header name)) = .ok columns ↔
      List.Forall₂ (fun name column => column.1 = name ∧ IsColumn header name column.2) names columns := by
  rw [Outcome.mapM_eq_ok]
  refine iff_of_eq (congrArg (List.Forall₂ · names columns) (funext₂ fun name column => propext ?_))
  simp [Outcome.bind_eq_ok, column_eq_ok, Prod.ext_iff, and_comm, eq_comm (a := name)]

theorem column?_eq_ok {i? : Option Nat} : column? header name? = .ok i? ↔ Option.Rel (IsColumn header) name? i? := by
  cases name?
  case none => cases i? <;> simp [column?]
  case some name => cases i? <;> simp [column?, Outcome.map_eq_ok, column_eq_ok]

theorem valueColumns_eq_ok {columns : List (String × Nat)} :
    valueColumns header asked others = .ok columns ↔ ValueColumns header others asked columns := by
  cases asked
  case some names => exact columns_eq_ok.trans ⟨.asked, fun h => by cases h; assumption⟩
  case none =>
    let rest := (header.zipIdx.filter (!others.contains ·.2)).map fun column => (Text.trim column.1, column.2)
    have hsorted : rest.Pairwise (·.2 < ·.2) := by
      have hzip : header.zipIdx.Pairwise (·.2 < ·.2) := by
        rw [← List.pairwise_map, List.zipIdx_map_snd]
        exact List.pairwise_lt_range' 1
      exact List.pairwise_map.mpr (hzip.filter _)
    have hmem : ∀ column, column ∈ rest ↔
        column.2 ∉ others ∧ ∃ title, header[column.2]? = some title ∧ Text.Trims title column.1 := fun column => by
      simp only [rest, List.mem_map, List.mem_filter, List.mem_zipIdx_iff_getElem?, Text.trims_iff, Prod.ext_iff]
      constructor
      case mp =>
        rintro ⟨⟨title, i⟩, ⟨ht, ho⟩, hname, hi⟩
        subst hi
        exact ⟨by simpa using ho, title, ht, hname⟩
      case mpr =>
        rintro ⟨ho, title, ht, hname⟩
        exact ⟨(title, column.2), ⟨ht, by simpa using ho⟩, hname, rfl⟩
    have hrest : valueColumns header none others = .ok rest := rfl
    rw [hrest, Except.ok.injEq]
    constructor
    case mp => exact fun h => h ▸ .rest hsorted hmem
    case mpr =>
      intro h
      cases h
      case rest hsorted' hmem' =>
        exact eq_of_ascending (·.2) hsorted hsorted' fun column => (hmem column).trans (hmem' column).symm

-- A search for columns fails if one of them is missing, and names the first of these.
structure Seeks {α : Type} (header names : List String) (search : Except Fault α) : Prop where
  found : (∃ a, search = .ok a) ↔ ∀ n ∈ names, ∃ i, IsColumn header n i
  missing : ∀ f, search = .error f ↔ ∃ name, FirstMissing header names name ∧ f = .columnNotFound name

theorem firstMissing_append {before : List String} : FirstMissing header (before ++ names) name ↔
    FirstMissing header before name ∨ (∀ n ∈ before, ∃ i, IsColumn header n i) ∧ FirstMissing header names name := by
  rw [FirstMissing, Outcome.reaches_append, or_and_right, and_assoc]
  rfl

theorem not_firstMissing_nil : ¬FirstMissing header [] name :=
  fun h => Outcome.not_reaches_nil h.left

theorem Seeks.pure {α : Type} (header : List String) (a : α) : Seeks header [] (.ok a) where
  found := by simp
  missing f := by simp [not_firstMissing_nil]

variable {α β : Type} {search : Except Fault α} {next : α → Except Fault β} {P : Prop}

theorem Seeks.bind_eq_error (h : Seeks header names search)
    (hn : ∀ a, search = .ok a → (next a = .error f ↔ P)) :
    search >>= next = .error f ↔ (∃ name, FirstMissing header names name ∧ f = .columnNotFound name) ∨
      (∀ n ∈ names, ∃ i, IsColumn header n i) ∧ P := by
  rw [Outcome.bind_eq_error, h.missing, ← h.found]
  refine or_congr_right ⟨fun ⟨a, ha, hf⟩ => ⟨⟨a, ha⟩, (hn a ha).mp hf⟩, fun ⟨⟨a, ha⟩, hp⟩ => ⟨a, ha, (hn a ha).mpr hp⟩⟩

-- The columns of one search come before those of the next.
theorem Seeks.bind {names' : List String} (h : Seeks header names search) (hn : ∀ a, Seeks header names' (next a)) :
    Seeks header (names ++ names') (search >>= next) where
  found := by
    simp only [Outcome.bind_eq_ok, List.forall_mem_append, ← h.found]
    constructor
    case mp => exact fun ⟨b, a, ha, hb⟩ => ⟨⟨a, ha⟩, (hn a).found.mp ⟨b, hb⟩⟩
    case mpr =>
      rintro ⟨⟨a, ha⟩, hfound⟩
      have ⟨b, hb⟩ := (hn a).found.mpr hfound
      exact ⟨b, a, ha, hb⟩
  missing f := by
    rw [h.bind_eq_error fun a _ => (hn a).missing f]
    simp only [firstMissing_append, or_and_right, exists_or, and_assoc, exists_and_left]

theorem Seeks.map (h : Seeks header names search) (g : α → β) : Seeks header names (search.map g) where
  found := by simp [← h.found, Outcome.map_eq_ok]
  missing f := by rw [Outcome.map_eq_error, h.missing]

end Header

section Row

-- The text in a cell that is not empty, without the blanks around it.
def Holds (row : List String) (i : Nat) (s : String) : Prop :=
  s ≠ "" ∧ ∃ cell, row[i]? = some cell ∧ Text.Trims cell s

-- The row is too short, or there are at most blanks in the cell.
def Blank (row : List String) (i : Nat) : Prop :=
  ∀ s, ¬Holds row i s

-- What a cell is as the id of a node.
inductive NodeId (number : Nat) (row : List String) (i : Nat) (name : String) : Except Fault Nat → Prop
  | id {s n} : Holds row i s → Text.Natural s n → NodeId number row i name (.ok n)
  | noId {s} : Holds row i s → (∀ n, ¬Text.Natural s n) → NodeId number row i name (.error (.notNodeId number s))
  | blank : Blank row i → NodeId number row i name (.error (.missingCell name))

-- What is no whole number may be a floating-point number.
inductive IsValue (s : String) : PropertyValue → Prop
  | long {z} : Text.Whole s z → IsValue s (.long z)
  | double {x} : (∀ z, ¬Text.Whole s z) → Text.Floating s x → IsValue s (.double x)

-- The values in a row, by the names of their columns. Blank cells have none.
inductive Values (row : List String) : List (String × Nat) → List (String × PropertyValue) → Prop
  | nil : Values row [] []
  | blank {name i columns values} : Blank row i → Values row columns values → Values row ((name, i) :: columns) values
  | value {name i columns values s v} : Holds row i s → IsValue s v → Values row columns values →
    Values row ((name, i) :: columns) ((name, v) :: values)

-- The first cell that is no value.
def FirstNonNumeric (row : List String) (columns : List (String × Nat)) (name s : String) : Prop :=
  ∃ i, Outcome.Reaches (fun c => ∀ t, Holds row c.2 t → ∃ v, IsValue t v) columns (name, i) ∧
    Holds row i s ∧ ∀ v, ¬IsValue s v

-- The labels in a cell stand between bars.
def Labels (cell : String) (labels : List Label) : Prop :=
  ∃ parts trimmed, Text.Splits '|' cell parts ∧ List.Forall₂ Text.Trims parts trimmed ∧
    labels = (trimmed.filter (· ≠ "")).map Label.mk

variable {row : List String} {columns : List (String × Nat)} {values : List (String × PropertyValue)}
  {name s t cell : String} {number i : Nat} {v : PropertyValue} {f : Fault}

theorem cell?_eq_some : cell? row i = some s ↔ Holds row i s := by
  simp [cell?, Holds, Option.filter_eq_some_iff, Text.trims_iff, and_comm]

theorem Holds.unique (hs : Holds row i s) (ht : Holds row i t) : s = t :=
  Option.some.inj ((cell?_eq_some.mpr hs).symm.trans (cell?_eq_some.mpr ht))

variable {α : Type} {ofValue : PropertyValue → α} {filled r : Array (String × α)}

end Row

-- What a row asks for, given its number, or why it asks for nothing.
abbrev Reading := Nat → List String → Except Fault Loader.Call → Prop

end Table

open Table

namespace NodeImport

structure Finds (c : NodeImport) (header : List String) (columns : Columns) : Prop where
  id : IsColumn header c.idColumn columns.id
  labels : Option.Rel (IsColumn header) c.labelColumn columns.labels
  values : ValueColumns header (columns.id :: columns.labels.toList) c.valueColumns columns.values

-- A header has all columns that are asked for, or the first of them that is missing is named.
inductive Resolves (c : NodeImport) (header : List String) : Except Fault Columns → Prop
  | found {columns} : c.Finds header columns → Resolves c header (.ok columns)
  | missing {name} : FirstMissing header (c.idColumn :: c.labelColumn.toList ++ c.valueColumns.getD []) name →
    Resolves c header (.error (.columnNotFound name))

-- A row asks for a node with the labels of all rows and its own, and with its values. What is wrong with the id counts
-- before what is wrong with a value.
inductive Reads (c : NodeImport) (columns : Columns) (number : Nat) (row : List String) :
    Except Fault Loader.Call → Prop
  | node {id labels values} : NodeId number row columns.id c.idColumn (.ok id) →
    columns.labels.elim (labels = []) (fun i => Labels (row[i]?.getD "") labels) → Values row columns.values values →
    Reads c columns number row (.ok (.addNode id (c.staticLabels ++ labels) values))
  | id {f} : NodeId number row columns.id c.idColumn (.error f) → Reads c columns number row (.error f)
  | value {id name s} : NodeId number row columns.id c.idColumn (.ok id) →
    FirstNonNumeric row columns.values name s → Reads c columns number row (.error (.notNumeric number s name))

variable {c : NodeImport} {header row : List String} {columns : Columns} {number : Nat} {f : Fault}

theorem columns_eq_ok : c.columns header = .ok columns ↔ c.Finds header columns := by
  simp only [NodeImport.columns, Outcome.bind_eq_ok, column_eq_ok, column?_eq_ok, valueColumns_eq_ok,
    Outcome.pure_eq_ok, Except.ok.injEq]
  constructor
  case mp =>
    rintro ⟨id, hid, labels, hlabels, values, hvalues, rfl⟩
    exact ⟨hid, hlabels, hvalues⟩
  case mpr => exact fun ⟨hid, hlabels, hvalues⟩ => ⟨_, hid, _, hlabels, _, hvalues, rfl⟩

end NodeImport

namespace RelationshipImport

-- Neither the rows nor the whole table tell the type.
def Untyped (c : RelationshipImport) : Prop :=
  c.typeColumn = none ∧ c.staticType = none

structure Finds (c : RelationshipImport) (header : List String) (columns : Columns) : Prop where
  source : IsColumn header c.sourceColumn columns.source
  target : IsColumn header c.targetColumn columns.target
  type : Option.Rel (IsColumn header) c.typeColumn columns.type
  typed : ¬c.Untyped
  values : ValueColumns header (columns.source :: columns.target :: columns.type.toList) c.valueColumns columns.values

-- The columns that a header needs whatever values there are.
def fixedColumns (c : RelationshipImport) : List String :=
  c.sourceColumn :: c.targetColumn :: c.typeColumn.toList

-- That there is no type counts before a missing column of values.
inductive Resolves (c : RelationshipImport) (header : List String) : Except Fault Columns → Prop
  | found {columns} : c.Finds header columns → Resolves c header (.ok columns)
  | missing {name} : FirstMissing header c.fixedColumns name → Resolves c header (.error (.columnNotFound name))
  | untyped : (∀ n ∈ c.fixedColumns, ∃ i, IsColumn header n i) → c.Untyped → Resolves c header (.error .noTypeSource)
  | missingValue {name} : (∀ n ∈ c.fixedColumns, ∃ i, IsColumn header n i) → ¬c.Untyped →
    FirstMissing header (c.valueColumns.getD []) name → Resolves c header (.error (.columnNotFound name))

-- The type of a row stands in its cell. If there is none, it is the type of all rows.
inductive HasType (c : RelationshipImport) (columns : Columns) (row : List String) : RelType → Prop
  | own {i s} : columns.type = some i → Holds row i s → HasType c columns row ⟨s⟩
  | static {t} : (∀ i, columns.type = some i → Blank row i) → c.staticType = some t → HasType c columns row t

-- A row asks for a relationship of its type between its ends, with its values as floating-point numbers. What is wrong
-- with the ends counts before a missing type, and this before what is wrong with a value.
inductive Reads (c : RelationshipImport) (columns : Columns) (number : Nat) (row : List String) :
    Except Fault Loader.Call → Prop
  | relationship {source target type values} : NodeId number row columns.source c.sourceColumn (.ok source) →
    NodeId number row columns.target c.targetColumn (.ok target) → HasType c columns row type →
    Values row columns.values values →
    Reads c columns number row (.ok (.addRelationship type source target (values.map fun p => (p.1, p.2.toFloat))))
  | source {f} : NodeId number row columns.source c.sourceColumn (.error f) → Reads c columns number row (.error f)
  | target {source f} : NodeId number row columns.source c.sourceColumn (.ok source) →
    NodeId number row columns.target c.targetColumn (.error f) → Reads c columns number row (.error f)
  | untyped {source target} : NodeId number row columns.source c.sourceColumn (.ok source) →
    NodeId number row columns.target c.targetColumn (.ok target) → (∀ t, ¬HasType c columns row t) →
    Reads c columns number row (.error (.missingType number))
  | value {source target type name s} : NodeId number row columns.source c.sourceColumn (.ok source) →
    NodeId number row columns.target c.targetColumn (.ok target) → HasType c columns row type →
    FirstNonNumeric row columns.values name s → Reads c columns number row (.error (.notNumeric number s name))

variable {c : RelationshipImport} {header row : List String} {columns : Columns} {number : Nat} {t : RelType}
  {f : Fault}

theorem columns_of_untyped (h : c.Untyped) (header : List String) :
    c.columns header =
      (column header c.sourceColumn >>= fun _ => column header c.targetColumn) >>= fun _ => .error .noTypeSource := by
  obtain ⟨htype, hstatic⟩ := h
  rw [RelationshipImport.columns, htype, hstatic]
  cases column header c.sourceColumn
  case error => rfl
  case ok => cases column header c.targetColumn <;> rfl

theorem columns_of_typed (h : ¬c.Untyped) (header : List String) :
    c.columns header = (do
      let source ← column header c.sourceColumn
      let target ← column header c.targetColumn
      let type ← column? header c.typeColumn
      let values ← Table.valueColumns header c.valueColumns (source :: target :: type.toList)
      return { source, target, type, values }) := by
  have htyped : ∀ type, column? header c.typeColumn = .ok type → (type.isNone && c.staticType.isNone) = false := by
    intro type ht
    rw [column?_eq_ok] at ht
    generalize hc : c.typeColumn = name? at ht
    cases ht
    case some => rfl
    case none => simpa [Untyped, hc, Option.isSome_iff_ne_none] using h
  rw [RelationshipImport.columns]
  cases column header c.sourceColumn
  case error => rfl
  case ok source =>
    cases column header c.targetColumn
    case error => rfl
    case ok target =>
      cases ht : column? header c.typeColumn
      case error => rfl
      case ok type =>
        simp only [Outcome.ok_bind, htyped type ht]
        rfl

theorem columns_eq_ok : c.columns header = .ok columns ↔ c.Finds header columns := by
  by_cases hu : c.Untyped
  case pos =>
    refine ⟨fun h => ?_, fun h => absurd hu h.typed⟩
    rw [columns_of_untyped hu, Outcome.bind_eq_ok] at h
    exact nomatch h
  case neg =>
    simp only [columns_of_typed hu, Outcome.bind_eq_ok, column_eq_ok, column?_eq_ok, valueColumns_eq_ok,
      Outcome.pure_eq_ok, Except.ok.injEq]
    constructor
    case mp =>
      rintro ⟨source, hsource, target, htarget, type, htype, values, hvalues, rfl⟩
      exact ⟨hsource, htarget, htype, hu, hvalues⟩
    case mpr =>
      exact fun ⟨hsource, htarget, htype, _, hvalues⟩ => ⟨_, hsource, _, htarget, _, htype, _, hvalues, rfl⟩

end RelationshipImport

end PropertyGraph
