import PropertyGraph.Loader.Loader
import PropertyGraph.Loader.Table
import PropertyGraph.Text.Blank

namespace PropertyGraph

-- A table as it was read: its header, and its rows as far as they are text.
structure Table where
  header : List String
  rows : List (Except Fault (List String))

namespace Table

-- A table from its bytes. One without a line has an empty header.
def ofBytes (bytes : List UInt8) : Except Fault Table :=
  match records bytes with
  | [] => .ok ⟨[], []⟩
  | header :: rows => do return ⟨← header.decode, rows.map (·.decode)⟩

-- The position of the first column of a name, whatever the case and the blanks around it.
def column (header : List String) (name : String) : Except Fault Nat :=
  match header.findIdx? fun h => Text.sameUpToCase (Text.trim h) name with
  | some i => .ok i
  | none => .error (.columnNotFound name)

def column? (header : List String) : Option String → Except Fault (Option Nat)
  | none => .ok none
  | some name => (column header name).map some

-- The names and positions of the columns with values: those asked for, or all but those in `others`.
def valueColumns (header : List String) (asked : Option (List String)) (others : List Nat) :
    Except Fault (List (String × Nat)) :=
  match asked with
  | some names => names.mapM fun name => do return (name, ← column header name)
  | none => .ok ((header.zipIdx.filter fun (_, i) => !others.contains i).map fun (h, i) => (Text.trim h, i))

-- A cell without the blanks around it, unless it is empty.
def cell? (row : List String) (i : Nat) : Option String :=
  (row[i]?.map Text.trim).filter (· ≠ "")

def nodeIdCell (number : Nat) (row : List String) (i : Nat) (name : String) : Except Fault Nat :=
  match cell? row i with
  | none => .error (.missingCell name)
  | some s =>
    match Text.readNat64? s with
    | some id => .ok id
    | none => .error (.notNodeId number s)

def value (number : Nat) (cell name : String) : Except Fault PropertyValue :=
  match Text.readInt64? cell with
  | some v => .ok (.long v)
  | none =>
    match Text.readFloat? cell with
    | some x => .ok (.double x)
    | none => .error (.notNumeric number cell name)

-- Puts the values in a row behind others, by the names of their columns; empty cells have none.
def pushValues {α : Type} (ofValue : PropertyValue → α) (number : Nat) (row : List String)
    (columns : List (String × Nat)) (values : Array (String × α)) : Except Fault (Array (String × α)) :=
  columns.foldlM (fun values (name, i) =>
    match cell? row i with
    | none => .ok values
    | some s => do return values.push (name, ofValue (← value number s name))) values

-- The labels in a cell, separated by bars.
def labels (cell : String) : List Label :=
  (((Text.splitAt '|' cell).map Text.trim).filter (· ≠ "")).map Label.mk

-- What a row asks of a loader, given its number. It is read into the place of the row before it.
abbrev RowReader (σ : Type) := Nat → List String → σ → Except Fault (Loader.Call × σ)

variable {σ : Type}

-- Makes the call of row after row behind the first `done` rows. The answer is the number of all rows if no call was
-- rejected. The loader is as the last call left it.
def addRows (read : RowReader σ) :
    (done : Nat) → List (Except Fault (List String)) → σ → Loader → Except Fault Nat × Loader
  | done, [], _, l => (.ok done, l)
  | done, row :: rows, place, l =>
    match row.bind fun cells => read (done + 1) cells place with
    | .error f => (.error f, l)
    | .ok (call, place) =>
      match l.perform call with
      | (.ok _, l) => addRows read (done + 1) rows place l
      | (.error f, l) => (.error f, l)

-- Adds the rows of a table, if it could be opened. Its header tells how they are read.
def addTo [EmptyCollection σ] (l : Loader) (reader : List String → Except Fault (RowReader σ))
    (table : Except Fault Table) : Except Fault Nat × Loader :=
  match table with
  | .error f => (.error f, l)
  | .ok table =>
    match reader table.header with
    | .error f => (.error f, l)
    | .ok read => addRows read 0 table.rows ∅ l

end Table

-- How the rows of a table are read as nodes.
structure NodeImport where
  idColumn : String := "id"
  -- The column of labels, if there is one.
  labelColumn : Option String := none
  -- Labels for every row.
  staticLabels : List Label := []
  -- The columns of values, all other columns if not given.
  valueColumns : Option (List String) := none

namespace NodeImport

-- Where the columns are in a table.
structure Columns where
  id : Nat
  labels : Option Nat
  values : List (String × Nat)

def columns (c : NodeImport) (header : List String) : Except Fault Columns := do
  let id ← Table.column header c.idColumn
  let labels ← Table.column? header c.labelColumn
  return { id, labels, values := ← Table.valueColumns header c.valueColumns (id :: labels.toList) }

-- Where rows are read into, one after the other.
structure Place where
  labels : Array Label := #[]
  values : Array (String × PropertyValue) := #[]

instance : EmptyCollection Place := ⟨{}⟩

def readRow (c : NodeImport) (columns : Columns) : Table.RowReader Place := fun number row place => do
  let external ← Table.nodeIdCell number row columns.id c.idColumn
  let labels := place.labels.shrink 0 ++ c.staticLabels
  let labels := match columns.labels with
    | some i => labels ++ Table.labels (row[i]?.getD "")
    | none => labels
  let values ← Table.pushValues id number row columns.values (place.values.shrink 0)
  return (.addNode external labels.toList values.toList, { labels, values })

def reader (c : NodeImport) (header : List String) : Except Fault (Table.RowReader Place) :=
  (c.columns header).map c.readRow

-- Adds the rows of a table as nodes, and tells how many.
def run (c : NodeImport) (bytes : List UInt8) (l : Loader) : Except Fault Nat × Loader :=
  Table.addTo l c.reader (Table.ofBytes bytes)

end NodeImport

-- How the rows of a table are read as relationships.
structure RelationshipImport where
  sourceColumn : String := "src"
  targetColumn : String := "dst"
  -- The column of types, if there is one.
  typeColumn : Option String := none
  -- The type of the rows without one.
  staticType : Option RelType := none
  -- The columns of values, all other columns if not given.
  valueColumns : Option (List String) := none

namespace RelationshipImport

-- Where the columns are in a table.
structure Columns where
  source : Nat
  target : Nat
  type : Option Nat
  values : List (String × Nat)

def columns (c : RelationshipImport) (header : List String) : Except Fault Columns := do
  let source ← Table.column header c.sourceColumn
  let target ← Table.column header c.targetColumn
  let type ← Table.column? header c.typeColumn
  if type.isNone && c.staticType.isNone then throw .noTypeSource
  let values ← Table.valueColumns header c.valueColumns (source :: target :: type.toList)
  return { source, target, type, values }

-- The type of a row: the one in its cell, or else the one of all rows.
def typeOf (c : RelationshipImport) (columns : Columns) (number : Nat) (row : List String) : Except Fault RelType :=
  match ((columns.type.bind (Table.cell? row)).map RelType.mk) <|> c.staticType with
  | some t => .ok t
  | none => .error (.missingType number)

-- Where the values of rows are read into, one row after the other.
abbrev Place := Array (String × Float)

def readRow (c : RelationshipImport) (columns : Columns) : Table.RowReader Place := fun number row place => do
  let source ← Table.nodeIdCell number row columns.source c.sourceColumn
  let target ← Table.nodeIdCell number row columns.target c.targetColumn
  let type ← c.typeOf columns number row
  let values ← Table.pushValues PropertyValue.toFloat number row columns.values (place.shrink 0)
  return (.addRelationship type source target values.toList, values)

def reader (c : RelationshipImport) (header : List String) : Except Fault (Table.RowReader Place) :=
  (c.columns header).map c.readRow

-- Adds the rows of a table as relationships, and tells how many.
def run (c : RelationshipImport) (bytes : List UInt8) (l : Loader) : Except Fault Nat × Loader :=
  Table.addTo l c.reader (Table.ofBytes bytes)

end RelationshipImport

end PropertyGraph
