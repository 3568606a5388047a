import PropertyGraph.CommandLine.Command
import PropertyGraph.Text.Control

namespace PropertyGraph.CommandLine

def versionText : String := "triangles 0.1.0"

open Text (bold underlined)

-- An option on a help page: how it is given, and what it is for.
structure OptionHelp where
  -- The letter that may stand for the name.
  letter : Option Char
  name : String
  -- What stands for the value, if it takes one.
  value : Option String
  about : String

namespace OptionHelp

-- An option with a value, and the value that it has unless given.
def withValue (name value about : String) (default? : Option String) : OptionHelp where
  letter := none
  name
  value := some value
  about := match default? with
    | some v => s!"{about} [default: {v}]"
    | none => about

-- How an option is given, its letter and its name shown in a style.
def form (style : String → String) (o : OptionHelp) : String :=
  let letter := match o.letter with
    | some c => style ("-" ++ c.toString) ++ ", "
    | none => "    "
  let value := match o.value with
    | some v => s!" <{v}>"
    | none => ""
  letter ++ style ("--" ++ o.name) ++ value

-- The width of an option's form.
def width (o : OptionHelp) : Nat := (o.form id).length

def blanks (n : Nat) : String := String.ofList (List.replicate n ' ')

-- Where texts begin that stand beside the forms, with two blanks in front of the forms and behind them.
def column (os : List OptionHelp) : Nat :=
  os.foldl (fun n o => max n (o.width + 4)) 0

-- How many characters a line is meant for.
def lineWidth : Nat := 100

-- Whether the forms take more than two fifths of a line, and some text does not fit into the rest.
def areWide (os : List OptionHelp) : Bool :=
  2 * lineWidth < 5 * column os && os.any fun o => lineWidth < column os + o.about.length

-- An option with its text, which begins in a column or, with none given, on a line of its own.
def lines (column? : Option Nat) (o : OptionHelp) : List String :=
  let form := "  " ++ o.form bold
  let indent := blanks (column?.getD 10)
  match column?, o.about.splitOn "\n" with
  | some column, first :: rest =>
    (form ++ blanks (column - (o.width + 2)) ++ first) :: rest.map (indent ++ ·)
  | _, about => form :: about.map (indent ++ ·)

-- The options of a page, if it has any.
def listed : List OptionHelp → List String
  | [] => []
  | os =>
    let column? := if areWide os then none else some (column os)
    ["", underlined "Options:"] ++ os.flatMap (lines column?)

end OptionHelp

open OptionHelp

def formatHelp : OptionHelp :=
  withValue "format" "FORMAT" "Output format [default: text] [possible values: text, json]" none

-- The help on the concurrency shows the environment's value.
def concurrencyHelp (environment : Option String) : OptionHelp :=
  let value := environment.getD ""
  withValue "concurrency" "CONCURRENCY"
    s!"Worker threads (0 uses every core) [env: {concurrencyVariable}={value}]" (some "0")

def maxDegreeHelp : OptionHelp :=
  withValue "max-degree" "MAX_DEGREE" "Skip nodes with a higher degree" none

def streamHelp : OptionHelp := ⟨none, "stream", none, "Print every triangle instead of counts"⟩

def helpHelp : OptionHelp := ⟨some 'h', "help", none, "Print help"⟩

def versionHelp : OptionHelp := ⟨some 'V', "version", none, "Print version"⟩

-- The options of a place; those that may stand anywhere come among those of the subcommand.
def optionHelps (environment : Option String) : Place → List OptionHelp
  | .top => [formatHelp, concurrencyHelp environment, maxDegreeHelp, streamHelp, helpHelp, versionHelp]
  | .csv => [
      formatHelp,
      withValue "nodes" "FILE" "CSV file containing nodes" none,
      concurrencyHelp environment,
      withValue "edges" "FILE" "CSV file containing relationships" none,
      maxDegreeHelp,
      withValue "node-id-column" "NODE_ID_COLUMN" "Node id column name" (some "id"),
      withValue "node-label-column" "NODE_LABEL_COLUMN" "Column containing pipe-separated labels" none,
      streamHelp,
      withValue "edge-src-column" "EDGE_SRC_COLUMN" "Relationship source column name" (some "src"),
      withValue "edge-dst-column" "EDGE_DST_COLUMN" "Relationship target column name" (some "dst"),
      helpHelp]
  | .random => [
      formatHelp,
      withValue "nodes" "NODES" "Number of nodes" (some "10000"),
      concurrencyHelp environment,
      withValue "relationships" "RELATIONSHIPS" "Number of relationships" (some "100000"),
      maxDegreeHelp,
      withValue "seed" "SEED" "Generator seed" (some "42"),
      streamHelp,
      helpHelp]
  | .help => []

-- How a subcommand is used, given what may stand behind it.
def usage (subcommand rest : String) : String :=
  underlined "Usage:" ++ " " ++ bold ("triangles" ++ subcommand) ++ " " ++ rest

-- What a place is for, how it is used, and what may follow.
def introduction : Place → List String
  | .top => [
      "Count triangles of an undirected graph held in memory",
      "",
      usage "" "[OPTIONS] <COMMAND>",
      "",
      underlined "Commands:",
      "  " ++ bold "csv" ++ "     Load nodes and relationships from CSV files",
      "  " ++ bold "random" ++ "  Generate a uniform random graph",
      "  " ++ bold "help" ++ "    Print this message or the help of the given subcommand(s)"]
  | .csv => [
      "Load nodes and relationships from CSV files",
      "",
      usage " csv" ("[OPTIONS] " ++ bold "--edges" ++ " <FILE>")]
  | .random => [
      "Generate a uniform random graph",
      "",
      usage " random" "[OPTIONS]"]
  | .help => [
      "Print this message or the help of the given subcommand(s)",
      "",
      usage " help" "[COMMAND]...",
      "",
      underlined "Arguments:",
      "  [COMMAND]...  Print help for the subcommand(s)"]

-- A help page with its styles.
def styledHelp (environment : Option String) (p : Place) : String :=
  "\n".intercalate (introduction p ++ listed (optionHelps environment p))

-- A help page as it is printed: without its styles, and so without control characters of any value.
def helpLines (environment : Option String) (p : Place) : List String :=
  (Text.plain (styledHelp environment p)).splitOn "\n"

-- What is shown instead of carrying out a command, behind the exit code.
def refusalLines (environment : Option String) : Place × Refusal → Nat × List String
  | (p, .help) => (0, helpLines environment p)
  | (_, .version) => (0, [versionText])
  | (_, .usage reason) => (2, ["error: " ++ reason, "", "For more information, try '--help'."])

end PropertyGraph.CommandLine
