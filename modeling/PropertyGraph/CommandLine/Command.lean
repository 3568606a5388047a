import PropertyGraph.CommandLine.Options
import PropertyGraph.Text.Number
import PropertyGraph.Triangle.Count

namespace PropertyGraph

inductive OutputFormat
  | text
  | json
deriving DecidableEq, Repr

structure TableSource where
  nodes : Option String
  edges : String
  nodeIdColumn : String
  nodeLabelColumn : Option String
  edgeSourceColumn : String
  edgeTargetColumn : String

structure RandomSource where
  nodes : Nat
  relationships : Nat
  seed : Nat

inductive GraphSource
  | tables (t : TableSource)
  | random (r : RandomSource)

-- Whether a random graph without nodes is asked for, which there is none of.
def GraphSource.isEmptyRandom : GraphSource → Bool
  | tables _ => false
  | random r => r.nodes = 0

structure Command where
  format : OutputFormat
  -- Zero asks for any number of workers.
  concurrency : Nat
  maxDegree : Nat
  -- Whether every triangle is printed, and not how many there are.
  stream : Bool
  source : GraphSource

namespace CommandLine

def concurrencyVariable : String := "GRAPHSTORE_CONCURRENCY"

def isNat64 (s : String) : Bool := (Text.readNat64? s).isSome

-- The options that may stand in front of a subcommand and behind it.
def sharedOptions : List OptionSpec := [
  ⟨"format", some fun v => v = "text" || v = "json"⟩,
  ⟨"concurrency", some isNat64⟩,
  ⟨"max-degree", some isNat64⟩,
  ⟨"stream", none⟩]

def tableOptions : List OptionSpec := [
  ⟨"nodes", some (· ≠ "")⟩,
  ⟨"edges", some (· ≠ "")⟩,
  ⟨"node-id-column", some fun _ => true⟩,
  ⟨"node-label-column", some fun _ => true⟩,
  ⟨"edge-src-column", some fun _ => true⟩,
  ⟨"edge-dst-column", some fun _ => true⟩]

def randomOptions : List OptionSpec :=
  ["nodes", "relationships", "seed"].map (⟨·, some isNat64⟩)

def natOr (given : Given) (name : String) (default : Nat) : Nat :=
  ((given.lookup name).bind Text.readNat64?).getD default

-- The concurrency: the one given last, else that of the environment. At a place where none is given the
-- environment has to have a valid one or none.
def concurrency (before behind : Given) (environment : Option String) : Except Refusal Nat := do
  let missing := (before.lookup "concurrency").isNone || (behind.lookup "concurrency").isNone
  match environment with
  | some v =>
    if missing && !isNat64 v then
      throw (.usage s!"invalid value '{v}' for '--concurrency'")
  | none => pure ()
  let given := (behind.lookup "concurrency") <|> (before.lookup "concurrency") <|> environment
  return (given.bind Text.readNat64?).getD 0

def command (before behind : Given) (environment : Option String) (source : GraphSource) :
    Except Refusal Command := do
  let concurrency ← concurrency before behind environment
  let format := (behind.lookup "format") <|> (before.lookup "format")
  return {
    format := if format = some "json" then .json else .text
    concurrency
    maxDegree := natOr behind "max-degree" (natOr before "max-degree" noDegreeLimit)
    stream := (before.lookup "stream").isSome || (behind.lookup "stream").isSome
    source }

def tableSource (given : Given) : Except Refusal TableSource := do
  let some edges := given.lookup "edges"
    | throw (.usage "the following required arguments were not provided: --edges <FILE>")
  return {
    nodes := given.lookup "nodes"
    edges
    nodeIdColumn := (given.lookup "node-id-column").getD "id"
    nodeLabelColumn := given.lookup "node-label-column"
    edgeSourceColumn := (given.lookup "edge-src-column").getD "src"
    edgeTargetColumn := (given.lookup "edge-dst-column").getD "dst" }

def randomSource (given : Given) : RandomSource where
  nodes := natOr given "nodes" 10000
  relationships := natOr given "relationships" 100000
  seed := natOr given "seed" 42

-- Where a refusal arose: in front of the subcommands, or behind one of them.
inductive Place
  | top
  | csv
  | random
  | help
deriving DecidableEq, Repr

-- Options and nothing else.
def readAllOptions (specs : List OptionSpec) (args : List String) : Except Refusal Given := do
  match ← readOptions specs false (args.length + 1) args .start with
  | (r, []) => r.settle
  | (_, extra :: _) => throw (.usage s!"unexpected argument '{extra}' found")

def atPlace {α : Type} (p : Place) (r : Except Refusal α) : Except (Place × Refusal) α :=
  r.mapError (p, ·)

-- What the subcommand `help` asks for.
def helpAsked : List String → Place × Refusal
  | [] => (.top, .help)
  | ["csv"] => (.csv, .help)
  | ["random"] => (.random, .help)
  | ["help"] => (.help, .help)
  | _ => (.top, .usage "unrecognized subcommand")

-- The command that arguments stand for, with the value of `concurrencyVariable` if there is one. What a
-- subcommand answers about itself comes before what the value in front of it is checked for.
def parse (args : List String) (environment : Option String) : Except (Place × Refusal) Command := do
  let (r, rest) ← atPlace .top (readOptions sharedOptions true (args.length + 1) args .start)
  match rest with
  | [] => throw (.top, .usage "a subcommand is required but was not provided")
  | "csv" :: args => atPlace .csv do
    let behind ← readAllOptions (sharedOptions ++ tableOptions) args
    let source ← tableSource behind
    command (← r.settle) behind environment (.tables source)
  | "random" :: args => atPlace .random do
    let behind ← readAllOptions (sharedOptions ++ randomOptions) args
    command (← r.settle) behind environment (.random (randomSource behind))
  | "help" :: args => throw (helpAsked args)
  | other :: _ => throw (.top, .usage s!"unrecognized subcommand '{other}'")

end CommandLine

end PropertyGraph
