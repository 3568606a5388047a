import PropertyGraph.CommandLine.Command
import PropertyGraph.Exchange
import PropertyGraph.Loader.Import
import PropertyGraph.Random.ChaCha
import PropertyGraph.Store.Select
import PropertyGraph.Triangle.Stream

namespace PropertyGraph

-- What a program run leaves behind: an exit code, and lines on the two outputs.
structure Outcome where
  code : Nat
  -- The lines of output, given the milliseconds that the run took.
  output : (elapsed : Nat) → List String
  errors : List String

namespace CommandLine

-- The one relationship type of the graphs made here.
def relType : RelType := ⟨"REL"⟩

def emptyLoader : Loader :=
  ({ implicitNodes := true } : Loader).declare relType .undirected

-- Files by their paths.
abbrev Files := String → Except Fault (List UInt8)

def loadTables (t : TableSource) (files : Files) : Except Fault Loader := do
  let l ← match t.nodes with
    | none => pure emptyLoader
    | some path =>
      let c : NodeImport := { idColumn := t.nodeIdColumn, labelColumn := t.nodeLabelColumn }
      Outcome.after (c.run (← files path) emptyLoader)
  let c : RelationshipImport := {
    sourceColumn := t.edgeSourceColumn, targetColumn := t.edgeTargetColumn
    staticType := some relType, valueColumns := some [] }
  Outcome.after (c.run (← files t.edges) l)

-- Adds `n` relationships between nodes drawn below `nodes`, the source first.
def drawRelationships (nodes : Nat) : (n : Nat) → Generator → Loader → Except Fault Loader
  | 0, _, l => .ok l
  | n + 1, g, l => do
    let (source, g) := g.below nodes Generator.drawBound
    let (target, g) := g.below nodes Generator.drawBound
    drawRelationships nodes n g (← Outcome.after (l.addRelationship relType source target []))

def drawGraph (r : RandomSource) : Except Fault Loader := do
  let l ← (List.range r.nodes).foldlM (fun l v => Outcome.after (l.addNode v [] [])) emptyLoader
  drawRelationships r.nodes r.relationships (.ofSeed r.seed.toUInt64) l

-- The counts of a graph.
structure Report where
  nodes : Nat
  relationships : Nat
  triangles : Nat
  maxLocalTriangles : Nat

namespace Report

def textLines (r : Report) (elapsed : Nat) : List String := [
  s!"nodes:               {r.nodes}",
  s!"relationships:       {r.relationships}",
  s!"triangles:           {r.triangles}",
  s!"max local triangles: {r.maxLocalTriangles}",
  s!"elapsed:             {elapsed} ms"]

def toJson (r : Report) (elapsed : Nat) : Json := .object [
  ("nodes", .number r.nodes),
  ("relationships", .number r.relationships),
  ("triangles", .number r.triangles),
  ("max_local_triangles", .number r.maxLocalTriangles),
  ("elapsed_ms", .number elapsed)]

def lines (r : Report) (elapsed : Nat) : OutputFormat → List String
  | .text => r.textLines elapsed
  | .json => (r.toJson elapsed).pretty.splitOn "\n"

end Report

def triangleLine (t : Triangle) : OutputFormat → String
  | .text => s!"{t.a}\t{t.b}\t{t.c}"
  | .json => t.toJson.compact

def failure (output : List String) (reason : String) : Outcome :=
  ⟨1, fun _ => output, ["error: " ++ reason]⟩

-- Lists the triangles of a view up to the first fault.
def listTriangles (c : Command) (config : TriangleConfig) (v : View) : Outcome :=
  match TriangleStream.start v config false with
  | .error f => failure [] f.message
  | .ok s =>
    let (r, _) := s.read none
    let output := r.triangles.toList.map (triangleLine · c.format)
    match r.failure with
    | none => ⟨0, fun _ => output, []⟩
    | some f => failure output f.message

def countTriangles (config : TriangleConfig) (v : View) : Except Fault Report := do
  let counts ← v.countTriangles config false
  return {
    nodes := v.nodeCount
    relationships := (← v.relationshipCount) / 2
    triangles := counts.global
    maxLocalTriangles := counts.perNode.foldl max 0 }

-- The view of the whole graph that a command asks about.
def loadView (c : Command) (files : Files) : Except Fault View := do
  let l ← match c.source with
    | .tables t => loadTables t files
    | .random r => drawGraph r
  let store ← l.build c.concurrency {}
  (store.getGraph store.nodeLabels [relType] none c.concurrency).1

-- Carries out a command: the graph is loaded or drawn at random, and its triangles are counted or listed.
def run (c : Command) (files : Files) : Outcome :=
  if c.source.isEmptyRandom then failure [] "a random graph needs at least one node"
  else
    match loadView c files with
    | .error f => failure [] f.message
    | .ok v =>
      let config : TriangleConfig := { concurrency := c.concurrency, maxDegree := c.maxDegree }
      if c.stream then listTriangles c config v
      else
        match countTriangles config v with
        | .error f => failure [] f.message
        | .ok r => ⟨0, fun elapsed => r.lines elapsed c.format, []⟩

end CommandLine

end PropertyGraph
