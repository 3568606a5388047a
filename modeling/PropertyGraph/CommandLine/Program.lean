import PropertyGraph.CommandLine.Help
import PropertyGraph.CommandLine.Report

namespace PropertyGraph.CommandLine

def refuse (environment : Option String) (r : Place × Refusal) : Outcome :=
  match refusalLines environment r with
  | (0, lines) => ⟨0, fun _ => lines, []⟩
  | (code, lines) => ⟨code, fun _ => [], lines⟩

-- Reads the arguments and carries out the command that they stand for.
def program (args : List String) (environment : Option String) (files : Files) : Outcome :=
  match parse args environment with
  | .error r => refuse environment r
  | .ok c => run c files

-- The files that a command reads.
def filesRead (args : List String) (environment : Option String) : List String :=
  match parse args environment with
  | .ok { source := .tables t, .. } => t.nodes.toList ++ [t.edges]
  | _ => []

end PropertyGraph.CommandLine
