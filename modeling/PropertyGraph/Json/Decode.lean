import PropertyGraph.NameMap
import PropertyGraph.Json.Value

namespace PropertyGraph.Json

def nat? : Json → Option Nat
  | number n => some n
  | _ => none

def bool? : Json → Option Bool
  | bool b => some b
  | _ => none

def string? : Json → Option String
  | string s => some s
  | _ => none

def list? {α : Type} (f : Json → Option α) : Json → Option (List α)
  | array items => items.mapM f
  | _ => none

-- Of two fields of one name the later stays.
def map? {α : Type} (f : Json → Option α) : Json → Option (NameMap String α)
  | object fields => do
    return .ofList (← fields.mapM fun (k, j) => do return (k, ← f j))
  | _ => none

-- The values of the named fields, in the order of the names.
def record? (names : List String) : Json → Option (List Json)
  | object fields => names.mapM fun name =>
    match fields.filter (·.1 = name) with
    | [(_, j)] => some j
    | _ => none
  | array items => if items.length = names.length then some items else none
  | _ => none

-- A choice by its name alone, or as the name of the only field, which holds nothing.
def choice? {α : Type} (choices : List (String × α)) : Json → Option α
  | string s => choices.lookup s
  | object [(s, null)] => choices.lookup s
  | _ => none

end PropertyGraph.Json
