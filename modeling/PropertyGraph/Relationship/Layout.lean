namespace PropertyGraph

inductive Orientation
  -- From source to target, as given.
  | natural
  -- From target to source.
  | reverse
  -- Both ways, so that every relationship is stored twice.
  | undirected
deriving DecidableEq, Repr, Inhabited

def Orientation.name : Orientation → String
  | natural => "Natural"
  | reverse => "Reverse"
  | undirected => "Undirected"

-- The ways in which one relationship is stored.
def Orientation.ways (o : Orientation) (source target : Nat) : List (Nat × Nat) :=
  match o with
  | natural => [(source, target)]
  | reverse => [(target, source)]
  | undirected => [(source, target), (target, source)]

-- What becomes of parallel relationships: all are kept, or one with a value made of theirs.
inductive Aggregation
  | none
  | single
  | sum
  | min
  | max
  | count
deriving DecidableEq, Repr, Inhabited

namespace Aggregation

def merges (a : Aggregation) : Bool := a ≠ none

-- The value that a group starts with.
def seed (a : Aggregation) (value : Float) : Float :=
  match a with
  | count => 1.0
  | _ => value

-- The lesser number, the second of equal ones; one that is not a number gives way to the other.
def lesser (x y : Float) : Float :=
  if x < y || y.isNaN then x else y

-- The greater number, the second of equal ones; one that is not a number gives way to the other.
def greater (x y : Float) : Float :=
  if y < x || y.isNaN then x else y

-- The value of a group after one more member.
def combine (a : Aggregation) (acc value : Float) : Float :=
  match a with
  | none | single => acc
  | sum => acc + value
  | min => lesser acc value
  | max => greater acc value
  | count => acc + 1.0

end Aggregation

-- How the relationships of one type are stored: in which direction, and what becomes of parallel ones.
structure Layout where
  orientation : Orientation
  aggregation : Aggregation
deriving DecidableEq, Repr, Inhabited

namespace Layout

def natural : Layout := ⟨.natural, .none⟩

def undirected : Layout := ⟨.undirected, .none⟩

end Layout

end PropertyGraph
