import PropertyGraph.Fault

namespace PropertyGraph

-- Nodes regrouped by color: the nodes of one color stand next to each other, colors and nodes ascending. A place in
-- this order is a coordinate.
structure Coloring where
  -- The nodes by coordinate.
  order : Array Nat
  -- The coordinates at which the nodes of each color start that a node has, and the node count.
  bounds : List Nat
deriving DecidableEq, Repr

namespace Coloring

-- The used colors by number: ascending and each once.
def palette (used : List Nat) : List Nat :=
  (used.mergeSort (· ≤ ·)).eraseReps

-- The number of the color of a node.
def number (known : List Nat) : Nat × Nat → Except Fault Nat
  | (color, node) =>
    match known.idxOf? color with
    | some number => .ok number
    | none => .error (.undeclaredColor node color)

-- For each of `count` numbers, how many nodes have it.
def tally (count : Nat) (numbers : List Nat) : Array Nat :=
  numbers.foldl (fun counts number => counts.modify number (· + 1)) (Array.replicate count 0)

-- How many nodes have one of the first numbers, for none of them, for the first one, for two and so on.
def sums (counts : Array Nat) : List Nat :=
  counts.toList.scanl (· + ·) 0

-- Puts a node into the last free place of its number.
def place : Array Nat × Array Nat → Nat × Nat → Except Fault (Array Nat × Array Nat)
  | (free, order), (number, node) =>
    match free[number]? with
    | none => .error .indexOutOfBounds
    | some 0 => .error .negativeCount
    | some (slot + 1) =>
      if slot < order.size then
        .ok (free.setIfInBounds number slot, order.setIfInBounds slot node)
      else .error .indexOutOfBounds

-- Places the last node first, so that the nodes of each number ascend.
def fill (sums numbers : List Nat) : Except Fault (Array Nat) := do
  let (_, order) ← numbers.zipIdx.reverse.foldlM place
    (sums.tail.toArray, Array.replicate numbers.length 0)
  return order

-- A number without nodes makes no bound of its own.
def boundsOf (nodeCount : Nat) (sums : List Nat) : List Nat :=
  let bounds := sums.eraseReps
  if bounds.getLast? = some nodeCount then bounds else bounds ++ [nodeCount]

-- Regroups nodes by the color that is listed for each, which has to be among the used ones.
def ofColors (colors used : List Nat) : Except Fault Coloring := do
  let known := palette used
  let numbers ← colors.zipIdx.mapM (number known)
  let sums := sums (tally known.length numbers)
  let order ← fill sums numbers
  return ⟨order, boundsOf colors.length sums⟩

variable (c : Coloring)

-- How many colors the nodes have.
def colorCount : Nat := c.bounds.length - 1

-- The node at a coordinate.
def get (coordinate : Nat) : Except Fault Nat :=
  match c.order[coordinate]? with
  | some node => .ok node
  | none => .error .indexOutOfBounds

-- The coordinate at which the color after that of `coordinate` starts, or the node count behind the last.
def nextStart (coordinate : Nat) : Nat :=
  (c.bounds.find? (coordinate < ·)).getD c.order.size

-- The number of nodes from a coordinate to the end of its color.
def count (coordinate : Nat) : Except Fault Nat :=
  if coordinate ≤ c.nextStart coordinate then .ok (c.nextStart coordinate - coordinate)
  else .error .negativeCount

end Coloring

end PropertyGraph
