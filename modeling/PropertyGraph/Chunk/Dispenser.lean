import PropertyGraph.Word64

namespace PropertyGraph

-- The ids from `start` up to `stop`, which is not one of them.
structure Chunk where
  start : Nat
  stop : Nat
deriving DecidableEq, Repr, Inhabited

namespace Chunk

def width (c : Chunk) : Nat := c.stop - c.start

def ids (c : Chunk) : List Nat := List.range' c.start c.width

def contains (c : Chunk) (id : Nat) : Bool := c.start ≤ id && id < c.stop

@[simp]
theorem mem_ids {c : Chunk} {id : Nat} : id ∈ c.ids ↔ c.start ≤ id ∧ id < c.stop := by
  simp only [ids, width, List.mem_range'_1]
  omega

-- Chunks of one node range in a pass that is not told otherwise.
def defaultSize : Nat := 64

end Chunk

-- The ids below a bound, handed out in chunks of one width. The place where the next chunk starts is a number of 64
-- bits and wraps around.
structure Dispenser where
  next : Nat
  upper : Nat
  size : Nat
deriving DecidableEq, Repr

namespace Dispenser

-- A dispenser of the ids below `upper`. A chunk has one id at least.
def below (upper size : Nat) : Dispenser := ⟨0, upper, max size 1⟩

-- The next chunk, if its start is still below the bound.
def claim (d : Dispenser) : Option Chunk × Dispenser :=
  let rest := { d with next := (d.next + d.size) % Word64.count }
  if d.next < d.upper then
    (some ⟨d.next, min (min (d.next + d.size) Word64.greatest) d.upper⟩, rest)
  else (none, rest)

-- The answers to `n` claims in a row.
def claims : (n : Nat) → Dispenser → List (Option Chunk)
  | 0, _ => []
  | n + 1, d => d.claim.1 :: claims n d.claim.2

-- How many chunks the ids below `upper` make.
def chunkCount (upper size : Nat) : Nat :=
  (upper + (max size 1 - 1)) / max size 1

end Dispenser

end PropertyGraph
