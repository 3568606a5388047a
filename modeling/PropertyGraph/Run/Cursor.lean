import PropertyGraph.Run.Arena
import PropertyGraph.Word64

namespace PropertyGraph

-- What a probe answers once its run is exhausted.
def notFound : Nat := Word64.greatest

-- A cursor reads a run from its first id to its last. The id read last stays current: a probe that it already satisfies
-- is answered with it and reads nothing. Every step answers together with the cursor it leaves behind, also when it
-- fails.
structure Cursor where
  -- Where the next gap is read.
  pos : Nat
  -- How many ids are still unread.
  remaining : Nat
  -- The sum of the gaps read.
  last : Nat
  -- Whether `last` is current.
  live : Bool
deriving DecidableEq, Repr, Inhabited

namespace Cursor

-- A cursor over no ids.
def exhausted : Cursor := ⟨0, 0, 0, false⟩

def hasNext (c : Cursor) : Bool := 0 < c.remaining

def current (c : Cursor) : Option Nat :=
  if c.live then some c.last else none

-- Bounds on how many ids are still to come, which agree.
def sizeHint (c : Cursor) : Nat × Option Nat := (c.remaining, some c.remaining)

def describe (c : Cursor) : String :=
  let current := match c.current with
    | some id => s!"Some({id})"
    | none => "None"
  s!"DecompressingCursor \x7b pos: {c.pos}, remaining: {c.remaining}, current: {current} \x7d"

-- A step of a cursor: an answer or a fault, and the cursor after it.
abbrev Step (α : Type) := Cursor → Except Fault α × Cursor

end Cursor

namespace Arena

variable (a : Arena)

-- Moves to the start of the run at `offset`.
def reset (offset : Nat) : Cursor.Step Unit := fun c =>
  if offset = 0 then (.ok (), .exhausted)
  else
    match Word32.decode a.bytes offset with
    | .ok n => (.ok (), ⟨offset + Word32.width, n, 0, false⟩)
    | .error e => (.error e, { c with last := 0, live := false })

-- A cursor in front of the run at `offset`.
def cursor (offset : Nat) : Except Fault Cursor :=
  match a.reset offset .exhausted with
  | (.ok (), c) => .ok c
  | (.error e, _) => .error e

-- Reads the next id, which there must be.
def nextTarget : Cursor.Step Nat := fun c =>
  if c.remaining = 0 then (.error .cursorExhausted, c)
  else
    match Varint.decode a.bytes c.pos with
    | (.ok gap, pos) =>
      let id := c.last + gap
      if Word64.greatest < id then (.error .idOverflow, { c with pos })
      else (.ok id, ⟨pos, c.remaining - 1, id, true⟩)
    | (.error e, pos) => (.error e, { c with pos })

def next? : Cursor.Step (Option Nat) := fun c =>
  if c.remaining = 0 then (.ok none, c)
  else
    match a.nextTarget c with
    | (.ok id, c') => (.ok (some id), c')
    | (.error e, c') => (.error e, c')

-- Reads on until an id is a hit; with `n` ids read and no hit, none is current any more.
def readUntil (hit : Nat → Bool) : (n : Nat) → Cursor.Step Nat
  | 0, c => (.ok notFound, { c with live := false })
  | n + 1, c =>
    match a.nextTarget c with
    | (.ok id, c') => if hit id then (.ok id, c') else readUntil hit n c'
    | (.error e, c') => (.error e, c')

-- The current id if it is a hit, else the first hit among the unread ones.
def probe (hit : Nat → Bool) : Cursor.Step Nat := fun c =>
  if c.live && hit c.last then (.ok c.last, c)
  else a.readUntil hit c.remaining c

-- The first id above `target`.
def skipUntil (target : Nat) : Cursor.Step Nat :=
  a.probe fun id => target < id

-- The first id not below `target`.
def advance (target : Nat) : Cursor.Step Nat :=
  a.probe fun id => target ≤ id

-- Reads `n` ids, or fewer if a step fails.
def readMany : (n : Nat) → Cursor.Step (List Nat)
  | 0, c => (.ok [], c)
  | n + 1, c =>
    match a.nextTarget c with
    | (.error e, c') => (.error e, c')
    | (.ok id, c') =>
      match readMany n c' with
      | (.ok ids, c'') => (.ok (id :: ids), c'')
      | (.error e, c'') => (.error e, c'')

-- Reads all ids that are left.
def drain : Cursor.Step (List Nat) := fun c =>
  a.readMany c.remaining c

-- The run at an offset.
def run (offset : Nat) : Except Fault (List Nat) := do
  (a.drain (← a.cursor offset)).1

end Arena

end PropertyGraph
