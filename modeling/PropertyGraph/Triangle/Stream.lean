import PropertyGraph.Triangle.Count
import PropertyGraph.Triangle.Queue

namespace PropertyGraph

namespace TriangleStream

-- What waits for the reader.
structure Channel where
  waiting : Queue (Except Fault Triangle) := ∅
  capacity : Nat
  -- Whether the reader is still there.
  isOpen : Bool := true

def Channel.isFull (c : Channel) : Bool := c.capacity ≤ c.waiting.size

def Channel.send (c : Channel) (item : Except Fault Triangle) : Channel :=
  { c with waiting := c.waiting.push item }

-- A worker inside a chunk: anchors still to come, and triangles found but not yet sent.
structure Task where
  pool : Pool
  anchors : List Nat
  unsent : List Triangle

-- A triangle by external ids.
def externalTriangle (v : View) (t : Triangle) : Except Fault Triangle := do
  return ⟨← v.toExternal t.a, ← v.toExternal t.b, ← v.toExternal t.c⟩

-- Sends the next triangle, or turns to the next anchor. Without a reader the worker fails.
def Task.advance (v : View) (e : PartIntersection) (t : Task) (c : Channel) :
    Progress Pool Task Fault × Channel :=
  match t.unsent with
  | found :: unsent =>
    match externalTriangle v found with
    | .error f => (.ended (.error f), c)
    | .ok found =>
      if !c.isOpen then (.ended (.error .consumerGone), c)
      else if c.isFull then (.blocked, c)
      else (.working { t with unsent }, c.send (.ok found))
  | [] =>
    match t.anchors with
    | [] => (.ended (.ok t.pool), c)
    | anchor :: anchors =>
      match e.trianglesAt anchor t.pool with
      | .error f => (.ended (.error f), c)
      | .ok (pool, found) => (.working ⟨pool, anchors, found.toList⟩, c)

def job (v : View) (e : PartIntersection) : Job Pool Task Channel Fault where
  enter pool chunk := ⟨pool, chunk.ids, []⟩
  advance := Task.advance v e
  lethal := Fault.isViolation

-- The producer waits for its workers, hands over the error that they ended with, and is done.
inductive Producer
  | waiting
  | handingOver (f : Fault)
  | done (r : Except Fault Unit)

end TriangleStream

open TriangleStream

-- Triangles one by one, by external ids, while workers go on finding more. The workers put them into a queue of bounded
-- length and wait when it is full. A pass that ends with an error puts the error behind them.
structure TriangleStream where
  view : View
  intersection : PartIntersection
  pass : Pass Pool Task Channel Fault
  producer : Producer

namespace TriangleStream

-- A stream before its first move.
def start (v : View) (c : TriangleConfig) (raised : Bool) : Except Fault TriangleStream := do
  let e ← v.triangles c
  return {
    view := v
    intersection := e
    pass := .start e.nodeCount (effectiveConcurrency c.concurrency) c.chunkSize
      .fresh { capacity := max c.queueCapacity 1 } raised
    producer := .waiting }

def channel (s : TriangleStream) : Channel := s.pass.shared

def setChannel (s : TriangleStream) (c : Channel) : TriangleStream :=
  { s with pass := { s.pass with shared := c } }

-- One move of worker `i`; `none` when it cannot move.
def stepWorker (s : TriangleStream) (i : Nat) : Option TriangleStream :=
  (s.pass.step (job s.view s.intersection) i).map fun pass => { s with pass }

-- One move of the producer; `none` when it cannot move.
def stepProducer (s : TriangleStream) : Option TriangleStream :=
  match s.producer with
  | .done _ => none
  | .handingOver f =>
    if !s.channel.isOpen then some { s with producer := .done (.error f) }
    else if s.channel.isFull then none
    else some { s.setChannel (s.channel.send (.error f)) with producer := .done (.ok ()) }
  | .waiting =>
    if s.pass.isComplete then
      match s.pass.outcome with
      | .error f =>
        if f.isViolation then some { s with producer := .done (.error f) }
        else some { s with producer := .handingOver f }
      | .ok _ =>
        if s.pass.raised then some { s with producer := .handingOver .terminated }
        else some { s with producer := .done (.ok ()) }
    else none

-- What the reader takes out, if something waits.
def receive? (s : TriangleStream) : Option (Except Fault Triangle × TriangleStream) :=
  s.channel.waiting.pop?.map fun (item, waiting) =>
    (item, s.setChannel { s.channel with waiting })

def raise (s : TriangleStream) : TriangleStream :=
  { s with pass := { s.pass with raised := true } }

-- The reader leaves: the pass is asked to end, and nothing can be sent any more.
def close (s : TriangleStream) : TriangleStream :=
  s.raise.setChannel { s.channel with isOpen := false }

inductive Event
  | worker (i : Nat)
  | producer
  | raise
  | receive

-- What an event makes of a stream, and what the reader took out at it.
def apply (s : TriangleStream) : Event → TriangleStream × List (Except Fault Triangle)
  | .worker i => ((s.stepWorker i).getD s, [])
  | .producer => (s.stepProducer.getD s, [])
  | .raise => (s.raise, [])
  | .receive =>
    match s.receive? with
    | some (item, s) => (s, [item])
    | none => (s, [])

-- The stream after a series of events, and what the reader took out in it.
def follow (s : TriangleStream) : List Event → TriangleStream × List (Except Fault Triangle)
  | [] => (s, [])
  | e :: es =>
    let (s, taken) := s.apply e
    let (s, more) := s.follow es
    (s, taken ++ more)

-- Whether nothing waits and nothing more will come.
def isDrained (s : TriangleStream) : Bool :=
  s.channel.waiting.toList.isEmpty && s.producer matches .done _

-- One move of the first worker that can move, else of the producer.
def move? (s : TriangleStream) : Option TriangleStream :=
  match (List.range s.pass.workers.length).findSome? s.stepWorker with
  | some s => some s
  | none => s.stepProducer

-- Lets workers and producer move until none of them can, `fuel` times at most.
def settle : (fuel : Nat) → TriangleStream → TriangleStream
  | 0, s => s
  | fuel + 1, s =>
    match s.move? with
    | some s => settle fuel s
    | none => s

-- Moves that suffice to send all triangles: no more than pairs of relationships.
def moveBound (s : TriangleStream) : Nat :=
  let nodes := s.intersection.nodeCount
  let relationships := s.intersection.intersection.topology.relationshipCount
  5 * (nodes + s.pass.workers.length) + relationships * relationships + 5

-- What a reader saw: triangles, and the last error among them.
structure Reading where
  triangles : Array Triangle := #[]
  failure : Option Fault := none

-- Reads until `limit` triangles are there or the stream ends, `fuel` items at most.
def readUpTo (limit : Option Nat) : (fuel : Nat) → TriangleStream → Reading → Reading × TriangleStream
  | 0, s, r => (r, s)
  | fuel + 1, s, r =>
    let s := s.settle s.moveBound
    if limit = some r.triangles.size then (r, s)
    else
      match s.receive? with
      | none => (r, s)
      | some (.ok t, s) => readUpTo limit fuel s { r with triangles := r.triangles.push t }
      | some (.error f, s) => readUpTo limit fuel s { r with failure := some f }

-- Reads at most `limit` triangles.
def read (s : TriangleStream) (limit : Option Nat) : Reading × TriangleStream :=
  s.readUpTo limit (s.moveBound + 1) {}

-- Ends the stream early and tells how the producer ended.
def cancel (s : TriangleStream) : TriangleStream × Except Fault Unit :=
  let s := s.close
  let s := s.settle s.moveBound
  match s.producer with
  | .done r => (s, r)
  | _ => (s, .ok ())

def describe (s : TriangleStream) : String :=
  s!"TriangleStream \x7b open: {s.channel.isOpen}, terminated: {s.pass.raised} \x7d"

end TriangleStream

end PropertyGraph
