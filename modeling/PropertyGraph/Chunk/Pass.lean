import PropertyGraph.Chunk.Dispenser

namespace PropertyGraph

-- How far a worker got inside a chunk.
inductive Progress (σ τ ε : Type)
  -- It cannot go on before something outside changes.
  | blocked
  | working (t : τ)
  | ended (r : Except ε σ)

-- What the workers of a pass do. A worker keeps a `σ` from chunk to chunk and a `τ` inside one; all of them
-- share a `γ`. A lethal error takes its worker down without stopping the others.
structure Job (σ τ γ ε : Type) where
  enter : σ → Chunk → τ
  advance : τ → γ → Progress σ τ ε × γ
  lethal : ε → Bool

-- The job that works through a chunk in one move.
def Job.whole {σ γ ε : Type} (body : σ → Chunk → γ → Except ε σ × γ) (lethal : ε → Bool) :
    Job σ (σ × Chunk) γ ε where
  enter := Prod.mk
  advance t g := let (r, g') := body t.1 t.2 g; (.ended r, g')
  lethal

inductive Phase (σ τ ε : Type)
  -- About to look at the flag raised from outside.
  | ready (s : σ)
  -- Saw that flag down, about to look at the flag of the workers.
  | spared (s : σ)
  -- Saw both flags down, about to claim.
  | cleared (s : σ)
  | working (t : τ)
  -- Failed, about to put the flag up.
  | announcing (e : ε)
  -- Put the flag up, about to leave its error behind.
  | reporting (e : ε)
  | stopped (s : σ)
  | failed
  | crashed (e : ε)

namespace Phase

variable {σ τ ε : Type}

def isFinal : Phase σ τ ε → Bool
  | stopped _ | failed | crashed _ => true
  | _ => false

def result? : Phase σ τ ε → Option σ
  | stopped s => some s
  | _ => none

def crash? : Phase σ τ ε → Option ε
  | crashed e => some e
  | _ => none

end Phase

-- A pass over an id space by several workers. Each worker looks at two flags, claims a chunk, works through it and
-- starts over. It stops when no chunk is left or a flag is up: one is raised from outside to end the pass early, the
-- other is put up by a worker that fails.
structure Pass (σ τ γ ε : Type) where
  dispenser : Dispenser
  -- The flag raised from outside.
  raised : Bool
  -- The flag of the workers that failed.
  announced : Bool
  -- The error that was left behind first.
  failure : Option ε
  workers : List (Phase σ τ ε)
  shared : γ
  -- Who claimed what, the last claim first.
  claims : List (Nat × Chunk)

namespace Pass

variable {σ τ γ ε : Type}

-- As many workers as asked for, but one at least and no more than there are chunks.
def workerCount (upper concurrency size : Nat) : Nat :=
  min (max concurrency 1) (max (Dispenser.chunkCount upper size) 1)

-- A pass before its first move.
def start (upper concurrency size : Nat) (init : σ) (shared : γ) (raised : Bool) : Pass σ τ γ ε where
  dispenser := .below upper size
  raised
  announced := false
  failure := none
  workers := List.replicate (workerCount upper concurrency size) (.ready init)
  shared
  claims := []

def setWorker (p : Pass σ τ γ ε) (i : Nat) (w : Phase σ τ ε) : Pass σ τ γ ε :=
  { p with workers := p.workers.set i w }

-- One move of worker `i`; `none` when it cannot move.
def step (job : Job σ τ γ ε) (p : Pass σ τ γ ε) (i : Nat) : Option (Pass σ τ γ ε) :=
  match p.workers[i]? with
  | some (.ready s) => some (p.setWorker i (if p.raised then .stopped s else .spared s))
  | some (.spared s) => some (p.setWorker i (if p.announced then .stopped s else .cleared s))
  | some (.cleared s) =>
    match p.dispenser.claim with
    | (none, d) => some ({ p with dispenser := d }.setWorker i (.stopped s))
    | (some c, d) =>
      some ({ p with dispenser := d, claims := (i, c) :: p.claims }.setWorker i (.working (job.enter s c)))
  | some (.working t) =>
    match job.advance t p.shared with
    | (.blocked, _) => none
    | (.working t', g) => some ({ p with shared := g }.setWorker i (.working t'))
    | (.ended (.ok s), g) => some ({ p with shared := g }.setWorker i (.ready s))
    | (.ended (.error e), g) =>
      some ({ p with shared := g }.setWorker i (if job.lethal e then .crashed e else .announcing e))
  | some (.announcing e) => some ({ p with announced := true }.setWorker i (.reporting e))
  | some (.reporting e) => some ({ p with failure := p.failure <|> some e }.setWorker i .failed)
  | _ => none

inductive Event
  | worker (i : Nat)
  | raise

-- What an event makes of a pass. A worker that cannot move leaves it as it is.
def apply (job : Job σ τ γ ε) (p : Pass σ τ γ ε) : Event → Pass σ τ γ ε
  | .worker i => (p.step job i).getD p
  | .raise => { p with raised := true }

-- A move of a worker looks at what the workers share or changes it once at most, so every way they can take turns is a
-- list of events.
def follow (job : Job σ τ γ ε) (p : Pass σ τ γ ε) (es : List Event) : Pass σ τ γ ε :=
  es.foldl (apply job) p

-- Whether every worker has come to its end.
def isComplete (p : Pass σ τ γ ε) : Bool :=
  p.workers.all Phase.isFinal

-- How a complete pass ends: with the error of a worker that crashed, else with the error left behind first,
-- else with what the workers kept.
def outcome (p : Pass σ τ γ ε) : Except ε (List σ) :=
  match p.workers.findSome? Phase.crash? with
  | some e => .error e
  | none =>
    match p.failure with
    | some e => .error e
    | none => .ok (p.workers.filterMap Phase.result?)

-- One move of the first worker that can move.
def move? (job : Job σ τ γ ε) (p : Pass σ τ γ ε) : Option (Pass σ τ γ ε) :=
  (List.range p.workers.length).findSome? (p.step job)

-- Lets the first worker that can move do so, `fuel` times at most. The flag is raised as soon as the shared
-- state asks for it.
def run (job : Job σ τ γ ε) (raiseOn : γ → Bool) : (fuel : Nat) → Pass σ τ γ ε → Pass σ τ γ ε
  | 0, p => p
  | fuel + 1, p =>
    let p := if raiseOn p.shared then p.apply job .raise else p
    match p.move? job with
    | some q => run job raiseOn fuel q
    | none => p

-- Moves that suffice for a job which works through each chunk in one move.
def moveBound (upper concurrency size : Nat) : Nat :=
  4 * (Dispenser.chunkCount upper size + workerCount upper concurrency size)

-- Runs a job that works through each chunk in one move to its end.
def perform (upper concurrency size : Nat) (init : σ) (shared : γ) (raised : Bool)
    (raiseOn : γ → Bool) (lethal : ε → Bool) (body : σ → Chunk → γ → Except ε σ × γ) :
    Pass σ (σ × Chunk) γ ε :=
  run (.whole body lethal) raiseOn (moveBound upper concurrency size)
    (start upper concurrency size init shared raised)

end Pass

-- How many workers a request stands for. Zero asks for any number; one gives the same answers.
def effectiveConcurrency (requested : Nat) : Nat :=
  if requested = 0 then 1 else requested

end PropertyGraph
