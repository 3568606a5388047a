import PropertyGraph.Chunk.Dispenser

namespace PropertyGraph

-- What a store is assembled with.
structure StoreOptions where
  -- Whether the store counts what happens to it.
  metrics : Bool := false
  -- Workers for a request of zero workers; zero asks for any number.
  defaultConcurrency : Nat := 0
  -- Node ids in a chunk when a label subset is derived.
  filterChunkSize : Nat := 64 * Chunk.defaultSize
deriving DecidableEq, Repr

namespace StoreOptions

-- Chunks have one id at least.
def withFilterChunkSize (o : StoreOptions) (size : Nat) : StoreOptions :=
  { o with filterChunkSize := max size 1 }

def describe (o : StoreOptions) : String :=
  s!"StoreOptions \x7b metrics: {o.metrics}, default_concurrency: {o.defaultConcurrency}, " ++
    s!"filter_chunk_size: {o.filterChunkSize} \x7d"

end StoreOptions

end PropertyGraph
