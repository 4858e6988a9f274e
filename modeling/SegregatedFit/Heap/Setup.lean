import SegregatedFit.Heap.Audit
import SegregatedFit.Heap.Extend

/-!
# Setting up a heap

A new heap consists of the prologue, one free block of the configured chunk, and the tag
that ends the blocks. Memory may hold other bytes already: the heap begins behind them.
-/

namespace SegregatedFit.Heap

/-- Sets up a heap in memory. -/
def setup (memory : Memory) (config : Config) : Run (Answer Heap) := do
  let config ← config.withChunk config.chunk
  match ← (Arena.ofMemory memory).grow granule with
  | (.error cause, _) => return .error (.outOfMemory granule cause)
  | (.ok base, arena) =>
    let arena ← arena.put base Tag.prologue.toWord
    let arena ← arena.stampEnd (base + granule)
    let prologue := base + wordBytes
    match ← extend ⟨arena, .empty, config, prologue, prologue⟩ (config.chunk / wordBytes) with
    | (.error cause, _) => return .error (.outOfMemory config.chunk cause)
    | (.ok _, h) =>
      Run.tell (.heapReady config.chunk config.policy)
      h.selfAudit .setup
      return .ok h

/-- Sets up a heap in a new buffer that may grow up to the configured ceiling. -/
def create (config : Config) : Run (Answer Heap) := do
  setup (← Memory.ofLimit config.ceiling) config

end SegregatedFit.Heap
