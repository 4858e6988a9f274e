import SegregatedFit.Heap.Carve
import SegregatedFit.Heap.Payload
import SegregatedFit.Heap.Search
import SegregatedFit.Heap.Setup

/-!
# Allocation

The operations that callers use: to get a block for a request, to give it back, and to move
a payload into a block for another request. An operation that is refused changes nothing,
except that an unsuccessful search may have moved the rover.
-/

namespace SegregatedFit.Heap

/-- Puts a block for a request to use, growing the heap if no free block has room. -/
def allocateBlock (h : Heap) (request : Nat) : Run (Answer Nat × Heap) := do
  match blockFor request with
  | .error e => return (.error e, h)
  | .ok need =>
    match ← h.search need with
    | (some block, h) => return (.ok block, ← h.carve block need)
    | (none, h) =>
      let amount := max need h.config.chunk
      match ← h.extend (amount / wordBytes) with
      | (.ok block, h) => return (.ok block, ← h.carve block need)
      | (.error cause, h) =>
        Run.tell (.outOfMemory request need cause)
        return (.error (.outOfMemory need cause), h)

/-- Makes a block in use free, merges it with its free neighbours and files it. -/
def releaseBlock (h : Heap) (block : Nat) : Run Heap := do
  let ⟨arena, buckets, config, prologue, rover⟩ := h
  let size ← arena.sizeOf block
  let arena ← arena.stamp block (.free size)
  let (block, ⟨arena, buckets, config, prologue, rover⟩) ←
    coalesce ⟨arena, buckets, config, prologue, rover⟩ block
  let size ← arena.sizeOf block
  let buckets ← buckets.refile block size
  return ⟨arena, buckets, config, prologue, rover⟩

/-- A block whose payload has room for a request. A request of nothing gets no block. -/
def allocate (h : Heap) (request : Nat) : Run (Answer (Option Nat) × Heap) := do
  if request = 0 then return (.ok none, h)
  match ← h.allocateBlock request with
  | (.error e, h) => return (.error e, h)
  | (.ok block, h) =>
    h.selfAudit .allocate
    return (.ok (some block), h)

/-- Gives a block back. Giving back nothing does nothing. -/
def release (h : Heap) (pointer : Option Nat) : Run (Answer Unit × Heap) := do
  let some offset := pointer | return (.ok (), h)
  match ← h.resolve offset with
  | .error e => return (.error e, h)
  | .ok _ =>
    let h ← h.releaseBlock offset
    h.selfAudit .release
    return (.ok (), h)

/-- Moves a payload into a new block whose payload has room for a request, and gives the old
block back. Without an old block this allocates, and for a request of nothing it releases. -/
def reallocate (h : Heap) (pointer : Option Nat) (request : Nat) :
    Run (Answer (Option Nat) × Heap) := do
  let some source := pointer | h.allocate request
  if request = 0 then
    let (answer, h) ← h.release (some source)
    return (answer.map fun _ => none, h)
  match ← h.resolve source with
  | .error e => return (.error e, h)
  | .ok b =>
    let room ← payloadSize b.size
    match ← h.allocateBlock request with
    | (.error e, h) => return (.error e, h)
    | (.ok target, ⟨arena, buckets, config, prologue, rover⟩) =>
      let copied := min room request
      let arena ← arena.copy source target copied
      let h ← releaseBlock ⟨arena, buckets, config, prologue, rover⟩ source
      Run.tell (.moved source target copied)
      h.selfAudit .reallocate
      return (.ok (some target), h)

end SegregatedFit.Heap
