import SegregatedFit.Heap.Basic

/-!
# Payloads

An offset that a caller hands in is tested before it is trusted: it must lie on a granule
behind the first header, its header must be that of a block in use inside the arena, and its
footer must agree. The payload of such a block can then be read and written.
-/

namespace SegregatedFit.Heap

/-- The block in use at an offset, if there is one. -/
def resolve (h : Heap) (offset : Nat) : Except Fault (Answer Block) := do
  if offset < h.first ∨ offset % granule ≠ 0 ∨ h.arena.size ≤ offset then
    return .error (.invalidPointer offset)
  let b ← h.arena.block offset
  if b.isFree ∨ b.size < minBlock ∨ h.arena.size < offset + b.size then
    return .error (.invalidPointer offset)
  let footer ← h.arena.word (← h.arena.footerOffset offset)
  if footer ≠ (Tag.used b.size).toWord then
    return .error (.invalidPointer offset)
  return .ok b

/-- The payload of a block in use. -/
def payload (h : Heap) (offset : Nat) : Except Fault (Answer ByteArray) := do
  match ← h.resolve offset with
  | .error e => return .error e
  | .ok b => return .ok (← h.arena.slice offset (← payloadSize b.size))

/-- Writes into the payload of a block in use, from a position on, as much as fits. The byte
at distance `i` from the position is `f i`. Answers how many bytes were written. -/
def writePayload (h : Heap) (offset position count : Nat) (f : Nat → UInt8) :
    Except Fault (Answer Nat × Heap) := do
  match ← h.resolve offset with
  | .error e => return (.error e, h)
  | .ok b =>
    let room ← payloadSize b.size
    let position := min position room
    let count := min count (room - position)
    let ⟨arena, buckets, config, prologue, rover⟩ := h
    let arena ← arena.write (offset + position) count f
    return (.ok count, ⟨arena, buckets, config, prologue, rover⟩)

end SegregatedFit.Heap
