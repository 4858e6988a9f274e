import SegregatedFit.Heap.Coalesce

/-!
# Growing a heap

New bytes become a free block behind the others: its header takes the place of the tag that
ended the blocks, and a new such tag goes into the last word. The block is merged with a
free block in front of it before it is filed.
-/

namespace SegregatedFit.Heap

/-- Files a free block by the size in its header. -/
def file (h : Heap) (block : Nat) : Except Fault Heap := do
  let ⟨arena, buckets, config, prologue, rover⟩ := h
  let size ← arena.sizeOf block
  let buckets ← buckets.push block size
  return ⟨arena, buckets, config, prologue, rover⟩

/-- Grows by an even number of words and answers the free block at the end. -/
def extend (h : Heap) (words : Nat) : Run (Except GrowthError Nat × Heap) := do
  let words ← Word.ofNat (if words % 2 = 1 then words + 1 else words)
  let size ← Word.mul words wordBytes
  let ⟨arena, buckets, config, prologue, rover⟩ := h
  match ← arena.grow size with
  | (.error cause, arena) => return (.error cause, ⟨arena, buckets, config, prologue, rover⟩)
  | (.ok block, arena) =>
    let arena ← arena.stamp block (.free size)
    let ending ← arena.next block
    let arena ← arena.stampEnd ending
    let (block, h) ← coalesce ⟨arena, buckets, config, prologue, rover⟩ block
    return (.ok block, ← h.file block)

end SegregatedFit.Heap
