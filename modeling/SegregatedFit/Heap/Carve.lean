import SegregatedFit.Heap.Basic

/-!
# Using a free block

A free block is taken out of its bucket and its lower part put to use. What is left over
becomes a free block of its own when it is large enough for one, and otherwise stays inside
the block in use.
-/

namespace SegregatedFit.Heap

/-- Puts the first `size` bytes of a free block to use. -/
def carve (h : Heap) (block size : Nat) : Run Heap := do
  let ⟨arena, buckets, config, prologue, rover⟩ := h
  let whole ← arena.sizeOf block
  let (_, buckets) ← buckets.erase block
  let remainder ← Word.sub whole size
  if minBlock ≤ remainder then
    let arena ← arena.stamp block (.used size)
    let rest ← arena.next block
    let arena ← arena.stamp rest (.free remainder)
    let buckets ← buckets.push rest remainder
    Run.tell (.split block size rest remainder)
    return ⟨arena, buckets, config, prologue, rover⟩
  else
    let arena ← arena.stamp block (.used whole)
    Run.tell (.usedWhole block size remainder)
    return ⟨arena, buckets, config, prologue, rover⟩

end SegregatedFit.Heap
