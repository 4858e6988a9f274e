import SegregatedFit.Heap.Basic

/-!
# Merging freed blocks

A block that becomes free is merged at once with the free blocks beside it, so that no two
free blocks lie side by side. The block below is found by its footer and the block above by
the freed block's own size. The merged block is not yet filed.
-/

namespace SegregatedFit

namespace Arena

/-- The block below, if it is free. A footer of size zero leads to no block. -/
def freeBelow (a : Arena) (block : Nat) : Except Fault (Option Block) := do
  let below ← a.previous block
  if below = block ∨ (← a.footerBelow block).allocated then return none
  else return some (← a.block below)

/-- The block above, if it is free. -/
def freeAbove (a : Arena) (block : Nat) : Except Fault (Option Block) := do
  let above ← a.block (← a.next block)
  return if above.isFree then some above else none

end Arena

namespace Heap

/-- Makes one free block out of a block and the free blocks beside it: these leave their
buckets, and a rover on any of them moves to the start of the whole. -/
def fuse (h : Heap) (block : Nat) (beside : List Nat) (start size : Nat) :
    Except Fault Heap := do
  let ⟨arena, buckets, config, prologue, rover⟩ := h
  let buckets ← beside.foldlM (fun s b => return (← s.erase b).2) buckets
  let arena ← arena.stamp start (.free size)
  let rover := if rover = block ∨ rover ∈ beside then start else rover
  return ⟨arena, buckets, config, prologue, rover⟩

/-- Merges a freed block with the free blocks beside it and answers where the whole begins. -/
def coalesce (h : Heap) (block : Nat) : Run (Nat × Heap) := do
  let below ← h.arena.freeBelow block
  let above ← h.arena.freeAbove block
  let size ← h.arena.sizeOf block
  match below, above with
  | none, none => return (block, h)
  | none, some above =>
    let size ← Word.add size above.size
    let h ← h.fuse block [above.start] block size
    Run.tell (.mergedAbove block above.start size)
    return (block, h)
  | some below, none =>
    let size ← Word.add size below.size
    let h ← h.fuse block [below.start] below.start size
    Run.tell (.mergedBelow block below.start size)
    return (below.start, h)
  | some below, some above =>
    let size ← Word.add size (← Word.add below.size above.size)
    let h ← h.fuse block [below.start, above.start] below.start size
    Run.tell (.mergedBoth block below.start above.start size)
    return (below.start, h)

end Heap

end SegregatedFit
