import SegregatedFit.Heap.Basic

/-!
# Totals

The bytes and the number of the free blocks and of the blocks in use, added up over the
blocks in address order.
-/

namespace SegregatedFit

/-- What the blocks of a heap add up to. -/
structure Totals where
  /-- The bytes of the arena. -/
  heapBytes : Nat
  /-- The bytes of the free blocks. -/
  freeBytes : Nat
  /-- The bytes of the blocks in use. -/
  allocatedBytes : Nat
  /-- The number of free blocks. -/
  freeBlocks : Nat
  /-- The number of blocks in use. -/
  allocatedBlocks : Nat
  deriving DecidableEq

/-- The bytes of a list of blocks. -/
def Block.totalSize (bs : List Block) : Nat := bs.foldr (fun b total => b.size + total) 0

/-- No blocks have the size zero together. -/
@[simp] theorem Block.totalSize_nil : Block.totalSize [] = 0 := rfl

/-- The sizes of the blocks are added from the first one on. -/
@[simp] theorem Block.totalSize_cons (b : Block) (bs : List Block) :
    Block.totalSize (b :: bs) = b.size + Block.totalSize bs := rfl

/-- The totals of a heap. -/
def Heap.totals (h : Heap) : Except Fault Totals := do
  let (free, allocated) := (← h.blocks.toExcept).partition Block.isFree
  return {
    heapBytes := h.arena.size
    freeBytes := ← Word.ofNat (Block.totalSize free)
    allocatedBytes := ← Word.ofNat (Block.totalSize allocated)
    freeBlocks := free.length
    allocatedBlocks := allocated.length }

end SegregatedFit
