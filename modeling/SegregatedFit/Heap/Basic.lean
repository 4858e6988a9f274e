import SegregatedFit.Arena.Blocks
import SegregatedFit.Buckets

/-!
# Heaps

A heap is an arena divided into blocks, and the buckets of the free ones. In front of the
blocks lies the prologue, a one-word block in use, and behind them a tag of size zero in
use, so that every block has a neighbour on both sides that is never merged.
-/

namespace SegregatedFit

/-- An arena with its blocks, its free blocks by bucket, and its settings. -/
structure Heap where
  /-- The bytes. -/
  arena : Arena
  /-- The free blocks. -/
  buckets : Buckets
  /-- The settings. -/
  config : Config
  /-- The offset of the prologue. -/
  prologue : Nat
  /-- The block that the next-fit search goes on after. -/
  rover : Nat

/-- What a caller is told: a value, or why there is none. -/
abbrev Answer (α : Type) : Type := Except HeapError α

/-- The bytes of the block that serves a request, if there can be such a block. -/
def blockFor (request : Nat) : Answer Nat :=
  if blockSize request < wordLimit then .ok (blockSize request) else .error (.overflow request)

namespace Heap

/-- The offset of the first block. -/
def first (h : Heap) : Nat := h.prologue + wordBytes

/-- All blocks in address order. -/
def blocks (h : Heap) : Walk Block := h.arena.blocksFrom h.first

/-- The blocks of one bucket as their headers describe them. -/
def bucketBlocks (h : Heap) (c : SizeClass) : Walk Block :=
  (h.buckets.walk c).attempt h.arena.block

/-- The blocks of all buckets as their headers describe them. -/
def listedBlocks (h : Heap) : Walk Block := h.buckets.walkAll.attempt h.arena.block

end Heap

end SegregatedFit
