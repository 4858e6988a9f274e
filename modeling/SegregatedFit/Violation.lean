import SegregatedFit.Layout

/-!
# Violations

What an audit of a heap can find broken: the two sentinels, the tags of a block, the
filing of free blocks, the rover, and the sum of all sizes.
-/

namespace SegregatedFit

/-- One way in which a heap is not what it should be. -/
inductive Violation where
  /-- The word in front of all blocks is not the prologue tag. -/
  | badPrologue (offset : Nat)
  /-- The blocks do not end with the epilogue tag in the last word. -/
  | badEpilogue (offset : Nat)
  /-- Header and footer differ as words. -/
  | tagMismatch (offset header footer : Nat)
  /-- A block starts or ends inside a granule. -/
  | misaligned (offset size : Nat)
  /-- A block is too small, or does not end inside the arena. -/
  | outOfBounds (offset size : Nat)
  /-- Two free blocks lie side by side. -/
  | adjacentFree (first second : Nat)
  /-- A free block has no links. -/
  | unlistedFree (offset : Nat)
  /-- A bucket holds an offset whose tag is not free. -/
  | allocatedListed (bucket offset : Nat)
  /-- A listed block is its own neighbour. -/
  | selfLink (offset : Nat)
  /-- A listed block does not point back to the one before it. -/
  | asymmetricLink (offset : Nat)
  /-- A listed block is in a bucket that its size or its links do not name. -/
  | wrongBucket (offset size bucket : Nat)
  /-- A block is met twice in the buckets. -/
  | listedTwice (offset : Nat)
  /-- The rover is neither the prologue nor a block. -/
  | danglingRover (offset : Nat)
  /-- Blocks and sentinels do not add up to what was granted. -/
  | sizeMismatch (accounted granted : Nat)
  deriving DecidableEq

/-- A word in hexadecimal, with its mark in front. -/
def hexadecimal (w : Nat) : String := "0x" ++ String.ofList (Nat.toDigits 16 w)

/-- The wording of a violation. -/
def Violation.message : Violation → String
  | badPrologue offset => s!"bad prologue tag at offset {offset}"
  | badEpilogue offset => s!"bad epilogue tag at offset {offset}"
  | tagMismatch offset header footer =>
    s!"block {offset}: header {hexadecimal header} does not match footer {hexadecimal footer}"
  | misaligned offset size => s!"block {offset} is not double-word aligned (size {size})"
  | outOfBounds offset size => s!"block {offset} of size {size} does not fit the arena"
  | adjacentFree first second => s!"free blocks {first} and {second} are adjacent"
  | unlistedFree offset => s!"free block {offset} is not in any bucket"
  | allocatedListed bucket offset => s!"bucket {bucket} holds allocated block {offset}"
  | selfLink offset => s!"free block {offset} links to itself"
  | asymmetricLink offset => s!"free block {offset} has asymmetric links"
  | wrongBucket offset size bucket =>
    s!"free block {offset} of size {size} filed in bucket {bucket}"
  | listedTwice offset => s!"free block {offset} is reachable more than once"
  | danglingRover offset => s!"next-fit rover {offset} is not a block boundary"
  | sizeMismatch accounted granted =>
    s!"blocks account for {accounted} bytes but the arena granted {granted}"

end SegregatedFit
