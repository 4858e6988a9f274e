import SegregatedFit.Layout

/-!
# Configuration

What a heap is set up with: how much it grows at a time, how far it may grow, how it
chooses among its free blocks, and whether it audits itself after each operation.
-/

namespace SegregatedFit

/-- How a free block is chosen for a request. -/
inductive Policy where
  /-- The newest block of the first class that guarantees the size. -/
  | segregated
  /-- The first block by address that is large enough. -/
  | firstFit
  /-- The smallest block that is large enough, lowest address first. -/
  | bestFit
  /-- The first block by address after the one chosen last, going around. -/
  | nextFit
  /-- The first block that is large enough, bucket by bucket. -/
  | explicitFirstFit
  /-- The smallest block that is large enough, bucket by bucket. -/
  | explicitBestFit
  deriving DecidableEq

namespace Policy

/-- All policies. -/
def all : List Policy :=
  [segregated, firstFit, bestFit, nextFit, explicitFirstFit, explicitBestFit]

/-- The name by which a policy is configured and reported. -/
def name : Policy → String
  | segregated => "Segregated"
  | firstFit => "FirstFit"
  | bestFit => "BestFit"
  | nextFit => "NextFit"
  | explicitFirstFit => "ExplicitFirstFit"
  | explicitBestFit => "ExplicitBestFit"

/-- The policy of a given name. -/
def ofName? (text : String) : Option Policy := all.find? fun p => p.name == text

end Policy

/-- The settings of a heap. -/
structure Config where
  /-- The least growth of the heap, and the size of its first free block. -/
  chunk : Nat := defaultChunk
  /-- The most bytes that the heap's memory may have. -/
  ceiling : Nat := defaultCeiling
  /-- How free blocks are chosen. -/
  policy : Policy := .segregated
  /-- Whether every operation is followed by an audit. -/
  audited : Bool := false
  deriving DecidableEq

/-- Settings with a chunk that holds at least one block and fills whole granules. -/
def Config.withChunk (c : Config) (chunk : Nat) : Except Fault Config := do
  let chunk ← Word.ofNat (chunkSize chunk)
  return { c with chunk }

end SegregatedFit
