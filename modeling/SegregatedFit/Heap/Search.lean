import SegregatedFit.Heap.Basic

/-!
# Choosing a free block

Six ways to find a free block of at least a given size. The segregated search relies on the
guarantees of the classes and looks at no sizes as long as a class qualifies. Three searches
go through the blocks by address, two through the buckets. Only the next-fit search changes
the heap, by moving the rover.
-/

namespace SegregatedFit

/-- The first of the smallest blocks of a list. -/
def smallest? : List Block → Option Block
  | [] => none
  | b :: rest =>
    match smallest? rest with
    | none => some b
    | some best => if best.size < b.size then some best else some b

/-- The smallest block of a walk that has room, the first one of equals. A block of exactly
the size is taken at once, and what the walk meets later is of no concern then. -/
def bestFit? (need : Nat) (w : Walk Block) : Except Fault (Option Block) :=
  match w.items.find? fun b => b.size == need with
  | some b => .ok (some b)
  | none => do return smallest? ((← w.toExcept).filter (Block.holds need))

/-- The newest block of the first bucket from a class on that is not empty. -/
def Buckets.headFrom? (s : Buckets) (c : SizeClass) : Option (SizeClass × Nat) :=
  (SizeClass.all.drop c.val).findSome? fun c => (s.head c).map fun block => (c, block)

namespace Heap

/-- The block by class alone, or by size from the last bucket when no class qualifies. -/
def segregatedFit (h : Heap) (need : Nat) : Run (Option Nat) :=
  match SizeClass.qualifying? need with
  | none => do
    let found ← (h.bucketBlocks .last).find? (Block.holds need)
    return found.map Block.start
  | some c =>
    match h.buckets.headFrom? c with
    | none => return none
    | some (bucket, block) => do
      Run.tell (.segregatedFit need bucket.val block)
      return some block

/-- The first block by address. -/
def firstFit (h : Heap) (need : Nat) : Except Fault (Option Nat) := do
  let found ← h.blocks.find? fun b => b.isFree && b.holds need
  return found.map Block.start

/-- The smallest block by address. -/
def bestFit (h : Heap) (need : Nat) : Except Fault (Option Nat) := do
  let found ← bestFit? need (h.blocks.filter Block.isFree)
  return found.map Block.start

/-- The first block after the rover, or else the first one up to the rover. -/
def nextFrom (h : Heap) (need : Nat) : Except Fault (Option Nat) := do
  let fits (b : Block) : Bool := b.isFree && b.holds need
  let start ← h.arena.next h.rover
  match ← (h.arena.blocksFrom start).find? fits with
  | some b => return some b.start
  | none =>
    let found ← (h.blocks.takeWhile fun b => decide (b.start ≤ h.rover)).find? fits
    return found.map Block.start

/-- The first block after the rover, going around. The rover moves to the block, or to the
prologue if there is none. -/
def nextFit (h : Heap) (need : Nat) : Run (Option Nat × Heap) := do
  match ← h.nextFrom need with
  | some block =>
    Run.tell (.nextFit need block)
    return (some block, { h with rover := block })
  | none => return (none, { h with rover := h.prologue })

/-- The first block bucket by bucket. -/
def explicitFirstFit (h : Heap) (need : Nat) : Except Fault (Option Nat) := do
  let found ← h.listedBlocks.find? (Block.holds need)
  return found.map Block.start

/-- The smallest block bucket by bucket. -/
def explicitBestFit (h : Heap) (need : Nat) : Except Fault (Option Nat) := do
  let found ← bestFit? need h.listedBlocks
  return found.map Block.start

/-- A free block with room for `need` bytes, as the policy chooses it. -/
def search (h : Heap) (need : Nat) : Run (Option Nat × Heap) := do
  match h.config.policy with
  | .segregated => return (← h.segregatedFit need, h)
  | .firstFit => return (← h.firstFit need, h)
  | .bestFit => return (← h.bestFit need, h)
  | .nextFit => h.nextFit need
  | .explicitFirstFit => return (← h.explicitFirstFit need, h)
  | .explicitBestFit => return (← h.explicitBestFit need, h)

end Heap

end SegregatedFit
