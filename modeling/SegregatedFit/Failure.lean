import SegregatedFit.Layout

/-!
# Failures

The two kinds of failure that a caller sees, with their wording. A `GrowthError` says why
memory cannot grow, and a `HeapError` why a request is refused. Neither changes a heap.
-/

namespace SegregatedFit

/-- Why memory cannot be had. -/
inductive GrowthError where
  /-- Fewer bytes are left below the limit than were asked for. -/
  | exhausted (requested remaining : Nat)
  /-- No region of this size can be set aside. -/
  | unreservable (limit : Nat)
  /-- The arena grows by whole granules only. -/
  | misaligned (requested : Nat)
  deriving DecidableEq

/-- The wording of a growth error. -/
def GrowthError.message : GrowthError → String
  | exhausted requested remaining =>
    s!"arena exhausted: requested {requested} bytes, {remaining} bytes remaining"
  | unreservable limit => s!"cannot reserve a {limit}-byte backing region"
  | misaligned requested =>
    s!"arena growth of {requested} bytes is not a multiple of the double word"

/-- Why a request is refused. -/
inductive HeapError where
  /-- A block of the requested size needs memory that cannot be had. -/
  | outOfMemory (requested : Nat) (cause : GrowthError)
  /-- The offset is not that of an allocated block. -/
  | invalidPointer (offset : Nat)
  /-- No block can be as large as the request needs. -/
  | overflow (size : Nat)
  deriving DecidableEq

/-- The wording of a heap error. -/
def HeapError.message : HeapError → String
  | outOfMemory requested _ =>
    s!"out of memory: cannot grow the arena for a {requested}-byte block"
  | invalidPointer offset => s!"offset {offset} does not name an allocated block"
  | overflow size => s!"request of {size} bytes overflows the maximum block size"

end SegregatedFit
