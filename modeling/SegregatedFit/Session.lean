import SegregatedFit.Heap.Allocation

/-!
# Sessions

A session serves callers that know memory by addresses, where zero stands for no address.
It has one heap at a time, in a region that the host sets aside, and shows the offset of a
block as the address at which its payload lies. Refusals are shown as zero or not at all.
-/

namespace SegregatedFit

/-- What a session finds on its host. -/
structure Host where
  /-- The address at which a region begins. -/
  base : Nat
  /-- The largest region that can be set aside. -/
  room : Nat
  deriving DecidableEq

/-- The heap of a caller, once it is set up. -/
structure Session where
  /-- Where the heap lives. -/
  host : Host
  /-- The heap, if there is one yet. -/
  heap : Option Heap

namespace Session

/-- The largest number of violations that can be reported. -/
abbrev reportLimit : Nat := 2147483647

/-- A session without a heap. -/
def start (host : Host) : Session := ⟨host, none⟩

/-- The address of an offset, or zero for none. -/
def toAddress (host : Host) : Option Nat → Nat
  | none => 0
  | some offset => host.base + offset

/-- The offset of an address, counted around the end of the address space. -/
def toOffset (host : Host) (address : Nat) : Option Nat :=
  if address = 0 then none else some ((address + wordLimit - host.base) % wordLimit)

/-- Sets up a heap in a new region, with all settings at their defaults. -/
def createHeap (host : Host) : Run (Answer Heap) := do
  let config : Config := {}
  match Memory.reserve host.room config.ceiling with
  | .error cause => return .error (.outOfMemory config.ceiling cause)
  | .ok memory => Heap.setup memory config

/-- Starts again with a new heap. Answers 0, or -1 if there is none, and then the heap stays. -/
def setup (s : Session) : Run (Int × Session) := do
  match ← createHeap s.host with
  | .ok h => return (0, { s with heap := some h })
  | .error e =>
    Run.tell (.setupFailed e)
    return (-1, s)

/-- The address to show for an answer. -/
def show? (host : Host) : Answer (Option Nat) → Nat
  | .ok pointer => toAddress host pointer
  | .error _ => 0

/-- The address of a new block, or zero. -/
def malloc (s : Session) (request : Nat) : Run (Nat × Session) := do
  match s with
  | ⟨host, none⟩ => return (0, ⟨host, none⟩)
  | ⟨host, some h⟩ =>
    let (answer, h) ← h.allocate request
    return (show? host answer, ⟨host, some h⟩)

/-- Gives back the block at an address. An address that is not in use is told. -/
def free (s : Session) (address : Nat) : Run Session := do
  match s with
  | ⟨host, none⟩ => return ⟨host, none⟩
  | ⟨host, some h⟩ =>
    match ← h.release (toOffset host address) with
    | (.ok (), h) => return ⟨host, some h⟩
    | (.error e, h) =>
      Run.tell (.freeRefused e)
      return ⟨host, some h⟩

/-- The address of a new block with the payload of an old one, or zero. -/
def realloc (s : Session) (address request : Nat) : Run (Nat × Session) := do
  match s with
  | ⟨host, none⟩ => return (0, ⟨host, none⟩)
  | ⟨host, some h⟩ =>
    let (answer, h) ← h.reallocate (toOffset host address) request
    return (show? host answer, ⟨host, some h⟩)

/-- How many violations an audit finds, or -1 without a heap. -/
def check (s : Session) (verbose : Bool) : Run Int := do
  match s.heap with
  | none => return -1
  | some h => return Int.ofNat (min (← h.audit verbose).length reportLimit)

/-- The position in the region of a range of addresses, if there is a heap and the range lies
in its region. -/
def locate (s : Session) (address count : Nat) : Except Fault Nat :=
  match s.heap with
  | none => .error .outOfRange
  | some h =>
    if s.host.base ≤ address ∧ address - s.host.base + count ≤ h.arena.memory.limit then
      .ok (address - s.host.base)
    else .error .outOfRange

/-- The bytes from an address on, granted or not. -/
def load (s : Session) (address count : Nat) : Except Fault ByteArray := do
  let position ← s.locate address count
  match s.heap with
  | none => .error .outOfRange
  | some h => return Bytes.tabulate count fun i => h.arena.memory.read (position + i)

/-- Writes bytes from an address on, granted or not. -/
def store (s : Session) (address count : Nat) (f : Nat → UInt8) : Except Fault Session := do
  let position ← s.locate address count
  match s with
  | ⟨_, none⟩ => .error .outOfRange
  | ⟨host, some ⟨⟨memory, granted⟩, buckets, config, prologue, rover⟩⟩ =>
    return ⟨host, some ⟨⟨memory.write position count f, granted⟩, buckets, config, prologue, rover⟩⟩

end Session

end SegregatedFit
