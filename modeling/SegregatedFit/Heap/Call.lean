import SegregatedFit.Heap.Allocation
import SegregatedFit.Heap.Totals

/-!
# Calls

The operations on a heap as data, so that sequences of them can be run and spoken of. Each
call has one reply, and a sequence is run up to the first fault.
-/

namespace SegregatedFit

/-- One operation and its arguments. -/
inductive Call where
  /-- Asks for a block. -/
  | allocate (request : Nat)
  /-- Gives a block back. -/
  | release (pointer : Option Nat)
  /-- Moves a payload to a block for another request. -/
  | reallocate (pointer : Option Nat) (request : Nat)
  /-- Reads a payload. -/
  | read (offset : Nat)
  /-- Writes into a payload from a position on, as much as fits. -/
  | write (offset position count : Nat) (f : Nat → UInt8)
  /-- Asks what is wrong. -/
  | audit (verbose : Bool)
  /-- Asks for the totals. -/
  | totals

/-- What a call is told. -/
inductive Reply where
  /-- The offset of a block, or that there is none. -/
  | pointer (answer : Answer (Option Nat))
  /-- That it is done. -/
  | done (answer : Answer Unit)
  /-- A payload. -/
  | bytes (answer : Answer ByteArray)
  /-- How many bytes were written. -/
  | written (answer : Answer Nat)
  /-- What is wrong. -/
  | violations (found : List Violation)
  /-- The totals. -/
  | totals (totals : Totals)

namespace Heap

/-- Does one call. -/
def perform (h : Heap) : Call → Run (Reply × Heap)
  | .allocate request => do
    let (answer, h) ← h.allocate request
    return (.pointer answer, h)
  | .release pointer => do
    let (answer, h) ← h.release pointer
    return (.done answer, h)
  | .reallocate pointer request => do
    let (answer, h) ← h.reallocate pointer request
    return (.pointer answer, h)
  | .read offset => return (.bytes (← h.payload offset), h)
  | .write offset position count f => do
    let (answer, h) ← h.writePayload offset position count f
    return (.written answer, h)
  | .audit verbose => return (.violations (← h.audit verbose), h)
  | .totals => return (.totals (← h.totals), h)

/-- Does one call after the other. -/
def performAll (h : Heap) : List Call → Run (List Reply × Heap)
  | [] => return ([], h)
  | call :: rest => do
    let (reply, h) ← h.perform call
    let (replies, h) ← h.performAll rest
    return (reply :: replies, h)

end Heap

end SegregatedFit
