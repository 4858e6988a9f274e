import SegregatedFit.Arena.Tags
import SegregatedFit.Walk

/-!
# Blocks in address order

From any start, headers lead from block to block until a tag of size zero. Each step goes
up and a header lies inside the arena, so the walk ends on any bytes: with a zero size, or
with a fault.
-/

namespace SegregatedFit

/-- A block as its header describes it. -/
structure Block where
  /-- The offset of the payload. -/
  start : Nat
  /-- The header. -/
  tag : Tag
  deriving DecidableEq

namespace Block

/-- The bytes of a block. -/
def size (b : Block) : Nat := b.tag.size

/-- Whether a block can be handed out. -/
def isFree (b : Block) : Bool := !b.tag.allocated

/-- Whether a block has room for `need` bytes, header and footer included. -/
def holds (need : Nat) (b : Block) : Bool := decide (need ≤ b.size)

end Block

namespace Arena

/-- The block at an offset. -/
def block (a : Arena) (start : Nat) : Except Fault Block := do
  return ⟨start, ← a.header start⟩

/-- The blocks from an offset on, up to a tag of size zero. -/
def blocksFrom (a : Arena) (start : Nat) : Walk Block :=
  match h : a.header start with
  | .error fault => .broken fault
  | .ok tag =>
    have := (header_eq_ok_iff.mp h).2.1
    match Word.add start tag.size with
    | .error fault => .broken fault
    | .ok _ =>
      if tag.size = 0 then .done
      else .cons ⟨start, tag⟩ (a.blocksFrom (start + tag.size))
termination_by a.size + 1 - start

/-- A walk goes on behind its first block, whose header and end must be words. -/
theorem blocksFrom_of_header {a : Arena} {start : Nat} {t : Tag} (ht : a.header start = .ok t) :
    a.blocksFrom start =
      if start + t.size < wordLimit then
        if t.size = 0 then .done else .cons ⟨start, t⟩ (a.blocksFrom (start + t.size))
      else .broken .overflow := by
  rw [blocksFrom]
  split
  · next fault h =>
    rw [ht] at h
    cases h
  · next tag h =>
    rw [ht] at h
    cases h
    by_cases hend : start + t.size < wordLimit
    · simp [Word.add, Word.ofNat, hend]
    · simp [Word.add, Word.ofNat, hend]

/-- A walk from where no header can be read breaks off at once. -/
theorem blocksFrom_of_error {a : Arena} {start : Nat} {fault : Fault}
    (h : a.header start = .error fault) : a.blocksFrom start = .broken fault := by
  rw [blocksFrom]
  split
  · next other ho =>
    rw [h] at ho
    cases ho
    rfl
  · next tag ho =>
    rw [h] at ho
    cases ho

end Arena

end SegregatedFit
