import SegregatedFit.Arena

/-!
# The tags of blocks

The header of a block is the word before its payload. Its size leads to the footer and to
the block above, and the footer of the block below leads back to that block's start. Nothing
is assumed about the bytes: each step is a computation that may end in a fault.
-/

namespace SegregatedFit.Arena

/-- The tag stored at an offset. -/
def tagAt (a : Arena) (offset : Nat) : Except Fault Tag := do
  return Tag.ofWord (← a.word offset)

/-- The header of a block. -/
def header (a : Arena) (block : Nat) : Except Fault Tag := do
  a.tagAt (← headerOffset block)

/-- The size that a block's header states. -/
def sizeOf (a : Arena) (block : Nat) : Except Fault Nat := do
  return (← a.header block).size

/-- Whether a block's header says that it is in use. -/
def isAllocated (a : Arena) (block : Nat) : Except Fault Bool := do
  return (← a.header block).allocated

/-- Where a block's footer is, by the size in its header. -/
def footerOffset (a : Arena) (block : Nat) : Except Fault Nat := do
  Word.sub (← Word.add block (← a.sizeOf block)) granule

/-- The footer of a block. -/
def footer (a : Arena) (block : Nat) : Except Fault Tag := do
  a.tagAt (← a.footerOffset block)

/-- The block above, by the size in the header. -/
def next (a : Arena) (block : Nat) : Except Fault Nat := do
  Word.add block (← a.sizeOf block)

/-- The tag that ends right before a block's header: the footer of the block below. -/
def footerBelow (a : Arena) (block : Nat) : Except Fault Tag := do
  a.tagAt (← Word.sub block granule)

/-- The block below, by the size in its footer. -/
def previous (a : Arena) (block : Nat) : Except Fault Nat := do
  Word.sub block (← a.footerBelow block).size

/-- Puts one tag into the header and the footer of a block of the tag's size. -/
def stamp (a : Arena) (block : Nat) (tag : Tag) : Except Fault Arena := do
  let headerAt ← headerOffset block
  let a ← a.put headerAt tag.toWord
  let footerAt ← Word.sub (← Word.add block tag.size) granule
  a.put footerAt tag.toWord

/-- Puts the tag that ends all blocks into the header slot of an offset. -/
def stampEnd (a : Arena) (offset : Nat) : Except Fault Arena := do
  let headerAt ← headerOffset offset
  a.put headerAt Tag.epilogue.toWord

/-- A header can be read exactly from one word up to the end of the arena. -/
theorem header_eq_ok_iff {a : Arena} {block : Nat} {t : Tag} :
    a.header block = .ok t ↔
      wordBytes ≤ block ∧ block ≤ a.size ∧
        t = Tag.ofWord (a.memory.wordAt (block - wordBytes)) := by
  unfold header tagAt headerOffset word Word.sub
  by_cases hlow : wordBytes ≤ block
  · by_cases hhigh : block ≤ a.size
    · simp [hlow, hhigh, bind, Except.bind, pure, Except.pure, eq_comm]
    · simp [hlow, hhigh, bind, Except.bind]
  · simp [hlow, bind, Except.bind]

/-- The header of a block is read if the eight bytes before the block lie in the arena. -/
theorem header_of_le {a : Arena} {block : Nat} (hlow : 8 ≤ block) (hhigh : block ≤ a.size) :
    a.header block = .ok (Tag.ofWord (a.memory.wordAt (block - 8))) :=
  header_eq_ok_iff.mpr ⟨hlow, hhigh, rfl⟩

/-- A tag can be put around a block exactly when both of its words lie in the arena. -/
theorem stamp_eq_ok_iff {a b : Arena} {block : Nat} {t : Tag} :
    a.stamp block t = .ok b ↔
      (wordBytes ≤ block ∧ block ≤ a.size) ∧
        (block + t.size < wordLimit ∧ granule ≤ block + t.size ∧
          block + t.size ≤ a.size + wordBytes) ∧
        b = ⟨(a.memory.putWord (block - wordBytes) t.toWord).putWord
          (block + t.size - granule) t.toWord, a.granted⟩ := by
  have hgranule : granule = 2 * wordBytes := rfl
  simp only [stamp, headerOffset, Fault.bind_eq_ok_iff, Word.sub_eq_ok_iff, Word.add_eq_ok_iff,
    put_eq_ok_iff]
  constructor
  · rintro ⟨_, ⟨hlow, rfl⟩, _, ⟨hin, rfl⟩, _, ⟨hsum, rfl⟩, _, ⟨hfoot, rfl⟩, hend, rfl⟩
    rw [size_putWord] at hend
    exact ⟨⟨hlow, by omega⟩, ⟨hsum, hfoot, by omega⟩, rfl⟩
  · rintro ⟨⟨hlow, hin⟩, ⟨hsum, hfoot, hend⟩, rfl⟩
    refine ⟨_, ⟨hlow, rfl⟩, _, ⟨by omega, rfl⟩, _, ⟨hsum, rfl⟩, _, ⟨hfoot, rfl⟩, ?_, rfl⟩
    rw [size_putWord]
    omega

end SegregatedFit.Arena
