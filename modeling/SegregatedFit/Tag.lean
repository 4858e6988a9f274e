import SegregatedFit.Layout

/-!
# Boundary tags

A tag is one word that holds a size and an allocated bit. The size is meant to be a
multiple of eight, so the bit takes the place of its lowest bit. Reading a tag is defined on
every word, whoever wrote it.
-/

namespace SegregatedFit

/-- A size and whether the block of that size is allocated. -/
structure Tag where
  /-- The bytes of the block, header and footer included. -/
  size : Nat
  /-- Whether the block is handed out. -/
  allocated : Bool
  deriving DecidableEq

namespace Tag

/-- The word of a tag: its size, with the lowest bit set for an allocated block. -/
def toWord (t : Tag) : Nat := if t.allocated then t.size / 2 * 2 + 1 else t.size

/-- The tag in a word: the lowest bit is the flag, and the size drops the lowest three. -/
def ofWord (w : Nat) : Tag := ⟨w - w % 8, w % 2 == 1⟩

/-- A tag in use. -/
def used (size : Nat) : Tag := ⟨size, true⟩

/-- A tag of free space. -/
def free (size : Nat) : Tag := ⟨size, false⟩

/-- The tag of the one-word block in front of all others. -/
def prologue : Tag := used wordBytes

/-- The tag behind the last block. -/
def epilogue : Tag := used 0

/-- Reading a tag gives back what was written, for sizes that are multiples of eight. -/
theorem ofWord_toWord {t : Tag} (ht : t.size % wordBytes = 0) : ofWord t.toWord = t := by
  obtain ⟨size, allocated⟩ := t
  have hsize : size % 8 = 0 := ht
  cases allocated
  · have hbit : size % 2 = 0 := by omega
    simp [ofWord, toWord, hsize, hbit]
  · have hword : size / 2 * 2 + 1 = size + 1 := by omega
    have hlow : (size + 1) % 8 = 1 := by omega
    have hbit : (size + 1) % 2 = 1 := by omega
    simp [ofWord, toWord, hword, hlow, hbit]

/-- A tag whose size fits into a word fits into a word itself. -/
theorem toWord_lt {t : Tag} (ht : t.size < 18446744073709551616) : t.toWord < wordLimit := by
  unfold toWord
  split
  · unfold wordLimit at *
    omega
  · exact ht

/-- The size read from a word is a multiple of the word size. -/
theorem size_ofWord_mod (w : Nat) : (ofWord w).size % wordBytes = 0 := by
  show (w - w % 8) % 8 = 0
  omega

end Tag

end SegregatedFit
