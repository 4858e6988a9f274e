import SegregatedFit.Word

/-!
# Block layout

A block is named by the offset of its payload. The word before the payload is its header
and the last word of its span is its footer, so a block of `size` bytes at offset `b`
covers the bytes from `b - 8` to `b + size - 8`, and its payload is `size - 16` bytes long.
Blocks are laid out in granules of two words.
-/

namespace SegregatedFit

/-- The bytes of one word. -/
abbrev wordBytes : Nat := 8

/-- Two words: payloads start at multiples of it and block sizes are multiples of it. -/
abbrev granule : Nat := 16

/-- A block is never smaller than header, two link words, one payload word and footer. -/
abbrev minBlock : Nat := 40

/-- Header and footer together. -/
abbrev overhead : Nat := 16

/-- How much the heap grows at a time unless configured otherwise. -/
abbrev defaultChunk : Nat := 4096

/-- How far the heap may grow unless configured otherwise: 20 MiB. -/
abbrev defaultCeiling : Nat := 20971520

/-- The least multiple of the granule that is not below `n`. -/
def roundUp (n : Nat) : Nat := (n + 15) / granule * granule

/-- The payload bytes of a block. -/
def payloadSize (size : Nat) : Except Fault Nat := Word.sub size overhead

/-- The offset of a block's header. -/
def headerOffset (block : Nat) : Except Fault Nat := Word.sub block wordBytes

/-- The bytes a block needs for a payload of `request` bytes. -/
def blockSize (request : Nat) : Nat := roundUp (max (request + overhead) minBlock)

/-- The bytes that the heap really grows by for a configured chunk. -/
def chunkSize (chunk : Nat) : Nat := roundUp (max chunk minBlock)

/-- A block that holds both tags has a payload. -/
theorem payloadSize_of_le {size : Nat} (h : 16 ≤ size) : payloadSize size = .ok (size - 16) :=
  Word.sub_of_le h

/-- A block with a word before it has a header. -/
theorem headerOffset_of_le {block : Nat} (h : 8 ≤ block) : headerOffset block = .ok (block - 8) :=
  Word.sub_of_le h

/-- The footer of a block that ends at an offset begins a granule below. -/
theorem footerOffset_of_le {stop : Nat} (h : 16 ≤ stop) :
    Word.sub stop granule = .ok (stop - 16) :=
  Word.sub_of_le h

/-- Rounding never goes down. -/
theorem le_roundUp (n : Nat) : n ≤ roundUp n := by
  unfold roundUp granule
  omega

/-- A rounded number is a multiple of the granule. -/
theorem roundUp_mod (n : Nat) : roundUp n % granule = 0 := by
  unfold roundUp granule
  omega

/-- Rounding keeps the order. -/
theorem roundUp_mono {m n : Nat} (h : m ≤ n) : roundUp m ≤ roundUp n :=
  Nat.mul_le_mul_right _ (Nat.div_le_div_right (Nat.add_le_add_right h 15))

/-- A multiple of the granule is already rounded. -/
theorem roundUp_eq_self {n : Nat} (hn : n % granule = 0) : roundUp n = n := by
  unfold roundUp granule at *
  omega

end SegregatedFit
