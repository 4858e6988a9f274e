import SegregatedFit.Memory
import SegregatedFit.Run

/-!
# The arena

The arena is the memory that a heap divides into blocks, with a count of the bytes that it
was granted. It grows by whole granules. Bytes and words are only reached inside the granted
part: anything else is a fault, and `word?` tells beforehand.
-/

namespace SegregatedFit

/-- Memory, and how much of it was granted through the arena. -/
structure Arena where
  /-- Where the bytes are. -/
  memory : Memory
  /-- The sum of all growth. -/
  granted : Nat

namespace Arena

/-- An arena that was granted nothing yet. -/
def ofMemory (memory : Memory) : Arena := ⟨memory, 0⟩

/-- How many bytes there are. -/
def size (a : Arena) : Nat := a.memory.size

/-- Grows by whole granules and answers where the new bytes begin. -/
def grow (a : Arena) (amount : Nat) : Run (Except GrowthError Nat × Arena) :=
  if amount % granule = 0 then
    let ⟨memory, granted⟩ := a
    match memory.extend amount with
    | (.ok base, memory) => do
      Run.tell (.arenaGrown base amount (granted + amount))
      return (.ok base, ⟨memory, granted + amount⟩)
    | (.error cause, memory) => return (.error cause, ⟨memory, granted⟩)
  else return (.error (.misaligned amount), a)

/-- The word at an offset, unless it reaches outside the arena. -/
def word? (a : Arena) (offset : Nat) : Option Nat :=
  if offset + wordBytes ≤ a.size then some (a.memory.wordAt offset) else none

/-- The word at an offset, which must lie inside the arena. -/
def word (a : Arena) (offset : Nat) : Except Fault Nat :=
  if offset + wordBytes ≤ a.size then .ok (a.memory.wordAt offset) else .error .outOfRange

/-- Stores a word at an offset, which must lie inside the arena. -/
def put (a : Arena) (offset value : Nat) : Except Fault Arena :=
  if offset + wordBytes ≤ a.size then
    let ⟨memory, granted⟩ := a
    .ok ⟨memory.putWord offset value, granted⟩
  else .error .outOfRange

/-- The bytes of a range, which must lie inside the arena. -/
def slice (a : Arena) (start count : Nat) : Except Fault ByteArray :=
  if start + count ≤ a.size then
    .ok (Bytes.tabulate count fun i => a.memory.read (start + i))
  else .error .outOfRange

/-- Writes a range, which must lie inside the arena. -/
def write (a : Arena) (start count : Nat) (f : Nat → UInt8) : Except Fault Arena :=
  if start + count ≤ a.size then
    let ⟨memory, granted⟩ := a
    .ok ⟨memory.write start count f, granted⟩
  else .error .outOfRange

/-- Copies a range to another place, as it was before the first byte is copied. -/
def copy (a : Arena) (source target count : Nat) : Except Fault Arena :=
  if source + count ≤ a.size then
    let before := a.memory
    a.write target count fun i => before.read (source + i)
  else .error .outOfRange

/-- All bytes. -/
def bytes (a : Arena) : ByteArray := Bytes.tabulate a.size a.memory.read

/-- A word can be had in advance exactly where reading it is no fault. -/
theorem word?_eq_some_iff {a : Arena} {offset w : Nat} :
    a.word? offset = some w ↔ a.word offset = .ok w := by
  unfold word? word
  split <;> simp

/-- A word is read exactly if all its eight bytes lie in the arena, and it is what they encode. -/
theorem word_eq_ok_iff {a : Arena} {offset w : Nat} :
    a.word offset = .ok w ↔ offset + wordBytes ≤ a.size ∧ w = a.memory.wordAt offset := by
  unfold word
  split
  · next h => simp [h, eq_comm]
  · next h => simp [h]

/-- A word that ends inside the arena is read. -/
theorem word_of_le {a : Arena} {offset : Nat} (h : offset + 8 ≤ a.size) :
    a.word offset = .ok (a.memory.wordAt offset) :=
  if_pos h

/-- A word is stored exactly if it fits, and then only the memory changes. -/
theorem put_eq_ok_iff {a b : Arena} {offset value : Nat} :
    a.put offset value = .ok b ↔
      offset + wordBytes ≤ a.size ∧ b = ⟨a.memory.putWord offset value, a.granted⟩ := by
  unfold put
  split
  · next h => simp [h, eq_comm]
  · next h => simp [h]

/-- A run of bytes is written exactly if it fits, and then only the memory changes. -/
theorem write_eq_ok_iff {a b : Arena} {start count : Nat} {f : Nat → UInt8} :
    a.write start count f = .ok b ↔
      start + count ≤ a.size ∧ b = ⟨a.memory.write start count f, a.granted⟩ := by
  unfold write
  split
  · next h => simp [h, eq_comm]
  · next h => simp [h]

/-- Storing a word does not change the size of the arena. -/
@[simp] theorem size_putWord (a : Arena) (offset value granted : Nat) :
    size ⟨a.memory.putWord offset value, granted⟩ = a.size :=
  Memory.size_write ..

/-- Storing a word changes its eight bytes and no others. -/
theorem read_of_put {a b : Arena} {offset value : Nat} (h : a.put offset value = .ok b) (j : Nat) :
    b.memory.read j =
      if offset ≤ j ∧ j < offset + wordBytes then LittleEndian.digit value (j - offset)
      else a.memory.read j := by
  obtain ⟨hin, rfl⟩ := put_eq_ok_iff.mp h
  have hextent := a.memory.size_le_extent
  have hsize : a.memory.size = a.size := rfl
  rw [Memory.putWord, Memory.read_write]
  congr 1
  apply propext
  constructor
  · rintro ⟨hlow, hhigh, -⟩
    exact ⟨hlow, hhigh⟩
  · rintro ⟨hlow, hhigh⟩
    exact ⟨hlow, hhigh, by omega⟩

/-- A stored word is read back, reduced to its eight bytes. -/
theorem word_of_put {a b : Arena} {offset value : Nat} (h : a.put offset value = .ok b) :
    b.word offset = .ok (value % wordLimit) := by
  obtain ⟨hin, rfl⟩ := put_eq_ok_iff.mp h
  have hextent : offset + wordBytes ≤ a.memory.extent :=
    Nat.le_trans hin a.memory.size_le_extent
  rw [word_eq_ok_iff, size_putWord]
  exact ⟨hin, (Memory.wordAt_putWord a.memory value hextent).symm⟩

end Arena

end SegregatedFit
