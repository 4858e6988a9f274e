import SegregatedFit.Bytes
import SegregatedFit.Failure
import SegregatedFit.LittleEndian

/-!
# Memory

Where the bytes of a heap come from. Memory only ever grows, up to a limit fixed at the
start, and new bytes are zero. There are two kinds: a buffer that gets longer, and a region
that is set aside as a whole and of which more and more is granted. Both look the same
through `size`, `limit`, `read` and `write`.
-/

namespace SegregatedFit

/-- The sizes of buffers are below this bound. -/
abbrev bufferBound : Nat := 9223372036854775808

/-- The largest region that can be set aside in whole granules. -/
abbrev regionBound : Nat := 9223372036854775792

/-- A buffer that gets longer, and the length at which it stops. -/
structure Growable where
  /-- The bytes so far. -/
  bytes : ByteArray
  /-- The greatest length. -/
  limit : Nat
  size_le_limit : bytes.size ≤ limit
  limit_lt : limit < bufferBound

/-- A region that exists as a whole from the start. -/
structure Reserved where
  /-- The cells up to the last one that was written; all others hold zero. -/
  cells : ByteArray
  /-- How many cells are granted. -/
  granted : Nat
  /-- How many cells there are. -/
  limit : Nat
  granted_le_limit : granted ≤ limit
  limit_le : limit ≤ regionBound

/-- The bytes that a heap lives in. -/
inductive Memory where
  /-- A buffer that gets longer. -/
  | growable (buffer : Growable)
  /-- A region of which more and more is granted. -/
  | reserved (region : Reserved)

namespace Memory

/-- An empty buffer of a given limit, if there can be one. -/
def ofLimit (limit : Nat) : Except Fault Memory :=
  if h : limit < bufferBound then
    .ok (.growable ⟨ByteArray.empty, limit, Nat.zero_le _, h⟩)
  else .error .overflow

/-- A region of a given limit, if the host has room for it. -/
def reserve (room limit : Nat) : Except GrowthError Memory :=
  if h : limit ≤ regionBound ∧ limit ≤ room then
    .ok (.reserved ⟨ByteArray.empty, 0, limit, Nat.zero_le _, h.1⟩)
  else .error (.unreservable limit)

/-- How many bytes are granted. -/
def size : Memory → Nat
  | growable m => m.bytes.size
  | reserved m => m.granted

/-- How many bytes can be granted. -/
def limit : Memory → Nat
  | growable m => m.limit
  | reserved m => m.limit

/-- How many bytes can be touched: a region has all of its cells from the start. -/
def extent : Memory → Nat
  | growable m => m.bytes.size
  | reserved m => m.limit

/-- The byte at a position, zero where there is none. -/
def read : Memory → Nat → UInt8
  | growable m, i => Bytes.read m.bytes i
  | reserved m, i => Bytes.read m.cells i

/-- Writes `count` bytes from `start` on, the one at distance `i` being `f i`, as far as
there are bytes. -/
def write (m : Memory) (start count : Nat) (f : Nat → UInt8) : Memory :=
  match m with
  | growable ⟨bytes, limit, hsize, hlimit⟩ =>
    growable ⟨Bytes.write bytes start count f, limit, by simpa using hsize, hlimit⟩
  | reserved ⟨cells, granted, limit, hgranted, hlimit⟩ =>
    let inside := min count (limit - start)
    let cells := Bytes.pad cells (start + inside - cells.size)
    reserved ⟨Bytes.write cells start inside f, granted, limit, hgranted, hlimit⟩

/-- Memory with more bytes granted, which must be left below the limit. -/
def grant (m : Memory) (amount : Nat) (h : amount ≤ m.limit - m.size) : Memory :=
  match m, h with
  | growable ⟨bytes, limit, hsize, hlimit⟩, h =>
    growable ⟨Bytes.pad bytes amount, limit, by
      rw [Bytes.size_pad]; exact Nat.add_le_of_le_sub' hsize h, hlimit⟩
  | reserved ⟨cells, granted, limit, hgranted, hlimit⟩, h =>
    reserved ⟨cells, granted + amount, limit, Nat.add_le_of_le_sub' hgranted h, hlimit⟩

/-- Grants more bytes and answers where they begin, or says how many are left. -/
def extend (m : Memory) (amount : Nat) : Except GrowthError Nat × Memory :=
  if h : amount ≤ m.limit - m.size then (.ok m.size, m.grant amount h)
  else (.error (.exhausted amount (m.limit - m.size)), m)

/-- The word that starts at a position. -/
def wordAt (m : Memory) (offset : Nat) : Nat :=
  LittleEndian.decode (fun k => m.read (offset + k)) wordBytes

/-- Stores a word at a position. -/
def putWord (m : Memory) (offset value : Nat) : Memory :=
  m.write offset wordBytes (LittleEndian.digit value)

/-- A memory never outgrows its limit. -/
theorem size_le_limit (m : Memory) : m.size ≤ m.limit := by
  cases m with
  | growable m => exact m.size_le_limit
  | reserved m => exact m.granted_le_limit

/-- The limit is below the size that no buffer can have. -/
theorem limit_lt (m : Memory) : m.limit < bufferBound := by
  cases m with
  | growable m => exact m.limit_lt
  | reserved m => exact Nat.lt_of_le_of_lt m.limit_le (by decide)

/-- There are at least as many bytes as are handed out. -/
theorem size_le_extent (m : Memory) : m.size ≤ m.extent := by
  cases m with
  | growable m => exact Nat.le_refl _
  | reserved m => exact m.granted_le_limit

/-- Writing does not change how much is handed out. -/
@[simp] theorem size_write (m : Memory) (start count : Nat) (f : Nat → UInt8) :
    (m.write start count f).size = m.size := by
  cases m with
  | growable m => exact Bytes.size_write ..
  | reserved m => rfl

/-- Writing does not move the limit. -/
@[simp] theorem limit_write (m : Memory) (start count : Nat) (f : Nat → UInt8) :
    (m.write start count f).limit = m.limit := by
  cases m <;> rfl

/-- A write changes the bytes of its range, as far as they exist, and no others. -/
theorem read_write (m : Memory) (start count : Nat) (f : Nat → UInt8) (j : Nat) :
    (m.write start count f).read j =
      if start ≤ j ∧ j < start + count ∧ j < m.extent then f (j - start) else m.read j := by
  cases m with
  | growable m => exact Bytes.read_write ..
  | reserved m =>
    simp only [write, read, extent, Bytes.read_write, Bytes.read_pad, Bytes.size_pad]
    congr 1
    apply propext
    constructor
    · rintro ⟨hstart, hcount, -⟩
      omega
    · rintro ⟨hstart, hcount, hlimit⟩
      omega

/-- A grant hands out the amount asked for. -/
@[simp] theorem size_grant (m : Memory) (amount : Nat) (h : amount ≤ m.limit - m.size) :
    (m.grant amount h).size = m.size + amount := by
  cases m with
  | growable m => exact Bytes.size_pad ..
  | reserved m => rfl

/-- A grant does not move the limit. -/
@[simp] theorem limit_grant (m : Memory) (amount : Nat) (h : amount ≤ m.limit - m.size) :
    (m.grant amount h).limit = m.limit := by
  cases m <;> rfl

/-- Granting writes nothing. -/
@[simp] theorem read_grant (m : Memory) (amount : Nat) (h : amount ≤ m.limit - m.size)
    (j : Nat) : (m.grant amount h).read j = m.read j := by
  cases m with
  | growable m => exact Bytes.read_pad ..
  | reserved m => rfl

/-- A stored word is read back. -/
theorem wordAt_putWord (m : Memory) {offset : Nat} (value : Nat)
    (h : offset + wordBytes ≤ m.extent) :
    (m.putWord offset value).wordAt offset = value % wordLimit := by
  rw [← show 1 <<< (8 * wordBytes) = wordLimit from rfl, ← LittleEndian.decode_digit]
  refine LittleEndian.decode_congr fun k hk => ?_
  rw [putWord, read_write, if_pos (by unfold wordBytes at *; omega), Nat.add_sub_cancel_left]

end Memory

end SegregatedFit
