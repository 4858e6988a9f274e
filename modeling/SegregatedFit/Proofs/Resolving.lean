import SegregatedFit.Proofs.Invariant
import SegregatedFit.Heap.Payload

/-!
# Offsets that callers hand in

Whatever an offset is, testing it is no fault, and neither is reading or writing a payload
that passed the test. In a heap in good order every block in use passes, and its payload is
what its bytes say.
-/

namespace SegregatedFit

namespace Heap

variable {h : Heap} {offset : Nat} {b : Block} {bs : List Block} {f : Filing}

/-- The block that the word in front of an offset describes. -/
def blockAt (h : Heap) (offset : Nat) : Block :=
  ⟨offset, Tag.ofWord (h.arena.memory.wordAt (offset - 8))⟩

/-- What is asked of an offset before it is trusted. -/
structure Names (h : Heap) (offset : Nat) : Prop where
  first_le : h.first ≤ offset
  mod : offset % 16 = 0
  lt_size : offset < h.arena.size
  used : (h.blockAt offset).isFree = false
  le_size : 40 ≤ (h.blockAt offset).size
  end_le : offset + (h.blockAt offset).size ≤ h.arena.size
  footer : h.arena.memory.wordAt (offset + (h.blockAt offset).size - 16) =
    (Tag.used (h.blockAt offset).size).toWord

/-- The test of an offset gives an answer for any offset and any bytes. -/
theorem resolve_eq (h : Heap) (offset : Nat) :
    (h.Names offset ∧ h.resolve offset = .ok (.ok (h.blockAt offset))) ∨
      (¬ h.Names offset ∧ h.resolve offset = .ok (.error (.invalidPointer offset))) := by
  have hfirst : h.first = h.prologue + 8 := rfl
  unfold resolve
  -- one case split per test, in the order of `resolve`: each refuses, or makes the next read safe
  by_cases hplace : offset < h.first ∨ offset % granule ≠ 0 ∨ h.arena.size ≤ offset
  · rw [if_pos hplace]
    refine Or.inr ⟨fun hn => ?_, rfl⟩
    have hmod : offset % granule = 0 := hn.mod
    have hlow := hn.first_le
    have hhigh := hn.lt_size
    omega
  rw [if_neg hplace]
  obtain ⟨hlow, hmod, hhigh⟩ : h.first ≤ offset ∧ offset % granule = 0 ∧ offset < h.arena.size := by
    omega
  have hheader : h.arena.header offset = .ok (h.blockAt offset).tag :=
    Arena.header_of_le (by omega) (by omega)
  have hblock : h.arena.block offset = .ok (h.blockAt offset) := Arena.block_of_header hheader
  simp only [hblock, Fault.ok_bind]
  by_cases htag : (h.blockAt offset).isFree = true ∨ (h.blockAt offset).size < minBlock ∨
      h.arena.size < offset + (h.blockAt offset).size
  · rw [if_pos htag]
    refine Or.inr ⟨fun hn => ?_, rfl⟩
    rcases htag with hfree | hsmall | hlong
    · rw [hn.used] at hfree
      cases hfree
    · exact absurd hn.le_size (Nat.not_le.mpr hsmall)
    · exact absurd hn.end_le (Nat.not_le.mpr hlong)
  rw [if_neg htag]
  obtain ⟨hused, hrest⟩ := not_or.mp htag
  obtain ⟨hlarge, hinside⟩ := not_or.mp hrest
  have hlarge : 40 ≤ (h.blockAt offset).size := Nat.not_lt.mp hlarge
  have hinside := Nat.not_lt.mp hinside
  have hlt := h.arena.size_lt
  have hfooter : h.arena.footerOffset offset = .ok (offset + (h.blockAt offset).size - 16) :=
    Arena.footerOffset_of_header hheader
      (show 16 ≤ offset + (h.blockAt offset).size by omega)
      (show offset + (h.blockAt offset).size < 18446744073709551616 by omega)
  have hword : h.arena.word (offset + (h.blockAt offset).size - 16) =
      .ok (h.arena.memory.wordAt (offset + (h.blockAt offset).size - 16)) :=
    Arena.word_of_le (by omega)
  simp only [hfooter, hword, Fault.ok_bind]
  by_cases hmatch : h.arena.memory.wordAt (offset + (h.blockAt offset).size - 16) =
      (Tag.used (h.blockAt offset).size).toWord
  · rw [if_neg (not_not.mpr hmatch)]
    exact Or.inl ⟨⟨hlow, hmod, hhigh, Bool.eq_false_iff.mpr hused, hlarge, hinside, hmatch⟩, rfl⟩
  · rw [if_pos hmatch]
    exact Or.inr ⟨fun hn => hmatch hn.footer, rfl⟩

/-- An offset that names a block is resolved to this block. -/
theorem Names.resolve (hn : h.Names offset) : h.resolve offset = .ok (.ok (h.blockAt offset)) :=
  (h.resolve_eq offset).elim And.right fun hnot => absurd hn hnot.1

/-- Resolving an offset that names no block is refused. -/
theorem resolve_of_not (hn : ¬ h.Names offset) :
    h.resolve offset = .ok (.error (.invalidPointer offset)) :=
  (h.resolve_eq offset).elim (fun hyes => absurd hyes.1 hn) And.right

/-- The bytes of a block's payload. -/
def contents (h : Heap) (b : Block) : ByteArray :=
  Bytes.tabulate (b.size - 16) fun i => h.arena.memory.read (b.start + i)

/-- The payload of an offset that names a block is the contents of the block. -/
theorem Names.payload (hn : h.Names offset) :
    h.payload offset = .ok (.ok (h.contents (h.blockAt offset))) := by
  have hlarge := hn.le_size
  have hinside := hn.end_le
  have hsize : payloadSize (h.blockAt offset).size = .ok ((h.blockAt offset).size - 16) :=
    payloadSize_of_le (Nat.le_trans (by decide) hlarge)
  have hslice : h.arena.slice offset ((h.blockAt offset).size - 16) =
      .ok (h.contents (h.blockAt offset)) :=
    if_pos (by omega)
  simp only [Heap.payload, hn.resolve, hsize, hslice, Fault.ok_bind, Fault.pure_eq_ok]

/-- An offset that names no block has no payload. -/
theorem payload_of_not (hn : ¬ h.Names offset) :
    h.payload offset = .ok (.error (.invalidPointer offset)) := by
  simp only [Heap.payload, resolve_of_not hn, Fault.ok_bind, Fault.pure_eq_ok]

/-- Reading a payload gives an answer for any offset and any bytes. -/
theorem payload_total (h : Heap) (offset : Nat) : ∃ answer, h.payload offset = .ok answer := by
  rcases h.resolve_eq offset with ⟨hn, -⟩ | ⟨hn, -⟩
  · exact ⟨_, hn.payload⟩
  · exact ⟨_, payload_of_not hn⟩

/-- A write changes the payload as far as it fits, and nothing else. -/
theorem Names.writePayload (hn : h.Names offset) (position count : Nat) (g : Nat → UInt8) :
    ∃ a written, h.writePayload offset position count g =
        .ok (.ok written, ⟨a, h.buckets, h.config, h.prologue, h.rover⟩) ∧
      h.arena.Edited a (h.blockAt offset).InPayload ∧
      contents ⟨a, h.buckets, h.config, h.prologue, h.rover⟩ (h.blockAt offset) =
        Bytes.write (h.contents (h.blockAt offset)) position count g := by
  have hlarge := hn.le_size
  have hinside := hn.end_le
  have hsize : payloadSize (h.blockAt offset).size = .ok ((h.blockAt offset).size - 16) :=
    payloadSize_of_le (Nat.le_trans (by decide) hlarge)
  generalize hroom : (h.blockAt offset).size - 16 = room at hsize
  obtain ⟨a, hwrite, hput, hedit⟩ := Arena.write_run h.arena (offset + min position room)
    (min count (room - min position room)) g (by omega)
  refine ⟨a, min count (room - min position room), ?_, hedit.mono fun j hj => ?_,
    Bytes.ext ?_ fun i => ?_⟩
  · simp only [Heap.writePayload, hn.resolve, hsize, hwrite, Fault.ok_bind, Fault.pure_eq_ok]
  · have hstart : (h.blockAt offset).start = offset := rfl
    unfold Block.InPayload
    omega
  · simp [contents]
  · rw [Bytes.read_write]
    simp only [contents, Bytes.size_tabulate, Bytes.read_tabulate, hroom]
    have hstart : (h.blockAt offset).start = offset := rfl
    rw [hstart]
    by_cases hi : i < room
    · by_cases hin : position ≤ i ∧ i < position + count
      · have hposition : min position room = position := by omega
        have hread := hput (i - position) (by omega)
        rw [hposition, Nat.add_assoc, Nat.add_sub_cancel' hin.1] at hread
        simp [hi, hin, hread]
      · have hread := hedit.read_eq (offset + i) (by omega)
        rw [if_pos hi, hread, if_neg fun hall => hin ⟨hall.1, hall.2.1⟩, if_pos hi]
    · simp [hi]

/-- Writing through an offset that names no block is refused, and changes nothing. -/
theorem writePayload_of_not (hn : ¬ h.Names offset) (position count : Nat) (g : Nat → UInt8) :
    h.writePayload offset position count g = .ok (.error (.invalidPointer offset), h) := by
  simp only [Heap.writePayload, resolve_of_not hn, Fault.ok_bind, Fault.pure_eq_ok]

/-- In a heap in good order every block in use passes the test. -/
theorem Shaped.names (hh : h.Shaped bs f) (hb : b ∈ bs) (hused : b.isFree = false) :
    h.Names b.start ∧ h.blockAt b.start = b := by
  have hbounds := hh.divided.bounds hb
  have hproper := hh.divided.proper hb
  have hlarge := hproper.le_size
  have hmod : b.tag.size % 8 = 0 := by
    have hsize : b.tag.size % 16 = 0 := hproper.size_mod
    omega
  have hblock : h.blockAt b.start = b := by
    rw [blockAt, (hh.divided.tiled.marks hb).header, Tag.ofWord_toWord hmod]
  refine ⟨⟨hbounds.1, hh.divided.start_mod hb, by omega, ?_, ?_, ?_, ?_⟩, hblock⟩
  · rwa [hblock]
  · rw [hblock]
    omega
  · rw [hblock]
    exact hbounds.2
  · rw [hblock, (hh.divided.tiled.marks hb).footer]
    exact congrArg (fun c => Block.tag c |>.toWord) (Block.eq_of_used hused)

end Heap

end SegregatedFit
