import SegregatedFit.Proofs.ExactPointers
import SegregatedFit.Proofs.HarmlessAudits

/-!
# Pointers into any bytes

The bytes of an arena may be anything, and so may the offset that a caller hands in. Its test reads
a word only where the tests before it have shown that there is one, and compares sums without
leaving the words. So it never breaks off, and what passes it is a block that its own two tags
vouch for: exactly the bytes between them can then be read and written.
-/

namespace SegregatedFit

/-- A word is read as a tag in use when it is the size with the lowest bit set, whatever the two
bits above that one are. -/
theorem Tag.ofWord_eq_used_iff {w size : Nat} :
    ofWord w = used size ↔ size % 8 = 0 ∧ ∃ spare, spare < 4 ∧ w = size + 1 + 2 * spare := by
  simp only [ofWord, used, Tag.mk.injEq, beq_iff_eq]
  constructor
  · rintro ⟨hsize, hbit⟩
    exact ⟨by omega, w % 8 / 2, by omega, by omega⟩
  · rintro ⟨hmod, spare, hspare, rfl⟩
    omega

private theorem Tag.toWord_used {size : Nat} (hmod : size % 8 = 0) :
    (used size).toWord = size + 1 := by
  have hword : (used size).toWord = size / 2 * 2 + 1 := rfl
  omega

namespace Heap

/-- Two tags in use around a block of a size, which lies on a granule behind the first header and
inside the arena. The two bits of a header that stand for nothing may be set. -/
structure Vouches (h : Heap) (offset size : Nat) : Prop where
  first_le : h.first ≤ offset
  mod : offset % 16 = 0
  size_mod : size % 8 = 0
  le_size : 40 ≤ size
  end_le : offset + size ≤ h.arena.size
  header : ∃ spare, spare < 4 ∧ h.arena.word (offset - 8) = .ok (size + 1 + 2 * spare)
  footer : h.arena.word (offset + size - 16) = .ok (size + 1)

/-- From an offset on, a number of bytes can be read and written, and a write changes no others. -/
structure OpenAt (h : Heap) (offset room : Nat) : Prop where
  end_le : offset + room ≤ h.arena.size
  read : ∃ bytes, h.payload offset = .ok (.ok bytes) ∧ bytes.size = room ∧
    ∀ i, i < room → Bytes.read bytes i = h.arena.memory.read (offset + i)
  write : ∀ position count g, ∃ written a,
    h.writePayload offset position count g =
        .ok (.ok written, ⟨a, h.buckets, h.config, h.prologue, h.rover⟩) ∧
      h.arena.Edited a (fun j => offset ≤ j ∧ j < offset + room) ∧
      ∀ i, i < room → a.memory.read (offset + i) =
        if position ≤ i ∧ i < position + count then g (i - position)
        else h.arena.memory.read (offset + i)

/-- At an offset every operation is refused and nothing is changed. -/
structure ClosedAt (h : Heap) (offset : Nat) : Prop extends h.Rejects offset where
  write : ∀ position count g,
    h.writePayload offset position count g = .ok (.error (.invalidPointer offset), h)

variable {h : Heap} {offset size : Nat}

private theorem Vouches.header_eq (hv : h.Vouches offset size) :
    Tag.ofWord (h.arena.memory.wordAt (offset - 8)) = .used size := by
  obtain ⟨spare, hspare, hword⟩ := hv.header
  obtain ⟨-, hword⟩ := Arena.word_eq_ok_iff.mp hword
  exact Tag.ofWord_eq_used_iff.mpr ⟨hv.size_mod, spare, hspare, hword.symm⟩

private theorem Vouches.sizeOf (hv : h.Vouches offset size) : h.arena.sizeOf offset = .ok size := by
  have hfirst : h.first = h.prologue + 8 := rfl
  have hlow := hv.first_le
  have hend := hv.end_le
  have hheader : h.arena.header offset = .ok (.used size) := by
    rw [Arena.header_of_le (by omega) (by omega), hv.header_eq]
  exact Arena.sizeOf_of_header hheader

/-- The tags of a block that passes the test vouch for it. -/
theorem Names.vouches (hn : h.Names offset) : h.Vouches offset (h.blockAt offset).size := by
  have hfirst : h.first = h.prologue + 8 := rfl
  have hlow := hn.first_le
  have hlarge := hn.le_size
  have hend := hn.end_le
  obtain ⟨hmod, spare, hspare, hword⟩ :=
    Tag.ofWord_eq_used_iff.mp (Block.tag_of_used hn.used)
  refine ⟨hlow, hn.mod, hmod, hlarge, hend, ⟨spare, hspare, ?_⟩, ?_⟩
  · rw [Arena.word_of_le (by omega), hword]
  · rw [Arena.word_of_le (by omega), hn.footer, Tag.toWord_used hmod]

/-- A block that two tags vouch for passes the test. -/
theorem Vouches.names (hv : h.Vouches offset size) :
    h.Names offset ∧ (h.blockAt offset).size = size := by
  have hlarge := hv.le_size
  have hend := hv.end_le
  have hblock : h.blockAt offset = ⟨offset, .used size⟩ := by rw [blockAt, hv.header_eq]
  have hfooter := (Arena.word_eq_ok_iff.mp hv.footer).2
  refine ⟨⟨hv.first_le, hv.mod, by omega, ?_, ?_, ?_, ?_⟩, ?_⟩ <;> rw [hblock]
  · rfl
  · exact hlarge
  · exact hend
  · rw [Block.size_mk, Tag.size_used, Tag.toWord_used hv.size_mod]
    exact hfooter.symm
  · rfl

/-- What passes the test is open from its start to the last word of its block. -/
theorem Names.openAt (hn : h.Names offset) : h.OpenAt offset ((h.blockAt offset).size - 16) := by
  have hend := hn.end_le
  have hstart : (h.blockAt offset).start = offset := rfl
  have hread (i : Nat) (hi : i < (h.blockAt offset).size - 16) :
      Bytes.read (h.contents (h.blockAt offset)) i = h.arena.memory.read (offset + i) := by
    rw [contents, Bytes.read_tabulate, if_pos hi, hstart]
  refine ⟨by omega, ⟨_, hn.payload, Bytes.size_tabulate .., hread⟩, fun position count g => ?_⟩
  obtain ⟨a, written, hrun, hedit, hbytes⟩ := hn.writePayload position count g
  refine ⟨written, a, hrun, hedit.mono fun j hj => ?_, fun i hi => ?_⟩
  · unfold Block.InPayload at hj
    omega
  · have hnew := congrArg (Bytes.read · i) hbytes
    simp only [Bytes.read_write, size_contents, hread i hi, hi, and_true] at hnew
    rw [← hnew, contents, Bytes.read_tabulate, if_pos hi, hstart]

private theorem closedAt_of_not (hn : ¬ h.Names offset) : h.ClosedAt offset :=
  ⟨rejects_of_not hn, writePayload_of_not hn⟩

/-- Whatever the bytes of a heap are, reading and writing at any offset has an answer. Either the
offset is refused, or the word in front of it holds a size that a header and a footer in use
vouch for, and exactly the bytes between these can be read and written. Refused are all offsets
that lie in front of the first block, off the granules or behind the arena, and all from which
the size in the header leads out of the arena or of the words. -/
theorem payload_of_any_bytes (h : Heap) (offset : Nat) :
    ((h.ClosedAt offset ∧ ∀ size, ¬ h.Vouches offset size) ∨
      ∃ size, h.arena.sizeOf offset = .ok size ∧ h.Vouches offset size ∧
        h.OpenAt offset (size - 16)) ∧
    (offset < h.first ∨ offset % 16 ≠ 0 ∨ h.arena.size ≤ offset → h.ClosedAt offset) ∧
    ∀ size, h.arena.sizeOf offset = .ok size →
      h.arena.size < offset + size ∨ wordLimit ≤ offset + size → h.ClosedAt offset := by
  refine ⟨?_, fun hplace => closedAt_of_not fun hn => ?_, fun size hsize hlong =>
    closedAt_of_not fun hn => ?_⟩
  · by_cases hn : h.Names offset
    · exact Or.inr ⟨_, hn.vouches.sizeOf, hn.vouches, hn.openAt⟩
    · exact Or.inl ⟨closedAt_of_not hn, fun size hv => hn hv.names.1⟩
  · have hlow := hn.first_le
    have hmod := hn.mod
    have hhigh := hn.lt_size
    omega
  · have hlt := h.arena.size_lt
    have hend := hn.end_le
    have hsame := hn.vouches.sizeOf
    rw [hsize] at hsame
    have hsame := Except.ok.inj hsame
    unfold wordLimit at hlong
    omega

/-- All bytes of a new heap are overwritten. The header in front of 32 has its two spare bits set
and a footer that fits it, and from 96 a size leads beyond all words. The first offset is that of a
payload, and the second one is refused. -/
theorem payload_of_any_bytes_of_forged : ∃ damaged : Heap, damaged.Founded ∧
    damaged.arena.word 24 = .ok 55 ∧ damaged.Vouches 32 48 ∧ damaged.OpenAt 32 32 ∧
    damaged.arena.sizeOf 96 = .ok 18446744073709551608 ∧ damaged.ClosedAt 96 := by
  let memory : Memory := .growable ⟨ByteArray.empty, 4096, by decide, by decide⟩
  let bytes (i : Nat) : UInt8 :=
    if i = 24 then 55 else if i = 64 then 49 else if 88 ≤ i ∧ i < 96 then 255 else 0
  have heval : ((setup memory { chunk := 192 }).outcome.toOption.any fun answer =>
      answer.toOption.any fun new =>
        (new.befall (.damage bytes .empty 77)).outcome.toOption.any fun damaged =>
          decide (damaged.2.prologue = new.prologue) &&
            (damaged.2.arena.word 24).toOption.any (· == 55) &&
            (damaged.2.arena.sizeOf 32).toOption.any (· == 48) &&
            (damaged.2.payload 32).toOption.any (fun answer => answer.toOption.any fun _ => true) &&
            (damaged.2.arena.sizeOf 96).toOption.any (· == 18446744073709551608)) = true := by
    decide +kernel
  obtain ⟨_, hsetup, hanswer⟩ := Fault.ok_of_any heval
  obtain ⟨new, rfl, hnew⟩ := Fault.ok_of_any hanswer
  obtain ⟨⟨_, damaged⟩, -, hdamaged⟩ := Fault.ok_of_any hnew
  simp only [Bool.and_eq_true] at hdamaged
  obtain ⟨⟨⟨⟨hprologue, hword⟩, hsize⟩, hpayload⟩, hforged⟩ := hdamaged
  obtain ⟨_, hpayload, hread⟩ := Fault.ok_of_any hpayload
  obtain ⟨_, rfl, -⟩ := Fault.ok_of_any hread
  have hsize := Fault.eq_ok_of_any hsize
  have hforged := Fault.eq_ok_of_any hforged
  obtain ⟨⟨hclosed, -⟩ | ⟨size, hsame, hvouches, hopen⟩, -⟩ := payload_of_any_bytes damaged 32
  · rw [hclosed.payload] at hpayload
    cases hpayload
  · obtain rfl := Except.ok.inj (hsize.symm.trans hsame)
    obtain ⟨-, -, hlong⟩ := payload_of_any_bytes damaged 96
    exact ⟨damaged, ⟨memory, _, new, hsetup, of_decide_eq_true hprologue⟩,
      Fault.eq_ok_of_any hword, hvouches, hopen, hforged,
      hlong _ hforged (Or.inr (by decide))⟩

end Heap

end SegregatedFit
