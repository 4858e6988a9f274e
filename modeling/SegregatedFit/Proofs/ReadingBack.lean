import SegregatedFit.Proofs.Rewriting

/-!
# Reading back what was written

A word can be read and stored at an offset, or neither, whatever bytes an arena holds. What was
stored is read back, and no byte beside it has changed. So a tag that is stamped around a block
names the block from all sides: it is the header and the footer, the header leads up to where the
block ends, and from there the footer leads down to where it starts.
-/

namespace SegregatedFit.Arena

variable {a : Arena} {offset value x : Nat} {t : Tag}

/-- A word that starts at an offset ends inside the arena. -/
def HasWord (a : Arena) (offset : Nat) : Prop :=
  ∃ stop, Word.add offset wordBytes = .ok stop ∧ stop ≤ a.size

/-- A block is found by its tag from both of its ends. -/
structure Framed (a : Arena) (block : Nat) (t : Tag) : Prop where
  header : a.header block = .ok t
  footer : a.footer block = .ok t
  next : a.next block = .ok (block + t.size)
  previous : a.previous (block + t.size) = .ok block

/-- Where a word of the arena ends is never too large a number for a word. -/
theorem hasWord_iff : a.HasWord offset ↔ offset + 8 ≤ a.size := by
  constructor
  · rintro ⟨stop, hstop, hin⟩
    obtain ⟨-, rfl⟩ := Word.add_eq_ok_iff.mp hstop
    exact hin
  · intro hin
    have hlt := a.size_lt
    have hword : offset + 8 < 18446744073709551616 := by omega
    exact ⟨offset + 8, Word.add_of_lt hword, hin⟩

private theorem word?_eq_none_iff : a.word? offset = none ↔ ¬ a.HasWord offset := by
  rw [hasWord_iff, word?]
  split
  · next hin => simpa using hin
  · next hout => simpa using hout

private theorem word_eq_error_iff :
    (∃ fault, a.word offset = .error fault) ↔ ¬ a.HasWord offset := by
  rw [hasWord_iff, word]
  split
  · next hin => simpa using hin
  · next hout => simpa using hout

private theorem put_eq_error_iff :
    (∃ fault, a.put offset value = .error fault) ↔ ¬ a.HasWord offset := by
  rw [hasWord_iff, put]
  split
  · next hin => simpa using hin
  · next hout => simpa using hout

/-- Between its marks a block is found from both ends. -/
theorem Marks.framed (hm : a.Marks ⟨x, t⟩) (hlow : 8 ≤ x) (hsize : 16 ≤ t.size)
    (hend : x + t.size ≤ a.size + 8) (hmod : t.size % 8 = 0) : a.Framed x t := by
  have hlt := a.size_lt
  have hheader := hm.header_eq hlow (by omega) hmod
  have hfooter := hm.tagAt_footer (by omega) hend hmod
  have hslot : a.footerOffset x = .ok (x + t.size - 16) :=
    footerOffset_of_header hheader (by omega) (by omega)
  refine ⟨hheader, ?_, next_of_header hheader (by omega), ?_⟩
  · rw [Arena.footer, hslot, Fault.ok_bind, hfooter]
  · rw [previous, footerBelow, footerOffset_of_le (by omega), Fault.ok_bind, hfooter, Fault.ok_bind]
    exact Word.sub_eq_ok_iff.mpr ⟨Nat.le_add_left _ _, (Nat.add_sub_cancel ..).symm⟩

/-- Looking for a word, reading it and storing one go well at the same offsets, those from which
eight bytes do not lead out of the arena or of the words. A stored word is read back and all bytes
beside it are kept. A tag stamped around a block names it from both ends, and all bytes but those
of its header and footer are kept. -/
theorem writes_read_back (a : Arena) :
    (∀ offset, (a.word? offset = none ↔ ¬ a.HasWord offset) ∧
      ((∃ fault, a.word offset = .error fault) ↔ ¬ a.HasWord offset) ∧
      (∀ value, (∃ fault, a.put offset value = .error fault) ↔ ¬ a.HasWord offset) ∧
      ∀ w, a.word? offset = some w ↔ a.word offset = .ok w) ∧
    (∀ offset value, a.HasWord offset → value < wordLimit →
      ∃ b, a.put offset value = .ok b ∧ b.word offset = .ok value ∧
        a.Edited b fun j => offset ≤ j ∧ j < offset + wordBytes) ∧
    ∀ block t, 8 ≤ block → t.size % 8 = 0 → 16 ≤ t.size → block + t.size - 8 ≤ a.size →
      ∃ b, a.stamp block t = .ok b ∧ b.Framed block t ∧ a.Edited b (Block.OnTag ⟨block, t⟩) := by
  refine ⟨fun offset => ?_, fun offset value hin hvalue => ?_,
    fun block t hlow hmod hsize hend => ?_⟩
  · exact ⟨word?_eq_none_iff, word_eq_error_iff, fun value => put_eq_error_iff,
      fun w => word?_eq_some_iff⟩
  · obtain ⟨b, hput, -, hedit⟩ := put_run a offset value (hasWord_iff.mp hin) hvalue
    have hback := word_of_put hput
    rw [Nat.mod_eq_of_lt hvalue] at hback
    exact ⟨b, hput, hback, hedit⟩
  · obtain ⟨b, hstamp, hmarks, hedit⟩ :=
      stamp_run (a := a) (x := block) (t := t) hlow hsize (by omega)
    have hsame := hedit.size_eq
    exact ⟨b, hstamp, hmarks.framed hlow hsize (by omega) hmod, hedit⟩

/-- An arena of 64 bytes that are all set. A word is stored across two others, and one block takes
up the whole arena, so that its tags are the first and the last word. -/
theorem writes_read_back_of_full : ∃ a b c : Arena, a.size = 64 ∧
    a.word? 57 = none ∧ a.word? 18446744073709551612 = none ∧
    a.HasWord 3 ∧ 513 < wordLimit ∧ a.put 3 513 = .ok b ∧ b.word 3 = .ok 513 ∧
    a.stamp 8 (.used 64) = .ok c ∧ c.Framed 8 (.used 64) ∧
    ∀ j, 8 ≤ j → j < 56 → c.memory.read j = a.memory.read j := by
  let a : Arena :=
    ⟨.growable ⟨Bytes.tabulate 64 fun _ => 255, 64, by decide, by decide⟩, 64⟩
  have hsize : a.size = 64 := Bytes.size_tabulate 64 fun _ => 255
  obtain ⟨hwords, hputs, hstamps⟩ := writes_read_back a
  have hin : a.HasWord 3 := hasWord_iff.mpr (by omega)
  obtain ⟨b, hput, hword, -⟩ := hputs 3 513 hin (by decide)
  obtain ⟨c, hstamp, hframed, hedit⟩ :=
    hstamps 8 (.used 64) (by decide) (by decide) (by decide) (by rw [hsize]; decide)
  have hout (offset : Nat) (hoffset : 57 ≤ offset) : ¬ a.HasWord offset := by
    rw [hasWord_iff]
    omega
  refine ⟨a, b, c, hsize, (hwords 57).1.mpr (hout _ (by decide)),
    (hwords 18446744073709551612).1.mpr (hout _ (by decide)), hin, by decide, hput, hword,
    hstamp, hframed, fun j hlow hhigh => hedit.read_eq j ?_⟩
  change ¬ (8 - 8 ≤ j ∧ j < 8 ∨ 8 + 64 - 16 ≤ j ∧ j < 8 + 64 - 8)
  omega

end SegregatedFit.Arena
