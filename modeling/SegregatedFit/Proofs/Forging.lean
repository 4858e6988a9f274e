import SegregatedFit.Proofs.Invariant

/-!
# Headers that nobody wrote

The test of an offset trusts the word in front of it. Freed memory keeps old words there, and a
payload that is moved carries such words along, so the test is exact only if no word that is not
the header of a block in use looks like one. Every operation of the heap keeps this: its tags
lie where headers belong, and a payload is moved by whole granules.
-/

namespace SegregatedFit

namespace Arena

/-- The word in front of an offset says that a block there is in use. -/
def Flagged (a : Arena) (x : Nat) : Prop :=
  (Tag.ofWord (a.memory.wordAt (x - 8))).allocated = true

/-- From `first` on, only the blocks in use and the end of the arena are flagged. Bytes behind
the end count as well, because the arena may grow over them. -/
def Unforged (a : Arena) (first : Nat) (bs : List Block) : Prop :=
  ∀ x, first ≤ x → x % 16 = 0 → a.Flagged x → x = a.size ∨ ∃ b ∈ Block.inUse bs, b.start = x

variable {a a' : Arena} {first x : Nat} {b u v : Block} {bs bs' : List Block} {P : Nat → Prop}

/-- Whether an offset is flagged depends on one byte. -/
theorem flagged_iff : a.Flagged x ↔ (a.memory.read (x - 8)).toNat % 2 = 1 := by
  have hlowest := LittleEndian.decode_mod_two (fun k => a.memory.read (x - 8 + k)) 7
  rw [Flagged, Tag.ofWord, beq_iff_eq, Memory.wordAt, wordBytes, hlowest, Nat.add_zero]

/-- Whether an offset looks allocated depends on the lowest byte of its header only. -/
theorem flagged_congr (h : a'.memory.read (x - 8) = a.memory.read (x - 8)) :
    a'.Flagged x ↔ a.Flagged x := by
  rw [flagged_iff, flagged_iff, h]

/-- A free block is not flagged. -/
theorem Marks.not_flagged (hm : a.Marks b) (hproper : b.Proper) (hfree : b.isFree = true) :
    ¬ a.Flagged b.start := by
  have hmod : b.tag.size % 8 = 0 := by
    have hsize : b.tag.size % 16 = 0 := hproper.size_mod
    omega
  rw [Flagged, hm.header, Tag.ofWord_toWord hmod]
  unfold Block.isFree at hfree
  simpa using hfree

/-- Only headers lie in header slots: a footer begins at a granule. -/
theorem Divided.start_eq_of_onTag (h : a.Divided first bs) (hb : b ∈ bs) (hlow : 8 ≤ x)
    (hx : x % 16 = 0) (htag : b.OnTag (x - 8)) : b.start = x := by
  have hfirst := h.le_first
  have hbounds := h.bounds hb
  have hstart := h.start_mod hb
  have hproper := h.proper hb
  have hsize := hproper.size_mod
  have hlarge := hproper.le_size
  unfold Block.OnTag at htag
  omega

/-- No flag is forged when an arena is divided anew and changes in nothing but the tags of its
blocks and the last word, as long as old starts and the old end are starts or the end again. -/
theorem Unforged.retag (hu : a.Unforged first bs) (hd : a'.Divided first bs')
    (hkept : ∀ j, (∀ b ∈ bs', ¬ b.OnTag j) → ¬ (a'.size - 8 ≤ j ∧ j < a'.size) →
      a'.memory.read j = a.memory.read j)
    (hend : a.size = a'.size ∨ a.size ∈ bs'.map Block.start)
    (huse : ∀ b ∈ Block.inUse bs, b.start ∈ bs'.map Block.start) : a'.Unforged first bs' := by
  intro x hlow hx hflag
  have hfirst := hd.le_first
  by_cases hstart : x ∈ bs'.map Block.start
  · obtain ⟨c, hc, rfl⟩ := List.mem_map.mp hstart
    cases hfree : c.isFree with
    | false => exact Or.inr ⟨c, Block.mem_inUse_iff.mpr ⟨hc, hfree⟩, rfl⟩
    | true => exact absurd hflag ((hd.tiled.marks hc).not_flagged (hd.proper hc) hfree)
  by_cases hlast : x = a'.size
  · exact Or.inl hlast
  have hoff (b : Block) (hb : b ∈ bs') : ¬ b.OnTag (x - 8) := fun htag =>
    hstart (hd.start_eq_of_onTag hb (by omega) hx htag ▸ List.mem_map_of_mem hb)
  have hsize := hd.size_mod
  have hsame := hkept (x - 8) hoff (by omega)
  -- the flag was there before, so it is that of an old block in use or of the old end
  rcases hu x hlow hx ((flagged_congr hsame).mp hflag) with rfl | ⟨b, hb, rfl⟩
  · exact absurd hend (not_or.mpr ⟨hlast, hstart⟩)
  · exact absurd (huse b hb) hstart

/-- Stamping a block of the new division forges nothing. -/
theorem Unforged.stamped (hu : a.Unforged first bs) (hd : a'.Divided first bs') (hb : b ∈ bs')
    (hedit : a.Edited a' b.OnTag) (huse : ∀ c ∈ Block.inUse bs, c.start ∈ bs'.map Block.start) :
    a'.Unforged first bs' :=
  hu.retag hd (fun _ hoff _ => hedit.read_eq _ (hoff b hb)) (Or.inl hedit.size_eq.symm) huse

/-- Stamping a free block flags nothing, and takes the flag off the block itself. -/
theorem Divided.flagged_of_stamped (hd : a'.Divided first bs') (hb : b ∈ bs')
    (hfree : b.isFree = true) (hedit : a.Edited a' b.OnTag) (hlow : 8 ≤ x) (hx : x % 16 = 0)
    (hflag : a'.Flagged x) : a.Flagged x ∧ x ≠ b.start := by
  have hne : x ≠ b.start := by
    rintro rfl
    exact (hd.tiled.marks hb).not_flagged (hd.proper hb) hfree hflag
  have hoff : ¬ b.OnTag (x - 8) := fun htag => hne (hd.start_eq_of_onTag hb hlow hx htag).symm
  exact ⟨(flagged_congr (hedit.read_eq _ hoff)).mp hflag, hne⟩

/-- Copying from payload to payload forges nothing: what arrives in a header slot comes from
one, and inside a payload no slot is flagged. -/
theorem Unforged.copied (hu : a.Unforged first bs) (hd : a.Divided first bs) (hub : u ∈ bs)
    (hvb : v ∈ bs) {count : Nat} (hfit : count ≤ u.size - 16)
    (hedit : a.Edited a' fun j => v.start ≤ j ∧ j < v.start + count)
    (hcopied : ∀ i, i < count → a'.memory.read (v.start + i) = a.memory.read (u.start + i)) :
    a'.Unforged first bs := by
  intro x hlow hx hflag
  rw [hedit.size_eq]
  have hfirst := hd.le_first
  by_cases hin : v.start ≤ x - 8 ∧ x - 8 < v.start + count
  · have hustart := hd.start_mod hub
    have hvstart := hd.start_mod hvb
    have hubounds := hd.bounds hub
    have hslot : u.InPayload (u.start + (x - v.start) - 8) := by
      unfold Block.InPayload
      omega
    have hread := hcopied (x - 8 - v.start) (by omega)
    rw [show v.start + (x - 8 - v.start) = x - 8 by omega,
      show u.start + (x - 8 - v.start) = u.start + (x - v.start) - 8 by omega] at hread
    have hsource : a.Flagged (u.start + (x - v.start)) := by
      rw [flagged_iff] at hflag ⊢
      rwa [← hread]
    exfalso
    rcases hu _ (by omega) (by omega) hsource with hend | ⟨b, hb, hstart⟩
    · unfold Block.InPayload at hslot
      omega
    · apply hd.tag_apart hub (Block.mem_inUse_iff.mp hb).1 hslot
      exact Or.inl (by omega)
  · exact hu x hlow hx ((flagged_congr (hedit.read_eq _ hin)).mp hflag)

end Arena

/-- No word in a header slot looks like the header of a block in use without being one. -/
def Heap.Unforged (h : Heap) (bs : List Block) : Prop := h.arena.Unforged h.first bs

end SegregatedFit
