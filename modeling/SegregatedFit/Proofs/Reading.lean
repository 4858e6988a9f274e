import SegregatedFit.Proofs.Tiling
import SegregatedFit.Heap.Coalesce

/-!
# Reading a divided arena

At each place between two blocks the tag of the block above is read forwards and the tag of
the block below backwards, with the sentinels at both ends. From this follow the neighbours
that are free, and the walk in address order: it meets the blocks and comes to its end.
-/

namespace SegregatedFit

/-- The tag that lies before the end of a list of blocks. -/
def Block.lastTag (bs : List Block) : Tag := (bs.getLast?.map Block.tag).getD .prologue

/-- The tag that a list of blocks begins with. -/
def Block.firstTag (bs : List Block) : Tag := (bs.head?.map Block.tag).getD .epilogue

/-- A block next to another one is still a block once the other is there. -/
theorem Block.mem_insert {b c : Block} {xs ys : List Block} (hc : c ∈ xs ++ ys) :
    c ∈ xs ++ b :: ys := by
  rcases List.mem_append.mp hc with hc | hc
  · exact List.mem_append_left _ hc
  · exact List.mem_append_right _ (List.mem_cons_of_mem _ hc)

/-- The last block, if it is free. -/
def Block.below (bs : List Block) : Option Block := bs.getLast?.filter Block.isFree

/-- The first block, if it is free. -/
def Block.above (bs : List Block) : Option Block := bs.head?.filter Block.isFree

namespace Arena

variable {a : Arena} {b : Block} {bs xs ys : List Block} {t : Tag} {x first : Nat}

/-- The arena ends where its blocks end. -/
theorem Divided.size_eq (h : a.Divided first bs) : a.size = first + Block.totalSize bs :=
  h.tiled.stop_eq

/-- Every block lies between the prologue and the end of the arena. -/
theorem Divided.bounds (h : a.Divided first bs) (hb : b ∈ bs) :
    first ≤ b.start ∧ b.start + b.size ≤ a.size :=
  h.tiled.bounds hb

/-- Every block is a proper one. -/
theorem Divided.proper (h : a.Divided first bs) (hb : b ∈ bs) : b.Proper := h.tiled.proper hb

/-- Every block starts at a multiple of the granule. -/
theorem Divided.start_mod (h : a.Divided first bs) (hb : b ∈ bs) : b.start % 16 = 0 :=
  (h.tiled.mod h.first_mod).1 b hb

/-- The arena has whole granules only. -/
theorem Divided.size_mod (h : a.Divided first bs) : a.size % 16 = 0 := (h.tiled.mod h.first_mod).2

/-- No two blocks start at the same offset. -/
theorem Divided.nodup (h : a.Divided first bs) : (bs.map Block.start).Nodup := h.tiled.nodup

/-- Of two blocks, one lies behind the other. -/
theorem Divided.apart {c : Block} (h : a.Divided first bs) (hb : b ∈ bs) (hc : c ∈ bs) :
    b = c ∨ b.start + b.size ≤ c.start ∨ c.start + c.size ≤ b.start :=
  h.tiled.apart hb hc

/-- A block lies behind all blocks in front of it. -/
theorem Divided.start_eq (h : a.Divided first (xs ++ b :: ys)) :
    b.start = first + Block.totalSize xs :=
  (tiled_append.mp h.tiled).2.1.1

/-- A block ends behind all blocks up to it. -/
theorem Divided.end_eq (h : a.Divided first (xs ++ b :: ys)) :
    first + Block.totalSize (xs ++ [b]) = b.start + b.size := by
  rw [h.start_eq, Block.totalSize_append, Block.totalSize_cons, Block.totalSize_nil]
  omega

/-- The block between two stretches is one of the blocks. -/
theorem Divided.mem_middle (_ : a.Divided first (xs ++ b :: ys)) : b ∈ xs ++ b :: ys :=
  List.mem_append_right _ List.mem_cons_self

/-- The other blocks start elsewhere. -/
theorem Divided.start_ne {c : Block} (h : a.Divided first (xs ++ b :: ys)) (hc : c ∈ xs ++ ys) :
    c.start ≠ b.start := by
  have hnodup := h.nodup
  rw [List.map_append, List.map_cons, List.nodup_middle, ← List.map_append] at hnodup
  intro heq
  exact (List.nodup_cons.mp hnodup).1 (heq ▸ List.mem_map_of_mem hc)

/-- The size of a block is the one in its header. -/
theorem sizeOf_of_header (h : a.header x = .ok t) : a.sizeOf x = .ok t.size := by
  simp [sizeOf, h]

/-- The block at an offset has the tag in its header. -/
theorem block_of_header (h : a.header x = .ok t) : a.block x = .ok ⟨x, t⟩ := by
  simp [block, h]

/-- The next block starts where this one ends. -/
theorem next_of_header (h : a.header x = .ok t) (hlt : x + t.size < 18446744073709551616) :
    a.next x = .ok (x + t.size) := by
  simp [next, sizeOf_of_header h, Word.add_of_lt hlt]

/-- The footer of a block is its last word before the next header. -/
theorem footerOffset_of_header (h : a.header x = .ok t) (hlow : 16 ≤ x + t.size)
    (hlt : x + t.size < 18446744073709551616) : a.footerOffset x = .ok (x + t.size - 16) := by
  rw [footerOffset, sizeOf_of_header h, Fault.ok_bind, Word.add_of_lt hlt, Fault.ok_bind,
    footerOffset_of_le hlow]

/-- A block between its marks has its tag as header. -/
theorem Marks.header_eq (hm : a.Marks ⟨x, t⟩) (hlow : 8 ≤ x) (hhigh : x ≤ a.size)
    (hmod : t.size % 8 = 0) : a.header x = .ok t := by
  have hword : a.memory.wordAt (x - 8) = t.toWord := hm.header
  rw [header_of_le hlow hhigh, hword, Tag.ofWord_toWord hmod]

/-- A block between its marks has its tag as footer, which ends a word before the block does. -/
theorem Marks.tagAt_footer (hm : a.Marks ⟨x, t⟩) (hlow : 16 ≤ x + t.size)
    (hhigh : x + t.size ≤ a.size + 8) (hmod : t.size % 8 = 0) :
    a.tagAt (x + t.size - 16) = .ok t := by
  have hword : a.memory.wordAt (x + t.size - 16) = t.toWord := hm.footer
  rw [tagAt, word_of_le (by omega), hword, Fault.ok_bind, Fault.pure_eq_ok, Tag.ofWord_toWord hmod]

/-- The header of a block is its tag. -/
theorem Divided.header (h : a.Divided first bs) (hb : b ∈ bs) : a.header b.start = .ok b.tag := by
  obtain ⟨hlow, hhigh⟩ := h.bounds hb
  have hfirst := h.le_first
  have hmod : b.tag.size % 16 = 0 := (h.proper hb).size_mod
  exact (h.tiled.marks hb).header_eq (by omega) (by omega) (by omega)

/-- Each block of a divided arena is found at its start. -/
theorem Divided.block (h : a.Divided first bs) (hb : b ∈ bs) : a.block b.start = .ok b :=
  block_of_header (h.header hb)

/-- The size of each block of a divided arena is read at its start. -/
theorem Divided.sizeOf (h : a.Divided first bs) (hb : b ∈ bs) : a.sizeOf b.start = .ok b.size :=
  sizeOf_of_header (h.header hb)

/-- From each block of a divided arena a step leads to its end. -/
theorem Divided.next (h : a.Divided first bs) (hb : b ∈ bs) :
    a.next b.start = .ok (b.start + b.size) := by
  have hend : b.start + b.tag.size ≤ a.size := (h.bounds hb).2
  have hlt := a.size_lt
  exact next_of_header (h.header hb) (by omega)

/-- The header in front of the first block is that of the prologue. -/
theorem Divided.header_prologue (h : a.Divided first bs) :
    a.header (first - 8) = .ok Tag.prologue := by
  have hfirst := h.le_first
  have hsize := h.size_eq
  have hslot : first - 8 - 8 = first - 16 := by omega
  rw [header_of_le (by omega) (by omega), hslot, h.prologue]
  rfl

/-- The prologue leads to the first block. -/
theorem Divided.next_prologue (h : a.Divided first bs) : a.next (first - 8) = .ok first := by
  have hfirst := h.le_first
  have hlt := a.size_lt
  have hsize := h.size_eq
  have hend : first - 8 + Tag.prologue.size = first := Nat.sub_add_cancel (by omega)
  have hnext := next_of_header h.header_prologue (by omega)
  rwa [hend] at hnext

/-- A walk ends at a tag of size zero. -/
theorem blocksFrom_of_zero (ht : a.header x = .ok t) (hzero : t.size = 0) :
    a.blocksFrom x = ⟨[], none⟩ := by
  have hinside := (header_eq_ok_iff.mp ht).2.1
  have hlt := a.size_lt
  have hend : x + t.size < 18446744073709551616 := by omega
  rw [blocksFrom_of_header ht, if_pos hend, if_pos hzero]
  rfl

/-- A walk goes on behind a block that ends inside the arena. -/
theorem blocksFrom_of_pos (ht : a.header x = .ok t) (hpos : 0 < t.size)
    (hin : x + t.size ≤ a.size) :
    a.blocksFrom x = .cons ⟨x, t⟩ (a.blocksFrom (x + t.size)) := by
  have hlt := a.size_lt
  have hend : x + t.size < 18446744073709551616 := by omega
  rw [blocksFrom_of_header ht, if_pos hend, if_neg (Nat.ne_of_gt hpos)]

/-- Between two stretches of blocks, the tag ahead is the first one of the upper stretch. -/
theorem Divided.header_between (h : a.Divided first (xs ++ ys)) :
    a.header (first + Block.totalSize xs) = .ok (Block.firstTag ys) := by
  cases ys with
  | nil =>
    have hfirst := h.le_first
    have hsize := h.size_eq
    rw [List.append_nil] at hsize
    rw [← hsize]
    rw [header_of_le (by omega) (Nat.le_refl _), h.epilogue]
    rfl
  | cons b rest =>
    rw [← h.start_eq]
    exact h.header h.mem_middle

/-- Between two stretches of blocks, the tag behind is the last one of the lower stretch. -/
theorem Divided.footerBelow_between (h : a.Divided first (xs ++ ys)) :
    a.footerBelow (first + Block.totalSize xs) = .ok (Block.lastTag xs) := by
  have hfirst := h.le_first
  have hsize := h.size_eq
  rw [Block.totalSize_append] at hsize
  have hslot : Word.sub (first + Block.totalSize xs) granule =
      .ok (first + Block.totalSize xs - 16) :=
    footerOffset_of_le (by omega)
  rw [footerBelow, hslot, Fault.ok_bind]
  rcases List.eq_nil_or_concat xs with rfl | ⟨lower, p, rfl⟩
  · rw [Block.totalSize_nil, Nat.add_zero, tagAt, word_of_le (by omega), h.prologue]
    rfl
  · rw [List.concat_eq_append] at h ⊢
    have hp : p ∈ lower ++ [p] ++ ys := by simp
    have hmod : p.tag.size % 16 = 0 := (h.proper hp).size_mod
    have hend : p.start + p.tag.size ≤ a.size := (h.bounds hp).2
    have hstop : first + Block.totalSize (lower ++ [p]) = p.start + p.tag.size := by
      rw [List.append_assoc] at h
      exact h.end_eq
    have hlast : Block.lastTag (lower ++ [p]) = p.tag := by simp [Block.lastTag]
    rw [hstop, hlast]
    exact (h.tiled.marks hp).tagAt_footer (by omega) (by omega) (by omega)

/-- The walk from between two stretches meets the blocks of the upper one. -/
theorem Divided.blocksFrom (h : a.Divided first (xs ++ ys)) :
    a.blocksFrom (first + Block.totalSize xs) = ⟨ys, none⟩ := by
  induction ys generalizing xs with
  | nil => exact blocksFrom_of_zero h.header_between rfl
  | cons b rest ih =>
    have hb := h.mem_middle
    have hsize : 48 ≤ b.tag.size := (h.proper hb).le_size
    have hrest := @ih (xs ++ [b]) (by simpa using h)
    rw [← h.start_eq, blocksFrom_of_pos (h.header hb) (by omega) (h.bounds hb).2]
    rw [Block.totalSize_append, Block.totalSize_cons, Block.totalSize_nil, Nat.add_zero,
      ← Nat.add_assoc, ← h.start_eq] at hrest
    exact congrArg (Walk.cons b) hrest

/-- In front of the first block lies the prologue. -/
theorem Divided.previous_first (h : a.Divided first bs) : a.previous first = .ok (first - 8) := by
  have hfirst := h.le_first
  have hsplit : a.Divided first ([] ++ bs) := h
  have hbelow := hsplit.footerBelow_between
  rw [Block.totalSize_nil, Nat.add_zero] at hbelow
  rw [previous, hbelow, Fault.ok_bind]
  exact Word.sub_of_le (show 8 ≤ first by omega)

/-- From where a block ends, its footer leads back to its start. -/
theorem Divided.previous_end (h : a.Divided first (xs ++ b :: ys)) :
    a.previous (b.start + b.size) = .ok b.start := by
  have hsplit : a.Divided first ((xs ++ [b]) ++ ys) := by simpa using h
  have hbelow := hsplit.footerBelow_between
  have htag : Block.lastTag (xs ++ [b]) = b.tag := by simp [Block.lastTag]
  rw [h.end_eq, htag] at hbelow
  rw [previous, hbelow, Fault.ok_bind]
  exact Word.sub_eq_ok_iff.mpr ⟨Nat.le_add_left _ _, (Nat.add_sub_cancel ..).symm⟩

/-- The block below is found when it is free. -/
theorem Divided.freeBelow (h : a.Divided first (xs ++ b :: ys)) :
    a.freeBelow b.start = .ok (Block.below xs) := by
  have hbelow := h.footerBelow_between
  rw [← h.start_eq] at hbelow
  have hstart := h.start_eq
  rcases List.eq_nil_or_concat xs with rfl | ⟨lower, p, rfl⟩
  · rw [Block.totalSize_nil, Nat.add_zero] at hstart
    have hprevious := h.previous_first
    rw [← hstart] at hprevious
    rw [Arena.freeBelow, hprevious, Fault.ok_bind, hbelow, Fault.ok_bind]
    exact if_pos (Or.inr rfl)
  · rw [List.concat_eq_append] at h hbelow hstart ⊢
    have hp : p ∈ lower ++ [p] ++ b :: ys := by simp
    have hsize := (h.proper hp).le_size
    have hsplit : a.Divided first (lower ++ p :: b :: ys) := by simpa using h
    rw [Block.totalSize_append, Block.totalSize_cons, Block.totalSize_nil, ← Nat.add_assoc,
      ← hsplit.start_eq, Nat.add_zero] at hstart
    have hprevious := hsplit.previous_end
    rw [← hstart] at hprevious
    have htag : Block.lastTag (lower ++ [p]) = p.tag := by simp [Block.lastTag]
    rw [htag] at hbelow
    rw [Arena.freeBelow, hprevious, Fault.ok_bind, hbelow, Fault.ok_bind, h.block hp]
    have hne : p.start ≠ b.start := by omega
    cases hfree : p.tag.allocated <;> simp [hne, Block.below, Option.filter, Block.isFree, hfree]

/-- The block above is found when it is free. -/
theorem Divided.freeAbove (h : a.Divided first (xs ++ b :: ys)) :
    a.freeAbove b.start = .ok (Block.above ys) := by
  have hsplit : a.Divided first ((xs ++ [b]) ++ ys) := by simpa using h
  have habove := hsplit.header_between
  rw [Arena.freeAbove, h.next h.mem_middle, Fault.ok_bind, ← h.end_eq, block_of_header habove,
    Fault.ok_bind]
  cases ys with
  | nil => rfl
  | cons c rest =>
    have hc : c.start = first + Block.totalSize (xs ++ [b]) := hsplit.start_eq
    rw [← hc]
    cases hfree : c.tag.allocated <;>
      simp [Block.firstTag, Block.above, Option.filter, Block.isFree, hfree]

end Arena

end SegregatedFit
