import Mathlib.Data.List.Chain
import Mathlib.Data.List.Perm.Subperm
import SegregatedFit.Proofs.Filing
import SegregatedFit.Proofs.Rewriting

/-!
# Heaps in good order

A heap in good order is described by its blocks in address order and by the lists of its
buckets: the arena is divided into the blocks, the lists hold the free ones by class, and no
two neighbours are free. In the middle of an operation one free block may be missing in the
lists and lie beside other free ones. Then the heap is pending.
-/

namespace SegregatedFit

namespace Block

/-- The blocks in use among some blocks. -/
def inUse (bs : List Block) : List Block := bs.filter fun b => !b.isFree

/-- The offsets of the free blocks among some blocks. -/
def freeStarts (bs : List Block) : List Nat := (bs.filter isFree).map start

/-- No two neighbours are both free. -/
def Spaced (bs : List Block) : Prop := bs.IsChain fun b c => b.isFree = true → c.isFree = false

/-- The last block, if there is one, is in use. -/
def ClosedBelow (bs : List Block) : Prop := ∀ b ∈ bs.getLast?, b.isFree = false

/-- The first block, if there is one, is in use. -/
def ClosedAbove (bs : List Block) : Prop := ∀ b ∈ bs.head?, b.isFree = false

/-- The blocks without a free one at the end. -/
def trimEnd (bs : List Block) : List Block := if (below bs).isSome then bs.dropLast else bs

/-- The blocks without a free one at the front. -/
def trimStart (bs : List Block) : List Block := if (above bs).isSome then bs.tail else bs

variable {b : Block} {bs xs ys : List Block}

/-- The blocks in use are those that are not free. -/
theorem mem_inUse_iff : b ∈ inUse bs ↔ b ∈ bs ∧ b.isFree = false := by
  simp [inUse]

/-- The free starts are the starts of the free blocks. -/
theorem mem_freeStarts_iff {x : Nat} :
    x ∈ freeStarts bs ↔ ∃ b ∈ bs, b.isFree = true ∧ b.start = x := by
  simp [freeStarts, and_assoc]

/-- Distinct blocks have distinct free starts. -/
theorem nodup_freeStarts (h : (bs.map start).Nodup) : (freeStarts bs).Nodup :=
  h.sublist (List.filter_sublist.map _)

/-- There are as many free starts as free blocks. -/
@[simp] theorem length_freeStarts (bs : List Block) :
    (freeStarts bs).length = (bs.filter isFree).length :=
  List.length_map ..

/-- The blocks in use of two stretches are those of each. -/
@[simp] theorem inUse_append (xs ys : List Block) : inUse (xs ++ ys) = inUse xs ++ inUse ys :=
  List.filter_append ..

/-- A free block adds nothing to the blocks in use. -/
theorem inUse_cons_of_free (hb : b.isFree = true) : inUse (b :: bs) = inUse bs := by
  simp [inUse, hb]

/-- A block in use comes first among those in use. -/
theorem inUse_cons_of_used (hb : b.isFree = false) : inUse (b :: bs) = b :: inUse bs := by
  simp [inUse, hb]

private theorem spaced_append :
    Spaced (xs ++ ys) ↔ Spaced xs ∧ Spaced ys ∧
      ∀ b ∈ xs.getLast?, ∀ c ∈ ys.head?, b.isFree = true → c.isFree = false :=
  List.isChain_append

/-- A block before spaced blocks is spaced from them unless it and the next one are free. -/
theorem spaced_cons :
    Spaced (b :: ys) ↔ (∀ c ∈ ys.head?, b.isFree = true → c.isFree = false) ∧ Spaced ys :=
  List.isChain_cons

/-- The lower part of spaced blocks is spaced. -/
theorem Spaced.left (h : Spaced (xs ++ ys)) : Spaced xs := (spaced_append.mp h).1

/-- The upper part of spaced blocks is spaced. -/
theorem Spaced.right (h : Spaced (xs ++ ys)) : Spaced ys := (spaced_append.mp h).2.1

/-- Any block may stand between blocks in use. -/
theorem Spaced.insert (hxs : Spaced xs) (hys : Spaced ys) (hbelow : ClosedBelow xs)
    (habove : ClosedAbove ys) : Spaced (xs ++ b :: ys) := by
  refine spaced_append.mpr ⟨hxs, spaced_cons.mpr ⟨fun c hc _ => habove c hc, hys⟩, ?_⟩
  intro p hp c _ hfree
  rw [hbelow p hp] at hfree
  cases hfree

/-- A block in use may stand anywhere. -/
theorem Spaced.insert_used (hxs : Spaced xs) (hys : Spaced ys) (hb : b.isFree = false) :
    Spaced (xs ++ b :: ys) := by
  refine spaced_append.mpr ⟨hxs, spaced_cons.mpr ⟨fun c _ hfree => ?_, hys⟩, ?_⟩
  · rw [hb] at hfree
    cases hfree
  · intro p _ c hc _
    cases hc
    exact hb

/-- Beside a free block there are blocks in use. -/
theorem Spaced.beside_free (h : Spaced (xs ++ b :: ys)) (hb : b.isFree = true) :
    ClosedBelow xs ∧ ClosedAbove ys := by
  obtain ⟨-, hupper, hjoin⟩ := spaced_append.mp h
  refine ⟨fun p hp => ?_, fun c hc => (spaced_cons.mp hupper).1 c hc hb⟩
  cases hfree : p.isFree with
  | false => rfl
  | true =>
    have hnot := hjoin p hp b rfl hfree
    rw [hb] at hnot
    cases hnot

/-- The trimmed blocks and the free block taken off their end are the blocks again. -/
theorem trimEnd_append (bs : List Block) : trimEnd bs ++ (below bs).toList = bs := by
  rcases List.eq_nil_or_concat bs with rfl | ⟨lower, p, rfl⟩
  · rfl
  · rw [List.concat_eq_append]
    cases hp : p.isFree with
    | false => simp [trimEnd, below, hp]
    | true => simp [trimEnd, below, hp]

/-- The free block taken off the front and the trimmed blocks are the blocks again. -/
theorem append_trimStart (bs : List Block) : (above bs).toList ++ trimStart bs = bs := by
  cases bs with
  | nil => rfl
  | cons p upper =>
    cases hp : p.isFree with
    | false => simp [trimStart, above, hp]
    | true => simp [trimStart, above, Option.filter, hp]

/-- A place with the free blocks right beside it, and what lies beyond these. -/
theorem trim_append (xs : List Block) (b : Block) (ys : List Block) :
    trimEnd xs ++ (((below xs).toList ++ b :: (above ys).toList) ++ trimStart ys) =
      xs ++ b :: ys := by
  conv_rhs => rw [← trimEnd_append xs, ← append_trimStart ys]
  simp

/-- The block that trimming takes off the end is free. -/
theorem isFree_of_below (h : b ∈ below bs) : b.isFree = true := by
  unfold below at h
  exact (Option.mem_filter_iff.mp h).2

/-- The block that trimming takes off the front is free. -/
theorem isFree_of_above (h : b ∈ above bs) : b.isFree = true := by
  unfold above at h
  exact (Option.mem_filter_iff.mp h).2

/-- A free block has no part in the blocks in use. -/
theorem inUse_toList {b : Option Block} (hb : ∀ c ∈ b, c.isFree = true) :
    inUse b.toList = [] := by
  cases b with
  | none => rfl
  | some c => exact inUse_cons_of_free (hb c rfl)

/-- Trimming a free tail takes no block out of use. -/
theorem inUse_trimEnd (bs : List Block) : inUse (trimEnd bs) = inUse bs := by
  have hsplit := congrArg inUse (trimEnd_append bs)
  rwa [inUse_append, inUse_toList fun c hc => isFree_of_below hc, List.append_nil] at hsplit

/-- Trimming a free first block takes no block out of use. -/
theorem inUse_trimStart (bs : List Block) : inUse (trimStart bs) = inUse bs := by
  have hsplit := congrArg inUse (append_trimStart bs)
  rwa [inUse_append, inUse_toList fun c hc => isFree_of_above hc, List.nil_append] at hsplit

/-- In front of a free block at the end there is one in use, and if the last block is not free
it is in use itself. -/
theorem Spaced.closedBelow_trimEnd (h : Spaced bs) : ClosedBelow (Block.trimEnd bs) := by
  cases hbelow : below bs with
  | none =>
    have hsame : Block.trimEnd bs = bs := by simp [Block.trimEnd, hbelow]
    intro b hb
    rw [hsame] at hb
    unfold below at hbelow
    rw [Option.filter_eq_none_iff] at hbelow
    exact Bool.eq_false_iff.mpr (hbelow b hb)
  | some p =>
    have hsplit := trimEnd_append bs
    rw [hbelow] at hsplit
    rw [← hsplit] at h
    exact (h.beside_free (isFree_of_below hbelow)).1

/-- Behind a free block at the front there is one in use, and if the first block is not free it is
in use itself. -/
theorem Spaced.closedAbove_trimStart (h : Spaced bs) : ClosedAbove (Block.trimStart bs) := by
  cases habove : above bs with
  | none =>
    have hsame : Block.trimStart bs = bs := by simp [Block.trimStart, habove]
    intro b hb
    rw [hsame] at hb
    unfold above at habove
    rw [Option.filter_eq_none_iff] at habove
    exact Bool.eq_false_iff.mpr (habove b hb)
  | some p =>
    have hsplit := append_trimStart bs
    rw [habove] at hsplit
    rw [← hsplit] at h
    have hlist : Spaced ([] ++ p :: Block.trimStart bs) := h
    exact (hlist.beside_free (isFree_of_above habove)).2

end Block

/-- The totals of a heap are those of its blocks, as far as these add up to a word. -/
theorem Heap.totals_of_blocks {h : Heap} {bs : List Block} (hblocks : h.blocks = ⟨bs, none⟩)
    (hlt : Block.totalSize bs < 18446744073709551616) : h.totals = .ok
      { heapBytes := h.arena.size
        freeBytes := Block.totalSize (bs.filter Block.isFree)
        allocatedBytes := Block.totalSize (Block.inUse bs)
        freeBlocks := (bs.filter Block.isFree).length
        allocatedBlocks := (Block.inUse bs).length } := by
  have hword (p : Block → Bool) : Word.ofNat (Block.totalSize (bs.filter p)) =
      .ok (Block.totalSize (bs.filter p)) :=
    Word.ofNat_of_lt (Nat.lt_of_le_of_lt (Block.totalSize_filter_le p bs) hlt)
  rw [totals, hblocks]
  simp only [Walk.toExcept, Fault.ok_bind, List.partition_eq_filter_filter, hword,
    Fault.pure_eq_ok]
  rfl

/-- The lists hold the free blocks among `bs`, each in the list of its class. -/
def Filing.Of (f : Filing) (bs : List Block) : Prop :=
  ∀ c x, x ∈ f c ↔ ∃ b ∈ bs, b.isFree = true ∧ b.start = x ∧ SizeClass.ofSize b.size = c

namespace Filing.Of

variable {f : Filing} {b : Block} {xs ys mid : List Block}

/-- Lists of free blocks can be counted, because each block starts at another offset in the
arena. -/
theorem counted {a : Arena} {first : Nat} {bs : List Block} (h : f.Of bs)
    (hd : a.Divided first bs) (hf : ∀ c, (f c).Nodup) : f.Counted := by
  intro c
  have hsub : f c ⊆ List.range a.size := by
    intro x hx
    obtain ⟨d, hmem, -, rfl, -⟩ := (h c x).mp hx
    have hbounds := hd.bounds hmem
    have hsize := (hd.proper hmem).le_size
    exact List.mem_range.mpr (by omega)
  have hle := (List.subperm_of_subset (hf c) hsub).length_le
  rw [List.length_range] at hle
  exact Nat.lt_of_le_of_lt hle (Nat.lt_trans a.size_lt (by decide))

/-- Blocks in use do not matter to the lists. -/
theorem used_iff (hb : b.isFree = false) : f.Of (xs ++ b :: ys) ↔ f.Of (xs ++ ys) := by
  refine forall_congr' fun c => forall_congr' fun x => iff_congr Iff.rfl
    (exists_congr fun d => ?_)
  constructor
  · rintro ⟨hd, hfree, hrest⟩
    refine ⟨?_, hfree, hrest⟩
    rcases List.mem_append.mp hd with hd | hd
    · exact List.mem_append_left _ hd
    · rcases List.mem_cons.mp hd with rfl | hd
      · rw [hb] at hfree
        cases hfree
      · exact List.mem_append_right _ hd
  · rintro ⟨hd, hrest⟩
    refine ⟨?_, hrest⟩
    rcases List.mem_append.mp hd with hd | hd
    · exact List.mem_append_left _ hd
    · exact List.mem_append_right _ (List.mem_cons_of_mem _ hd)

/-- Filing a free block by its size makes the lists hold it. -/
theorem push (h : f.Of (xs ++ ys)) (hb : b.isFree = true) :
    (f.push b.start (SizeClass.ofSize b.size)).Of (xs ++ b :: ys) := by
  intro c x
  rw [mem_push_iff, h c x]
  constructor
  · rintro (⟨rfl, rfl⟩ | ⟨d, hd, hfree, hstart, hclass⟩)
    · exact ⟨b, List.mem_append_right _ List.mem_cons_self, hb, rfl, rfl⟩
    · refine ⟨d, ?_, hfree, hstart, hclass⟩
      rcases List.mem_append.mp hd with hd | hd
      · exact List.mem_append_left _ hd
      · exact List.mem_append_right _ (List.mem_cons_of_mem _ hd)
  · rintro ⟨d, hd, hfree, rfl, rfl⟩
    rcases List.mem_append.mp hd with hd | hd
    · exact Or.inr ⟨d, List.mem_append_left _ hd, hfree, rfl, rfl⟩
    · rcases List.mem_cons.mp hd with rfl | hd
      · exact Or.inl ⟨rfl, rfl⟩
      · exact Or.inr ⟨d, List.mem_append_right _ hd, hfree, rfl, rfl⟩

/-- Blocks that are taken out of the lists need not be there any more. -/
theorem dropAll (h : f.Of (xs ++ mid ++ ys)) (hf : ∀ c, (f c).Nodup)
    (hstart : ((xs ++ mid ++ ys).map Block.start).Nodup) :
    (f.dropAll (mid.map Block.start)).Of (xs ++ ys) := by
  have hapart {b : Block} (hb : b ∈ xs ++ ys) : b.start ∉ mid.map Block.start := by
    rw [List.append_assoc, List.map_append, List.map_append, List.nodup_append,
      List.nodup_append] at hstart
    obtain ⟨-, ⟨-, -, hright⟩, hleft⟩ := hstart
    intro hmem
    rcases List.mem_append.mp hb with hb | hb
    · exact hleft _ (List.mem_map_of_mem hb) _ (List.mem_append_left _ hmem) rfl
    · exact hright _ hmem _ (List.mem_map_of_mem hb) rfl
  intro c x
  rw [mem_dropAll_iff hf, h c x]
  constructor
  · rintro ⟨hx, b, hb, hfree, rfl, hclass⟩
    refine ⟨b, ?_, hfree, rfl, hclass⟩
    rcases List.mem_append.mp hb with hb | hb
    · rcases List.mem_append.mp hb with hb | hb
      · exact List.mem_append_left _ hb
      · exact absurd (List.mem_map_of_mem hb) hx
    · exact List.mem_append_right _ hb
  · rintro ⟨b, hb, hfree, rfl, hclass⟩
    refine ⟨hapart hb, b, ?_, hfree, rfl, hclass⟩
    rcases List.mem_append.mp hb with hb | hb
    · exact List.mem_append_left _ (List.mem_append_left _ hb)
    · exact List.mem_append_right _ hb

end Filing.Of

/-- What holds of a heap also in the middle of an operation: its blocks are `bs`, its buckets
are lists, and the rover and the chunk are such that the next operations can work. -/
structure Heap.Shaped (h : Heap) (bs : List Block) (f : Filing) : Prop where
  divided : h.arena.Divided h.first bs
  files : h.buckets.Files f
  rover_mem : h.rover = h.prologue ∨ h.rover ∈ bs.map Block.start
  chunk_mod : h.config.chunk % 16 = 0
  le_chunk : 48 ≤ h.config.chunk
  chunk_lt : h.config.chunk < wordLimit

/-- A heap in good order: the lists hold the free blocks, and no two neighbours are free. -/
structure Heap.Holds (h : Heap) (bs : List Block) (f : Filing) : Prop
    extends h.Shaped bs f where
  filed : f.Of bs
  spaced : Block.Spaced bs

/-- A heap with a free block `b` that is in no list and may lie beside other free blocks. -/
structure Heap.Pending (h : Heap) (xs : List Block) (b : Block) (ys : List Block) (f : Filing) :
    Prop extends h.Shaped (xs ++ b :: ys) f where
  isFree : b.isFree = true
  filed : f.Of (xs ++ ys)
  spaced_below : Block.Spaced xs
  spaced_above : Block.Spaced ys

namespace Heap.Holds

variable {h : Heap} {b : Block} {xs ys : List Block} {f : Filing}

/-- Two blocks in use are told apart by where they start. -/
theorem eq_of_start_eq {bs : List Block} {c : Block} (hh : h.Holds bs f) (hb : b ∈ Block.inUse bs)
    (hc : c ∈ Block.inUse bs) (hstart : b.start = c.start) : b = c :=
  hh.divided.tiled.eq_of_start_eq (Block.mem_inUse_iff.mp hb).1 (Block.mem_inUse_iff.mp hc).1
    hstart

/-- The blocks behind any block of a heap are spaced. -/
theorem spaced_behind (hh : h.Holds (xs ++ b :: ys) f) : Block.Spaced ys :=
  (Block.spaced_cons.mp hh.spaced.right).2

/-- When a block is taken out of the lists, they hold the free ones among the others. -/
theorem filed_without (hh : h.Holds (xs ++ b :: ys) f) : (f.drop b.start).Of (xs ++ ys) := by
  have hnodup : ((xs ++ [b] ++ ys).map Block.start).Nodup := by
    rw [List.append_assoc, List.singleton_append]
    exact hh.divided.nodup
  have hfiled : f.Of (xs ++ [b] ++ ys) := by
    rw [List.append_assoc, List.singleton_append]
    exact hh.filed
  exact hfiled.dropAll hh.files.nodup hnodup

end Heap.Holds

/-- The payloads of some blocks are the same in two arenas. -/
def Arena.Keeps (a a' : Arena) (bs : List Block) : Prop :=
  ∀ b ∈ bs, ∀ j, b.InPayload j → a'.memory.read j = a.memory.read j

namespace Arena.Keeps

variable {a a' a'' : Arena} {bs cs : List Block}

/-- An arena keeps all its own payloads. -/
theorem refl (a : Arena) (bs : List Block) : a.Keeps a bs := fun _ _ _ _ => rfl

/-- Whoever keeps the payloads of some blocks keeps those of fewer blocks. -/
theorem mono (h : a.Keeps a' bs) (hsub : ∀ b ∈ cs, b ∈ bs) : a.Keeps a' cs :=
  fun b hb => h b (hsub b hb)

/-- Payloads kept by one step and then by the next one are kept. -/
theorem trans (h : a.Keeps a' bs) (h' : a'.Keeps a'' bs) : a.Keeps a'' bs :=
  fun b hb j hj => (h' b hb j hj).trans (h b hb j hj)

end Arena.Keeps

/-- Changes inside the span of one block keep the payloads of all others. -/
theorem Arena.Divided.keeps {a a' c : Arena} {first : Nat} {P : Nat → Prop} {b : Block}
    {xs ys : List Block} (h : c.Divided first (xs ++ b :: ys)) (hedit : a.Edited a' P)
    (hP : ∀ j, P j → b.InSpan j) : a.Keeps a' (xs ++ ys) := by
  intro d hd j hj
  apply hedit.read_eq j
  intro hPj
  have hin := hP j hPj
  have hdmem : d ∈ xs ++ b :: ys := Block.mem_insert hd
  have hsize := (h.proper hdmem).le_size
  have hfirst := h.le_first
  have hbounds := h.bounds h.mem_middle
  unfold Block.InSpan at hin
  unfold Block.InPayload at hj
  rcases h.apart hdmem h.mem_middle with rfl | hlow | hhigh
  · exact h.start_ne hd rfl
  · omega
  · omega

end SegregatedFit
