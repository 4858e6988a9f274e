import SegregatedFit.Proofs.Forging
import SegregatedFit.Proofs.Merging
import SegregatedFit.Heap.Allocation

/-!
# Free blocks that come into being

A block becomes free when it is given back or when the heap grows. Both times it is pending
at first, is merged with the free blocks beside it and then filed, and the heap is in good
order again. The payloads of all blocks in use are kept.
-/

namespace SegregatedFit

/-- A block with the same bytes that is free. -/
def Block.freed (b : Block) : Block := ⟨b.start, .free b.size⟩

/-- Freeing a block does not move it. -/
@[simp] theorem Block.start_freed (b : Block) : b.freed.start = b.start := rfl

/-- Freeing a block does not change its size. -/
@[simp] theorem Block.size_freed (b : Block) : b.freed.size = b.size := rfl

/-- The lists after some blocks have left them and become parts of one that is filed. -/
def Filing.merge (f : Filing) (parts : List Nat) (m : Block) : Filing :=
  (f.dropAll parts).push m.start (SizeClass.ofSize m.size)

namespace Heap

variable {h : Heap} {bs xs ys : List Block} {b u : Block} {f : Filing} {words amount : Nat}

/-- A heap in which one more block is filed. -/
def filedWith (h : Heap) (b : Block) : Heap :=
  ⟨h.arena, h.buckets.withFirst b.start b.size, h.config, h.prologue, h.rover⟩

/-- A pending block is in no list. -/
theorem Pending.not_filed (hp : h.Pending xs b ys f) (c : SizeClass) : b.start ∉ f c := by
  intro hmem
  obtain ⟨d, hd, -, hstart, -⟩ := (hp.filed c b.start).mp hmem
  exact hp.divided.start_ne hd hstart

/-- Filing a pending block between blocks in use restores good order. -/
theorem Pending.settle (hp : h.Pending xs b ys f) (hbelow : Block.ClosedBelow xs)
    (habove : Block.ClosedAbove ys) :
    (h.filedWith b).Holds (xs ++ b :: ys) (f.push b.start (SizeClass.ofSize b.size)) where
  divided := hp.divided
  files := hp.files.withFirst hp.not_filed
  rover_mem := hp.rover_mem
  chunk_mod := hp.chunk_mod
  le_chunk := hp.le_chunk
  chunk_lt := hp.chunk_lt
  filed := hp.filed.push hp.isFree
  spaced := hp.spaced_below.insert hp.spaced_above hbelow habove

/-- A pending block can be filed. -/
theorem Pending.push (hp : h.Pending xs b ys f) :
    h.buckets.push b.start b.size = .ok (h.buckets.withFirst b.start b.size) :=
  hp.files.push ((hp.filed.push hp.isFree).counted hp.divided
    (hp.files.withFirst hp.not_filed).nodup)

private theorem Pending.file (hp : h.Pending xs b ys f) : h.file b.start = .ok (h.filedWith b) := by
  rw [Heap.file, hp.divided.sizeOf hp.divided.mem_middle, Fault.ok_bind, hp.push]
  rfl

/-- The pending block can be filed: its bucket is not longer than there are blocks. -/
theorem Pending.refile (hp : h.Pending xs b ys f) :
    h.buckets.refile b.start b.size = .ok (h.buckets.withFirst b.start b.size) := by
  rw [Buckets.refile, Buckets.erase_of_linksOf_eq_none (hp.files.unlisted hp.not_filed)]
  exact hp.push

/-- Blocks that are merged lie inside of what comes of them. -/
theorem joined_covers {a : Arena} {c : Block} (hd : a.Divided h.first (xs ++ b :: ys))
    (hc : c ∈ (Block.below xs).toList ++ b :: (Block.above ys).toList) :
    (h.joined xs b ys).Covers c := by
  have htiled := hd.tiled
  rw [← Block.trim_append xs b ys, Arena.tiled_append, Arena.tiled_append] at htiled
  exact htiled.2.1.bounds hc

/-- The joined block spans what the block it is made from spans. -/
theorem joined_inSpan {a : Arena} {j : Nat} (hd : a.Divided h.first (xs ++ b :: ys))
    (hj : b.InSpan j) : (h.joined xs b ys).InSpan j := by
  obtain ⟨hlow, hhigh⟩ := joined_covers hd (List.mem_append_right _ List.mem_cons_self)
  unfold Block.InSpan at hj ⊢
  omega

/-- With which neighbours a block is joined does not depend on whether it is free itself. -/
theorem joined_freed (h : Heap) (xs : List Block) (u : Block) (ys : List Block) :
    h.joined xs u.freed ys = h.joined xs u ys := by
  simp [joined, merged]

/-- The block that a pending one was merged into settles between blocks in use. -/
theorem Pending.settle_joined {h' : Heap} {m : Block} {g : Filing}
    (hp : h'.Pending (Block.trimEnd xs) m (Block.trimStart ys) g) (hxs : Block.Spaced xs)
    (hys : Block.Spaced ys) :
    (h'.filedWith m).Holds (Block.trimEnd xs ++ m :: Block.trimStart ys)
      (g.push m.start (SizeClass.ofSize m.size)) :=
  hp.settle hxs.closedBelow_trimEnd hys.closedAbove_trimStart

/-- A block in use becomes pending when its tags say that it is free. -/
theorem Holds.pend (hh : h.Holds (xs ++ u :: ys) f) (hu : u.isFree = false) :
    ∃ a, h.arena.stamp u.start (.free u.size) = .ok a ∧
      Pending ⟨a, h.buckets, h.config, h.prologue, h.rover⟩ xs u.freed ys f ∧
      h.arena.Edited a u.freed.OnTag := by
  have hsplit : h.arena.Divided h.first (xs ++ [u] ++ ys) := by simpa using hh.divided
  have hstart := hh.divided.start_eq
  have hproper := hh.divided.proper hh.divided.mem_middle
  have hfreed : Block.Proper ⟨h.first + Block.totalSize xs, .free u.size⟩ :=
    ⟨hproper.size_mod, hproper.le_size⟩
  obtain ⟨a, hstamp, hedit, hdivided⟩ := hsplit.restamp hfreed rfl
  rw [← hstart] at hstamp hedit hdivided
  refine ⟨a, hstamp, ⟨⟨hdivided, hh.files, ?_, hh.chunk_mod, hh.le_chunk, hh.chunk_lt⟩, rfl,
    (Filing.Of.used_iff hu).mp hh.filed, hh.spaced.left, hh.spaced_behind⟩, hedit⟩
  simpa using hh.rover_mem

/-- The blocks in use around a joined block are those around the block that was joined. -/
theorem inUse_joined (h : Heap) (xs : List Block) (b : Block) (ys : List Block) :
    Block.inUse (Block.trimEnd xs ++ h.joined xs b ys :: Block.trimStart ys) =
      Block.inUse (xs ++ ys) := by
  rw [Block.inUse_append, Block.inUse_cons_of_free rfl, Block.inUse_trimEnd,
    Block.inUse_trimStart, Block.inUse_append]

/-- Merging forges no header of a block in use. -/
theorem Pending.unforged {h' : Heap} {g : Filing} (hp : h.Pending xs b ys f)
    (hp' : h'.Pending (Block.trimEnd xs) (h.joined xs b ys) (Block.trimStart ys) g)
    (hedit : h.arena.Edited h'.arena (h.joined xs b ys).OnTag) (halike : h.Alike h')
    (hu : h.Unforged (xs ++ b :: ys)) :
    h'.Unforged (Block.trimEnd xs ++ h.joined xs b ys :: Block.trimStart ys) := by
  have hfirst : h'.first = h.first := congrArg (· + wordBytes) halike.prologue_eq
  have hdivided := hp'.divided
  rw [hfirst] at hdivided
  rw [Heap.Unforged, hfirst]
  apply Arena.Unforged.stamped hu hdivided hdivided.mem_middle hedit
  intro c hc
  rw [Block.inUse_append, Block.inUse_cons_of_free hp.isFree, ← Block.inUse_append,
    ← h.inUse_joined xs b ys] at hc
  exact List.mem_map_of_mem (Block.mem_inUse_iff.mp hc).1

/-- Giving a block back joins it with the free blocks right beside it. -/
theorem Holds.releaseBlock (hh : h.Holds (xs ++ u :: ys) f) (hu : u.isFree = false) :
    ∃ h', (h.releaseBlock u.start).outcome = .ok h' ∧
      h'.Holds (Block.trimEnd xs ++ h.joined xs u.freed ys :: Block.trimStart ys)
        (f.merge (besides xs ys) (h.joined xs u.freed ys)) ∧
      h.arena.Edited h'.arena (fun j => u.OnTag j ∨ (h.joined xs u.freed ys).OnTag j) ∧
      h.Alike h' ∧ h'.rover = h.roverAfter (Block.trimEnd xs)
        ((Block.below xs).toList ++ u.freed :: (Block.above ys).toList) ∧
      (h.Unforged (xs ++ u :: ys) →
        h'.Unforged (Block.trimEnd xs ++ h.joined xs u.freed ys :: Block.trimStart ys)) ∧
      ∀ x, 8 ≤ x → x % 16 = 0 → h'.arena.Flagged x → h.arena.Flagged x ∧ x ≠ u.start := by
  obtain ⟨a, hstamp, hp, hedit⟩ := hh.pend hu
  obtain ⟨h', hrun, hp', hedit', halike, hrover⟩ := hp.coalesce
  have hsizeOf := hp'.divided.sizeOf hp'.divided.mem_middle
  have hrefile := hp'.refile
  rw [Block.start_freed] at hrun
  refine ⟨h'.filedWith (h.joined xs u.freed ys), ?_, ?_, hedit.trans hedit', ⟨halike.config_eq,
    halike.prologue_eq, ?_⟩, hrover, ?_, fun x hlow hx hflag => ?_⟩
  · simp only [Heap.releaseBlock, Run.outcome_bind, Run.outcome_liftM, Run.outcome_pure,
      hh.divided.sizeOf hh.divided.mem_middle, hstamp, hrun, Fault.ok_bind]
    obtain ⟨arena, buckets, config, prologue, rover⟩ := h'
    simp only [hsizeOf, hrefile, Fault.ok_bind]
    rfl
  · exact hp'.settle_joined hp.spaced_below hp.spaced_above
  · exact halike.limit_eq.trans hedit.limit_eq
  · intro hunforged
    apply hp.unforged hp' hedit' halike
    apply Arena.Unforged.stamped hunforged hp.divided hp.divided.mem_middle hedit
    intro c hc
    have hstarts : (xs ++ u.freed :: ys).map Block.start = (xs ++ u :: ys).map Block.start := by
      simp
    rw [hstarts]
    exact List.mem_map_of_mem (Block.mem_inUse_iff.mp hc).1
  · have hkept := (hp'.divided.flagged_of_stamped hp'.divided.mem_middle hp'.isFree hedit' hlow hx
      hflag).1
    obtain ⟨hold, hne⟩ :=
      hp.divided.flagged_of_stamped hp.divided.mem_middle hp.isFree hedit hlow hx hkept
    exact ⟨hold, hne⟩

/-- Every block from before a release is covered by a block from after it. -/
theorem Holds.covered_of_release (hh : h.Holds (xs ++ u :: ys) f) {c : Block}
    (hc : c ∈ xs ++ u :: ys) :
    ∃ d ∈ Block.trimEnd xs ++ h.joined xs u.freed ys :: Block.trimStart ys, d.Covers c := by
  rw [joined_freed]
  rw [← Block.trim_append xs u ys, List.mem_append, List.mem_append] at hc
  rcases hc with hc | hc | hc
  · exact ⟨c, List.mem_append_left _ hc, Block.Covers.refl c⟩
  · exact ⟨_, List.mem_append_right _ List.mem_cons_self, joined_covers hh.divided hc⟩
  · exact ⟨c, List.mem_append_right _ (List.mem_cons_of_mem _ hc), Block.Covers.refl c⟩

/-- The rover of a heap in good order is at home. -/
theorem Holds.home_rover (hh : h.Holds bs f) : Block.home bs h.rover = h.rover := by
  rcases hh.rover_mem with hrover | hrover
  · apply Block.home_eq_self
    intro b hb hin
    have hbounds := hh.divided.bounds hb
    have hdef : h.first = h.prologue + 8 := rfl
    omega
  · obtain ⟨b, hb, hstart⟩ := List.mem_map.mp hrover
    have hsize := (hh.divided.proper hb).le_size
    rw [← hstart]
    exact hh.divided.tiled.home_eq hb (Nat.le_refl _) (by omega)

/-- After a release the rover is where the block starts that it lies in now. -/
theorem Holds.roverAfter_eq_home {h' : Heap} {g : Filing} (hh : h.Holds (xs ++ u :: ys) f)
    (hh' : h'.Holds (Block.trimEnd xs ++ h.joined xs u.freed ys :: Block.trimStart ys) g)
    (halike : h.Alike h') :
    h.roverAfter (Block.trimEnd xs)
        ((Block.below xs).toList ++ u.freed :: (Block.above ys).toList) =
      Block.home (Block.trimEnd xs ++ h.joined xs u.freed ys :: Block.trimStart ys) h.rover := by
  have hfirst : h'.first = h.first := congrArg (· + wordBytes) halike.prologue_eq
  have htiled := hh'.divided.tiled
  have hmerged : h.merged (Block.trimEnd xs) ((Block.below xs).toList ++ u.freed ::
      (Block.above ys).toList) = h.joined xs u ys := h.joined_freed xs u ys
  have hrun : ((Block.below xs).toList ++ u.freed :: (Block.above ys).toList).map Block.start =
      ((Block.below xs).toList ++ u :: (Block.above ys).toList).map Block.start := by
    simp
  rw [roverAfter, hrun, hmerged]
  rw [joined_freed] at htiled ⊢
  split
  · next hin =>
    obtain ⟨c, hc, hstart⟩ := List.mem_map.mp hin
    obtain ⟨hlow, hhigh⟩ := joined_covers hh.divided hc
    have hmem : c ∈ xs ++ u :: ys := by
      rw [← Block.trim_append xs u ys]
      exact List.mem_append_right _ (List.mem_append_left _ hc)
    have hsize := (hh.divided.proper hmem).le_size
    rw [← hstart]
    exact (htiled.home_eq (List.mem_append_right _ List.mem_cons_self) hlow (by omega)).symm
  · next hoff =>
    rcases hh.rover_mem with hrover | hrover
    · symm
      apply Block.home_eq_self
      intro c hc hin
      have hbounds := htiled.bounds hc
      have hdef : h.first = h.prologue + 8 := rfl
      omega
    · obtain ⟨c, hc, hstart⟩ := List.mem_map.mp hrover
      have hmem : c ∈ Block.trimEnd xs ++ h.joined xs u ys :: Block.trimStart ys := by
        rw [← Block.trim_append xs u ys, List.mem_append, List.mem_append] at hc
        rcases hc with hc | hc | hc
        · exact List.mem_append_left _ hc
        · exact absurd (hstart ▸ List.mem_map_of_mem hc) hoff
        · exact List.mem_append_right _ (List.mem_cons_of_mem _ hc)
      have hsize := (htiled.proper hmem).le_size
      rw [← hstart]
      exact (htiled.home_eq hmem (Nat.le_refl _) (by omega)).symm

/-- The number of bytes that a growth by some words asks for. -/
theorem extend_amount (hwords : (if words % 2 = 1 then words + 1 else words) * 8 = amount)
    (hlt : amount < wordLimit) :
    Word.ofNat (if words % 2 = 1 then words + 1 else words) =
        .ok (if words % 2 = 1 then words + 1 else words) ∧
      Word.mul (if words % 2 = 1 then words + 1 else words) wordBytes = .ok amount ∧
      amount % 16 = 0 := by
  have hbound : amount < 18446744073709551616 := hlt
  refine ⟨Word.ofNat_of_lt (by omega), ?_, ?_⟩
  · rw [← hwords] at hlt ⊢
    exact Word.mul_of_lt hlt
  · split at hwords <;> omega

/-- The free block at the end after growing: the new bytes, and a free block in front of them. -/
def grown (h : Heap) (bs : List Block) (amount : Nat) : Block :=
  h.joined bs ⟨h.arena.size, .free amount⟩ []

/-- `h'` is what growing by some bytes makes of `h`: there is one free block at the end, and
everything in front of it is kept. -/
structure Extends (h : Heap) (bs : List Block) (f : Filing) (amount : Nat) (h' : Heap) :
    Prop where
  holds : h'.Holds (Block.trimEnd bs ++ [h.grown bs amount])
    (f.merge (besides bs []) (h.grown bs amount))
  keeps : h.arena.Keeps h'.arena (Block.trimEnd bs)
  alike : h.Alike h'
  rover_eq : h'.rover = h.roverAfter (Block.trimEnd bs)
    ((Block.below bs).toList ++ [⟨h.arena.size, .free amount⟩])
  unforged : h.Unforged bs → h'.Unforged (Block.trimEnd bs ++ [h.grown bs amount])

/-- Growing adds one free block, joined with a free block at the end. Of the bytes in front of the
old end it changes no more than a header. -/
theorem Holds.extend_frame (hh : h.Holds bs f)
    (hwords : (if words % 2 = 1 then words + 1 else words) * 8 = amount) (hle : 48 ≤ amount)
    (hlt : amount < wordLimit) (hroom : amount ≤ h.arena.memory.limit - h.arena.memory.size) :
    ∃ h', (h.extend words).outcome = .ok (.ok (h.grown bs amount).start, h') ∧
      h.Extends bs f amount h' ∧ ∀ j, j < h.arena.size - 8 → ¬ (h.grown bs amount).OnTag j →
        h'.arena.memory.read j = h.arena.memory.read j := by
  obtain ⟨hword, hmul, hmod⟩ := extend_amount hwords hlt
  obtain ⟨a₁, a₂, a₃, hgrow, hstamp, hnext, hend, hkept, hlimit, hdivided⟩ :=
    hh.divided.grow ⟨hmod, hle⟩ hroom
  -- the new bytes are a block that is not filed yet, with nothing behind it
  have hp : Pending ⟨a₃, h.buckets, h.config, h.prologue, h.rover⟩ bs
      ⟨h.arena.size, .free amount⟩ [] f := by
    refine ⟨⟨hdivided, hh.files, ?_, hh.chunk_mod, hh.le_chunk, hh.chunk_lt⟩, rfl, ?_, hh.spaced,
      List.IsChain.nil⟩
    · apply hh.rover_mem.imp id
      intro hmem
      rw [List.map_append]
      exact List.mem_append_left _ hmem
    · rw [List.append_nil]
      exact hh.filed
  obtain ⟨h', hrun, hp', hedit, halike, hrover⟩ := hp.coalesce
  have hfile := hp'.file
  have hproper := hp'.divided.proper hp'.divided.mem_middle
  have hsize : a₃.size = h.arena.size + amount := by
    have hend := hdivided.size_eq
    have hold := hh.divided.size_eq
    rw [Block.totalSize_append, Block.totalSize_cons, Block.size_mk, Tag.size_free,
      Block.totalSize_nil] at hend
    omega
  refine ⟨h'.filedWith (h.grown bs amount), ?_, ⟨?_, ?_,
    ⟨halike.config_eq, halike.prologue_eq, halike.limit_eq.trans hlimit⟩, hrover, ?_⟩,
    fun j hj hoff => ?_⟩
  · simp only [Heap.extend, Run.outcome_bind, Run.outcome_liftM, Run.outcome_pure, hword, hmul,
      hgrow, Fault.ok_bind, hstamp, hnext, hend, hrun, hfile]
    rfl
  · exact hp'.settle_joined hp.spaced_below hp.spaced_above
  -- payloads are kept by the growth, and then by the merge
  · have hfirst : h.arena.Keeps a₃ (Block.trimEnd bs) := by
      intro b hb j hj
      have hmem : b ∈ bs := by
        rw [← Block.trimEnd_append bs]
        exact List.mem_append_left _ hb
      have hbounds := hh.divided.bounds hmem
      apply hkept j
      · exact hdivided.tag_apart (List.mem_append_left _ hmem) hdivided.mem_middle hj
      · unfold Block.InPayload at hj
        omega
    refine hfirst.trans ((hp'.divided.keeps hedit fun j hj => hproper.inSpan hj).mono ?_)
    intro b hb
    exact List.mem_append_left _ hb
  · intro hunforged
    apply hp.unforged hp' hedit halike
    apply Arena.Unforged.retag hunforged hdivided
    · exact fun j hoff => hkept j (hoff _ hdivided.mem_middle)
    · exact Or.inr (by simp)
    · intro c hc
      rw [List.map_append]
      exact List.mem_append_left _ (List.mem_map_of_mem (Block.mem_inUse_iff.mp hc).1)
  · have hnew : ¬ Block.OnTag ⟨h.arena.size, .free amount⟩ j := by
      change ¬ (h.arena.size - 8 ≤ j ∧ j < h.arena.size ∨
        h.arena.size + amount - 16 ≤ j ∧ j < h.arena.size + amount - 8)
      omega
    exact (hedit.read_eq j hoff).trans (hkept j hnew (by omega))

/-- Growing adds one free block, joined with a free block at the end. -/
theorem Holds.extend (hh : h.Holds bs f)
    (hwords : (if words % 2 = 1 then words + 1 else words) * 8 = amount) (hle : 48 ≤ amount)
    (hlt : amount < wordLimit) (hroom : amount ≤ h.arena.memory.limit - h.arena.memory.size) :
    ∃ h', (h.extend words).outcome = .ok (.ok (h.grown bs amount).start, h') ∧
      h.Extends bs f amount h' := by
  obtain ⟨h', hrun, he, -⟩ := hh.extend_frame hwords hle hlt hroom
  exact ⟨h', hrun, he⟩

/-- The block at the end is as large as the growth and the free block that was there. -/
theorem size_grown (h : Heap) (bs : List Block) (amount : Nat) :
    (h.grown bs amount).size = Block.totalSize (Block.below bs).toList + amount := by
  simp [grown, joined, Block.above]

/-- The block at the end begins where the free block in front of the new bytes begins, or with the
new bytes. -/
theorem start_grown (hd : h.arena.Divided h.first bs) (amount : Nat) :
    (h.grown bs amount).start = (Block.below bs).elim h.arena.size Block.start := by
  have hsplit := Block.trimEnd_append bs
  rw [grown, joined, merged]
  cases hbelow : Block.below bs with
  | none =>
    rw [hbelow, Option.toList_none, List.append_nil] at hsplit
    rw [hsplit]
    exact hd.size_eq.symm
  | some p =>
    rw [hbelow] at hsplit
    rw [← hsplit] at hd
    exact hd.start_eq.symm

/-- The arena is longer by what it has grown. -/
theorem Extends.size_eq {h' : Heap} (he : h.Extends bs f amount h') (hh : h.Holds bs f) :
    h'.arena.size = h.arena.size + amount := by
  have hfirst : h'.first = h.first := congrArg (· + wordBytes) he.alike.prologue_eq
  have hsize := hh.divided.size_eq
  have hsize' := he.holds.divided.size_eq
  rw [← Block.trimEnd_append bs] at hsize
  simp only [Block.totalSize_append, Block.totalSize_cons, Block.totalSize_nil, size_grown,
    hfirst] at hsize hsize'
  omega

/-- Growing past the limit is refused and changes nothing. -/
theorem extend_of_lt (hwords : (if words % 2 = 1 then words + 1 else words) * 8 = amount)
    (hlt : amount < wordLimit) (hroom : h.arena.memory.limit - h.arena.memory.size < amount) :
    (h.extend words).outcome = .ok
      (.error (.exhausted amount (h.arena.memory.limit - h.arena.memory.size)), h) := by
  obtain ⟨hword, hmul, hmod⟩ := extend_amount hwords hlt
  simp only [Heap.extend, Run.outcome_bind, Run.outcome_liftM, Run.outcome_pure, hword, hmul,
    Arena.grow_of_lt hmod hroom, Fault.ok_bind]

end Heap

end SegregatedFit
