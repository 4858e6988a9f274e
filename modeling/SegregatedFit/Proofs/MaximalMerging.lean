import SegregatedFit.Proofs.AnySettings
import SegregatedFit.Proofs.ExactPointers

/-!
# Merging is maximal

A block that became free lies in a run of free blocks between blocks in use or the sentinels. Of
such a run merging makes one block, whatever its length and wherever the block lies in it. The
blocks that were absorbed leave their lists, and all else stays as it was. What comes of them is
filed afterwards, and then the heap is sound.
-/

namespace SegregatedFit

namespace Block

/-- The blocks between `lower` and `upper` are the longest run of free blocks around `b`: all of
them are free, and right beside them are blocks in use or none. -/
structure MaximalRun (lower run upper : List Block) (b : Block) : Prop where
  mem : b ∈ run
  free : ∀ c ∈ run, c.isFree = true
  below : ClosedBelow lower
  above : ClosedAbove upper

/-- Where no other two neighbours are free, the run around a block reaches no further than the
blocks right beside it. -/
theorem Spaced.maximalRun {xs ys : List Block} {b : Block} (hxs : Spaced xs) (hys : Spaced ys)
    (hb : b.isFree = true) :
    MaximalRun (Block.trimEnd xs) ((Block.below xs).toList ++ b :: (Block.above ys).toList)
      (Block.trimStart ys) b where
  mem := List.mem_append_right _ List.mem_cons_self
  free c hc := by
    rcases List.mem_append.mp hc with hc | hc
    · exact isFree_of_below (Option.mem_toList.mp hc)
    · rcases List.mem_cons.mp hc with rfl | hc
      · exact hb
      · exact isFree_of_above (Option.mem_toList.mp hc)
  below := hxs.closedBelow_trimEnd
  above := hys.closedAbove_trimStart

/-- Among nothing but free blocks the longest run is all of them. -/
theorem MaximalRun.eq_nil_of_free {lower run upper : List Block} {b : Block}
    (h : MaximalRun lower run upper b) (hfree : ∀ c ∈ lower ++ run ++ upper, c.isFree = true) :
    lower = [] ∧ upper = [] := by
  have hnot {c : Block} (hc : c ∈ lower ++ run ++ upper) : c.isFree ≠ false := by
    rw [hfree c hc]
    decide
  constructor
  · apply List.getLast?_eq_none_iff.mp
    rw [Option.eq_none_iff_forall_not_mem]
    intro c hc
    refine hnot ?_ (h.below c hc)
    exact List.mem_append_left _ (List.mem_append_left _ (List.mem_of_getLast? hc))
  · apply List.head?_eq_none_iff.mp
    rw [Option.eq_none_iff_forall_not_mem]
    intro c hc
    exact hnot (List.mem_append_right _ (List.mem_of_head? hc)) (h.above c hc)

end Block

namespace Heap

variable {h h' : Heap} {xs ys lower run upper : List Block} {b : Block} {f : Filing}

/-- `h'` is what merging a run of free blocks makes of `h`. The run is one block in no list, its
blocks have left the lists, only the tags of the whole are written, and a rover that was on the run
is at its start. -/
structure Merges (h : Heap) (lower run upper : List Block) (f : Filing) (h' : Heap) : Prop where
  unsettled : h'.Unsettled lower (h.merged lower run) upper (f.without (run.map Block.start))
  edited : h.arena.Edited h'.arena (h.merged lower run).OnTag
  alike : h.Alike h'
  rover_eq : h'.rover =
    if h.rover ∈ run.map Block.start then (h.merged lower run).start else h.rover

/-- The block that is merged is in no list, so only those beside it leave one. -/
theorem Unsettled.without_run (hu : h.Unsettled xs b ys f) :
    f.dropAll (besides xs ys) = f.without
      (((Block.below xs).toList ++ b :: (Block.above ys).toList).map Block.start) := by
  rw [Filing.dropAll_eq_without hu.files.nodup]
  funext c
  apply List.filter_congr
  intro x hx
  have hne : x ≠ b.start := by
    rintro rfl
    exact hu.pending.not_filed c hx
  simp [besides, hne]

/-- Coalescing merges the run of free blocks around a block. -/
theorem Unsettled.merges (hu : h.Unsettled xs b ys f) :
    ∃ h', (h.coalesce b.start).outcome = .ok ((h.joined xs b ys).start, h') ∧
      h.Merges (Block.trimEnd xs) ((Block.below xs).toList ++ b :: (Block.above ys).toList)
        (Block.trimStart ys) f h' := by
  obtain ⟨h₁, hrun, hp, hedit, halike, hrover⟩ := hu.pending.coalesce
  refine ⟨h₁.withGrowth h.config.chunk,
    outcome_of_withGrowth (F := fun h => h.coalesce b.start)
      (fun h chunk => h.coalesce_withGrowth chunk b.start) hrun,
    ?_, hedit, halike.withGrowth, hrover⟩
  rw [← hu.without_run]
  exact hp.unsettled.withGrowth h.config.chunk

/-- An unsettled block can be filed by the size in its header. -/
theorem Unsettled.file (hu : h.Unsettled xs b ys f) : h.file b.start = .ok (h.filedWith b) := by
  have hpush : h.buckets.push b.start b.size = .ok (h.buckets.withFirst b.start b.size) :=
    hu.pending.push
  rw [Heap.file, hu.divided.sizeOf hu.divided.mem_middle, Fault.ok_bind, hpush]
  rfl

/-- Filing an unsettled block between blocks in use makes the heap sound. -/
theorem Unsettled.settle (hu : h.Unsettled xs b ys f) (hbelow : Block.ClosedBelow xs)
    (habove : Block.ClosedAbove ys) :
    (h.filedWith b).Sound (xs ++ b :: ys) (f.push b.start (SizeClass.ofSize b.size)) :=
  (hu.pending.settle hbelow habove).sound.withGrowth h.config.chunk

/-- A merged run begins where its first block does. -/
theorem start_merged (hd : h.arena.Divided h.first (lower ++ run ++ upper)) (hb : b ∈ run) :
    run.head?.map Block.start = some (h.merged lower run).start := by
  cases run with
  | nil => cases hb
  | cons c rest =>
    have hsplit : h.arena.Divided h.first (lower ++ c :: (rest ++ upper)) := by simpa using hd
    exact congrArg some hsplit.start_eq

/-- Coalescing a block that is free and in no list makes one free block of the maximal run of free
blocks around it, and answers where that begins. All other blocks stay, and so do all bytes but the
header and the footer of the whole, which lies between the sentinels. The links of the absorbed
blocks are gone, the whole has none, and every bucket is the old one without them. The rover is at
the whole if it was on the run. Filing the whole by its size makes the heap sound. -/
theorem Unsettled.coalesce_maximal (hu : h.Unsettled xs b ys f) :
    ∃ lower run upper m h' h'', xs ++ b :: ys = lower ++ run ++ upper ∧
      Block.MaximalRun lower run upper b ∧
      m = h.merged lower run ∧ run.head?.map Block.start = some m.start ∧
      h.first ≤ m.start ∧ m.start + m.size ≤ h.arena.size ∧
      (h.coalesce b.start).outcome = .ok (m.start, h') ∧ h.Merges lower run upper f h' ∧
      h'.blocks = ⟨lower ++ m :: upper, none⟩ ∧ h'.arena.Marks m ∧
      (∀ c, h.buckets.walk c = ⟨f c, none⟩ ∧
        h'.buckets.walk c = ⟨(f c).filter fun x => decide (x ∉ run.map Block.start), none⟩) ∧
      (∀ x, (h'.buckets.linksOf x).isSome ↔
        (h.buckets.linksOf x).isSome ∧ x ∉ run.map Block.start) ∧
      h'.buckets.linksOf m.start = none ∧
      h'.file m.start = .ok h'' ∧ h'.buckets.refile m.start m.size = .ok h''.buckets ∧
      h''.Sound (lower ++ m :: upper)
        ((f.without (run.map Block.start)).push m.start (SizeClass.ofSize m.size)) := by
  have hsplit := Block.trim_append xs b ys
  have hmaximal := hu.spaced_below.maximalRun hu.spaced_above hu.isFree
  obtain ⟨h', hrun, hm⟩ := hu.merges
  have hd := hu.divided
  rw [← hsplit, ← List.append_assoc] at hd
  have hu' := hm.unsettled
  have hbounds := hu'.divided.bounds hu'.divided.mem_middle
  have hfirst : h'.first = h.first := congrArg (· + wordBytes) hm.alike.prologue_eq
  rw [hfirst, hm.edited.size_eq] at hbounds
  refine ⟨_, _, _, _, h', h'.filedWith (h.joined xs b ys), ?_, hmaximal, rfl,
    start_merged hd hmaximal.mem, hbounds.1, hbounds.2, hrun, hm, hu'.pending.blocks_eq,
    hu'.divided.tiled.marks hu'.divided.mem_middle,
    fun c => ⟨hu.files.walk_eq c, hu'.files.walk_eq c⟩, fun x => ?_,
    hu'.files.unlisted hu'.pending.not_filed, hu'.file, hu'.pending.refile,
    hu'.settle hmaximal.below hmaximal.above⟩
  · rw [List.append_assoc, hsplit]
  · rw [hu'.files.linksOf_isSome_iff, hu.files.linksOf_isSome_iff]
    simp only [Filing.mem_without_iff, exists_and_right]

/-- A block in use between two free ones became free. All three are merged. -/
theorem Unsettled.coalesce_maximal_of_three : ∃ (h : Heap) (xs : List Block) (b : Block)
    (ys : List Block) (f : Filing) (h' : Heap), h.Unsettled xs b ys f ∧
    xs ++ b :: ys = [⟨16, .free 48⟩, ⟨64, .free 48⟩, ⟨112, .free 96⟩] ∧ b.start = 64 ∧
    (h.coalesce 64).outcome = .ok (16, h') ∧ h'.blocks = ⟨[⟨16, .free 192⟩], none⟩ := by
  let memory : Memory := .growable ⟨ByteArray.empty, 4096, by decide, by decide⟩
  let config : Config := { chunk := 192 }
  have hblank : memory.Blank := Memory.blank_of_ofLimit (dif_pos (by decide))
  have heval : ((Heap.setup memory config).outcome.toOption.any fun answer =>
      answer.toOption.any fun new =>
        (new.perform (.allocate 30)).outcome.toOption.any fun lower =>
          (lower.2.perform (.allocate 30)).outcome.toOption.any fun upper =>
            (upper.2.perform (.release (some 16))).outcome.toOption.any fun released =>
              decide (released.2.blocks.items =
                [⟨16, .free 48⟩, ⟨64, .used 48⟩, ⟨112, .free 96⟩])) = true := by
    decide +kernel
  obtain ⟨_, hsetup, hanswer⟩ := Fault.ok_of_any heval
  obtain ⟨new, rfl, hnew⟩ := Fault.ok_of_any hanswer
  obtain ⟨lower, hlower, hnext⟩ := Fault.ok_of_any hnew
  obtain ⟨upper, hupper, hnext⟩ := Fault.ok_of_any hnext
  obtain ⟨released, hreleased, hblocks⟩ := Fault.ok_of_any hnext
  have hallocates : ¬ (Call.allocate 30).Writes := id
  have hreleases : ¬ (Call.release (some 16)).Writes := id
  have hunwritten : UnwrittenRun released.2 :=
    (((UnwrittenRun.start hblank hsetup).step hallocates hlower).step hallocates hupper).step
      hreleases hreleased
  obtain ⟨bs, f, he⟩ := hunwritten.exact
  have hbs : bs = [⟨16, .free 48⟩] ++ ⟨64, .used 48⟩ :: [⟨112, .free 96⟩] := by
    rw [List.singleton_append, ← of_decide_eq_true hblocks, he.blocks_eq]
  obtain ⟨hh, hprologue, -⟩ := he
  rw [hbs] at hh
  obtain ⟨a, -, hp, -⟩ := hh.pend rfl
  let freed : Heap := ⟨a, released.2.buckets, released.2.config, released.2.prologue,
    released.2.rover⟩
  have hu : freed.Unsettled [⟨16, .free 48⟩] ⟨64, .free 48⟩ [⟨112, .free 96⟩] f :=
    hp.unsettled
  obtain ⟨lower, run, upper, m, h', -, hsplit, hmaximal, rfl, -, -, -, hrun, -, hblocks, -⟩ :=
    Unsettled.coalesce_maximal hu
  have hfree : ∀ c ∈ lower ++ run ++ upper, c.isFree = true := by
    rw [← hsplit]
    decide
  obtain ⟨rfl, rfl⟩ := hmaximal.eq_nil_of_free hfree
  have hall : run = [⟨16, .free 48⟩, ⟨64, .free 48⟩, ⟨112, .free 96⟩] := by simpa using hsplit.symm
  subst hall
  have hfirst : freed.first = 16 := congrArg (· + wordBytes) hprologue
  have hmerged : freed.merged [] [⟨16, .free 48⟩, ⟨64, .free 48⟩, ⟨112, .free 96⟩] =
      ⟨16, .free 192⟩ := by
    rw [merged, hfirst]
    rfl
  rw [hmerged] at hrun hblocks
  exact ⟨freed, _, _, _, f, h', hu, rfl, rfl, hrun, hblocks⟩

end Heap

end SegregatedFit
