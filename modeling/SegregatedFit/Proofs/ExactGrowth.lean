import SegregatedFit.Proofs.AnySettings
import SegregatedFit.Proofs.ExactPointers

/-!
# Growing by exactly what was asked for

A heap grows by whole granules at its end. The old tag that ended the blocks becomes the header of
the new bytes, which are joined with a free block in front of them before they are filed. If the
memory has not so many bytes left, nothing is changed at all.
-/

namespace SegregatedFit.Heap

variable {h h' : Heap} {bs : List Block} {f : Filing} {words amount : Nat}

/-- `h'` is what growing by some bytes makes of `h`. There is one free block at the end, first in
its list, and a free block that was there before has become part of it. In front of the old end no
byte changes but in the header of that block, and the rover stays. -/
structure Grows (h : Heap) (bs : List Block) (f : Filing) (amount : Nat) (h' : Heap) : Prop where
  sound : h'.Sound (Block.trimEnd bs ++ [h.grown bs amount])
    ((f.without ((Block.below bs).toList.map Block.start)).push (h.grown bs amount).start
      (SizeClass.ofSize (h.grown bs amount).size))
  size_eq : h'.arena.size = h.arena.size + amount
  granted_eq : h'.arena.granted = h.arena.granted + amount
  read_eq : ∀ j, j < h.arena.size - 8 → ¬ (h.grown bs amount).OnTag j →
    h'.arena.memory.read j = h.arena.memory.read j
  alike : h.Alike h'
  rover_eq : h'.rover = h.rover

/-- The rover is in front of the end of the arena. -/
theorem Sound.rover_lt (hs : h.Sound bs f) : h.rover < h.arena.size := by
  have hfirst : h.first = h.prologue + 8 := rfl
  have hsize := hs.divided.size_eq
  rcases hs.rover_mem with hrover | hrover
  · omega
  · obtain ⟨b, hb, hstart⟩ := List.mem_map.mp hrover
    have hbounds := hs.divided.bounds hb
    have hlarge := (hs.divided.proper hb).le_size
    omega

/-- The rover cannot be at the new bytes, and a block in front of them keeps its start. -/
theorem Sound.roverAfter_grown (hs : h.Sound bs f) (amount : Nat) :
    h.roverAfter (Block.trimEnd bs)
      ((Block.below bs).toList ++ [⟨h.arena.size, .free amount⟩]) = h.rover := by
  unfold roverAfter
  split
  · next hin =>
    have hlt := hs.rover_lt
    have hstart := start_grown hs.divided amount
    rw [List.map_append, List.mem_append, List.map_singleton, List.mem_singleton] at hin
    rcases hin with hin | hend
    · obtain ⟨t, ht, hrover⟩ := List.mem_map.mp hin
      rw [Option.mem_toList.mp ht] at hstart
      exact hstart.trans hrover
    · exact absurd hend (Nat.ne_of_lt hlt)
  · rfl

/-- Growing succeeds as far as the memory reaches. -/
theorem Sound.extend (hs : h.Sound bs f)
    (hwords : (if words % 2 = 1 then words + 1 else words) * 8 = amount) (hle : 48 ≤ amount)
    (hlt : amount < wordLimit) (hroom : amount ≤ h.arena.memory.limit - h.arena.memory.size) :
    ∃ h', (h.extend words).outcome = .ok (.ok (h.grown bs amount).start, h') ∧
      h.Grows bs f amount h' := by
  obtain ⟨h₁, hrun, he, hread⟩ := hs.holds.extend_frame hwords hle hlt hroom
  have hsound := he.holds.sound.withGrowth h.config.chunk
  have hfirst : h₁.first = h.first := congrArg (· + wordBytes) he.alike.prologue_eq
  have hsize : h₁.arena.size = h.arena.size + amount := he.size_eq hs.holds
  refine ⟨h₁.withGrowth h.config.chunk,
    outcome_of_withGrowth (F := fun h => h.extend words)
      (fun h chunk => h.extend_withGrowth chunk words) hrun,
    ?_, hsize, ?_, hread, he.alike.withGrowth, he.rover_eq.trans (hs.roverAfter_grown amount)⟩
  · have hbeside : besides bs [] = (Block.below bs).toList.map Block.start := by
      simp [besides, Block.above]
    rw [Filing.merge, Filing.dropAll_eq_without hs.files.nodup, hbeside] at hsound
    exact hsound
  · have hgranted := hs.divided.granted_eq
    have hgranted' := he.holds.divided.granted_eq
    change h₁.arena.granted = h.arena.granted + amount
    omega

/-- Growing by at least five words, rounded up to an even number, does one of two things. If the
memory has so many bytes left, the arena is longer by exactly these, and they are one free block up
to a new end, together with the free block that was last before: it begins where that one began, or
at the old end, and comes first in the bucket of its size. All other blocks, all bytes in front of
the old end but this block's header, all other buckets and the rover stay, and the heap is sound. If
not, the heap is the same in every byte and field. -/
theorem Sound.extend_exact (hs : h.Sound bs f) (hwords : 5 ≤ words)
    (hamount : amount = 8 * (words + words % 2)) (hlt : amount < wordLimit) :
    (amount ≤ h.arena.memory.limit - h.arena.size →
      ∃ (lower : List Block) (tail : Option Block) (m : Block) (h' : Heap),
        bs = lower ++ tail.toList ∧ (∀ t ∈ tail, t.isFree = true) ∧ Block.ClosedBelow lower ∧
        m.isFree = true ∧
        m.start = tail.elim h.arena.size Block.start ∧ m.size = tail.elim 0 Block.size + amount ∧
        (h.extend words).outcome = .ok (.ok m.start, h') ∧
        h'.arena.size = h.arena.size + amount ∧ h'.arena.granted = h.arena.granted + amount ∧
        m.start + m.size = h'.arena.size ∧
        h'.arena.memory.wordAt (h'.arena.size - 8) = Tag.epilogue.toWord ∧
        h'.buckets.head (SizeClass.ofSize m.size) = some m.start ∧
        h'.Sound (lower ++ [m]) ((f.without (tail.toList.map Block.start)).push m.start
          (SizeClass.ofSize m.size)) ∧
        (∀ j, j < h.arena.size - 8 → ¬ m.OnTag j →
          h'.arena.memory.read j = h.arena.memory.read j) ∧
        h.Alike h' ∧ h'.rover = h.rover ∧ (∀ t ∈ tail, h.rover = t.start → h'.rover = m.start)) ∧
    (h.arena.memory.limit - h.arena.size < amount →
      (h.extend words).outcome =
        .ok (.error (.exhausted amount (h.arena.memory.limit - h.arena.size)), h)) := by
  have heven : (if words % 2 = 1 then words + 1 else words) * 8 = amount := by
    split <;> omega
  refine ⟨fun hroom => ?_, extend_of_lt heven hlt⟩
  obtain ⟨h', hrun, hg⟩ := hs.extend heven (by omega) hlt hroom
  have hsize := h.size_grown bs amount
  have hstart := start_grown hs.divided amount
  refine ⟨_, Block.below bs, h.grown bs amount, h', (Block.trimEnd_append bs).symm,
    fun t => Block.isFree_of_below, hs.spaced.closedBelow_trimEnd, rfl,
    hstart, ?_, hrun, hg.size_eq, hg.granted_eq, ?_, hg.sound.divided.epilogue, ?_, hg.sound,
    hg.read_eq, hg.alike, hg.rover_eq, fun t ht hrover => ?_⟩
  · rw [hsize]
    cases Block.below bs <;> simp
  · have hend := hg.sound.divided.size_eq
    have hlast := hg.sound.divided.start_eq
    rw [Block.totalSize_append, Block.totalSize_cons, Block.totalSize_nil] at hend
    omega
  · rw [hg.sound.files.head_eq, Filing.push, if_pos rfl]
    rfl
  · rw [Option.mem_def.mp ht] at hstart
    rw [hg.rover_eq, hrover]
    exact hstart.symm

/-- A heap of 208 bytes below a limit of 4096, with a block in use and a free one behind it. -/
theorem exists_half_used : ∃ (h : Heap) (f : Filing),
    h.Sound [⟨16, .used 48⟩, ⟨64, .free 144⟩] f ∧
      h.arena.memory.limit - h.arena.size = 3888 ∧
      ∃ p h', (h.allocate 30).outcome = .ok (.ok (some p), h') := by
  let memory : Memory := .growable ⟨ByteArray.empty, 4096, by decide, by decide⟩
  let config : Config := { chunk := 192 }
  have hblank : memory.Blank := Memory.blank_of_ofLimit (dif_pos (by decide))
  have heval : ((setup memory config).outcome.toOption.any fun answer =>
      answer.toOption.any fun new =>
        (new.perform (.allocate 30)).outcome.toOption.any fun used =>
          decide (used.2.blocks.items = [⟨16, .used 48⟩, ⟨64, .free 144⟩] ∧
            used.2.arena.memory.limit - used.2.arena.size = 3888) &&
          (used.2.allocate 30).outcome.toOption.any fun again =>
            again.1.toOption.any Option.isSome) = true := by
    decide +kernel
  obtain ⟨_, hsetup, hanswer⟩ := Fault.ok_of_any heval
  obtain ⟨new, rfl, hnew⟩ := Fault.ok_of_any hanswer
  obtain ⟨used, hused, hstate⟩ := Fault.ok_of_any hnew
  obtain ⟨hshape, hagain⟩ := Bool.and_eq_true_iff.mp hstate
  obtain ⟨hblocks, hroom⟩ := of_decide_eq_true hshape
  obtain ⟨⟨answer, h'⟩, hallocate, hpointer⟩ := Fault.ok_of_any hagain
  obtain ⟨pointer, rfl, hsome⟩ := Fault.ok_of_any hpointer
  obtain ⟨p, rfl⟩ := Option.isSome_iff_exists.mp hsome
  have hallocates : ¬ (Call.allocate 30).Writes := id
  obtain ⟨bs, f, he⟩ := ((UnwrittenRun.start hblank hsetup).step hallocates hused).exact
  have hs := he.toHolds.sound
  rw [show bs = [⟨16, .used 48⟩, ⟨64, .free 144⟩] by rw [← hblocks, he.blocks_eq]] at hs
  exact ⟨used.2, f, hs, hroom, p, h', hallocate⟩

/-- Five words are six, and join the free block at the end; for a thousand there is no room. -/
theorem Sound.extend_exact_of_tail : ∃ (h : Heap) (f : Filing) (h' : Heap),
    h.Sound [⟨16, .used 48⟩, ⟨64, .free 144⟩] f ∧ (h.extend 5).outcome = .ok (.ok 64, h') ∧
    h'.blocks = ⟨[⟨16, .used 48⟩, ⟨64, .free 192⟩], none⟩ ∧
    (h.extend 1000).outcome = .ok (.error (.exhausted 8000 3888), h) := by
  obtain ⟨h, f, hs, hroom, -⟩ := exists_half_used
  have hfive : 48 = 8 * (5 + 5 % 2) := rfl
  have hthousand : 8000 = 8 * (1000 + 1000 % 2) := rfl
  obtain ⟨hgrows, -⟩ := Sound.extend_exact hs (by decide) hfive (by decide)
  obtain ⟨-, hrefused⟩ := Sound.extend_exact hs (by decide) hthousand (by decide)
  obtain ⟨lower, tail, m, h', hsplit, -, hclosed, hfree, hstart, hsize, hrun, -, -, -, -, -, hs',
    -⟩ := hgrows (by omega)
  obtain ⟨rfl, rfl⟩ : lower = [⟨16, .used 48⟩] ∧ tail = some ⟨64, .free 144⟩ := by
    cases tail with
    | none =>
      rw [Option.toList_none, List.append_nil] at hsplit
      subst hsplit
      exact absurd (hclosed _ rfl) (by decide)
    | some t =>
      have hpair : [⟨16, .used 48⟩] ++ [⟨64, .free 144⟩] = lower ++ [t] := hsplit
      obtain ⟨hlower, htail⟩ := List.append_inj' hpair rfl
      exact ⟨hlower.symm, congrArg some (List.cons.inj htail).1.symm⟩
  have hm : m = ⟨64, .free 192⟩ := by
    rw [Block.eq_of_isFree hfree, hstart, hsize]
    rfl
  subst hm
  rw [hroom] at hrefused
  exact ⟨h, f, h', hs, hrun, hs'.blocks_eq, hrefused (by omega)⟩

end SegregatedFit.Heap
