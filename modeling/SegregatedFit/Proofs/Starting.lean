import Mathlib.Order.Bounds.Basic
import SegregatedFit.Proofs.Freeing
import SegregatedFit.Proofs.Auditing

/-!
# Heaps begin in good order

A heap is set up behind the bytes that its memory has already. If there is room for the
prologue, one chunk and the tag that ends the blocks, the new heap is in good order with one
free block, and otherwise there is no heap.
-/

namespace SegregatedFit

variable {memory : Memory} {config : Config}

/-- Rounding up answers the least multiple of the granule that is large enough. -/
theorem isLeast_roundUp (n : Nat) : IsLeast {size | size % 16 = 0 ∧ n ≤ size} (roundUp n) := by
  refine ⟨⟨roundUp_mod n, le_roundUp n⟩, fun size hsize => ?_⟩
  obtain ⟨hmod, hle⟩ := hsize
  rw [← roundUp_eq_self hmod]
  exact roundUp_mono hle

/-- The chunk of a heap is of the right form for a block. -/
theorem chunkSize_spec (chunk : Nat) : chunkSize chunk % 16 = 0 ∧ 48 ≤ chunkSize chunk := by
  have hmod : chunkSize chunk % 16 = 0 := roundUp_mod _
  have hle : max chunk 40 ≤ chunkSize chunk := le_roundUp _
  omega

/-- A chunk that is not among the last 15 words can be rounded up. -/
theorem chunkSize_lt {chunk : Nat} (hchunk : chunk ≤ 18446744073709551600) :
    chunkSize chunk < wordLimit := by
  have hfits : chunkSize chunk ≤ roundUp 18446744073709551600 :=
    roundUp_mono (max_le hchunk (by decide))
  exact Nat.lt_of_le_of_lt hfits (by decide)

/-- The settings that a heap works with: its chunk is as large as a block of that size. -/
def Config.rounded (config : Config) : Config := { config with chunk := chunkSize config.chunk }

/-- An arena of the two sentinels alone. -/
theorem Arena.divided_nil (hmod : memory.size % 16 = 0) (hroom : 16 ≤ memory.limit - memory.size) :
    ∃ a₁ a₂ a₃, ((Arena.ofMemory memory).grow granule).outcome = .ok (.ok memory.size, a₁) ∧
      a₁.put memory.size Tag.prologue.toWord = .ok a₂ ∧
      a₂.stampEnd (memory.size + granule) = .ok a₃ ∧ a₃.Divided (memory.size + 16) [] ∧
      a₃.memory.limit = memory.limit ∧
      ∀ j, memory.size + 16 ≤ j → a₃.memory.read j = memory.read j := by
  let a₁ : Arena := ⟨memory.grant 16 hroom, 0 + 16⟩
  have hgrow : ((Arena.ofMemory memory).grow granule).outcome = .ok (.ok memory.size, a₁) :=
    Arena.grow_of_le (a := Arena.ofMemory memory) (Nat.mod_self 16) hroom
  have hsize₁ : a₁.size = memory.size + 16 := Memory.size_grant ..
  obtain ⟨a₂, hput₂, hword₂, hedit₂⟩ := Arena.put_run a₁ memory.size Tag.prologue.toWord
    (by omega) (by decide)
  have hsize₂ := hedit₂.size_eq
  obtain ⟨a₃, hend₃, hword₃, hedit₃⟩ :=
    a₂.stampEnd_run (show 8 ≤ memory.size + 16 by omega) (by omega)
  have hsize₃ := hedit₃.size_eq
  refine ⟨a₁, a₂, a₃, hgrow, hput₂, hend₃, ⟨?_, ?_, ?_, ?_, ?_, ?_⟩, ?_, ?_⟩
  · exact Nat.le_add_left 16 _
  · omega
  · rw [Nat.add_sub_cancel, ← hword₂]
    exact Memory.wordAt_congr fun j hlow hhigh => hedit₃.read_eq j (by omega)
  · exact show memory.size + 16 = a₃.size by omega
  · have hlast : a₃.size - 8 = memory.size + 8 := by omega
    rw [hlast]
    exact hword₃
  · have hgranted : a₃.granted = 0 + 16 := hedit₃.granted_eq.trans hedit₂.granted_eq
    omega
  · exact (hedit₃.limit_eq.trans hedit₂.limit_eq).trans (Memory.limit_grant ..)
  · intro j hj
    rw [hedit₃.read_eq j (by omega), hedit₂.read_eq j (by omega)]
    exact Memory.read_grant ..

namespace Heap

/-- The free block that a new heap begins with. -/
def initial (memory : Memory) (config : Config) : Block :=
  ⟨memory.size + 16, .free (chunkSize config.chunk)⟩

/-- Settings can be given their own growth step, rounded, as long as that fits into a word. -/
theorem withChunk_eq (hchunk : chunkSize config.chunk < wordLimit) :
    config.withChunk config.chunk = .ok config.rounded := by
  rw [Config.withChunk, Word.ofNat_of_lt hchunk]
  rfl

/-- The sentinels alone are a heap in good order without blocks. -/
theorem holds_nil {a : Arena} (hd : a.Divided (memory.size + 16) [])
    (hchunk : chunkSize config.chunk < wordLimit) :
    Holds ⟨a, .empty, config.rounded, memory.size + 8,
      memory.size + 8⟩ [] Filing.empty := by
  obtain ⟨hmod, hlarge⟩ := chunkSize_spec config.chunk
  refine ⟨⟨hd, Buckets.Files.empty, Or.inl rfl, hmod, hlarge, hchunk⟩, fun c x => ?_,
    List.IsChain.nil⟩
  simp [Filing.empty]

/-- Behind the sentinels of an arena in memory that holds zeros, nothing is flagged. -/
theorem unforged_nil {a : Arena} (hd : a.Divided (memory.size + 16) [])
    (hkept : ∀ j, memory.size + 16 ≤ j → a.memory.read j = memory.read j)
    (hblank : ∀ j, memory.size + 16 ≤ j → memory.read j = 0) :
    a.Unforged (memory.size + 16) [] := by
  intro x hlow hx hflag
  have hsize : a.size = memory.size + 16 := hd.size_eq
  have hmod := hd.first_mod
  by_cases hend : x = a.size
  · exact Or.inl hend
  · have hbehind : memory.size + 16 ≤ x - 8 := by omega
    rw [Arena.flagged_iff, hkept _ hbehind, hblank _ hbehind] at hflag
    cases hflag

private theorem chunk_words (chunk : Nat) :
    (if chunkSize chunk / 8 % 2 = 1 then chunkSize chunk / 8 + 1 else chunkSize chunk / 8) * 8 =
      chunkSize chunk := by
  obtain ⟨hmod, -⟩ := chunkSize_spec chunk
  split <;> omega

/-- With room for the sentinels and a chunk, setting up a heap succeeds. -/
theorem setup_of_le (hmod : memory.size % 16 = 0) (hchunk : chunkSize config.chunk < wordLimit)
    (hroom : 16 + chunkSize config.chunk ≤ memory.limit - memory.size) :
    ∃ h, (setup memory config).outcome = .ok (.ok h) ∧
      h.Holds [initial memory config] (Filing.empty.push (memory.size + 16)
        (SizeClass.ofSize (chunkSize config.chunk))) ∧
      h.prologue = memory.size + 8 ∧ h.rover = memory.size + 8 ∧
      h.config = config.rounded ∧
      h.arena.memory.limit = memory.limit ∧
      ((∀ j, memory.size + 16 ≤ j → memory.read j = 0) → h.Unforged [initial memory config]) := by
  obtain ⟨a₁, a₂, a₃, hgrow, hput, hend, hdivided, hlimit, hkept⟩ :=
    Arena.divided_nil hmod (by omega)
  have hh := holds_nil hdivided hchunk
  have hsize : a₃.memory.size = memory.size + 16 := hdivided.size_eq
  obtain ⟨h, hextend, hh', -, halike, hrover, hunforged⟩ := hh.extend (chunk_words config.chunk)
    (chunkSize_spec config.chunk).2 hchunk (show chunkSize config.chunk ≤
      a₃.memory.limit - a₃.memory.size by omega)
  have haudit := h.selfAudit_outcome .setup hh'.le_prologue
  have hextend' : (extend ⟨a₃, .empty, config.rounded, memory.size + wordBytes,
      memory.size + wordBytes⟩ (config.rounded.chunk / wordBytes)).outcome = .ok (.ok _, h) :=
    hextend
  refine ⟨h, ?_, ?_, halike.prologue_eq, ?_, halike.config_eq, halike.limit_eq.trans hlimit,
    fun hblank => ?_⟩
  · simp only [setup, Run.outcome_bind, Run.outcome_liftM, Run.outcome_tell, Run.outcome_pure,
      withChunk_eq hchunk, hgrow, hput, hend, hextend', haudit, Fault.ok_bind]
  · exact hh'
  · rw [hrover]
    simp [roverAfter, Block.below, hsize, Arena.size]
  · exact hunforged (unforged_nil hdivided hkept hblank)

/-- Without room for the sentinels and a chunk, there is no heap. -/
theorem setup_of_lt (hmod : memory.size % 16 = 0) (hchunk : chunkSize config.chunk < wordLimit)
    (hroom : memory.limit - memory.size < 16 + chunkSize config.chunk) :
    (setup memory config).outcome =
      .ok (.error (if memory.limit - memory.size < 16 then
          .outOfMemory 16 (.exhausted 16 (memory.limit - memory.size))
        else .outOfMemory (chunkSize config.chunk)
          (.exhausted (chunkSize config.chunk) (memory.limit - memory.size - 16)))) := by
  by_cases hsentinels : memory.limit - memory.size < 16
  · have hrefused := Arena.grow_of_lt (a := Arena.ofMemory memory) (Nat.mod_self 16) hsentinels
    rw [if_pos hsentinels]
    simp only [setup, Run.outcome_bind, Run.outcome_liftM, withChunk_eq hchunk, Fault.ok_bind]
    rw [hrefused]
    rfl
  · obtain ⟨a₁, a₂, a₃, hgrow, hput, hend, hdivided, hlimit, -⟩ :=
      Arena.divided_nil hmod (by omega)
    have hsize : a₃.memory.size = memory.size + 16 := hdivided.size_eq
    have hrefused := extend_of_lt
      (h := ⟨a₃, .empty, config.rounded, memory.size + 8, memory.size + 8⟩)
      (chunk_words config.chunk) hchunk
      (show a₃.memory.limit - a₃.memory.size < chunkSize config.chunk by omega)
    have hrefused' : (extend ⟨a₃, .empty, config.rounded, memory.size + wordBytes,
        memory.size + wordBytes⟩ (config.rounded.chunk / wordBytes)).outcome = .ok (.error _, _) :=
      hrefused
    have hleft : a₃.memory.limit - a₃.memory.size = memory.limit - memory.size - 16 := by omega
    rw [if_neg hsentinels]
    simp only [setup, Run.outcome_bind, Run.outcome_liftM, Run.outcome_pure, withChunk_eq hchunk,
      hgrow, hput, hend, hrefused', hleft, Fault.ok_bind]
    rfl

/-- A heap can only be set up with room for the sentinels and a chunk. -/
theorem room_of_setup {h : Heap} (hmod : memory.size % 16 = 0)
    (hsetup : (setup memory config).outcome = .ok (.ok h)) :
    chunkSize config.chunk < wordLimit ∧
      16 + chunkSize config.chunk ≤ memory.limit - memory.size := by
  by_cases hchunk : chunkSize config.chunk < wordLimit
  · refine ⟨hchunk, ?_⟩
    by_contra hroom
    rw [setup_of_lt hmod hchunk (Nat.not_le.mp hroom)] at hsetup
    cases hsetup
  · have hfault : config.withChunk config.chunk = .error .overflow := by
      rw [Config.withChunk, Word.ofNat, if_neg hchunk]
      rfl
    simp only [setup, Run.outcome_bind, Run.outcome_liftM, hfault] at hsetup
    cases hsetup

/-- A heap that was set up in empty memory is in good order and has no blocks in use. -/
theorem holds_of_setup {h : Heap} (hempty : memory.size = 0)
    (hsetup : (setup memory config).outcome = .ok (.ok h)) :
    (∃ f, h.Holds [initial memory config] f) ∧ h.prologue = 8 := by
  have hmod : memory.size % 16 = 0 := by rw [hempty]
  obtain ⟨hchunk, hroom⟩ := room_of_setup hmod hsetup
  obtain ⟨h', hrun, hh, hprologue, -⟩ := setup_of_le hmod hchunk hroom
  rw [hsetup] at hrun
  cases hrun
  exact ⟨⟨_, hh⟩, by omega⟩

/-- No header is forged in a heap that was set up in memory of zeros. -/
theorem unforged_of_setup {h : Heap} (hempty : memory.size = 0) (hblank : ∀ j, memory.read j = 0)
    (hsetup : (setup memory config).outcome = .ok (.ok h)) :
    h.Unforged [initial memory config] := by
  have hmod : memory.size % 16 = 0 := by rw [hempty]
  obtain ⟨hchunk, hroom⟩ := room_of_setup hmod hsetup
  obtain ⟨h', hrun, -, -, -, -, -, hunforged⟩ := setup_of_le hmod hchunk hroom
  rw [hsetup] at hrun
  cases hrun
  exact hunforged fun j _ => hblank j

end Heap

end SegregatedFit
