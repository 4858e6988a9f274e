import SegregatedFit.Proofs.ReleaseOrder
import SegregatedFit.Proofs.SoundAudits

/-!
# New heaps

Setting up a heap grows its memory twice, once for the sentinels and once for the first chunk,
and either growth can be refused. Which of the three outcomes it is depends on the limit alone,
and what a new heap looks like on the rounded chunk alone. Rounding a chunk twice is rounding it
once, so it makes no difference whether the settings were rounded before.
-/

namespace SegregatedFit

variable {memory : Memory} {config : Config}

private theorem chunkSize_chunkSize (chunk : Nat) :
    chunkSize (chunkSize chunk) = chunkSize chunk := by
  obtain ⟨hmod, hlarge⟩ := chunkSize_spec chunk
  have hmax : max (chunkSize chunk) 40 = chunkSize chunk := max_eq_left (by omega)
  rw [chunkSize, hmax, roundUp_eq_self hmod]

private theorem Config.rounded_rounded (config : Config) :
    config.rounded.rounded = config.rounded := by
  rw [rounded, rounded, chunkSize_chunkSize]

namespace Heap

/-- A heap as it is right after it was set up in empty memory: between the sentinels lies one free
block of the rounded chunk, which is the only one listed, and an audit finds nothing. -/
structure Fresh (h : Heap) (config : Config) : Prop where
  config_eq : h.config = { config with chunk := chunkSize config.chunk }
  size_eq : h.arena.size = 16 + chunkSize config.chunk
  granted_eq : h.arena.granted = 16 + chunkSize config.chunk
  prologue_word : h.arena.word 0 = .ok Tag.prologue.toWord
  header_word : h.arena.word 8 = .ok (Tag.free (chunkSize config.chunk)).toWord
  footer_word : h.arena.word (chunkSize config.chunk) =
    .ok (Tag.free (chunkSize config.chunk)).toWord
  epilogue_word : h.arena.word (8 + chunkSize config.chunk) = .ok Tag.epilogue.toWord
  blocks_eq : h.blocks = ⟨[⟨16, .free (chunkSize config.chunk)⟩], none⟩
  prologue_eq : h.prologue = 8
  rover_eq : h.rover = h.prologue
  walk_eq (c : SizeClass) :
    h.buckets.walk c = ⟨if c = .ofSize (chunkSize config.chunk) then [16] else [], none⟩
  length_eq (c : SizeClass) :
    h.buckets.length c = if c = .ofSize (chunkSize config.chunk) then 1 else 0
  linksOf_eq (x : Nat) : h.buckets.linksOf x =
    if x = 16 then some ⟨none, none, SizeClass.ofSize (chunkSize config.chunk)⟩ else none
  audit_eq (verbose : Bool) : (h.audit verbose).outcome = .ok []

/-- A heap with one free block behind the prologue is as it was set up. -/
theorem Holds.fresh {h : Heap} {f : Filing}
    (hh : h.Holds [⟨16, .free (chunkSize config.chunk)⟩] f) (hprologue : h.prologue = 8)
    (hrover : h.rover = 8) (hconfig : h.config = config.rounded) : h.Fresh config := by
  have hfirst : h.first = 16 := congrArg (· + wordBytes) hprologue
  have hd := hh.divided
  rw [hfirst] at hd
  obtain ⟨-, hlarge⟩ := chunkSize_spec config.chunk
  have hsize : h.arena.size = 16 + chunkSize config.chunk := hd.size_eq
  have hgranted := hd.granted_eq
  have hmarks := hd.tiled.marks (List.mem_singleton_self _)
  have hheader : h.arena.memory.wordAt 8 = _ := hmarks.header
  have hfooter : h.arena.memory.wordAt (16 + chunkSize config.chunk - 16) = _ := hmarks.footer
  rw [Nat.add_sub_cancel_left] at hfooter
  have hbucket (c : SizeClass) :
      f c = if c = .ofSize (chunkSize config.chunk) then [16] else [] := by
    split
    · next heq => rw [heq, hh.bucket_singleton]
    · next hne => exact hh.bucket_nil hne
  have hend : 8 + chunkSize config.chunk = h.arena.size - 8 := by omega
  constructor
  case config_eq => exact hconfig
  case size_eq => exact hsize
  case granted_eq => omega
  case prologue_word => rw [Arena.word_of_le (by omega), ← hd.prologue]
  case header_word => rw [Arena.word_of_le (by omega), hheader]
  case footer_word => rw [Arena.word_of_le (by omega), hfooter]
  case epilogue_word => rw [Arena.word_of_le (by omega), hend, hd.epilogue]
  case blocks_eq => exact hh.blocks_eq
  case prologue_eq => exact hprologue
  case rover_eq => rw [hrover, hprologue]
  case walk_eq =>
    intro c
    rw [hh.files.walk_eq, hbucket]
  case length_eq =>
    intro c
    rw [hh.files.length_eq, hbucket]
    split <;> rfl
  case linksOf_eq => exact fun x => hh.linksOf_singleton
  case audit_eq => exact hh.audit_clean

/-- The settings are rounded before they are looked at. -/
theorem setup_rounded (hchunk : chunkSize config.chunk < wordLimit) :
    setup memory config.rounded = setup memory config := by
  have hagain : config.rounded.withChunk config.rounded.chunk = .ok config.rounded := by
    have hlt : chunkSize config.rounded.chunk < wordLimit := by
      rw [Config.rounded, chunkSize_chunkSize]
      exact hchunk
    rw [withChunk_eq hlt, Config.rounded_rounded]
  rw [setup, setup, hagain, withChunk_eq hchunk]

/-- In empty memory a heap can be set up exactly when the limit leaves room for the sentinels and
the rounded chunk, and it is told apart which of the two did not fit. Settings that were made with
the chunk rounded already lead to the same run, whatever chunk they had before. -/
theorem setup_exact (hempty : memory.size = 0)
    (hchunk : config.chunk ≤ 18446744073709551600) :
    IsLeast {size | size % 16 = 0 ∧ max config.chunk 40 ≤ size} (chunkSize config.chunk) ∧
    ((∃ h, (setup memory config).outcome = .ok (.ok h)) ↔
      16 + chunkSize config.chunk ≤ memory.limit) ∧
    (memory.limit < 16 → (setup memory config).outcome =
      .ok (.error (.outOfMemory 16 (.exhausted 16 memory.limit)))) ∧
    (16 ≤ memory.limit → memory.limit < 16 + chunkSize config.chunk →
      (setup memory config).outcome = .ok (.error (.outOfMemory (chunkSize config.chunk)
        (.exhausted (chunkSize config.chunk) (memory.limit - 16))))) ∧
    (∀ h, (setup memory config).outcome = .ok (.ok h) → h.Fresh config) ∧
    ∀ chunk, ∃ built, { config with chunk }.withChunk config.chunk = .ok built ∧
      setup memory built = setup memory config := by
  have hlt := chunkSize_lt hchunk
  have hmod : memory.size % 16 = 0 := by rw [hempty]
  have hroom : memory.limit - memory.size = memory.limit := by rw [hempty, Nat.sub_zero]
  have hrefused := @setup_of_lt memory config hmod hlt
  have hdone := @setup_of_le memory config hmod hlt
  rw [hroom] at hrefused hdone
  refine ⟨isLeast_roundUp _, ⟨?_, ?_⟩, ?_, ?_, ?_, ?_⟩
  · rintro ⟨h, hsetup⟩
    obtain ⟨-, hfits⟩ := room_of_setup hmod hsetup
    rwa [hroom] at hfits
  · intro hfits
    obtain ⟨h, hsetup, -⟩ := hdone hfits
    exact ⟨h, hsetup⟩
  · intro hsmall
    rw [hrefused (by omega), if_pos hsmall]
  · intro hsentinels hsmall
    rw [hrefused hsmall, if_neg (by omega)]
  · intro h hsetup
    obtain ⟨-, hfits⟩ := room_of_setup hmod hsetup
    rw [hroom] at hfits
    obtain ⟨_, hrun, hh, hprologue, hrover, hconfig, -⟩ := hdone hfits
    obtain rfl : _ = h := Except.ok.inj (Except.ok.inj (hrun.symm.trans hsetup))
    rw [hempty] at hprologue hrover
    rw [initial, hempty] at hh
    exact hh.fresh hprologue hrover hconfig
  · intro chunk
    exact ⟨_, withChunk_eq hlt, setup_rounded hlt⟩

/-- A chunk of 41 bytes is rounded up to 48. With 64 bytes there is just room for it, one byte
less is too little for the chunk and 15 bytes are too little for the sentinels. -/
theorem setup_exact_of_limits : ∃ large small tiny : Memory, ∃ h : Heap,
    large.limit = 64 ∧ small.limit = 63 ∧ tiny.limit = 15 ∧
    (setup large { chunk := 41 }).outcome = .ok (.ok h) ∧ h.Fresh { chunk := 41 } ∧
    (setup small { chunk := 41 }).outcome = .ok (.error (.outOfMemory 48 (.exhausted 48 47))) ∧
    (setup tiny { chunk := 41 }).outcome = .ok (.error (.outOfMemory 16 (.exhausted 16 15))) := by
  let memory (limit : Nat) (h : limit < bufferBound) : Memory :=
    .growable ⟨ByteArray.empty, limit, Nat.zero_le _, h⟩
  let config : Config := { chunk := 41 }
  have hchunk : config.chunk ≤ 18446744073709551600 := by decide
  have hrounded : chunkSize config.chunk = 48 := by decide
  obtain ⟨-, hlarge, -, -, hfresh, -⟩ := @setup_exact (memory 64 (by decide)) config rfl hchunk
  obtain ⟨-, -, -, hsmall, -⟩ := @setup_exact (memory 63 (by decide)) config rfl hchunk
  obtain ⟨-, -, htiny, -⟩ := @setup_exact (memory 15 (by decide)) config rfl hchunk
  rw [hrounded] at hlarge hsmall
  obtain ⟨h, hsetup⟩ := hlarge.mpr (Nat.le_refl 64)
  exact ⟨memory 64 (by decide), memory 63 (by decide), memory 15 (by decide), h, rfl, rfl, rfl,
    hsetup, hfresh h hsetup, hsmall (Nat.le_add_left 16 47) (Nat.lt_succ_self 63),
    htiny (Nat.lt_succ_self 15)⟩

end Heap

end SegregatedFit
