import SegregatedFit.Proofs.Guarantees
import SegregatedFit.Proofs.Telling

/-!
# The exact answer to a request

What a request is answered with follows from its size, from what the search finds, and from the
room that is left: nothing, a refusal for its size, the block that was found, the free block at
the end after one growth, or a refusal that says how much memory was missing. The conditions of
these five answers exclude each other, and one of them always holds.
-/

namespace SegregatedFit

/-- A request is for the least multiple of the granule that holds it and can be a block. -/
theorem isLeast_blockSize (request : Nat) :
    IsLeast {size | size % 16 = 0 ∧ max (request + 16) 40 ≤ size} (blockSize request) :=
  isLeast_roundUp _

/-- No block is large enough exactly for the requests of the last 32 sizes and beyond. -/
theorem wordLimit_le_blockSize_iff {request : Nat} :
    wordLimit ≤ blockSize request ↔ 18446744073709551584 < request := by
  obtain ⟨⟨hmod, hle⟩, hleast⟩ := isLeast_blockSize request
  constructor
  · intro hlimit
    by_contra hsmall
    have hfits : blockSize request ≤ 18446744073709551600 := hleast ⟨by decide, by omega⟩
    have hlimit : 18446744073709551616 ≤ blockSize request := hlimit
    omega
  · intro hlarge
    show 18446744073709551616 ≤ blockSize request
    omega

namespace Arena

variable {a : Arena} {amount : Nat}

/-- An arena that grows tells so. -/
theorem growths_grow_of_le (hmod : amount % 16 = 0)
    (hroom : amount ≤ a.memory.limit - a.memory.size) :
    (a.grow amount).growths = [.arenaGrown a.size amount (a.granted + amount)] := by
  rw [grow, if_pos hmod]
  unfold Memory.extend
  rw [dif_pos hroom]
  rfl

end Arena

namespace Heap

variable {h h₁ h' : Heap} {bs : List Block} {b : Block} {f : Filing} {request words amount : Nat}
  {answer : Answer Nat}

/-- A heap that grows does so once. -/
theorem growths_extend_of_le (hwords : (if words % 2 = 1 then words + 1 else words) * 8 = amount)
    (hlt : amount < wordLimit) (hroom : amount ≤ h.room) :
    (h.extend words).growths =
      [.arenaGrown h.arena.size amount (h.arena.granted + amount)] := by
  obtain ⟨hword, hmul, hmod⟩ := extend_amount hwords hlt
  have hrest (a : Arena) (block : Nat) : Run.Traces (do
      let arena ← a.stamp block (.free amount)
      let ending ← arena.next block
      let arena ← arena.stampEnd ending
      let merged ← coalesce ⟨arena, h.buckets, h.config, h.prologue, h.rover⟩ block
      return ((Except.ok merged.1 : Except GrowthError Nat), ← merged.2.file merged.1)) := by
    simp [Run.tells_bind_iff, traces_coalesce]
  unfold extend
  rw [Run.growths_bind_liftM hword, Run.growths_bind_liftM hmul,
    Run.growths_bind (Arena.grow_of_le hmod hroom), Arena.growths_grow_of_le hmod hroom]
  exact congrArg (_ ++ ·) (hrest _ _).growths_eq_nil

/-- A request tells no more growth than the search for its block. -/
theorem growths_allocate (hpos : 0 < request)
    (hrun : (h.allocateBlock request).outcome = .ok (answer, h')) :
    (h.allocate request).growths = (h.allocateBlock request).growths := by
  unfold allocate
  rw [if_neg (Nat.ne_of_gt hpos), Run.growths_bind hrun]
  cases answer with
  | error e => exact List.append_nil _
  | ok block =>
    have haudit : (h'.selfAudit .allocate >>= fun _ =>
        (pure (.ok (some block), h') : Run (Answer (Option Nat) × Heap))).growths = [] := by
      rw [← map_eq_pure_bind, Run.growths_map]
      exact h'.growths_selfAudit .allocate
    exact (congrArg (_ ++ ·) haudit).trans (List.append_nil _)

/-- A request for which there is a block does not make the arena grow. -/
theorem Holds.growths_of_choice (hh : h.Holds bs f) (hneed : blockSize request < wordLimit)
    (hchoice : h.choice bs f (blockSize request) = some b) :
    (h.allocateBlock request).growths = [] := by
  have hsearch := hh.search (blockSize request)
  rw [hchoice] at hsearch
  unfold Heap.allocateBlock blockFor
  rw [if_pos hneed]
  refine ((h.traces_search _).growths_bind hsearch).trans ?_
  apply Run.Traces.growths_eq_nil
  simp [traces_carve]

/-- A request for which there is none makes the arena grow once, if there is room. -/
theorem Holds.growths_of_room (hh : h.Holds bs f) (hneed : blockSize request < wordLimit)
    (hchoice : h.choice bs f (blockSize request) = none)
    (hroom : h.growth (blockSize request) ≤ h.room) :
    (h.allocateBlock request).growths = [.arenaGrown h.arena.size (h.growth (blockSize request))
      (h.arena.granted + h.growth (blockSize request))] := by
  obtain ⟨hwords, hlt, hle⟩ := hh.growth_spec hneed
  obtain ⟨-, -, hlarge⟩ := blockSize_spec request
  have hsearch := hh.search (blockSize request)
  have hroved := hh.searched (blockSize request)
  rw [hchoice] at hsearch hroved
  obtain ⟨h₁, hextend, -⟩ := hroved.extend hwords (Nat.le_trans hlarge hle) hlt hroom
  unfold Heap.allocateBlock blockFor
  rw [if_pos hneed]
  refine ((h.traces_search _).growths_bind hsearch).trans ?_
  -- the search left the arena and the settings alone, so it grows as the heap before it would
  have hgrowths : ((h.searched none).extend
      (max (blockSize request) (h.searched none).config.chunk / wordBytes)).growths =
      [.arenaGrown h.arena.size (h.growth (blockSize request))
        (h.arena.granted + h.growth (blockSize request))] :=
    growths_extend_of_le hwords hlt hroom
  refine (Run.growths_bind hextend).trans ?_
  rw [← List.append_nil [_], ← hgrowths]
  apply congrArg
  apply Run.Traces.growths_eq_nil
  simp [traces_carve]

/-- The free block at the end after growing begins where the free block in front of the new bytes
begins, or with the new bytes. -/
theorem Holds.start_grownFor (hh : h.Holds bs f) (need : Nat) :
    (h.grownFor bs need).start = (Block.below bs).elim h.arena.size Block.start :=
  start_grown hh.divided (h.growth need)

end Heap

/-- However a request is answered, the arena has what it was granted. -/
theorem Tracked.granted_of_allocate {held : Ledger} {h h' : Heap} {bs : List Block} {f : Filing}
    {n : Nat} {answer : Answer (Option Nat)} (ht : Tracked held h bs f)
    (hrun : (h.allocate n).outcome = .ok (answer, h')) : h'.arena.granted = h'.arena.size := by
  obtain ⟨_, _, bs', f', hsame, ht', -⟩ := ht.allocate n
  rw [hrun] at hsame
  cases hsame
  exact ht'.wellFormed.granted_eq

/-- In a state of a legal run each request comes to exactly one of five ends. A request of nothing
gets nothing, and one that no block can be as large as is refused. For every other one, the block
that the search finds is handed out and the arena does not grow; or the search finds nothing, the
arena grows once by what the request needs or by a chunk, and the free block at the end is handed
out; or there is no room for this growth and the request is refused for it. -/
theorem LegalRun.allocate_exact {held : Ledger} {h : Heap} (hr : LegalRun held h) (n : Nat) :
    IsLeast {size | size % 16 = 0 ∧ max (n + 16) 40 ≤ size} (blockSize n) ∧
    ∃ bs found h₁ answer h',
      h.blocks = ⟨bs, none⟩ ∧ (h.search (blockSize n)).outcome = .ok (found, h₁) ∧
      (h.allocate n).outcome = .ok (answer, h') ∧
      (answer = .ok none ↔ n = 0) ∧ (n = 0 → h' = h) ∧
      (answer = .error (.overflow n) ↔ 18446744073709551584 < n) ∧
      (18446744073709551584 < n → h' = h) ∧
      (0 < n → n ≤ 18446744073709551584 →
        (∀ p, found = some p → answer = .ok (some p) ∧
          (∃ b ∈ bs, b.start = p ∧ b.isFree = true ∧ blockSize n ≤ b.size) ∧
          (h.allocate n).growths = [] ∧ h'.arena.size = h.arena.size ∧
          h'.arena.granted = h.arena.granted) ∧
        (found = none → h.growth (blockSize n) ≤ h.arena.memory.limit - h.arena.size →
          answer = .ok (some ((Block.below bs).elim h.arena.size Block.start)) ∧
          (h.allocate n).growths = [.arenaGrown h.arena.size (h.growth (blockSize n))
            (h.arena.granted + h.growth (blockSize n))] ∧
          h'.arena.size = h.arena.size + h.growth (blockSize n) ∧
          h'.arena.granted = h.arena.granted + h.growth (blockSize n)) ∧
        (found = none → h.arena.memory.limit - h.arena.size < h.growth (blockSize n) →
          answer = .error (.outOfMemory (blockSize n) (.exhausted (h.growth (blockSize n))
            (h.arena.memory.limit - h.arena.size))) ∧
          h' = { h with
            rover := if h.config.policy = .nextFit then h.prologue else h.rover })) := by
  obtain ⟨bs, f, ht⟩ := hr.tracked
  have hh := ht.holds
  have hprologue := hh.le_prologue
  have hgranted := ht.wellFormed.granted_eq
  refine ⟨isLeast_blockSize n, bs, (h.choice bs f (blockSize n)).map Block.start,
    h.searched (h.choice bs f (blockSize n)), ?_⟩
  rcases Nat.eq_zero_or_pos n with rfl | hpos
  · exact ⟨.ok none, h, hh.blocks_eq, hh.search _, rfl, by simp, fun _ => rfl, by simp,
      fun _ => rfl, fun hlt => absurd hlt (Nat.lt_irrefl 0)⟩
  have hnonzero : n ≠ 0 := Nat.ne_of_gt hpos
  rcases Nat.lt_or_ge 18446744073709551584 n with hlarge | hsmall
  · have hneed : ¬ blockSize n < wordLimit := Nat.not_lt.mpr (wordLimit_le_blockSize_iff.mpr hlarge)
    have hkept : h.refused (.overflow n) = h := by simp [Heap.refused, HeapError.isOutOfMemory]
    have hrun := Heap.allocate_of_block hpos (Heap.allocateBlock_overflow hneed) hprologue
    rw [hkept] at hrun
    exact ⟨_, h, hh.blocks_eq, hh.search _, hrun, by simp [Except.map, hnonzero], fun _ => rfl,
      by simp [Except.map, hlarge], fun _ => rfl, fun _ hsmall => by omega⟩
  have hneed : blockSize n < wordLimit := by
    rw [← Nat.not_le, wordLimit_le_blockSize_iff]
    omega
  have hfits : ¬ 18446744073709551584 < n := Nat.not_lt.mpr hsmall
  cases hchoice : h.choice bs f (blockSize n) with
  | some b =>
    obtain ⟨hmem, hfree, hfit⟩ := hh.mem_of_choice hchoice
    obtain ⟨h', hrun, hsize⟩ := hh.allocate_of_choice hpos hchoice
    have hgranted' := ht.granted_of_allocate hrun
    have hgrowths : (h.allocate n).growths = [] := by
      obtain ⟨_, _, hblock, -⟩ := hh.allocateBlock_outcome n
      rw [Heap.growths_allocate hpos hblock, hh.growths_of_choice hneed hchoice]
    refine ⟨_, h', hh.blocks_eq, hchoice ▸ hh.search _, hrun, by simp [hnonzero],
      fun hzero => absurd hzero hnonzero, by simp [hfits], fun hlarge => absurd hlarge hfits,
      fun _ _ => ⟨fun p hp => ?_, fun hnone => ?_, fun hnone => ?_⟩⟩
    · cases hp
      exact ⟨rfl, ⟨b, hmem, rfl, hfree, hfit⟩, hgrowths, hsize, by omega⟩
    · cases hnone
    · cases hnone
  | none =>
    rcases Nat.lt_or_ge h.room (h.growth (blockSize n)) with hroom | hroom
    · have hrun := Heap.allocate_of_block hpos (hh.allocateBlock_of_full hneed hchoice hroom)
        hprologue
      refine ⟨_, _, hh.blocks_eq, hchoice ▸ hh.search _, hrun, by simp [Except.map, hnonzero],
        fun hzero => absurd hzero hnonzero, by simp [Except.map, hfits],
        fun hlarge => absurd hlarge hfits, fun _ _ => ⟨fun p hp => ?_, fun _ hle => ?_,
        fun _ _ => ?_⟩⟩
      · cases hp
      · exact absurd hle (Nat.not_le.mpr hroom)
      · refine ⟨rfl, ?_⟩
        simp only [Heap.refused, HeapError.isOutOfMemory, and_true]
    · obtain ⟨h', hrun, hsize⟩ := hh.allocate_of_room hpos hchoice hroom
      have hgranted' := ht.granted_of_allocate hrun
      have hgrowths := hh.growths_of_room hneed hchoice hroom
      obtain ⟨_, _, hblock, -⟩ := hh.allocateBlock_outcome n
      rw [← Heap.growths_allocate hpos hblock] at hgrowths
      rw [hh.start_grownFor] at hrun
      refine ⟨_, h', hh.blocks_eq, hchoice ▸ hh.search _, hrun, by simp [hnonzero],
        fun hzero => absurd hzero hnonzero, by simp [hfits], fun hlarge => absurd hlarge hfits,
        fun _ _ => ⟨fun p hp => ?_, fun _ _ => ⟨rfl, hgrowths, hsize, by omega⟩, fun _ hlt => ?_⟩⟩
      · cases hp
      · exact absurd hroom (Nat.not_le.mpr hlt)

/-- A heap of 112 bytes below a limit of 4096 that has no block for 5000 bytes. -/
theorem LegalRun.allocate_exact_of_exhausted : ∃ held h h', LegalRun held h ∧ held 16 ≠ none ∧
    (h.allocate 5000).outcome =
      .ok (.error (.outOfMemory 5024 (.exhausted 5024 3984)), h') ∧
    h' = { h with rover := h.prologue } := by
  let memory : Memory := .growable ⟨ByteArray.empty, 4096, by decide, by decide⟩
  let config : Config := { chunk := 96, policy := .nextFit }
  have heval : ((Heap.setup memory config).outcome.toOption.any fun answer =>
      answer.toOption.any fun new =>
        (new.perform (.allocate 30)).outcome.toOption.any fun answered =>
          (Ledger.empty.after answered.2 (.allocate 30) answered.1 16).isSome &&
            (answered.2.search (blockSize 5000)).outcome.toOption.any fun searched =>
              searched.1.isNone && decide (answered.2.growth (blockSize 5000) = 5024 ∧
                answered.2.arena.memory.limit - answered.2.arena.size = 3984 ∧
                answered.2.config.policy = .nextFit)) = true := by
    decide +kernel
  obtain ⟨_, hsetup, hanswer⟩ := Fault.ok_of_any heval
  obtain ⟨new, rfl, hnew⟩ := Fault.ok_of_any hanswer
  obtain ⟨⟨reply, h⟩, hfirst, hboth⟩ := Fault.ok_of_any hnew
  obtain ⟨hlive, hsearches⟩ := Bool.and_eq_true_iff.mp hboth
  obtain ⟨⟨found, roved⟩, hsearch, hstate⟩ := Fault.ok_of_any hsearches
  obtain ⟨hnone, hstate⟩ := Bool.and_eq_true_iff.mp hstate
  obtain ⟨hgrowth, hroom, hpolicy⟩ : h.growth (blockSize 5000) = 5024 ∧
      h.arena.memory.limit - h.arena.size = 3984 ∧ h.config.policy = .nextFit :=
    of_decide_eq_true hstate
  have hr : LegalRun (Ledger.empty.after h (.allocate 30) reply) h :=
    (LegalRun.start rfl hsetup).allocate hfirst
  obtain ⟨-, bs, _, _, answer, h', -, hsame, hrun, -, -, -, -, hexact⟩ :=
    LegalRun.allocate_exact hr 5000
  rw [hsearch] at hsame
  cases hsame
  obtain ⟨-, -, hfull⟩ := hexact (by decide) (by decide)
  obtain ⟨rfl, hrefused⟩ := hfull (Option.isNone_iff_eq_none.mp hnone) (by omega)
  have hneed : blockSize 5000 = 5024 := by decide
  rw [hgrowth, hroom, hneed] at hrun
  rw [if_pos hpolicy] at hrefused
  exact ⟨_, h, h', hr, Option.isSome_iff_ne_none.mp hlive, hrun, hrefused⟩

end SegregatedFit
