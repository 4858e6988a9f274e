import SegregatedFit.Proofs.Auditing
import SegregatedFit.Proofs.Carving

/-!
# What becomes of a request

A request ends in one of four ways, and each of them has its condition. No block can be as large
as the request needs; or the policy chooses a free block, which is carved; or it chooses none, and
the heap grows and carves the free block at its end; or there is no room to grow.
-/

namespace SegregatedFit

/-- Whether a request was refused because memory could not be had. -/
def HeapError.isOutOfMemory : HeapError → Bool
  | outOfMemory .. => true
  | _ => false

/-- A block for a request has room for it, and is of the right form. -/
theorem blockSize_spec (request : Nat) :
    request + 16 ≤ blockSize request ∧ blockSize request % 16 = 0 ∧ 48 ≤ blockSize request := by
  have hmod : blockSize request % 16 = 0 := roundUp_mod _
  have hle : max (request + 16) 40 ≤ blockSize request := le_roundUp _
  omega

/-- A request has a block size exactly if the size fits into a word. -/
theorem blockFor_eq_ok_iff {request need : Nat} :
    blockFor request = .ok need ↔ blockSize request < wordLimit ∧ blockSize request = need := by
  unfold blockFor
  split <;> simp [*]

/-- A smaller request needs no larger block. -/
theorem blockSize_mono {m n : Nat} (h : m ≤ n) : blockSize m ≤ blockSize n :=
  roundUp_mono (by omega)

namespace Heap

variable {h h' : Heap} {bs xs ys : List Block} {b : Block} {f f' : Filing} {request x : Nat}
  {e : HeapError}

/-- How much a heap grows when it has no block for a need. -/
def growth (h : Heap) (need : Nat) : Nat := max need h.config.chunk

/-- A growth step is at least as large as the need it is for. -/
theorem le_growth (h : Heap) (need : Nat) : need ≤ h.growth need := Nat.le_max_left _ _

/-- A smaller need makes a heap grow no more. -/
theorem growth_mono (h : Heap) {m n : Nat} (hle : m ≤ n) : h.growth m ≤ h.growth n := by
  unfold growth
  omega

/-- The free block at the end after growing for a need. -/
def grownFor (h : Heap) (bs : List Block) (need : Nat) : Block := h.grown bs (h.growth need)

/-- The block a growth step leaves at the end is free. -/
@[simp] theorem isFree_grownFor (h : Heap) (bs : List Block) (need : Nat) :
    (h.grownFor bs need).isFree = true := rfl

/-- The grown block starts where the blocks end that are not free at the end of the heap. -/
theorem start_grownFor (h : Heap) (bs : List Block) (need : Nat) :
    (h.grownFor bs need).start = h.first + Block.totalSize (Block.trimEnd bs) := rfl

/-- The grown block is the free tail, if there is one, and the bytes that were added. -/
theorem size_grownFor (h : Heap) (bs : List Block) (need : Nat) :
    (h.grownFor bs need).size = Block.totalSize (Block.below bs).toList + h.growth need :=
  h.size_grown bs (h.growth need)

/-- What a heap has grown by for a need is large enough for it. -/
theorem le_size_grownFor (h : Heap) (bs : List Block) (need : Nat) :
    need ≤ (h.grownFor bs need).size := by
  have hle := h.le_growth need
  rw [size_grownFor]
  omega

/-- How much a heap can grow in all. -/
def room (h : Heap) : Nat := h.arena.memory.limit - h.arena.memory.size

/-- The heap after a request was refused: it is the same, except that the next-fit search that
found no block has come back to the prologue. -/
def refused (h : Heap) (e : HeapError) : Heap :=
  { h with rover := if h.config.policy = .nextFit ∧ e.isOutOfMemory then h.prologue else h.rover }

/-- A refusal keeps good order. -/
theorem Holds.refused (hh : h.Holds bs f) (e : HeapError) : (h.refused e).Holds bs f := by
  refine ⟨⟨hh.divided, hh.files, ?_, hh.chunk_mod, hh.le_chunk, hh.chunk_lt⟩, hh.filed, hh.spaced⟩
  unfold Heap.refused
  dsimp only
  split
  · exact Or.inl rfl
  · exact hh.rover_mem

/-- The growth for a request is a number of whole words that holds its block. -/
theorem Shaped.growth_spec (hh : h.Shaped bs f) (hneed : blockSize request < wordLimit) :
    (if h.growth (blockSize request) / 8 % 2 = 1 then h.growth (blockSize request) / 8 + 1
      else h.growth (blockSize request) / 8) * 8 = h.growth (blockSize request) ∧
    h.growth (blockSize request) < wordLimit ∧
    blockSize request ≤ h.growth (blockSize request) := by
  obtain ⟨-, hmod, -⟩ := blockSize_spec request
  have hchunk := hh.chunk_mod
  unfold growth
  refine ⟨?_, Nat.max_lt.mpr ⟨hneed, hh.chunk_lt⟩, Nat.le_max_left _ _⟩
  split <;> omega

/-- What becomes of a request that is not for nothing: the answer, and the heap after it. -/
inductive Allocates (h : Heap) (bs : List Block) (f : Filing) (request : Nat) :
    Answer Nat → Heap → Prop
  /-- No block is as large as the request needs. -/
  | overflow : wordLimit ≤ blockSize request →
      Allocates h bs f request (.error (.overflow request)) (h.refused (.overflow request))
  /-- The policy chooses a free block, and it is carved. -/
  | chosen {xs ys : List Block} {b : Block} {h' : Heap} : bs = xs ++ b :: ys →
      h.choice bs f (blockSize request) = some b →
      (h.searched (some b)).Carves xs b ys f (blockSize request) h' →
      Allocates h bs f request (.ok b.start) h'
  /-- The policy chooses nothing, the heap grows, and the free block at its end is carved. -/
  | grown {h₁ h' : Heap} : h.choice bs f (blockSize request) = none →
      h.growth (blockSize request) ≤ h.room →
      (h.searched none).Extends bs f (h.growth (blockSize request)) h₁ →
      h₁.Carves (Block.trimEnd bs) (h.grownFor bs (blockSize request)) []
        (f.merge (besides bs []) (h.grownFor bs (blockSize request)))
        (blockSize request) h' →
      Allocates h bs f request (.ok (h.grownFor bs (blockSize request)).start) h'
  /-- The policy chooses nothing, and there is no room to grow. -/
  | full {cause : GrowthError} : h.choice bs f (blockSize request) = none →
      h.room < h.growth (blockSize request) →
      Allocates h bs f request (.error (.outOfMemory (blockSize request) cause))
        (h.refused (.outOfMemory (blockSize request) cause))

/-- A request for a block that would be too large is refused, and nothing changes. -/
theorem allocateBlock_overflow (hneed : ¬ blockSize request < wordLimit) :
    (h.allocateBlock request).outcome =
      .ok (.error (.overflow request), h.refused (.overflow request)) := by
  unfold Heap.allocateBlock blockFor
  rw [if_neg hneed]
  simp [Heap.refused, HeapError.isOutOfMemory]

private theorem Holds.allocateBlock_chosen (hh : h.Holds (xs ++ b :: ys) f)
    (hneed : blockSize request < wordLimit)
    (hchoice : h.choice (xs ++ b :: ys) f (blockSize request) = some b) :
    ∃ h', (h.allocateBlock request).outcome = .ok (.ok b.start, h') ∧
      (h.searched (some b)).Carves xs b ys f (blockSize request) h' := by
  obtain ⟨-, hmod, hlarge⟩ := blockSize_spec request
  obtain ⟨-, hfree, hfit⟩ := hh.mem_of_choice hchoice
  have hsearch := hh.search (blockSize request)
  have hroved := hh.searched (blockSize request)
  rw [hchoice] at hsearch hroved
  obtain ⟨h', hcarve, hcarves⟩ := hroved.carve hfree hmod hlarge hfit
  refine ⟨h', ?_, hcarves⟩
  unfold Heap.allocateBlock blockFor
  rw [if_pos hneed]
  simp only [Run.outcome_bind, hsearch, Option.map_some, hcarve, Fault.ok_bind, Run.outcome_pure]

private theorem Holds.allocateBlock_grown (hh : h.Holds bs f)
    (hneed : blockSize request < wordLimit) (hchoice : h.choice bs f (blockSize request) = none)
    (hroom : h.growth (blockSize request) ≤ h.room) :
    ∃ h₁ h', (h.allocateBlock request).outcome =
        .ok (.ok (h.grownFor bs (blockSize request)).start, h') ∧
      (h.searched none).Extends bs f (h.growth (blockSize request)) h₁ ∧
      h₁.Carves (Block.trimEnd bs) (h.grownFor bs (blockSize request)) []
        (f.merge (besides bs []) (h.grownFor bs (blockSize request)))
        (blockSize request) h' := by
  obtain ⟨-, hmod, hlarge⟩ := blockSize_spec request
  obtain ⟨hwords, hlt, hle⟩ := hh.growth_spec hneed
  have hsearch := hh.search (blockSize request)
  have hroved := hh.searched (blockSize request)
  rw [hchoice] at hsearch hroved
  obtain ⟨h₁, hextend, hextends⟩ :=
    hroved.extend hwords (Nat.le_trans hlarge hle) hlt hroom
  obtain ⟨h', hcarve, hcarves⟩ :=
    hextends.holds.carve rfl hmod hlarge (h.le_size_grownFor bs (blockSize request))
  -- the search left the arena and the settings alone, so the growth is that of the heap before it
  have hextend' : ((h.searched none).extend
      (max (blockSize request) (h.searched none).config.chunk / wordBytes)).outcome =
      .ok (.ok (h.grownFor bs (blockSize request)).start, h₁) :=
    hextend
  have hcarve' : (h₁.carve (h.grownFor bs (blockSize request)).start
      (blockSize request)).outcome = .ok h' := hcarve
  refine ⟨h₁, h', ?_, hextends, hcarves⟩
  unfold Heap.allocateBlock blockFor
  rw [if_pos hneed]
  simp only [Run.outcome_bind, hsearch, Option.map_none, Fault.ok_bind, hextend', hcarve',
    Run.outcome_pure]

/-- Without a choice and without room a request is refused, and the error says how much room there
is for which growth. -/
theorem Holds.allocateBlock_of_full (hh : h.Holds bs f)
    (hneed : blockSize request < wordLimit) (hchoice : h.choice bs f (blockSize request) = none)
    (hroom : h.room < h.growth (blockSize request)) :
    (h.allocateBlock request).outcome =
      .ok (.error (.outOfMemory (blockSize request)
          (.exhausted (h.growth (blockSize request)) h.room)),
        h.refused (.outOfMemory (blockSize request)
          (.exhausted (h.growth (blockSize request)) h.room))) := by
  obtain ⟨hwords, hlt, -⟩ := hh.growth_spec hneed
  have hsearch := hh.search (blockSize request)
  rw [hchoice] at hsearch
  have hrefused : ((h.searched none).extend
      (max (blockSize request) (h.searched none).config.chunk / wordBytes)).outcome =
      .ok (.error (.exhausted (h.growth (blockSize request)) h.room), h.searched none) :=
    extend_of_lt hwords hlt hroom
  unfold Heap.allocateBlock blockFor
  rw [if_pos hneed]
  simp only [Run.outcome_bind, hsearch, Option.map_none, Fault.ok_bind, hrefused,
    Run.outcome_tell, Run.outcome_pure]
  simp only [Heap.refused, HeapError.isOutOfMemory, and_true]
  rfl

/-- In a heap in good order every request comes to one of the four ends. -/
theorem Holds.allocateBlock_outcome (hh : h.Holds bs f) (request : Nat) :
    ∃ answer h', (h.allocateBlock request).outcome = .ok (answer, h') ∧
      h.Allocates bs f request answer h' := by
  by_cases hneed : blockSize request < wordLimit
  · cases hchoice : h.choice bs f (blockSize request) with
    | some b =>
      obtain ⟨xs, ys, rfl⟩ := List.append_of_mem (hh.mem_of_choice hchoice).1
      obtain ⟨h', hrun, hcarves⟩ := hh.allocateBlock_chosen hneed hchoice
      exact ⟨_, h', hrun, .chosen rfl hchoice hcarves⟩
    | none =>
      rcases Nat.lt_or_ge h.room (h.growth (blockSize request)) with hroom | hroom
      · exact ⟨_, _, hh.allocateBlock_of_full hneed hchoice hroom, .full hchoice hroom⟩
      · obtain ⟨h₁, h', hrun, hextends, hcarves⟩ := hh.allocateBlock_grown hneed hchoice hroom
        exact ⟨_, h', hrun, .grown hchoice hroom hextends hcarves⟩
  · exact ⟨_, _, allocateBlock_overflow hneed, .overflow (Nat.le_of_not_lt hneed)⟩

/-- A search moves nothing but the rover. -/
theorem alike_searched (h : Heap) (found : Option Block) : h.Alike (h.searched found) :=
  ⟨rfl, rfl, rfl⟩

/-- The heap after a request keeps its settings. -/
theorem Allocates.alike {answer : Answer Nat} (ha : h.Allocates bs f request answer h') :
    h.Alike h' := by
  cases ha with
  | overflow => exact ⟨rfl, rfl, rfl⟩
  | chosen _ _ hcarves => exact (h.alike_searched _).trans hcarves.alike
  | grown _ _ hextends hcarves =>
    exact (h.alike_searched _).trans (hextends.alike.trans hcarves.alike)
  | full => exact ⟨rfl, rfl, rfl⟩

/-- A request that is not for nothing is answered with a block or with an error. -/
theorem allocate_of_block {answer : Answer Nat} (hpos : 0 < request)
    (hrun : (h.allocateBlock request).outcome = .ok (answer, h')) (hprologue : 8 ≤ h'.prologue) :
    (h.allocate request).outcome = .ok (answer.map some, h') := by
  have haudit := h'.selfAudit_outcome .allocate hprologue
  simp only [Heap.allocate, if_neg (Nat.ne_of_gt hpos), Run.outcome_bind, hrun, Fault.ok_bind]
  cases answer with
  | error e => rfl
  | ok x => simp only [Run.outcome_bind, haudit, Fault.ok_bind, Run.outcome_pure, Except.map]

private theorem Holds.allocate_outcome (hh : h.Holds bs f) (hpos : 0 < request) :
    ∃ answer h', (h.allocate request).outcome = .ok (answer.map some, h') ∧
      h.Allocates bs f request answer h' := by
  obtain ⟨answer, h', hrun, ha⟩ := hh.allocateBlock_outcome request
  refine ⟨answer, h', allocate_of_block hpos hrun ?_, ha⟩
  rw [ha.alike.prologue_eq]
  exact hh.le_prologue

/-- A request that got a block came to one of the two ends that give one. -/
theorem Holds.allocates_of_allocate (hh : h.Holds bs f)
    (hrun : (h.allocate request).outcome = .ok (.ok (some x), h')) :
    0 < request ∧ h.Allocates bs f request (.ok x) h' := by
  rcases Nat.eq_zero_or_pos request with rfl | hpos
  · cases hrun
  · obtain ⟨answer, h₁, hanswer, ha⟩ := hh.allocate_outcome hpos
    rw [hrun] at hanswer
    cases answer with
    | error e => cases hanswer
    | ok y =>
      cases hanswer
      exact ⟨hpos, ha⟩

/-- Carving does not change how much the arena has grown. -/
theorem Holds.size_of_grown {h₁ : Heap} {amount need : Nat} (hh : h.Holds bs f)
    (hchoice : h.choice bs f need = none) (hextends : (h.searched none).Extends bs f amount h₁)
    (hcarves : h₁.Carves xs b ys f' need h') : h'.arena.size = h.arena.size + amount := by
  have hroved := hh.searched need
  rw [hchoice] at hroved
  exact hcarves.edited.size_eq.trans (hextends.size_eq hroved)

/-- A request for which the policy chooses a block gets it, and the arena does not grow. -/
theorem Holds.allocate_of_choice (hh : h.Holds bs f) (hpos : 0 < request)
    (hchoice : h.choice bs f (blockSize request) = some b) :
    ∃ h', (h.allocate request).outcome = .ok (.ok (some b.start), h') ∧
      h'.arena.size = h.arena.size := by
  obtain ⟨answer, h', hrun, ha⟩ := hh.allocate_outcome hpos
  cases ha with
  | overflow hlarge =>
    obtain ⟨hmem, -, hfit⟩ := hh.mem_of_choice hchoice
    have hbounds := hh.divided.bounds hmem
    have hlt := h.arena.size_lt
    have hlimit : 18446744073709551616 ≤ blockSize request := hlarge
    omega
  | chosen _ hsame hcarves =>
    rw [hchoice] at hsame
    cases hsame
    exact ⟨h', hrun, hcarves.edited.size_eq⟩
  | grown hnone => simp [hchoice] at hnone
  | full hnone => simp [hchoice] at hnone

/-- A request for which the policy chooses nothing makes the arena grow, if there is room. -/
theorem Holds.allocate_of_room (hh : h.Holds bs f) (hpos : 0 < request)
    (hchoice : h.choice bs f (blockSize request) = none)
    (hroom : h.growth (blockSize request) ≤ h.room) :
    ∃ h', (h.allocate request).outcome =
        .ok (.ok (some (h.grownFor bs (blockSize request)).start), h') ∧
      h'.arena.size = h.arena.size + h.growth (blockSize request) := by
  obtain ⟨answer, h', hrun, ha⟩ := hh.allocate_outcome hpos
  have hle := h.le_growth (blockSize request)
  cases ha with
  | overflow hlarge =>
    have hlt : h.arena.memory.limit < 9223372036854775808 := h.arena.memory.limit_lt
    have hlimit : 18446744073709551616 ≤ blockSize request := hlarge
    unfold room at hroom
    omega
  | chosen _ hsome => simp [hchoice] at hsome
  | grown _ _ hextends hcarves => exact ⟨h', hrun, hh.size_of_grown hchoice hextends hcarves⟩
  | full _ hfull => omega

/-- A request for which the policy chooses nothing is refused, if there is no room. -/
theorem Holds.allocate_of_full (hh : h.Holds bs f) (hpos : 0 < request)
    (hchoice : h.choice bs f (blockSize request) = none)
    (hroom : h.room < h.growth (blockSize request)) :
    ∃ e, (h.allocate request).outcome = .ok (.error e, h.refused e) := by
  obtain ⟨answer, h', hrun, ha⟩ := hh.allocate_outcome hpos
  cases ha with
  | overflow => exact ⟨_, hrun⟩
  | chosen _ hsome => simp [hchoice] at hsome
  | grown _ hgrown => omega
  | full => exact ⟨_, hrun⟩

/-- The arena is as long as before exactly when the policy chooses a block. -/
theorem Allocates.size_eq_iff (ha : h.Allocates bs f request (.ok x) h') (hh : h.Holds bs f) :
    h'.arena.size = h.arena.size ↔ h.choice bs f (blockSize request) ≠ none := by
  obtain ⟨-, -, hlarge⟩ := blockSize_spec request
  cases ha with
  | chosen _ hchoice hcarves =>
    rw [hchoice]
    exact ⟨fun _ => Option.some_ne_none _, fun _ => hcarves.edited.size_eq⟩
  | grown hchoice _ hextends hcarves =>
    rw [hchoice]
    have hsize := hh.size_of_grown hchoice hextends hcarves
    have hle := h.le_growth (blockSize request)
    exact ⟨fun heq => by omega, fun hne => absurd rfl hne⟩

end Heap

end SegregatedFit
