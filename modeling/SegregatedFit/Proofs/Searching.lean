import SegregatedFit.Proofs.Choosing

/-!
# Searching never fails

In a heap in good order all walks come to their end, so each of the six searches gives an
answer, and it is the block that its policy chooses. The next-fit search goes once around: over
the blocks behind the rover and then over those up to it.
-/

namespace SegregatedFit.Heap

variable {h : Heap} {bs : List Block} {f : Filing} {b : Block}

/-- The blocks of a shaped heap are the ones its arena is divided into. -/
theorem Shaped.blocks_eq (hh : h.Shaped bs f) : h.blocks = ⟨bs, none⟩ := by
  have hwalk := @Arena.Divided.blocksFrom _ [] bs _ hh.divided
  exact hwalk

/-- The step from the prologue leads to the first block. -/
theorem Shaped.next_prologue (hh : h.Shaped bs f) : h.arena.next h.prologue = .ok h.first :=
  hh.divided.next_prologue

/-- The rover divides the blocks into those up to it and those behind it. -/
theorem Shaped.rover_split (hh : h.Shaped bs f) :
    ∃ xs ys, bs = xs ++ ys ∧ h.arena.next h.rover = .ok (h.first + Block.totalSize xs) ∧
      (∀ b ∈ xs, b.start ≤ h.rover) ∧ ∀ b ∈ ys, h.rover < b.start := by
  -- at the prologue no block is up to the rover, otherwise its own block is the last one
  rcases hh.rover_mem with hrover | hrover
  · refine ⟨[], bs, rfl, ?_, List.forall_mem_nil _, fun b hb => ?_⟩
    · rw [hrover]
      exact hh.next_prologue
    · have hbounds := hh.divided.bounds hb
      have hdef : h.first = h.prologue + 8 := rfl
      omega
  · obtain ⟨b, hb, hstart⟩ := List.mem_map.mp hrover
    obtain ⟨lower, upper, rfl⟩ := List.append_of_mem hb
    have hsplit : h.arena.Tiled h.first ((lower ++ [b]) ++ upper) h.arena.size := by
      simpa using hh.divided.tiled
    have hlower := (Arena.tiled_append.mp hsplit).1
    have hupper := (Arena.tiled_append.mp hsplit).2
    have hend := hh.divided.end_eq
    have hsize := (hh.divided.proper hb).le_size
    refine ⟨lower ++ [b], upper, by simp, ?_, fun c hc => ?_, fun c hc => ?_⟩
    · rw [← hstart, hh.divided.next hb, hend]
    · have hbounds := hlower.bounds hc
      have hproper := (hlower.proper hc).le_size
      have hcmem : c ∈ lower ++ b :: upper := by
        rcases List.mem_append.mp hc with hc | hc
        · exact List.mem_append_left _ hc
        · exact List.mem_append_right _ (List.mem_singleton.mp hc ▸ List.mem_cons_self)
      rcases hh.divided.apart hcmem hb with rfl | hle | hle
      · omega
      · omega
      · omega
    · have hbounds := hupper.bounds hc
      omega

/-- The offsets that classes list lead to the blocks that start there. -/
theorem Holds.attempt_block (hh : h.Holds bs f) (cs : List SizeClass) :
    (Walk.mk (cs.flatMap f) none).attempt h.arena.block = ⟨f.blocksOf bs cs, none⟩ := by
  have hnodup := hh.divided.nodup
  rw [← hh.filed.map_start_blocksOf hnodup cs]
  exact Walk.attempt_map fun b hb =>
    hh.divided.block ((hh.filed.mem_blocksOf_iff hnodup).mp hb).1

private theorem Holds.bucketBlocks (hh : h.Holds bs f) (c : SizeClass) :
    h.bucketBlocks c = ⟨f.blocksOf bs [c], none⟩ := by
  rw [Heap.bucketBlocks, hh.files.walk_eq, ← hh.attempt_block]
  simp

/-- Walking through the buckets of a heap meets the blocks of its filing, in their order. -/
theorem Holds.listedBlocks (hh : h.Holds bs f) :
    h.listedBlocks = ⟨f.blocksOf bs SizeClass.all, none⟩ := by
  rw [Heap.listedBlocks, hh.files.walkAll_eq, Filing.listed, hh.attempt_block]

/-- From a class on, the first head is the first block that the classes list. -/
theorem Holds.headFrom? (hh : h.Holds bs f) (c : SizeClass) :
    (h.buckets.headFrom? c).map Prod.snd =
      (f.blocksOf bs (SizeClass.all.drop c.val)).head?.map Block.start := by
  rw [← List.head?_map, hh.filed.map_start_blocksOf hh.divided.nodup, List.head?_flatMap,
    Buckets.headFrom?, List.map_findSome?]
  congr 1
  funext d
  rw [Function.comp_apply, hh.files.head_eq, Option.map_map]
  exact Option.map_id'

/-- The segregated search takes what the policy chooses, without a look at any size as long as a
class qualifies. -/
theorem Holds.segregatedFit (hh : h.Holds bs f) (rover need : Nat) :
    (h.segregatedFit need).outcome =
      .ok ((Policy.choose .segregated bs f rover need).map Block.start) := by
  unfold Heap.segregatedFit
  cases hclass : SizeClass.qualifying? need with
  | none =>
    simp only [Run.outcome_bind, Run.outcome_liftM, Run.outcome_pure, hh.bucketBlocks,
      Walk.find?_mk_none, Fault.ok_bind, Policy.choose, Policy.wantsSmallest, Policy.candidates,
      Policy.order, Policy.floor, hclass, List.head?_filter]
    rfl
  | some c =>
    rw [Policy.choose_of_qualifying hh.filed hh.divided.nodup hclass, ← hh.headFrom? c]
    dsimp only
    cases h.buckets.headFrom? c with
    | none => rfl
    | some found => rfl

private theorem Holds.firstFit (hh : h.Holds bs f) (rover need : Nat) :
    h.firstFit need = .ok ((Policy.choose .firstFit bs f rover need).map Block.start) := by
  rw [Heap.firstFit, hh.blocks_eq, Walk.find?_mk_none, Policy.choose_firstFit]
  rfl

private theorem Holds.bestFit (hh : h.Holds bs f) (rover need : Nat) :
    h.bestFit need = .ok ((Policy.choose .bestFit bs f rover need).map Block.start) := by
  rw [Heap.bestFit, hh.blocks_eq, Walk.filter_mk, bestFit?_mk_none]
  rfl

/-- The two walks of the next-fit search: from the block behind the rover to the end, and from the
first block to the rover. Together they come past every block once. -/
theorem Shaped.rover_walks (hh : h.Shaped bs f) :
    ∃ start upto behind, bs = upto ++ behind ∧ h.arena.next h.rover = .ok start ∧
      h.arena.blocksFrom start = ⟨behind, none⟩ ∧
      (h.blocks.takeWhile fun b => decide (b.start ≤ h.rover)) = ⟨upto, none⟩ ∧
      (∀ b ∈ upto, b.start ≤ h.rover) ∧ ∀ b ∈ behind, h.rover < b.start := by
  obtain ⟨upto, behind, rfl, hnext, hupto, hbehind⟩ := hh.rover_split
  refine ⟨_, upto, behind, rfl, hnext, hh.divided.blocksFrom, ?_, hupto, hbehind⟩
  rw [hh.blocks_eq, Walk.takeWhile_mk_none,
    List.takeWhile_append_of_pos fun b hb => decide_eq_true (hupto b hb)]
  cases behind with
  | nil => simp
  | cons b rest =>
    have hb := hbehind b List.mem_cons_self
    simp [hb]

/-- Next fit searches the blocks behind the rover first, and then those up to it. -/
theorem Holds.nextFrom (hh : h.Holds bs f) (need : Nat) :
    h.nextFrom need = .ok ((Policy.choose .nextFit bs f h.rover need).map Block.start) := by
  obtain ⟨start, upto, behind, rfl, hnext, hwalk, htake, hupto, hbehind⟩ := hh.rover_walks
  simp only [Heap.nextFrom, hnext, Fault.ok_bind, hwalk, Walk.find?_mk_none, htake,
    Policy.choose_nextFit hupto hbehind, List.find?_append]
  cases behind.find? fun b => b.isFree && b.holds need <;> rfl

private theorem Holds.explicitFirstFit (hh : h.Holds bs f) (rover need : Nat) :
    h.explicitFirstFit need =
      .ok ((Policy.choose .explicitFirstFit bs f rover need).map Block.start) := by
  rw [Heap.explicitFirstFit, hh.listedBlocks, Walk.find?_mk_none, ← List.head?_filter]
  rfl

private theorem Holds.explicitBestFit (hh : h.Holds bs f) (rover need : Nat) :
    h.explicitBestFit need =
      .ok ((Policy.choose .explicitBestFit bs f rover need).map Block.start) := by
  rw [Heap.explicitBestFit, hh.listedBlocks, bestFit?_mk_none]
  rfl

/-- The block that a heap with these blocks and lists takes for a need. -/
def choice (h : Heap) (bs : List Block) (f : Filing) (need : Nat) : Option Block :=
  h.config.policy.choose bs f h.rover need

/-- The heap after a search: only next fit moves the rover, to the block or to the prologue. -/
def searched (h : Heap) (found : Option Block) : Heap :=
  { h with rover :=
      if h.config.policy = .nextFit then (found.map Block.start).getD h.prologue else h.rover }

/-- Every search gives the block that the policy chooses, and changes no more than the rover. -/
theorem Holds.search (hh : h.Holds bs f) (need : Nat) :
    (h.search need).outcome =
      .ok ((h.choice bs f need).map Block.start, h.searched (h.choice bs f need)) := by
  unfold Heap.search searched choice
  cases hpolicy : h.config.policy with
  | segregated => simp [hh.segregatedFit h.rover need]
  | firstFit => simp [hh.firstFit h.rover need]
  | bestFit => simp [hh.bestFit h.rover need]
  | nextFit =>
    simp only [Heap.nextFit, Run.outcome_bind, Run.outcome_liftM, hh.nextFrom, Fault.ok_bind]
    cases Policy.choose .nextFit bs f h.rover need with
    | none => simp
    | some b => simp
  | explicitFirstFit => simp [hh.explicitFirstFit h.rover need]
  | explicitBestFit => simp [hh.explicitBestFit h.rover need]

/-- What is chosen is a free block with enough room. -/
theorem Holds.mem_of_choice (hh : h.Holds bs f) {need : Nat} (hb : h.choice bs f need = some b) :
    b ∈ bs ∧ b.isFree = true ∧ need ≤ b.size := by
  obtain ⟨hmem, hfree, hfit⟩ := Policy.mem_of_choose hh.filed hh.divided.nodup hb
  exact ⟨hmem, hfree, Nat.le_trans (Policy.le_floor _ _) hfit⟩

/-- Some free block is large enough for a need, as the policy sees it. -/
def Stocked (h : Heap) (bs : List Block) (need : Nat) : Prop :=
  ∃ b ∈ bs, b.isFree = true ∧ h.config.policy.floor need ≤ b.size

/-- A heap in which a block is chosen has a free block that fits. -/
theorem Holds.stocked_of_choice (hh : h.Holds bs f) {need : Nat}
    (hb : h.choice bs f need = some b) : h.Stocked bs need :=
  ⟨b, Policy.mem_of_choose hh.filed hh.divided.nodup hb⟩

/-- Nothing is chosen exactly when no free block is large enough. -/
theorem Holds.choice_eq_none_iff (hh : h.Holds bs f) {need : Nat} :
    h.choice bs f need = none ↔ ¬ h.Stocked bs need := by
  rw [choice, Policy.choose_eq_none_iff hh.filed hh.divided.nodup]
  simp only [Stocked, not_exists, not_and, Nat.not_le]

/-- A search keeps good order. -/
theorem Holds.searched (hh : h.Holds bs f) (need : Nat) :
    (h.searched (h.choice bs f need)).Holds bs f := by
  refine ⟨⟨hh.divided, hh.files, ?_, hh.chunk_mod, hh.le_chunk, hh.chunk_lt⟩, hh.filed, hh.spaced⟩
  unfold Heap.searched
  dsimp only
  split
  · cases hfound : h.choice bs f need with
    | none => exact Or.inl rfl
    | some b => exact Or.inr (List.mem_map_of_mem (hh.mem_of_choice hfound).1)
  · exact hh.rover_mem

/-- A free block is listed in the bucket of its size. -/
theorem Holds.registered (hh : h.Holds bs f) (hb : b ∈ bs) (hfree : b.isFree = true) :
    h.buckets.contains b.start = true ∧
      b.start ∈ (h.buckets.walk (.ofSize b.size)).items := by
  have hmem : b.start ∈ f (.ofSize b.size) := (hh.filed _ _).mpr ⟨b, hb, hfree, rfl, rfl⟩
  constructor
  · rw [Buckets.contains_eq_isSome, hh.files.linksOf_isSome_iff]
    exact ⟨_, hmem⟩
  · rwa [hh.files.walk_eq]

/-- The same heap under another policy. -/
def withPolicy (h : Heap) (policy : Policy) : Heap :=
  { h with config := { h.config with policy } }

/-- Good order does not depend on the policy. -/
theorem Holds.withPolicy (hh : h.Holds bs f) (policy : Policy) : (h.withPolicy policy).Holds bs f :=
  ⟨⟨hh.divided, hh.files, hh.rover_mem, hh.chunk_mod, hh.le_chunk, hh.chunk_lt⟩, hh.filed,
    hh.spaced⟩

/-- Under any policy but next fit a search gives what the policy chooses and changes nothing. -/
theorem Holds.search_withPolicy (hh : h.Holds bs f) (policy : Policy) (hne : policy ≠ .nextFit)
    (need : Nat) : ((h.withPolicy policy).search need).outcome =
      .ok ((policy.choose bs f h.rover need).map Block.start, h.withPolicy policy) := by
  have hpolicy : (h.withPolicy policy).config.policy ≠ .nextFit := hne
  have hkept (found : Option Block) :
      (h.withPolicy policy).searched found = h.withPolicy policy := by
    unfold Heap.searched
    rw [if_neg hpolicy]
  have hsearch := (hh.withPolicy policy).search need
  rwa [hkept] at hsearch

end SegregatedFit.Heap
