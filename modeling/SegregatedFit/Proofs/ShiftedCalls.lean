import SegregatedFit.Proofs.ShiftedHeaps
import SegregatedFit.Proofs.Serving

/-!
# Calls on heaps that lie further up

A call with its offsets counted from where a heap is has the same reply wherever the heap is. The
heap below must be in good order. Then the one above is in good order too, with the same blocks
and lists further up, and a policy takes the same block of both.
-/

namespace SegregatedFit

variable {k : Nat} {past : Nat → UInt8}

/-! Choosing a block. -/

namespace Block

/-- A choice that does not look at the start can be made before the shift or after it. -/
theorem filter_shift {p : Block → Bool} (hp : ∀ b, p (b.shift k) = p b) (bs : List Block) :
    (bs.map (shift k)).filter p = (bs.filter p).map (shift k) := by
  rw [List.filter_map]
  congr 2
  exact funext hp

private theorem smallest?_shift (bs : List Block) :
    smallest? (bs.map (shift k)) = (smallest? bs).map (shift k) := by
  induction bs with
  | nil => rfl
  | cons b rest ih =>
    rw [List.map_cons, smallest?, smallest?, ih]
    cases smallest? rest with
    | none => rfl
    | some best =>
      exact (apply_ite (Option.map (shift k)) (best.size < b.size) (some best) (some b)).symm

private theorem rotated_shift (bs : List Block) (x : Nat) :
    rotated (bs.map (shift k)) (x + k) = (rotated bs x).map (shift k) := by
  simp only [rotated, List.filter_map, List.map_append]
  congr 3
  · funext b
    simp
  · funext b
    simp

private theorem startingAt_shift (bs : List Block) (x : Nat) :
    startingAt (bs.map (shift k)) (x + k) = (startingAt bs x).map (shift k) := by
  rw [startingAt, List.find?_map, startingAt]
  congr 2
  funext b
  simp

end Block

private theorem Filing.blocksOf_shift (f : Filing) (bs : List Block) (cs : List SizeClass) :
    (f.shift k).blocksOf (bs.map (Block.shift k)) cs = (f.blocksOf bs cs).map (Block.shift k) := by
  have hlist : cs.flatMap (f.shift k) = (cs.flatMap f).map (· + k) := List.map_flatMap.symm
  rw [blocksOf, hlist, List.filterMap_map, blocksOf, List.map_filterMap]
  congr 1
  funext x
  exact Block.startingAt_shift bs x

/-- A policy takes the same block wherever the blocks and the rover are. -/
theorem Policy.choose_shift (policy : Policy) (bs : List Block) (f : Filing) (rover need : Nat) :
    policy.choose (bs.map (Block.shift k)) (f.shift k) (rover + k) need =
      (policy.choose bs f rover need).map (Block.shift k) := by
  have horder : policy.order (bs.map (Block.shift k)) (f.shift k) (rover + k) need =
      (policy.order bs f rover need).map (Block.shift k) := by
    unfold order
    cases policy with
    | segregated =>
      cases SizeClass.qualifying? need with
      | none => exact f.blocksOf_shift bs _
      | some c => exact f.blocksOf_shift bs _
    | firstFit => exact Block.filter_shift (fun _ => rfl) bs
    | bestFit => exact Block.filter_shift (fun _ => rfl) bs
    | nextFit =>
      dsimp only
      rw [Block.rotated_shift, Block.filter_shift fun _ => rfl]
    | explicitFirstFit => exact f.blocksOf_shift bs _
    | explicitBestFit => exact f.blocksOf_shift bs _
  have hcandidates : policy.candidates (bs.map (Block.shift k)) (f.shift k) (rover + k) need =
      (policy.candidates bs f rover need).map (Block.shift k) := by
    rw [candidates, horder, Block.filter_shift fun _ => rfl, candidates]
  unfold choose
  rw [hcandidates]
  split
  · exact Block.smallest?_shift _
  · rw [List.head?_map]

/-! Good order. -/

private theorem Filing.Of.shift {f : Filing} {bs : List Block} (h : f.Of bs) :
    (f.shift k).Of (bs.map (Block.shift k)) := by
  intro c x
  simp only [Filing.shift, List.mem_map]
  constructor
  · rintro ⟨y, hy, rfl⟩
    obtain ⟨b, hb, hfree, rfl, hclass⟩ := (h c y).mp hy
    exact ⟨b.shift k, ⟨b, hb, rfl⟩, hfree, rfl, hclass⟩
  · rintro ⟨_, ⟨b, hb, rfl⟩, hfree, rfl, hclass⟩
    exact ⟨b.start, (h c b.start).mpr ⟨b, hb, hfree, rfl, hclass⟩, rfl⟩

private theorem Block.Spaced.shift {bs : List Block} (h : Spaced bs) :
    Spaced (bs.map (Block.shift k)) :=
  List.isChain_map_of_isChain (Block.shift k) (fun _ _ hbc => hbc) h

namespace Heap.Shifted

variable {h g : Heap} {bs : List Block} {f : Filing} {x : Nat}

/-- A heap further up by whole granules is in good order if the one below is. -/
theorem holds (hs : h.Shifted k past g) (hk : k % 16 = 0) (hh : h.Holds bs f) :
    g.Holds (bs.map (Block.shift k)) (f.shift k) := by
  have hdivided := hs.arena.divided hk hh.divided
  rw [← hs.first_eq] at hdivided
  refine ⟨⟨hdivided, hs.buckets.files hh.files, ?_, ?_, ?_, ?_⟩, hh.filed.shift, hh.spaced.shift⟩
  · rw [hs.rover_eq, hs.prologue_eq, List.map_map]
    apply hh.rover_mem.imp (congrArg (· + k))
    intro hmem
    obtain ⟨b, hb, hstart⟩ := List.mem_map.mp hmem
    exact List.mem_map.mpr ⟨b, hb, congrArg (· + k) hstart⟩
  · rw [hs.config_eq]
    exact hh.chunk_mod
  · rw [hs.config_eq]
    exact hh.le_chunk
  · rw [hs.config_eq]
    exact hh.chunk_lt

private theorem search (hs : h.Shifted k past g) (hk : k % 16 = 0) (hh : h.Holds bs f)
    (need : Nat) :
    Follows (Shown k past (Option.map (· + k))) (h.search need).outcome
      (g.search need).outcome := by
  have hchoice : g.choice (bs.map (Block.shift k)) (f.shift k) need =
      (h.choice bs f need).map (Block.shift k) := by
    rw [choice, hs.config_eq, hs.rover_eq, Policy.choose_shift]
    rfl
  rw [hh.search, (hs.holds hk hh).search, hchoice]
  refine .ok ⟨?_, hs.arena, hs.buckets, hs.config_eq, hs.prologue_eq, ?_, hs.le_prologue⟩
  · simp only [Option.map_map]
    rfl
  · simp only [searched, hs.config_eq, hs.rover_eq, hs.prologue_eq]
    cases h.choice bs f need with
    | none => simp only [Option.map_none, Option.getD_none]; split <;> rfl
    | some b => simp only [Option.map_some, Option.getD_some]; split <;> rfl

end Heap.Shifted

/-! What is answered. -/

/-- The same refusal of an offset further up. -/
def HeapError.shift (k : Nat) : HeapError → HeapError
  | invalidPointer offset => invalidPointer (offset + k)
  | e => e

/-- The same answer with the offsets in it further up. -/
def Answer.shift {α β : Type} (k : Nat) (f : α → β) (answer : Answer α) : Answer β :=
  (answer.map f).mapError (HeapError.shift k)

namespace Heap.Shifted

variable {h g : Heap} {bs : List Block} {f : Filing} {x : Nat}

private theorem allocateBlock (hs : h.Shifted k past g) (hk : k % 16 = 0) (hh : h.Holds bs f)
    (request : Nat) :
    Follows (Shown k past (Answer.shift k (· + k))) (h.allocateBlock request).outcome
      (g.allocateBlock request).outcome := by
  unfold Heap.allocateBlock
  unfold blockFor
  by_cases hneed : blockSize request < wordLimit
  · simp only [if_pos hneed, Run.outcome_bind]
    refine (hs.search hk hh _).shown fun found h g hs => ?_
    cases found with
    | some block =>
      simp only [Option.map_some, Run.outcome_bind]
      exact (hs.carve block _).bind fun h g hs => .reply hs
    | none =>
      simp only [Option.map_none, Run.outcome_bind, hs.config_eq]
      refine (hs.extend _).shown fun answer h g hs => ?_
      cases answer with
      | ok block =>
        simp only [Except.map, Run.outcome_bind]
        exact (hs.carve block _).bind fun h g hs => .reply hs
      | error cause => exact .reply hs
  · simp only [if_neg hneed]
    exact .reply hs

private theorem blockAt_eq (hs : h.Shifted k past g) (hx : 8 ≤ x) :
    g.blockAt (x + k) = (h.blockAt x).shift k := by
  rw [blockAt, Nat.sub_add_comm hx, hs.arena.memory.wordAt_eq]
  rfl

/-- An offset names a block in use exactly if the same one further up does. -/
theorem names_iff (hs : h.Shifted k past g) (hk : k % 16 = 0) : g.Names (x + k) ↔ h.Names x := by
  have hfirst := hs.first_eq
  by_cases hlow : h.first ≤ x
  swap
  · exact iff_of_false (fun hn => hlow (by have := hn.first_le; omega)) fun hn => hlow hn.first_le
  have hsize := hs.arena.size_eq
  have hblock := hs.blockAt_eq (Nat.le_trans (Nat.le_add_left 8 h.prologue) hlow)
  have hfooter (hlarge : 40 ≤ (h.blockAt x).size) :
      g.arena.memory.wordAt (x + k + (h.blockAt x).size - 16) =
        h.arena.memory.wordAt (x + (h.blockAt x).size - 16) := by
    have hword : 16 ≤ x + (h.blockAt x).size :=
      Nat.le_add_left_of_le (Nat.le_trans (by decide) hlarge)
    rw [Nat.add_right_comm, Nat.sub_add_comm hword, hs.arena.memory.wordAt_eq]
  constructor
  · rintro ⟨-, hmod, hlt, hused, hlarge, hend, hword⟩
    rw [hblock, Block.isFree_shift] at hused
    rw [hblock, Block.size_shift] at hlarge hend hword
    rw [hfooter hlarge] at hword
    exact ⟨hlow, by omega, by omega, hused, hlarge, by omega, hword⟩
  · rintro ⟨-, hmod, hlt, hused, hlarge, hend, hword⟩
    rw [← hfooter hlarge] at hword
    have hfree : (g.blockAt (x + k)).isFree = (h.blockAt x).isFree := by
      rw [hblock, Block.isFree_shift]
    have hlength : (g.blockAt (x + k)).size = (h.blockAt x).size := by
      rw [hblock, Block.size_shift]
    exact ⟨by omega, by omega, by omega, hfree.trans hused, by omega, by omega,
      by simpa only [hlength] using hword⟩

/-- The test of an offset is the same further up. -/
theorem resolve (hs : h.Shifted k past g) (hk : k % 16 = 0) (x : Nat) :
    Follows (fun r r' => r' = Answer.shift k (Block.shift k) r) (h.resolve x)
      (g.resolve (x + k)) := by
  by_cases hn : h.Names x
  · have hn' := (hs.names_iff hk).mpr hn
    have hlow := hn.first_le
    have hdef : h.first = h.prologue + 8 := rfl
    rw [hn.resolve, hn'.resolve, hs.blockAt_eq (by omega)]
    exact .ok rfl
  · have hn' := (hs.names_iff hk).not.mpr hn
    rw [resolve_of_not hn, resolve_of_not hn']
    exact .ok rfl

/-- A shifted heap has the same payload further up, or refuses it too. -/
theorem payload (hs : h.Shifted k past g) (hk : k % 16 = 0) (x : Nat) :
    Follows (fun r r' => r' = Answer.shift k id r) (h.payload x) (g.payload (x + k)) := by
  have hslice (start count : Nat) :
      g.arena.slice (start + k) count = h.arena.slice start count := by
    have hbytes : (fun i => g.arena.memory.read (start + k + i)) =
        fun i => h.arena.memory.read (start + i) := by
      funext i
      rw [Nat.add_right_comm, hs.arena.memory.read_eq]
    rw [Arena.slice, Arena.slice, hbytes, hs.arena.size_eq, Nat.add_right_comm]
    simp only [Nat.add_le_add_iff_right]
  unfold Heap.payload
  refine (hs.resolve hk x).bind fun answer _ hanswer => ?_
  subst hanswer
  cases answer with
  | error e => exact .ok rfl
  | ok b =>
    refine .same fun size => ?_
    rw [hslice]
    exact .same fun bytes => .ok rfl

/-- Writing through a shifted pointer keeps heaps shifted, or is refused in both. -/
theorem writePayload (hs : h.Shifted k past g) (hk : k % 16 = 0) (x position count : Nat)
    (f : Nat → UInt8) :
    Follows (Shown k past (Answer.shift k id)) (h.writePayload x position count f)
      (g.writePayload (x + k) position count f) := by
  unfold Heap.writePayload
  refine (hs.resolve hk x).bind fun answer _ hanswer => ?_
  subst hanswer
  cases answer with
  | error e => exact .reply hs
  | ok b =>
    refine .same fun room => ?_
    dsimp only
    rw [Nat.add_right_comm]
    exact (hs.arena.write _ _ f).bind fun a b hab =>
      .reply (hs.with_arena hab hs.buckets hs.rover_eq)

/-! The operations. -/

/-- Heaps at both places audit themselves without a fault. -/
theorem selfAudit (hs : h.Shifted k past g) (occasion : Occasion) :
    (h.selfAudit occasion).outcome = .ok () ∧ (g.selfAudit occasion).outcome = .ok () :=
  ⟨h.selfAudit_outcome occasion hs.le_prologue, g.selfAudit_outcome occasion
    (hs.prologue_eq ▸ Nat.le_add_right_of_le hs.le_prologue)⟩

/-- Allocating in both heaps gives shifted pointers, and keeps them shifted. -/
theorem allocate (hs : h.Shifted k past g) (hk : k % 16 = 0) (hh : h.Holds bs f) (request : Nat) :
    Follows (Shown k past (Answer.shift k (Option.map (· + k)))) (h.allocate request).outcome
      (g.allocate request).outcome := by
  unfold Heap.allocate
  split
  · exact .reply hs
  · simp only [Run.outcome_bind]
    refine (hs.allocateBlock hk hh request).shown fun answer h g hs => ?_
    cases answer with
    | error e => exact .reply hs
    | ok block =>
      obtain ⟨haudit, haudit'⟩ := hs.selfAudit .allocate
      simp only [Answer.shift, Except.map, Except.mapError, Run.outcome_bind, haudit, haudit']
      exact .reply hs

/-- Releasing a pointer and the shifted one keeps heaps shifted. -/
theorem release (hs : h.Shifted k past g) (hk : k % 16 = 0) (pointer : Option Nat) :
    Follows (Shown k past (Answer.shift k id)) (h.release pointer).outcome
      (g.release (pointer.map (· + k))).outcome := by
  cases pointer with
  | none => exact .reply hs
  | some x =>
    unfold Heap.release
    simp only [Option.map_some, Run.outcome_bind, Run.outcome_liftM]
    refine (hs.resolve hk x).bind fun answer _ hanswer => ?_
    subst hanswer
    cases answer with
    | error e => exact .reply hs
    | ok b =>
      simp only [Answer.shift, Except.map, Except.mapError, Run.outcome_bind]
      refine (hs.releaseBlock x).bind fun h g hs => ?_
      obtain ⟨haudit, haudit'⟩ := hs.selfAudit .release
      rw [haudit, haudit']
      exact .reply hs

/-- Reallocating a pointer and the shifted one gives shifted pointers, and keeps heaps shifted. -/
theorem reallocate (hs : h.Shifted k past g) (hk : k % 16 = 0) (hh : h.Holds bs f)
    (pointer : Option Nat) (request : Nat) :
    Follows (Shown k past (Answer.shift k (Option.map (· + k))))
      (h.reallocate pointer request).outcome
      (g.reallocate (pointer.map (· + k)) request).outcome := by
  cases pointer with
  | none => exact hs.allocate hk hh request
  | some source =>
    unfold Heap.reallocate
    simp only [Option.map_some]
    split
    · simp only [Run.outcome_bind]
      refine (hs.release hk (some source)).shown fun answer h g hs => ?_
      cases answer with
      | error e => exact .reply hs
      | ok u => exact .reply hs
    · simp only [Run.outcome_bind, Run.outcome_liftM]
      refine (hs.resolve hk source).bind fun answer _ hanswer => ?_
      subst hanswer
      cases answer with
      | error e => exact .reply hs
      | ok b =>
        simp only [Answer.shift, Except.map, Except.mapError, Run.outcome_bind, Run.outcome_liftM]
        refine .same fun room => (hs.allocateBlock hk hh request).shown fun answer h g hs => ?_
        cases answer with
        | error e => exact .reply hs
        | ok target =>
          simp only [Answer.shift, Except.map, Except.mapError, Run.outcome_bind,
            Run.outcome_liftM]
          refine (hs.arena.copy source target _).bind fun a b hab => ?_
          refine ((hs.with_arena hab hs.buckets hs.rover_eq).releaseBlock source).bind
            fun h g hs => ?_
          obtain ⟨haudit, haudit'⟩ := hs.selfAudit .reallocate
          rw [haudit, haudit']
          exact .reply hs

end Heap.Shifted

end SegregatedFit
