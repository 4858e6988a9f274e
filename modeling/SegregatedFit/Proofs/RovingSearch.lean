import SegregatedFit.Proofs.Amending
import SegregatedFit.Proofs.LegalRuns

/-!
# Next fit goes around

The next-fit search begins behind the rover's block and ends with that block. Its two walks come
past every block once, so it is a first fit over the blocks in cyclic order. The rover then stays
with what was found: when blocks are merged, it moves to the start of the block in which the found
offset lies now, and only the next search leads it away from there.
-/

namespace SegregatedFit

namespace Heap

/-- What the search for a request finds. Without a search, for a request of nothing or of more than
any block can have, it is what was found last before. -/
def lastFound (h : Heap) (last : Option Nat) (request : Nat) : Option Nat :=
  if request = 0 then last else
  match blockFor request with
  | .error _ => last
  | .ok need =>
    match (h.search need).outcome with
    | .ok (found, _) => found
    | .error _ => last

/-- The rover is where the block starts in which a found offset lies, or at the prologue if nothing
was found. -/
def RoverAt (h : Heap) : Option Nat → Prop
  | none => h.rover = h.prologue
  | some p => ∃ b ∈ h.blocks.items, b.start = h.rover ∧ b.start ≤ p ∧ p < b.start + b.size

end Heap

/-- What the last search has found after a call. Only calls that ask for a block make a search, and
to move a payload its pointer must pass the test first. -/
def Call.lastFound (h : Heap) (last : Option Nat) : Call → Option Nat
  | .allocate request => h.lastFound last request
  | .reallocate none request => h.lastFound last request
  | .reallocate (some p) request =>
    match h.resolve p with
    | .ok (.ok _) => h.lastFound last request
    | _ => last
  | _ => last

/-- A legal run together with what its last search has found. -/
inductive RovingRun : Ledger → Heap → Option Nat → Prop
  /-- A heap was set up, and nothing was searched for. -/
  | start {memory : Memory} {config : Config} {h : Heap} : memory.size = 0 →
    (Heap.setup memory config).outcome = .ok (.ok h) → RovingRun Ledger.empty h none
  /-- One more call was answered. -/
  | step {held : Ledger} {h h' : Heap} {last : Option Nat} {call : Call} {reply : Reply} :
    RovingRun held h last → call.Legal h held → (h.perform call).outcome = .ok (reply, h') →
    RovingRun (held.after h' call reply) h' (call.lastFound h last)

private theorem LegalRun.exists_roving {held : Ledger} {h : Heap} (hr : LegalRun held h) :
    ∃ last, RovingRun held h last := by
  induction hr with
  | start hempty hsetup => exact ⟨none, .start hempty hsetup⟩
  | step _ hlegal hrun ih =>
    obtain ⟨last, hlast⟩ := ih
    exact ⟨_, hlast.step hlegal hrun⟩

private theorem RovingRun.legalRun {held : Ledger} {h : Heap} {last : Option Nat}
    (hr : RovingRun held h last) : LegalRun held h := by
  induction hr with
  | start hempty hsetup => exact .start hempty hsetup
  | step _ hlegal hrun ih => exact ih.step hlegal hrun

variable {h h' : Heap} {bs bs' upto behind : List Block} {b u : Block} {f f' : Filing}
  {held : Ledger} {last : Option Nat} {request amount : Nat} {reply : Reply} {call : Call}

namespace Heap

/-- No block lies up to the prologue. -/
theorem Shaped.upto_eq_nil (hh : h.Shaped (upto ++ behind) f) (hrover : h.rover = h.prologue)
    (hupto : ∀ b ∈ upto, b.start ≤ h.rover) : upto = [] := by
  refine List.eq_nil_iff_forall_not_mem.mpr fun b hb => ?_
  have hbounds := hh.divided.bounds (List.mem_append_left _ hb)
  have hle := hupto b hb
  have hdef : h.first = h.prologue + 8 := rfl
  omega

/-- Apart from the prologue the rover is on the last of the blocks up to it. -/
theorem Shaped.rover_last (hh : h.Shaped (upto ++ behind) f) (hrover : h.rover ≠ h.prologue)
    (hupto : ∀ b ∈ upto, b.start ≤ h.rover) (hbehind : ∀ b ∈ behind, h.rover < b.start) :
    ∃ b, upto.getLast? = some b ∧ b.start = h.rover := by
  obtain ⟨b, hb, hstart⟩ := List.mem_map.mp (hh.rover_mem.resolve_left hrover)
  have hmem : b ∈ upto := (List.mem_append.mp hb).resolve_right fun hb => by
    have hlt := hbehind b hb
    omega
  have hsize := (hh.divided.proper hb).le_size
  rcases List.eq_nil_or_concat upto with rfl | ⟨lower, c, rfl⟩
  · cases hmem
  rw [List.concat_eq_append] at hmem hupto hh ⊢
  refine ⟨c, List.getLast?_concat, ?_⟩
  rcases List.mem_append.mp hmem with hlow | hlast
  · -- a block in front of the last one ends before that one starts
    have hpairs := (List.pairwise_append.mp hh.divided.tiled.pairwise).1
    have hle := (List.pairwise_append.mp hpairs).2.2 b hlow c List.mem_cons_self
    have hc := hupto c (List.mem_append_right _ List.mem_cons_self)
    omega
  · rw [← List.mem_singleton.mp hlast, hstart]

/-- The rover stays with its block when a block is given back. -/
theorem Loses.roverAt (hl : h.Loses bs h' bs' f' u) (hh : h.Holds bs f) (hr : h.RoverAt last) :
    h'.RoverAt last := by
  cases last with
  | none =>
    have hrover : h.rover = h.prologue := hr
    show h'.rover = h'.prologue
    rw [hl.rover_eq, hrover, hl.alike.prologue_eq]
    apply Block.home_eq_self
    intro c hc hin
    have hbounds := hl.holds.divided.bounds hc
    have hdef : h'.first = h'.prologue + 8 := rfl
    rw [hl.alike.prologue_eq] at hdef
    omega
  | some p =>
    obtain ⟨b, hb, hstart, hlow, hhigh⟩ := hr
    rw [hh.blocks_eq] at hb
    obtain ⟨c, hc, hclow, hchigh⟩ := hl.covered b hb
    refine ⟨c, ?_, ?_, by omega, by omega⟩
    · rw [hl.holds.blocks_eq]
      exact hc
    · have hsize := (hh.divided.proper hb).le_size
      rw [hl.rover_eq, ← hstart]
      exact (hl.holds.divided.tiled.home_eq hc hclow (by omega)).symm

/-- Growing leaves a rover at the prologue. -/
theorem Extends.rover_eq_prologue (he : h.Extends bs f amount h') (hh : h.Holds bs f)
    (hrover : h.rover = h.prologue) : h'.rover = h'.prologue := by
  have hdef : h.first = h.prologue + 8 := rfl
  let added : Block := ⟨h.arena.size, .free amount⟩
  have hoff : h.rover ∉ ((Block.below bs).toList ++ [added]).map Block.start := by
    intro hmem
    obtain ⟨c, hc, hstart⟩ := List.mem_map.mp hmem
    rcases List.mem_append.mp hc with hc | hc
    · have hcmem : c ∈ bs := by
        rw [← Block.trimEnd_append bs]
        exact List.mem_append_right _ hc
      have hbounds := hh.divided.bounds hcmem
      omega
    · obtain rfl := List.mem_singleton.mp hc
      have hsize := hh.divided.size_eq
      have hend : h.arena.size = h.rover := hstart
      omega
  rw [he.rover_eq, roverAfter, if_neg hoff, hrover, he.alike.prologue_eq]

/-- Writing into a payload changes the bytes only. -/
theorem exists_arena_of_writePayload {offset position count : Nat} {g : Nat → UInt8}
    {answer : Answer Nat} (hrun : h.writePayload offset position count g = .ok (answer, h')) :
    ∃ a, h' = ⟨a, h.buckets, h.config, h.prologue, h.rover⟩ := by
  obtain ⟨resolved, -, hrun⟩ := Fault.bind_eq_ok_iff.mp hrun
  cases resolved with
  | error e =>
    cases hrun
    exact ⟨h.arena, rfl⟩
  | ok b =>
    obtain ⟨room, -, hrun⟩ := Fault.bind_eq_ok_iff.mp hrun
    obtain ⟨a, -, heq⟩ := Fault.bind_eq_ok_iff.mp hrun
    cases heq
    exact ⟨a, rfl⟩

/-- Bytes do not matter to the rover as long as the blocks stay. -/
theorem RoverAt.with_arena {a : Arena} (hr : h.RoverAt last) (hh : h.Holds bs f)
    (hh' : Holds ⟨a, h.buckets, h.config, h.prologue, h.rover⟩ bs f) :
    RoverAt ⟨a, h.buckets, h.config, h.prologue, h.rover⟩ last := by
  unfold RoverAt at hr ⊢
  rwa [hh'.blocks_eq, ← hh.blocks_eq]

private theorem lastFound_zero (h : Heap) (last : Option Nat) : h.lastFound last 0 = last := rfl

private theorem lastFound_of_not (hneed : ¬ blockSize request < wordLimit) :
    h.lastFound last request = last := by
  unfold Heap.lastFound blockFor
  rw [if_neg hneed]
  exact ite_self _

private theorem Holds.lastFound_eq (hh : h.Holds bs f) (hpos : 0 < request)
    (hneed : blockSize request < wordLimit) :
    h.lastFound last request = (h.choice bs f (blockSize request)).map Block.start := by
  unfold Heap.lastFound blockFor
  rw [if_neg (Nat.ne_of_gt hpos), if_pos hneed]
  simp only [hh.search]

section Searches

variable (hh : h.Holds bs f) (hpolicy : h.config.policy = .nextFit) (hr : h.RoverAt last)
include hh hpolicy hr

/-- A request leaves the rover on the block that its search has found. -/
theorem Holds.roverAt_of_allocateBlock {answer : Answer Nat} (hpos : 0 < request)
    (hrun : (h.allocateBlock request).outcome = .ok (answer, h')) :
    h'.RoverAt (h.lastFound last request) := by
  by_cases hneed : blockSize request < wordLimit
  · obtain ⟨_, _, hsame, ha⟩ := hh.allocateBlock_outcome request
    rw [hrun] at hsame
    cases hsame
    rw [hh.lastFound_eq hpos hneed]
    cases ha with
    | overflow hlarge => exact absurd hneed (Nat.not_lt.mpr hlarge)
    | @chosen xs ys b _ _ hchoice hcarves =>
      have hmem := hcarves.holds.divided.mem_middle
      have hsize := (hcarves.holds.divided.proper hmem).le_size
      have hrover : h'.rover = b.start := by
        rw [hcarves.rover_eq, Heap.searched, if_pos hpolicy]
        rfl
      have hblocks := hcarves.holds.blocks_eq
      rw [hchoice]
      refine ⟨b.taken (blockSize request), by rwa [hblocks], hrover.symm, Nat.le_refl _, ?_⟩
      exact Nat.lt_add_of_pos_right (Nat.lt_of_lt_of_le (by decide) hsize)
    | grown hchoice _ hextends hcarves =>
      have hroved := hh.searched (blockSize request)
      rw [hchoice] at hroved ⊢
      have hrover : (h.searched none).rover = (h.searched none).prologue := if_pos hpolicy
      show h'.rover = h'.prologue
      rw [hcarves.rover_eq, hcarves.alike.prologue_eq]
      exact hextends.rover_eq_prologue hroved hrover
    | full hchoice =>
      rw [hchoice]
      exact if_pos ⟨hpolicy, rfl⟩
  · rw [allocateBlock_overflow hneed] at hrun
    cases hrun
    rwa [lastFound_of_not hneed, refused_overflow]

private theorem Holds.roverAt_of_allocate {answer : Answer (Option Nat)}
    (hrun : (h.allocate request).outcome = .ok (answer, h')) :
    h'.RoverAt (h.lastFound last request) := by
  rcases Nat.eq_zero_or_pos request with rfl | hpos
  · cases hrun
    rwa [lastFound_zero]
  · obtain ⟨found, h₁, hblock, ha⟩ := hh.allocateBlock_outcome request
    have hprologue : 8 ≤ h₁.prologue := ha.alike.prologue_eq ▸ hh.le_prologue
    rw [allocate_of_block hpos hblock hprologue] at hrun
    cases hrun
    exact hh.roverAt_of_allocateBlock hpolicy hr hpos hblock

/-- When a payload is moved, the search comes first, and then its old block is given back. -/
theorem Holds.roverAt_of_reallocate {answer : Answer (Option Nat)} (hu : u ∈ Block.inUse bs)
    (hrun : (h.reallocate (some u.start) request).outcome = .ok (answer, h')) :
    h'.RoverAt (h.lastFound last request) := by
  rcases Nat.eq_zero_or_pos request with rfl | hpos
  · obtain ⟨h₁, bs₁, f₁, hrelease, hl⟩ := hh.release hu
    rw [reallocate_zero, hrelease] at hrun
    cases hrun
    rw [lastFound_zero]
    exact hl.roverAt hh hr
  · obtain ⟨found, h₁, hblock, ha⟩ := hh.allocateBlock_outcome request
    have hroved := hh.roverAt_of_allocateBlock hpolicy hr hpos hblock
    cases found with
    | error e =>
      rw [hh.reallocate_of_error hu hpos hblock] at hrun
      cases hrun
      exact hroved
    | ok x =>
      obtain ⟨bs₁, f₁, v, rfl, hg, hsize⟩ := ha.gains hh
      obtain ⟨a, h₂, bs₂, f₂, hmove, hh₁, hl, -⟩ := hh.reallocate_of_gains hu hpos hblock hg hsize
      rw [hmove] at hrun
      cases hrun
      exact hl.roverAt hh₁ (hroved.with_arena hg.holds hh₁)

end Searches

end Heap

/-- Every legal call leaves the rover with what the last search has found. -/
theorem Tracked.roverAt (ht : Tracked held h bs f) (hpolicy : h.config.policy = .nextFit)
    (hr : h.RoverAt last) (hlegal : call.Legal h held)
    (hrun : (h.perform call).outcome = .ok (reply, h')) :
    h'.RoverAt (call.lastFound h last) := by
  have hh := ht.holds
  -- only a search puts the rover elsewhere; a merge may move it to the block it lies in
  cases Heap.performs_of_outcome hrun with
  | allocate hanswer => exact hh.roverAt_of_allocate hpolicy hr hanswer
  | @release pointer _ _ hanswer =>
    cases pointer with
    | none =>
      cases hanswer
      exact hr
    | some p =>
      rcases ht.accepted hlegal with ⟨u, hu, rfl⟩ | hn
      · obtain ⟨h₂, bs₂, f₂, hrelease, hl⟩ := hh.release hu
        rw [hrelease] at hanswer
        cases hanswer
        exact hl.roverAt hh hr
      · rw [Heap.release_of_not hn] at hanswer
        cases hanswer
        exact hr
  | @reallocate pointer request _ _ hanswer =>
    cases pointer with
    | none => exact hh.roverAt_of_allocate hpolicy hr hanswer
    | some p =>
      rcases ht.accepted hlegal with ⟨u, hu, rfl⟩ | hn
      · simp only [Call.lastFound, hh.resolve_inUse hu]
        exact hh.roverAt_of_reallocate hpolicy hr hu hanswer
      · rw [Heap.reallocate_of_not hn] at hanswer
        cases hanswer
        simpa only [Call.lastFound, Heap.resolve_of_not hn] using hr
  | write hanswer =>
    obtain ⟨_, h₁, hwrite, hwritten⟩ := ht.write hlegal
    rw [hanswer] at hwrite
    cases hwrite
    obtain ⟨a, rfl⟩ := Heap.exists_arena_of_writePayload hanswer
    exact hr.with_arena hh hwritten.holds
  | _ => exact hr

/-- A new heap has its rover at the prologue. -/
theorem Heap.roverAt_of_setup {memory : Memory} {config : Config} (hempty : memory.size = 0)
    (hsetup : (setup memory config).outcome = .ok (.ok h)) : h.RoverAt none := by
  have hmod : memory.size % 16 = 0 := by rw [hempty]
  obtain ⟨hchunk, hroom⟩ := room_of_setup hmod hsetup
  obtain ⟨h', hrun, -, hprologue, hrover, -⟩ := setup_of_le hmod hchunk hroom
  rw [hsetup] at hrun
  cases hrun
  exact hrover.trans hprologue.symm

private theorem RovingRun.roverAt (hr : RovingRun held h last)
    (hpolicy : h.config.policy = .nextFit) :
    h.RoverAt last := by
  induction hr with
  | start hempty hsetup => exact Heap.roverAt_of_setup hempty hsetup
  | step hbefore hlegal hrun ih =>
    obtain ⟨bs, f, ht⟩ := hbefore.legalRun.tracked
    have hsame := ((Heap.Amends.refl _).perform _ _ hrun).config_eq
    rw [hsame] at hpolicy
    exact ht.roverAt hpolicy (ih hpolicy) hlegal hrun

/-- In a state of a legal run under next fit, the blocks up to the rover and those behind it are
what the two walks of a search come past. For any need, a search finds the first free block with
room among those behind and then those up to the rover, and it changes nothing but the rover, which
goes to what was found or to the prologue. From the prologue it finds what first fit finds. And
between the searches of a run, the rover is where the block starts that has the offset that was
found last. -/
theorem LegalRun.next_fit_cyclic (hr : LegalRun held h) (hpolicy : h.config.policy = .nextFit) :
    ∃ start upto behind, h.blocks = ⟨upto ++ behind, none⟩ ∧
      h.arena.next h.rover = .ok start ∧ h.arena.blocksFrom start = ⟨behind, none⟩ ∧
      (h.blocks.takeWhile fun b => decide (b.start ≤ h.rover)) = ⟨upto, none⟩ ∧
      (h.rover = h.prologue → upto = []) ∧
      (h.rover ≠ h.prologue → ∃ b, upto.getLast? = some b ∧ b.start = h.rover) ∧
      ((behind ++ upto).map Block.start).Nodup ∧
      (∀ need, ∃ found, found = ((behind ++ upto).find? fun b => b.isFree && b.holds need) ∧
        (h.search need).outcome = .ok (found.map Block.start,
          { h with rover := (found.map Block.start).getD h.prologue }) ∧
        (h.rover = h.prologue → ((h.withPolicy .firstFit).search need).outcome =
          .ok (found.map Block.start, h.withPolicy .firstFit))) ∧
      (∃ last, RovingRun held h last) ∧ ∀ last, RovingRun held h last → h.RoverAt last := by
  obtain ⟨bs, f, ht⟩ := hr.tracked
  have hh := ht.holds
  obtain ⟨start, upto, behind, rfl, hnext, hwalk, htake, hupto, hbehind⟩ := hh.rover_walks
  have hprologue (hrover : h.rover = h.prologue) : upto = [] := hh.upto_eq_nil hrover hupto
  refine ⟨start, upto, behind, hh.blocks_eq, hnext, hwalk, htake, hprologue,
    fun hrover => hh.rover_last hrover hupto hbehind, ?_,
    fun need => ⟨_, rfl, ?_, fun hrover => ?_⟩,
    hr.exists_roving, fun last hlast => hlast.roverAt hpolicy⟩
  · exact (List.perm_append_comm.map Block.start).nodup_iff.mp hh.divided.nodup
  · have hsearch := hh.search need
    have hchoice : h.choice (upto ++ behind) f need =
        (behind ++ upto).find? fun b => b.isFree && b.holds need := by
      rw [Heap.choice, hpolicy, Policy.choose_nextFit hupto hbehind]
    rw [hchoice, Heap.searched, if_pos hpolicy] at hsearch
    exact hsearch
  · have hsearch := hh.search_withPolicy .firstFit (by decide) need
    rw [hprologue hrover, Policy.choose_firstFit] at hsearch
    rw [hprologue hrover, List.append_nil]
    exact hsearch

/-- Two requests have found 16 and then 64, and then both blocks are given back. The rover is at the
start of the one block that is left, which has the offset 64. -/
theorem LegalRun.next_fit_cyclic_of_merged : ∃ held h, LegalRun held h ∧
    h.config.policy = .nextFit ∧ RovingRun held h (some 64) ∧ h.rover = 16 ∧
    h.RoverAt (some 64) := by
  let memory : Memory := .growable ⟨ByteArray.empty, 4096, by decide, by decide⟩
  let config : Config := { chunk := 192, policy := .nextFit }
  have heval : ((Heap.setup memory config).outcome.toOption.any fun answer =>
      answer.toOption.any fun new =>
        (new.perform (.allocate 30)).outcome.toOption.any fun one =>
          (one.2.perform (.allocate 30)).outcome.toOption.any fun two =>
            (two.2.perform (.release (some 16))).outcome.toOption.any fun three =>
              (three.2.perform (.release (some 64))).outcome.toOption.any fun four =>
                ((Ledger.empty.after one.2 (.allocate 30) one.1).after two.2 (.allocate 30)
                  two.1 16).isSome &&
                (((Ledger.empty.after one.2 (.allocate 30) one.1).after two.2 (.allocate 30)
                  two.1).after three.2 (.release (some 16)) three.1 64).isSome &&
                decide ((Call.allocate 30).lastFound one.2
                  ((Call.allocate 30).lastFound new none) = some 64 ∧
                  four.2.rover = 16 ∧ four.2.config.policy = .nextFit)) = true := by
    decide +kernel
  obtain ⟨_, hsetup, hanswer⟩ := Fault.ok_of_any heval
  obtain ⟨new, rfl, hnew⟩ := Fault.ok_of_any hanswer
  obtain ⟨one, hone, hrest⟩ := Fault.ok_of_any hnew
  obtain ⟨two, htwo, hrest⟩ := Fault.ok_of_any hrest
  obtain ⟨three, hthree, hrest⟩ := Fault.ok_of_any hrest
  obtain ⟨four, hfour, hrest⟩ := Fault.ok_of_any hrest
  obtain ⟨hlive, hstate⟩ := Bool.and_eq_true_iff.mp hrest
  obtain ⟨hfirst, hsecond⟩ := Bool.and_eq_true_iff.mp hlive
  obtain ⟨hlast, hrover, hpolicy⟩ := of_decide_eq_true hstate
  have hallocated := ((RovingRun.start rfl hsetup).step (by trivial) hone).step (by trivial) htwo
  have hlegal : (Call.release (some 16)).Legal two.2 _ :=
    Or.inl (Option.isSome_iff_ne_none.mp hfirst)
  have hlegal' : (Call.release (some 64)).Legal three.2 _ :=
    Or.inl (Option.isSome_iff_ne_none.mp hsecond)
  have hroving := (hallocated.step hlegal hthree).step hlegal' hfour
  have hlast' : (Call.release (some 64)).lastFound three.2 ((Call.release (some 16)).lastFound two.2
      ((Call.allocate 30).lastFound one.2 ((Call.allocate 30).lastFound new none))) = some 64 :=
    hlast
  rw [hlast'] at hroving
  obtain ⟨-, -, -, -, -, -, -, -, -, -, -, -, hstays⟩ :=
    LegalRun.next_fit_cyclic hroving.legalRun hpolicy
  exact ⟨_, four.2, hroving.legalRun, hpolicy, hroving, hrover, hstays _ hroving⟩

end SegregatedFit
