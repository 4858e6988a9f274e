import SegregatedFit.Proofs.TwinArenas
import SegregatedFit.Heap.Call

/-!
# Heaps that look the same

Two heaps are twins when nothing tells them apart but the kind of their memory and whether they
audit themselves. Every operation has the same answer on both and leaves twins behind, or breaks
off with the same fault on both. An audit after an operation adds nothing to this, because it
never fails and changes nothing.
-/

namespace SegregatedFit

/-- Two heaps that differ at most in the kind of their memory and in whether they audit
themselves. Their prologue is at `p`. -/
structure Heap.Twin (past : Nat → UInt8) (p : Nat) (h g : Heap) : Prop where
  arena : h.arena.Twin past g.arena
  buckets_eq : g.buckets = h.buckets
  chunk_eq : g.config.chunk = h.config.chunk
  ceiling_eq : g.config.ceiling = h.config.ceiling
  policy_eq : g.config.policy = h.config.policy
  prologue_eq : g.prologue = h.prologue
  rover_eq : g.rover = h.rover
  prologue_at : h.prologue = p
  le_prologue : 8 ≤ h.prologue

namespace Heap.Twin

variable {past : Nat → UInt8} {p : Nat} {h g : Heap}

/-- Heaps with the same settings are twins if they are in twin arenas. -/
theorem with_arena (ht : h.Twin past p g) {a b : Arena} (hab : a.Twin past b) (s : Buckets)
    (rover : Nat) :
    Twin past p ⟨a, s, h.config, h.prologue, rover⟩ ⟨b, s, g.config, g.prologue, rover⟩ :=
  ⟨hab, rfl, ht.chunk_eq, ht.ceiling_eq, ht.policy_eq, ht.prologue_eq, rfl,
    ht.prologue_at, ht.le_prologue⟩

private theorem with_rover (ht : h.Twin past p g) {x y : Nat} (hxy : y = x) :
    Twin past p { h with rover := x } { g with rover := y } :=
  ⟨ht.arena, ht.buckets_eq, ht.chunk_eq, ht.ceiling_eq, ht.policy_eq, ht.prologue_eq, hxy,
    ht.prologue_at, ht.le_prologue⟩

/-! Searching. -/

private theorem first_eq (ht : h.Twin past p g) : g.first = h.first :=
  congrArg (· + wordBytes) ht.prologue_eq

private theorem blocks_eq (ht : h.Twin past p g) : g.blocks = h.blocks := by
  rw [blocks, blocks, ht.first_eq, ht.arena.blocksFrom_eq]

private theorem bucketBlocks_eq (ht : h.Twin past p g) (c : SizeClass) :
    g.bucketBlocks c = h.bucketBlocks c := by
  rw [bucketBlocks, bucketBlocks, ht.buckets_eq, ht.arena.block_eq]

private theorem listedBlocks_eq (ht : h.Twin past p g) : g.listedBlocks = h.listedBlocks := by
  rw [listedBlocks, listedBlocks, ht.buckets_eq, ht.arena.block_eq]

private theorem segregatedFit_eq (ht : h.Twin past p g) (need : Nat) :
    g.segregatedFit need = h.segregatedFit need := by
  unfold segregatedFit
  rw [ht.buckets_eq, ht.bucketBlocks_eq]

private theorem nextFrom_eq (ht : h.Twin past p g) (need : Nat) :
    g.nextFrom need = h.nextFrom need := by
  unfold nextFrom
  simp only [ht.arena.next_eq, ht.arena.blocksFrom_eq, ht.blocks_eq, ht.rover_eq]

private theorem nextFit (ht : h.Twin past p g) (need : Nat) :
    EndAlike (SameAnswer (Twin past p)) (h.nextFit need).outcome (g.nextFit need).outcome := by
  unfold Heap.nextFit
  simp only [Run.outcome_bind, Run.outcome_liftM, ht.nextFrom_eq]
  refine .same fun found => ?_
  cases found with
  | none => exact .reply (ht.with_rover ht.prologue_eq)
  | some block => exact .reply (ht.with_rover rfl)

private theorem search (ht : h.Twin past p g) (need : Nat) :
    EndAlike (SameAnswer (Twin past p)) (h.search need).outcome (g.search need).outcome := by
  have hanswer (x : Except Fault (Option Nat)) :
      EndAlike (SameAnswer (Twin past p)) (x >>= fun found => pure (found, h))
        (x >>= fun found => pure (found, g)) :=
    .same fun found => .reply ht
  unfold Heap.search
  rw [ht.policy_eq]
  cases h.config.policy with
  | segregated =>
    simp only [Run.outcome_bind, Run.outcome_pure, ht.segregatedFit_eq]
    exact hanswer _
  | firstFit =>
    simp only [Run.outcome_bind, Run.outcome_liftM, Run.outcome_pure, firstFit, ht.blocks_eq]
    exact hanswer _
  | bestFit =>
    simp only [Run.outcome_bind, Run.outcome_liftM, Run.outcome_pure, bestFit, ht.blocks_eq]
    exact hanswer _
  | nextFit => exact ht.nextFit need
  | explicitFirstFit =>
    simp only [Run.outcome_bind, Run.outcome_liftM, Run.outcome_pure, explicitFirstFit,
      ht.listedBlocks_eq]
    exact hanswer _
  | explicitBestFit =>
    simp only [Run.outcome_bind, Run.outcome_liftM, Run.outcome_pure, explicitBestFit,
      ht.listedBlocks_eq]
    exact hanswer _

/-! Changing blocks. -/

private theorem carve (ht : h.Twin past p g) (block size : Nat) :
    EndAlike (Twin past p) (h.carve block size).outcome (g.carve block size).outcome := by
  unfold Heap.carve
  simp only [Run.outcome_bind, Run.outcome_liftM, ht.arena.sizeOf_eq, ht.buckets_eq, ht.rover_eq]
  refine .same fun whole => .same fun erased => .same fun remainder => ?_
  split
  · simp only [Run.outcome_bind, Run.outcome_liftM]
    refine (ht.arena.stamp block _).bind fun a b hab => ?_
    rw [hab.next_eq]
    refine .same fun rest => (hab.stamp rest _).bind fun a b hab => .same fun filed => ?_
    exact .ok (ht.with_arena hab _ _)
  · simp only [Run.outcome_bind, Run.outcome_liftM]
    refine (ht.arena.stamp block _).bind fun a b hab => ?_
    exact .ok (ht.with_arena hab _ _)

private theorem fuse (ht : h.Twin past p g) (block : Nat) (beside : List Nat) (start size : Nat) :
    EndAlike (Twin past p) (h.fuse block beside start size) (g.fuse block beside start size) := by
  unfold Heap.fuse
  simp only [ht.buckets_eq, ht.rover_eq]
  exact .same fun s => (ht.arena.stamp start _).bind fun a b hab => .ok (ht.with_arena hab s _)

private theorem coalesce (ht : h.Twin past p g) (block : Nat) :
    EndAlike (SameAnswer (Twin past p)) (h.coalesce block).outcome (g.coalesce block).outcome := by
  have hfused {beside : List Nat} {start size : Nat} (e : Event) :
      EndAlike (SameAnswer (Twin past p))
        (h.fuse block beside start size >>= fun h =>
          (Run.tell e >>= fun _ => (pure (start, h) : Run _)).outcome)
        (g.fuse block beside start size >>= fun g =>
          (Run.tell e >>= fun _ => (pure (start, g) : Run _)).outcome) :=
    (ht.fuse block beside start size).bind fun h g ht => .reply ht
  unfold Heap.coalesce
  simp only [Run.outcome_bind, Run.outcome_liftM, ht.arena.freeBelow_eq, ht.arena.freeAbove_eq,
    ht.arena.sizeOf_eq]
  refine .same fun below => .same fun above => .same fun size => ?_
  cases below with
  | none =>
    cases above with
    | none => exact .reply ht
    | some above =>
      simp only [Run.outcome_bind, Run.outcome_liftM]
      exact .same fun size => hfused (.mergedAbove block above.start size)
  | some below =>
    cases above with
    | none =>
      simp only [Run.outcome_bind, Run.outcome_liftM]
      exact .same fun size => hfused (.mergedBelow block below.start size)
    | some above =>
      simp only [Run.outcome_bind, Run.outcome_liftM]
      exact .same fun both => .same fun size =>
        hfused (.mergedBoth block below.start above.start size)

private theorem file (ht : h.Twin past p g) (block : Nat) :
    EndAlike (Twin past p) (h.file block) (g.file block) := by
  unfold Heap.file
  simp only [ht.buckets_eq, ht.rover_eq, ht.arena.sizeOf_eq]
  exact .same fun size => .same fun filed => .ok (ht.with_arena ht.arena _ _)

private theorem extend (ht : h.Twin past p g) (words : Nat) :
    EndAlike (SameAnswer (Twin past p)) (h.extend words).outcome (g.extend words).outcome := by
  unfold Heap.extend
  simp only [Run.outcome_bind, Run.outcome_liftM, ht.buckets_eq, ht.rover_eq]
  refine .same fun words => .same fun size =>
    (ht.arena.grow size).answered fun answer a b hab => ?_
  cases answer with
  | error cause => exact .reply (ht.with_arena hab _ _)
  | ok block =>
    simp only [Run.outcome_bind, Run.outcome_liftM]
    refine (hab.stamp block _).bind fun a b hab => ?_
    rw [hab.next_eq]
    refine .same fun ending => (hab.stampEnd ending).bind fun a b hab => ?_
    refine ((ht.with_arena hab _ _).coalesce block).answered fun start h g ht => ?_
    exact (ht.file start).bind fun h g ht => .reply ht

/-! The operations. -/

private theorem selfAudit (ht : h.Twin past p g) (occasion : Occasion) :
    (h.selfAudit occasion).outcome = .ok () ∧ (g.selfAudit occasion).outcome = .ok () :=
  ⟨h.selfAudit_outcome occasion ht.le_prologue,
    g.selfAudit_outcome occasion (ht.prologue_eq ▸ ht.le_prologue)⟩

private theorem allocateBlock (ht : h.Twin past p g) (request : Nat) :
    EndAlike (SameAnswer (Twin past p)) (h.allocateBlock request).outcome
      (g.allocateBlock request).outcome := by
  unfold Heap.allocateBlock
  cases blockFor request with
  | error e => exact .reply ht
  | ok need =>
    simp only [Run.outcome_bind]
    refine (ht.search need).answered fun found h g ht => ?_
    cases found with
    | some block =>
      simp only [Run.outcome_bind]
      exact (ht.carve block need).bind fun h g ht => .reply ht
    | none =>
      simp only [Run.outcome_bind, ht.chunk_eq]
      refine (ht.extend _).answered fun answer h g ht => ?_
      cases answer with
      | ok block =>
        simp only [Run.outcome_bind]
        exact (ht.carve block need).bind fun h g ht => .reply ht
      | error cause => exact .reply ht

private theorem releaseBlock (ht : h.Twin past p g) (block : Nat) :
    EndAlike (Twin past p) (h.releaseBlock block).outcome (g.releaseBlock block).outcome := by
  unfold Heap.releaseBlock
  simp only [Run.outcome_bind, Run.outcome_liftM, ht.arena.sizeOf_eq, ht.buckets_eq, ht.rover_eq]
  refine .same fun size => (ht.arena.stamp block _).bind fun a b hab => ?_
  refine ((ht.with_arena hab _ _).coalesce block).answered fun start h g ht => ?_
  simp only [ht.arena.sizeOf_eq, ht.buckets_eq, ht.rover_eq]
  exact .same fun size => .same fun s => .ok (ht.with_arena ht.arena s _)

private theorem resolve_eq (ht : h.Twin past p g) (offset : Nat) :
    g.resolve offset = h.resolve offset := by
  unfold resolve
  simp only [ht.first_eq, ht.arena.size_eq, ht.arena.block_eq, ht.arena.footerOffset_eq,
    ht.arena.word_eq]

private theorem payload_eq (ht : h.Twin past p g) (offset : Nat) :
    g.payload offset = h.payload offset := by
  unfold payload
  rw [ht.resolve_eq, ht.arena.slice_eq]

private theorem writePayload (ht : h.Twin past p g) (offset position count : Nat)
    (f : Nat → UInt8) :
    EndAlike (SameAnswer (Twin past p)) (h.writePayload offset position count f)
      (g.writePayload offset position count f) := by
  unfold Heap.writePayload
  rw [ht.resolve_eq]
  refine .same fun answer => ?_
  cases answer with
  | error e => exact .reply ht
  | ok b =>
    simp only [ht.buckets_eq, ht.rover_eq]
    refine .same fun room => (ht.arena.write _ _ f).bind fun a b hab => ?_
    exact .reply (ht.with_arena hab _ _)

private theorem allocate (ht : h.Twin past p g) (request : Nat) :
    EndAlike (SameAnswer (Twin past p)) (h.allocate request).outcome
      (g.allocate request).outcome := by
  unfold Heap.allocate
  split
  · exact .reply ht
  · simp only [Run.outcome_bind]
    refine (ht.allocateBlock request).answered fun answer h g ht => ?_
    cases answer with
    | error e => exact .reply ht
    | ok block =>
      obtain ⟨hh, hg⟩ := ht.selfAudit .allocate
      simp only [Run.outcome_bind, hh, hg]
      exact .reply ht

private theorem release (ht : h.Twin past p g) (pointer : Option Nat) :
    EndAlike (SameAnswer (Twin past p)) (h.release pointer).outcome
      (g.release pointer).outcome := by
  cases pointer with
  | none => exact .reply ht
  | some offset =>
    unfold Heap.release
    simp only [Run.outcome_bind, Run.outcome_liftM, ht.resolve_eq]
    refine .same fun answer => ?_
    cases answer with
    | error e => exact .reply ht
    | ok b =>
      simp only [Run.outcome_bind]
      refine (ht.releaseBlock offset).bind fun h g ht => ?_
      obtain ⟨hh, hg⟩ := ht.selfAudit .release
      rw [hh, hg]
      exact .reply ht

private theorem reallocate (ht : h.Twin past p g) (pointer : Option Nat) (request : Nat) :
    EndAlike (SameAnswer (Twin past p)) (h.reallocate pointer request).outcome
      (g.reallocate pointer request).outcome := by
  cases pointer with
  | none => exact ht.allocate request
  | some source =>
    unfold Heap.reallocate
    dsimp only
    split
    · simp only [Run.outcome_bind]
      exact (ht.release (some source)).answered fun answer h g ht => .reply ht
    · simp only [Run.outcome_bind, Run.outcome_liftM, ht.resolve_eq]
      refine .same fun answer => ?_
      cases answer with
      | error e => exact .reply ht
      | ok b =>
        simp only [Run.outcome_bind, Run.outcome_liftM]
        refine .same fun room =>
          (ht.allocateBlock request).answered fun answer h g ht => ?_
        cases answer with
        | error e => exact .reply ht
        | ok target =>
          simp only [Run.outcome_bind, Run.outcome_liftM, ht.buckets_eq, ht.rover_eq]
          refine (ht.arena.copy source target _).bind fun a b hab => ?_
          refine ((ht.with_arena hab _ _).releaseBlock source).bind fun h g ht => ?_
          obtain ⟨hh, hg⟩ := ht.selfAudit .reallocate
          rw [hh, hg]
          exact .reply ht

/-! What is told about a heap. -/

private theorem filingViolations_eq (ht : h.Twin past p g) (free : List Scanned) (c : SizeClass)
    (block : Nat) (l : Links) :
    g.filingViolations free c block l = h.filingViolations free c block l := by
  have hlooks : g.looksAllocated = h.looksAllocated := by
    funext x
    rw [looksAllocated, looksAllocated, ht.arena.word?_eq]
  rw [filingViolations, filingViolations, hlooks]

private theorem bucketViolations_eq (ht : h.Twin past p g) (free : List Scanned) (c : SizeClass)
    (before : Option Nat) (seen items : List Nat) :
    g.bucketViolations free c before seen items = h.bucketViolations free c before seen items := by
  induction items generalizing before seen with
  | nil => rw [bucketViolations, bucketViolations]
  | cons block rest ih =>
    simp only [bucketViolations, ht.buckets_eq, ht.filingViolations_eq, ih]

private theorem filedViolations_eq (ht : h.Twin past p g) (free : List Scanned) (seen : List Nat)
    (cs : List SizeClass) : g.filedViolations free seen cs = h.filedViolations free seen cs := by
  induction cs generalizing seen with
  | nil => rw [filedViolations, filedViolations]
  | cons c rest ih => simp only [filedViolations, ht.buckets_eq, ht.bucketViolations_eq, ih]

private theorem findings_eq (ht : h.Twin past p g) (scan : Scan) :
    g.findings scan = h.findings scan := by
  simp only [findings, arenaViolations, ht.filedViolations_eq, ht.arena.word?_eq, ht.arena.size_eq,
    ht.arena.granted_eq, ht.buckets_eq, ht.prologue_eq, ht.rover_eq]

/-- What an audit finds does not depend on the kind of memory. -/
theorem audit_eq (ht : h.Twin past p g) (verbose : Bool) :
    (g.audit verbose).outcome = (h.audit verbose).outcome := by
  obtain ⟨scan, hscan, haudit⟩ := h.audit_eq verbose ht.le_prologue
  obtain ⟨scan', hscan', haudit'⟩ := g.audit_eq verbose (ht.prologue_eq ▸ ht.le_prologue)
  rw [ht.first_eq, ht.arena.scanFrom_eq, hscan] at hscan'
  cases hscan'
  rw [haudit, haudit', ht.findings_eq]

private theorem totals_eq (ht : h.Twin past p g) : g.totals = h.totals := by
  simp only [totals, ht.blocks_eq, ht.arena.size_eq]

/-- Every call has the same reply on twins and leaves twins behind, or breaks off with the same
fault on both. -/
theorem perform (ht : h.Twin past p g) (call : Call) :
    EndAlike (SameAnswer (Twin past p)) (h.perform call).outcome (g.perform call).outcome := by
  cases call with
  | allocate request =>
    simp only [Heap.perform, Run.outcome_bind]
    exact (ht.allocate request).answered fun answer h g ht => .reply ht
  | release pointer =>
    simp only [Heap.perform, Run.outcome_bind]
    exact (ht.release pointer).answered fun answer h g ht => .reply ht
  | reallocate pointer request =>
    simp only [Heap.perform, Run.outcome_bind]
    exact (ht.reallocate pointer request).answered fun answer h g ht => .reply ht
  | read offset =>
    simp only [Heap.perform, Run.outcome_bind, Run.outcome_liftM, ht.payload_eq]
    exact .same fun answer => .reply ht
  | write offset position count f =>
    simp only [Heap.perform, Run.outcome_bind, Run.outcome_liftM]
    exact (ht.writePayload offset position count f).answered fun answer h g ht => .reply ht
  | audit verbose =>
    simp only [Heap.perform, Run.outcome_bind, ht.audit_eq]
    exact .same fun found => .reply ht
  | totals =>
    simp only [Heap.perform, Run.outcome_bind, Run.outcome_liftM, ht.totals_eq]
    exact .same fun totals => .reply ht

/-- Setting up a heap in twin memories gives twins, or is refused for the same reason, whether or
not the new heap is to audit itself. -/
theorem setup {m n : Memory} (hm : m.Twin past n) (config : Config) (audited : Bool) :
    EndAlike (EndAlike fun h g => ∃ p, Twin past p h g) (Heap.setup m config).outcome
      (Heap.setup n { config with audited }).outcome := by
  unfold Heap.setup Config.withChunk
  simp only [Run.outcome_bind, Run.outcome_liftM, bind_assoc]
  refine .same fun chunk => ?_
  have hempty : (Arena.ofMemory m).Twin past (Arena.ofMemory n) := ⟨hm, rfl⟩
  refine (hempty.grow granule).answered fun answer a b hab => ?_
  cases answer with
  | error cause => exact .ok (.error _)
  | ok base =>
    simp only [Run.outcome_bind, Run.outcome_liftM]
    refine (hab.put base _).bind fun a b hab => (hab.stampEnd _).bind fun a b hab => ?_
    have hnew : Twin past (base + 8)
        ⟨a, .empty, { config with chunk }, base + wordBytes, base + wordBytes⟩
        ⟨b, .empty, { config with chunk, audited }, base + wordBytes, base + wordBytes⟩ :=
      ⟨hab, rfl, rfl, rfl, rfl, rfl, rfl, rfl, Nat.le_add_left ..⟩
    refine (hnew.extend _).answered fun answer h g ht => ?_
    cases answer with
    | error cause => exact .ok (.error _)
    | ok block =>
      obtain ⟨hh, hg⟩ := ht.selfAudit .setup
      simp only [Run.outcome_bind, hh, hg]
      exact .ok (.ok ⟨_, ht⟩)

end Heap.Twin

end SegregatedFit
