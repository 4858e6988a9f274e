import SegregatedFit.Proofs.HarmlessAudits

/-!
# What an audit says about the arena is exact

Most kinds of violations are about the arena: the sentinels, the tags, neighbours that are both
free, free blocks without links, the rover and the sum of the sizes. An audit of any heap at all
reports none of these kinds if and only if the arena is in order from the prologue to the last
word. The scan goes on only behind a block that fits, and stops at any size zero, but as it must
end at the last word of the arena and find no fault on the way, nothing is left unseen.
-/

namespace SegregatedFit

/-- Whether a violation is about the arena, and not about the lists of the buckets. -/
def Violation.isOfArena : Violation → Bool
  | badPrologue _ | badEpilogue _ | tagMismatch .. | misaligned .. | outOfBounds .. => true
  | adjacentFree .. | unlistedFree _ | danglingRover _ | sizeMismatch .. => true
  | allocatedListed .. | selfLink _ | asymmetricLink _ | wrongBucket .. | listedTwice _ => false

private theorem Scanned.isOfArena_tagViolations (s : Scanned) :
    ∀ v ∈ s.tagViolations, v.isOfArena = true := by
  unfold tagViolations
  rw [List.forall_mem_append]
  constructor <;> split <;> simp [Violation.isOfArena]

private theorem Scanned.isOfArena_freeViolations (s : Scanned) (buckets : Buckets)
    (before : Option Nat) : ∀ v ∈ s.freeViolations buckets before, v.isOfArena = true := by
  unfold freeViolations
  rw [List.forall_mem_append]
  constructor <;> split <;> simp [Violation.isOfArena]

private theorem isOfArena_blockViolations (buckets : Buckets) (before : Option Nat)
    (ss : List Scanned) : ∀ v ∈ blockViolations buckets before ss, v.isOfArena = true := by
  induction ss generalizing before with
  | nil => simp [blockViolations]
  | cons s rest ih =>
    rw [blockViolations]
    split
    · rw [List.forall_mem_append, List.forall_mem_append]
      exact ⟨⟨s.isOfArena_tagViolations, s.isOfArena_freeViolations buckets before⟩, ih _⟩
    · rw [List.forall_mem_append]
      exact ⟨s.isOfArena_tagViolations, ih _⟩

private theorem ScanEnd.isOfArena_violations (e : ScanEnd) (size : Nat) :
    ∀ v ∈ e.violations size, v.isOfArena = true := by
  cases e with
  | unreadable start => simp [violations, Violation.isOfArena]
  | misfit start size => simp [violations, Violation.isOfArena]
  | terminal start allocated =>
    unfold violations
    split <;> simp [Violation.isOfArena]

namespace Arena

/-- The header and the footer of a block are one word, from which its tag is read. -/
structure Tagged (a : Arena) (b : Block) : Prop where
  header : a.header b.start = .ok b.tag
  footer : a.word (b.start + b.size - 16) = a.word (b.start - 8)

/-- Blocks that lie one behind the other from `start` up to `stop`, each on a granule, of a proper
size and with its tags. -/
def Chained (a : Arena) : Nat → List Block → Nat → Prop
  | start, [], stop => start = stop
  | start, b :: rest, stop =>
    (b.start = start ∧ b.start % 16 = 0 ∧ b.Proper ∧ a.Tagged b) ∧
      a.Chained (start + b.size) rest stop

variable {a : Arena} {start stop : Nat} {bs : List Block} {allocated : Bool}

private theorem Chained.stop_eq (h : a.Chained start bs stop) :
    stop = start + Block.totalSize bs := by
  induction bs generalizing start with
  | nil => exact h.symm
  | cons b rest ih =>
    rw [Block.totalSize_cons, ih h.2, Nat.add_assoc]

/-- A scan in whose blocks nothing is wrong has met a chain of blocks, up to its end. -/
theorem chained_of_scan {scan : Scan} (hstart : 8 ≤ start) (hscan : a.scanFrom start = .ok scan)
    (hclean : ∀ s ∈ scan.blocks, s.tagViolations = [])
    (hend : scan.ending = .terminal stop allocated) :
    a.Chained start (scan.blocks.map Scanned.toBlock) stop ∧
      a.header stop = .ok ⟨0, allocated⟩ := by
  refine scanFrom_induction (P := fun start scan => (∀ s ∈ scan.blocks, s.tagViolations = []) →
    scan.ending = .terminal stop allocated →
    a.Chained start (scan.blocks.map Scanned.toBlock) stop ∧ a.header stop = .ok ⟨0, allocated⟩)
    ?_ ?_ hstart hscan hclean hend
  · intro start e hlow hstop _ hend
    subst hend
    obtain ⟨rfl, hheader⟩ := (scanStep_eq_terminal_iff hlow).mp hstop
    exact ⟨rfl, hheader⟩
  · intro start rest hlow hlarge hinside hrest hclean hend
    obtain ⟨hfirst, hbehind⟩ := List.forall_mem_cons.mp hclean
    obtain ⟨hmod, hsize, hsame⟩ := Scanned.tagViolations_eq_nil_iff.mp hfirst
    obtain ⟨hchained, hend⟩ := hrest hbehind hend
    -- a size of whole granules that is not below 40 is at least 48
    have hproper : (a.scannedAt start).toBlock.Proper :=
      ⟨hsize, show 48 ≤ (a.scannedAt start).size by omega⟩
    have hheader := header_scannedAt hlow (show start ≤ a.size by omega)
    have hfooter : a.word (start + (a.scannedAt start).size - 16) = a.word (start - 8) := by
      rw [word_of_le (by omega), word_of_le (by omega)]
      exact congrArg Except.ok hsame.symm
    exact ⟨⟨⟨rfl, hmod, hproper, hheader, hfooter⟩, hchained⟩, hend⟩

/-- A scan of a chain of blocks meets these blocks and stops behind them, and nothing is wrong
with their tags. -/
theorem Chained.scan (h : a.Chained start bs stop) (hstart : 8 ≤ start)
    (hheader : a.header stop = .ok ⟨0, allocated⟩) :
    ∃ ss, a.scanFrom start = .ok ⟨ss, .terminal stop allocated⟩ ∧
      ss.map Scanned.toBlock = bs ∧ ∀ s ∈ ss, s.tagViolations = [] := by
  induction bs generalizing start with
  | nil =>
    have hsame : start = stop := h
    subst hsame
    refine ⟨[], scanFrom_of_stop ?_, rfl, fun s hs => absurd hs List.not_mem_nil⟩
    rw [scanStep_eq_terminal_iff hstart]
    exact ⟨rfl, hheader⟩
  | cons b rest ih =>
    obtain ⟨⟨rfl, hmod, hproper, htagged⟩, hrest⟩ := h
    have hlarge := hproper.le_size
    have hstop := hrest.stop_eq
    have hinside : stop ≤ a.size := (header_eq_ok_iff.mp hheader).2.1
    -- what the scan reads at `b` is the tag of `b`, so that it steps to where the rest begins
    have htag : (a.scannedAt b.start).tag = b.tag :=
      Except.ok.inj ((header_scannedAt hstart (by omega)).symm.trans htagged.header)
    have hsize : (a.scannedAt b.start).size = b.size := congrArg Tag.size htag
    have hstep : a.scanStep b.start = .ok (.block (a.scannedAt b.start)) := by
      rw [scanStep_eq_block_iff hstart, hsize]
      exact ⟨rfl, by omega, by omega⟩
    have hclean : (a.scannedAt b.start).tagViolations = [] := by
      rw [Scanned.tagViolations_eq_nil_iff, hsize]
      refine ⟨hmod, hproper.size_mod, ?_⟩
      have hfooter := htagged.footer
      rw [word_of_le (by omega), word_of_le (by omega), ← hsize] at hfooter
      exact (Except.ok.inj hfooter).symm
    obtain ⟨ss, hscan, hblocks, hbehind⟩ := ih hrest (by omega)
    refine ⟨a.scannedAt b.start :: ss, ?_, ?_, List.forall_mem_cons.mpr ⟨hclean, hbehind⟩⟩
    · rw [scanFrom_of_block hstep, hsize, hscan]
      rfl
    · rw [List.map_cons, hblocks]
      exact congrArg (Block.mk b.start · :: rest) htag

end Arena

namespace Heap

variable {h : Heap}

/-- The arena of a heap is in order: behind the prologue lie the blocks, with no two neighbours
free and every free one listed, and behind them, at the end of the arena, a tag in use of size
zero. The rover is the prologue or a block, and the sizes add up to what was granted. -/
structure Orderly (h : Heap) (bs : List Block) : Prop where
  prologue : h.arena.word (h.prologue - 8) = .ok Tag.prologue.toWord
  chained : h.arena.Chained h.first bs h.arena.size
  spaced : Block.Spaced bs
  listed : ∀ b ∈ bs, b.isFree = true → h.buckets.contains b.start = true
  epilogue : h.arena.header h.arena.size = .ok Tag.epilogue
  rover : h.rover = h.prologue ∨ h.rover ∈ bs.map Block.start
  granted : 16 + Block.totalSize bs = h.arena.granted

/-- Nothing is wrong with the tags, the rover and the sum exactly if the arena is in order. -/
theorem arenaViolations_eq_nil_iff_orderly {scan : Scan}
    (hscan : h.arena.scanFrom h.first = .ok scan) :
    h.arenaViolations (h.prologue - 8) scan (16 + Scanned.totalSize scan.blocks) = [] ↔
      ∃ bs, h.Orderly bs := by
  have hfirst : 8 ≤ h.first := Nat.le_add_left 8 h.prologue
  have hstarts (ss : List Scanned) :
      (ss.map Scanned.toBlock).map Block.start = ss.map Scanned.start := List.map_map
  rw [arenaViolations_eq_nil_iff, blockViolations_eq_nil_iff]
  constructor
  · rintro ⟨hprologue, ⟨hblocks, hspaced, -⟩, hend, hrover, hsum⟩
    obtain ⟨hchained, hheader⟩ :=
      Arena.chained_of_scan hfirst hscan (fun s hs => (hblocks s hs).1) hend
    refine ⟨scan.blocks.map Scanned.toBlock, hprologue, hchained, hspaced, ?_, hheader, ?_, ?_⟩
    · rw [List.forall_mem_map]
      exact fun s hs => (hblocks s hs).2
    · rwa [hstarts]
    · rwa [Block.totalSize_map_toBlock]
  · rintro ⟨bs, ho⟩
    obtain ⟨ss, hscan', rfl, hclean⟩ := ho.chained.scan hfirst ho.epilogue
    rw [hscan] at hscan'
    cases hscan'
    have hlisted := List.forall_mem_map.mp ho.listed
    have hblocks := fun s hs => And.intro (hclean s hs) (hlisted s hs)
    refine ⟨ho.prologue, ⟨hblocks, ho.spaced, Or.inl rfl⟩, rfl, ?_, ?_⟩
    · rw [← hstarts]
      exact ho.rover
    · rw [← Block.totalSize_map_toBlock]
      exact ho.granted

/-- What is found in the arena is about the arena. -/
theorem isOfArena_arenaViolations (h : Heap) (prologueAt accounted : Nat) (scan : Scan) :
    ∀ v ∈ h.arenaViolations prologueAt scan accounted, v.isOfArena = true := by
  unfold arenaViolations
  simp only [List.forall_mem_append]
  refine ⟨⟨⟨⟨?_, isOfArena_blockViolations _ _ _⟩, ScanEnd.isOfArena_violations _ _⟩, ?_⟩, ?_⟩ <;>
    split <;> simp [Violation.isOfArena]

private theorem isOfArena_filingViolations (h : Heap) (free : List Scanned) (c : SizeClass)
    (block : Nat) (l : Links) : ∀ v ∈ h.filingViolations free c block l, v.isOfArena = false := by
  unfold filingViolations
  split <;> split <;> simp [Violation.isOfArena]

private theorem isOfArena_bucketViolations (h : Heap) (free : List Scanned) (c : SizeClass)
    (before : Option Nat) (seen items : List Nat) :
    ∀ v ∈ (h.bucketViolations free c before seen items).1, v.isOfArena = false := by
  induction items generalizing before seen with
  | nil => simp [bucketViolations]
  | cons block rest ih =>
    rw [bucketViolations]
    split
    · simp [Violation.isOfArena]
    split
    · simp
    · next l hlinks =>
      simp only [List.forall_mem_append]
      refine ⟨⟨⟨?_, ?_⟩, h.isOfArena_filingViolations free c block l⟩, ih _ _⟩ <;>
        split <;> simp [Violation.isOfArena]

/-- What is found in the buckets is not about the arena. -/
theorem isOfArena_filedViolations (h : Heap) (free : List Scanned) (seen : List Nat)
    (cs : List SizeClass) : ∀ v ∈ h.filedViolations free seen cs, v.isOfArena = false := by
  induction cs generalizing seen with
  | nil => simp [filedViolations]
  | cons c rest ih =>
    rw [filedViolations]
    simp only [List.forall_mem_append]
    exact ⟨h.isOfArena_bucketViolations free c none seen _, ih _⟩

/-- Whatever the bytes, the buckets and the rover of a heap are, an audit gives an answer, and it
reports nothing about the arena if and only if the arena is in order. -/
theorem Founded.audit_arena_exact (hf : h.Founded) (verbose : Bool) :
    ∃ found, (h.audit verbose).outcome = .ok found ∧
      ((∀ v ∈ found, v.isOfArena = false) ↔ ∃ bs, h.Orderly bs) := by
  obtain ⟨scan, hscan, haudit⟩ := h.audit_eq verbose hf.le_prologue
  refine ⟨h.findings scan, haudit, ?_⟩
  -- the findings are in two parts, and which part one is in can be told from its kind
  rw [← arenaViolations_eq_nil_iff_orderly hscan, findings, List.forall_mem_append]
  constructor
  · rintro ⟨hnone, -⟩
    rw [List.eq_nil_iff_forall_not_mem]
    intro v hv
    have habout := h.isOfArena_arenaViolations _ _ scan v hv
    rw [hnone v hv] at habout
    cases habout
  · intro hnil
    rw [hnil]
    exact ⟨List.forall_mem_nil _, h.isOfArena_filedViolations _ _ _⟩

/-- The links of the only block of a new heap lead in a circle. An audit reports this, and as it
reports nothing else, the arena is in order. -/
theorem audit_arena_exact_of_circle : ∃ h : Heap, h.Founded ∧
    ∃ found, (h.audit false).outcome = .ok found ∧ found ≠ [] ∧ ∃ bs, h.Orderly bs := by
  let memory : Memory := .growable ⟨ByteArray.empty, 4096, by decide, by decide⟩
  let config : Config := { chunk := 192 }
  let circle : Buckets := { Buckets.empty.withFirst 16 192 with
    links := (∅ : LinkTable).insert 16 ⟨some 16, some 16, SizeClass.ofSize 192⟩ }
  have heval : ((setup memory config).outcome.toOption.any fun answer =>
      answer.toOption.any fun new =>
        (audit { new with buckets := circle } false).outcome.toOption.any fun found =>
          !found.isEmpty && found.all fun v => !v.isOfArena) = true := by
    decide +kernel
  obtain ⟨_, hsetup, hanswer⟩ := Fault.ok_of_any heval
  obtain ⟨new, rfl, hnew⟩ := Fault.ok_of_any hanswer
  obtain ⟨found, haudit, hfound⟩ := Fault.ok_of_any hnew
  obtain ⟨hsome, hnone⟩ := (Bool.and_eq_true _ _).mp hfound
  have hf : Founded { new with buckets := circle } := ⟨memory, config, new, hsetup, rfl⟩
  obtain ⟨found', haudit', hexact⟩ := Founded.audit_arena_exact hf false
  rw [haudit] at haudit'
  cases haudit'
  refine ⟨_, hf, found, haudit, ?_, hexact.mp ?_⟩
  · rintro rfl
    cases hsome
  · intro v hv
    simpa using List.all_eq_true.mp hnone v hv

end Heap

end SegregatedFit
