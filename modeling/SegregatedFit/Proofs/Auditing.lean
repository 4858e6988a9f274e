import SegregatedFit.Proofs.Searching
import SegregatedFit.Heap.Audit
import SegregatedFit.Heap.Totals

/-!
# Audits never fail

An audit trusts nothing. Its scan reads only words that it has checked to lie in the arena,
and goes on only behind blocks that end inside it, so an audit of any heap gives an answer,
whatever the bytes, the buckets and the rover are. Each part of the answer is empty in one case
only, which is what a clean audit can be relied on for.
-/

namespace SegregatedFit

/-- A scanned block as its header describes it. -/
def Scanned.toBlock (s : Scanned) : Block := ⟨s.start, s.tag⟩

/-- The bytes of the blocks of a scan. -/
def Scanned.totalSize (ss : List Scanned) : Nat := ss.foldr (fun s total => s.size + total) 0

/-- The sizes of scanned blocks are added from the first one on. -/
@[simp] theorem Scanned.totalSize_cons (s : Scanned) (ss : List Scanned) :
    Scanned.totalSize (s :: ss) = s.size + Scanned.totalSize ss := rfl

/-- Scanned blocks and the blocks they stand for have the same total size. -/
theorem Block.totalSize_map_toBlock (ss : List Scanned) :
    Block.totalSize (ss.map Scanned.toBlock) = Scanned.totalSize ss := by
  induction ss with
  | nil => rfl
  | cons s rest ih => exact congrArg (s.size + ·) ih

namespace Arena

variable {a : Arena} {start : Nat} {s : Scanned} {e : ScanEnd}

/-- What a scan reads at an offset: the header, and the footer where the header says it is. -/
def scannedAt (a : Arena) (start : Nat) : Scanned where
  start
  header := a.memory.wordAt (start - 8)
  footer := a.memory.wordAt (start + (Tag.ofWord (a.memory.wordAt (start - 8))).size - 16)

/-- What a scan sees at an offset has the header that is stored there. -/
theorem header_scannedAt (hlow : 8 ≤ start) (hhigh : start ≤ a.size) :
    a.header start = .ok (a.scannedAt start).tag :=
  header_of_le hlow hhigh

/-- What a scan meets at an offset behind the first word. -/
theorem scanStep_eq (a : Arena) (hstart : 8 ≤ start) :
    a.scanStep start = .ok (
      if a.size < start then .stop (.unreadable start)
      else if (a.scannedAt start).size = 0 then
        .stop (.terminal start (a.scannedAt start).tag.allocated)
      else if (a.scannedAt start).size < minBlock ∨ a.size < start + (a.scannedAt start).size then
        .stop (.misfit start (a.scannedAt start).size)
      else .block (a.scannedAt start)) := by
  have hslot := headerOffset_of_le hstart
  unfold scanStep
  rw [hslot, Fault.ok_bind]
  by_cases hread : a.size < start
  · rw [word?, if_neg (by unfold wordBytes; omega), if_pos hread]
    rfl
  · have hword : a.word? (start - 8) = some (a.scannedAt start).header :=
      if_pos (show start - 8 + 8 ≤ a.size by omega)
    rw [hword, if_neg hread]
    dsimp only
    have hsize : (Tag.ofWord (a.scannedAt start).header).size = (a.scannedAt start).size := rfl
    rw [hsize]
    by_cases hzero : (a.scannedAt start).size = 0
    · rw [if_pos hzero, if_pos hzero]
      rfl
    · rw [if_neg hzero, if_neg hzero]
      by_cases hmisfit : (a.scannedAt start).size < minBlock ∨
          a.size < start + (a.scannedAt start).size
      · rw [if_pos hmisfit, if_pos hmisfit]
        rfl
      · obtain ⟨hlarge, hinside⟩ := not_or.mp hmisfit
        have hlarge : 40 ≤ (a.scannedAt start).size := Nat.not_lt.mp hlarge
        -- the size was checked against the arena, so neither the footer nor its offset can fail
        have hstop : Word.sub (start + (a.scannedAt start).size) granule =
            .ok (start + (a.scannedAt start).size - 16) :=
          footerOffset_of_le (by omega)
        have hfooter : a.word (start + (a.scannedAt start).size - 16) =
            .ok (a.scannedAt start).footer :=
          word_of_le (by omega)
        rw [if_neg hmisfit, if_neg hmisfit]
        simp only [Fault.pure_eq_ok, Fault.ok_bind, hstop, hfooter]
        rfl

/-- A scan meets a block where one fits into the arena. -/
theorem scanStep_eq_block_iff (hstart : 8 ≤ start) :
    a.scanStep start = .ok (.block s) ↔
      s = a.scannedAt start ∧ 40 ≤ s.size ∧ start + s.size ≤ a.size := by
  constructor
  · intro hblock
    obtain ⟨-, hlarge, hinside⟩ := scanStep_eq_block hblock
    rw [a.scanStep_eq hstart] at hblock
    refine ⟨?_, hlarge, hinside⟩
    split at hblock
    · cases hblock
    · split at hblock
      · cases hblock
      · split at hblock
        · cases hblock
        · cases hblock
          rfl
  · rintro ⟨rfl, hlarge, hinside⟩
    have hfits : ¬ ((a.scannedAt start).size < minBlock ∨
        a.size < start + (a.scannedAt start).size) :=
      not_or.mpr ⟨Nat.not_lt.mpr hlarge, Nat.not_lt.mpr hinside⟩
    rw [a.scanStep_eq hstart, if_neg (by omega), if_neg (by omega), if_neg hfits]

/-- A scan comes to its end where a header of size zero can be read. -/
theorem scanStep_eq_terminal_iff (hstart : 8 ≤ start) {stop : Nat} {allocated : Bool} :
    a.scanStep start = .ok (.stop (.terminal stop allocated)) ↔
      stop = start ∧ a.header start = .ok ⟨0, allocated⟩ := by
  rw [a.scanStep_eq hstart]
  constructor
  · intro hend
    split at hend
    · cases hend
    · next hread =>
      split at hend
      · next hzero =>
        have hzero : (a.scannedAt start).tag.size = 0 := hzero
        obtain ⟨rfl, rfl⟩ := ScanEnd.terminal.inj (ScanStep.stop.inj (Except.ok.inj hend))
        rw [header_scannedAt hstart (Nat.not_lt.mp hread), ← hzero]
        exact ⟨rfl, rfl⟩
      · split at hend <;> cases hend
  · rintro ⟨rfl, hheader⟩
    have hread := (header_eq_ok_iff.mp hheader).2.1
    rw [header_scannedAt hstart hread] at hheader
    have htag := Except.ok.inj hheader
    have hzero : (a.scannedAt stop).size = 0 := congrArg Tag.size htag
    rw [if_neg (Nat.not_lt.mpr hread), if_pos hzero, htag]

/-- A scan goes on behind the block that it meets. -/
theorem scanFrom_eq (a : Arena) (start : Nat) :
    a.scanFrom start = a.scanStep start >>= fun
      | .stop e => .ok ⟨[], e⟩
      | .block s => (a.scanFrom (start + s.size)).map fun rest =>
        { rest with blocks := s :: rest.blocks } := by
  rw [scanFrom]
  split
  · next hstep => rw [hstep]; rfl
  · next hstep => rw [hstep, Fault.ok_bind]
  · next hstep => simp only [hstep, Fault.ok_bind]

/-- A scan that cannot make a step ends with no block. -/
theorem scanFrom_of_stop (h : a.scanStep start = .ok (.stop e)) :
    a.scanFrom start = .ok ⟨[], e⟩ := by
  rw [scanFrom_eq, h, Fault.ok_bind]

/-- A scan that steps over a block goes on behind it. -/
theorem scanFrom_of_block (h : a.scanStep start = .ok (.block s)) :
    a.scanFrom start =
      (a.scanFrom (start + s.size)).map fun rest => { rest with blocks := s :: rest.blocks } := by
  rw [scanFrom_eq, h, Fault.ok_bind]

/-- Every scan gives an answer. It has a property if the scans that stop at once have it, and
every block that fits into the arena hands it on from the scan behind it. -/
theorem exists_scan {P : Nat → Scan → Prop}
    (stop : ∀ start e, 8 ≤ start → a.scanStep start = .ok (.stop e) → P start ⟨[], e⟩)
    (block : ∀ start rest, 8 ≤ start → 40 ≤ (a.scannedAt start).size →
      start + (a.scannedAt start).size ≤ a.size → P (start + (a.scannedAt start).size) rest →
      P start ⟨a.scannedAt start :: rest.blocks, rest.ending⟩)
    (hstart : 8 ≤ start) : ∃ scan, a.scanFrom start = .ok scan ∧ P start scan := by
  induction hk : a.size - start using Nat.strongRecOn generalizing start with
  | ind k ih =>
    obtain ⟨step, hstep⟩ : ∃ step, a.scanStep start = .ok step := ⟨_, a.scanStep_eq hstart⟩
    cases step with
    | stop e => exact ⟨_, scanFrom_of_stop hstep, stop start e hstart hstep⟩
    | block s =>
      obtain ⟨rfl, hlarge, hinside⟩ := (scanStep_eq_block_iff hstart).mp hstep
      obtain ⟨rest, hrest, hP⟩ := ih _ (by omega)
        (show 8 ≤ start + (a.scannedAt start).size by omega) rfl
      refine ⟨⟨a.scannedAt start :: rest.blocks, rest.ending⟩, ?_, ?_⟩
      · rw [scanFrom_of_block hstep, hrest]
        rfl
      · exact block start rest hstart hlarge hinside hP

/-- The same for the scan that was made. -/
theorem scanFrom_induction {P : Nat → Scan → Prop} {scan : Scan}
    (stop : ∀ start e, 8 ≤ start → a.scanStep start = .ok (.stop e) → P start ⟨[], e⟩)
    (block : ∀ start rest, 8 ≤ start → 40 ≤ (a.scannedAt start).size →
      start + (a.scannedAt start).size ≤ a.size → P (start + (a.scannedAt start).size) rest →
      P start ⟨a.scannedAt start :: rest.blocks, rest.ending⟩)
    (hstart : 8 ≤ start) (hscan : a.scanFrom start = .ok scan) : P start scan := by
  obtain ⟨scan', hscan', hP⟩ := exists_scan stop block hstart
  rw [hscan] at hscan'
  cases hscan'
  exact hP

/-- A scan gives an answer, and its blocks lie inside the arena. -/
theorem scanFrom_total (a : Arena) (start : Nat) (hstart : 8 ≤ start) :
    ∃ scan, a.scanFrom start = .ok scan ∧ Scanned.totalSize scan.blocks ≤ a.size := by
  suffices h : ∃ scan, a.scanFrom start = .ok scan ∧
      (Scanned.totalSize scan.blocks = 0 ∨ start + Scanned.totalSize scan.blocks ≤ a.size) by
    obtain ⟨scan, hscan, htotal⟩ := h
    exact ⟨scan, hscan, by omega⟩
  apply exists_scan (P := fun start scan => Scanned.totalSize scan.blocks = 0 ∨
    start + Scanned.totalSize scan.blocks ≤ a.size) ?_ ?_ hstart
  · intro start e _ _
    exact Or.inl rfl
  · intro start rest _ _ hinside htotal
    right
    rw [Scanned.totalSize_cons]
    omega

/-- Every block of a scan can be read again. -/
theorem scanFrom_sound {scan : Scan} (hstart : 8 ≤ start) (hscan : a.scanFrom start = .ok scan) :
    ∀ s ∈ scan.blocks, a.header s.start = .ok s.tag ∧ s.start + s.size ≤ a.size := by
  refine scanFrom_induction (P := fun _ scan => ∀ s ∈ scan.blocks,
    a.header s.start = .ok s.tag ∧ s.start + s.size ≤ a.size) ?_ ?_ hstart hscan
  · intro start e _ _ s hs
    cases hs
  · intro start rest hlow _ hinside hrest
    have hheader := header_scannedAt hlow (show start ≤ a.size by omega)
    exact List.forall_mem_cons.mpr ⟨⟨hheader, hinside⟩, hrest⟩

end Arena

/-! When nothing is wrong with a scan. -/

/-- Nothing is wrong with the tags of a block exactly if it is aligned and its tags agree. -/
theorem Scanned.tagViolations_eq_nil_iff {s : Scanned} :
    s.tagViolations = [] ↔ s.start % 16 = 0 ∧ s.size % 16 = 0 ∧ s.header = s.footer := by
  unfold tagViolations
  rw [List.append_eq_nil_iff]
  simp only [granule, ite_eq_right_iff, reduceCtorEq, imp_false, not_or, not_not, and_assoc]

private theorem Scanned.freeViolations_eq_nil_iff {s : Scanned} {buckets : Buckets}
    {before : Option Nat} : s.freeViolations buckets before = [] ↔
      before = none ∧ buckets.contains s.start = true := by
  unfold freeViolations
  rw [List.append_eq_nil_iff]
  cases before <;> simp

/-- Nothing is wrong with the blocks of a scan exactly if nothing is wrong with the tags of each,
the free ones are listed and no two neighbours are free. A free block before them is noticed only
by a free block that comes first. -/
theorem blockViolations_eq_nil_iff {buckets : Buckets} {before : Option Nat} {ss : List Scanned} :
    blockViolations buckets before ss = [] ↔
      (∀ s ∈ ss, s.tagViolations = [] ∧ (s.isFree = true → buckets.contains s.start = true)) ∧
        Block.Spaced (ss.map Scanned.toBlock) ∧
        (before = none ∨ Block.ClosedAbove (ss.map Scanned.toBlock)) := by
  induction ss generalizing before with
  | nil => simp [blockViolations, Block.Spaced, Block.ClosedAbove]
  | cons s rest ih =>
    have hbeside : (∀ b ∈ (rest.map Scanned.toBlock).head?,
        s.toBlock.isFree = true → b.isFree = false) ↔
          s.isFree = false ∨ Block.ClosedAbove (rest.map Scanned.toBlock) := by
      have hsame : s.toBlock.isFree = s.isFree := rfl
      unfold Block.ClosedAbove
      cases hfree : s.isFree <;> simp [hsame, hfree]
    have hfirst : Block.ClosedAbove ((s :: rest).map Scanned.toBlock) ↔ s.isFree = false := by
      simp [Block.ClosedAbove, Scanned.toBlock, Block.isFree, Scanned.isFree]
    rw [blockViolations, List.forall_mem_cons, List.map_cons, Block.spaced_cons, hbeside,
      ← List.map_cons, hfirst]
    cases hfree : s.isFree with
    | false =>
      rw [if_neg (by decide), List.append_eq_nil_iff, ih]
      simp [and_assoc]
    | true =>
      rw [if_pos rfl, List.append_eq_nil_iff, List.append_eq_nil_iff, ih,
        Scanned.freeViolations_eq_nil_iff]
      simp only [reduceCtorEq, false_or, true_implies, or_false]
      tauto

/-- A scan ends well only at the end of the arena. -/
theorem ScanEnd.violations_eq_nil_iff {e : ScanEnd} {size : Nat} :
    e.violations size = [] ↔ e = .terminal size true := by
  cases e with
  | unreadable start => simp [violations]
  | misfit start size => simp [violations]
  | terminal start allocated => simp [violations, and_comm]

/-- The sizes of a scan are added up without overflow. -/
theorem Scanned.sum_eq (ss : List Scanned) (sum : Nat)
    (h : sum + Scanned.totalSize ss < 18446744073709551616) :
    (ss.foldlM (fun sum s => liftM (Word.add sum s.size)) sum : Run Nat).outcome =
      .ok (sum + Scanned.totalSize ss) := by
  induction ss generalizing sum with
  | nil => rfl
  | cons s rest ih =>
    rw [Scanned.totalSize_cons, ← Nat.add_assoc] at h ⊢
    have hsum : Word.add sum s.size = .ok (sum + s.size) :=
      Word.add_of_lt (by omega)
    rw [List.foldlM_cons, Run.outcome_bind, Run.outcome_liftM, hsum, Fault.ok_bind]
    exact ih _ h

namespace Heap

/-- An audit of the arena finds nothing exactly if the prologue is in place, nothing is wrong with
the blocks, the scan ends at the epilogue, the rover is at a block, and all bytes are accounted
for. -/
theorem arenaViolations_eq_nil_iff {h : Heap} {prologueAt accounted : Nat} {scan : Scan} :
    h.arenaViolations prologueAt scan accounted = [] ↔
      h.arena.word prologueAt = .ok Tag.prologue.toWord ∧
        blockViolations h.buckets none scan.blocks = [] ∧
        scan.ending = .terminal h.arena.size true ∧
        (h.rover = h.prologue ∨ h.rover ∈ scan.blocks.map Scanned.start) ∧
        accounted = h.arena.granted := by
  unfold arenaViolations
  simp only [List.append_eq_nil_iff, ScanEnd.violations_eq_nil_iff, ← Arena.word?_eq_some_iff,
    ite_eq_left_iff, reduceCtorEq, imp_false, not_not, and_assoc]

/-- What an audit finds, given the scan that it makes. -/
def findings (h : Heap) (scan : Scan) : List Violation :=
  h.arenaViolations (h.prologue - 8) scan (16 + Scanned.totalSize scan.blocks) ++
    h.filedViolations (scan.blocks.filter Scanned.isFree) [] SizeClass.all

/-- An audit scans the blocks and tells what is wrong with the heap. -/
theorem audit_eq (h : Heap) (verbose : Bool) (hprologue : 8 ≤ h.prologue) :
    ∃ scan, h.arena.scanFrom h.first = .ok scan ∧
      (h.audit verbose).outcome = .ok (h.findings scan) := by
  obtain ⟨scan, hscan, htotal⟩ := h.arena.scanFrom_total h.first
    (Nat.le_add_left 8 h.prologue)
  have hlt := h.arena.size_lt
  have hslot := headerOffset_of_le hprologue
  have hsum := Scanned.sum_eq scan.blocks overhead
    (show 16 + Scanned.totalSize scan.blocks < _ by omega)
  refine ⟨scan, hscan, ?_⟩
  cases verbose <;>
    simp [Heap.audit, hslot, hscan, hsum, findings]

/-- The audit after an operation is no fault. -/
theorem selfAudit_outcome (h : Heap) (occasion : Occasion) (hprologue : 8 ≤ h.prologue) :
    (h.selfAudit occasion).outcome = .ok () := by
  unfold selfAudit
  split
  · obtain ⟨scan, -, haudit⟩ := h.audit_eq false hprologue
    simp only [Run.outcome_bind, haudit, Fault.ok_bind]
    split <;> rfl
  · rfl

variable {h : Heap} {bs : List Block} {f : Filing}

/-- A shaped heap has room for a tag before its prologue. -/
theorem Shaped.le_prologue (hh : h.Shaped bs f) : 8 ≤ h.prologue := by
  have hfirst := hh.divided.le_first
  have hdef : h.first = h.prologue + 8 := rfl
  omega

/-- The totals of a heap in good order are those of its blocks. -/
theorem Shaped.totals (hh : h.Shaped bs f) :
    h.totals = .ok
      { heapBytes := h.arena.size
        freeBytes := Block.totalSize (bs.filter Block.isFree)
        allocatedBytes := Block.totalSize (Block.inUse bs)
        freeBlocks := (bs.filter Block.isFree).length
        allocatedBlocks := (Block.inUse bs).length } := by
  have hsize := hh.divided.size_eq
  have hlt := h.arena.size_lt
  exact totals_of_blocks hh.blocks_eq (by omega)

end Heap

end SegregatedFit
