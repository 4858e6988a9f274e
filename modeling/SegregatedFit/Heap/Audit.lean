import SegregatedFit.Heap.Basic

/-!
# Audits

An audit looks at everything that a heap relies on and lists what is broken. It first scans
the tags in address order, stopping where they lead nowhere, and then goes through the
buckets. What it finds is computed from the scan alone, so the order of the findings is
the order of the lists here.
-/

namespace SegregatedFit

/-- A block with its two tags as words. -/
structure Scanned where
  /-- The offset of the block. -/
  start : Nat
  /-- The word in front of the payload. -/
  header : Nat
  /-- The word at the end. -/
  footer : Nat
  deriving DecidableEq

namespace Scanned

/-- The header as a tag. -/
def tag (s : Scanned) : Tag := Tag.ofWord s.header

/-- The size that the header states. -/
def size (s : Scanned) : Nat := s.tag.size

/-- Whether the header says that the block is free. -/
def isFree (s : Scanned) : Bool := !s.tag.allocated

/-- What is wrong with the tags of a block by themselves. -/
def tagViolations (s : Scanned) : List Violation :=
  (if s.start % granule ≠ 0 ∨ s.size % granule ≠ 0 then [.misaligned s.start s.size] else []) ++
    (if s.header ≠ s.footer then [.tagMismatch s.start s.header s.footer] else [])

/-- What is wrong with a free block behind a given free block, if there was one. -/
def freeViolations (s : Scanned) (buckets : Buckets) (before : Option Nat) : List Violation :=
  (match before with
    | some first => [.adjacentFree first s.start]
    | none => []) ++
    (if buckets.contains s.start then [] else [.unlistedFree s.start])

end Scanned

/-- Where a scan stops. -/
inductive ScanEnd where
  /-- There is no word in front of this offset. -/
  | unreadable (start : Nat)
  /-- The tag in front of this offset has size zero. -/
  | terminal (start : Nat) (allocated : Bool)
  /-- The block at this offset is too small or does not end inside the arena. -/
  | misfit (start size : Nat)
  deriving DecidableEq

/-- What is wrong with the way a scan ends, in an arena of a given size. -/
def ScanEnd.violations (arenaSize : Nat) : ScanEnd → List Violation
  | unreadable start => [.badEpilogue (start - wordBytes)]
  | terminal start allocated =>
    if allocated = true ∧ start = arenaSize then [] else [.badEpilogue (start - wordBytes)]
  | misfit start size => [.outOfBounds start size]

/-- The blocks of a scan, and where it stopped. -/
structure Scan where
  /-- The blocks, lowest first. -/
  blocks : List Scanned
  /-- What came after them. -/
  ending : ScanEnd
  deriving DecidableEq

/-- What a scan meets at an offset. -/
inductive ScanStep where
  /-- A block that lies inside the arena. -/
  | block (s : Scanned)
  /-- The end of the scan. -/
  | stop (ending : ScanEnd)
  deriving DecidableEq

/-- Reads the tags of the block at an offset. -/
def Arena.scanStep (a : Arena) (start : Nat) : Except Fault ScanStep := do
  let headerAt ← headerOffset start
  match a.word? headerAt with
  | none => return .stop (.unreadable start)
  | some header =>
    let tag := Tag.ofWord header
    if tag.size = 0 then return .stop (.terminal start tag.allocated)
    if tag.size < minBlock ∨ a.size < start + tag.size then
      return .stop (.misfit start tag.size)
    let footer ← a.word (← Word.sub (start + tag.size) granule)
    return .block ⟨start, header, footer⟩

/-- A scan only goes on behind a block that ends inside the arena. -/
theorem Arena.scanStep_eq_block {a : Arena} {start : Nat} {s : Scanned}
    (h : a.scanStep start = .ok (.block s)) :
    s.start = start ∧ minBlock ≤ s.size ∧ start + s.size ≤ a.size := by
  obtain ⟨headerAt, -, h⟩ := Fault.bind_eq_ok_iff.mp h
  cases hword : a.word? headerAt with
  | none =>
    rw [hword] at h
    cases h
  | some header =>
    rw [hword] at h
    dsimp only at h
    split at h
    · cases h
    · split at h
      · cases h
      · next hfit =>
        obtain ⟨footerAt, -, h⟩ := Fault.bind_eq_ok_iff.mp h
        obtain ⟨footer, -, h⟩ := Fault.bind_eq_ok_iff.mp h
        cases h
        obtain ⟨hlarge, hinside⟩ := not_or.mp hfit
        exact ⟨rfl, Nat.not_lt.mp hlarge, Nat.not_lt.mp hinside⟩

/-- Reads the tags of one block after the other. -/
def Arena.scanFrom (a : Arena) (start : Nat) : Except Fault Scan :=
  match h : a.scanStep start with
  | .error fault => .error fault
  | .ok (.stop ending) => .ok ⟨[], ending⟩
  | .ok (.block s) =>
    have : 0 < s.size ∧ start + s.size ≤ a.size :=
      ⟨Nat.lt_of_lt_of_le (by decide) (scanStep_eq_block h).2.1, (scanStep_eq_block h).2.2⟩
    (a.scanFrom (start + s.size)).map fun rest => { rest with blocks := s :: rest.blocks }
termination_by a.size - start

/-- What is wrong with the blocks of a scan, behind a given free block, if there was one. -/
def blockViolations (buckets : Buckets) : Option Nat → List Scanned → List Violation
  | _, [] => []
  | before, s :: rest =>
    if s.isFree then
      s.tagViolations ++ s.freeViolations buckets before ++
        blockViolations buckets (some s.start) rest
    else s.tagViolations ++ blockViolations buckets none rest

namespace Heap

/-- What is wrong with the tags, the rover and the sums, given a scan. -/
def arenaViolations (h : Heap) (prologueAt : Nat) (scan : Scan) (accounted : Nat) :
    List Violation :=
  (if h.arena.word? prologueAt = some Tag.prologue.toWord then []
    else [.badPrologue prologueAt]) ++
    blockViolations h.buckets none scan.blocks ++
    scan.ending.violations h.arena.size ++
    (if h.rover = h.prologue ∨ h.rover ∈ scan.blocks.map Scanned.start then []
      else [.danglingRover h.rover]) ++
    (if accounted = h.arena.granted then [] else [.sizeMismatch accounted h.arena.granted])

/-- Whether an offset that is no free block carries a tag in use, or none at all. -/
def looksAllocated (h : Heap) (block : Nat) : Bool :=
  (h.arena.word? ((block + wordLimit - wordBytes) % wordLimit)).all fun w =>
    (Tag.ofWord w).allocated

/-- What is wrong with the filing of a listed block. -/
def filingViolations (h : Heap) (free : List Scanned) (c : SizeClass) (block : Nat)
    (l : Links) : List Violation :=
  match free.find? fun s => s.start == block with
  | none => if h.looksAllocated block then [.allocatedListed c.val block] else []
  | some s =>
    if l.bucket = c.val ∧ SizeClass.ofSize s.size = c then []
    else [.wrongBucket block s.size c.val]

/-- Goes through the walk of a bucket, behind a given block, if there was one. A block that
was seen before ends it, and so does one without links. Answers what is wrong and all blocks
that were seen. -/
def bucketViolations (h : Heap) (free : List Scanned) (c : SizeClass) :
    Option Nat → List Nat → List Nat → List Violation × List Nat
  | _, seen, [] => ([], seen)
  | before, seen, block :: rest =>
    if seen.contains block then ([.listedTwice block], seen)
    else
      match h.buckets.linksOf block with
      | none => ([], block :: seen)
      | some l =>
        let (later, seen) := h.bucketViolations free c (some block) (block :: seen) rest
        ((if l.next = some block ∨ l.prev = some block then [.selfLink block] else []) ++
          (if l.prev = before then [] else [.asymmetricLink block]) ++
          h.filingViolations free c block l ++ later, seen)

/-- What is wrong with the buckets. -/
def filedViolations (h : Heap) (free : List Scanned) :
    List Nat → List SizeClass → List Violation
  | _, [] => []
  | seen, c :: rest =>
    let (found, seen) := h.bucketViolations free c none seen (h.buckets.walk c).items
    found ++ h.filedViolations free seen rest

/-- What an audit tells about a scan on request. -/
def scanEvents (h : Heap) (scan : Scan) : List Event :=
  .auditBegins h.prologue h.arena.size ::
    scan.blocks.map (fun s => .auditBlock s.start s.tag (Tag.ofWord s.footer)) ++
    match scan.ending with
    | .terminal start _ => [.auditEnds start]
    | _ => []

/-- Lists all that is wrong with a heap, and tells it. A verbose audit also tells what it
reads. -/
def audit (h : Heap) (verbose : Bool) : Run (List Violation) := do
  let prologueAt ← headerOffset h.prologue
  let scan ← h.arena.scanFrom h.first
  let accounted ← scan.blocks.foldlM (fun sum s => Word.add sum s.size) overhead
  if verbose then Run.tellAll (h.scanEvents scan)
  let free := scan.blocks.filter Scanned.isFree
  let found := h.arenaViolations prologueAt scan accounted ++
    h.filedViolations free [] SizeClass.all
  Run.tellAll (found.map .violated)
  return found

/-- The audit after an operation, if the settings ask for it. -/
def selfAudit (h : Heap) (occasion : Occasion) : Run Unit := do
  if h.config.audited then
    let found ← h.audit false
    if !found.isEmpty then Run.tell (.auditFailed occasion found.length)

end Heap

end SegregatedFit
