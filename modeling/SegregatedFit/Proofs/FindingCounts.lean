import SegregatedFit.Proofs.Confinement

/-!
# How much an audit can find

A block or an entry of a list can be wrong in a few ways only. A scan meets no more blocks than
fit into the arena, and a walk through a bucket ends after as many steps as there are entries. So
the number of findings is bounded by the size of the memory, however damaged the heap is.
-/

namespace SegregatedFit

/-- A test finds at most one thing. -/
theorem length_test_le (P : Prop) [Decidable P] (v : Violation) :
    (if P then [v] else []).length ≤ 1 ∧ (if P then [] else [v]).length ≤ 1 := by
  constructor <;> split <;> simp

private theorem Scanned.length_tagViolations_le (s : Scanned) : s.tagViolations.length ≤ 2 := by
  rw [tagViolations, List.length_append]
  exact Nat.add_le_add (length_test_le _ _).1 (length_test_le _ _).1

private theorem Scanned.length_freeViolations_le (s : Scanned) (buckets : Buckets)
    (before : Option Nat) : (s.freeViolations buckets before).length ≤ 2 := by
  unfold freeViolations
  rw [List.length_append]
  refine Nat.add_le_add (Nat.le_of_lt_succ ?_) (length_test_le _ _).2
  cases before <;> simp

private theorem length_blockViolations_le (buckets : Buckets) (before : Option Nat)
    (ss : List Scanned) : (blockViolations buckets before ss).length ≤ 4 * ss.length := by
  induction ss generalizing before with
  | nil => exact Nat.zero_le _
  | cons s rest ih =>
    have htags := s.length_tagViolations_le
    have hfree := s.length_freeViolations_le buckets before
    rw [blockViolations]
    split
    · have hrest := ih (some s.start)
      simp only [List.length_append, List.length_cons]
      omega
    · have hrest := ih none
      simp only [List.length_append, List.length_cons]
      omega

private theorem ScanEnd.length_violations_le (e : ScanEnd) (size : Nat) :
    (e.violations size).length ≤ 1 := by
  cases e with
  | unreadable start => exact Nat.le_refl 1
  | misfit start size => exact Nat.le_refl 1
  | terminal start allocated => exact (length_test_le _ _).2

/-- The blocks of a scan have room in the arena. -/
theorem Arena.length_scan_le {a : Arena} {start : Nat} {scan : Scan} (hstart : 8 ≤ start)
    (hscan : a.scanFrom start = .ok scan) : 40 * scan.blocks.length ≤ a.size := by
  have hfits : 40 * scan.blocks.length ≤ a.size - start := by
    refine scanFrom_induction (P := fun start scan => 40 * scan.blocks.length ≤ a.size - start)
      ?_ ?_ hstart hscan
    · intro start e _ _
      exact Nat.zero_le _
    · intro start rest _ hlarge hinside hrest
      rw [List.length_cons]
      omega
  omega

private theorem Buckets.length_follow_le (links : LinkTable) (steps : Nat) (first : Option Nat) :
    (follow links steps first).items.length ≤ steps := by
  induction steps generalizing first with
  | zero => cases first <;> exact Nat.zero_le _
  | succ n ih =>
    cases first with
    | none => exact Nat.zero_le _
    | some block => exact Nat.succ_le_succ (ih _)

namespace Heap

variable {h : Heap} {p limit : Nat} {settings : Config}

private theorem length_filingViolations_le (h : Heap) (free : List Scanned) (c : SizeClass)
    (block : Nat) (l : Links) : (h.filingViolations free c block l).length ≤ 1 := by
  unfold filingViolations
  split <;> split <;> simp

private theorem length_bucketViolations_le (h : Heap) (free : List Scanned) (c : SizeClass)
    (before : Option Nat) (seen items : List Nat) :
    (h.bucketViolations free c before seen items).1.length ≤ 3 * items.length := by
  induction items generalizing before seen with
  | nil => exact Nat.zero_le _
  | cons block rest ih =>
    rw [bucketViolations, List.length_cons]
    split
    · exact Nat.le_add_left_of_le (show 1 ≤ 3 by decide)
    · split
      · exact Nat.zero_le _
      · next l _ =>
        have hrest := ih (some block) (block :: seen)
        have hfiling := h.length_filingViolations_le free c block l
        have hself := (length_test_le (l.next = some block ∨ l.prev = some block)
          (.selfLink block)).1
        have hback := (length_test_le (l.prev = before) (.asymmetricLink block)).2
        simp only [List.length_append]
        omega

private theorem length_filedViolations_le (h : Heap) (free : List Scanned) (seen : List Nat)
    (cs : List SizeClass) :
    (h.filedViolations free seen cs).length ≤ 3 * (h.buckets.size + 1) * cs.length := by
  induction cs generalizing seen with
  | nil => exact Nat.zero_le _
  | cons c rest ih =>
    have hwalk : (h.buckets.walk c).items.length ≤ h.buckets.size + 1 :=
      Buckets.length_follow_le _ _ _
    have hfound := h.length_bucketViolations_le free c none seen (h.buckets.walk c).items
    have hrest := ih (h.bucketViolations free c none seen (h.buckets.walk c).items).2
    rw [filedViolations, List.length_append, List.length_cons, Nat.mul_succ]
    omega

private theorem length_arenaViolations_le (h : Heap) (prologueAt accounted : Nat) (scan : Scan) :
    (h.arenaViolations prologueAt scan accounted).length ≤ 4 * scan.blocks.length + 4 := by
  have hblocks := length_blockViolations_le h.buckets none scan.blocks
  have hending := scan.ending.length_violations_le h.arena.size
  have hprologue := (length_test_le (h.arena.word? prologueAt = some Tag.prologue.toWord)
    (.badPrologue prologueAt)).2
  have hrover := (length_test_le (h.rover = h.prologue ∨ h.rover ∈ scan.blocks.map Scanned.start)
    (.danglingRover h.rover)).2
  have hsum := (length_test_le (accounted = h.arena.granted)
    (.sizeMismatch accounted h.arena.granted)).2
  unfold arenaViolations
  simp only [List.length_append]
  omega

/-- An audit of a heap that calls can lead to finds fewer things than a bound that only depends on
the limit of its memory. -/
theorem Confined.audit (hc : h.Confined settings p limit) (hp : 8 ≤ p) (verbose : Bool) :
    Yields (fun found => found.length ≤ limit + 60 * (limit + 2) + 4)
      (h.audit verbose).outcome := by
  obtain ⟨scan, hscan, haudit⟩ := h.audit_eq verbose (hc.prologue_eq ▸ hp)
  rw [haudit]
  apply Yields.ok
  have hblocks := Arena.length_scan_le (Nat.le_add_left 8 h.prologue) hscan
  have hsize : h.arena.size ≤ limit := hc.arena ▸ h.arena.memory.size_le_limit
  have harena := h.length_arenaViolations_le (h.prologue - 8)
    (16 + Scanned.totalSize scan.blocks) scan
  have hfiled := h.length_filedViolations_le (scan.blocks.filter Scanned.isFree) [] SizeClass.all
  have hentries := hc.buckets.size_le
  have hclasses : SizeClass.all.length = 20 := List.length_finRange
  rw [hclasses] at hfiled
  unfold findings
  rw [List.length_append]
  omega

end Heap

end SegregatedFit
