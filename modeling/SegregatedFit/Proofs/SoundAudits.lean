import SegregatedFit.Proofs.Searching
import SegregatedFit.Proofs.Auditing

/-!
# Audits raise no false alarm

An audit of a heap in good order finds nothing. Its scan reads exactly the blocks, whose tags
agree and of which no two neighbours are free. Going through a bucket it meets the list, so
each block points back to the one before it, is filed under its own class, and was not seen
before.
-/

namespace SegregatedFit

/-- A block as a scan reads it when both of its tags are in place. -/
def Block.scanned (b : Block) : Scanned := ⟨b.start, b.tag.toWord, b.tag.toWord⟩

namespace Block

variable {b : Block} {bs : List Block}

/-- A block is seen by a scan where it starts. -/
@[simp] theorem start_scanned (b : Block) : b.scanned.start = b.start := rfl

private theorem Proper.tag_scanned (h : b.Proper) : b.scanned.tag = b.tag := by
  have hmod : b.tag.size % 16 = 0 := h.size_mod
  exact Tag.ofWord_toWord (show b.tag.size % 8 = 0 by omega)

private theorem Proper.size_scanned (h : b.Proper) : b.scanned.size = b.size :=
  congrArg Tag.size h.tag_scanned

private theorem Proper.isFree_scanned (h : b.Proper) : b.scanned.isFree = b.isFree :=
  congrArg (fun t : Tag => !t.allocated) h.tag_scanned

/-- What a scan reads of blocks with their tags in place describes these blocks. -/
theorem map_toBlock_scanned (hproper : ∀ b ∈ bs, b.Proper) :
    (bs.map scanned).map Scanned.toBlock = bs := by
  have hsame : ∀ b ∈ bs, (Scanned.toBlock ∘ scanned) b = id b :=
    fun b hb => congrArg (Block.mk b.start) (hproper b hb).tag_scanned
  rw [List.map_map, List.map_congr_left hsame, List.map_id]

private theorem totalSize_scanned (hproper : ∀ b ∈ bs, b.Proper) :
    Scanned.totalSize (bs.map scanned) = totalSize bs := by
  rw [← totalSize_map_toBlock, map_toBlock_scanned hproper]

/-- Nothing is wrong with the tags of a block between its marks at a granule. -/
theorem Proper.tagViolations_scanned (h : b.Proper) (hstart : b.start % 16 = 0) :
    b.scanned.tagViolations = [] := by
  rw [Scanned.tagViolations_eq_nil_iff, h.size_scanned]
  exact ⟨hstart, h.size_mod, rfl⟩

end Block

namespace Arena

variable {a : Arena} {first : Nat} {b : Block} {bs xs ys : List Block}

/-- At the start of a block a scan reads this block. -/
theorem Divided.scanStep (h : a.Divided first bs) (hb : b ∈ bs) :
    a.scanStep b.start = .ok (.block b.scanned) := by
  obtain ⟨hlow, hhigh⟩ := h.bounds hb
  have hfirst := h.le_first
  have hproper := h.proper hb
  have hlarge := hproper.le_size
  have hmarks := h.tiled.marks hb
  have hread : a.scannedAt b.start = b.scanned := by
    have hsize : (Tag.ofWord b.tag.toWord).size = b.size := hproper.size_scanned
    rw [scannedAt, hmarks.header, hsize, hmarks.footer, Block.scanned]
  rw [scanStep_eq_block_iff (by omega), hread, hproper.size_scanned]
  exact ⟨rfl, by omega, by omega⟩

/-- A scan from between two stretches of blocks reads the upper one and stops at the end. -/
theorem Divided.scanFrom (h : a.Divided first (xs ++ ys)) :
    a.scanFrom (first + Block.totalSize xs) =
      .ok ⟨ys.map Block.scanned, .terminal a.size true⟩ := by
  induction ys generalizing xs with
  | nil =>
    have hfirst := h.le_first
    have hsize := h.size_eq
    rw [List.append_nil] at hsize
    rw [← hsize]
    apply scanFrom_of_stop
    rw [scanStep_eq_terminal_iff (by omega), header_of_le (by omega) (Nat.le_refl _), h.epilogue]
    exact ⟨rfl, rfl⟩
  | cons b rest ih =>
    have hproper := h.proper h.mem_middle
    have hrest := @ih (xs ++ [b]) (by simpa using h)
    rw [Block.totalSize_append, Block.totalSize_cons, Block.totalSize_nil, Nat.add_zero,
      ← Nat.add_assoc, ← h.start_eq] at hrest
    rw [← h.start_eq, scanFrom_of_block (h.scanStep h.mem_middle), hproper.size_scanned, hrest]
    rfl

end Arena

/-- Nothing is wrong with blocks of which no two neighbours are free, when the free ones are
listed. -/
theorem blockViolations_scanned {s : Buckets} {bs : List Block}
    (hproper : ∀ b ∈ bs, b.Proper ∧ b.start % 16 = 0) (hspaced : Block.Spaced bs)
    (hlisted : ∀ b ∈ bs, b.isFree = true → s.contains b.start = true) :
    blockViolations s none (bs.map Block.scanned) = [] := by
  rw [blockViolations_eq_nil_iff, Block.map_toBlock_scanned fun b hb => (hproper b hb).1]
  refine ⟨?_, hspaced, Or.inl rfl⟩
  rw [List.forall_mem_map]
  intro b hb
  obtain ⟨hb', hstart⟩ := hproper b hb
  refine ⟨hb'.tagViolations_scanned hstart, ?_⟩
  rw [hb'.isFree_scanned]
  exact hlisted b hb

namespace Heap.Holds

variable {h : Heap} {bs : List Block} {f : Filing} {c : SizeClass} {x : Nat}

/-- The free blocks among those that a scan of a heap in good order reads. -/
theorem mem_scanned_free_iff (hh : h.Holds bs f) {s : Scanned} :
    s ∈ (bs.map Block.scanned).filter Scanned.isFree ↔
      ∃ b ∈ bs, b.isFree = true ∧ b.scanned = s := by
  rw [List.mem_filter, List.mem_map]
  constructor
  · rintro ⟨⟨b, hb, rfl⟩, hfree⟩
    rw [(hh.divided.proper hb).isFree_scanned] at hfree
    exact ⟨b, hb, hfree, rfl⟩
  · rintro ⟨b, hb, hfree, rfl⟩
    refine ⟨⟨b, hb, rfl⟩, ?_⟩
    rw [(hh.divided.proper hb).isFree_scanned]
    exact hfree

/-- Nothing is wrong with the filing of a listed block. -/
theorem filingViolations (hh : h.Holds bs f) (hx : x ∈ f c) {prev next : Option Nat} :
    h.filingViolations ((bs.map Block.scanned).filter Scanned.isFree) c x ⟨prev, next, c⟩ = [] := by
  obtain ⟨b, hb, hfree, rfl, hclass⟩ := (hh.filed c x).mp hx
  have hfind : ((bs.map Block.scanned).filter Scanned.isFree).find?
      (fun s => s.start == b.start) = some b.scanned := by
    obtain ⟨s, hfound⟩ : ∃ s, ((bs.map Block.scanned).filter Scanned.isFree).find?
        (fun s => s.start == b.start) = some s := by
      rw [← Option.isSome_iff_exists, List.find?_isSome]
      exact ⟨b.scanned, hh.mem_scanned_free_iff.mpr ⟨b, hb, hfree, rfl⟩, beq_self_eq_true _⟩
    obtain ⟨d, hd, -, rfl⟩ := hh.mem_scanned_free_iff.mp (List.mem_of_find?_eq_some hfound)
    have hstart : d.start = b.start := by simpa using List.find?_some hfound
    rw [hfound, hh.divided.tiled.eq_of_start_eq hd hb hstart]
  have hsize := (hh.divided.proper hb).size_scanned
  unfold Heap.filingViolations
  simp only [hfind, hsize, hclass, and_self, if_true]

/-- Going through the rest of a bucket, an audit finds nothing and has seen all of it. -/
theorem bucketViolations (hh : h.Holds bs f) {lower items seen : List Nat}
    (hlist : f c = lower ++ items) (hnew : ∀ x ∈ items, x ∉ seen) :
    h.bucketViolations ((bs.map Block.scanned).filter Scanned.isFree) c lower.getLast? seen items =
      ([], items.reverse ++ seen) := by
  induction items generalizing lower seen with
  | nil => rfl
  | cons x rest ih =>
    have hnodup := hh.files.nodup c
    rw [hlist, List.nodup_middle] at hnodup
    have hoff := (List.nodup_cons.mp hnodup).1
    have hx : x ∈ f c := hlist ▸ List.mem_append_right _ List.mem_cons_self
    have hlinks := hh.files.linksOf_eq hlist
    have hself : ¬ (rest.head? = some x ∨ lower.getLast? = some x) := by
      rintro (hhead | hlast)
      · exact hoff (List.mem_append_right _ (List.mem_of_head? hhead))
      · exact hoff (List.mem_append_left _ (List.mem_of_getLast? hlast))
    have hseen : seen.contains x = false := by
      simpa using hnew x List.mem_cons_self
    have hlater : ∀ y ∈ rest, y ∉ x :: seen := by
      intro y hy
      rw [List.mem_cons, not_or]
      refine ⟨fun heq => hoff (heq ▸ List.mem_append_right _ hy), ?_⟩
      exact hnew y (List.mem_cons_of_mem _ hy)
    have hrest := @ih (lower ++ [x]) (x :: seen) (by simpa using hlist) hlater
    rw [List.getLast?_concat] at hrest
    rw [Heap.bucketViolations, hseen, hlinks]
    simp only [hrest, hself, hh.filingViolations hx, if_true, if_false, List.append_nil,
      List.reverse_cons, List.append_assoc, List.singleton_append, Bool.false_eq_true]

/-- Going through buckets of which it has seen nothing yet, an audit finds nothing. -/
theorem filedViolations (hh : h.Holds bs f) {cs : List SizeClass} {seen : List Nat}
    (hcs : cs.Nodup) (hnew : ∀ c ∈ cs, ∀ x ∈ f c, x ∉ seen) :
    h.filedViolations ((bs.map Block.scanned).filter Scanned.isFree) seen cs = [] := by
  induction cs generalizing seen with
  | nil => rfl
  | cons c rest ih =>
    obtain ⟨hother, hrest⟩ := List.nodup_cons.mp hcs
    have hbucket := hh.bucketViolations (List.nil_append (f c)).symm (hnew c List.mem_cons_self)
    have hlater : ∀ d ∈ rest, ∀ x ∈ f d, x ∉ (f c).reverse ++ seen := by
      intro d hd x hx hmem
      rcases List.mem_append.mp hmem with hmem | hmem
      · exact hother (hh.files.apart hx (List.mem_reverse.mp hmem) ▸ hd)
      · exact hnew d (List.mem_cons_of_mem _ hd) x hx hmem
    rw [List.getLast?_nil] at hbucket
    rw [Heap.filedViolations, hh.files.walk_eq, hbucket]
    exact ih hrest hlater

/-- Nothing is wrong with the tags, the rover and the sums. -/
theorem arenaViolations (hh : h.Holds bs f) :
    h.arenaViolations (h.prologue - 8) ⟨bs.map Block.scanned, .terminal h.arena.size true⟩
      (16 + Scanned.totalSize (bs.map Block.scanned)) = [] := by
  have hfirst := hh.divided.le_first
  have hsize := hh.divided.size_eq
  have hgranted := hh.divided.granted_eq
  have hprologue : h.arena.word (h.prologue - 8) = .ok Tag.prologue.toWord := by
    have hslot : h.first - 16 = h.prologue - 8 := rfl
    rw [← hslot, Arena.word_of_le (by omega), hh.divided.prologue]
  have hblocks : blockViolations h.buckets none (bs.map Block.scanned) = [] := by
    apply blockViolations_scanned (fun b hb => ⟨hh.divided.proper hb, hh.divided.start_mod hb⟩)
      hh.spaced
    intro b hb hfree
    rw [Buckets.contains_eq_isSome, hh.files.linksOf_isSome_iff]
    exact ⟨_, (hh.filed _ _).mpr ⟨b, hb, hfree, rfl, rfl⟩⟩
  have hrover : h.rover = h.prologue ∨
      h.rover ∈ (bs.map Block.scanned).map Scanned.start := by
    apply hh.rover_mem.imp id
    intro hmem
    rwa [List.map_map]
  have hsum : 16 + Scanned.totalSize (bs.map Block.scanned) = h.arena.granted := by
    rw [Block.totalSize_scanned fun b hb => hh.divided.proper hb]
    omega
  exact Heap.arenaViolations_eq_nil_iff.mpr ⟨hprologue, hblocks, rfl, hrover, hsum⟩

/-- An audit of a heap in good order finds nothing. -/
theorem audit_clean (hh : h.Holds bs f) (verbose : Bool) : (h.audit verbose).outcome = .ok [] := by
  have hread := @Arena.Divided.scanFrom _ _ [] bs hh.divided
  rw [Block.totalSize_nil, Nat.add_zero] at hread
  obtain ⟨scan, hscan, haudit⟩ := h.audit_eq verbose hh.le_prologue
  rw [hread] at hscan
  cases hscan
  have hnodup : SizeClass.all.Nodup := List.nodup_finRange classCount
  have hfiled : h.filedViolations ((bs.map Block.scanned).filter Scanned.isFree) []
      SizeClass.all = [] :=
    hh.filedViolations hnodup fun c _ x _ => List.not_mem_nil
  rw [haudit, findings, hh.arenaViolations, hfiled, List.append_nil]

end Heap.Holds

end SegregatedFit
