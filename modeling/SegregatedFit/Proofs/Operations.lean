import SegregatedFit.Proofs.Allocating
import SegregatedFit.Proofs.Resolving

/-!
# Operations keep a heap in order

An operation on a heap in good order is no fault and leaves good order behind. Each of them
is described by what it does to the blocks in use: one more block, one block less, or one in
place of another. All other blocks in use stay where they are, and so do their payloads.
-/

namespace SegregatedFit

namespace Heap

variable {h h₁ h' : Heap} {bs bs₁ bs' xs ys : List Block} {b u v : Block} {f f' : Filing}
  {request need : Nat}

/-- One more block is in use, and everything that was in use before is kept. -/
structure Gains (h : Heap) (bs : List Block) (h' : Heap) (bs' : List Block) (f' : Filing)
    (u : Block) : Prop where
  holds : h'.Holds bs' f'
  mem_iff : ∀ c, c ∈ Block.inUse bs' ↔ c = u ∨ c ∈ Block.inUse bs
  fresh : ∀ c ∈ Block.inUse bs, c.start ≠ u.start
  keeps : h.arena.Keeps h'.arena (Block.inUse bs)
  alike : h.Alike h'
  unforged : h.Unforged bs → h'.Unforged bs'

/-- One block less is in use, and everything else that was in use before is kept. The arena is
as long as before, blocks are only merged, and the rover stays in the block that it is in. No
header is flagged that was not, and that of the block itself is not any more. -/
structure Loses (h : Heap) (bs : List Block) (h' : Heap) (bs' : List Block) (f' : Filing)
    (u : Block) : Prop where
  holds : h'.Holds bs' f'
  mem_iff : ∀ c, c ∈ Block.inUse bs' ↔ c ≠ u ∧ c ∈ Block.inUse bs
  keeps : h.arena.Keeps h'.arena (Block.inUse bs')
  alike : h.Alike h'
  size_eq : h'.arena.size = h.arena.size
  covered : ∀ b ∈ bs, ∃ c ∈ bs', c.Covers b
  rover_eq : h'.rover = Block.home bs' h.rover
  unforged : h.Unforged bs → h'.Unforged bs'
  unflagged : ∀ x, 8 ≤ x → x % 16 = 0 → h'.arena.Flagged x → h.arena.Flagged x ∧ x ≠ u.start

/-- Steps that only concern free blocks may come before a block is put to use. -/
theorem Gains.of_same_use (hg : h₁.Gains bs₁ h' bs' f' u)
    (huse : Block.inUse bs₁ = Block.inUse bs)
    (hkeeps : h.arena.Keeps h₁.arena (Block.inUse bs)) (halike : h.Alike h₁)
    (hunforged : h.Unforged bs → h₁.Unforged bs₁) : h.Gains bs h' bs' f' u where
  holds := hg.holds
  mem_iff := huse ▸ hg.mem_iff
  fresh := huse ▸ hg.fresh
  keeps := hkeeps.trans (huse ▸ hg.keeps)
  alike := halike.trans hg.alike
  unforged hu := hg.unforged (hunforged hu)

/-- Carving a free block puts a part of it to use. -/
theorem Carves.gains (hc : h.Carves xs b ys f need h') (hh : h.Holds (xs ++ b :: ys) f)
    (hb : b.isFree = true) (hle : 48 ≤ need) (hfit : need ≤ b.size) :
    h.Gains (xs ++ b :: ys) h' (xs ++ b.taken need :: ((b.rest? need).toList ++ ys))
      (f.carve b need) (b.taken need) := by
  have hsub (c : Block) (hc : c ∈ Block.inUse (xs ++ b :: ys)) : c ∈ xs ++ ys := by
    rw [Block.inUse_append, Block.inUse_cons_of_free hb, ← Block.inUse_append] at hc
    exact (Block.mem_inUse_iff.mp hc).1
  refine ⟨hc.holds, fun c => ?_, fun c hold => ?_, ?_, hc.alike, hc.unforged⟩
  · have hrest : Block.inUse (b.rest? need).toList = [] :=
      Block.inUse_toList fun r hr => Block.isFree_of_rest? hr
    rw [Block.inUse_append, Block.inUse_cons_of_used (Block.isFree_taken b need),
      Block.inUse_append, hrest, Block.inUse_append, Block.inUse_cons_of_free hb]
    simp only [List.nil_append, List.mem_append, List.mem_cons]
    tauto
  · apply hc.holds.divided.start_ne
    rcases List.mem_append.mp (hsub c hold) with hold | hold
    · exact List.mem_append_left _ hold
    · exact List.mem_append_right _ (List.mem_append_right _ hold)
  · have hproper := hh.divided.proper hh.divided.mem_middle
    exact (hh.divided.keeps hc.edited fun j hj => hproper.inSpan_of_onCut hle hfit hj).mono hsub

/-- Growing and then carving puts a block to use. -/
theorem Extends.gains {amount : Nat} (he : h.Extends bs f amount h₁) (hle : 48 ≤ need)
    (hfit : need ≤ (h.grown bs amount).size)
    (hc : h₁.Carves (Block.trimEnd bs) (h.grown bs amount) []
      (f.merge (besides bs []) (h.grown bs amount)) need h') :
    ∃ bs' f', h.Gains bs h' bs' f' ((h.grown bs amount).taken need) := by
  refine ⟨_, _, (hc.gains he.holds rfl hle hfit).of_same_use ?_ ?_ he.alike he.unforged⟩
  · rw [Block.inUse_append, Block.inUse_cons_of_free rfl, Block.inUse_trimEnd]
    exact List.append_nil _
  · apply he.keeps.mono
    intro c hc
    rw [← Block.inUse_trimEnd] at hc
    exact (Block.mem_inUse_iff.mp hc).1

/-- A request that is given a block puts it to use. -/
theorem Allocates.gains {x : Nat} (ha : h.Allocates bs f request (.ok x) h')
    (hh : h.Holds bs f) :
    ∃ bs' f' u, u.start = x ∧ h.Gains bs h' bs' f' u ∧ blockSize request ≤ u.size := by
  obtain ⟨-, -, hlarge⟩ := blockSize_spec request
  have hroved := hh.searched (blockSize request)
  have hkept : h.arena.Keeps h.arena (Block.inUse bs) := Arena.Keeps.refl _ _
  cases ha with
  | @chosen xs ys b _ hsplit hchoice hcarves =>
    subst hsplit
    obtain ⟨-, hfree, hfit⟩ := hh.mem_of_choice hchoice
    rw [hchoice] at hroved
    have hg := hcarves.gains hroved hfree hlarge hfit
    exact ⟨_, _, b.taken (blockSize request), rfl,
      hg.of_same_use rfl hkept (h.alike_searched _) id, Block.le_size_taken hfit⟩
  | @grown h₁ _ hchoice _ hextends hcarves =>
    have hfit := h.le_size_grownFor bs (blockSize request)
    obtain ⟨bs', f', hg⟩ := hextends.gains hlarge hfit hcarves
    exact ⟨bs', f', (h.grownFor bs (blockSize request)).taken (blockSize request), rfl,
      hg.of_same_use rfl hkept (h.alike_searched none) id, Block.le_size_taken hfit⟩

/-- A request that is refused changes nothing but the rover. -/
theorem Allocates.eq_refused {e : HeapError} (ha : h.Allocates bs f request (.error e) h') :
    h' = h.refused e ∧ ∀ x, e ≠ .invalidPointer x := by
  cases ha with
  | overflow => exact ⟨rfl, fun x hx => by cases hx⟩
  | full => exact ⟨rfl, fun x hx => by cases hx⟩

/-- A request is given a block, or is refused and nothing but the rover changes. -/
theorem Holds.allocateBlock (hh : h.Holds bs f) (request : Nat) :
    (∃ h' bs' f' u, (h.allocateBlock request).outcome = .ok (.ok u.start, h') ∧
        h.Gains bs h' bs' f' u ∧ blockSize request ≤ u.size) ∨
      ∃ e, (h.allocateBlock request).outcome = .ok (.error e, h.refused e) ∧
        ∀ x, e ≠ .invalidPointer x := by
  obtain ⟨answer, h', hrun, ha⟩ := hh.allocateBlock_outcome request
  cases answer with
  | ok x =>
    obtain ⟨bs', f', u, rfl, hg, hsize⟩ := ha.gains hh
    exact Or.inl ⟨h', bs', f', u, hrun, hg, hsize⟩
  | error e =>
    obtain ⟨rfl, hvalid⟩ := ha.eq_refused
    exact Or.inr ⟨e, hrun, hvalid⟩

/-- A request of nothing gets no block, and every other one gets one or is refused. -/
theorem Holds.allocate (hh : h.Holds bs f) (request : Nat) :
    (request = 0 ∧ (h.allocate request).outcome = .ok (.ok none, h)) ∨
      (∃ h' bs' f' u, 0 < request ∧
        (h.allocate request).outcome = .ok (.ok (some u.start), h') ∧
        h.Gains bs h' bs' f' u ∧ blockSize request ≤ u.size) ∨
      ∃ e, (h.allocate request).outcome = .ok (.error e, h.refused e) ∧
        ∀ x, e ≠ .invalidPointer x := by
  rcases Nat.eq_zero_or_pos request with rfl | hpos
  · exact Or.inl ⟨rfl, rfl⟩
  rcases hh.allocateBlock request with
    ⟨h', bs', f', u, hrun, hg, hsize⟩ | ⟨e, hrun, hvalid⟩
  · exact Or.inr (Or.inl ⟨h', bs', f', u, hpos,
      allocate_of_block hpos hrun hg.holds.le_prologue, hg, hsize⟩)
  · exact Or.inr (Or.inr ⟨e, allocate_of_block hpos hrun hh.le_prologue, hvalid⟩)

/-- Giving back a block in use takes it out of use. -/
theorem Holds.releaseBlock_loses (hh : h.Holds bs f) (hu : u ∈ Block.inUse bs) :
    ∃ h' bs' f', (h.releaseBlock u.start).outcome = .ok h' ∧ h.Loses bs h' bs' f' u := by
  obtain ⟨hmem, hused⟩ := Block.mem_inUse_iff.mp hu
  obtain ⟨xs, ys, rfl⟩ := List.append_of_mem hmem
  obtain ⟨h', hrun, hh', hedit, halike, hrover, hunforged, hunflagged⟩ := hh.releaseBlock hused
  have huse := h.inUse_joined xs u.freed ys
  refine ⟨h', _, _, hrun, hh', fun c => ?_, ?_, halike, hedit.size_eq,
    fun b => hh.covered_of_release, hrover.trans (hh.roverAfter_eq_home hh' halike), hunforged,
    hunflagged⟩
  · have hne (hc : c ∈ xs ++ ys) : c ≠ u := fun heq => hh.divided.start_ne hc (heq ▸ rfl)
    rw [huse]
    constructor
    · intro hc
      obtain ⟨hcmem, hcused⟩ := Block.mem_inUse_iff.mp hc
      exact ⟨hne hcmem, Block.mem_inUse_iff.mpr ⟨Block.mem_insert hcmem, hcused⟩⟩
    · rintro ⟨hcu, hc⟩
      rw [Block.inUse_append, Block.inUse_cons_of_used hused] at hc
      rw [Block.inUse_append]
      simp only [List.mem_append, List.mem_cons] at hc ⊢
      tauto
  · have hinside (j : Nat) (hj : u.OnTag j ∨ (h.joined xs u.freed ys).OnTag j) :
        (h.joined xs u.freed ys).InSpan j := by
      rcases hj with hj | hj
      · rw [joined_freed]
        exact joined_inSpan hh.divided ((hh.divided.proper hmem).inSpan hj)
      · exact (hh'.divided.proper hh'.divided.mem_middle).inSpan hj
    apply (hh'.divided.keeps hedit hinside).mono
    intro c hc
    rw [Block.inUse_append, Block.inUse_cons_of_free rfl, ← Block.inUse_append] at hc
    exact (Block.mem_inUse_iff.mp hc).1

/-- The test that a pointer has to pass finds the block in use that starts there. -/
theorem Holds.resolve_inUse (hh : h.Holds bs f) (hu : u ∈ Block.inUse bs) :
    h.resolve u.start = .ok (.ok u) := by
  obtain ⟨hmem, hused⟩ := Block.mem_inUse_iff.mp hu
  obtain ⟨hnames, hblock⟩ := hh.names hmem hused
  rw [hnames.resolve, hblock]

/-- Giving back a block in use answers what its release makes of the heap. -/
theorem Holds.release_of_block (hh : h.Holds bs f) (hu : u ∈ Block.inUse bs)
    (hrun : (h.releaseBlock u.start).outcome = .ok h') (hprologue : 8 ≤ h'.prologue) :
    (h.release (some u.start)).outcome = .ok (.ok (), h') := by
  have haudit := h'.selfAudit_outcome .release hprologue
  simp only [Heap.release, Run.outcome_bind, Run.outcome_liftM, hh.resolve_inUse hu, hrun, haudit,
    Fault.ok_bind, Run.outcome_pure]

/-- Giving back a block in use succeeds. -/
theorem Holds.release (hh : h.Holds bs f) (hu : u ∈ Block.inUse bs) :
    ∃ h' bs' f', (h.release (some u.start)).outcome = .ok (.ok (), h') ∧
      h.Loses bs h' bs' f' u := by
  obtain ⟨h', bs', f', hrun, hl⟩ := hh.releaseBlock_loses hu
  exact ⟨h', bs', f', hh.release_of_block hu hrun hl.holds.le_prologue, hl⟩

/-- Releasing no pointer does nothing. -/
theorem release_none (h : Heap) : (h.release none).outcome = .ok (.ok (), h) := rfl

/-- Releasing a pointer that names no block is refused, and changes nothing. -/
theorem release_of_not {offset : Nat} (hn : ¬ h.Names offset) :
    (h.release (some offset)).outcome = .ok (.error (.invalidPointer offset), h) := by
  simp only [Heap.release, Run.outcome_bind, Run.outcome_liftM, resolve_of_not hn, Fault.ok_bind,
    Run.outcome_pure]

end Heap

end SegregatedFit
