import SegregatedFit.Proofs.Freeing

/-!
# Carving keeps a heap in order

The block that a request is given leaves the lists. When enough of it remains, the rest is a
free block of its own, pending until it is filed. Its neighbours are the part in use and,
because the whole block was free, a block in use.
-/

namespace SegregatedFit

namespace Block

/-- What is left of a free block for other requests, when `need` bytes of it are used. -/
def rest? (b : Block) (need : Nat) : Option Block :=
  if 40 ≤ b.size - need then some ⟨b.start + need, .free (b.size - need)⟩ else none

/-- The part of a free block that is used for `need` bytes: all of it, if nothing is left. -/
def taken (b : Block) (need : Nat) : Block :=
  ⟨b.start, .used (if 40 ≤ b.size - need then need else b.size)⟩

/-- What is taken of a block starts where the block does. -/
@[simp] theorem start_taken (b : Block) (need : Nat) : (b.taken need).start = b.start := rfl

/-- What is taken of a block is in use. -/
@[simp] theorem isFree_taken (b : Block) (need : Nat) : (b.taken need).isFree = false := rfl

/-- What is taken of a block is large enough for the need. -/
theorem le_size_taken {b : Block} {need : Nat} (h : need ≤ b.size) :
    need ≤ (b.taken need).size := by
  show need ≤ if 40 ≤ b.size - need then need else b.size
  split <;> omega

/-- What is left of a block is free. -/
theorem isFree_of_rest? {b r : Block} {need : Nat} (h : r ∈ b.rest? need) : r.isFree = true := by
  unfold rest? at h
  split at h
  · cases h
    rfl
  · cases h

/-- The positions that carving writes: the tags of the part in use and of what is left. -/
def OnCut (b : Block) (need j : Nat) : Prop :=
  (b.taken need).OnTag j ∨ ∃ r ∈ b.rest? need, r.OnTag j

/-- The positions of the two tags where a block is cut. -/
def OnSeam (b : Block) (need j : Nat) : Prop :=
  b.InPayload j ∧ b.start + need - 16 ≤ j ∧ j < b.start + need

/-- Carving writes the tags of the block itself and those at the cut. -/
theorem onTag_or_onSeam {b : Block} {need j : Nat} (hle : 48 ≤ need) (hfit : need ≤ b.size)
    (hj : b.OnCut need j) : b.OnTag j ∨ b.OnSeam need j := by
  unfold OnTag OnSeam InPayload
  rcases hj with hj | ⟨r, hr, hj⟩
  · unfold OnTag taken at hj
    dsimp only [size_mk, Tag.size_used] at hj
    split at hj <;> omega
  · unfold rest? at hr
    split at hr
    · cases hr
      unfold OnTag at hj
      dsimp only [size_mk, Tag.size_free] at hj
      omega
    · cases hr

/-- Carving writes inside the block. -/
theorem Proper.inSpan_of_onCut {b : Block} {need j : Nat} (h : b.Proper) (hle : 48 ≤ need)
    (hfit : need ≤ b.size) (hj : b.OnCut need j) : b.InSpan j := by
  rcases onTag_or_onSeam hle hfit hj with htag | ⟨⟨hlow, hhigh⟩, -⟩
  · exact h.inSpan htag
  · exact ⟨by omega, by omega⟩

end Block

/-- The lists after `need` bytes of a free block were put to use. -/
def Filing.carve (f : Filing) (b : Block) (need : Nat) : Filing :=
  match b.rest? need with
  | some r => (f.drop b.start).push r.start (SizeClass.ofSize r.size)
  | none => f.drop b.start

namespace Heap

variable {h : Heap} {bs xs ys : List Block} {b : Block} {f : Filing} {need : Nat}

/-- `h'` is what carving `need` bytes of the free block `b` makes of `h`: the lower part is in
use, what is left is filed, and no more than their tags was written. -/
structure Carves (h : Heap) (xs : List Block) (b : Block) (ys : List Block) (f : Filing)
    (need : Nat) (h' : Heap) : Prop where
  holds : h'.Holds (xs ++ b.taken need :: ((b.rest? need).toList ++ ys)) (f.carve b need)
  edited : h.arena.Edited h'.arena (b.OnCut need)
  alike : h.Alike h'
  rover_eq : h'.rover = h.rover
  unforged : h.Unforged (xs ++ b :: ys) →
    h'.Unforged (xs ++ b.taken need :: ((b.rest? need).toList ++ ys))

/-- Putting a part of a free block to use, with the rest filed as a free block. -/
private theorem Holds.carve_split (hh : h.Holds (xs ++ b :: ys) f) (hb : b.isFree = true)
    (hmod : need % 16 = 0) (hle : 48 ≤ need) (hfit : need ≤ b.size) (hrest : 40 ≤ b.size - need) :
    ∃ h', (h.carve b.start need).outcome = .ok h' ∧
      h'.Holds (xs ++ ⟨b.start, .used need⟩ :: ⟨b.start + need, .free (b.size - need)⟩ :: ys)
        ((f.drop b.start).push (b.start + need) (SizeClass.ofSize (b.size - need))) ∧
      h.arena.Edited h'.arena (fun j => Block.OnTag ⟨b.start, .used need⟩ j ∨
        Block.OnTag ⟨b.start + need, .free (b.size - need)⟩ j) ∧ h.Alike h' ∧ h'.rover = h.rover ∧
      (h.Unforged (xs ++ b :: ys) → h'.Unforged
        (xs ++ ⟨b.start, .used need⟩ :: ⟨b.start + need, .free (b.size - need)⟩ :: ys)) := by
  have hproper := hh.divided.proper hh.divided.mem_middle
  have hsizeMod := hproper.size_mod
  obtain ⟨t, herase, hfiles⟩ := hh.files.erase b.start
  obtain ⟨a₁, a₂, hstamp₁, hnext, hstamp₂, hedit, hdivided⟩ :=
    hh.divided.divide (t := .used need) (u := .free (b.size - need)) ⟨hmod, hle⟩
      ⟨show (b.size - need) % 16 = 0 by omega, show 48 ≤ b.size - need by omega⟩
      (show need + (b.size - need) = b.size by omega)
  simp only [Tag.size_used] at hnext hstamp₂ hedit hdivided
  -- the rest is a block that is not filed yet, behind the part in use
  have hp : Pending ⟨a₂, t, h.config, h.prologue, h.rover⟩ (xs ++ [⟨b.start, .used need⟩])
      ⟨b.start + need, .free (b.size - need)⟩ ys (f.drop b.start) := by
    refine ⟨⟨?_, hfiles, ?_, hh.chunk_mod, hh.le_chunk, hh.chunk_lt⟩, rfl, ?_,
      hh.spaced.left.insert_used List.IsChain.nil rfl, hh.spaced_behind⟩
    · rw [List.append_assoc, List.singleton_append]
      exact hdivided
    · apply hh.rover_mem.imp id
      intro hmem
      simp only [List.map_append, List.map_cons, List.mem_append, List.mem_cons] at hmem ⊢
      tauto
    · rw [List.append_assoc, List.singleton_append]
      exact (Filing.Of.used_iff rfl).mpr hh.filed_without
  have hremainder : Word.sub b.size need = .ok (b.size - need) := Word.sub_of_le hfit
  have hpush : t.push (b.start + need) (b.size - need) =
      .ok (t.withFirst (b.start + need) (b.size - need)) := hp.push
  refine ⟨Heap.filedWith ⟨a₂, t, h.config, h.prologue, h.rover⟩
    ⟨b.start + need, .free (b.size - need)⟩, ?_, ?_, hedit, ⟨rfl, rfl, hedit.limit_eq⟩, rfl, ?_⟩
  · simp only [Heap.carve, Run.outcome_bind, Run.outcome_liftM,
      hh.divided.sizeOf hh.divided.mem_middle, herase, hremainder, Fault.ok_bind]
    rw [if_pos hrest]
    simp only [Run.outcome_bind, Run.outcome_liftM, Run.outcome_pure, Run.outcome_tell,
      Fault.ok_bind, hstamp₁, hstamp₂, hnext, hpush]
    rfl
  · have hclosed : Block.ClosedBelow (xs ++ [⟨b.start, .used need⟩]) := by
      simp [Block.ClosedBelow]
    have hsettled := hp.settle hclosed (hh.spaced.beside_free hb).2
    rwa [List.append_assoc, List.singleton_append] at hsettled
  · intro hunforged
    apply Arena.Unforged.retag hunforged hdivided
    · intro j hoff _
      exact hedit.read_eq j (not_or.mpr ⟨hoff _ (by simp), hoff _ (by simp)⟩)
    · exact Or.inl hedit.size_eq.symm
    · intro c hc
      have hmem := List.mem_map_of_mem (f := Block.start) (Block.mem_inUse_iff.mp hc).1
      simp only [List.map_append, List.map_cons, List.mem_append, List.mem_cons] at hmem ⊢
      tauto

/-- Putting all of a free block to use. -/
private theorem Holds.carve_whole (hh : h.Holds (xs ++ b :: ys) f) (hfit : need ≤ b.size)
    (hrest : ¬ 40 ≤ b.size - need) :
    ∃ h', (h.carve b.start need).outcome = .ok h' ∧
      h'.Holds (xs ++ ⟨b.start, .used b.size⟩ :: ys) (f.drop b.start) ∧
      h.arena.Edited h'.arena (Block.OnTag ⟨b.start, .used b.size⟩) ∧ h.Alike h' ∧
      h'.rover = h.rover ∧
      (h.Unforged (xs ++ b :: ys) → h'.Unforged (xs ++ ⟨b.start, .used b.size⟩ :: ys)) := by
  have hproper := hh.divided.proper hh.divided.mem_middle
  have hused : Block.Proper ⟨h.first + Block.totalSize xs, .used b.size⟩ :=
    ⟨hproper.size_mod, hproper.le_size⟩
  have hsplit : h.arena.Divided h.first (xs ++ [b] ++ ys) := by simpa using hh.divided
  obtain ⟨t, herase, hfiles⟩ := hh.files.erase b.start
  obtain ⟨a, hstamp, hedit, hdivided⟩ := hsplit.restamp hused rfl
  rw [← hh.divided.start_eq] at hstamp hedit hdivided
  have hremainder : Word.sub b.size need = .ok (b.size - need) := Word.sub_of_le hfit
  refine ⟨⟨a, t, h.config, h.prologue, h.rover⟩, ?_, ⟨⟨hdivided, hfiles, ?_, hh.chunk_mod,
    hh.le_chunk, hh.chunk_lt⟩, (Filing.Of.used_iff rfl).mpr hh.filed_without,
    hh.spaced.left.insert_used hh.spaced_behind rfl⟩, hedit, ⟨rfl, rfl, hedit.limit_eq⟩, rfl, ?_⟩
  · simp only [Heap.carve, Run.outcome_bind, Run.outcome_liftM,
      hh.divided.sizeOf hh.divided.mem_middle, herase, hremainder, Fault.ok_bind]
    rw [if_neg hrest]
    simp only [Run.outcome_bind, Run.outcome_liftM, Run.outcome_pure, Run.outcome_tell,
      Fault.ok_bind, hstamp]
  · apply hh.rover_mem.imp id
    intro hmem
    simpa using hmem
  · intro hunforged
    apply Arena.Unforged.stamped hunforged hdivided hdivided.mem_middle hedit
    intro c hc
    have hmem := List.mem_map_of_mem (f := Block.start) (Block.mem_inUse_iff.mp hc).1
    simpa using hmem

/-- Carving puts the lower part of a free block to use and files what is left. -/
theorem Holds.carve (hh : h.Holds (xs ++ b :: ys) f) (hb : b.isFree = true)
    (hmod : need % 16 = 0) (hle : 48 ≤ need) (hfit : need ≤ b.size) :
    ∃ h', (h.carve b.start need).outcome = .ok h' ∧ h.Carves xs b ys f need h' := by
  by_cases hrest : 40 ≤ b.size - need
  · obtain ⟨h', hrun, hh', hedit, halike, hrover, hunforged⟩ :=
      hh.carve_split hb hmod hle hfit hrest
    have hleft : b.rest? need = some ⟨b.start + need, .free (b.size - need)⟩ := if_pos hrest
    have hpart : b.taken need = ⟨b.start, .used need⟩ := by rw [Block.taken, if_pos hrest]
    refine ⟨h', hrun, ?_, hedit.mono fun j hj => ?_, halike, hrover, ?_⟩
    · rw [Filing.carve, hpart, hleft]
      exact hh'
    · rw [Block.OnCut, hpart, hleft]
      exact hj.imp id fun hj => ⟨_, rfl, hj⟩
    · rw [hpart, hleft]
      exact hunforged
  · obtain ⟨h', hrun, hh', hedit, halike, hrover, hunforged⟩ := hh.carve_whole hfit hrest
    have hleft : b.rest? need = none := if_neg hrest
    have hwhole : b.taken need = ⟨b.start, .used b.size⟩ := by rw [Block.taken, if_neg hrest]
    refine ⟨h', hrun, ?_, hedit.mono fun j hj => ?_, halike, hrover, ?_⟩
    · rw [Filing.carve, hwhole, hleft]
      exact hh'
    · rw [Block.OnCut, hwhole]
      exact Or.inl hj
    · rw [hwhole, hleft]
      exact hunforged

end Heap

end SegregatedFit
