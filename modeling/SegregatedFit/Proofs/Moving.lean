import SegregatedFit.Proofs.Operations

/-!
# Moving and writing payloads

Payloads of different blocks share no bytes, and none of them shares a byte with a tag. So a
payload can be overwritten without disturbing good order or any other payload, and a payload
that is moved arrives in its new block as far as it fits.
-/

namespace SegregatedFit.Heap

variable {h : Heap} {bs : List Block} {u v : Block} {f : Filing} {request : Nat} {a : Arena}

/-- Changes inside one payload keep good order and all other payloads. -/
theorem Holds.overwrite (hh : h.Holds bs f) (hv : v ∈ bs)
    (hedit : h.arena.Edited a v.InPayload) :
    Holds ⟨a, h.buckets, h.config, h.prologue, h.rover⟩ bs f ∧
      h.arena.Keeps a (bs.filter (· ≠ v)) := by
  refine ⟨⟨⟨hh.divided.overwrite hedit fun j hj => ⟨v, hv, hj⟩, hh.files, hh.rover_mem,
    hh.chunk_mod, hh.le_chunk, hh.chunk_lt⟩, hh.filed, hh.spaced⟩, fun c hc j hj => ?_⟩
  rw [List.mem_filter, decide_eq_true_eq] at hc
  apply hedit.read_eq j
  intro hin
  unfold Block.InPayload at hj hin
  rcases hh.divided.apart hc.1 hv with heq | hle | hle
  · exact hc.2 heq
  · omega
  · omega

/-- One block in use takes the place of another one, and its payload is the old one as far as
the request and both payloads go. -/
structure Moves (h : Heap) (bs : List Block) (h' : Heap) (bs' : List Block) (f' : Filing)
    (u v : Block) (request : Nat) : Prop where
  holds : h'.Holds bs' f'
  mem_iff : ∀ c, c ∈ Block.inUse bs' ↔ c = v ∨ c ≠ u ∧ c ∈ Block.inUse bs
  fresh : ∀ c ∈ Block.inUse bs, c.start ≠ v.start
  keeps : h.arena.Keeps h'.arena ((Block.inUse bs).filter (· ≠ u))
  copied : ∀ i, i < min (u.size - 16) request →
    h'.arena.memory.read (v.start + i) = h.arena.memory.read (u.start + i)
  alike : h.Alike h'
  unforged : h.Unforged bs → h'.Unforged bs'
  unflagged : ¬ h'.arena.Flagged u.start

/-- Copying a payload into a block with room for it. -/
theorem Holds.copy (hh : h.Holds bs f) (hu : u ∈ bs) (hv : v ∈ bs) (count : Nat)
    (hleft : count ≤ u.size - 16) (hright : count ≤ v.size - 16) :
    ∃ a, h.arena.copy u.start v.start count = .ok a ∧ h.arena.Edited a v.InPayload ∧
      (∀ i, i < count → a.memory.read (v.start + i) = h.arena.memory.read (u.start + i)) ∧
      (h.Unforged bs → a.Unforged h.first bs) := by
  have hubounds := hh.divided.bounds hu
  have hvbounds := hh.divided.bounds hv
  have husize := (hh.divided.proper hu).le_size
  have hvsize := (hh.divided.proper hv).le_size
  obtain ⟨a, hwrite, hread, hedit⟩ := Arena.write_run h.arena v.start count
    (fun i => h.arena.memory.read (u.start + i)) (by omega)
  refine ⟨a, ?_, hedit.mono fun j hj => ?_, hread, fun hunforged =>
    hunforged.copied hh.divided hu hv hleft hedit hread⟩
  · have hsource : u.start + count ≤ h.arena.size := by omega
    rw [Arena.copy, if_pos hsource]
    exact hwrite
  · unfold Block.InPayload
    omega

/-- A block takes the place of another one when it is put to use, the payload is copied, and the
other one is given back. -/
theorem Gains.moves {h₁ h' : Heap} {bs₁ bs' : List Block} {f₁ f' : Filing}
    (hg : h.Gains bs h₁ bs₁ f₁ v) (hu : u ∈ Block.inUse bs)
    (hleft : min (u.size - 16) request ≤ v.size - 16)
    (hedit : h₁.arena.Edited a v.InPayload) (hkept : h₁.arena.Keeps a (bs₁.filter (· ≠ v)))
    (hcopied : ∀ i, i < min (u.size - 16) request →
      a.memory.read (v.start + i) = h₁.arena.memory.read (u.start + i))
    (hunforged : h₁.Unforged bs₁ → a.Unforged h₁.first bs₁)
    (hl : Loses ⟨a, h₁.buckets, h₁.config, h₁.prologue, h₁.rover⟩ bs₁ h' bs' f' u) :
    h.Moves bs h' bs' f' u v request := by
  -- the new block is none of the old ones, so `u` and `v` are apart and the copy is kept
  have hvu : v ≠ u := fun heq => hg.fresh u hu (heq ▸ rfl)
  have hvkept : v ∈ Block.inUse bs' := (hl.mem_iff v).mpr ⟨hvu, (hg.mem_iff v).mpr (Or.inl rfl)⟩
  have humem := (Block.mem_inUse_iff.mp ((hg.mem_iff u).mpr (Or.inr hu))).1
  refine ⟨hl.holds, ?_, hg.fresh, ?_, ?_, ?_, fun hu => hl.unforged (hunforged (hg.unforged hu)),
    fun hflag => ?_⟩
  · intro c
    rw [hl.mem_iff, hg.mem_iff]
    constructor
    · rintro ⟨hne, hc⟩
      exact hc.imp id fun hc => ⟨hne, hc⟩
    · rintro (rfl | ⟨hne, hc⟩)
      · exact ⟨hvu, Or.inl rfl⟩
      · exact ⟨hne, Or.inr hc⟩
  · intro c hc j hj
    rw [List.mem_filter, decide_eq_true_eq] at hc
    have hc₁ : c ∈ Block.inUse bs₁ := (hg.mem_iff c).mpr (Or.inr hc.1)
    have hcv : c ≠ v := fun heq => hg.fresh c hc.1 (heq ▸ rfl)
    have hckept : c ∈ bs₁.filter (· ≠ v) := by
      rw [List.mem_filter, decide_eq_true_eq]
      exact ⟨(Block.mem_inUse_iff.mp hc₁).1, hcv⟩
    rw [hl.keeps c ((hl.mem_iff c).mpr ⟨hc.2, hc₁⟩) j hj]
    exact (hkept c hckept j hj).trans (hg.keeps c hc.1 j hj)
  · intro i hi
    have hvin : v.InPayload (v.start + i) := by
      unfold Block.InPayload
      omega
    have huin : u.InPayload (u.start + i) := by
      unfold Block.InPayload
      omega
    rw [hl.keeps v hvkept _ hvin]
    exact (hcopied i hi).trans (hg.keeps u hu _ huin)
  · have hmoved : h₁.Alike ⟨a, h₁.buckets, h₁.config, h₁.prologue, h₁.rover⟩ :=
      ⟨rfl, rfl, hedit.limit_eq⟩
    exact (hg.alike.trans hmoved).trans hl.alike
  · have hfirst := hg.holds.divided.le_first
    have hbounds := hg.holds.divided.bounds humem
    exact (hl.unflagged u.start (by omega) (hg.holds.divided.start_mod humem) hflag).2 rfl

/-- Every block in use is large enough to have a payload. -/
theorem Holds.payloadSize_inUse (hh : h.Holds bs f) (hu : u ∈ Block.inUse bs) :
    payloadSize u.size = .ok (u.size - 16) := by
  have hsize := (hh.divided.proper (Block.mem_inUse_iff.mp hu).1).le_size
  exact payloadSize_of_le (by omega)

/-- When a request is given a block, moving a block in use for it copies the payload there and
then gives the old block back. -/
theorem Holds.reallocate_of_gains {h₁ : Heap} {bs₁ : List Block} {f₁ : Filing}
    (hh : h.Holds bs f) (hu : u ∈ Block.inUse bs) (hpos : 0 < request)
    (hrun : (h.allocateBlock request).outcome = .ok (.ok v.start, h₁))
    (hg : h.Gains bs h₁ bs₁ f₁ v) (hvsize : blockSize request ≤ v.size) :
    ∃ a h' bs' f', (h.reallocate (some u.start) request).outcome =
        .ok (.ok (some v.start), h') ∧
      Holds ⟨a, h₁.buckets, h₁.config, h₁.prologue, h₁.rover⟩ bs₁ f₁ ∧
      Loses ⟨a, h₁.buckets, h₁.config, h₁.prologue, h₁.rover⟩ bs₁ h' bs' f' u ∧
      h.Moves bs h' bs' f' u v request := by
  have hresolve := hh.resolve_inUse hu
  have hroom := hh.payloadSize_inUse hu
  have hu₁ : u ∈ Block.inUse bs₁ := (hg.mem_iff u).mpr (Or.inr hu)
  have hv₁ : v ∈ Block.inUse bs₁ := (hg.mem_iff v).mpr (Or.inl rfl)
  have hvmem := (Block.mem_inUse_iff.mp hv₁).1
  have hrequest := (blockSize_spec request).1
  have hleft : min (u.size - 16) request ≤ v.size - 16 := by omega
  obtain ⟨a, hcopy, hedit, hcopied, hunforged⟩ := hg.holds.copy (Block.mem_inUse_iff.mp hu₁).1 hvmem
    (min (u.size - 16) request) (Nat.min_le_left ..) hleft
  obtain ⟨hh₂, hkept⟩ := hg.holds.overwrite hvmem hedit
  obtain ⟨h', bs', f', hrelease, hl⟩ := hh₂.releaseBlock_loses hu₁
  have haudit := h'.selfAudit_outcome .reallocate hl.holds.le_prologue
  refine ⟨a, h', bs', f', ?_, hh₂, hl, hg.moves hu hleft hedit hkept hcopied hunforged hl⟩
  simp only [Heap.reallocate, if_neg (Nat.ne_of_gt hpos), Run.outcome_bind,
    Run.outcome_liftM, Run.outcome_tell, Run.outcome_pure, hresolve, hroom, hrun, hcopy,
    hrelease, haudit, Fault.ok_bind]

/-- When a request is refused, so is moving a block in use for it. -/
theorem Holds.reallocate_of_error {h₁ : Heap} {e : HeapError} (hh : h.Holds bs f)
    (hu : u ∈ Block.inUse bs) (hpos : 0 < request)
    (hrun : (h.allocateBlock request).outcome = .ok (.error e, h₁)) :
    (h.reallocate (some u.start) request).outcome = .ok (.error e, h₁) := by
  have hresolve := hh.resolve_inUse hu
  have hroom := hh.payloadSize_inUse hu
  simp only [Heap.reallocate, if_neg (Nat.ne_of_gt hpos), Run.outcome_bind,
    Run.outcome_liftM, Run.outcome_pure, hresolve, hroom, hrun, Fault.ok_bind]

/-- Moving a block in use is refused for lack of memory, or gives a new block. -/
theorem Holds.reallocate (hh : h.Holds bs f) (hu : u ∈ Block.inUse bs) (hpos : 0 < request) :
    (∃ h' bs' f' v, (h.reallocate (some u.start) request).outcome =
        .ok (.ok (some v.start), h') ∧ h.Moves bs h' bs' f' u v request ∧
        blockSize request ≤ v.size) ∨
      ∃ e, (h.reallocate (some u.start) request).outcome = .ok (.error e, h.refused e) ∧
        ∀ x, e ≠ .invalidPointer x := by
  rcases hh.allocateBlock request with ⟨h₁, bs₁, f₁, v, hrun, hg, hvsize⟩ | ⟨e, hrun, hvalid⟩
  · obtain ⟨a, h', bs', f', hmove, -, -, hmoves⟩ := hh.reallocate_of_gains hu hpos hrun hg hvsize
    exact Or.inl ⟨h', bs', f', v, hmove, hmoves, hvsize⟩
  · exact Or.inr ⟨e, hh.reallocate_of_error hu hpos hrun, hvalid⟩

/-- Moving a payload for a request of nothing is giving its block back, with the same events. -/
theorem reallocate_zero_eq (h : Heap) (offset : Nat) :
    h.reallocate (some offset) 0 =
      (fun r => (r.1.map fun _ => none, r.2)) <$> h.release (some offset) := by
  simp only [Heap.reallocate, if_true]
  rfl

/-- Reallocating to zero bytes is releasing, and answers with no pointer. -/
theorem reallocate_zero (h : Heap) (offset : Nat) :
    (h.reallocate (some offset) 0).outcome =
      (h.release (some offset)).outcome.map fun r => (r.1.map fun _ => none, r.2) := by
  rw [reallocate_zero_eq, Run.outcome_map]
  rfl

/-- Reallocating a pointer that names no block is refused, and changes nothing. -/
theorem reallocate_of_not {offset : Nat} (hn : ¬ h.Names offset) :
    (h.reallocate (some offset) request).outcome =
      .ok (.error (.invalidPointer offset), h) := by
  by_cases hzero : request = 0
  · subst hzero
    rw [reallocate_zero, release_of_not hn]
    rfl
  · simp only [Heap.reallocate, if_neg hzero, Run.outcome_bind, Run.outcome_liftM,
      Run.outcome_pure, resolve_of_not hn, Fault.ok_bind]

end SegregatedFit.Heap
