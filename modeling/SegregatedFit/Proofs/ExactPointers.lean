import SegregatedFit.Proofs.Guarantees

/-!
# Which pointers are accepted

As long as no caller writes into a payload, the test of an offset is exact: it accepts the
starts of the blocks in use and nothing else. Whatever offsets the calls are made with, a stale,
inner or misaligned one is refused with nothing changed, and the heap stays in good order. The
memory must hold zeros where it will grow.
-/

namespace SegregatedFit

/-- Memory of which nothing is granted yet, with zeros wherever it can grow. -/
structure Memory.Blank (m : Memory) : Prop where
  size_eq : m.size = 0
  read_eq : ∀ j, m.read j = 0

namespace Memory

variable {m : Memory} {limit room : Nat}

/-- A new buffer is blank. -/
theorem blank_of_ofLimit (h : ofLimit limit = .ok m) : m.Blank := by
  unfold ofLimit at h
  split at h
  · cases h
    exact ⟨rfl, fun j => Bytes.read_of_le (Nat.zero_le j)⟩
  · cases h

/-- A new region is blank. -/
theorem blank_of_reserve (h : reserve room limit = .ok m) : m.Blank := by
  unfold reserve at h
  split at h
  · cases h
    exact ⟨rfl, fun j => Bytes.read_of_le (Nat.zero_le j)⟩
  · cases h

end Memory

/-- The calls that write into a payload. -/
def Call.Writes : Call → Prop
  | .write .. => True
  | _ => False

/-- A run from a new heap in blank memory, by calls with any arguments that write no payload. -/
inductive UnwrittenRun : Heap → Prop
  /-- A heap was set up. -/
  | start {memory : Memory} {config : Config} {h : Heap} : memory.Blank →
    (Heap.setup memory config).outcome = .ok (.ok h) → UnwrittenRun h
  /-- One more call was answered. -/
  | step {h h' : Heap} {call : Call} {reply : Reply} : UnwrittenRun h → ¬ call.Writes →
    (h.perform call).outcome = .ok (reply, h') → UnwrittenRun h'

namespace Heap

/-- All operations on a payload accept an offset. Moving it may still be refused, but then for
lack of memory or because no block can be so large. -/
structure Takes (h : Heap) (x : Nat) : Prop where
  payload : ∃ bytes, h.payload x = .ok (.ok bytes)
  release : ∃ h', (h.release (some x)).outcome = .ok (.ok (), h')
  reallocate : ∀ request, ∃ answer h', (h.reallocate (some x) request).outcome = .ok (answer, h') ∧
    ∀ y, answer ≠ .error (.invalidPointer y)

/-- All operations on a payload say that an offset is invalid, and change nothing. -/
structure Rejects (h : Heap) (x : Nat) : Prop where
  payload : h.payload x = .ok (.error (.invalidPointer x))
  release : (h.release (some x)).outcome = .ok (.error (.invalidPointer x), h)
  reallocate : ∀ request,
    (h.reallocate (some x) request).outcome = .ok (.error (.invalidPointer x), h)

variable {h h' : Heap} {bs bs' : List Block} {f f' : Filing} {u v : Block} {x : Nat}

private theorem Takes.not_rejects (ht : h.Takes x) : ¬ h.Rejects x := by
  intro hr
  obtain ⟨bytes, hbytes⟩ := ht.payload
  rw [hr.payload] at hbytes
  cases hbytes

/-- An offset that names no block is rejected by every operation. -/
theorem rejects_of_not (hn : ¬ h.Names x) : h.Rejects x :=
  ⟨payload_of_not hn, release_of_not hn, fun _ => reallocate_of_not hn⟩

/-- What passes the test has a header that says that it is in use. -/
theorem Names.flagged (hn : h.Names x) : h.arena.Flagged x := by
  have hused := hn.used
  unfold Block.isFree at hused
  change (h.blockAt x).tag.allocated = true
  simpa using hused

/-- A block in use is accepted. -/
theorem Holds.takes (hh : h.Holds bs f) (hu : u ∈ Block.inUse bs) : h.Takes u.start := by
  obtain ⟨h₁, -, -, hrelease, -⟩ := hh.release hu
  refine ⟨⟨_, hh.payload hu⟩, ⟨h₁, hrelease⟩, fun request => ?_⟩
  rcases Nat.eq_zero_or_pos request with rfl | hpos
  · refine ⟨.ok none, h₁, ?_, fun y hy => by cases hy⟩
    rw [reallocate_zero, hrelease]
    rfl
  · rcases hh.reallocate hu hpos with ⟨h₂, -, -, v, hrun, -⟩ | ⟨e, hrun, hvalid⟩
    · exact ⟨_, h₂, hrun, fun y hy => by cases hy⟩
    · refine ⟨_, _, hrun, fun y hy => ?_⟩
      cases hy
      exact hvalid y rfl

/-- A heap in good order in which no header is forged. -/
structure Exact (h : Heap) (bs : List Block) (f : Filing) : Prop extends h.Holds bs f where
  prologue_eq : h.prologue = 8
  unforged : h.Unforged bs

namespace Exact

/-- Only the starts of blocks in use pass the test. -/
theorem names_iff (he : h.Exact bs f) : h.Names x ↔ ∃ u ∈ Block.inUse bs, u.start = x := by
  constructor
  · intro hn
    rcases he.unforged x hn.first_le hn.mod hn.flagged with hend | hblock
    · have hinside := hn.lt_size
      omega
    · exact hblock
  · rintro ⟨u, hu, rfl⟩
    obtain ⟨hmem, hused⟩ := Block.mem_inUse_iff.mp hu
    exact (he.names hmem hused).1

private theorem of_gains (he : h.Exact bs f) (hg : h.Gains bs h' bs' f' u) : h'.Exact bs' f' :=
  ⟨hg.holds, hg.alike.prologue_eq.trans he.prologue_eq, hg.unforged he.unforged⟩

private theorem of_loses (he : h.Exact bs f) (hl : h.Loses bs h' bs' f' u) : h'.Exact bs' f' :=
  ⟨hl.holds, hl.alike.prologue_eq.trans he.prologue_eq, hl.unforged he.unforged⟩

private theorem of_moves {request : Nat} (he : h.Exact bs f)
    (hm : h.Moves bs h' bs' f' u v request) :
    h'.Exact bs' f' :=
  ⟨hm.holds, hm.alike.prologue_eq.trans he.prologue_eq, hm.unforged he.unforged⟩

private theorem refused (he : h.Exact bs f) (e : HeapError) : (h.refused e).Exact bs f :=
  ⟨he.toHolds.refused e, he.prologue_eq, he.unforged⟩

private theorem allocate (he : h.Exact bs f) (request : Nat) :
    ∃ answer h' bs' f', (h.allocate request).outcome = .ok (answer, h') ∧ h'.Exact bs' f' := by
  rcases he.toHolds.allocate request with
    ⟨-, hrun⟩ | ⟨h', bs', f', u, -, hrun, hg, -⟩ | ⟨e, hrun, -⟩
  · exact ⟨_, _, _, _, hrun, he⟩
  · exact ⟨_, _, _, _, hrun, he.of_gains hg⟩
  · exact ⟨_, _, _, _, hrun, he.refused e⟩

private theorem release (he : h.Exact bs f) (pointer : Option Nat) :
    ∃ answer h' bs' f', (h.release pointer).outcome = .ok (answer, h') ∧ h'.Exact bs' f' := by
  cases pointer with
  | none => exact ⟨_, _, _, _, release_none h, he⟩
  | some x =>
    by_cases hn : h.Names x
    · obtain ⟨u, hu, rfl⟩ := he.names_iff.mp hn
      obtain ⟨h', bs', f', hrun, hl⟩ := he.toHolds.release hu
      exact ⟨_, _, _, _, hrun, he.of_loses hl⟩
    · exact ⟨_, _, _, _, release_of_not hn, he⟩

private theorem reallocate (he : h.Exact bs f) (pointer : Option Nat) (request : Nat) :
    ∃ answer h' bs' f', (h.reallocate pointer request).outcome = .ok (answer, h') ∧
      h'.Exact bs' f' := by
  cases pointer with
  | none => exact he.allocate request
  | some x =>
    rcases Nat.eq_zero_or_pos request with rfl | hpos
    · obtain ⟨answer, h', bs', f', hrun, he'⟩ := he.release (some x)
      refine ⟨answer.map fun _ => none, h', bs', f', ?_, he'⟩
      rw [reallocate_zero, hrun]
      rfl
    by_cases hn : h.Names x
    · obtain ⟨u, hu, rfl⟩ := he.names_iff.mp hn
      rcases he.toHolds.reallocate hu hpos with
        ⟨h', bs', f', v, hrun, hm, -⟩ | ⟨e, hrun, -⟩
      · exact ⟨_, _, _, _, hrun, he.of_moves hm⟩
      · exact ⟨_, _, _, _, hrun, he.refused e⟩
    · exact ⟨_, _, _, _, reallocate_of_not hn, he⟩

/-- A call that writes no payload has an answer, whatever its arguments, and forges no header. -/
theorem perform (he : h.Exact bs f) {call : Call} (hcall : ¬ call.Writes) :
    ∃ reply h' bs' f', (h.perform call).outcome = .ok (reply, h') ∧ h'.Exact bs' f' := by
  cases call with
  | allocate request =>
    obtain ⟨answer, h', bs', f', hrun, he'⟩ := he.allocate request
    exact ⟨.pointer answer, h', bs', f', by simp [Heap.perform, hrun], he'⟩
  | release pointer =>
    obtain ⟨answer, h', bs', f', hrun, he'⟩ := he.release pointer
    exact ⟨.done answer, h', bs', f', by simp [Heap.perform, hrun], he'⟩
  | reallocate pointer request =>
    obtain ⟨answer, h', bs', f', hrun, he'⟩ := he.reallocate pointer request
    exact ⟨.pointer answer, h', bs', f', by simp [Heap.perform, hrun], he'⟩
  | read x =>
    obtain ⟨answer, hread⟩ := h.payload_total x
    exact ⟨.bytes answer, h, bs, f, by simp [Heap.perform, hread], he⟩
  | write x position count g => exact absurd trivial hcall
  | audit verbose =>
    obtain ⟨scan, -, haudit⟩ := h.audit_eq verbose he.le_prologue
    exact ⟨.violations (h.findings scan), h, bs, f, by simp [Heap.perform, haudit], he⟩
  | totals =>
    obtain ⟨t, htotals⟩ : ∃ t, h.totals = .ok t := ⟨_, he.totals⟩
    exact ⟨.totals t, h, bs, f, by simp [Heap.perform, htotals], he⟩

end Exact

end Heap

variable {h : Heap}

/-- A run without payload writes forges no header. -/
theorem UnwrittenRun.exact (hr : UnwrittenRun h) : ∃ bs f, h.Exact bs f := by
  induction hr with
  | start hblank hsetup =>
    obtain ⟨⟨f, hh⟩, hprologue⟩ := Heap.holds_of_setup hblank.size_eq hsetup
    exact ⟨_, f, hh, hprologue, Heap.unforged_of_setup hblank.size_eq hblank.read_eq hsetup⟩
  | step _ hcall hrun ih =>
    obtain ⟨bs, f, he⟩ := ih
    obtain ⟨reply, h', bs', f', hanswer, he'⟩ := he.perform hcall
    rw [hrun] at hanswer
    cases hanswer
    exact ⟨bs', f', he'⟩

/-- In a run without payload writes an offset is accepted if and only if a block in use starts
there, and otherwise it is refused with nothing changed. The heap stays well formed and in good
order, and every call has an answer. -/
theorem UnwrittenRun.pointers_exact (hr : UnwrittenRun h) :
    ∃ bs f, h.WellFormed bs ∧ h.Holds bs f ∧
      (∀ x, h.Takes x ↔ ∃ b ∈ bs, b.isFree = false ∧ b.start = x) ∧
      (∀ x, h.Rejects x ↔ ¬ ∃ b ∈ bs, b.isFree = false ∧ b.start = x) ∧
      ∀ call : Call, ¬ call.Writes → ∃ reply h', (h.perform call).outcome = .ok (reply, h') := by
  obtain ⟨bs, f, he⟩ := hr.exact
  have htakes (x : Nat) (hx : ∃ b ∈ bs, b.isFree = false ∧ b.start = x) : h.Takes x := by
    obtain ⟨b, hb, hused, rfl⟩ := hx
    exact he.toHolds.takes (Block.mem_inUse_iff.mpr ⟨hb, hused⟩)
  have hrejects (x : Nat) (hx : ¬ ∃ b ∈ bs, b.isFree = false ∧ b.start = x) : h.Rejects x := by
    apply Heap.rejects_of_not
    intro hn
    obtain ⟨u, hu, hstart⟩ := he.names_iff.mp hn
    obtain ⟨hmem, hused⟩ := Block.mem_inUse_iff.mp hu
    exact hx ⟨u, hmem, hused, hstart⟩
  have hwell := he.toHolds.wellFormed he.prologue_eq
  refine ⟨bs, f, hwell, he.toHolds, fun x => ⟨fun ht => ?_, htakes x⟩,
    fun x => ⟨fun hr hx => (htakes x hx).not_rejects hr, hrejects x⟩, fun call hcall => ?_⟩
  · by_contra hx
    exact ht.not_rejects (hrejects x hx)
  · obtain ⟨reply, h', -, -, hrun, -⟩ := he.perform hcall
    exact ⟨reply, h', hrun⟩

/-- After a payload was moved and the block behind its old place was given back as well, both
old pointers are refused, though nothing has erased the words there. -/
theorem UnwrittenRun.pointers_exact_of_moved : ∃ h, UnwrittenRun h ∧
    h.Takes 112 ∧ h.Rejects 16 ∧ h.Rejects 64 ∧ h.Rejects 120 := by
  let memory : Memory := .growable ⟨ByteArray.empty, 4096, by decide, by decide⟩
  let config : Config := { chunk := 192 }
  have hblank : memory.Blank := Memory.blank_of_ofLimit (dif_pos (by decide))
  have heval : ((Heap.setup memory config).outcome.toOption.any fun answer =>
      answer.toOption.any fun new =>
        (new.perform (.allocate 30)).outcome.toOption.any fun lower =>
          (lower.2.perform (.allocate 30)).outcome.toOption.any fun upper =>
            (upper.2.perform (.reallocate (some 16) 60)).outcome.toOption.any fun moved =>
              (moved.2.perform (.release (some 64))).outcome.toOption.any fun released =>
                decide (released.2.blocks.items =
                  [⟨16, .free 96⟩, ⟨112, .used 96⟩])) = true := by
    decide +kernel
  obtain ⟨_, hsetup, hanswer⟩ := Fault.ok_of_any heval
  obtain ⟨new, rfl, hnew⟩ := Fault.ok_of_any hanswer
  obtain ⟨lower, hlower, hnext⟩ := Fault.ok_of_any hnew
  obtain ⟨upper, hupper, hnext⟩ := Fault.ok_of_any hnext
  obtain ⟨moved, hmoved, hnext⟩ := Fault.ok_of_any hnext
  obtain ⟨released, hreleased, hblocks⟩ := Fault.ok_of_any hnext
  have hallocates : ¬ (Call.allocate 30).Writes := id
  have hmoves : ¬ (Call.reallocate (some 16) 60).Writes := id
  have hreleases : ¬ (Call.release (some 64)).Writes := id
  have hrun : UnwrittenRun released.2 :=
    ((((UnwrittenRun.start hblank hsetup).step hallocates hlower).step hallocates hupper).step
      hmoves hmoved).step hreleases hreleased
  obtain ⟨bs, -, hwell, -, htakes, hrejects, -⟩ := UnwrittenRun.pointers_exact hrun
  have hbs : bs = [⟨16, .free 96⟩, ⟨112, .used 96⟩] := by
    rw [← of_decide_eq_true hblocks, hwell.blocks_eq]
  subst hbs
  refine ⟨released.2, hrun, (htakes 112).mpr ?_, (hrejects 16).mpr ?_, (hrejects 64).mpr ?_,
    (hrejects 120).mpr ?_⟩ <;> decide

end SegregatedFit
