import SegregatedFit.Proofs.Guarantees

/-!
# Which requests are served

Whether a request is served depends on two things only: whether some free block is large enough,
and whether there is room to grow. A smaller request asks less of both. Giving a block back takes
nothing away from either, because every free block is still there or is part of a larger one.

Of growth this says less. A request that is served without growth has a free block, and so have
the smaller ones. But a request that is refused does not grow the arena either, for want of room,
and a smaller one may still have room.
-/

namespace SegregatedFit

namespace Heap

variable {h h' : Heap} {bs bs' : List Block} {f f' : Filing} {request m n : Nat} {u : Block}

/-- A request is answered without an error. -/
def Serves (h : Heap) (request : Nat) : Prop :=
  ∃ answer h', (h.allocate request).outcome = .ok (.ok answer, h')

/-- A request makes the arena longer. -/
def GrowsFor (h : Heap) (request : Nat) : Prop :=
  ∃ answer h', (h.allocate request).outcome = .ok (answer, h') ∧ h.arena.size < h'.arena.size

/-- A request after which the arena is as long as before is one without growth. -/
private theorem not_growsFor {answer : Answer (Option Nat)} {h₁ : Heap}
    (hrun : (h.allocate request).outcome = .ok (answer, h₁))
    (hsize : h₁.arena.size = h.arena.size) : ¬ h.GrowsFor request := by
  rintro ⟨_, h₂, hother, hlt⟩
  rw [hrun] at hother
  cases hother
  omega

/-- A request that is answered with an error is not served. -/
private theorem not_serves {e : HeapError} {h₁ : Heap}
    (hrun : (h.allocate request).outcome = .ok (.error e, h₁)) : ¬ h.Serves request := by
  rintro ⟨_, h₂, hother⟩
  rw [hrun] at hother
  cases hother

/-- A request is served from the free blocks, or by growing, or it is refused. -/
theorem Holds.serves_cases (hh : h.Holds bs f) (hpos : 0 < request) :
    (h.Stocked bs (blockSize request) ∧ h.Serves request ∧ ¬ h.GrowsFor request) ∨
      (¬ h.Stocked bs (blockSize request) ∧ h.growth (blockSize request) ≤ h.room ∧
        h.Serves request ∧ h.GrowsFor request) ∨
      (¬ h.Stocked bs (blockSize request) ∧ h.room < h.growth (blockSize request) ∧
        ¬ h.Serves request ∧ ¬ h.GrowsFor request) := by
  cases hchoice : h.choice bs f (blockSize request) with
  | some b =>
    obtain ⟨h₁, hrun, hsize⟩ := hh.allocate_of_choice hpos hchoice
    exact Or.inl ⟨hh.stocked_of_choice hchoice, ⟨_, h₁, hrun⟩, not_growsFor hrun hsize⟩
  | none =>
    have hnot := hh.choice_eq_none_iff.mp hchoice
    right
    rcases Nat.lt_or_ge h.room (h.growth (blockSize request)) with hroom | hroom
    · obtain ⟨e, hrun⟩ := hh.allocate_of_full hpos hchoice hroom
      exact Or.inr ⟨hnot, hroom, not_serves hrun, not_growsFor hrun rfl⟩
    · obtain ⟨h₁, hrun, hsize⟩ := hh.allocate_of_room hpos hchoice hroom
      obtain ⟨-, -, hlarge⟩ := blockSize_spec request
      have hle := h.le_growth (blockSize request)
      exact Or.inl ⟨hnot, hroom, ⟨_, h₁, hrun⟩, _, h₁, hrun, by omega⟩

/-- A request for a block is served when a free block is large enough or there is room to grow. -/
theorem Holds.serves_iff (hh : h.Holds bs f) (hpos : 0 < request) : h.Serves request ↔
    h.Stocked bs (blockSize request) ∨ h.growth (blockSize request) ≤ h.room := by
  rcases hh.serves_cases hpos with ⟨hs, hserves, -⟩ | ⟨-, hroom, hserves, -⟩ |
    ⟨hnot, hroom, hrefused, -⟩
  · exact iff_of_true hserves (Or.inl hs)
  · exact iff_of_true hserves (Or.inr hroom)
  · exact iff_of_false hrefused (not_or.mpr ⟨hnot, Nat.not_le.mpr hroom⟩)

/-- A request for a block makes the arena grow when no free block is large enough and there is
room. -/
theorem Holds.growsFor_iff (hh : h.Holds bs f) (hpos : 0 < request) : h.GrowsFor request ↔
    ¬ h.Stocked bs (blockSize request) ∧ h.growth (blockSize request) ≤ h.room := by
  rcases hh.serves_cases hpos with ⟨hs, -, hsame⟩ | ⟨hnot, hroom, -, hgrows⟩ |
    ⟨-, hroom, -, hsame⟩
  · exact iff_of_false hsame fun hboth => hboth.1 hs
  · exact iff_of_true hgrows ⟨hnot, hroom⟩
  · exact iff_of_false hsame fun hboth => Nat.not_le.mpr hroom hboth.2

/-- What is stocked for a need is stocked for a smaller one. -/
theorem Stocked.mono (hs : h.Stocked bs n) (hle : m ≤ n) : h.Stocked bs m := by
  obtain ⟨b, hb, hfree, hfit⟩ := hs
  exact ⟨b, hb, hfree, Nat.le_trans (Policy.floor_mono hle) hfit⟩

/-- A free block that lies inside of a block from after a release lies inside of a free one. -/
theorem Loses.isFree_of_covers (hl : h.Loses bs h' bs' f' u) (hh : h.Holds bs f) {b c : Block}
    (hb : b ∈ bs) (hfree : b.isFree = true) (hc : c ∈ bs') (hcover : c.Covers b) :
    c.isFree = true := by
  by_contra hused
  obtain ⟨-, hold⟩ := (hl.mem_iff c).mp (Block.mem_inUse_iff.mpr ⟨hc, Bool.eq_false_iff.mpr hused⟩)
  have hsize := (hh.divided.proper hb).le_size
  obtain ⟨hlow, hhigh⟩ := hcover
  rcases hh.divided.apart (Block.mem_inUse_iff.mp hold).1 hb with rfl | hle | hle
  · exact hused hfree
  · omega
  · omega

/-- What is stocked stays so when a block is given back. -/
theorem Loses.stocked (hl : h.Loses bs h' bs' f' u) (hh : h.Holds bs f)
    (hs : h.Stocked bs n) : h'.Stocked bs' n := by
  obtain ⟨b, hb, hfree, hfit⟩ := hs
  obtain ⟨c, hc, hcover⟩ := hl.covered b hb
  obtain ⟨hlow, hhigh⟩ := hcover
  refine ⟨c, hc, hl.isFree_of_covers hh hb hfree hc ⟨hlow, hhigh⟩, ?_⟩
  rw [hl.alike.config_eq]
  omega

/-- The room to grow stays as it is when a block is given back. -/
theorem Loses.room_eq (hl : h.Loses bs h' bs' f' u) : h'.room = h.room := by
  have hsize : h'.arena.memory.size = h.arena.memory.size := hl.size_eq
  rw [room, room, hsize, hl.alike.limit_eq]

private theorem Loses.growth_eq (hl : h.Loses bs h' bs' f' u) (n : Nat) :
    h'.growth n = h.growth n := by
  rw [growth, growth, hl.alike.config_eq]

end Heap

/-- In a state of a legal run, when a request is served then so is every smaller one, and without
growth if the larger one needs none. When a block is given back, every request that was served
before is served after it, and no request makes the arena grow that did not do so before. -/
theorem LegalRun.serves_mono {held : Ledger} {h : Heap} (hr : LegalRun held h) :
    (∀ m n, 0 < m → m ≤ n → h.Serves n →
      h.Serves m ∧ (¬ h.GrowsFor n → ¬ h.GrowsFor m)) ∧
    ∀ p, held p ≠ none → ∃ h', (h.release (some p)).outcome = .ok (.ok (), h') ∧
      ∀ n, (h.Serves n → h'.Serves n) ∧ (¬ h.GrowsFor n → ¬ h'.GrowsFor n) := by
  obtain ⟨bs, f, ht⟩ := hr.tracked
  have hh := ht.holds
  constructor
  · intro m n hm hle hserves
    have hn : 0 < n := Nat.lt_of_lt_of_le hm hle
    have hneed := blockSize_mono hle
    have hgrowth := h.growth_mono hneed
    rw [hh.serves_iff hn] at hserves
    rw [hh.serves_iff hm, hh.growsFor_iff hn, hh.growsFor_iff hm]
    constructor
    · exact hserves.imp (fun hs => hs.mono hneed) hgrowth.trans
    · intro hkept hgrows
      have hnot : ¬ h.Stocked bs (blockSize n) := fun hs => hgrows.1 (hs.mono hneed)
      exact hkept ⟨hnot, hserves.resolve_left hnot⟩
  · intro p hp
    obtain ⟨u, hu, rfl⟩ := ht.matches_use.block_of_live p hp
    obtain ⟨h', bs', f', hrun, hl⟩ := hh.release hu
    refine ⟨h', hrun, fun n => ?_⟩
    rcases Nat.eq_zero_or_pos n with rfl | hn
    · refine ⟨fun _ => ⟨none, h', rfl⟩, ?_⟩
      rintro - ⟨answer, h₁, hnothing, hlt⟩
      cases hnothing
      omega
    · rw [hh.serves_iff hn, hl.holds.serves_iff hn, hh.growsFor_iff hn, hl.holds.growsFor_iff hn,
        hl.room_eq, hl.growth_eq]
      have hstocked := hl.stocked (n := blockSize n) hh
      tauto

/-- A free block beside the one in use has room for 50 bytes, and so it has for 30 bytes, and once
the block in use is given back there is more room still. -/
theorem LegalRun.serves_mono_of_live : ∃ held h h', LegalRun held h ∧ held 16 ≠ none ∧
    h.Serves 50 ∧ ¬ h.GrowsFor 50 ∧ h.Serves 30 ∧ ¬ h.GrowsFor 30 ∧
    (h.release (some 16)).outcome = .ok (.ok (), h') ∧ h'.Serves 50 ∧ ¬ h'.GrowsFor 50 := by
  let memory : Memory := .growable ⟨ByteArray.empty, 4096, by decide, by decide⟩
  let config : Config := { chunk := 192 }
  have heval : ((Heap.setup memory config).outcome.toOption.any fun answer =>
      answer.toOption.any fun new =>
        (new.perform (.allocate 30)).outcome.toOption.any fun one =>
          (Ledger.empty.after one.2 (.allocate 30) one.1 16).isSome &&
            (one.2.allocate 50).outcome.toOption.any fun two =>
              two.1.toOption.isSome && two.2.arena.size == one.2.arena.size) = true := by
    decide +kernel
  obtain ⟨_, hsetup, hanswer⟩ := Fault.ok_of_any heval
  obtain ⟨new, rfl, hnew⟩ := Fault.ok_of_any hanswer
  obtain ⟨⟨reply, h⟩, hfirst, hboth⟩ := Fault.ok_of_any hnew
  obtain ⟨hlive, hlarge⟩ := Bool.and_eq_true_iff.mp hboth
  obtain ⟨⟨answer, h₁⟩, hsecond, hserved⟩ := Fault.ok_of_any hlarge
  obtain ⟨hsome, hsize⟩ := Bool.and_eq_true_iff.mp hserved
  have hr : LegalRun (Ledger.empty.after h (.allocate 30) reply) h :=
    (LegalRun.start rfl hsetup).allocate hfirst
  have hserves : h.Serves 50 := by
    cases answer with
    | error e => cases hsome
    | ok found => exact ⟨found, h₁, hsecond⟩
  have hkept : ¬ h.GrowsFor 50 := Heap.not_growsFor hsecond (eq_of_beq hsize)
  have hheld := Option.isSome_iff_ne_none.mp hlive
  obtain ⟨hsmaller, hreleased⟩ := LegalRun.serves_mono hr
  obtain ⟨h', hrelease, hmore⟩ := hreleased 16 hheld
  obtain ⟨hserves', hkept'⟩ := hsmaller 30 50 (by decide) (by decide) hserves
  exact ⟨_, h, h', hr, hheld, hserves, hkept, hserves', hkept' hkept, hrelease,
    (hmore 50).1 hserves, (hmore 50).2 hkept⟩

/-- A request that is refused says nothing about growth. A new heap of one smallest block refuses
5000 bytes, because the memory is too small for them, and stays as it is. For 50 bytes there is
room to grow, and it does. -/
theorem LegalRun.grows_below_refused : ∃ h,
    (Heap.setup (.growable ⟨ByteArray.empty, 4096, by decide, by decide⟩)
      { chunk := 48, ceiling := 4096 }).outcome = .ok (.ok h) ∧ LegalRun Ledger.empty h ∧
    ¬ h.Serves 5000 ∧ ¬ h.GrowsFor 5000 ∧ h.GrowsFor 50 := by
  have heval : ((Heap.setup (.growable ⟨ByteArray.empty, 4096, by decide, by decide⟩)
        { chunk := 48, ceiling := 4096 }).outcome.toOption.any fun answer =>
      answer.toOption.any fun new =>
        ((new.allocate 5000).outcome.toOption.any fun large =>
          !large.1.toOption.isSome && large.2.arena.size == new.arena.size) &&
        (new.allocate 50).outcome.toOption.any fun small =>
          decide (new.arena.size < small.2.arena.size)) = true := by
    decide +kernel
  obtain ⟨_, hsetup, hanswer⟩ := Fault.ok_of_any heval
  obtain ⟨h, rfl, hnew⟩ := Fault.ok_of_any hanswer
  obtain ⟨hlarge, hsmall⟩ := Bool.and_eq_true_iff.mp hnew
  obtain ⟨⟨answer, h₁⟩, hrefused, hleft⟩ := Fault.ok_of_any hlarge
  obtain ⟨hnone, hsize⟩ := Bool.and_eq_true_iff.mp hleft
  obtain ⟨⟨answer', h₂⟩, hgrown, hlonger⟩ := Fault.ok_of_any hsmall
  refine ⟨h, hsetup, .start rfl hsetup, ?_, Heap.not_growsFor hrefused (eq_of_beq hsize),
    answer', h₂, hgrown, of_decide_eq_true hlonger⟩
  cases answer with
  | error e => exact Heap.not_serves hrefused
  | ok found => cases hnone

end SegregatedFit
