import SegregatedFit.Proofs.Guarantees

/-!
# The policies that look at sizes find a block alike

All policies but the segregated one look at the size of every candidate. First fit, best fit and
next fit read tags by address, and the explicit ones follow the links of the buckets. In a heap in
good order these are two views of the same free blocks, and next fit comes past all of them on its
way around. So the policy decides which block is taken, and not whether there is one.
-/

namespace SegregatedFit

/-- In a state of a legal run, no search fails under any policy that looks at sizes. It finds a
block exactly when some free block has room, and then it is such a block, and it is listed. -/
theorem LegalRun.exhaustive_agree {held : Ledger} {h : Heap} (hr : LegalRun held h) (need : Nat) :
    ∃ bs, h.blocks = ⟨bs, none⟩ ∧ ∀ policy, policy ≠ .segregated → ∃ found h',
      ((h.withPolicy policy).search need).outcome = .ok (found, h') ∧
      (found.isSome = true ↔ ∃ b ∈ bs, b.isFree = true ∧ need ≤ b.size) ∧
      ∀ p, found = some p → ∃ b ∈ bs, b.start = p ∧ b.isFree = true ∧ need ≤ b.size ∧
        h.buckets.contains p = true ∧ p ∈ (h.buckets.walk (.ofSize b.size)).items := by
  obtain ⟨bs, f, ht⟩ := hr.tracked
  have hh := ht.holds
  refine ⟨bs, hh.blocks_eq, fun policy hpolicy => ?_⟩
  have hroved := hh.withPolicy policy
  refine ⟨_, _, hroved.search need, ?_, fun p hp => ?_⟩
  · have hfound : (policy.choose bs f h.rover need).isSome = true ↔
        ∃ b ∈ bs, b.isFree = true ∧ policy.floor need ≤ b.size :=
      Policy.isSome_choose_iff hh.filed hh.divided.nodup
    rw [Policy.floor_of_ne hpolicy] at hfound
    rw [Option.isSome_map]
    exact hfound
  · obtain ⟨b, hchoice, rfl⟩ := Option.map_eq_some_iff.mp hp
    obtain ⟨hb, hfree, hfit⟩ := hroved.mem_of_choice hchoice
    obtain ⟨hlisted, hwalk⟩ := hh.registered hb hfree
    exact ⟨b, hb, rfl, hfree, hfit, hlisted, hwalk⟩

/-- A legal run goes on with any allocations. -/
private theorem LegalRun.allocateAll {held : Ledger} {h h' : Heap} {requests : List Nat}
    {replies : List Reply} (hr : LegalRun held h)
    (hrun : (h.performAll (requests.map Call.allocate)).outcome = .ok (replies, h')) :
    ∃ held', LegalRun held' h' := by
  induction requests generalizing held h replies with
  | nil =>
    cases hrun
    exact ⟨held, hr⟩
  | cons request rest ih =>
    simp only [List.map_cons, Heap.performAll, Run.outcome_bind] at hrun
    obtain ⟨⟨reply, h₁⟩, hfirst, hrun⟩ := Fault.bind_eq_ok_iff.mp hrun
    obtain ⟨⟨more, h₂⟩, hrest, hdone⟩ := Fault.bind_eq_ok_iff.mp hrun
    cases hdone
    exact ih (hr.allocate hfirst) hrest

/-- A legal run goes on when a block in use is given back. -/
private theorem LegalRun.release_used {held : Ledger} {h h' : Heap} {p : Nat} {reply : Reply}
    (hr : LegalRun held h) (hused : p ∈ (Block.inUse h.blocks.items).map Block.start)
    (hrun : (h.perform (.release (some p))).outcome = .ok (reply, h')) :
    ∃ held', LegalRun held' h' := by
  obtain ⟨bs, f, ht⟩ := hr.tracked
  rw [ht.holds.blocks_eq] at hused
  have hlegal : (Call.release (some p)).Legal h held := Or.inl (ht.live_iff_mem.mpr hused)
  exact ⟨_, hr.step hlegal hrun⟩

/-- A heap with three free blocks and blocks in use between them. The lowest one is larger than the
others, which are of one size, and it was filed last. The highest one was filed before it. -/
theorem LegalRun.exists_roomy : ∃ held h, LegalRun held h ∧
    h.blocks.items = [⟨16, .free 112⟩, ⟨128, .used 48⟩, ⟨176, .free 80⟩, ⟨256, .used 48⟩,
      ⟨304, .used 48⟩, ⟨352, .free 80⟩] ∧
    h.listedBlocks.items = [⟨16, .free 112⟩, ⟨352, .free 80⟩, ⟨176, .free 80⟩] ∧
    (h.buckets.walk 2).items = [16, 352, 176] := by
  let memory : Memory := .growable ⟨ByteArray.empty, 4096, by decide, by decide⟩
  let config : Config := { chunk := 416, policy := .nextFit }
  have heval : ((Heap.setup memory config).outcome.toOption.any fun answer =>
      answer.toOption.any fun new =>
        (new.performAll ([96, 30, 64, 30].map Call.allocate)).outcome.toOption.any fun four =>
        decide (176 ∈ (Block.inUse four.2.blocks.items).map Block.start) &&
          (four.2.perform (.release (some 176))).outcome.toOption.any fun less =>
        (less.2.performAll ([30].map Call.allocate)).outcome.toOption.any fun five =>
        decide (16 ∈ (Block.inUse five.2.blocks.items).map Block.start) &&
          (five.2.perform (.release (some 16))).outcome.toOption.any fun last =>
        decide (last.2.blocks.items = [⟨16, .free 112⟩, ⟨128, .used 48⟩, ⟨176, .free 80⟩,
            ⟨256, .used 48⟩, ⟨304, .used 48⟩, ⟨352, .free 80⟩] ∧
          last.2.listedBlocks.items = [⟨16, .free 112⟩, ⟨352, .free 80⟩, ⟨176, .free 80⟩] ∧
          (last.2.buckets.walk 2).items = [16, 352, 176])) = true := by
    decide +kernel
  obtain ⟨_, hsetup, hanswer⟩ := Fault.ok_of_any heval
  obtain ⟨new, rfl, hnew⟩ := Fault.ok_of_any hanswer
  obtain ⟨four, hfour, hrest⟩ := Fault.ok_of_any hnew
  obtain ⟨hused, hrest⟩ := Bool.and_eq_true_iff.mp hrest
  obtain ⟨less, hless, hrest⟩ := Fault.ok_of_any hrest
  obtain ⟨five, hfive, hrest⟩ := Fault.ok_of_any hrest
  obtain ⟨hused', hrest⟩ := Bool.and_eq_true_iff.mp hrest
  obtain ⟨last, hlast, hstate⟩ := Fault.ok_of_any hrest
  obtain ⟨_, hr⟩ := (LegalRun.start rfl hsetup).allocateAll hfour
  obtain ⟨_, hr⟩ := hr.release_used (of_decide_eq_true hused) hless
  obtain ⟨_, hr⟩ := hr.allocateAll hfive
  obtain ⟨held, hr⟩ := hr.release_used (of_decide_eq_true hused') hlast
  exact ⟨held, last.2, hr, of_decide_eq_true hstate⟩

/-- Three free blocks have room for 80 bytes, so each policy finds one of them. None has room for
128 bytes, so no policy finds any. -/
theorem LegalRun.exhaustive_agree_of_roomy : ∃ held h, LegalRun held h ∧
    ∀ policy, policy ≠ .segregated →
      (∃ p h', ((h.withPolicy policy).search 80).outcome = .ok (some p, h') ∧
        p ∈ [16, 176, 352]) ∧
      ∃ h', ((h.withPolicy policy).search 128).outcome = .ok (none, h') := by
  obtain ⟨held, h, hr, hitems, -⟩ := LegalRun.exists_roomy
  obtain ⟨bs, hblocks, hsmall⟩ := LegalRun.exhaustive_agree hr 80
  obtain ⟨bs', hblocks', hlarge⟩ := LegalRun.exhaustive_agree hr 128
  rw [hblocks] at hitems
  obtain rfl : bs = _ := hitems
  rw [hblocks] at hblocks'
  cases hblocks'
  refine ⟨held, h, hr, fun policy hpolicy => ⟨?_, ?_⟩⟩
  · obtain ⟨found, h', hsearch, hfound, hroom⟩ := hsmall policy hpolicy
    obtain ⟨p, rfl⟩ := Option.isSome_iff_exists.mp (hfound.mpr (by decide))
    refine ⟨p, h', hsearch, ?_⟩
    obtain ⟨b, hb, rfl, hfree, -⟩ := hroom p rfl
    exact Block.mem_freeStarts_iff.mpr ⟨b, hb, hfree, rfl⟩
  · obtain ⟨found, h', hsearch, hfound, -⟩ := hlarge policy hpolicy
    have hnone : found = none := Option.not_isSome_iff_eq_none.mp fun hsome =>
      absurd (hfound.mp hsome) (by decide)
    exact ⟨h', hnone ▸ hsearch⟩

end SegregatedFit
