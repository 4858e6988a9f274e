import SegregatedFit.Proofs.ReleaseOrder
import SegregatedFit.Proofs.Restoring

/-!
# Getting a block and giving it back

When the heap does not have to grow for a request, the block that serves it is a free block or
the lower part of one. Giving it back restores the heap, whatever was written into it meanwhile:
the blocks, the totals and the lists are as they were, except that the free block now comes first
in its list, and no byte outside its payload is different.
-/

namespace SegregatedFit

namespace Heap

variable {h h₁ : Heap} {bs : List Block} {f : Filing} {request p : Nat}

/-- Without growth the block that serves a request comes from the free block that the policy
chooses. -/
theorem Allocates.chosen_of_size_eq (ha : h.Allocates bs f request (.ok p) h₁)
    (hh : h.Holds bs f) (hsize : h₁.arena.size = h.arena.size) :
    ∃ xs b ys, bs = xs ++ b :: ys ∧ b.start = p ∧ b.isFree = true ∧ blockSize request ≤ b.size ∧
      h.choice bs f (blockSize request) = some b ∧
      (h.searched (some b)).Carves xs b ys f (blockSize request) h₁ := by
  have hchosen := (ha.size_eq_iff hh).mp hsize
  cases ha with
  | chosen hsplit hchoice hcarves =>
    obtain ⟨-, hfree, hfit⟩ := hh.mem_of_choice hchoice
    exact ⟨_, _, _, hsplit, rfl, hfree, hfit, hchoice, hcarves⟩
  | grown hchoice => exact absurd hchoice hchosen

end Heap

variable {held : Ledger} {h h₁ : Heap} {request p : Nat}

/-- In a state of a legal run, a pointer that was handed out without growth can be written through
and given back. The heap then agrees with the one before, except that next fit goes on at the
pointer. The free block `b` that served the request comes first in its list, and the others there
have kept their order. Bytes are different only inside the payload of `b`, and if nothing was
written only in the two tags where it was cut. -/
theorem LegalRun.round_trip (hr : LegalRun held h)
    (hrun : (h.allocate request).outcome = .ok (.ok (some p), h₁))
    (hsize : h₁.arena.size = h.arena.size) (ws : List (Nat × Nat × (Nat → UInt8))) :
    ∃ (counts : List Nat) (h₂ h₃ : Heap), ∃ b ∈ h.blocks.items,
      (h₁.performAll (Call.writes p ws)).outcome =
        .ok (counts.map fun n => .written (.ok n), h₂) ∧
      (h₂.release (some p)).outcome = .ok (.ok (), h₃) ∧
      b.isFree = true ∧ b.start = p ∧
      h₃.Agrees { h with rover := if h.config.policy = .nextFit then p else h.rover } ∧
      h₃.totals = h.totals ∧
      (∀ c, (h₃.buckets.walk c).items =
        if c = .ofSize b.size then p :: (h.buckets.walk c).items.erase p
        else (h.buckets.walk c).items) ∧
      (∀ j, ¬ b.InPayload j → h₃.arena.memory.read j = h.arena.memory.read j) ∧
      (ws = [] → ∀ j, h₃.arena.memory.read j ≠ h.arena.memory.read j →
        b.InPayload j ∧ p + blockSize request - 16 ≤ j ∧ j < p + blockSize request) := by
  obtain ⟨bs, f, ht⟩ := hr.tracked
  have hh := ht.holds
  obtain ⟨-, ha⟩ := hh.allocates_of_allocate hrun
  obtain ⟨xs, b, ys, rfl, rfl, hfree, hfit, hchoice, hcarves⟩ := ha.chosen_of_size_eq hh hsize
  obtain ⟨-, -, hlarge⟩ := blockSize_spec request
  have hroved := hh.searched (blockSize request)
  rw [hchoice] at hroved
  obtain ⟨counts, h₂, hwrites, hlends⟩ := hcarves.lends.writes hfit ws
  obtain ⟨h₃, hrelease, hreverts⟩ := hlends.release hroved hfree hlarge hfit
  have hholds := hreverts.holds
  have hsize₃ : h₃.arena.size = h.arena.size := hreverts.edited.size_eq
  refine ⟨counts, h₂, h₃, b, ?_, hwrites, hrelease, hfree, rfl, ?_, ?_, fun c => ?_, fun j hj => ?_,
    fun hnone j hne => ?_⟩
  · rw [hh.blocks_eq]
    exact hh.divided.mem_middle
  · exact hholds.agrees hroved hreverts.alike.prologue_eq hsize₃ hreverts.rover_eq
  · rw [hholds.totals, hh.totals, hsize₃]
  · rw [hholds.files.walk_eq, hh.files.walk_eq]
    exact Filing.raise_eq hh.filed hh.divided.nodup hh.divided.mem_middle c
  · apply hreverts.edited.read_eq j
    rintro (hseam | hwritten)
    · exact hj hseam.1
    · exact hj (hwritten.resolve_left id).2
  · by_contra hoff
    apply hne
    apply hreverts.edited.read_eq j
    rintro (hseam | hwritten)
    · exact hoff hseam
    · exact (hwritten.resolve_left id).1 hnone

/-- Allocating 30 bytes on a new heap, writing to them, and releasing them, under any policy. -/
theorem LegalRun.round_trip_of_new : ∃ held h h₁ h₂ h₃, ∃ counts : List Nat, LegalRun held h ∧
    (h.allocate 30).outcome = .ok (.ok (some 16), h₁) ∧ h₁.arena.size = h.arena.size ∧
    (h₁.performAll (Call.writes 16 [(4, 8, fun _ => 255)])).outcome =
      .ok (counts.map fun n => .written (.ok n), h₂) ∧
    (h₂.release (some 16)).outcome = .ok (.ok (), h₃) ∧ h₃.totals = h.totals ∧
    h₃.Agrees { h with rover := if h.config.policy = .nextFit then 16 else h.rover } := by
  let memory : Memory := .growable ⟨ByteArray.empty, 4096, by decide, by decide⟩
  let config : Config := { chunk := 192, policy := .nextFit }
  have heval : ((Heap.setup memory config).outcome.toOption.any fun answer =>
      answer.toOption.any fun new =>
        (new.allocate 30).outcome.toOption.any fun answered =>
          answered.1.toOption.any fun found =>
            decide (found = some 16 ∧ answered.2.arena.size = new.arena.size)) = true := by
    decide +kernel
  obtain ⟨_, hsetup, hanswer⟩ := Fault.ok_of_any heval
  obtain ⟨new, rfl, hnew⟩ := Fault.ok_of_any hanswer
  obtain ⟨⟨answer, h₁⟩, hrun, hanswered⟩ := Fault.ok_of_any hnew
  obtain ⟨found, hok, hfound⟩ := Fault.ok_of_any hanswered
  obtain ⟨rfl, hsize⟩ := of_decide_eq_true hfound
  obtain rfl : answer = .ok (some 16) := hok
  have hr : LegalRun Ledger.empty new := LegalRun.start rfl hsetup
  obtain ⟨counts, h₂, h₃, b, -, hwrites, hrelease, -, -, hagrees, htotals, -⟩ :=
    LegalRun.round_trip hr hrun hsize [(4, 8, fun _ => 255)]
  exact ⟨_, new, h₁, h₂, h₃, counts, hr, hrun, hsize, hwrites, hrelease, htotals, hagrees⟩

end SegregatedFit
