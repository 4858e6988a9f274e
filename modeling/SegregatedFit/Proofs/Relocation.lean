import SegregatedFit.Proofs.ExactPointers

/-!
# Payloads that move

A payload never stays where it is when its size is changed: the new block is put to use while the
old one is still in use, and only then is the old one given back. So the two share no bytes, what
fits arrives unchanged, and the old pointer leads nowhere afterwards, because its header says that
there is no block in use.
-/

namespace SegregatedFit

variable {held : Ledger} {h h' : Heap} {bs bs' : List Block} {f f' : Filing} {u v : Block}
  {p n : Nat}

namespace Heap

/-- A block that was moved is no longer accepted. -/
theorem Moves.rejects (hm : h.Moves bs h' bs' f' u v n) : h'.Rejects u.start :=
  rejects_of_not fun hn => hm.unflagged hn.flagged

/-- The payload of the new block begins with what fits of the old one. -/
theorem Moves.contents_eq (hm : h.Moves bs h' bs' f' u v n) (hsize : n ≤ v.size - 16) {i : Nat}
    (hi : i < min (u.size - 16) n) :
    Bytes.read (h'.contents v) i = Bytes.read (h.contents u) i := by
  have hold : i < u.size - 16 := Nat.lt_of_lt_of_le hi (Nat.min_le_left ..)
  have hnew : i < v.size - 16 := by omega
  simp only [contents, Bytes.read_tabulate, if_pos hold, if_pos hnew]
  exact hm.copied i hi

end Heap

/-- After a payload has moved, the blocks in use are those that were live before, with the new
pointer in place of the old one. -/
theorem Tracked.used_of_moves {q : Nat} (ht : Tracked held h bs f) (hu : u ∈ Block.inUse bs)
    (hm : h.Moves bs h' bs' f' u v n) :
    (∃ b ∈ bs', b.isFree = false ∧ b.start = q) ↔
      q = v.start ∨ q ≠ u.start ∧ held q ≠ none := by
  have hsame : (∃ b ∈ bs', b.isFree = false ∧ b.start = q) ↔
      ∃ b ∈ Block.inUse bs', b.start = q := by
    simp only [Block.mem_inUse_iff, and_assoc]
  rw [hsame, ht.live_iff]
  constructor
  · rintro ⟨b, hb, rfl⟩
    rcases (hm.mem_iff b).mp hb with rfl | ⟨hne, hold⟩
    · exact Or.inl rfl
    · obtain ⟨hmem, hused⟩ := Block.mem_inUse_iff.mp hold
      exact Or.inr ⟨fun heq => hne (ht.holds.eq_of_start_eq hold hu heq), b, hmem, hused, rfl⟩
  · rintro (rfl | ⟨hne, b, hb, hused, rfl⟩)
    · exact ⟨v, (hm.mem_iff v).mpr (Or.inl rfl), rfl⟩
    · have hold := Block.mem_inUse_iff.mpr ⟨hb, hused⟩
      exact ⟨b, (hm.mem_iff b).mpr (Or.inr ⟨fun heq => hne (heq ▸ rfl), hold⟩), rfl⟩

/-- In a state of a legal run, a payload whose size is changed moves to a pointer that was not
live, with room for the request and with all of the old bytes that fit. Every other live pointer
keeps its payload, the old pointer is refused by all operations, and the live pointers are those
from before with the new one in place of the old. Without a pointer this is allocating, and for a
request of nothing it is giving back. -/
theorem LegalRun.reallocate_moves (hr : LegalRun held h) :
    (∀ p bytes n, held p = some bytes → 0 < n → h.payload p = .ok (.ok bytes) ∧
      ∃ answer h', (h.reallocate (some p) n).outcome = .ok (answer, h') ∧ answer ≠ .ok none ∧
        ∀ q, answer = .ok (some q) →
          q ≠ p ∧ held q = none ∧
          (∃ moved, h'.payload q = .ok (.ok moved) ∧ n ≤ moved.size ∧
            ∀ i, i < min bytes.size n → Bytes.read moved i = Bytes.read bytes i) ∧
          (∀ r kept, r ≠ p → held r = some kept → h'.payload r = .ok (.ok kept)) ∧
          h'.Rejects p ∧
          ∃ bs', h'.blocks = ⟨bs', none⟩ ∧
            ∀ r, (∃ b ∈ bs', b.isFree = false ∧ b.start = r) ↔ r = q ∨ r ≠ p ∧ held r ≠ none) ∧
    (∀ n, h.reallocate none n = h.allocate n) ∧
    ∀ p, h.reallocate (some p) 0 =
        (fun r => (r.1.map fun _ => none, r.2)) <$> h.release (some p) ∧
      (held p ≠ none → ∃ h', (h.release (some p)).outcome = .ok (.ok (), h') ∧
        (h.reallocate (some p) 0).outcome = .ok (.ok none, h')) := by
  obtain ⟨bs, f, ht⟩ := hr.tracked
  refine ⟨fun p bytes n hp hpos => ⟨ht.payload_of_live hp, ?_⟩, fun n => rfl,
    fun p => ⟨h.reallocate_zero_eq p, fun hlive => ?_⟩⟩
  · obtain ⟨u, hu, rfl, rfl⟩ := ht.block_of_bytes hp
    rcases ht.holds.reallocate hu hpos with ⟨h', bs', f', v, hrun, hm, hsize⟩ | ⟨e, hrun, -⟩
    · refine ⟨_, h', hrun, by simp, fun q hq => ?_⟩
      cases hq
      have hv := (hm.mem_iff v).mpr (Or.inl rfl)
      have hroom : n ≤ v.size - 16 := by
        have hneed := (blockSize_spec n).1
        omega
      refine ⟨fun heq => hm.fresh u hu heq.symm, ht.not_live hm.fresh,
        ⟨_, hm.holds.payload hv, ?_, fun i hi => hm.contents_eq hroom ?_⟩,
        fun r kept hne hkept => ?_, hm.rejects, bs', hm.holds.blocks_eq,
        fun r => ht.used_of_moves hu hm⟩
      · rwa [Heap.size_contents]
      · rwa [Heap.size_contents] at hi
      · obtain ⟨w, hw, rfl, rfl⟩ := ht.block_of_bytes hkept
        have hwu : w ≠ u := fun heq => hne (heq ▸ rfl)
        rw [hm.holds.payload ((hm.mem_iff w).mpr (Or.inr ⟨hwu, hw⟩))]
        have hmem : w ∈ (Block.inUse bs).filter (· ≠ u) := by
          rw [List.mem_filter, decide_eq_true_eq]
          exact ⟨hw, hwu⟩
        rw [hm.keeps.contents_eq hmem]
    · exact ⟨_, _, hrun, by simp, fun q hq => by cases hq⟩
  · obtain ⟨u, hu, rfl⟩ := ht.matches_use.block_of_live p hlive
    obtain ⟨h', -, -, hrelease, -⟩ := ht.holds.release hu
    refine ⟨h', hrelease, ?_⟩
    rw [Heap.reallocate_zero, hrelease]
    rfl

/-- A payload that was written into moves when it outgrows its block. -/
theorem LegalRun.reallocate_moves_of_written : ∃ held h bytes q h', LegalRun held h ∧
    held 16 = some bytes ∧ Bytes.read bytes 4 = 7 ∧
    (h.reallocate (some 16) 60).outcome = .ok (.ok (some q), h') ∧ q ≠ 16 ∧
    (∃ moved, h'.payload q = .ok (.ok moved) ∧ Bytes.read moved 4 = 7) ∧ h'.Rejects 16 := by
  let memory : Memory := .growable ⟨ByteArray.empty, 4096, by decide, by decide⟩
  let config : Config := { chunk := 96, policy := .bestFit }
  let write : Call := .write 16 4 1 fun _ => 7
  have heval : ((Heap.setup memory config).outcome.toOption.any fun answer =>
      answer.toOption.any fun new =>
        (new.perform (.allocate 30)).outcome.toOption.any fun one =>
          (one.2.perform write).outcome.toOption.any fun two =>
            (Ledger.empty.after one.2 (.allocate 30) one.1 16).isSome &&
              ((Ledger.empty.after one.2 (.allocate 30) one.1).after two.2 write two.1 16).any
                (fun bytes => Bytes.read bytes 4 = 7 ∧ 4 < bytes.size) &&
              (two.2.reallocate (some 16) 60).outcome.toOption.any fun moved =>
                moved.1.toOption.any Option.isSome) = true := by
    decide +kernel
  obtain ⟨_, hsetup, hanswer⟩ := Fault.ok_of_any heval
  obtain ⟨new, rfl, hnew⟩ := Fault.ok_of_any hanswer
  obtain ⟨one, hallocate, hone⟩ := Fault.ok_of_any hnew
  obtain ⟨two, hwrite, htwo⟩ := Fault.ok_of_any hone
  obtain ⟨hstate, hmoves⟩ := Bool.and_eq_true_iff.mp htwo
  obtain ⟨hlive, hbytes⟩ := Bool.and_eq_true_iff.mp hstate
  obtain ⟨bytes, hheld, hread⟩ := (Option.any_eq_true _ _).mp hbytes
  obtain ⟨hread, hlong⟩ := of_decide_eq_true hread
  obtain ⟨⟨answer, h'⟩, hmove, hsome⟩ := Fault.ok_of_any hmoves
  have hlegal : write.Legal one.2 (Ledger.empty.after one.2 (.allocate 30) one.1) :=
    Or.inl (Option.isSome_iff_ne_none.mp hlive)
  have hr := ((LegalRun.start rfl hsetup).allocate hallocate).step hlegal hwrite
  obtain ⟨hmoved, -⟩ := LegalRun.reallocate_moves hr
  obtain ⟨-, _, _, hrun, -, hexact⟩ := hmoved 16 bytes 60 hheld (by decide)
  rw [hmove] at hrun
  cases hrun
  obtain ⟨found, rfl, hfound⟩ := Fault.ok_of_any hsome
  obtain ⟨q, rfl⟩ := Option.isSome_iff_exists.mp hfound
  obtain ⟨hne, -, ⟨moved, hpayload, -, hsame⟩, -, hrejects, -⟩ := hexact q rfl
  refine ⟨_, two.2, bytes, q, h', hr, hheld, hread, hmove, hne, ⟨moved, hpayload, ?_⟩, hrejects⟩
  rw [hsame 4 (by omega), hread]

end SegregatedFit
