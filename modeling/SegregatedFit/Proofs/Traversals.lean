import SegregatedFit.Proofs.Guarantees

/-!
# Going up and down

From a block the size in its header leads to the block above, and the size in the footer right in
front of it to the block below. In every state of a legal run the two undo each other, also at the
sentinels: the way up from the prologue meets all blocks and ends where the arena ends, and the way
down from there meets them in reverse and ends at the prologue.
-/

namespace SegregatedFit

namespace Arena

/-- The offsets that a number of steps lead to, one after the other. -/
def trail (step : Nat → Except Fault Nat) : Nat → Nat → Except Fault (List Nat)
  | 0, _ => .ok []
  | count + 1, x => do
    let y ← step x
    let rest ← trail step count y
    return y :: rest

variable {a : Arena} {first x y count : Nat} {b : Block} {bs xs ys : List Block}
  {step : Nat → Except Fault Nat} {later : List Nat}

private theorem trail_succ (hstep : step x = .ok y) (hrest : trail step count y = .ok later) :
    trail step (count + 1) x = .ok (y :: later) := by
  rw [trail, hstep, Fault.ok_bind, hrest, Fault.ok_bind, Fault.pure_eq_ok]

/-- The way up from right below some blocks meets them and then the end of the arena. -/
theorem Divided.trail_next (h : a.Divided first (xs ++ ys))
    (hx : a.next x = .ok (first + Block.totalSize xs)) :
    trail a.next (ys.length + 1) x = .ok (ys.map Block.start ++ [a.size]) := by
  induction ys generalizing xs x with
  | nil =>
    rw [List.append_nil] at h
    rw [← h.size_eq] at hx
    exact trail_succ hx rfl
  | cons b rest ih =>
    have hsplit : a.Divided first ((xs ++ [b]) ++ rest) := by simpa using h
    have hnext := h.next h.mem_middle
    rw [← h.end_eq] at hnext
    rw [← h.start_eq] at hx
    exact trail_succ hx (ih hsplit hnext)

/-- The way down from right above some blocks meets them in reverse and then the prologue. -/
theorem Divided.trail_previous (h : a.Divided first (xs ++ ys)) :
    trail a.previous (xs.length + 1) (first + Block.totalSize xs) =
      .ok ((xs.map Block.start).reverse ++ [first - 8]) := by
  induction xs using List.reverseRecOn generalizing ys with
  | nil => exact trail_succ h.previous_first rfl
  | append_singleton lower p ih =>
    have hsplit : a.Divided first (lower ++ p :: ys) := by simpa using h
    have hlower := ih hsplit
    rw [← hsplit.start_eq] at hlower
    rw [hsplit.end_eq, List.length_append, List.map_append, List.reverse_append]
    exact trail_succ hsplit.previous_end hlower

/-- One step up from a block and one step down lead back to it. -/
theorem Divided.previous_next (h : a.Divided first bs) (hb : b ∈ bs) :
    a.next b.start = .ok (b.start + b.size) ∧ a.previous (b.start + b.size) = .ok b.start := by
  obtain ⟨lower, upper, rfl⟩ := List.append_of_mem hb
  exact ⟨h.next hb, h.previous_end⟩

/-- One step down from the place behind some blocks and one step up lead back to it. -/
theorem Divided.next_previous (h : a.Divided first (xs ++ ys)) :
    ∃ below, a.previous (first + Block.totalSize xs) = .ok below ∧
      a.next below = .ok (first + Block.totalSize xs) := by
  rcases List.eq_nil_or_concat xs with rfl | ⟨lower, p, rfl⟩
  · exact ⟨first - 8, h.previous_first, h.next_prologue⟩
  · rw [List.concat_eq_append] at h ⊢
    have hsplit : a.Divided first (lower ++ p :: ys) := by simpa using h
    rw [hsplit.end_eq]
    exact ⟨p.start, hsplit.previous_end, hsplit.next hsplit.mem_middle⟩

end Arena

variable {held : Ledger} {h : Heap}

/-- In a legal run the footers lead down through the same blocks through which the headers lead up.
From the end of the arena the steps down meet all blocks in reverse and then the prologue, which
is in use. A step up from a block and a step down undo each other, and so do a step down from a
block or from the end of the arena and a step up. -/
theorem LegalRun.traversals_inverse (hr : LegalRun held h) :
    ∃ bs, h.blocks = ⟨bs, none⟩ ∧ (bs.map Block.start).head? = some h.first ∧
      Arena.trail h.arena.next (bs.length + 1) h.prologue =
        .ok (bs.map Block.start ++ [h.arena.size]) ∧
      Arena.trail h.arena.previous (bs.length + 1) h.arena.size =
        .ok ((bs.map Block.start).reverse ++ [h.prologue]) ∧
      (∀ b ∈ bs, ∃ above, h.arena.next b.start = .ok above ∧
        h.arena.previous above = .ok b.start) ∧
      (∀ x, x ∈ bs.map Block.start ∨ x = h.arena.size →
        ∃ below, h.arena.previous x = .ok below ∧ h.arena.next below = .ok x) ∧
      h.arena.previous h.first = .ok h.prologue ∧
      h.arena.isAllocated h.prologue = .ok true := by
  obtain ⟨bs, f, ht⟩ := hr.tracked
  have hd := ht.holds.divided
  have hfront : h.arena.Divided h.first ([] ++ bs) := hd
  have hback : h.arena.Divided h.first (bs ++ []) := by simpa using hd
  have hbelow : h.first - 8 = h.prologue := Nat.add_sub_cancel ..
  have hdown := hback.trail_previous
  rw [← hd.size_eq, hbelow] at hdown
  have hprevious := hd.previous_first
  have hprologue := hd.header_prologue
  rw [hbelow] at hprevious hprologue
  refine ⟨bs, ht.holds.blocks_eq, ?_, hfront.trail_next ht.holds.next_prologue, hdown,
    fun b hb => ⟨_, hd.previous_next hb⟩, fun x hx => ?_, hprevious, ?_⟩
  · obtain ⟨b, rest, rfl⟩ := List.exists_cons_of_ne_nil ht.ne_nil
    exact congrArg some hd.tiled.1.1
  · rcases hx with hx | rfl
    · obtain ⟨b, hb, rfl⟩ := List.mem_map.mp hx
      obtain ⟨lower, upper, rfl⟩ := List.append_of_mem hb
      rw [hd.start_eq]
      exact hd.next_previous
    · rw [hd.size_eq]
      exact hback.next_previous
  · rw [Arena.isAllocated, hprologue]
    rfl

/-- Of three blocks in use the second and then the first are given back, which leaves old tags
inside of the merged block. The way down passes by them. -/
theorem LegalRun.traversals_inverse_of_merged : ∃ held h, LegalRun held h ∧
    h.blocks.items = [⟨16, .free 96⟩, ⟨112, .used 48⟩, ⟨160, .free 48⟩] ∧
    Arena.trail h.arena.next 4 8 = .ok [16, 112, 160, 208] ∧
    Arena.trail h.arena.previous 4 208 = .ok [160, 112, 16, 8] := by
  let memory : Memory := .growable ⟨ByteArray.empty, 4096, by decide, by decide⟩
  have heval : ((Heap.setup memory { chunk := 192 }).outcome.toOption.any fun answer =>
      answer.toOption.any fun new =>
        (new.perform (.allocate 30)).outcome.toOption.any fun one =>
          (one.2.perform (.allocate 30)).outcome.toOption.any fun two =>
            (two.2.perform (.allocate 30)).outcome.toOption.any fun three =>
              (three.2.perform (.release (some 64))).outcome.toOption.any fun four =>
                (four.2.perform (.release (some 16))).outcome.toOption.any fun five =>
                  ((((Ledger.empty.after one.2 (.allocate 30) one.1).after two.2 (.allocate 30)
                    two.1).after three.2 (.allocate 30) three.1) 64).isSome &&
                  (((((Ledger.empty.after one.2 (.allocate 30) one.1).after two.2 (.allocate 30)
                    two.1).after three.2 (.allocate 30) three.1).after four.2 (.release (some 64))
                    four.1) 16).isSome &&
                  decide (five.2.blocks.items =
                    [⟨16, .free 96⟩, ⟨112, .used 48⟩, ⟨160, .free 48⟩]) &&
                  decide (five.2.prologue = 8 ∧ five.2.arena.size = 208)) = true := by
    decide +kernel
  obtain ⟨_, hsetup, hanswer⟩ := Fault.ok_of_any heval
  obtain ⟨new, rfl, hnew⟩ := Fault.ok_of_any hanswer
  obtain ⟨one, hone, hrest⟩ := Fault.ok_of_any hnew
  obtain ⟨two, htwo, hrest⟩ := Fault.ok_of_any hrest
  obtain ⟨three, hthree, hrest⟩ := Fault.ok_of_any hrest
  obtain ⟨four, hfour, hrest⟩ := Fault.ok_of_any hrest
  obtain ⟨five, hfive, hrest⟩ := Fault.ok_of_any hrest
  simp only [Bool.and_eq_true, decide_eq_true_eq] at hrest
  obtain ⟨⟨⟨hupper, hlower⟩, hitems⟩, hprologue, hsize⟩ := hrest
  have hupper : (Call.release (some 64)).Legal three.2 _ :=
    Or.inl (Option.isSome_iff_ne_none.mp hupper)
  have hlower : (Call.release (some 16)).Legal four.2 _ :=
    Or.inl (Option.isSome_iff_ne_none.mp hlower)
  have hr := (((LegalRun.start rfl hsetup).allocate hone).allocate htwo).allocate hthree
  have hr := (hr.step hupper hfour).step hlower hfive
  obtain ⟨bs, hblocks, -, hup, hdown, -⟩ := hr.traversals_inverse
  have hbs : bs = [⟨16, .free 96⟩, ⟨112, .used 48⟩, ⟨160, .free 48⟩] := by
    rw [← hitems, hblocks]
  rw [hbs, hprologue, hsize] at hup hdown
  exact ⟨_, five.2, hr, hitems, hup, hdown⟩

end SegregatedFit
