import SegregatedFit.Proofs.Refusals
import SegregatedFit.Proofs.ExactPointers

/-!
# Pointers that were given back

When a block is given back, its header says so from then on. Merging may leave the header inside of
a larger block, but writes no tag there that is in use, and no payload in use lies over it until
memory is handed out again. So until then the old pointer does not pass the test, and giving it back
a second time is always noticed, whatever is given back in between.
-/

namespace SegregatedFit

/-- Going on from a ledger and a heap without being handed any memory: by legal calls that answer
with no pointer, and by calls with any arguments that are refused. -/
inductive IdleRun (held : Ledger) (h : Heap) : Ledger → Heap → Prop
  /-- Nothing has been called yet. -/
  | refl : IdleRun held h held h
  /-- One more legal call gave no pointer. -/
  | step {held₁ : Ledger} {h₁ h₂ : Heap} {call : Call} {reply : Reply} : IdleRun held h held₁ h₁ →
    call.Legal h₁ held₁ → (h₁.perform call).outcome = .ok (reply, h₂) →
    (∀ q, reply ≠ .pointer (.ok (some q))) → IdleRun held h (held₁.after h₂ call reply) h₂
  /-- One more call was refused. -/
  | refused {held₁ : Ledger} {h₁ h₂ : Heap} {call : Call} {reply : Reply} {e : HeapError} :
    IdleRun held h held₁ h₁ → (h₁.perform call).outcome = .ok (reply, h₂) →
    reply.error? = some e → IdleRun held h held₁ h₂

variable {held : Ledger} {h h' : Heap} {bs bs' : List Block} {f f' : Filing} {u : Block} {p : Nat}
  {call : Call} {reply : Reply}

namespace Heap

/-- What a call without a new pointer makes of a heap. -/
inductive Withheld (h : Heap) (bs : List Block) : Heap → Prop
  /-- The heap is the same. -/
  | same : Withheld h bs h
  /-- The call was refused. -/
  | refused (e : HeapError) : Withheld h bs (h.refused e)
  /-- A block was given back. -/
  | released {u : Block} {h' : Heap} {bs' : List Block} {f' : Filing} : u ∈ Block.inUse bs →
    h.Loses bs h' bs' f' u → Withheld h bs h'
  /-- A payload was written into. -/
  | written {u : Block} {a : Arena} : u ∈ Block.inUse bs → h.arena.Edited a u.InPayload →
    Withheld h bs ⟨a, h.buckets, h.config, h.prologue, h.rover⟩

/-- An offset in front of which no header of a block in use stands, nor the payload of one lies. -/
structure Stale (h : Heap) (p : Nat) : Prop where
  le : 8 ≤ p
  mod : p % 16 = 0
  unflagged : ¬ h.arena.Flagged p
  apart : ∀ u ∈ Block.inUse h.blocks.items, ¬ u.InPayload (p - 8)

/-- A stale pointer is refused by all operations. -/
theorem Stale.not_names (hs : h.Stale p) : ¬ h.Names p := fun hn => hs.unflagged hn.flagged

/-- The pointer of a block that is given back is stale. -/
theorem Loses.stale (hl : h.Loses bs h' bs' f' u) (hh : h.Holds bs f) (hu : u ∈ Block.inUse bs) :
    h'.Stale u.start := by
  have hmem := (Block.mem_inUse_iff.mp hu).1
  have hmod := hh.divided.start_mod hmem
  have hbounds := hh.divided.bounds hmem
  have hfirst := hh.divided.le_first
  have hle : 8 ≤ u.start := by omega
  refine ⟨hle, hmod, fun hflag => (hl.unflagged u.start hle hmod hflag).2 rfl, fun c hc hin => ?_⟩
  rw [hl.holds.blocks_eq] at hc
  have hold := (Block.mem_inUse_iff.mp ((hl.mem_iff c).mp hc).2).1
  apply hh.divided.tag_apart hold hmem hin
  exact Or.inl ⟨Nat.le_refl _, by omega⟩

/-- A stale pointer stays stale as long as no block is put to use. -/
theorem Stale.withheld (hs : h.Stale p) (hh : h.Holds bs f) (hw : h.Withheld bs h') :
    h'.Stale p := by
  have hapart := hs.apart
  rw [hh.blocks_eq] at hapart
  cases hw with
  | same => exact hs
  | refused e => exact ⟨hs.le, hs.mod, hs.unflagged, hs.apart⟩
  | released hu hl =>
    refine ⟨hs.le, hs.mod, fun hflag => hs.unflagged (hl.unflagged p hs.le hs.mod hflag).1, ?_⟩
    rw [hl.holds.blocks_eq]
    exact fun c hc => hapart c ((hl.mem_iff c).mp hc).2
  | written hu hedit =>
    have hkept := hedit.read_eq (p - 8) (hapart _ hu)
    refine ⟨hs.le, hs.mod, fun hflag => hs.unflagged ((Arena.flagged_congr hkept).mp hflag), ?_⟩
    rw [(hh.overwrite (Block.mem_inUse_iff.mp hu).1 hedit).1.blocks_eq]
    exact hapart

/-- A request that is given no block is for nothing, or is refused. -/
theorem Holds.withheld_of_allocate (hh : h.Holds bs f) {request : Nat}
    {answer : Answer (Option Nat)} (hrun : (h.allocate request).outcome = .ok (answer, h'))
    (hnone : ∀ q, answer ≠ .ok (some q)) : h.Withheld bs h' := by
  rcases hh.allocate request with ⟨-, hsame⟩ | ⟨_, _, _, u, -, hgains, -⟩ | ⟨e, hrefused, -⟩
  · rw [hrun] at hsame
    cases hsame
    exact .same
  · rw [hrun] at hgains
    cases hgains
    exact absurd rfl (hnone u.start)
  · rw [hrun] at hrefused
    cases hrefused
    exact .refused e

end Heap

namespace Tracked

/-- Giving back an accepted pointer takes a block out of use, or is refused. -/
theorem withheld_of_release (ht : Tracked held h bs f) {pointer : Option Nat} {answer : Answer Unit}
    (hlegal : (Call.release pointer).Legal h held)
    (hrun : (h.release pointer).outcome = .ok (answer, h')) : h.Withheld bs h' := by
  cases pointer with
  | none =>
    cases hrun
    exact .same
  | some x =>
    rcases ht.accepted hlegal with ⟨u, hu, rfl⟩ | hn
    · obtain ⟨_, _, _, hreleased, hl⟩ := ht.holds.release hu
      rw [hrun] at hreleased
      cases hreleased
      exact .released hu hl
    · rw [Heap.release_of_not hn] at hrun
      cases hrun
      exact .same

/-- Moving an accepted pointer without getting a new one is giving it back, or is refused. -/
theorem withheld_of_reallocate (ht : Tracked held h bs f) {pointer : Option Nat} {request : Nat}
    {answer : Answer (Option Nat)} (hlegal : (Call.reallocate pointer request).Legal h held)
    (hrun : (h.reallocate pointer request).outcome = .ok (answer, h'))
    (hnone : ∀ q, answer ≠ .ok (some q)) : h.Withheld bs h' := by
  cases pointer with
  | none => exact ht.holds.withheld_of_allocate hrun hnone
  | some x =>
    rcases ht.accepted hlegal with ⟨u, hu, rfl⟩ | hn
    · rcases Nat.eq_zero_or_pos request with rfl | hpos
      · obtain ⟨_, _, _, hreleased, hl⟩ := ht.holds.release hu
        rw [Heap.reallocate_zero, hreleased] at hrun
        cases hrun
        exact .released hu hl
      · rcases ht.holds.reallocate hu hpos with ⟨_, _, _, v, hmoved, -⟩ | ⟨e, hrefused, -⟩
        · rw [hrun] at hmoved
          cases hmoved
          exact absurd rfl (hnone v.start)
        · rw [hrun] at hrefused
          cases hrefused
          exact .refused e
    · rw [Heap.reallocate_of_not hn] at hrun
      cases hrun
      exact .same

/-- Writing through an accepted pointer changes the payload of a block in use, or is refused. -/
theorem withheld_of_write (ht : Tracked held h bs f) {position count : Nat} {g : Nat → UInt8}
    {answer : Answer Nat} (hlegal : (Call.write p position count g).Legal h held)
    (hrun : h.writePayload p position count g = .ok (answer, h')) : h.Withheld bs h' := by
  rcases ht.accepted hlegal with ⟨u, hu, rfl⟩ | hn
  · obtain ⟨hmem, hused⟩ := Block.mem_inUse_iff.mp hu
    obtain ⟨hnames, hblock⟩ := ht.holds.names hmem hused
    obtain ⟨a, _, hwrite, hedit, -⟩ := hnames.writePayload position count g
    rw [hblock] at hedit
    rw [hrun] at hwrite
    cases hwrite
    exact .written hu hedit
  · rw [Heap.writePayload_of_not hn] at hrun
    cases hrun
    exact .same

/-- A legal call that answers with no pointer puts no block to use. -/
theorem withheld (ht : Tracked held h bs f) (hlegal : call.Legal h held)
    (hrun : (h.perform call).outcome = .ok (reply, h'))
    (hnone : ∀ q, reply ≠ .pointer (.ok (some q))) : h.Withheld bs h' := by
  cases Heap.performs_of_outcome hrun with
  | allocate hanswer =>
    exact ht.holds.withheld_of_allocate hanswer fun q hq => hnone q (congrArg Reply.pointer hq)
  | release hanswer => exact ht.withheld_of_release hlegal hanswer
  | reallocate hanswer =>
    exact ht.withheld_of_reallocate hlegal hanswer fun q hq =>
      hnone q (congrArg Reply.pointer hq)
  | write hanswer => exact ht.withheld_of_write hlegal hanswer
  | _ => exact .same

/-- A live pointer is stale once a call has given it back. -/
theorem stale_of_givesBack (ht : Tracked held h bs f) (hlive : held p ≠ none)
    (hgives : call.GivesBack p) (hrun : (h.perform call).outcome = .ok (reply, h'))
    (hdone : reply.error? = none) : h'.Stale p := by
  obtain ⟨u, hu, rfl⟩ := ht.matches_use.block_of_live p hlive
  obtain ⟨h₁, _, _, hreleased, hl⟩ := ht.holds.release hu
  have hstale := hl.stale ht.holds hu
  cases Heap.performs_of_outcome hrun with
  | @release pointer _ _ hanswer =>
    obtain rfl : pointer = some u.start := hgives
    rw [hreleased] at hanswer
    cases hanswer
    exact hstale
  | @reallocate pointer request _ _ hanswer =>
    obtain rfl : pointer = some u.start := hgives
    rcases Nat.eq_zero_or_pos request with rfl | hpos
    · rw [Heap.reallocate_zero, hreleased] at hanswer
      cases hanswer
      exact hstale
    · rcases ht.holds.allocateBlock request with
        ⟨h₂, bs₂, f₂, v, hblock, hg, hsize⟩ | ⟨e, hblock, -⟩
      · obtain ⟨a, _, _, _, hmoved, hh, hl', -⟩ :=
          ht.holds.reallocate_of_gains hu hpos hblock hg hsize
        rw [hanswer] at hmoved
        cases hmoved
        exact hl'.stale hh ((hg.mem_iff u).mpr (Or.inr hu))
      · rw [ht.holds.reallocate_of_error hu hpos hblock] at hanswer
        cases hanswer
        cases hdone
  | _ => exact hgives.elim

end Tracked

/-- Giving an accepted pointer back hands out nothing. -/
theorem IdleRun.release {held₁ : Ledger} {h₁ : Heap} {pointer : Option Nat}
    (hr : IdleRun held h held₁ h₁) (hlegal : (Call.release pointer).Legal h₁ held₁)
    (hrun : (h₁.perform (.release pointer)).outcome = .ok (reply, h')) :
    IdleRun held h (held₁.after h' (.release pointer) reply) h' := by
  refine hr.step hlegal hrun fun q hq => ?_
  cases Heap.performs_of_outcome hrun
  cases hq

/-- Until memory is handed out again, a stale pointer is stale. -/
theorem IdleRun.stale {held₁ : Ledger} {h₁ : Heap} (hr : IdleRun held h held₁ h₁)
    (ht : Tracked held h bs f) (hs : h.Stale p) :
    ∃ bs₁ f₁, Tracked held₁ h₁ bs₁ f₁ ∧ h₁.Stale p := by
  induction hr with
  | refl => exact ⟨bs, f, ht, hs⟩
  | step _ hlegal hrun hnone ih =>
    obtain ⟨bs₁, f₁, ht₁, hs₁⟩ := ih
    obtain ⟨_, _, bs₂, f₂, hanswer, ht₂, -⟩ := ht₁.step hlegal
    rw [hrun] at hanswer
    cases hanswer
    exact ⟨bs₂, f₂, ht₂, hs₁.withheld ht₁.holds (ht₁.withheld hlegal hrun hnone)⟩
  | refused _ hrun herror ih =>
    obtain ⟨bs₁, f₁, ht₁, hs₁⟩ := ih
    obtain rfl := Heap.perform_error hrun herror
    exact ⟨bs₁, f₁, ht₁.refused _, hs₁.withheld ht₁.holds (.refused _)⟩

/-- In a state of a legal run a live pointer can be given back. Once that was done, or it was moved,
every operation on it is refused with nothing changed, until memory is handed out again: however
many other pointers are given back, payloads are written into and calls are refused in between. -/
theorem LegalRun.double_release_refused (hr : LegalRun held h) (hlive : held p ≠ none) :
    (∃ h', (h.perform (.release (some p))).outcome = .ok (.done (.ok ()), h')) ∧
    ∀ call reply h₁ held₂ h₂, call.GivesBack p → (h.perform call).outcome = .ok (reply, h₁) →
      reply.error? = none → IdleRun (held.after h₁ call reply) h₁ held₂ h₂ →
      h₂.Rejects p ∧ ∀ position count g,
        h₂.writePayload p position count g = .ok (.error (.invalidPointer p), h₂) := by
  obtain ⟨bs, f, ht⟩ := hr.tracked
  constructor
  · obtain ⟨u, hu, rfl⟩ := ht.matches_use.block_of_live p hlive
    obtain ⟨h', _, _, hreleased, -⟩ := ht.holds.release hu
    exact ⟨h', by simp [Heap.perform, hreleased]⟩
  · intro call reply h₁ held₂ h₂ hgives hrun hdone hidle
    have hlegal : call.Legal h held := by
      cases call with
      | release pointer =>
        obtain rfl : pointer = some p := hgives
        exact Or.inl hlive
      | reallocate pointer request =>
        obtain rfl : pointer = some p := hgives
        exact Or.inl hlive
      | _ => exact hgives.elim
    obtain ⟨_, _, hlater⟩ := (hr.step hlegal hrun).tracked
    obtain ⟨_, _, -, hs⟩ := hidle.stale hlater (ht.stale_of_givesBack hlive hgives hrun hdone)
    exact ⟨Heap.rejects_of_not hs.not_names, Heap.writePayload_of_not hs.not_names⟩

/-- The upper of two payloads is given back, and then the lower one, so that a single free block is
left in which the pointer of the upper one is no boundary. It is refused at both times. -/
theorem LegalRun.double_release_refused_of_merged :
    ∃ (held held₁ held₂ : Ledger) (h h₁ h₂ : Heap), LegalRun held h ∧ held 64 ≠ none ∧
      (h.perform (.release (some 64))).outcome = .ok (.done (.ok ()), h₁) ∧
      IdleRun held₁ h₁ held₂ h₂ ∧ h₂.blocks.items = [⟨16, .free 192⟩] ∧
      h₁.Rejects 64 ∧ h₂.Rejects 64 := by
  let memory : Memory := .growable ⟨ByteArray.empty, 4096, by decide, by decide⟩
  have heval : ((Heap.setup memory { chunk := 192 }).outcome.toOption.any fun answer =>
      answer.toOption.any fun new =>
        (new.perform (.allocate 30)).outcome.toOption.any fun one =>
          (one.2.perform (.allocate 30)).outcome.toOption.any fun two =>
            (two.2.perform (.release (some 64))).outcome.toOption.any fun three =>
              (three.2.perform (.release (some 16))).outcome.toOption.any fun four =>
                ((Ledger.empty.after one.2 (.allocate 30) one.1).after two.2 (.allocate 30)
                  two.1 64).isSome &&
                (((Ledger.empty.after one.2 (.allocate 30) one.1).after two.2 (.allocate 30)
                  two.1).after three.2 (.release (some 64)) (.done (.ok ())) 16).isSome &&
                decide (four.2.blocks.items = [⟨16, .free 192⟩])) = true := by
    decide +kernel
  obtain ⟨_, hsetup, hanswer⟩ := Fault.ok_of_any heval
  obtain ⟨new, rfl, hnew⟩ := Fault.ok_of_any hanswer
  obtain ⟨one, hone, hrest⟩ := Fault.ok_of_any hnew
  obtain ⟨two, htwo, hrest⟩ := Fault.ok_of_any hrest
  obtain ⟨three, hthree, hrest⟩ := Fault.ok_of_any hrest
  obtain ⟨four, hfour, hrest⟩ := Fault.ok_of_any hrest
  obtain ⟨hlive, hblocks⟩ := Bool.and_eq_true_iff.mp hrest
  obtain ⟨hupper, hlower⟩ := Bool.and_eq_true_iff.mp hlive
  have hupper' := Option.isSome_iff_ne_none.mp hupper
  have hlegal : (Call.release (some 16)).Legal three.2 _ :=
    Or.inl (Option.isSome_iff_ne_none.mp hlower)
  have hr := ((LegalRun.start rfl hsetup).allocate hone).allocate htwo
  obtain ⟨⟨h₁, hgiven⟩, hrefused⟩ := LegalRun.double_release_refused hr hupper'
  obtain rfl : three = (.done (.ok ()), h₁) := Except.ok.inj (hthree.symm.trans hgiven)
  have hidle := IdleRun.release .refl hlegal hfour
  have hrejects (held₂ : Ledger) (h₂ : Heap) :=
    hrefused (.release (some 64)) _ h₁ held₂ h₂ rfl hgiven rfl
  exact ⟨_, _, _, two.2, h₁, four.2, hr, hupper', hgiven, hidle, of_decide_eq_true hblocks,
    (hrejects _ _ .refl).1, (hrejects _ _ hidle).1⟩

end SegregatedFit
