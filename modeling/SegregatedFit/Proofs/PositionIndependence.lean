import SegregatedFit.Proofs.ExactPointers
import SegregatedFit.Proofs.Histories
import SegregatedFit.Proofs.ShiftedCalls
import SegregatedFit.Proofs.SoundAudits

/-!
# A heap may begin anywhere

A heap only computes with offsets that it counted from its own prologue. So a heap behind bytes
that were granted to somebody else does the same as one in memory of its own, with every offset
further up by the length of those bytes, and it never touches them. What this needs is that the
caller keeps to what it holds, because a foreign offset may be refused in the one place and name
foreign bytes in the other.
-/

namespace SegregatedFit

variable {k : Nat} {past : Nat → UInt8}

/-- The same finding further up. -/
def Violation.shift (k : Nat) : Violation → Violation
  | badPrologue offset => badPrologue (offset + k)
  | badEpilogue offset => badEpilogue (offset + k)
  | tagMismatch offset header footer => tagMismatch (offset + k) header footer
  | misaligned offset size => misaligned (offset + k) size
  | outOfBounds offset size => outOfBounds (offset + k) size
  | adjacentFree first second => adjacentFree (first + k) (second + k)
  | unlistedFree offset => unlistedFree (offset + k)
  | allocatedListed bucket offset => allocatedListed bucket (offset + k)
  | selfLink offset => selfLink (offset + k)
  | asymmetricLink offset => asymmetricLink (offset + k)
  | wrongBucket offset size bucket => wrongBucket (offset + k) size bucket
  | listedTwice offset => listedTwice (offset + k)
  | danglingRover offset => danglingRover (offset + k)
  | sizeMismatch accounted granted => sizeMismatch accounted granted

/-- The same call with its offset further up. -/
def Call.shift (k : Nat) : Call → Call
  | allocate request => allocate request
  | release pointer => release (pointer.map (· + k))
  | reallocate pointer request => reallocate (pointer.map (· + k)) request
  | read offset => read (offset + k)
  | write offset position count f => write (offset + k) position count f
  | audit verbose => audit verbose
  | totals => totals

/-- The same reply with its offsets further up. An arena counts the bytes in front of a heap as
its own, and nothing else in the totals does. -/
def Reply.shift (k : Nat) : Reply → Reply
  | pointer answer => pointer (answer.shift k (Option.map (· + k)))
  | done answer => done (answer.shift k id)
  | bytes answer => bytes (answer.shift k id)
  | written answer => written (answer.shift k id)
  | violations found => violations (found.map (Violation.shift k))
  | totals t => totals { t with heapBytes := t.heapBytes + k }

/-- The calls of a sequence are legal one after the other. -/
def Heap.Allows (h : Heap) (held : Ledger) : List Call → Prop
  | [] => True
  | call :: rest => call.Legal h held ∧ ∀ reply h', (h.perform call).outcome = .ok (reply, h') →
      h'.Allows (held.after h' call reply) rest

/-- The second heap shows all of the first one further up: its bytes, its blocks, its buckets in
their order with all their links, its rover, and what it was granted. In front of it the bytes
are as in `past`. -/
structure Heap.Displaced (k : Nat) (past : Nat → UInt8) (h g : Heap) : Prop
    extends h.Shifted k past g where
  blocks_eq : g.blocks = h.blocks.map (Block.shift k)
  walk_eq : ∀ c, g.buckets.walk c = (h.buckets.walk c).map (· + k)

namespace Heap.Shifted

variable {h g : Heap} {bs : List Block} {f : Filing} {held : Ledger}

private theorem displaced (hs : h.Shifted k past g) (hk : k % 16 = 0) (hh : h.Holds bs f) :
    h.Displaced k past g := by
  have hh' := hs.holds hk hh
  refine ⟨hs, ?_, fun c => ?_⟩
  · rw [hh'.blocks_eq, hh.blocks_eq, Walk.map]
  · rw [hh'.files.walk_eq, hh.files.walk_eq, Walk.map]
    rfl

private theorem totals (hs : h.Shifted k past g) (hk : k % 16 = 0) (hh : h.Holds bs f) :
    ∃ t, h.totals = .ok t ∧ g.totals = .ok { t with heapBytes := t.heapBytes + k } := by
  refine ⟨_, hh.totals, ?_⟩
  have hfree := Block.filter_shift (k := k) (p := Block.isFree) (fun _ => rfl) bs
  have hused : Block.inUse (bs.map (Block.shift k)) = (Block.inUse bs).map (Block.shift k) :=
    Block.filter_shift (fun _ => rfl) bs
  rw [(hs.holds hk hh).totals, hs.arena.size_eq, hfree, hused]
  simp

/-- A call has the same reply further up, and leaves the heaps in their places. -/
theorem perform (hs : h.Shifted k past g) (hk : k % 16 = 0) (hh : h.Holds bs f) (call : Call) :
    Follows (Shown k past (Reply.shift k)) (h.perform call).outcome
      (g.perform (call.shift k)).outcome := by
  cases call with
  | allocate request =>
    simp only [Heap.perform, Call.shift, Run.outcome_bind]
    exact (hs.allocate hk hh request).shown fun answer h g hs => .reply hs
  | release pointer =>
    simp only [Heap.perform, Call.shift, Run.outcome_bind]
    exact (hs.release hk pointer).shown fun answer h g hs => .reply hs
  | reallocate pointer request =>
    simp only [Heap.perform, Call.shift, Run.outcome_bind]
    exact (hs.reallocate hk hh pointer request).shown fun answer h g hs => .reply hs
  | read offset =>
    simp only [Heap.perform, Call.shift, Run.outcome_bind, Run.outcome_liftM]
    exact (hs.payload hk offset).bind fun answer _ hanswer => hanswer ▸ .reply hs
  | write offset position count f =>
    simp only [Heap.perform, Call.shift, Run.outcome_bind, Run.outcome_liftM]
    exact (hs.writePayload hk offset position count f).shown fun answer h g hs => .reply hs
  | audit verbose =>
    simp only [Heap.perform, Call.shift, Run.outcome_bind, hh.audit_clean verbose,
      (hs.holds hk hh).audit_clean verbose]
    exact .reply hs
  | totals =>
    obtain ⟨t, ht, ht'⟩ := hs.totals hk hh
    simp only [Heap.perform, Call.shift, Run.outcome_bind, Run.outcome_liftM, ht, ht']
    exact .reply hs

/-- Legal calls one after the other have the same replies further up. -/
theorem performAll (hs : h.Shifted k past g) (hk : k % 16 = 0) (ht : Tracked held h bs f)
    {calls : List Call} (hlegal : h.Allows held calls) :
    ∃ replies h' g', (h.performAll calls).outcome = .ok (replies, h') ∧
      (g.performAll (calls.map (Call.shift k))).outcome = .ok (replies.map (Reply.shift k), g') ∧
      h'.Displaced k past g' := by
  induction calls generalizing h g bs f held with
  | nil => exact ⟨[], h, g, rfl, rfl, hs.displaced hk ht.holds⟩
  | cons call rest ih =>
    obtain ⟨hcall, hrest⟩ := hlegal
    obtain ⟨reply, h₁, bs₁, f₁, hrun, ht₁, -⟩ := ht.step hcall
    obtain ⟨⟨-, g₁⟩, hrun', rfl, hs₁⟩ := hs.perform hk ht.holds call _ hrun
    obtain ⟨replies, h', g', hall, hall', hd⟩ := ih hs₁ ht₁ (hrest reply h₁ hrun)
    refine ⟨reply :: replies, h', g', ?_, ?_, hd⟩
    · simp [Heap.performAll, hrun, hall]
    · simp [Heap.performAll, hrun', hall']

/-- Setting up a heap succeeds further up as well, or is refused for the same reason. -/
theorem setup {m n : Memory} (hm : m.Shifted k past n) (config : Config) :
    Follows (EndAlike (Shifted k past)) (Heap.setup m config).outcome
      (Heap.setup n config).outcome := by
  unfold Heap.setup
  simp only [Run.outcome_bind, Run.outcome_liftM]
  refine .same fun config => ?_
  have hempty : (Arena.ofMemory m).Shifted k past (Arena.ofMemory n) := ⟨hm, rfl⟩
  obtain ⟨answer, a, b, hgrow, hgrow', hab⟩ := hempty.grow granule
  rw [hgrow, hgrow']
  cases answer with
  | error cause => exact .ok (.error _)
  | ok base =>
    simp only [Fault.ok_bind, Except.map, Run.outcome_bind, Run.outcome_liftM]
    rw [Nat.add_right_comm base k granule, Nat.add_right_comm base k wordBytes]
    refine (hab.put base _).bind fun a b hab => (hab.stampEnd _).bind fun a b hab => ?_
    have hnew : Shifted k past ⟨a, .empty, config, base + wordBytes, base + wordBytes⟩
        ⟨b, .empty, config, base + wordBytes + k, base + wordBytes + k⟩ :=
      ⟨hab, .empty, rfl, rfl, rfl, Nat.le_add_left ..⟩
    refine (hnew.extend _).shown fun answer h g hs => ?_
    cases answer with
    | error cause => exact .ok (.error _)
    | ok block =>
      obtain ⟨haudit, haudit'⟩ := hs.selfAudit .setup
      simp only [Except.map, Run.outcome_bind, haudit, haudit']
      exact .ok (.ok hs)

end Heap.Shifted

/-- With a chunk that can be rounded up, setting up a heap succeeds or is refused. -/
theorem Heap.setup_total {memory : Memory} {config : Config} (hmod : memory.size % 16 = 0)
    (hchunk : chunkSize config.chunk < wordLimit) :
    ∃ answer, (setup memory config).outcome = .ok answer := by
  rcases Nat.lt_or_ge (memory.limit - memory.size) (16 + chunkSize config.chunk) with hroom | hroom
  · exact ⟨_, setup_of_lt hmod hchunk hroom⟩
  · obtain ⟨h, hsetup, -⟩ := setup_of_le hmod hchunk hroom
    exact ⟨_, hsetup⟩

namespace Memory

variable {m start : Memory} {config : Config}

/-- Blank memory of which some was granted lies further up than blank memory of its own. -/
theorem Blank.shifted (hm : m.Blank) (hstart : start.Blank) (hlimit : start.limit = m.limit + k) :
    ∃ n, start.extend k = (.ok 0, n) ∧ m.Shifted k n.read n := by
  have hroom : k ≤ start.limit - start.size := by
    have hsize := hstart.size_eq
    omega
  refine ⟨start.grant k hroom, ?_, ?_, ?_, fun j => ?_, fun _ _ => rfl⟩
  · rw [extend, dif_pos hroom, hstart.size_eq]
  · rw [size_grant, hstart.size_eq, hm.size_eq]
  · rw [limit_grant, hlimit]
  · rw [read_grant, hstart.read_eq, hm.read_eq]

/-- Whatever is granted first and whatever the settings are, a heap behind it is set up as in
memory of its own or refused for the same reason, and any legal calls one after the other have the
same replies there with all their offsets further up. After them the one heap shows all of the
other further up, and the bytes in front of it are as they were. -/
theorem position_independent (hm : m.Blank) (hstart : start.Blank) (hk : k % 16 = 0)
    (hlimit : start.limit = m.limit + k) (hchunk : config.chunk ≤ 18446744073709551600) :
    ∃ n answer answer', start.extend k = (.ok 0, n) ∧
      (Heap.setup m config).outcome = .ok answer ∧ (Heap.setup n config).outcome = .ok answer' ∧
      EndAlike (fun h g => ∀ calls, h.Allows Ledger.empty calls → ∃ replies h' g',
        (h.performAll calls).outcome = .ok (replies, h') ∧
        (g.performAll (calls.map (Call.shift k))).outcome =
          .ok (replies.map (Reply.shift k), g') ∧
        h'.Displaced k n.read g') answer answer' := by
  obtain ⟨n, hextend, hshifted⟩ := hm.shifted hstart hlimit
  have hmod : m.size % 16 = 0 := by rw [hm.size_eq]
  obtain ⟨answer, hsetup⟩ := Heap.setup_total hmod (chunkSize_lt hchunk)
  obtain ⟨answer', hsetup', halike⟩ := Heap.Shifted.setup hshifted config answer hsetup
  refine ⟨n, answer, answer', hextend, hsetup, hsetup', ?_⟩
  cases halike with
  | error e => exact .error e
  | ok hs =>
    refine .ok fun calls hlegal => ?_
    obtain ⟨bs, f, ht⟩ := (LegalRun.start hm.size_eq hsetup).tracked
    exact hs.performAll hk ht hlegal

/-- Behind 32 bytes, a block that is at 16 in memory of its own is given back at 48. -/
theorem position_independent_of_granted : ∃ m start n : Memory, ∃ h g h' g', ∃ replies,
    m.Blank ∧ start.Blank ∧ start.limit = m.limit + 32 ∧ start.extend 32 = (.ok 0, n) ∧
    (Heap.setup m { chunk := 96 }).outcome = .ok (.ok h) ∧
    (Heap.setup n { chunk := 96 }).outcome = .ok (.ok g) ∧
    (h.performAll [.allocate 30, .release (some 16)]).outcome = .ok (replies, h') ∧
    (g.performAll [.allocate 30, .release (some 48)]).outcome =
      .ok (replies.map (Reply.shift 32), g') ∧
    h'.Displaced 32 n.read g' := by
  let m : Memory := .growable ⟨ByteArray.empty, 128, Nat.zero_le _, by decide⟩
  let start : Memory := .growable ⟨ByteArray.empty, 160, Nat.zero_le _, by decide⟩
  let config : Config := { chunk := 96 }
  have hm : m.Blank := blank_of_ofLimit (dif_pos (by decide) : ofLimit 128 = _)
  have hstart : start.Blank := blank_of_ofLimit (dif_pos (by decide) : ofLimit 160 = _)
  have heval : ((Heap.setup m config).outcome.toOption.any fun answer =>
      answer.toOption.any fun new =>
        (new.perform (.allocate 30)).outcome.toOption.any fun one =>
          (Ledger.empty.after one.2 (.allocate 30) one.1 16).isSome) = true := by
    decide +kernel
  obtain ⟨_, hsetup, hanswer⟩ := Fault.ok_of_any heval
  obtain ⟨h, rfl, hnew⟩ := Fault.ok_of_any hanswer
  obtain ⟨⟨reply, h₁⟩, hfirst, hheld⟩ := Fault.ok_of_any hnew
  have hlegal : h.Allows Ledger.empty [.allocate 30, .release (some 16)] := by
    refine ⟨trivial, fun reply' h₁' hrun => ⟨Or.inl ?_, fun _ _ _ => trivial⟩⟩
    rw [hfirst] at hrun
    cases hrun
    exact Option.isSome_iff_ne_none.mp hheld
  obtain ⟨n, answer, answer', hextend, hsame, hsetup', halike⟩ :=
    position_independent (k := 32) hm hstart (by decide) rfl
      (show config.chunk ≤ 18446744073709551600 by decide)
  rw [hsetup] at hsame
  cases hsame
  cases halike with
  | ok hall =>
    obtain ⟨replies, h', g', hrun, hrun', hd⟩ := hall _ hlegal
    exact ⟨m, start, n, h, _, h', g', replies, hm, hstart, rfl, hextend, hsetup, hsetup', hrun,
      hrun', hd⟩

end Memory

end SegregatedFit
