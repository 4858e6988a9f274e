import SegregatedFit.Proofs.Guarantees
import SegregatedFit.Proofs.Restoring

/-!
# Cycles of getting a block and giving it back

A heap that serves the same request again and again stops growing. After it has grown once, the
free block at its end is as large as the need. The segregated policy may still pass it over,
because its class does not guarantee that much. But when the heap grows a second time this block
is joined with the new one, and then it is twice as large as the need, which is enough for every
policy.
-/

namespace SegregatedFit

namespace Heap

variable {h h' g : Heap} {bs : List Block} {f : Filing} {request need k p : Nat}

/-- A block is got for a request and given back. -/
def Cycle (request : Nat) (h h' : Heap) : Prop :=
  ∃ p h₁, (h.allocate request).outcome = .ok (.ok (some p), h₁) ∧
    (h₁.release (some p)).outcome = .ok (.ok (), h')

/-- So many cycles with the same request, one after the other. -/
inductive Cycles (request : Nat) : Nat → Heap → Heap → Prop
  | none {h : Heap} : Cycles request 0 h h
  | next {k : Nat} {h g g' : Heap} : Cycles request k h g → Cycle request g g' →
      Cycles request (k + 1) h g'

/-- What so many cycles make sure of. After one of them a free block is large enough, or there is
one at the end that is as large as the need. After two a free block is large enough. -/
structure Prepared (h : Heap) (bs : List Block) (need k : Nat) : Prop where
  after_one : 0 < k → h.Stocked bs need ∨ ∃ m ∈ Block.below bs, need ≤ m.size
  after_two : 1 < k → h.Stocked bs need

private theorem Stocked.prepared (hs : h.Stocked bs need) (k : Nat) : h.Prepared bs need k :=
  ⟨fun _ => Or.inl hs, fun _ => hs⟩

/-- One cycle is enough for a block that is large enough, and the segregated policy needs two. -/
theorem Prepared.stocked (hp : h.Prepared bs need k)
    (hk : (if h.config.policy = .segregated then 2 else 1) ≤ k) : h.Stocked bs need := by
  by_cases hpolicy : h.config.policy = .segregated
  · rw [if_pos hpolicy] at hk
    exact hp.after_two hk
  · rw [if_neg hpolicy] at hk
    rcases hp.after_one hk with hs | ⟨m, hm, hfit⟩
    · exact hs
    · refine ⟨m, ?_, Block.isFree_of_below hm, ?_⟩
      · rw [← Block.trimEnd_append bs]
        exact List.mem_append_right _ (Option.mem_toList.mpr hm)
      · rwa [Policy.floor_of_ne hpolicy]

/-- Each cycle prepares the heap further. -/
theorem Returns.prepared (hr : h.Returns bs f request p h') (hh : h.Holds bs f)
    (hp : h.Prepared bs (blockSize request) k) :
    ∃ bs' f', h'.Holds bs' f' ∧ h'.config = h.config ∧
      h'.Prepared bs' (blockSize request) (k + 1) := by
  cases hr with
  | kept hchoice hreverts =>
    have hconfig : h'.config = h.config := hreverts.alike.config_eq
    refine ⟨bs, _, hreverts.holds, hconfig, Stocked.prepared ?_ _⟩
    rw [Stocked, hconfig]
    exact hh.stocked_of_choice hchoice
  | grown hnone hh' halike _ =>
    refine ⟨_, _, hh', halike.config_eq, fun _ => Or.inr ?_, fun hk => ?_⟩
    · exact ⟨_, Block.below_concat (h.isFree_grownFor ..), h.le_size_grownFor ..⟩
    · -- the block that was at the end is as large as the need, and now the growth is joined to it
      obtain ⟨-, -, hlarge⟩ := blockSize_spec request
      obtain ⟨m, hm, hfit⟩ :=
        (hp.after_one (by omega)).resolve_left (hh.choice_eq_none_iff.mp hnone)
      have hdouble : h'.config.policy.floor (blockSize request) ≤ 2 * blockSize request :=
        Policy.floor_le_double (by omega)
      have hle := h.le_growth (blockSize request)
      have hsize := h.size_grownFor bs (blockSize request)
      rw [hm, Option.toList_some, Block.totalSize_cons, Block.totalSize_nil] at hsize
      exact ⟨_, List.mem_append_right _ (List.mem_singleton_self _), h.isFree_grownFor .., by omega⟩

/-- So many cycles prepare a heap so far. -/
theorem Cycles.prepared (hc : Cycles request k h g) (hh : h.Holds bs f) :
    ∃ bs' f', g.Holds bs' f' ∧ g.config = h.config ∧ g.Prepared bs' (blockSize request) k := by
  induction hc with
  | none => exact ⟨bs, f, hh, rfl, fun hk => by omega, fun hk => by omega⟩
  | next _ hcycle ih =>
    obtain ⟨bs₁, f₁, hh₁, hconfig, hp⟩ := ih hh
    obtain ⟨p, h₁, hrun, hrelease⟩ := hcycle
    obtain ⟨-, ha⟩ := hh₁.allocates_of_allocate hrun
    obtain ⟨h₂, hanswer, -, hreturns⟩ := ha.returns hh₁
    rw [hrelease] at hanswer
    cases hanswer
    obtain ⟨bs₂, f₂, hh₂, hsame, hp₂⟩ := hreturns.prepared hh₁ hp
    exact ⟨bs₂, f₂, hh₂, hsame.trans hconfig, hp₂⟩

end Heap

/-- From a state of a legal run on, let some cycles with a request be done. If the next one gets
a block, the block can be given back too. The arena has not grown for it, unless it is the first
cycle, or the second one and the policy is the segregated one, and then it has grown once. After
these cycles the next one always gets a block. -/
theorem LegalRun.cycles_settle {held : Ledger} {h g : Heap} {request k : Nat}
    (hr : LegalRun held h) (hpos : 0 < request) (hc : Heap.Cycles request k h g) :
    (∀ p g₁, (g.allocate request).outcome = .ok (.ok (some p), g₁) →
      ∃ g', (g₁.release (some p)).outcome = .ok (.ok (), g') ∧ g'.arena.size = g₁.arena.size ∧
        (g₁.arena.size ≠ g.arena.size →
          k < (if h.config.policy = .segregated then 2 else 1) ∧
          g₁.arena.size = g.arena.size + max (blockSize request) h.config.chunk)) ∧
    ((if h.config.policy = .segregated then 2 else 1) ≤ k →
      ∃ p g₁, (g.allocate request).outcome = .ok (.ok (some p), g₁)) := by
  obtain ⟨bs, f, ht⟩ := hr.tracked
  obtain ⟨bs₁, f₁, hh, hconfig, hp⟩ := hc.prepared ht.holds
  rw [← hconfig]
  constructor
  · intro p g₁ hrun
    obtain ⟨-, ha⟩ := hh.allocates_of_allocate hrun
    obtain ⟨g', hrelease, hsize, hreturns⟩ := ha.returns hh
    refine ⟨g', hrelease, hsize, fun hgrown => ?_⟩
    cases hreturns with
    | kept hchoice => exact absurd ((ha.size_eq_iff hh).mpr (by simp [hchoice])) hgrown
    | grown hnone _ _ hlonger =>
      refine ⟨Nat.lt_of_not_le fun hk => ?_, hsize.symm.trans hlonger⟩
      exact hh.choice_eq_none_iff.mp hnone (hp.stocked hk)
  · intro hk
    cases hchoice : g.choice bs₁ f₁ (blockSize request) with
    | none => exact absurd (hp.stocked hk) (hh.choice_eq_none_iff.mp hchoice)
    | some b =>
      obtain ⟨g₁, hrun, -⟩ := hh.allocate_of_choice hpos hchoice
      exact ⟨_, g₁, hrun⟩

/-- With the segregated policy the second cycle may still make the arena grow. -/
theorem LegalRun.cycles_settle_of_two : ∃ held h g g₁ g', LegalRun held h ∧
    h.config.policy = .segregated ∧ Heap.Cycles 80 1 h g ∧
    (g.allocate 80).outcome = .ok (.ok (some 16), g₁) ∧ g₁.arena.size ≠ g.arena.size ∧
    (g₁.release (some 16)).outcome = .ok (.ok (), g') ∧
    g₁.arena.size = g.arena.size + max (blockSize 80) h.config.chunk := by
  let memory : Memory := .growable ⟨ByteArray.empty, 4096, by decide, by decide⟩
  let config : Config := { chunk := 48, policy := .segregated }
  have heval : ((Heap.setup memory config).outcome.toOption.any fun answer =>
      answer.toOption.any fun new =>
        (new.allocate 80).outcome.toOption.any fun first =>
          first.1.toOption.any fun found =>
            (first.2.release found).outcome.toOption.any fun freed =>
              freed.1.toOption.any fun _ =>
                (freed.2.allocate 80).outcome.toOption.any fun second =>
                  second.1.toOption.any fun again =>
                    decide (new.config.policy = .segregated ∧ found = some 16 ∧
                      again = some 16 ∧ second.2.arena.size ≠ freed.2.arena.size)) = true := by
    decide +kernel
  obtain ⟨_, hsetup, hanswer⟩ := Fault.ok_of_any heval
  obtain ⟨new, rfl, hnew⟩ := Fault.ok_of_any hanswer
  obtain ⟨⟨_, h₁⟩, hfirst, hone⟩ := Fault.ok_of_any hnew
  obtain ⟨found, rfl, hfound⟩ := Fault.ok_of_any hone
  obtain ⟨⟨_, g⟩, hfreed, hdone⟩ := Fault.ok_of_any hfound
  obtain ⟨⟨⟩, rfl, hagain⟩ := Fault.ok_of_any hdone
  obtain ⟨⟨_, g₁⟩, hsecond, htwo⟩ := Fault.ok_of_any hagain
  obtain ⟨again, rfl, hall⟩ := Fault.ok_of_any htwo
  obtain ⟨hpolicy, rfl, rfl, hsize⟩ := of_decide_eq_true hall
  have hr : LegalRun Ledger.empty new := LegalRun.start rfl hsetup
  have hcycles : Heap.Cycles 80 1 new g := .next .none ⟨16, h₁, hfirst, hfreed⟩
  obtain ⟨g', hrelease, -, hgrowth⟩ :=
    (LegalRun.cycles_settle hr (by decide) hcycles).1 16 g₁ hsecond
  exact ⟨_, new, g, g₁, g', hr, hpolicy, hcycles, hsecond, hsize, hrelease, (hgrowth hsize).2⟩

end SegregatedFit
