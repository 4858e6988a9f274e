import SegregatedFit.Proofs.Guarantees
import SegregatedFit.Proofs.Restoring

/-!
# A block that was given back is taken again

Apart from next fit, which goes on behind the block that it took last, a policy that is asked the
same again makes the same choice. What has changed since is that the block has become the first
one in its list. That does not help any other block: in the order that a policy goes through, the
block has only moved towards the front.
-/

namespace SegregatedFit

/-- `l'` is `l` with the first occurrence of an element moved towards the front. -/
def Raised {α : Type} (a : α) (l l' : List α) : Prop :=
  ∃ lower mid upper, l = lower ++ (mid ++ a :: upper) ∧ l' = lower ++ a :: (mid ++ upper) ∧
    a ∉ lower ++ mid

namespace Raised

variable {α : Type} {a : α} {l l' : List α}

/-- Any element may stay where it is. -/
theorem of_mem (h : a ∈ l) : Raised a l l := by
  obtain ⟨lower, upper, rfl, hnot⟩ := List.eq_append_cons_of_mem h
  exact ⟨lower, [], upper, rfl, rfl, by simpa using hnot⟩

private theorem filter {p : α → Bool} (h : Raised a l l') (hp : p a = true) :
    Raised a (l.filter p) (l'.filter p) := by
  obtain ⟨lower, mid, upper, rfl, rfl, hnot⟩ := h
  refine ⟨lower.filter p, mid.filter p, upper.filter p, ?_, ?_, ?_⟩
  · simp [hp]
  · simp [hp]
  · rw [← List.filter_append]
    exact fun hmem => hnot (List.mem_filter.mp hmem).1

/-- What comes first still comes first. -/
theorem head?_eq (h : Raised a l l') (hhead : l.head? = some a) : l'.head? = some a := by
  obtain ⟨lower, mid, upper, rfl, rfl, -⟩ := h
  cases lower with
  | nil => rfl
  | cons c rest => exact hhead

/-- The first of the smallest blocks is still the first of them. -/
theorem smallest?_eq {b : Block} {bs bs' : List Block} (h : Raised b bs bs')
    (hsmallest : smallest? bs = some b) : smallest? bs' = some b := by
  obtain ⟨lower, mid, upper, rfl, rfl, hnot⟩ := h
  obtain ⟨xs, ys, hsplit, hxs, hys⟩ := smallest?_eq_some_iff.mp hsmallest
  have hsame : lower ++ mid = xs ∧ upper = ys := by
    rw [← List.append_assoc, List.append_eq_append_iff] at hsplit
    rcases hsplit with ⟨rest, rfl, hupper⟩ | ⟨rest, hlower, hupper⟩
    · cases rest with
      | nil =>
        obtain ⟨-, rfl⟩ := List.cons.inj hupper
        exact ⟨(List.append_nil _).symm, rfl⟩
      | cons c rest =>
        -- then `b` itself would be in front of the first of the smallest
        obtain ⟨rfl, -⟩ := List.cons.inj hupper
        have hless := hxs b (by simp)
        omega
    · cases rest with
      | nil =>
        obtain ⟨-, rfl⟩ := List.cons.inj hupper
        exact ⟨by simpa using hlower, rfl⟩
      | cons c rest =>
        obtain ⟨rfl, -⟩ := List.cons.inj hupper
        exact absurd (hlower ▸ by simp) hnot
  obtain ⟨rfl, rfl⟩ := hsame
  refine smallest?_eq_some_iff.mpr ⟨lower, mid ++ upper, rfl, fun c hc => ?_, fun c hc => ?_⟩
  · exact hxs c (List.mem_append_left _ hc)
  · rcases List.mem_append.mp hc with hc | hc
    · exact Nat.le_of_lt (hxs c (List.mem_append_right _ hc))
    · exact hys c hc

end Raised

variable {bs : List Block} {b : Block} {f : Filing} {cs : List SizeClass} {policy : Policy}
  {rover need : Nat}

/-- When a listed block is raised, it moves to the front of its class. -/
theorem Filing.Of.raised_blocksOf (hf : f.Of bs) (hnodup : (bs.map Block.start).Nodup)
    (hcs : cs.Nodup) (hb : b ∈ f.blocksOf bs cs) :
    Raised b (f.blocksOf bs cs) ((f.raise b).blocksOf bs cs) := by
  obtain ⟨hmem, hfree, hclass⟩ := (hf.mem_blocksOf_iff hnodup).mp hb
  have hstart : Block.startingAt bs b.start = some b :=
    (Block.startingAt_eq_some_iff hnodup).mpr ⟨hmem, rfl⟩
  have hlisted : b.start ∈ f (.ofSize b.size) := (hf _ _).mpr ⟨b, hmem, hfree, rfl, rfl⟩
  -- Only the list of one class changes. It is split at `b`, and the classes at that one.
  generalize hc : SizeClass.ofSize b.size = c at hclass hlisted
  obtain ⟨lower, upper, rfl⟩ := List.append_of_mem hclass
  obtain ⟨mid, rest, hlist, hfirst⟩ := List.eq_append_cons_of_mem hlisted
  obtain ⟨hother, -⟩ := List.nodup_cons.mp (List.nodup_middle.mp hcs)
  have hraise := Filing.raise_eq hf hnodup hmem
  have hsame {ds : List SizeClass} (hds : c ∉ ds) :
      (f.raise b).blocksOf bs ds = f.blocksOf bs ds := by
    unfold blocksOf
    congr 1
    refine List.flatMap_congr fun d hd => ?_
    have hne : d ≠ c := fun heq => hds (heq ▸ hd)
    rw [hraise, hc, if_neg hne]
  have hbelow : c ∉ lower := fun hmem => hother (List.mem_append_left _ hmem)
  have habove : c ∉ upper := fun hmem => hother (List.mem_append_right _ hmem)
  refine ⟨f.blocksOf bs lower, mid.filterMap (Block.startingAt bs),
    rest.filterMap (Block.startingAt bs) ++ f.blocksOf bs upper, ?_, ?_, ?_⟩
  · rw [blocksOf_append]
    simp [blocksOf, hlist, hstart]
  · rw [blocksOf_append, hsame hbelow]
    have hback := hsame habove
    unfold blocksOf at hback ⊢
    rw [List.flatMap_cons, List.filterMap_append, hback, hraise, hc, if_pos rfl, hlist,
      List.erase_append_right _ hfirst, List.erase_cons_head]
    simp [hstart]
  · rw [List.mem_append, not_or]
    constructor
    · intro hin
      exact hbelow (hc ▸ ((hf.mem_blocksOf_iff hnodup).mp hin).2.2)
    · intro hin
      obtain ⟨x, hx, hbx⟩ := List.mem_filterMap.mp hin
      obtain ⟨-, rfl⟩ := (Block.startingAt_eq_some_iff hnodup).mp hbx
      exact hfirst hx

namespace Policy

/-- Raising a block moves it towards the front of what a policy goes through. -/
theorem order_raised (hpolicy : policy ≠ .nextFit) (hf : f.Of bs)
    (hnodup : (bs.map Block.start).Nodup) (hb : b ∈ policy.order bs f rover need) :
    Raised b (policy.order bs f rover need) (policy.order bs (f.raise b) rover need) := by
  cases policy with
  | segregated =>
    unfold order at hb ⊢
    cases hclass : SizeClass.qualifying? need with
    | some c =>
      rw [hclass] at hb
      exact hf.raised_blocksOf hnodup (SizeClass.nodup_all.sublist (List.drop_sublist _ _)) hb
    | none =>
      rw [hclass] at hb
      exact hf.raised_blocksOf hnodup (List.nodup_singleton _) hb
  | firstFit => exact Raised.of_mem hb
  | bestFit => exact Raised.of_mem hb
  | nextFit => exact absurd rfl hpolicy
  | explicitFirstFit => exact hf.raised_blocksOf hnodup SizeClass.nodup_all hb
  | explicitBestFit => exact hf.raised_blocksOf hnodup SizeClass.nodup_all hb

/-- A block that was chosen is chosen again when it has been raised. -/
theorem choose_raise (hpolicy : policy ≠ .nextFit) (hf : f.Of bs)
    (hnodup : (bs.map Block.start).Nodup) (hb : policy.choose bs f rover need = some b) :
    policy.choose bs (f.raise b) rover need = some b := by
  obtain ⟨hmem, hfree, hfit⟩ := mem_of_choose hf hnodup hb
  have hraised : Raised b (policy.candidates bs f rover need)
      (policy.candidates bs (f.raise b) rover need) :=
    (order_raised hpolicy hf hnodup (mem_order hf hnodup hfree hfit hmem)).filter
      (decide_eq_true hfit)
  unfold choose at hb ⊢
  split
  · next hsmallest =>
    rw [if_pos hsmallest] at hb
    exact hraised.smallest?_eq hb
  · next hfirst =>
    rw [if_neg hfirst] at hb
    exact hraised.head?_eq hb

end Policy

namespace Heap

variable {h h₂ : Heap} {f' : Filing} {request p : Nat} {c : Block} {P : Nat → Prop}

/-- After it was carved and given back, a block is chosen again. -/
theorem Reverts.choice_eq (hr : (h.searched (some b)).Reverts bs b f need P h₂) (hh : h.Holds bs f)
    (hpolicy : h.config.policy ≠ .nextFit) (hchoice : h.choice bs f need = some b) :
    h₂.choice bs (f.raise b) need = some b := by
  have hconfig : h₂.config = h.config := hr.alike.config_eq
  have hrover : h₂.rover = h.rover := by
    rw [hr.rover_eq]
    exact if_neg hpolicy
  rw [choice, hconfig, hrover]
  exact Policy.choose_raise hpolicy hh.filed hh.divided.nodup hchoice

/-- When no free block was large enough before the heap has grown, only the new one can be. -/
theorem Holds.eq_grownFor_of_choice (hh : h.Holds bs f)
    (hh₂ : h₂.Holds (Block.trimEnd bs ++ [h.grownFor bs need]) f') (hconfig : h₂.config = h.config)
    (hnone : h.choice bs f need = none)
    (hchoice : h₂.choice (Block.trimEnd bs ++ [h.grownFor bs need]) f' need = some c) :
    c = h.grownFor bs need := by
  obtain ⟨hmem, hfree, hfit⟩ := Policy.mem_of_choose hh₂.filed hh₂.divided.nodup hchoice
  rw [hconfig] at hfit
  rcases List.mem_append.mp hmem with hold | hnew
  · have hbefore : c ∈ bs := by
      rw [← Block.trimEnd_append bs]
      exact List.mem_append_left _ hold
    exact absurd ⟨c, hbefore, hfree, hfit⟩ (hh.choice_eq_none_iff.mp hnone)
  · exact List.mem_singleton.mp hnew

/-- The new block is large enough for every policy that goes by size alone. -/
theorem Holds.choice_grownFor_ne_none
    (hh₂ : h₂.Holds (Block.trimEnd bs ++ [h.grownFor bs need]) f')
    (hpolicy : h₂.config.policy ≠ .segregated) :
    h₂.choice (Block.trimEnd bs ++ [h.grownFor bs need]) f' need ≠ none := by
  rw [Ne, hh₂.choice_eq_none_iff, not_not]
  refine ⟨_, List.mem_append_right _ (List.mem_singleton_self _), h.isFree_grownFor .., ?_⟩
  rw [Policy.floor_of_ne hpolicy]
  exact h.le_size_grownFor bs need

/-- What a heap has grown by is joined with what it grows by next, and starts where it did. -/
theorem start_grownFor_grownFor (hprologue : h₂.prologue = h.prologue) :
    (h₂.grownFor (Block.trimEnd bs ++ [h.grownFor bs need]) need).start =
      (h.grownFor bs need).start := by
  rw [start_grownFor, start_grownFor, first, first, hprologue,
    Block.trimEnd_concat (h.isFree_grownFor ..)]

/-- A second request for the same finds what the first one left, or grows right behind it. -/
theorem Returns.allocate (hr : h.Returns bs f request p h₂) (hh : h.Holds bs f)
    (hpos : 0 < request) (hpolicy : h.config.policy ≠ .nextFit) :
    ∃ answer h₃, (h₂.allocate request).outcome = .ok (answer, h₃) ∧
      (∀ q, answer = .ok q → q = some p) ∧
      (h.choice bs f (blockSize request) ≠ none ∨ h.config.policy ≠ .segregated →
        answer = .ok (some p) ∧ h₃.arena.size = h₂.arena.size) := by
  cases hr with
  | kept hchoice hreverts =>
    obtain ⟨h₃, hrun, hsize⟩ :=
      hreverts.holds.allocate_of_choice hpos (hreverts.choice_eq hh hpolicy hchoice)
    exact ⟨_, h₃, hrun, fun q hq => (Except.ok.inj hq).symm, fun _ => ⟨rfl, hsize⟩⟩
  | @grown f' h₂ hnone hh₂ halike hsize =>
    cases hchoice : h₂.choice _ f' (blockSize request) with
    | some c =>
      obtain rfl := hh.eq_grownFor_of_choice hh₂ halike.config_eq hnone hchoice
      obtain ⟨h₃, hrun, hsame⟩ := hh₂.allocate_of_choice hpos hchoice
      exact ⟨_, h₃, hrun, fun q hq => (Except.ok.inj hq).symm, fun _ => ⟨rfl, hsame⟩⟩
    | none =>
      have hfound (hor : h.choice bs f (blockSize request) ≠ none ∨
          h.config.policy ≠ .segregated) : False := by
        rcases hor with hsome | hother
        · exact hsome hnone
        · rw [← halike.config_eq] at hother
          exact hh₂.choice_grownFor_ne_none hother hchoice
      rcases Nat.lt_or_ge h₂.room (h₂.growth (blockSize request)) with hroom | hroom
      · obtain ⟨e, hrun⟩ := hh₂.allocate_of_full hpos hchoice hroom
        exact ⟨_, _, hrun, (fun q hq => nomatch hq), fun hor => (hfound hor).elim⟩
      · obtain ⟨h₃, hrun, -⟩ := hh₂.allocate_of_room hpos hchoice hroom
        rw [start_grownFor_grownFor halike.prologue_eq] at hrun
        exact ⟨_, h₃, hrun, fun q hq => (Except.ok.inj hq).symm, fun hor => (hfound hor).elim⟩

end Heap

/-- In a state of a legal run, a pointer that was handed out and given back is handed out again
when the same is asked for, unless the policy is next fit. The second request needs no growth
when the first one needed none, and in no case when the policy is not the segregated one. -/
theorem LegalRun.reuse {held : Ledger} {h h₁ : Heap} {request p : Nat} (hr : LegalRun held h)
    (hpolicy : h.config.policy ≠ .nextFit)
    (hrun : (h.allocate request).outcome = .ok (.ok (some p), h₁)) :
    ∃ h₂ answer h₃, (h₁.release (some p)).outcome = .ok (.ok (), h₂) ∧
      (h₂.allocate request).outcome = .ok (answer, h₃) ∧
      (∀ q, answer = .ok q → q = some p) ∧
      (h₁.arena.size = h.arena.size ∨ h.config.policy ≠ .segregated →
        answer = .ok (some p) ∧ h₃.arena.size = h₂.arena.size) := by
  obtain ⟨bs, f, ht⟩ := hr.tracked
  obtain ⟨hpos, ha⟩ := ht.holds.allocates_of_allocate hrun
  obtain ⟨h₂, hrelease, -, hreturns⟩ := ha.returns ht.holds
  obtain ⟨answer, h₃, hagain, hsame, hkept⟩ := hreturns.allocate ht.holds hpos hpolicy
  refine ⟨h₂, answer, h₃, hrelease, hagain, hsame, fun hor => hkept (hor.imp ?_ id)⟩
  exact (ha.size_eq_iff ht.holds).mp

/-- The first request makes the heap grow, and the second one does not. -/
theorem LegalRun.reuse_of_grown : ∃ held h h₁ h₂ h₃, LegalRun held h ∧
    h.config.policy = .bestFit ∧ (h.allocate 40).outcome = .ok (.ok (some 16), h₁) ∧
    h₁.arena.size ≠ h.arena.size ∧ (h₁.release (some 16)).outcome = .ok (.ok (), h₂) ∧
    (h₂.allocate 40).outcome = .ok (.ok (some 16), h₃) ∧ h₃.arena.size = h₂.arena.size := by
  let memory : Memory := .growable ⟨ByteArray.empty, 4096, by decide, by decide⟩
  let config : Config := { chunk := 48, policy := .bestFit }
  have heval : ((Heap.setup memory config).outcome.toOption.any fun answer =>
      answer.toOption.any fun new =>
        (new.allocate 40).outcome.toOption.any fun answered =>
          answered.1.toOption.any fun found => decide (new.config.policy = .bestFit ∧
            found = some 16 ∧ answered.2.arena.size ≠ new.arena.size)) = true := by
    decide +kernel
  obtain ⟨_, hsetup, hanswer⟩ := Fault.ok_of_any heval
  obtain ⟨new, rfl, hnew⟩ := Fault.ok_of_any hanswer
  obtain ⟨⟨answer, h₁⟩, hrun, hanswered⟩ := Fault.ok_of_any hnew
  obtain ⟨found, hok, hfound⟩ := Fault.ok_of_any hanswered
  obtain ⟨hpolicy, rfl, hsize⟩ := of_decide_eq_true hfound
  obtain rfl : answer = .ok (some 16) := hok
  have hr : LegalRun Ledger.empty new := LegalRun.start rfl hsetup
  have hother : new.config.policy ≠ .nextFit := by simp [hpolicy]
  obtain ⟨h₂, again, h₃, hrelease, hagain, -, hkept⟩ := LegalRun.reuse hr hother hrun
  obtain ⟨rfl, hsame⟩ := hkept (Or.inr (by simp [hpolicy]))
  exact ⟨_, new, h₁, h₂, h₃, hr, hpolicy, hrun, hsize, hrelease, hagain, hsame⟩

end SegregatedFit
