import SegregatedFit.Proofs.Guarantees

/-!
# Refusals change nothing

A request is refused because no block can be so large, because an offset is not that of a block
in use, or because memory cannot be had. In each case the heap is afterwards what it was. Only
the rover of the next-fit search has gone around when memory is missing, and is back at the
prologue. This holds of any arguments, also of those that no caller should use, and of any heap,
whatever has become of it.
-/

namespace SegregatedFit

/-- The error that a call was answered with, if it was refused. -/
def Reply.error? : Reply → Option HeapError
  | .pointer (.error e) => some e
  | .done (.error e) => some e
  | .bytes (.error e) => some e
  | .written (.error e) => some e
  | _ => none

variable {held : Ledger} {h h' : Heap} {bs : List Block} {f : Filing} {e : HeapError}
  {request : Nat} {pointer : Option Nat} {call : Call} {reply : Reply}

private theorem Reply.error?_pointer {answer : Answer (Option Nat)} :
    (Reply.pointer answer).error? = some e ↔ answer = .error e := by
  cases answer <;> simp [error?]

private theorem Reply.error?_done {answer : Answer Unit} :
    (Reply.done answer).error? = some e ↔ answer = .error e := by
  cases answer <;> simp [error?]

/-- An arena that cannot grow stays as it is. -/
theorem Arena.eq_of_grow_error {a a' : Arena} {amount : Nat} {cause : GrowthError}
    (hrun : (a.grow amount).outcome = .ok (.error cause, a')) : a' = a := by
  by_cases hmod : amount % granule = 0
  · rcases Nat.lt_or_ge (a.memory.limit - a.memory.size) amount with hroom | hroom
    · rw [grow_of_lt hmod hroom] at hrun
      cases hrun
      rfl
    · rw [grow_of_le hmod hroom] at hrun
      cases hrun
  · rw [grow, if_neg hmod] at hrun
    cases hrun
    rfl

namespace Heap

/-- Refusing an offset changes nothing at all. -/
@[simp] theorem refused_invalidPointer (h : Heap) (x : Nat) :
    h.refused (.invalidPointer x) = h := by
  simp [refused, HeapError.isOutOfMemory]

/-- Refusing a request for a block that would be too large changes nothing at all. -/
@[simp] theorem refused_overflow (h : Heap) (request : Nat) :
    h.refused (.overflow request) = h := by
  simp [refused, HeapError.isOutOfMemory]

/-- Only the next-fit search leaves a trace when it finds nothing. -/
theorem search_none {need : Nat} (hrun : (h.search need).outcome = .ok (none, h')) :
    h' = h.searched none := by
  have hsame {x : Except Fault (Option Nat)} (hpolicy : h.config.policy ≠ .nextFit)
      (hx : (x >>= fun found => .ok (found, h)) = .ok (none, h')) : h' = h.searched none := by
    obtain ⟨_, -, hanswer⟩ := Fault.bind_eq_ok_iff.mp hx
    cases hanswer
    rw [searched, if_neg hpolicy]
  unfold Heap.search at hrun
  cases hpolicy : h.config.policy with
  | nextFit =>
    simp only [hpolicy, nextFit, Run.outcome_bind, Run.outcome_liftM] at hrun
    obtain ⟨found, -, hanswer⟩ := Fault.bind_eq_ok_iff.mp hrun
    cases found with
    | some block => cases hanswer
    | none =>
      cases hanswer
      rw [searched, if_pos hpolicy]
      rfl
  | _ =>
    simp only [hpolicy, Run.outcome_bind] at hrun
    exact hsame (by simp [hpolicy]) hrun

/-- A heap that cannot grow stays as it is. -/
theorem extend_error {words : Nat} {cause : GrowthError}
    (hrun : (h.extend words).outcome = .ok (.error cause, h')) : h' = h := by
  simp only [Heap.extend, Run.outcome_bind, Run.outcome_liftM] at hrun
  obtain ⟨words, -, hrun⟩ := Fault.bind_eq_ok_iff.mp hrun
  obtain ⟨amount, -, hrun⟩ := Fault.bind_eq_ok_iff.mp hrun
  obtain ⟨⟨answer, a⟩, hgrow, hrun⟩ := Fault.bind_eq_ok_iff.mp hrun
  cases answer with
  | error cause =>
    cases hrun
    rw [Arena.eq_of_grow_error hgrow]
  | ok block =>
    -- behind the growth every ending is a success
    simp only [Run.outcome_bind, Fault.bind_eq_ok_iff] at hrun
    obtain ⟨_, -, _, -, _, -, _, -, _, -, hanswer⟩ := hrun
    cases hanswer

private theorem allocateBlock_error
    (hrun : (h.allocateBlock request).outcome = .ok (.error e, h')) :
    h' = h.refused e := by
  unfold Heap.allocateBlock blockFor at hrun
  split at hrun
  · next hneed =>
    split at hneed
    · cases hneed
    · cases hneed
      cases hrun
      simp [refused, HeapError.isOutOfMemory]
  · simp only [Run.outcome_bind] at hrun
    obtain ⟨⟨found, h₁⟩, hsearch, hrun⟩ := Fault.bind_eq_ok_iff.mp hrun
    cases found with
    | some block =>
      simp only [Run.outcome_bind, Fault.bind_eq_ok_iff] at hrun
      obtain ⟨_, -, hanswer⟩ := hrun
      cases hanswer
    | none =>
      simp only [Run.outcome_bind] at hrun
      obtain ⟨⟨answer, h₂⟩, hextend, hrun⟩ := Fault.bind_eq_ok_iff.mp hrun
      cases answer with
      | ok block =>
        simp only [Run.outcome_bind, Fault.bind_eq_ok_iff] at hrun
        obtain ⟨_, -, hanswer⟩ := hrun
        cases hanswer
      | error cause =>
        cases hrun
        rw [extend_error hextend, search_none hsearch]
        simp [refused, searched, HeapError.isOutOfMemory]

private theorem allocate_error (hrun : (h.allocate request).outcome = .ok (.error e, h')) :
    h' = h.refused e := by
  unfold Heap.allocate at hrun
  split at hrun
  · cases hrun
  · rw [Run.outcome_bind] at hrun
    obtain ⟨⟨answer, h₁⟩, hblock, hrun⟩ := Fault.bind_eq_ok_iff.mp hrun
    cases answer with
    | error e =>
      cases hrun
      exact allocateBlock_error hblock
    | ok block =>
      rw [Run.outcome_bind] at hrun
      obtain ⟨_, -, hanswer⟩ := Fault.bind_eq_ok_iff.mp hrun
      cases hanswer

/-- What is given back is only refused by the test of its offset. -/
theorem release_error (hrun : (h.release pointer).outcome = .ok (.error e, h')) :
    h' = h.refused e := by
  cases pointer with
  | none => cases hrun
  | some x =>
    by_cases hn : h.Names x
    · -- behind the test every ending is a success
      simp only [Heap.release, Run.outcome_bind, Run.outcome_liftM, hn.resolve, Fault.ok_bind,
        Run.outcome_pure, Fault.bind_eq_ok_iff] at hrun
      obtain ⟨_, -, _, -, hanswer⟩ := hrun
      cases hanswer
    · rw [release_of_not hn] at hrun
      cases hrun
      exact (h.refused_invalidPointer x).symm

/-- A payload is moved only after its new block was found, so a refusal comes before that. -/
theorem reallocate_error (hrun : (h.reallocate pointer request).outcome = .ok (.error e, h')) :
    h' = h.refused e := by
  cases pointer with
  | none => exact allocate_error hrun
  | some x =>
    by_cases hzero : request = 0
    · subst hzero
      rw [reallocate_zero] at hrun
      cases hrelease : (h.release (some x)).outcome with
      | error fault =>
        rw [hrelease] at hrun
        cases hrun
      | ok released =>
        obtain ⟨answer, h₁⟩ := released
        rw [hrelease] at hrun
        cases answer with
        | error e₁ =>
          cases hrun
          exact release_error hrelease
        | ok done => cases hrun
    · by_cases hn : h.Names x
      · simp only [Heap.reallocate, if_neg hzero, Run.outcome_bind, Run.outcome_liftM, hn.resolve,
          Fault.ok_bind, Fault.bind_eq_ok_iff] at hrun
        obtain ⟨room, -, ⟨answer, h₁⟩, hallocate, hrun⟩ := hrun
        cases answer with
        | ok target =>
          simp only [Run.outcome_bind, Fault.bind_eq_ok_iff] at hrun
          obtain ⟨_, -, _, -, _, -, _, -, hanswer⟩ := hrun
          cases hanswer
        | error e₁ =>
          cases hrun
          exact allocateBlock_error hallocate
      · rw [reallocate_of_not hn] at hrun
        cases hrun
        exact (h.refused_invalidPointer x).symm

/-- Every call that is answered with an error leaves the heap as a refusal does. -/
theorem perform_error (hrun : (h.perform call).outcome = .ok (reply, h'))
    (herror : reply.error? = some e) : h' = h.refused e := by
  cases performs_of_outcome hrun with
  | allocate hanswer =>
    obtain rfl := Reply.error?_pointer.mp herror
    exact allocate_error hanswer
  | release hanswer =>
    obtain rfl := Reply.error?_done.mp herror
    exact release_error hanswer
  | reallocate hanswer =>
    obtain rfl := Reply.error?_pointer.mp herror
    exact reallocate_error hanswer
  | @read x answer hanswer =>
    by_cases hn : h.Names x
    · rw [hn.payload] at hanswer
      cases hanswer
      cases herror
    · rw [payload_of_not hn] at hanswer
      cases hanswer
      cases herror
      exact (h.refused_invalidPointer x).symm
  | @write x position count g answer _ hanswer =>
    by_cases hn : h.Names x
    · obtain ⟨a, written, hwrite, -⟩ := hn.writePayload position count g
      rw [hwrite] at hanswer
      cases hanswer
      cases herror
    · rw [writePayload_of_not hn] at hanswer
      cases hanswer
      cases herror
      exact (h.refused_invalidPointer x).symm
  | audit => cases herror
  | totals => cases herror

end Heap

/-- An error enters nothing into the ledger and strikes nothing out. -/
theorem Ledger.after_of_error (herror : reply.error? = some e) :
    held.after h call reply = held := by
  unfold after
  split <;> first | rfl | cases herror

/-- In a state of a legal run, a call with any arguments that is answered with an error leaves
everything as it was: bytes, length, granted count, links, buckets, prologue and settings. So
does it the rover, unless memory was missing under the next-fit policy, and then the rover is at
the prologue. All that was live is live, with all its bytes. -/
theorem LegalRun.error_atomic (hr : LegalRun held h)
    (hrun : (h.perform call).outcome = .ok (reply, h')) (herror : reply.error? = some e) :
    h' = { h with rover :=
        if h.config.policy = .nextFit ∧ e.isOutOfMemory then h.prologue else h.rover } ∧
      held.after h' call reply = held ∧
      ∀ p bytes, held p = some bytes → h'.payload p = .ok (.ok bytes) := by
  obtain ⟨bs, f, ht⟩ := hr.tracked
  have hrefused := Heap.perform_error hrun herror
  subst hrefused
  exact ⟨rfl, Ledger.after_of_error herror, fun p bytes => (ht.refused e).payload_of_live⟩

/-- A payload that cannot be moved for lack of memory, after the next-fit search has left the
rover at its block. -/
theorem LegalRun.error_atomic_of_exhausted : ∃ held h h' reply e bytes, LegalRun held h ∧
    (h.perform (.reallocate (some 16) 5000)).outcome = .ok (reply, h') ∧
    reply.error? = some e ∧ e.isOutOfMemory = true ∧ h.rover = 16 ∧ h.prologue = 8 ∧
    h' = { h with rover := h.prologue } ∧ h'.payload 16 = .ok (.ok bytes) := by
  let memory : Memory := .growable ⟨ByteArray.empty, 4096, by decide, by decide⟩
  let config : Config := { chunk := 96, policy := .nextFit }
  have heval : ((Heap.setup memory config).outcome.toOption.any fun answer =>
      answer.toOption.any fun new =>
        (new.perform (.allocate 30)).outcome.toOption.any fun answered =>
          (Ledger.empty.after answered.2 (.allocate 30) answered.1 16).isSome &&
            (answered.2.perform (.reallocate (some 16) 5000)).outcome.toOption.any fun failed =>
              failed.1.error?.any HeapError.isOutOfMemory &&
                decide (answered.2.rover = 16 ∧ answered.2.prologue = 8 ∧
                  answered.2.config.policy = .nextFit)) = true := by
    decide +kernel
  obtain ⟨_, hsetup, hanswer⟩ := Fault.ok_of_any heval
  obtain ⟨new, rfl, hnew⟩ := Fault.ok_of_any hanswer
  obtain ⟨answered, hallocate, hanswered⟩ := Fault.ok_of_any hnew
  obtain ⟨hlive, hfails⟩ := Bool.and_eq_true_iff.mp hanswered
  obtain ⟨failed, hreallocate, hfailed⟩ := Fault.ok_of_any hfails
  obtain ⟨hexhausted, hstate⟩ := Bool.and_eq_true_iff.mp hfailed
  obtain ⟨hrover, hprologue, hpolicy⟩ := of_decide_eq_true hstate
  obtain ⟨e, herror, hmemory⟩ := (Option.any_eq_true _ _).mp hexhausted
  have hrun : LegalRun _ answered.2 :=
    (LegalRun.start rfl hsetup).allocate hallocate
  obtain ⟨bytes, hbytes⟩ := Option.isSome_iff_exists.mp hlive
  obtain ⟨hsame, -, hpayload⟩ := LegalRun.error_atomic hrun hreallocate herror
  rw [if_pos ⟨hpolicy, hmemory⟩] at hsame
  exact ⟨_, answered.2, failed.2, failed.1, e, bytes, hrun, hreallocate, herror, hmemory, hrover,
    hprologue, hsame, hpayload 16 bytes hbytes⟩

end SegregatedFit
