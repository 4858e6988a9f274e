import SegregatedFit.Proofs.Guarantees
import SegregatedFit.Proofs.SoundAudits
import SegregatedFit.Proofs.Telling

/-!
# Heaps that audit themselves stay quiet

What a heap tells is kept in its runs. An operation raises an alarm only in the audit at its
end, and that audits the heap that it leaves behind. In a legal run this heap is in good order,
so that no alarm is ever told, whatever the caller writes into its payloads.
-/

namespace SegregatedFit

/-- The events whose message is that something is broken. -/
def Event.IsAlarm (e : Event) : Prop :=
  e.message = "heap invariant violated" ∨ e.message = "heap consistency check failed"

private theorem Event.IsAlarm.not_mem_colon {e : Event} (he : e.IsAlarm) :
    ':' ∉ e.message.toList := by
  rcases he with he | he
  · rw [he]
    decide
  · rw [he]
    decide

/-- The line of a block in a verbose audit has a colon, which no alarm has. -/
theorem Event.not_isAlarm_auditBlock (block : Nat) (header footer : Tag) :
    ¬ (auditBlock block header footer).IsAlarm := by
  intro halarm
  apply halarm.not_mem_colon
  have hword : ':' ∈ (toString ": header: ").toList := by decide
  simp [message, hword]

private theorem Event.IsAlarm.level_eq {e : Event} (he : e.IsAlarm) : e.level = .warn := by
  cases e with
  | auditBlock block header footer =>
    exact absurd he (Event.not_isAlarm_auditBlock block header footer)
  | _ => simp [IsAlarm, message, level] at he ⊢

/-- Nothing that a computation told is an alarm. -/
def Run.Quiet {α : Type} (r : Run α) : Prop := ∀ e ∈ r.events, ¬ e.IsAlarm

namespace Run

variable {α β : Type}

/-- A computation that only gives a value raises no alarm. -/
@[simp] theorem quiet_pure (a : α) : (pure a : Run α).Quiet := tells_pure a

/-- A step that can only fail or answer raises no alarm. -/
@[simp] theorem quiet_liftM (x : Except Fault α) : (liftM x : Run α).Quiet := tells_liftM x

/-- Telling one event is quiet unless the event is an alarm. -/
@[simp] theorem quiet_tell {e : Event} : (tell e).Quiet ↔ ¬ e.IsAlarm := tells_tell

/-- The steps of an operation are no alarms. -/
theorem Traces.quiet {r : Run α} (h : r.Traces) : r.Quiet := by
  refine Tells.mono h fun e he halarm => ?_
  rw [halarm.level_eq] at he
  cases he

private theorem quiet_bind_iff {r : Run α} {f : α → Run β} :
    (r >>= f).Quiet ↔ r.Quiet ∧ ∀ a, r.outcome = .ok a → (f a).Quiet :=
  tells_bind_iff

/-- What becomes of the answer does not change whether a computation is quiet. -/
@[simp] theorem quiet_map {f : α → β} {r : Run α} : (f <$> r).Quiet ↔ r.Quiet := tells_map

private theorem quiet_foldlM {f : β → α → Run β} (hf : ∀ b a, (f b a).Quiet) (as : List α) (b : β) :
    (as.foldlM f b).Quiet :=
  tells_foldlM hf as b

/-- When the value of two runs in sequence is known, the second need only be quiet where it
leads to that value. -/
theorem Quiet.bind {r : Run α} {f : α → Run β} {b : β} (hb : (r >>= f).outcome = .ok b)
    (hr : r.Quiet) (hf : ∀ a, r.outcome = .ok a → (f a).outcome = .ok b → (f a).Quiet) :
    (r >>= f).Quiet := by
  rw [outcome_bind] at hb
  obtain ⟨a, ha, hb⟩ := Fault.bind_eq_ok_iff.mp hb
  refine quiet_bind_iff.mpr ⟨hr, fun a' ha' => ?_⟩
  rw [ha] at ha'
  cases ha'
  exact hf a ha hb

end Run

namespace Arena

private theorem quiet_grow (a : Arena) (amount : Nat) : (a.grow amount).Quiet := by
  unfold grow
  split
  · dsimp only
    split
    · simp [Event.IsAlarm, Event.message]
    · simp
  · simp

end Arena

namespace Heap

private theorem quiet_extend (h : Heap) (words : Nat) : (h.extend words).Quiet := by
  unfold extend
  simp only [Run.quiet_bind_iff, Run.quiet_liftM, true_and]
  intro words _ size _
  refine ⟨h.arena.quiet_grow size, fun grown _ => ?_⟩
  split
  · simp
  · simp [Run.quiet_bind_iff, (traces_coalesce _ _).quiet]

private theorem quiet_allocateBlock (h : Heap) (request : Nat) :
    (h.allocateBlock request).Quiet := by
  unfold allocateBlock
  split
  · simp
  · refine Run.quiet_bind_iff.mpr ⟨(h.traces_search _).quiet, fun found _ => ?_⟩
    split
    · simp [(traces_carve _ _ _).quiet]
    · refine Run.quiet_bind_iff.mpr ⟨quiet_extend _ _, fun grown _ => ?_⟩
      split <;> simp [(traces_carve _ _ _).quiet, Event.IsAlarm, Event.message]

/-- What a verbose audit tells about its scan is no alarm. -/
theorem quiet_scanEvents (h : Heap) (scan : Scan) : ∀ e ∈ h.scanEvents scan, ¬ e.IsAlarm := by
  intro e he halarm
  unfold scanEvents at he
  rcases List.mem_append.mp he with he | he
  · rcases List.mem_cons.mp he with rfl | he
    · simp [Event.IsAlarm, Event.message] at halarm
    · obtain ⟨s, -, rfl⟩ := List.mem_map.mp he
      exact Event.not_isAlarm_auditBlock _ _ _ halarm
  · split at he
    · rw [List.mem_singleton.mp he] at halarm
      simp [Event.IsAlarm, Event.message] at halarm
    · cases he

/-- Audits of the heap find nothing. -/
def Clean (h : Heap) : Prop := ∀ verbose, (h.audit verbose).outcome = .ok []

variable {h h' : Heap}

/-- An audit that finds nothing raises no alarm. -/
theorem Clean.quiet_audit (hc : h.Clean) (verbose : Bool) : (h.audit verbose).Quiet := by
  have hclean := hc verbose
  unfold audit at hclean ⊢
  apply Run.Quiet.bind hclean (Run.quiet_liftM _)
  intro prologueAt _ hclean
  apply Run.Quiet.bind hclean (Run.quiet_liftM _)
  intro scan _ hclean
  apply Run.Quiet.bind hclean (Run.quiet_foldlM (fun _ _ => Run.quiet_liftM _) _ _)
  intro accounted _ hclean
  have hreport {found : List Violation}
      (hfound : (Run.tellAll (found.map .violated) >>= fun _ => pure found).outcome = .ok []) :
      (Run.tellAll (found.map .violated) >>= fun _ => (pure found : Run _)).Quiet := by
    cases hfound
    exact List.forall_mem_nil _
  cases verbose with
  | false => exact hreport hclean
  | true =>
    apply Run.Quiet.bind hclean (h.quiet_scanEvents scan)
    intro _ _ hclean
    exact hreport hclean

/-- The audit after an operation that left a clean heap raises no alarm. -/
theorem Clean.quiet_selfAudit (hc : h.Clean) (occasion : Occasion) :
    (h.selfAudit occasion).Quiet := by
  unfold selfAudit
  split
  · refine Run.quiet_bind_iff.mpr ⟨hc.quiet_audit false, fun found hfound => ?_⟩
    rw [hc false] at hfound
    cases hfound
    exact Run.quiet_pure _
  · exact Run.quiet_pure _

/-- An operation that ends with the audit of its heap raises no alarm, if that heap is clean. -/
theorem Clean.quiet_ending {α : Type} {a b : α} {h₁ : Heap} {occasion : Occasion} (hc : h'.Clean)
    (hrun : (h₁.selfAudit occasion >>= fun _ => pure (a, h₁)).outcome = .ok (b, h')) :
    (h₁.selfAudit occasion >>= fun _ => (pure (a, h₁) : Run _)).Quiet := by
  rw [Run.outcome_bind] at hrun
  obtain ⟨-, -, hrun⟩ := Fault.bind_eq_ok_iff.mp hrun
  cases hrun
  exact Run.quiet_bind_iff.mpr ⟨hc.quiet_selfAudit occasion, fun _ _ => Run.quiet_pure _⟩

/-- What is done with the answer of an operation raises no alarm. -/
theorem quiet_answer {α β : Type} {r : Run (α × Heap)} {answer : α → β} {b : β}
    (hr : ∀ a, r.outcome = .ok (a, h') → r.Quiet)
    (hrun : (r >>= fun a => pure (answer a.1, a.2)).outcome = .ok (b, h')) :
    (r >>= fun a => (pure (answer a.1, a.2) : Run _)).Quiet := by
  rw [Run.outcome_bind] at hrun
  obtain ⟨⟨a, h₁⟩, ha, hrun⟩ := Fault.bind_eq_ok_iff.mp hrun
  cases hrun
  exact Run.quiet_bind_iff.mpr ⟨hr a ha, fun _ _ => Run.quiet_pure _⟩

private theorem Clean.quiet_allocate {request : Nat} {answer : Answer (Option Nat)} (hc : h'.Clean)
    (hrun : (h.allocate request).outcome = .ok (answer, h')) : (h.allocate request).Quiet := by
  unfold allocate at hrun ⊢
  split at hrun
  · next hzero =>
    rw [if_pos hzero]
    exact Run.quiet_pure _
  · next hzero =>
    rw [if_neg hzero]
    apply Run.Quiet.bind hrun (h.quiet_allocateBlock request)
    intro allocated _ hrun
    split at hrun
    · exact Run.quiet_pure _
    · exact hc.quiet_ending hrun

private theorem Clean.quiet_release {pointer : Option Nat} {answer : Answer Unit} (hc : h'.Clean)
    (hrun : (h.release pointer).outcome = .ok (answer, h')) : (h.release pointer).Quiet := by
  cases pointer with
  | none => exact Run.quiet_pure _
  | some offset =>
    unfold release at hrun ⊢
    apply Run.Quiet.bind hrun (Run.quiet_liftM _)
    intro resolved _ hrun
    cases resolved with
    | error e => exact Run.quiet_pure _
    | ok b =>
      apply Run.Quiet.bind hrun (h.traces_releaseBlock offset).quiet
      intro h₁ _ hrun
      exact hc.quiet_ending hrun

private theorem Clean.quiet_reallocate {pointer : Option Nat} {request : Nat}
    {answer : Answer (Option Nat)} (hc : h'.Clean)
    (hrun : (h.reallocate pointer request).outcome = .ok (answer, h')) :
    (h.reallocate pointer request).Quiet := by
  cases pointer with
  | none => exact hc.quiet_allocate hrun
  | some source =>
    unfold reallocate at hrun ⊢
    dsimp only at hrun ⊢
    split at hrun
    · next hzero =>
      rw [if_pos hzero]
      exact quiet_answer (fun _ hrelease => hc.quiet_release hrelease) hrun
    · next hzero =>
      rw [if_neg hzero]
      apply Run.Quiet.bind hrun (Run.quiet_liftM _)
      intro resolved _ hrun
      cases resolved with
      | error e => exact Run.quiet_pure _
      | ok b =>
        apply Run.Quiet.bind hrun (Run.quiet_liftM _)
        intro room _ hrun
        apply Run.Quiet.bind hrun (h.quiet_allocateBlock request)
        intro allocated _ hrun
        split at hrun
        · exact Run.quiet_pure _
        · apply Run.Quiet.bind hrun (Run.quiet_liftM _)
          intro arena _ hrun
          apply Run.Quiet.bind hrun (traces_releaseBlock _ source).quiet
          intro h₁ _ hrun
          apply Run.Quiet.bind hrun (by simp [Event.IsAlarm, Event.message])
          intro _ _ hrun
          exact hc.quiet_ending hrun

/-- A call that leaves a clean heap raises no alarm. -/
theorem Clean.quiet_perform {call : Call} {reply : Reply} (hc : h'.Clean)
    (hrun : (h.perform call).outcome = .ok (reply, h')) : (h.perform call).Quiet := by
  cases call with
  | allocate request => exact quiet_answer (fun _ hanswer => hc.quiet_allocate hanswer) hrun
  | release pointer => exact quiet_answer (fun _ hanswer => hc.quiet_release hanswer) hrun
  | reallocate pointer request =>
    exact quiet_answer (fun _ hanswer => hc.quiet_reallocate hanswer) hrun
  | read offset => simp [perform]
  | write offset position count g => simp [perform]
  | audit verbose =>
    rw [perform, Run.outcome_bind] at hrun
    obtain ⟨found, -, hrun⟩ := Fault.bind_eq_ok_iff.mp hrun
    cases hrun
    exact Run.quiet_bind_iff.mpr ⟨hc.quiet_audit verbose, fun _ _ => Run.quiet_pure _⟩
  | totals => simp [perform]

/-- Setting up a clean heap raises no alarm. -/
theorem Clean.quiet_setup {memory : Memory} {config : Config} (hc : h.Clean)
    (hrun : (setup memory config).outcome = .ok (.ok h)) : (setup memory config).Quiet := by
  unfold setup at hrun ⊢
  apply Run.Quiet.bind hrun (Run.quiet_liftM _)
  intro config _ hrun
  apply Run.Quiet.bind hrun (Arena.quiet_grow _ _)
  intro grown _ hrun
  split at hrun
  · exact Run.quiet_pure _
  · apply Run.Quiet.bind hrun (Run.quiet_liftM _)
    intro arena _ hrun
    apply Run.Quiet.bind hrun (Run.quiet_liftM _)
    intro arena _ hrun
    apply Run.Quiet.bind hrun (quiet_extend _ _)
    intro extended _ hrun
    split at hrun
    · exact Run.quiet_pure _
    · next h₁ =>
      apply Run.Quiet.bind hrun (by simp [Event.IsAlarm, Event.message])
      intro _ _ hrun
      rw [Run.outcome_bind] at hrun
      obtain ⟨-, -, hrun⟩ := Fault.bind_eq_ok_iff.mp hrun
      cases hrun
      exact Run.quiet_bind_iff.mpr ⟨hc.quiet_selfAudit .setup, fun _ _ => Run.quiet_pure _⟩

end Heap

/-- A legal run, with all that was told in it. -/
inductive LegalTranscript : List Event → Ledger → Heap → Prop
  /-- Setting up the heap. -/
  | start {memory : Memory} {config : Config} {h : Heap} : memory.size = 0 →
    (Heap.setup memory config).outcome = .ok (.ok h) →
    LegalTranscript (Heap.setup memory config).events Ledger.empty h
  /-- One more call. -/
  | step {es : List Event} {held : Ledger} {h h' : Heap} {call : Call} {reply : Reply} :
    LegalTranscript es held h → call.Legal h held → (h.perform call).outcome = .ok (reply, h') →
    LegalTranscript (es ++ (h.perform call).events) (held.after h' call reply) h'

variable {held : Ledger} {h : Heap} {es : List Event}

private theorem LegalTranscript.legalRun (ht : LegalTranscript es held h) : LegalRun held h := by
  induction ht with
  | start hempty hsetup => exact LegalRun.start hempty hsetup
  | step _ hlegal hrun ih => exact ih.step hlegal hrun

private theorem LegalRun.exists_transcript (hr : LegalRun held h) :
    ∃ es, LegalTranscript es held h := by
  induction hr with
  | start hempty hsetup => exact ⟨_, LegalTranscript.start hempty hsetup⟩
  | step _ hlegal hrun ih =>
    obtain ⟨es, ht⟩ := ih
    exact ⟨_, ht.step hlegal hrun⟩

private theorem LegalRun.clean (hr : LegalRun held h) : h.Clean := by
  obtain ⟨bs, f, ht⟩ := hr.tracked
  exact ht.holds.audit_clean

/-- Nothing in the transcript of a legal run is an alarm. -/
theorem LegalTranscript.quiet (ht : LegalTranscript es held h) : ∀ e ∈ es, ¬ e.IsAlarm := by
  induction ht with
  | start hempty hsetup =>
    have hclean : Heap.Clean _ := (LegalRun.start hempty hsetup).clean
    exact hclean.quiet_setup hsetup
  | step ht hlegal hrun ih =>
    have hclean : Heap.Clean _ := (ht.legalRun.step hlegal hrun).clean
    intro e he
    rcases List.mem_append.mp he with he | he
    · exact ih e he
    · exact hclean.quiet_perform hrun e he

/-- After every step of a legal run an audit finds nothing, verbose or not, and however the heap
was come to, nothing that was told on the way is an alarm. -/
theorem LegalRun.no_alarm (hr : LegalRun held h) :
    (∀ verbose, (h.audit verbose).outcome = .ok []) ∧
      (∃ es, LegalTranscript es held h) ∧
      ∀ es, LegalTranscript es held h → ∀ e ∈ es, ¬ e.IsAlarm :=
  ⟨hr.clean, hr.exists_transcript, fun _ ht => ht.quiet⟩

/-- A heap that audits itself, after a payload was filled with words that look like headers. -/
theorem LegalRun.no_alarm_of_written : ∃ held h, LegalRun held h ∧ held 16 ≠ none ∧
    h.config.audited = true ∧ (h.audit true).outcome = .ok [] ∧
    ∃ es, LegalTranscript es held h ∧ ∀ e ∈ es, ¬ e.IsAlarm := by
  let memory : Memory := .growable ⟨ByteArray.empty, 4096, by decide, by decide⟩
  let config : Config := { chunk := 96, audited := true }
  let write : Call := .write 16 0 32 fun i => if i % 8 = 0 then 49 else 0
  have heval : ((Heap.setup memory config).outcome.toOption.any fun answer =>
      answer.toOption.any fun new =>
        (new.perform (.allocate 30)).outcome.toOption.any fun answered =>
          (Ledger.empty.after answered.2 (.allocate 30) answered.1 16).isSome &&
            (answered.2.perform write).outcome.toOption.any fun written =>
              written.2.config.audited &&
                ((Ledger.empty.after answered.2 (.allocate 30) answered.1).after written.2 write
                  written.1 16).isSome) = true := by
    decide +kernel
  obtain ⟨_, hsetup, hanswer⟩ := Fault.ok_of_any heval
  obtain ⟨new, rfl, hnew⟩ := Fault.ok_of_any hanswer
  obtain ⟨answered, hallocate, hanswered⟩ := Fault.ok_of_any hnew
  obtain ⟨hlive, hwrite⟩ := Bool.and_eq_true_iff.mp hanswered
  obtain ⟨written, hwrite, hwritten⟩ := Fault.ok_of_any hwrite
  obtain ⟨haudited, hkept⟩ := Bool.and_eq_true_iff.mp hwritten
  have hallocated : LegalRun _ answered.2 :=
    (LegalRun.start rfl hsetup).allocate hallocate
  have hlegal : write.Legal answered.2
      (Ledger.empty.after answered.2 (.allocate 30) answered.1) :=
    Or.inl (Option.isSome_iff_ne_none.mp hlive)
  have hrun := hallocated.step hlegal hwrite
  obtain ⟨hclean, ⟨es, hes⟩, hquiet⟩ := LegalRun.no_alarm hrun
  exact ⟨_, written.2, hrun, Option.isSome_iff_ne_none.mp hkept, haudited, hclean true, es, hes,
    hquiet es hes⟩

end SegregatedFit
