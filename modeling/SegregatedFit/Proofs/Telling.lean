import SegregatedFit.Heap.Setup
import SegregatedFit.Heap.Allocation

/-!
# What operations tell

The events of a run depend on the way it takes, and each kind of step has its own. Searching,
carving and merging tell traces, growing tells how the arena got longer, and an audit that is
not verbose tells warnings. So the growth of the arena can be read off the events alone.
-/

namespace SegregatedFit

/-- Whether an event says that the arena got more bytes. -/
def Event.isGrowth : Event → Bool
  | arenaGrown .. => true
  | _ => false

private theorem Event.isGrowth_eq_false {e : Event} (he : e.level ≠ .debug) :
    e.isGrowth = false := by
  cases e with
  | arenaGrown => exact absurd rfl he
  | _ => rfl

namespace Run

variable {α β : Type} {P Q : Event → Prop} {r : Run α} {f : α → Run β}

/-- All that a computation told has a property, also what it told before a fault. -/
def Tells (P : Event → Prop) (r : Run α) : Prop := ∀ e ∈ r.events, P e

/-- A computation told steps of an operation and nothing else. -/
abbrev Traces (r : Run α) : Prop := r.Tells fun e => e.level = .trace

/-- A computation that only gives a value tells nothing. -/
@[simp] theorem tells_pure (a : α) : (pure a : Run α).Tells P := List.forall_mem_nil _

/-- A step that can only fail or answer tells nothing. -/
@[simp] theorem tells_liftM (x : Except Fault α) : (liftM x : Run α).Tells P :=
  List.forall_mem_nil _

/-- Telling one event tells this event and no other. -/
@[simp] theorem tells_tell {e : Event} : (tell e).Tells P ↔ P e := List.forall_mem_singleton

/-- Telling a list of events tells each of them and no other. -/
@[simp] theorem tells_tellAll {es : List Event} : (tellAll es).Tells P ↔ ∀ e ∈ es, P e := Iff.rfl

/-- A property of all events told may be weakened. -/
theorem Tells.mono (h : r.Tells P) (hPQ : ∀ e, P e → Q e) : r.Tells Q :=
  fun e he => hPQ e (h e he)

/-- Two runs in sequence tell what the first tells, and what the second tells on every value
that the first can leave to it. -/
theorem tells_bind_iff :
    (r >>= f).Tells P ↔ r.Tells P ∧ ∀ a, r.outcome = .ok a → (f a).Tells P := by
  unfold Tells
  cases hr : r.outcome with
  | error fault =>
    -- what was told before the fault is all that is told
    rw [events_bind_of_error hr]
    exact ⟨fun h => ⟨h, fun a ha => by cases ha⟩, fun h => h.1⟩
  | ok a =>
    rw [events_bind_of_ok hr]
    simp [or_imp, forall_and]

/-- What becomes of the answer does not change what is told. -/
@[simp] theorem tells_map {g : α → β} : (g <$> r).Tells P ↔ r.Tells P := by
  obtain ⟨events, outcome⟩ := r
  cases outcome with
  | error fault => rfl
  | ok a =>
    have hevents : (g <$> (⟨events, .ok a⟩ : Run α)).events = events := List.append_nil events
    rw [Tells, hevents, Tells]

/-- A loop tells what its rounds tell. -/
theorem tells_foldlM {g : β → α → Run β} (hg : ∀ b a, (g b a).Tells P) (as : List α) (b : β) :
    (as.foldlM g b).Tells P := by
  induction as generalizing b with
  | nil => exact tells_pure b
  | cons a rest ih =>
    rw [List.foldlM_cons]
    exact tells_bind_iff.mpr ⟨hg b a, fun c _ => ih c⟩

/-- The growth of the arena in the course of a run. -/
def growths (r : Run α) : List Event := r.events.filter Event.isGrowth

private theorem Tells.growths_eq_nil (h : r.Tells P) (hP : ∀ e, P e → e.isGrowth = false) :
    r.growths = [] := by
  rw [growths, List.filter_eq_nil_iff]
  exact fun e he => Bool.eq_false_iff.mp (hP e (h e he))

/-- A computation that tells nothing but its steps does not grow the arena. -/
theorem Traces.growths_eq_nil (h : r.Traces) : r.growths = [] := by
  apply Tells.growths_eq_nil h
  intro e he
  apply Event.isGrowth_eq_false
  rw [he]
  decide

/-- The growths of two steps are those of the first and then those of the second. -/
theorem growths_bind {a : α} (h : r.outcome = .ok a) :
    (r >>= f).growths = r.growths ++ (f a).growths := by
  rw [growths, events_bind_of_ok h, List.filter_append]
  rfl

/-- A step that can only fail or answer adds no growth. -/
theorem growths_bind_liftM {x : Except Fault α} {a : α} (h : x = .ok a) :
    ((liftM x : Run α) >>= f).growths = (f a).growths := by
  rw [growths_bind ((outcome_liftM x).trans h)]
  rfl

/-- The steps in front of a growth do not show. -/
theorem Traces.growths_bind {a : α} (hr : r.Traces) (h : r.outcome = .ok a) :
    (r >>= f).growths = (f a).growths := by
  rw [Run.growths_bind h, hr.growths_eq_nil, List.nil_append]

/-- What becomes of the answer does not change the growths. -/
@[simp] theorem growths_map {g : α → β} : (g <$> r).growths = r.growths := by
  obtain ⟨events, outcome⟩ := r
  cases outcome with
  | error fault => rfl
  | ok a => exact congrArg (List.filter Event.isGrowth) (List.append_nil events)

end Run

namespace Heap

/-- Merging free blocks tells nothing but its steps. -/
theorem traces_coalesce (h : Heap) (block : Nat) : (h.coalesce block).Traces := by
  unfold coalesce
  simp only [Run.tells_bind_iff, Run.tells_liftM, true_and]
  intro below _ above _ size _
  split <;> simp [Run.tells_bind_iff, Event.level]

/-- Carving a block tells nothing but its steps. -/
theorem traces_carve (h : Heap) (block size : Nat) : (h.carve block size).Traces := by
  unfold carve
  simp only [Run.tells_bind_iff, Run.tells_liftM, true_and]
  intro whole _ erased _ remainder _
  split <;> simp [Run.tells_bind_iff, Event.level]

/-- Putting a block back tells nothing but its steps. -/
theorem traces_releaseBlock (h : Heap) (block : Nat) : (h.releaseBlock block).Traces := by
  unfold releaseBlock
  simp [Run.tells_bind_iff, traces_coalesce]

/-- A search tells nothing but its steps. -/
theorem traces_search (h : Heap) (need : Nat) : (h.search need).Traces := by
  unfold search
  split
  · have hfit : (h.segregatedFit need).Traces := by
      unfold segregatedFit
      split
      · simp
      · split
        · simp
        · simp [Event.level]
    simp [hfit]
  · simp
  · simp
  · unfold nextFit
    simp only [Run.tells_bind_iff, Run.tells_liftM, true_and]
    intro found _
    split <;> simp [Event.level]
  · simp
  · simp

/-- An audit that is not verbose only tells what it found. -/
theorem warns_audit (h : Heap) : (h.audit false).Tells fun e => e.level = .warn := by
  unfold audit
  simp only [Run.tells_bind_iff, Run.tells_liftM, true_and]
  intro prologueAt _ scan _
  refine ⟨Run.tells_foldlM (fun _ _ => Run.tells_liftM _) _ _, fun accounted _ => ?_⟩
  simp only [Bool.false_eq_true, if_false, Run.tells_bind_iff, Run.tells_tellAll,
    List.forall_mem_map, Run.tells_pure, implies_true, and_true]
  exact fun _ _ => rfl

private theorem warns_selfAudit (h : Heap) (occasion : Occasion) :
    (h.selfAudit occasion).Tells fun e => e.level = .warn := by
  unfold selfAudit
  split
  · simp only [Run.tells_bind_iff, warns_audit, true_and]
    intro found _
    split
    · exact Run.tells_tell.mpr rfl
    · exact Run.tells_pure _
  · exact Run.tells_pure _

/-- A heap that audits itself does not grow. -/
theorem growths_selfAudit (h : Heap) (occasion : Occasion) :
    (h.selfAudit occasion).growths = [] := by
  apply (h.warns_selfAudit occasion).growths_eq_nil
  intro e he
  apply Event.isGrowth_eq_false
  rw [he]
  decide

end Heap

end SegregatedFit
