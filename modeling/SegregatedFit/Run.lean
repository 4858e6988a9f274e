import SegregatedFit.Event

/-!
# Runs

A run is what a computation on a heap leaves behind: the events it told, in order, and a
value or a fault. Events that were told before a fault stay told. Forgetting the events is
compatible with composition (`outcome_bind`), so statements about values never mention them.
-/

namespace SegregatedFit

/-- Events, and what came of the computation that told them. -/
structure Run (α : Type) where
  /-- What was told, oldest first. -/
  events : List Event
  /-- The value, or the fault that ended the computation. -/
  outcome : Except Fault α

namespace Run

variable {α β : Type}

/-- A value, with nothing told. -/
@[inline] protected def pure (a : α) : Run α := ⟨[], .ok a⟩

/-- One run after another. -/
@[inline] protected def bind (r : Run α) (f : α → Run β) : Run β :=
  match r with
  | ⟨events, .ok a⟩ =>
    let next := f a
    ⟨events ++ next.events, next.outcome⟩
  | ⟨events, .error fault⟩ => ⟨events, .error fault⟩

instance : Monad Run where
  pure := Run.pure
  bind := Run.bind

/-- A computation that tells nothing. -/
@[inline] def ofExcept (x : Except Fault α) : Run α := ⟨[], x⟩

instance : MonadLift (Except Fault) Run := ⟨ofExcept⟩

/-- Tells one event. -/
def tell (e : Event) : Run Unit := ⟨[e], .ok ()⟩

/-- Tells several events in order. -/
def tellAll (es : List Event) : Run Unit := ⟨es, .ok ()⟩

/-- A computation that only gives a value ends with it. -/
@[simp] theorem outcome_pure (a : α) : (pure a : Run α).outcome = .ok a := rfl

/-- A step that can only fail or answer has its own end as its outcome. -/
@[simp] theorem outcome_ofExcept (x : Except Fault α) : (ofExcept x).outcome = x := rfl

/-- The same, as the step is written in a longer computation. -/
@[simp] theorem outcome_liftM (x : Except Fault α) : (liftM x : Run α).outcome = x := rfl

/-- Telling an event never fails. -/
@[simp] theorem outcome_tell (e : Event) : (tell e).outcome = .ok () := rfl

/-- Telling a list of events never fails. -/
@[simp] theorem outcome_tellAll (es : List Event) : (tellAll es).outcome = .ok () := rfl

/-- Without the events, runs compose as computations with faults do. -/
@[simp] theorem outcome_bind (r : Run α) (f : α → Run β) :
    (r >>= f).outcome = r.outcome >>= fun a => (f a).outcome := by
  obtain ⟨events, outcome⟩ := r
  cases outcome <;> rfl

/-- A function of the answer is applied to the outcome. -/
@[simp] theorem outcome_map (f : α → β) (r : Run α) :
    (f <$> r).outcome = f <$> r.outcome := by
  obtain ⟨events, outcome⟩ := r
  cases outcome <;> rfl

/-- The events of two runs follow each other when the first has a value. -/
theorem events_bind_of_ok {r : Run α} {f : α → Run β} {a : α} (h : r.outcome = .ok a) :
    (r >>= f).events = r.events ++ (f a).events := by
  obtain ⟨events, outcome⟩ := r
  cases h
  rfl

/-- After a fault nothing more is told. -/
theorem events_bind_of_error {r : Run α} {f : α → Run β} {fault : Fault}
    (h : r.outcome = .error fault) : (r >>= f).events = r.events := by
  obtain ⟨events, outcome⟩ := r
  cases h
  rfl

private theorem bind_pure_value (r : Run α) : (id <$> r) = r := by
  obtain ⟨events, outcome⟩ := r
  cases outcome with
  | error fault => rfl
  | ok a => exact congrArg (Run.mk · _) (List.append_nil events)

private theorem bind_bind {γ : Type} (r : Run α) (f : α → Run β) (g : β → Run γ) :
    r >>= f >>= g = r >>= fun a => f a >>= g := by
  obtain ⟨events, outcome⟩ := r
  cases outcome with
  | error fault => rfl
  | ok a =>
    show Run.bind (Run.bind ⟨events, .ok a⟩ f) g =
      Run.bind ⟨events, .ok a⟩ fun a => Run.bind (f a) g
    simp only [Run.bind]
    generalize f a = next
    obtain ⟨later, outcome⟩ := next
    cases outcome with
    | error fault => rfl
    | ok b => simp only [List.append_assoc]

instance : LawfulMonad Run :=
  LawfulMonad.mk' Run bind_pure_value (fun _ _ => rfl) bind_bind

end Run

end SegregatedFit
