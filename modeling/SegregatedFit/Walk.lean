import SegregatedFit.Word

/-!
# Walks

A walk is a sequence that is found step by step: the items that were reached, and the fault
at which it broke off, if it did. A search along a walk only meets the fault when it finds
nothing before it.
-/

namespace SegregatedFit

/-- The items of a walk in order, and the fault that ended it early. -/
structure Walk (α : Type) where
  /-- What was reached. -/
  items : List α
  /-- Why nothing more was reached, unless the walk came to its end. -/
  ending : Option Fault

namespace Walk

variable {α β : Type}

/-- The walk that is over at once. -/
def done : Walk α := ⟨[], none⟩

/-- The walk that fails at once. -/
def broken (fault : Fault) : Walk α := ⟨[], some fault⟩

/-- A walk with one more item in front. -/
def cons (a : α) (w : Walk α) : Walk α := ⟨a :: w.items, w.ending⟩

/-- One walk after another. A walk that broke off has no continuation. -/
def append (w : Walk α) (rest : Walk α) : Walk α :=
  match w.ending with
  | none => ⟨w.items ++ rest.items, rest.ending⟩
  | some fault => ⟨w.items, some fault⟩

/-- Walks one after another. -/
def concat (ws : List (Walk α)) : Walk α := ws.foldr append done

/-- The items of a completed walk. -/
def toExcept (w : Walk α) : Except Fault (List α) :=
  match w.ending with
  | none => .ok w.items
  | some fault => .error fault

/-- The first item that passes a test. -/
def find? (w : Walk α) (p : α → Bool) : Except Fault (Option α) :=
  match w.items.find? p with
  | some a => .ok (some a)
  | none =>
    match w.ending with
    | none => .ok none
    | some fault => .error fault

/-- The items that pass a test. -/
def filter (w : Walk α) (p : α → Bool) : Walk α := ⟨w.items.filter p, w.ending⟩

/-- The walk up to the first item that fails a test. -/
def takeWhile (w : Walk α) (p : α → Bool) : Walk α :=
  ⟨w.items.takeWhile p, if w.items.all p then w.ending else none⟩

/-- Applies a computation to each item, up to the first that faults. -/
def attempt (w : Walk α) (f : α → Except Fault β) : Walk β :=
  go w.items
where
  go : List α → Walk β
    | [] => ⟨[], w.ending⟩
    | a :: rest =>
      match f a with
      | .ok b => cons b (go rest)
      | .error fault => broken fault

/-- A search along a completed walk is a search in a list. -/
@[simp] theorem find?_mk_none (items : List α) (p : α → Bool) :
    find? ⟨items, none⟩ p = .ok (items.find? p) := by
  unfold find?
  cases items.find? p <;> rfl

/-- Filtering a walk filters its items, and keeps how it ends. -/
@[simp] theorem filter_mk (items : List α) (ending : Option Fault) (p : α → Bool) :
    filter ⟨items, ending⟩ p = ⟨items.filter p, ending⟩ := rfl

/-- Any part of a completed walk is complete. -/
@[simp] theorem takeWhile_mk_none (items : List α) (p : α → Bool) :
    takeWhile ⟨items, none⟩ p = ⟨items.takeWhile p, none⟩ := by
  simp [takeWhile]

/-- A computation that finds each result again from its name turns a completed walk over the
names into one over the results. -/
theorem attempt_map {results : List β} {name : β → α} {f : α → Except Fault β}
    (h : ∀ b ∈ results, f (name b) = .ok b) :
    attempt ⟨results.map name, none⟩ f = ⟨results, none⟩ := by
  suffices hgo : ∀ w : Walk α, w.ending = none → attempt.go w f (results.map name) =
      ⟨results, none⟩ from hgo _ rfl
  intro w hw
  induction results with
  | nil => simp [attempt.go, hw]
  | cons b rest ih =>
    have hrest := ih fun c hc => h c (List.mem_cons_of_mem _ hc)
    simp [attempt.go, h b List.mem_cons_self, hrest, cons]

end Walk

end SegregatedFit
