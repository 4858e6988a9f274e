import SegregatedFit.Proofs.Edits
import SegregatedFit.Proofs.Refusals

/-!
# What the operations do to any heap

Whatever has become of a heap, its settings, its prologue and the limit of its memory stay as they
are, and its buckets only change by edits: blocks are filed, taken out and filed anew, one after
the other. No edit files an offset behind the limit, because a block is only filed after its size
was read from a tag inside the arena. So the buckets of a heap have a history that began with empty
ones.
-/

namespace SegregatedFit

/-- Whatever value a computation has, it is of one kind. -/
def Yields {α : Type} (P : α → Prop) (x : Except Fault α) : Prop := ∀ a, x = .ok a → P a

namespace Yields

variable {α β : Type} {P : α → Prop} {Q : β → Prop}

/-- A computation that succeeds yields whatever holds of its result. -/
theorem ok {a : α} (h : P a) : Yields P (.ok a) := by
  rintro _ ⟨⟩
  exact h

/-- A computation in two steps yields what the second one does on what the first one yields. -/
theorem bind {x : Except Fault α} {f : α → Except Fault β} (h : Yields P x)
    (hf : ∀ a, P a → Yields Q (f a)) : Yields Q (x >>= f) := by
  intro b hb
  obtain ⟨a, ha, hb⟩ := Fault.bind_eq_ok_iff.mp hb
  exact hf a (h a ha) b hb

/-- What follows from a property of the result is yielded too. -/
theorem mono {P' : α → Prop} {x : Except Fault α} (h : Yields P x) (hP : ∀ a, P a → P' a) :
    Yields P' x :=
  fun a ha => hP a (h a ha)

/-- A first step whose value is only known to be one. -/
theorem after {x : Except Fault α} {f : α → Except Fault β} (hf : ∀ a, x = .ok a → Yields Q (f a)) :
    Yields Q (x >>= f) :=
  bind (P := fun a => x = .ok a) (fun _ ha => ha) hf

end Yields

variable {limit : Nat}

namespace Buckets

/-- Edits that file no offset behind a limit lead from some buckets to others. -/
def Leads (limit : Nat) (s t : Buckets) : Prop :=
  ∃ edits answers, s.editAll edits = .ok (answers, t) ∧ ∀ e ∈ edits, ∀ x ∈ e.filed?, x ≤ limit

namespace Leads

variable {s t u : Buckets}

private theorem refl (limit : Nat) (s : Buckets) : s.Leads limit s :=
  ⟨[], [], rfl, List.forall_mem_nil _⟩

private theorem trans (h : s.Leads limit t) (h' : t.Leads limit u) : s.Leads limit u := by
  obtain ⟨edits, answers, hrun, hfiled⟩ := h
  obtain ⟨later, more, hrun', hfiled'⟩ := h'
  exact ⟨edits ++ later, answers ++ more, editAll_append hrun hrun',
    List.forall_mem_append.mpr ⟨hfiled, hfiled'⟩⟩

/-- A history goes on with the edits that follow. -/
theorem exists_history (h : s.Leads limit t) (hs : ∃ edits, s.IsHistory edits) :
    ∃ edits, t.IsHistory edits := by
  obtain ⟨edits, answers, hrun⟩ := hs
  obtain ⟨later, more, hlater, -⟩ := h
  exact ⟨edits ++ later, answers ++ more, editAll_append hrun hlater⟩

/-- One more edit. -/
theorem edit (h : s.Leads limit t) {e : Edit} (he : ∀ x ∈ e.filed?, x ≤ limit) :
    Yields (fun r => s.Leads limit r.2) (t.edit e) := by
  rintro ⟨answer, u⟩ hedit
  exact h.trans ⟨[e], [answer], editAll_cons_eq_ok_iff.mpr ⟨answer, u, [], hedit, rfl, rfl⟩,
    List.forall_mem_singleton.mpr he⟩

private theorem push (h : s.Leads limit t) {block : Nat} (hblock : block ≤ limit) (size : Nat) :
    Yields (s.Leads limit) (t.push block size) := by
  intro u hpush
  refine h.edit (e := .push block size) (fun _ hx => Option.mem_some.mp hx ▸ hblock) (none, u) ?_
  rw [Buckets.edit, hpush]
  rfl

private theorem erase (h : s.Leads limit t) (block : Nat) :
    Yields (fun r => s.Leads limit r.2) (t.erase block) :=
  h.edit (e := .erase block) fun _ hx => by cases hx

private theorem refile (h : s.Leads limit t) {block : Nat} (hblock : block ≤ limit) (size : Nat) :
    Yields (s.Leads limit) (t.refile block size) := by
  intro u hrefile
  refine h.edit (e := .refile block size) (fun _ hx => Option.mem_some.mp hx ▸ hblock) (none, u) ?_
  rw [Buckets.edit, hrefile]
  rfl

private theorem eraseAll (h : s.Leads limit t) (blocks : List Nat) :
    Yields (s.Leads limit) (blocks.foldlM (fun s b => return (← s.erase b).2) t) := by
  induction blocks generalizing t with
  | nil => exact .ok h
  | cons block rest ih =>
    rw [List.foldlM_cons, bind_assoc]
    exact (h.erase block).bind fun _ hu => ih hu

end Leads

end Buckets

namespace Arena

variable {a : Arena} {x count amount : Nat}

/-- An arena in memory of a given limit. -/
def Limited (limit : Nat) (a : Arena) : Prop := a.memory.limit = limit

namespace Limited

variable (ha : a.Limited limit)

include ha

private theorem le_of_sizeOf {size : Nat} (hsize : a.sizeOf x = .ok size) : x ≤ limit := by
  obtain ⟨t, ht, -⟩ := Fault.bind_eq_ok_iff.mp hsize
  have hin := (header_eq_ok_iff.mp ht).2.1
  have hle : a.size ≤ a.memory.limit := a.memory.size_le_limit
  exact Nat.le_trans hin (ha ▸ hle)

private theorem put (value : Nat) : Yields (Limited limit) (a.put x value) := by
  intro b hb
  obtain ⟨-, rfl⟩ := put_eq_ok_iff.mp hb
  exact (Memory.limit_write ..).trans ha

private theorem write (f : Nat → UInt8) : Yields (Limited limit) (a.write x count f) := by
  intro b hb
  obtain ⟨-, rfl⟩ := write_eq_ok_iff.mp hb
  exact (Memory.limit_write ..).trans ha

private theorem copy (target : Nat) : Yields (Limited limit) (a.copy x target count) := by
  unfold Arena.copy
  split
  · exact ha.write _
  · rintro _ ⟨⟩

private theorem stamp (t : Tag) : Yields (fun b => b.Limited limit ∧ x ≤ limit) (a.stamp x t) := by
  intro b hb
  obtain ⟨⟨-, hin⟩, -, rfl⟩ := stamp_eq_ok_iff.mp hb
  have hle : a.size ≤ a.memory.limit := a.memory.size_le_limit
  refine ⟨?_, Nat.le_trans hin (ha ▸ hle)⟩
  exact ((Memory.limit_write ..).trans (Memory.limit_write ..)).trans ha

private theorem stampEnd : Yields (Limited limit) (a.stampEnd x) :=
  .after fun _ _ => ha.put _

private theorem grow : Yields (fun r => r.2.Limited limit) (a.grow amount).outcome := by
  rintro ⟨answer, b⟩ hb
  cases answer with
  | error cause => exact eq_of_grow_error hb ▸ ha
  | ok base =>
    by_cases hmod : amount % granule = 0
    · rcases Nat.lt_or_ge (a.memory.limit - a.memory.size) amount with hroom | hroom
      · rw [grow_of_lt hmod hroom] at hb
        cases hb
      · rw [grow_of_le hmod hroom] at hb
        cases hb
        exact (Memory.limit_grant ..).trans ha
    · rw [Arena.grow, if_neg hmod] at hb
      cases hb

end Limited

end Arena

/-- What the operations may make of a heap `g`: settings, prologue and limit are the same, and
edits have led from its buckets to the new ones. -/
structure Heap.Amends (g h : Heap) : Prop extends g.Alike h where
  leads : g.buckets.Leads g.arena.memory.limit h.buckets

namespace Heap.Amends

variable {g h : Heap}

/-- Every heap amends itself. -/
theorem refl (g : Heap) : g.Amends g := ⟨Alike.refl g, .refl _ _⟩

private theorem arena (hg : g.Amends h) : h.arena.Limited g.arena.memory.limit := hg.limit_eq

private theorem with_arena (hg : g.Amends h) {a : Arena} (ha : a.Limited g.arena.memory.limit)
    {s : Buckets} (hs : g.buckets.Leads g.arena.memory.limit s) (rover : Nat) :
    g.Amends ⟨a, s, h.config, h.prologue, rover⟩ :=
  ⟨⟨hg.config_eq, hg.prologue_eq, ha⟩, hs⟩

/-! The steps of the operations. -/

private theorem carve (hg : g.Amends h) (block size : Nat) :
    Yields g.Amends (h.carve block size).outcome := by
  unfold Heap.carve
  simp only [Run.outcome_bind, Run.outcome_liftM]
  refine .after fun whole _ => (hg.leads.erase block).bind fun r hs =>
    .after fun remainder _ => ?_
  split
  · simp only [Run.outcome_bind, Run.outcome_liftM]
    refine (hg.arena.stamp _).bind fun a ha => .after fun rest _ =>
      (ha.1.stamp _).bind fun a ha => (hs.push ha.2 remainder).bind fun s hs => ?_
    exact .ok (hg.with_arena ha.1 hs _)
  · simp only [Run.outcome_bind, Run.outcome_liftM]
    exact (hg.arena.stamp _).bind fun a ha => .ok (hg.with_arena ha.1 hs _)

private theorem fuse (hg : g.Amends h) (block : Nat) (beside : List Nat)
    (start size : Nat) : Yields g.Amends (h.fuse block beside start size) := by
  unfold Heap.fuse
  exact (hg.leads.eraseAll beside).bind fun s hs => (hg.arena.stamp _).bind fun a ha =>
    .ok (hg.with_arena ha.1 hs _)

private theorem coalesce (hg : g.Amends h) (block : Nat) :
    Yields (fun r => g.Amends r.2) (h.coalesce block).outcome := by
  have hfused {beside : List Nat} {start size : Nat} :
      Yields (fun r => g.Amends r.2)
        (h.fuse block beside start size >>= fun h => .ok (start, h)) :=
    (hg.fuse block beside start size).bind fun h hg => .ok hg
  unfold Heap.coalesce
  simp only [Run.outcome_bind, Run.outcome_liftM]
  refine .after fun below _ => .after fun above _ => .after fun size _ => ?_
  split
  · exact .ok hg
  · simp only [Run.outcome_bind, Run.outcome_liftM, Run.outcome_tell, Run.outcome_pure,
      Fault.ok_bind]
    exact .after fun size _ => hfused
  · simp only [Run.outcome_bind, Run.outcome_liftM, Run.outcome_tell, Run.outcome_pure,
      Fault.ok_bind]
    exact .after fun size _ => hfused
  · simp only [Run.outcome_bind, Run.outcome_liftM, Run.outcome_tell, Run.outcome_pure,
      Fault.ok_bind]
    exact .after fun both _ => .after fun size _ => hfused

private theorem file (hg : g.Amends h) (block : Nat) :
    Yields g.Amends (h.file block) := by
  unfold Heap.file
  exact .after fun size hsize => (hg.leads.push (hg.arena.le_of_sizeOf hsize) size).bind
    fun s hs => .ok (hg.with_arena hg.arena hs _)

private theorem extend (hg : g.Amends h) (words : Nat) :
    Yields (fun r => g.Amends r.2) (h.extend words).outcome := by
  unfold Heap.extend
  simp only [Run.outcome_bind, Run.outcome_liftM]
  refine .after fun words _ => .after fun size _ => hg.arena.grow.bind ?_
  rintro ⟨answer, a⟩ ha
  cases answer with
  | error cause => exact .ok (hg.with_arena ha hg.leads _)
  | ok block =>
    simp only [Run.outcome_bind, Run.outcome_liftM]
    refine (ha.stamp _).bind fun a ha => .after fun ending _ => ha.1.stampEnd.bind fun a ha => ?_
    refine ((hg.with_arena ha hg.leads _).coalesce block).bind fun r hg => ?_
    exact (hg.file r.1).bind fun h hg => .ok hg

private theorem search (hg : g.Amends h) (need : Nat) :
    Yields (fun r => g.Amends r.2) (h.search need).outcome := by
  unfold Heap.search
  cases h.config.policy with
  | nextFit =>
    simp only [nextFit, Run.outcome_bind, Run.outcome_liftM]
    refine .after fun found _ => ?_
    cases found with
    | none => exact .ok (hg.with_arena hg.arena hg.leads _)
    | some block => exact .ok (hg.with_arena hg.arena hg.leads _)
  | _ =>
    simp only [Run.outcome_bind]
    exact .after fun found _ => .ok hg

private theorem allocateBlock (hg : g.Amends h) (request : Nat) :
    Yields (fun r => g.Amends r.2) (h.allocateBlock request).outcome := by
  unfold Heap.allocateBlock
  cases blockFor request with
  | error e => exact .ok hg
  | ok need =>
    simp only [Run.outcome_bind]
    refine (hg.search need).bind ?_
    rintro ⟨found, h⟩ hg
    cases found with
    | some block =>
      simp only [Run.outcome_bind]
      exact (hg.carve block need).bind fun h hg => .ok hg
    | none =>
      simp only [Run.outcome_bind]
      refine (hg.extend _).bind ?_
      rintro ⟨answer, h⟩ hg
      cases answer with
      | ok block =>
        simp only [Run.outcome_bind]
        exact (hg.carve block need).bind fun h hg => .ok hg
      | error cause => exact .ok hg

private theorem releaseBlock (hg : g.Amends h) (block : Nat) :
    Yields g.Amends (h.releaseBlock block).outcome := by
  unfold Heap.releaseBlock
  simp only [Run.outcome_bind, Run.outcome_liftM]
  refine .after fun size _ => (hg.arena.stamp _).bind fun a ha => ?_
  refine ((hg.with_arena ha.1 hg.leads _).coalesce block).bind fun r hg => ?_
  exact .after fun size hsize => (hg.leads.refile (hg.arena.le_of_sizeOf hsize) size).bind
    fun s hs => .ok (hg.with_arena hg.arena hs _)

/-! The operations. -/

/-- Allocating amends a heap, whatever its arena and registry hold. -/
theorem allocate (hg : g.Amends h) (request : Nat) :
    Yields (fun r => g.Amends r.2) (h.allocate request).outcome := by
  unfold Heap.allocate
  split
  · exact .ok hg
  · simp only [Run.outcome_bind]
    refine (hg.allocateBlock request).bind ?_
    rintro ⟨answer, h⟩ hg
    cases answer with
    | error e => exact .ok hg
    | ok block =>
      simp only [Run.outcome_bind]
      exact .after fun _ _ => .ok hg

/-- Releasing amends a heap, whatever its arena and registry hold. -/
theorem release (hg : g.Amends h) (pointer : Option Nat) :
    Yields (fun r => g.Amends r.2) (h.release pointer).outcome := by
  cases pointer with
  | none => exact .ok hg
  | some offset =>
    unfold Heap.release
    simp only [Run.outcome_bind, Run.outcome_liftM]
    refine .after fun answer _ => ?_
    cases answer with
    | error e => exact .ok hg
    | ok b =>
      simp only [Run.outcome_bind]
      exact (hg.releaseBlock offset).bind fun h hg => .after fun _ _ => .ok hg

/-- Reallocating amends a heap, whatever its arena and registry hold. -/
theorem reallocate (hg : g.Amends h) (pointer : Option Nat) (request : Nat) :
    Yields (fun r => g.Amends r.2) (h.reallocate pointer request).outcome := by
  cases pointer with
  | none => exact hg.allocate request
  | some source =>
    unfold Heap.reallocate
    dsimp only
    split
    · simp only [Run.outcome_bind]
      exact (hg.release (some source)).bind fun r hg => .ok hg
    · simp only [Run.outcome_bind, Run.outcome_liftM]
      refine .after fun answer _ => ?_
      cases answer with
      | error e => exact .ok hg
      | ok b =>
        simp only [Run.outcome_bind, Run.outcome_liftM]
        refine .after fun room _ => (hg.allocateBlock request).bind ?_
        rintro ⟨answer, h⟩ hg
        cases answer with
        | error e => exact .ok hg
        | ok target =>
          simp only [Run.outcome_bind, Run.outcome_liftM]
          refine (hg.arena.copy target).bind fun a ha => ?_
          refine ((hg.with_arena ha hg.leads _).releaseBlock source).bind fun h hg => ?_
          exact .after fun _ _ => .after fun _ _ => .ok hg

private theorem writePayload (hg : g.Amends h) (offset position count : Nat)
    (f : Nat → UInt8) :
    Yields (fun r => g.Amends r.2) (h.writePayload offset position count f) := by
  unfold Heap.writePayload
  refine .after fun answer _ => ?_
  cases answer with
  | error e => exact .ok hg
  | ok b =>
    refine .after fun room _ => (hg.arena.write f).bind fun a ha => ?_
    exact .ok (hg.with_arena ha hg.leads _)

/-- Every call keeps all of this. -/
theorem perform (hg : g.Amends h) (call : Call) :
    Yields (fun r => g.Amends r.2) (h.perform call).outcome := by
  cases call with
  | allocate request =>
    simp only [Heap.perform, Run.outcome_bind]
    exact (hg.allocate request).bind fun r hg => .ok hg
  | release pointer =>
    simp only [Heap.perform, Run.outcome_bind]
    exact (hg.release pointer).bind fun r hg => .ok hg
  | reallocate pointer request =>
    simp only [Heap.perform, Run.outcome_bind]
    exact (hg.reallocate pointer request).bind fun r hg => .ok hg
  | write offset position count f =>
    simp only [Heap.perform, Run.outcome_bind, Run.outcome_liftM]
    exact (hg.writePayload offset position count f).bind fun r hg => .ok hg
  | _ =>
    simp only [Heap.perform, Run.outcome_bind]
    exact .after fun _ _ => .ok hg

end Heap.Amends

/-- The buckets of a new heap have a history. -/
theorem Heap.exists_history_of_setup {memory : Memory} {config : Config} {h : Heap}
    (hsetup : (setup memory config).outcome = .ok (.ok h)) :
    ∃ edits, h.buckets.IsHistory edits := by
  have hall : Yields (fun answer : Answer Heap => ∀ h, answer = .ok h →
      ∃ edits, h.buckets.IsHistory edits) (setup memory config).outcome := by
    unfold setup
    simp only [Run.outcome_bind, Run.outcome_liftM]
    refine .after fun config _ => .after ?_
    rintro ⟨_ | base, arena⟩ -
    · exact .ok fun h hh => by cases hh
    simp only [Run.outcome_bind, Run.outcome_liftM]
    refine .after fun arena _ => .after fun arena _ => ((Amends.refl _).extend _).bind ?_
    rintro ⟨_ | block, new⟩ hnew
    · exact .ok fun h hh => by cases hh
    simp only [Run.outcome_bind]
    refine .after fun _ _ => .after fun _ _ => .ok fun h hh => ?_
    cases hh
    exact hnew.leads.exists_history ⟨[], [], rfl⟩
  exact hall _ hsetup h rfl

end SegregatedFit
