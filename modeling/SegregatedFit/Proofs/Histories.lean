import Mathlib.Data.List.Forall2
import SegregatedFit.Proofs.TwinHeaps

/-!
# Histories

Between the calls on a heap its bytes, its buckets and its rover may be damaged in any way. A
chronicle says how a heap begins and what comes of one such deed after the other: each reply, and
all that can be seen of the heap behind it. Heaps that are set up in twin memories have the same
chronicle, whatever happens to them.
-/

namespace SegregatedFit

/-- What can happen to a heap. -/
inductive Deed where
  /-- One of its operations is called. -/
  | call (call : Call)
  /-- All granted bytes, the buckets and the rover are overwritten with anything. -/
  | damage (bytes : Nat → UInt8) (buckets : Buckets) (rover : Nat)

/-- The same walk with each item shown in another way. -/
def Walk.map {α β : Type} (f : α → β) (w : Walk α) : Walk β := ⟨w.items.map f, w.ending⟩

namespace Heap

/-- Lets one deed happen to a heap. Only a call has a reply. -/
def befall (h : Heap) : Deed → Run (Option Reply × Heap)
  | .call call => do
    let (reply, h) ← h.perform call
    return (some reply, h)
  | .damage bytes buckets rover => do
    let ⟨arena, _, config, prologue, _⟩ := h
    let arena ← arena.write 0 arena.size bytes
    return (none, ⟨arena, buckets, config, prologue, rover⟩)

/-- What comes of one deed after the other, up to the first fault. -/
def story (h : Heap) : List Deed → Walk (Option Reply × Heap)
  | [] => .done
  | deed :: rest =>
    match (h.befall deed).outcome with
    | .ok (reply, h) => .cons (reply, h) (h.story rest)
    | .error fault => .broken fault

/-- All that can be seen of a heap, except for the kind of its memory and whether it audits
itself. -/
structure Image where
  /-- The granted bytes. -/
  bytes : ByteArray
  /-- How many bytes can be granted. -/
  limit : Nat
  /-- The sum of all growth. -/
  granted : Nat
  /-- The free blocks. -/
  buckets : Buckets
  /-- The settings, without those of audits. -/
  settings : Config
  /-- The offset of the prologue. -/
  prologue : Nat
  /-- The block that the next-fit search goes on after. -/
  rover : Nat

/-- What can be seen of a heap. -/
def image (h : Heap) : Image where
  bytes := h.arena.bytes
  limit := h.arena.memory.limit
  granted := h.arena.granted
  buckets := h.buckets
  settings := { h.config with audited := false }
  prologue := h.prologue
  rover := h.rover

/-- How a heap begins in memory, and what comes of one deed after the other. -/
def chronicle (memory : Memory) (config : Config) (deeds : List Deed) :
    Except Fault (Answer (Image × Walk (Option Reply × Image))) :=
  (setup memory config).outcome.map fun answer => answer.map fun h =>
    (h.image, (h.story deeds).map fun x => (x.1, x.2.image))

variable {past : Nat → UInt8} {p : Nat} {h g : Heap}

namespace Twin

private theorem image_eq (ht : h.Twin past p g) : g.image = h.image := by
  have hsettings : { g.config with audited := false } = { h.config with audited := false } := by
    simp only [ht.chunk_eq, ht.ceiling_eq, ht.policy_eq]
  simp only [image, ht.arena.bytes_eq, ht.arena.memory.limit_eq, ht.arena.granted_eq,
    ht.buckets_eq, hsettings, ht.prologue_eq, ht.rover_eq]

/-- What happens to twins has the same reply on both and leaves twins behind, or breaks off with
the same fault on both. -/
theorem befall (ht : h.Twin past p g) (deed : Deed) :
    EndAlike (SameAnswer (Twin past p)) (h.befall deed).outcome (g.befall deed).outcome := by
  cases deed with
  | call call =>
    simp only [Heap.befall, Run.outcome_bind]
    exact (ht.perform call).answered fun reply h g ht => .reply ht
  | damage bytes buckets rover =>
    simp only [Heap.befall, Run.outcome_bind, Run.outcome_liftM, ht.arena.size_eq]
    exact (ht.arena.write 0 _ bytes).bind fun a b hab => .reply (ht.with_arena hab buckets rover)

/-- A story of deeds is the same for twins: step by step the replies are the same and the heaps
are twins, and it breaks off for both with the same fault or for neither. -/
theorem story (ht : h.Twin past p g) (deeds : List Deed) :
    List.Forall₂ (SameAnswer (Twin past p)) (h.story deeds).items (g.story deeds).items ∧
      (g.story deeds).ending = (h.story deeds).ending := by
  induction deeds generalizing h g with
  | nil => exact ⟨.nil, rfl⟩
  | cons deed rest ih =>
    have hstep := ht.befall deed
    rw [Heap.story, Heap.story]
    generalize (h.befall deed).outcome = x at hstep ⊢
    generalize (g.befall deed).outcome = y at hstep ⊢
    cases hstep with
    | error fault => exact ⟨.nil, rfl⟩
    | ok hsame =>
      obtain ⟨hitems, hending⟩ := ih hsame.2
      exact ⟨.cons hsame hitems, hending⟩

/-- Twins show the same story. -/
theorem map_story (ht : h.Twin past p g) (deeds : List Deed) :
    (g.story deeds).map (fun x => (x.1, x.2.image)) =
      (h.story deeds).map fun x => (x.1, x.2.image) := by
  obtain ⟨hitems, hending⟩ := ht.story deeds
  have hshown : ((h.story deeds).items.map fun x => (x.1, x.2.image)) =
      (g.story deeds).items.map fun x => (x.1, x.2.image) := by
    rw [← List.forall₂_eq_eq_eq, List.forall₂_map_left_iff, List.forall₂_map_right_iff]
    refine hitems.imp ?_
    rintro ⟨-, h⟩ ⟨reply, g⟩ ⟨rfl, ht⟩
    exact congrArg (Prod.mk reply) ht.image_eq.symm
  rw [Walk.map, Walk.map, hshown, hending]

/-- Heaps in twin memories have the same chronicle, whether or not they audit themselves. -/
theorem chronicle_eq {m n : Memory} (hm : m.Twin past n) (config : Config) (audited : Bool)
    (deeds : List Deed) :
    chronicle n { config with audited } deeds = chronicle m config deeds := by
  symm
  refine (Twin.setup hm config audited).map_eq fun answer answer' hanswer => ?_
  refine hanswer.map_eq ?_
  rintro h g ⟨p, ht⟩
  rw [ht.image_eq, ht.map_story]

end Twin

/-- A heap that was set up is its own twin. -/
theorem twin_of_setup {memory : Memory} {config : Config}
    (hsetup : (setup memory config).outcome = .ok (.ok h)) :
    ∃ p, h.Twin memory.read p h := by
  have ht : EndAlike (EndAlike fun h g => ∃ p, Twin memory.read p h g) (setup memory config).outcome
      (setup memory config).outcome :=
    Twin.setup (Memory.Twin.refl memory) config config.audited
  exact (ht.self hsetup).self rfl

/-- In a story of its own twin, a heap stays its own twin. -/
theorem Twin.self_story (ht : h.Twin past p h) {deeds : List Deed} {x : Option Reply × Heap}
    (hx : x ∈ (h.story deeds).items) : x.2.Twin past p x.2 :=
  (List.forall₂_same.mp (ht.story deeds).1 x hx).2

end Heap

end SegregatedFit
