import SegregatedFit.Proofs.Moving
import SegregatedFit.Proofs.Starting
import SegregatedFit.Heap.Call

/-!
# Legal runs

A run is legal as long as the caller gives back, moves and writes only what it holds, or
offsets that are refused anyway. The ledger says what the caller holds: the live pointers,
each with the bytes that were found behind it when it was handed out and that the caller
itself wrote there since. Every call of a legal run has an answer, and at each moment the
blocks in use are those of the ledger.
-/

namespace SegregatedFit

/-- The live pointers of a caller, each with its bytes. -/
abbrev Ledger : Type := Nat → Option ByteArray

namespace Ledger

/-- Nothing is held. -/
def empty : Ledger := fun _ => none

/-- Enters or strikes out one pointer. -/
def set (held : Ledger) (p : Nat) (bytes : Option ByteArray) : Ledger :=
  fun q => if q = p then bytes else held q

/-- The bytes that are found behind a pointer. -/
def found (h : Heap) (p : Nat) : Option ByteArray :=
  match h.payload p with
  | .ok (.ok bytes) => some bytes
  | _ => none

/-- The ledger after a call was answered and `h` is the heap. A pointer that is handed out is
entered with the bytes behind it, one that is given back or moved is struck out, and only
writes through a pointer change its bytes. -/
def after (held : Ledger) (h : Heap) : Call → Reply → Ledger
  | .allocate _, .pointer (.ok (some p)) => held.set p (found h p)
  | .release (some p), .done (.ok ()) => held.set p none
  | .reallocate none _, .pointer (.ok (some q)) => held.set q (found h q)
  | .reallocate (some p) _, .pointer (.ok none) => held.set p none
  | .reallocate (some p) _, .pointer (.ok (some q)) => (held.set p none).set q (found h q)
  | .write p position count f, .written (.ok _) =>
    held.set p ((held p).map fun bytes => Bytes.write bytes position count f)
  | _, _ => held

end Ledger

/-- A pointer that the caller holds, or that is refused. -/
def Heap.Accepts (h : Heap) (held : Ledger) (p : Nat) : Prop :=
  held p ≠ none ∨ h.resolve p = .ok (.error (.invalidPointer p))

/-- The calls that a caller may make. -/
def Call.Legal (h : Heap) (held : Ledger) : Call → Prop
  | .release (some p) => h.Accepts held p
  | .reallocate (some p) _ => h.Accepts held p
  | .write p _ _ _ => h.Accepts held p
  | _ => True

/-- A call was answered when the operation behind it was. -/
inductive Heap.Performs (h : Heap) : Call → Reply → Heap → Prop
  | allocate {request : Nat} {answer : Answer (Option Nat)} {h' : Heap} :
    (h.allocate request).outcome = .ok (answer, h') →
    h.Performs (.allocate request) (.pointer answer) h'
  | release {pointer : Option Nat} {answer : Answer Unit} {h' : Heap} :
    (h.release pointer).outcome = .ok (answer, h') → h.Performs (.release pointer) (.done answer) h'
  | reallocate {pointer : Option Nat} {request : Nat} {answer : Answer (Option Nat)} {h' : Heap} :
    (h.reallocate pointer request).outcome = .ok (answer, h') →
    h.Performs (.reallocate pointer request) (.pointer answer) h'
  | read {p : Nat} {answer : Answer ByteArray} :
    h.payload p = .ok answer → h.Performs (.read p) (.bytes answer) h
  | write {p position count : Nat} {g : Nat → UInt8} {answer : Answer Nat} {h' : Heap} :
    h.writePayload p position count g = .ok (answer, h') →
    h.Performs (.write p position count g) (.written answer) h'
  | audit {verbose : Bool} {found : List Violation} :
    (h.audit verbose).outcome = .ok found → h.Performs (.audit verbose) (.violations found) h
  | totals {t : Totals} : h.totals = .ok t → h.Performs .totals (.totals t) h

/-- A call is performed if its computation ends with the reply and the heap. -/
theorem Heap.performs_of_outcome {h h' : Heap} {call : Call} {reply : Reply}
    (hrun : (h.perform call).outcome = .ok (reply, h')) : h.Performs call reply h' := by
  cases call <;> simp only [perform, Run.outcome_bind, Run.outcome_liftM] at hrun <;>
    obtain ⟨answer, hanswer, hreply⟩ := Fault.bind_eq_ok_iff.mp hrun <;> cases hreply
  case allocate => exact .allocate hanswer
  case release => exact .release hanswer
  case reallocate => exact .reallocate hanswer
  case read => exact .read hanswer
  case write => exact .write hanswer
  case audit => exact .audit hanswer
  case totals => exact .totals hanswer

/-- A legal run from a new heap in empty memory leads to a ledger and a heap. -/
inductive LegalRun : Ledger → Heap → Prop
  /-- A heap was set up. -/
  | start {memory : Memory} {config : Config} {h : Heap} : memory.size = 0 →
    (Heap.setup memory config).outcome = .ok (.ok h) → LegalRun Ledger.empty h
  /-- One more call was answered. -/
  | step {held : Ledger} {h h' : Heap} {call : Call} {reply : Reply} : LegalRun held h →
    call.Legal h held → (h.perform call).outcome = .ok (reply, h') →
    LegalRun (held.after h' call reply) h'

/-- Allocating is always legal. -/
theorem LegalRun.allocate {held : Ledger} {h h' : Heap} {request : Nat} {reply : Reply}
    (hr : LegalRun held h) (hrun : (h.perform (.allocate request)).outcome = .ok (reply, h')) :
    LegalRun (held.after h' (.allocate request) reply) h' :=
  hr.step trivial hrun

/-- The ledger and the blocks in use are the same. -/
structure Ledger.Matches (held : Ledger) (h : Heap) (bs : List Block) : Prop where
  bytes_eq : ∀ u ∈ Block.inUse bs, held u.start = some (h.contents u)
  block_of_live : ∀ p, held p ≠ none → ∃ u ∈ Block.inUse bs, u.start = p

/-- What a legal run keeps: the heap is in good order, and the ledger is right. -/
structure Tracked (held : Ledger) (h : Heap) (bs : List Block) (f : Filing) : Prop where
  holds : h.Holds bs f
  ne_nil : bs ≠ []
  prologue_eq : h.prologue = 8
  matches_use : held.Matches h bs

/-- What a caller may expect of a pointer that it is handed out. -/
structure NewPointer (held : Ledger) (request : Nat) (h : Heap) (p : Nat) : Prop where
  aligned : p % 16 = 0
  not_live : held p = none
  payload : ∃ bytes, h.payload p = .ok (.ok bytes) ∧ request ≤ bytes.size ∧
    p + bytes.size ≤ h.arena.size

/-- The payload bytes that a call asks for. -/
def Call.request : Call → Nat
  | .allocate request => request
  | .reallocate _ request => request
  | _ => 0

variable {held : Ledger} {h h' : Heap} {bs bs' : List Block} {f f' : Filing} {u v : Block}
  {p request : Nat}

namespace Heap

/-- The payload of a block in use is its contents. -/
theorem Holds.payload (hh : h.Holds bs f) (hu : u ∈ Block.inUse bs) :
    h.payload u.start = .ok (.ok (h.contents u)) := by
  obtain ⟨hmem, hused⟩ := Block.mem_inUse_iff.mp hu
  obtain ⟨hnames, hblock⟩ := hh.names hmem hused
  rw [hnames.payload, hblock]

private theorem Holds.found (hh : h.Holds bs f) (hu : u ∈ Block.inUse bs) :
    Ledger.found h u.start = some (h.contents u) := by
  rw [Ledger.found, hh.payload hu]

/-- The payload of a block is what its two tags leave of it. -/
@[simp] theorem size_contents (h : Heap) (b : Block) : (h.contents b).size = b.size - 16 :=
  Bytes.size_tabulate ..

/-- Contents are kept with the bytes of the payload. -/
theorem contents_congr (hkeep : ∀ j, u.InPayload j →
    h'.arena.memory.read j = h.arena.memory.read j) : h'.contents u = h.contents u := by
  apply Bytes.ext (by simp)
  intro i
  simp only [contents, Bytes.read_tabulate]
  by_cases hi : i < u.size - 16
  · have hin : u.InPayload (u.start + i) := by
      unfold Block.InPayload
      omega
    rw [if_pos hi, if_pos hi, hkeep _ hin]
  · rw [if_neg hi, if_neg hi]

end Heap

/-- An arena that keeps the payload of a block keeps its contents. -/
theorem Arena.Keeps.contents_eq (hk : h.arena.Keeps h'.arena bs) (hu : u ∈ bs) :
    h'.contents u = h.contents u :=
  Heap.contents_congr (hk u hu)

namespace Ledger.Matches

/-- A pointer that is handed out is entered with what lies behind it. -/
theorem gain (hm : held.Matches h bs) (hg : h.Gains bs h' bs' f' u) :
    (held.set u.start (found h' u.start)).Matches h' bs' := by
  have hu : u ∈ Block.inUse bs' := (hg.mem_iff u).mpr (Or.inl rfl)
  constructor
  · intro c hc
    rcases (hg.mem_iff c).mp hc with rfl | hold
    · rw [set, if_pos rfl, hg.holds.found hc]
    · rw [set, if_neg (hg.fresh c hold), hm.bytes_eq c hold, hg.keeps.contents_eq hold]
  · intro p hp
    by_cases heq : p = u.start
    · exact ⟨u, hu, heq.symm⟩
    · rw [set, if_neg heq] at hp
      obtain ⟨c, hc, hstart⟩ := hm.block_of_live p hp
      exact ⟨c, (hg.mem_iff c).mpr (Or.inr hc), hstart⟩

/-- A pointer that is given back is struck out. -/
theorem lose (hm : held.Matches h bs) (hh : h.Holds bs f) (hu : u ∈ Block.inUse bs)
    (hl : h.Loses bs h' bs' f' u) : (held.set u.start none).Matches h' bs' := by
  constructor
  · intro c hc
    obtain ⟨hne, hold⟩ := (hl.mem_iff c).mp hc
    have hstart : c.start ≠ u.start := fun heq => hne (hh.eq_of_start_eq hold hu heq)
    rw [set, if_neg hstart, hm.bytes_eq c hold, hl.keeps.contents_eq hc]
  · intro p hp
    by_cases heq : p = u.start
    · rw [set, if_pos heq] at hp
      exact absurd rfl hp
    · rw [set, if_neg heq] at hp
      obtain ⟨c, hc, hstart⟩ := hm.block_of_live p hp
      refine ⟨c, (hl.mem_iff c).mpr ⟨fun hcu => heq ?_, hc⟩, hstart⟩
      rw [← hstart, hcu]

/-- When a payload moves, its new pointer takes the place of the old one. -/
theorem move (hm : held.Matches h bs) (hh : h.Holds bs f) (hu : u ∈ Block.inUse bs)
    (hv : h.Moves bs h' bs' f' u v request) :
    ((held.set u.start none).set v.start (found h' v.start)).Matches h' bs' := by
  have hvmem : v ∈ Block.inUse bs' := (hv.mem_iff v).mpr (Or.inl rfl)
  constructor
  · intro c hc
    rcases (hv.mem_iff c).mp hc with rfl | ⟨hne, hold⟩
    · rw [set, if_pos rfl, hv.holds.found hc]
    · have hstart : c.start ≠ u.start := fun heq => hne (hh.eq_of_start_eq hold hu heq)
      have hkept : c ∈ (Block.inUse bs).filter (· ≠ u) := by
        rw [List.mem_filter, decide_eq_true_eq]
        exact ⟨hold, hne⟩
      rw [set, if_neg (hv.fresh c hold), set, if_neg hstart, hm.bytes_eq c hold,
        hv.keeps.contents_eq hkept]
  · intro p hp
    by_cases heqv : p = v.start
    · exact ⟨v, hvmem, heqv.symm⟩
    · rw [set, if_neg heqv] at hp
      by_cases heq : p = u.start
      · rw [set, if_pos heq] at hp
        exact absurd rfl hp
      · rw [set, if_neg heq] at hp
        obtain ⟨c, hc, hstart⟩ := hm.block_of_live p hp
        refine ⟨c, (hv.mem_iff c).mpr (Or.inr ⟨fun hcu => heq ?_, hc⟩), hstart⟩
        rw [← hstart, hcu]

/-- Writing through a pointer changes its own bytes. -/
theorem write {a : Arena} (hm : held.Matches h bs) (hh : h.Holds bs f) (hu : u ∈ Block.inUse bs)
    (hkeep : h.arena.Keeps a (bs.filter (· ≠ u))) {g : ByteArray → ByteArray}
    (hbytes : Heap.contents ⟨a, h.buckets, h.config, h.prologue, h.rover⟩ u = g (h.contents u)) :
    (held.set u.start ((held u.start).map g)).Matches
      ⟨a, h.buckets, h.config, h.prologue, h.rover⟩ bs := by
  constructor
  · intro c hc
    by_cases hcu : c = u
    · rw [hcu, set, if_pos rfl, hm.bytes_eq u hu, Option.map_some, hbytes]
    · have hstart : c.start ≠ u.start := fun heq => hcu (hh.eq_of_start_eq hc hu heq)
      have hkept : c ∈ bs.filter (· ≠ u) := by
        rw [List.mem_filter, decide_eq_true_eq]
        exact ⟨(Block.mem_inUse_iff.mp hc).1, hcu⟩
      rw [set, if_neg hstart, hm.bytes_eq c hc]
      exact congrArg some (Heap.contents_congr (hkeep c hkept)).symm
  · intro p hp
    by_cases heq : p = u.start
    · exact ⟨u, hu, heq.symm⟩
    · rw [set, if_neg heq] at hp
      exact hm.block_of_live p hp

end Ledger.Matches

/-- A pointer of a gained block is as a caller may expect. -/
theorem Heap.Holds.newPointer (hh : h'.Holds bs' f') (hu : u ∈ Block.inUse bs')
    (hsize : blockSize request ≤ u.size) (hlive : held u.start = none) :
    NewPointer held request h' u.start := by
  have hmem := (Block.mem_inUse_iff.mp hu).1
  have hbounds := hh.divided.bounds hmem
  have hrequest := (blockSize_spec request).1
  refine ⟨hh.divided.start_mod hmem, hlive, h'.contents u, hh.payload hu, ?_, ?_⟩
  · rw [size_contents]
    omega
  · rw [size_contents]
    omega

namespace Tracked

/-- A call that is refused leaves what is held. -/
theorem refused (ht : Tracked held h bs f) (e : HeapError) : Tracked held (h.refused e) bs f :=
  ⟨ht.holds.refused e, ht.ne_nil, ht.prologue_eq, ht.matches_use.bytes_eq,
    ht.matches_use.block_of_live⟩

/-- What is tracked when a block was given back. -/
theorem lose (ht : Tracked held h bs f) (hu : u ∈ Block.inUse bs)
    (hl : h.Loses bs h' bs' f' u) : Tracked (held.set u.start none) h' bs' f' := by
  refine ⟨hl.holds, ?_, hl.alike.prologue_eq.trans ht.prologue_eq,
    ht.matches_use.lose ht.holds hu hl⟩
  obtain ⟨c, hc, -⟩ := hl.covered u (Block.mem_inUse_iff.mp hu).1
  exact List.ne_nil_of_mem hc

/-- An accepted pointer is that of a block in use, or does not pass the test. -/
theorem accepted (ht : Tracked held h bs f) (ha : h.Accepts held p) :
    (∃ u ∈ Block.inUse bs, u.start = p) ∨ ¬ h.Names p := by
  rcases ha with hlive | hrefused
  · exact Or.inl (ht.matches_use.block_of_live p hlive)
  · right
    intro hn
    rw [hn.resolve] at hrefused
    cases hrefused

/-- A pointer where no block in use starts is not live. -/
theorem not_live (ht : Tracked held h bs f) (hfresh : ∀ c ∈ Block.inUse bs, c.start ≠ p) :
    held p = none := by
  by_contra hlive
  obtain ⟨c, hc, hstart⟩ := ht.matches_use.block_of_live p hlive
  exact hfresh c hc hstart

/-- Allocating is answered and tracked. -/
theorem allocate (ht : Tracked held h bs f) (request : Nat) :
    ∃ answer h' bs' f', (h.allocate request).outcome = .ok (answer, h') ∧
      Tracked (held.after h' (.allocate request) (.pointer answer)) h' bs' f' ∧
      ∀ p, answer = .ok (some p) → NewPointer held request h' p := by
  rcases ht.holds.allocate request with
    ⟨-, hrun⟩ | ⟨h', bs', f', u, -, hrun, hg, hsize⟩ | ⟨e, hrun, -⟩
  · exact ⟨_, _, _, _, hrun, ht, fun p hp => by cases hp⟩
  · have hu : u ∈ Block.inUse bs' := (hg.mem_iff u).mpr (Or.inl rfl)
    have hne : bs' ≠ [] := List.ne_nil_of_mem (Block.mem_inUse_iff.mp hu).1
    refine ⟨_, _, bs', f', hrun, ⟨hg.holds, hne, hg.alike.prologue_eq.trans ht.prologue_eq,
      ht.matches_use.gain hg⟩, fun p hp => ?_⟩
    cases hp
    exact hg.holds.newPointer hu hsize (ht.not_live hg.fresh)
  · exact ⟨_, _, _, _, hrun, ht.refused e, fun p hp => by cases hp⟩

/-- Giving back is answered and tracked. -/
theorem release (ht : Tracked held h bs f) {pointer : Option Nat}
    (hlegal : (Call.release pointer).Legal h held) :
    ∃ answer h' bs' f', (h.release pointer).outcome = .ok (answer, h') ∧
      Tracked (held.after h' (.release pointer) (.done answer)) h' bs' f' := by
  cases pointer with
  | none => exact ⟨_, _, _, _, Heap.release_none h, ht⟩
  | some p =>
    rcases ht.accepted hlegal with ⟨u, hu, rfl⟩ | hn
    · obtain ⟨h', bs', f', hrun, hl⟩ := ht.holds.release hu
      exact ⟨_, _, bs', f', hrun, ht.lose hu hl⟩
    · exact ⟨_, _, _, _, Heap.release_of_not hn, ht⟩

/-- Moving is answered and tracked. -/
theorem reallocate (ht : Tracked held h bs f) {pointer : Option Nat} {request : Nat}
    (hlegal : (Call.reallocate pointer request).Legal h held) :
    ∃ answer h' bs' f', (h.reallocate pointer request).outcome = .ok (answer, h') ∧
      Tracked (held.after h' (.reallocate pointer request) (.pointer answer)) h' bs' f' ∧
      ∀ p, answer = .ok (some p) → NewPointer held request h' p := by
  cases pointer with
  | none =>
    obtain ⟨answer, h', bs', f', hrun, htracked, hnew⟩ := ht.allocate request
    refine ⟨answer, h', bs', f', hrun, ?_, hnew⟩
    rcases answer with e | _ | q
    · exact htracked
    · exact htracked
    · exact htracked
  | some p =>
    rcases ht.accepted hlegal with ⟨u, hu, rfl⟩ | hn
    · rcases Nat.eq_zero_or_pos request with rfl | hpos
      · obtain ⟨h', bs', f', hrun, hl⟩ := ht.holds.release hu
        refine ⟨.ok none, h', bs', f', ?_, ht.lose hu hl, fun p hp => by cases hp⟩
        rw [Heap.reallocate_zero, hrun]
        rfl
      · rcases ht.holds.reallocate hu hpos with
          ⟨h', bs', f', v, hrun, hv, hsize⟩ | ⟨e, hrun, -⟩
        · have hvmem : v ∈ Block.inUse bs' := (hv.mem_iff v).mpr (Or.inl rfl)
          have hne : bs' ≠ [] := List.ne_nil_of_mem (Block.mem_inUse_iff.mp hvmem).1
          refine ⟨_, h', bs', f', hrun, ⟨hv.holds, hne,
            hv.alike.prologue_eq.trans ht.prologue_eq, ht.matches_use.move ht.holds hu hv⟩,
            fun p hp => ?_⟩
          cases hp
          exact hv.holds.newPointer hvmem hsize (ht.not_live hv.fresh)
        · exact ⟨_, _, _, _, hrun, ht.refused e, fun p hp => by cases hp⟩
    · exact ⟨_, _, _, _, Heap.reallocate_of_not hn, ht, fun p hp => by cases hp⟩

/-- Writing is answered and tracked. -/
theorem write (ht : Tracked held h bs f) {position count : Nat} {g : Nat → UInt8}
    (hlegal : (Call.write p position count g).Legal h held) :
    ∃ answer h', h.writePayload p position count g = .ok (answer, h') ∧
      Tracked (held.after h' (.write p position count g) (.written answer)) h' bs f := by
  rcases ht.accepted hlegal with ⟨u, hu, rfl⟩ | hn
  · obtain ⟨hmem, hused⟩ := Block.mem_inUse_iff.mp hu
    obtain ⟨hnames, hblock⟩ := ht.holds.names hmem hused
    obtain ⟨a, written, hrun, hedit, hbytes⟩ := hnames.writePayload position count g
    rw [hblock] at hedit hbytes
    obtain ⟨hh, hkeep⟩ := ht.holds.overwrite hmem hedit
    exact ⟨_, _, hrun, hh, ht.ne_nil, ht.prologue_eq,
      ht.matches_use.write ht.holds hu hkeep hbytes⟩
  · exact ⟨_, _, Heap.writePayload_of_not hn position count g, ht⟩

/-- Every legal call is answered, and the ledger stays right. -/
theorem step (ht : Tracked held h bs f) {call : Call} (hlegal : call.Legal h held) :
    ∃ reply h' bs' f', (h.perform call).outcome = .ok (reply, h') ∧
      Tracked (held.after h' call reply) h' bs' f' ∧
      ∀ p, reply = .pointer (.ok (some p)) → NewPointer held call.request h' p := by
  cases call with
  | allocate request =>
    obtain ⟨answer, h', bs', f', hrun, htracked, hnew⟩ := ht.allocate request
    refine ⟨.pointer answer, h', bs', f', by simp [Heap.perform, hrun], htracked, ?_⟩
    intro p hp
    cases hp
    exact hnew p rfl
  | release pointer =>
    obtain ⟨answer, h', bs', f', hrun, htracked⟩ := ht.release hlegal
    exact ⟨.done answer, h', bs', f', by simp [Heap.perform, hrun], htracked,
      fun p hp => by cases hp⟩
  | reallocate pointer request =>
    obtain ⟨answer, h', bs', f', hrun, htracked, hnew⟩ := ht.reallocate hlegal
    refine ⟨.pointer answer, h', bs', f', by simp [Heap.perform, hrun], htracked, ?_⟩
    intro p hp
    cases hp
    exact hnew p rfl
  | read offset =>
    obtain ⟨answer, hread⟩ := h.payload_total offset
    exact ⟨.bytes answer, h, bs, f, by simp [Heap.perform, hread], ht, fun p hp => by cases hp⟩
  | write offset position count g =>
    obtain ⟨answer, h', hrun, htracked⟩ := ht.write hlegal
    exact ⟨.written answer, h', bs, f, by simp [Heap.perform, hrun], htracked,
      fun p hp => by cases hp⟩
  | audit verbose =>
    obtain ⟨scan, -, haudit⟩ := h.audit_eq verbose ht.holds.le_prologue
    exact ⟨.violations (h.findings scan), h, bs, f, by simp [Heap.perform, haudit], ht,
      fun p hp => by cases hp⟩
  | totals =>
    obtain ⟨t, htotals⟩ : ∃ t, h.totals = .ok t := ⟨_, ht.holds.totals⟩
    exact ⟨.totals t, h, bs, f, by simp [Heap.perform, htotals], ht, fun p hp => by cases hp⟩

end Tracked

/-- A legal run keeps the heap in good order and the ledger right. -/
theorem LegalRun.tracked (hr : LegalRun held h) : ∃ bs f, Tracked held h bs f := by
  induction hr with
  | start hempty hsetup =>
    obtain ⟨⟨f, hh⟩, hprologue⟩ := Heap.holds_of_setup hempty hsetup
    refine ⟨_, f, hh, List.cons_ne_nil _ _, hprologue, fun u hu => ?_, fun p hp => absurd rfl hp⟩
    rw [Block.inUse_cons_of_free rfl] at hu
    cases hu
  | step _ hlegal hrun ih =>
    obtain ⟨bs, f, ht⟩ := ih
    obtain ⟨reply, h', bs', f', hanswer, htracked, -⟩ := ht.step hlegal
    rw [hrun] at hanswer
    cases hanswer
    exact ⟨bs', f', htracked⟩

end SegregatedFit
