import SegregatedFit.Proofs.Confinement
import SegregatedFit.Proofs.Histories
import SegregatedFit.Session

/-!
# Requests

What can be asked of a session, and what a caller is shown. The same requests can be served by hand
with a heap alone: an address is turned into an offset by the subtraction of the machine, the
request is put to the heap as a call, and the reply is shown as an address or a number. Without a
heap there is nothing to call.
-/

namespace SegregatedFit

/-- What a caller can ask of a session, by the addresses of the machine. -/
inductive Request where
  /-- A new heap in a region of a host. -/
  | setup (host : Host)
  /-- A block. -/
  | malloc (request : Nat)
  /-- To give the block at an address back. -/
  | free (address : UInt64)
  /-- To move the payload at an address to a block for another request. -/
  | realloc (address : UInt64) (request : Nat)
  /-- What is wrong. -/
  | check (verbose : Bool)
  /-- Nothing: the caller writes bytes from an address on by itself. -/
  | store (address : UInt64) (count : Nat) (f : Nat → UInt8)

/-- What a caller is shown. -/
inductive Response where
  /-- A number. -/
  | code (value : Int)
  /-- An address, zero for none. -/
  | address (value : Nat)
  /-- Nothing. -/
  | nothing
  deriving DecidableEq

/-- Serves one request. A heap that cannot be set up leaves the session with the one it has. -/
def Session.serve (s : Session) : Request → Run (Response × Session)
  | .setup host => do
    let (code, new) ← setup { s with host }
    return (.code code, if code = 0 then new else s)
  | .malloc request => do
    let (address, s) ← s.malloc request
    return (.address address, s)
  | .free address => do
    let s ← s.free address.toNat
    return (.nothing, s)
  | .realloc address request => do
    let (address, s) ← s.realloc address.toNat request
    return (.address address, s)
  | .check verbose => do
    let code ← s.check verbose
    return (.code code, s)
  | .store address count f => do
    let s ← s.store address.toNat count f
    return (.nothing, s)

/-! The same with a heap alone. -/

/-- A region of the default size of which nothing is granted yet. -/
def Memory.region : Memory := .reserved ⟨ByteArray.empty, 0, 20971520, Nat.zero_le _, by decide⟩

/-- A heap and the address at which its region begins. -/
structure Placed where
  /-- The address of offset zero. -/
  base : Nat
  /-- The heap. -/
  heap : Heap

/-- What the reply to a call looks like to a caller. -/
def Reply.shown (base : Nat) : Reply → Response
  | .pointer (.ok (some p)) => .address (base + p)
  | .pointer _ => .address 0
  | .violations found => .code found.length
  | _ => .nothing

namespace Placed

/-- The offset of an address, by the subtraction of the machine. The address zero has none. -/
def offset? (p : Placed) (address : UInt64) : Option Nat :=
  if address = 0 then none else some (address - UInt64.ofNat p.base).toNat

/-- Does a call on the heap and shows its reply. -/
def perform (p : Placed) (call : Call) : Except Fault (Response × Option Placed) := do
  let (reply, h) ← (p.heap.perform call).outcome
  return (reply.shown p.base, some { p with heap := h })

/-- Writes over bytes of the region, granted or not. -/
def overwrite (p : Placed) (address count : Nat) (f : Nat → UInt8) : Except Fault Placed :=
  let ⟨base, ⟨memory, granted⟩, buckets, config, prologue, rover⟩ := p
  if base ≤ address ∧ address - base + count ≤ memory.limit then
    .ok ⟨base, ⟨memory.write (address - base) count f, granted⟩, buckets, config, prologue, rover⟩
  else .error .outOfRange

/-- Serves one request by a call on the heap, if there is one yet. To set up a heap is to set it up
in a region of its own, whatever was there before. -/
def serve : Option Placed → Request → Except Fault (Response × Option Placed)
  | current, .setup host => do
    match ← (Heap.setup Memory.region {}).outcome with
    | .ok h => return (.code 0, some ⟨host.base, h⟩)
    | .error _ => return (.code (-1), current)
  | none, .malloc _ => .ok (.address 0, none)
  | none, .free _ => .ok (.nothing, none)
  | none, .realloc _ _ => .ok (.address 0, none)
  | none, .check _ => .ok (.code (-1), none)
  | none, .store _ _ _ => .error .outOfRange
  | some p, .malloc request => p.perform (.allocate request)
  | some p, .free address => p.perform (.release (p.offset? address))
  | some p, .realloc address request => p.perform (.reallocate (p.offset? address) request)
  | some p, .check verbose => p.perform (.audit verbose)
  | some p, .store address count f => do
    return (.nothing, some (← p.overwrite address.toNat count f))

end Placed

/-- A host that sets aside a region of the default size, at an address that is not zero. -/
structure Host.Reserves (host : Host) : Prop where
  base_pos : 0 < host.base
  base_lt : host.base < wordLimit
  le_room : 20971520 ≤ host.room

/-- What a request must not lack: a heap is only set up where a region can be set aside. -/
def Request.Served : Request → Prop
  | setup host => host.Reserves
  | _ => True

/-- What comes of one step after the other, up to the first fault. -/
def Walk.ofSteps {σ δ α : Type} (step : σ → δ → Except Fault (α × σ)) (s : σ) :
    List δ → Walk (α × σ)
  | [] => .done
  | d :: rest =>
    match step s d with
    | .ok (a, s) => .cons (a, s) (ofSteps step s rest)
    | .error fault => .broken fault

/-- A step that succeeds is the first item of the walk, and the walk goes on from its state. -/
theorem Walk.ofSteps_cons {σ δ α : Type} {step : σ → δ → Except Fault (α × σ)} {s s' : σ} {d : δ}
    {a : α} (h : step s d = .ok (a, s')) (rest : List δ) :
    ofSteps step s (d :: rest) = .cons (a, s') (ofSteps step s' rest) := by
  rw [ofSteps, h]

/-- If each step is a step on what the states stand for, and stays among the good states, then so
is one step after the other. -/
theorem Walk.ofSteps_map {σ τ δ α : Type} {step : σ → δ → Except Fault (α × σ)}
    {step' : τ → δ → Except Fault (α × τ)} {image : σ → τ} {good : σ → Prop} {allowed : δ → Prop}
    (hstep : ∀ s d, good s → allowed d →
      step' (image s) d = (step s d).map (fun x => (x.1, image x.2)) ∧
        Yields (fun x => good x.2) (step s d))
    {s : σ} (hs : good s) {ds : List δ} (hds : ∀ d ∈ ds, allowed d) :
    ofSteps step' (image s) ds = (ofSteps step s ds).map (fun x => (x.1, image x.2)) ∧
      ∀ x ∈ (ofSteps step s ds).items, good x.2 := by
  induction ds generalizing s with
  | nil => exact ⟨rfl, fun x hx => by cases hx⟩
  | cons d rest ih =>
    obtain ⟨hd, hrest⟩ := List.forall_mem_cons.mp hds
    obtain ⟨hsame, hgood⟩ := hstep s d hs hd
    rw [ofSteps, ofSteps, hsame]
    cases hresult : step s d with
    | error fault => exact ⟨rfl, fun x hx => by cases hx⟩
    | ok result =>
      have hnext := hgood result hresult
      obtain ⟨hwalk, hitems⟩ := ih hnext hrest
      refine ⟨?_, List.forall_mem_cons.mpr ⟨hnext, hitems⟩⟩
      simp only [Except.map, hwalk]
      rfl

namespace Session

/-- The heap of a session as it lies at its address. -/
def placed (s : Session) : Option Placed := s.heap.map fun h => ⟨s.host.base, h⟩

/-- What a caller is shown for a sequence of requests, and the session behind each. -/
def story (s : Session) (requests : List Request) : Walk (Response × Session) :=
  Walk.ofSteps (fun s request => (s.serve request).outcome) s requests

end Session

/-- The same for a heap alone, beginning without one. -/
def Placed.story (requests : List Request) : Walk (Response × Option Placed) :=
  Walk.ofSteps Placed.serve none requests

end SegregatedFit
