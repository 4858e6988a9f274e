import SegregatedFit.Proofs.FindingCounts
import SegregatedFit.Proofs.Requests

/-!
# Sessions are calls on a heap

A session adds three things to a heap: addresses instead of offsets, with zero for no address, one
number instead of an answer, and a heap that can be set up anew. What a caller is shown for a
sequence of requests is therefore what the calls on the heap itself are answered with, and the heap
is the same at each step. Requests may come in any order and with any addresses, and in between the
caller may write over any bytes of the region.
-/

namespace SegregatedFit

/-- A heap in good order lists only offsets of blocks. -/
theorem Heap.Holds.confined {h : Heap} {bs : List Block} {f : Filing} (hh : h.Holds bs f) :
    h.Confined h.config h.prologue h.arena.memory.limit := by
  refine ⟨rfl, rfl, rfl, fun x hx => ?_⟩
  obtain ⟨c, hmem⟩ := hh.files.linksOf_isSome_iff.mp (Option.isSome_iff_ne_none.mpr hx)
  obtain ⟨b, hb, -, rfl, -⟩ := (hh.filed c x).mp hmem
  have hbounds := hh.divided.bounds hb
  have hle := h.arena.memory.size_le_limit
  have hsize : h.arena.size = h.arena.memory.size := rfl
  omega

namespace Session

variable {s s' : Session} {host : Host} {h : Heap}

/-- The settings of every heap of a session. -/
abbrev settings : Config := Config.rounded {}

/-- What the heap of a session keeps, if there is one. -/
def Housed (s : Session) : Prop :=
  ∀ h, s.heap = some h → s.host.Reserves ∧ h.Confined settings 8 20971520

/-- A new region always has room for a heap. -/
theorem setup_region : ∃ h, (Heap.setup Memory.region {}).outcome = .ok (.ok h) ∧
    h.Confined settings 8 20971520 := by
  obtain ⟨h, hsetup, hh, hprologue, -, hconfig, hlimit, -⟩ :=
    @Heap.setup_of_le Memory.region {} rfl (by decide) (by decide)
  refine ⟨h, hsetup, ?_⟩
  have hc := hh.confined
  rwa [hconfig, hprologue, hlimit] at hc

/-- On a host that can set aside a region, a heap is set up there. -/
theorem createHeap_eq (hhost : host.Reserves) : createHeap host = Heap.setup Memory.region {} := by
  have hreserve : Memory.reserve host.room ({} : Config).ceiling = .ok Memory.region :=
    dif_pos ⟨by decide, hhost.le_room⟩
  unfold createHeap
  simp only [hreserve]

/-- Both ways to count offsets around the end of the address space agree. -/
theorem toOffset_eq (p : Placed) (hhost : host.Reserves) (hbase : p.base = host.base)
    (address : UInt64) : toOffset host address.toNat = p.offset? address := by
  have hlimit : wordLimit = 2 ^ 64 := rfl
  have hlt : host.base < 2 ^ 64 := hhost.base_lt
  unfold toOffset Placed.offset?
  by_cases hzero : address = 0
  · subst hzero
    rfl
  · have hne : address.toNat ≠ 0 := fun heq => hzero (UInt64.toNat_inj.mp heq)
    rw [if_neg hzero, if_neg hne, UInt64.toNat_sub, hbase, UInt64.toNat_ofNat',
      Nat.mod_eq_of_lt hlt, hlimit]
    congr 2
    omega

private theorem shown_pointer (host : Host) (answer : Answer (Option Nat)) :
    (Reply.pointer answer).shown host.base = .address (show? host answer) := by
  rcases answer with e | _ | p
  · rfl
  · rfl
  · rfl

/-- What comes of a request does not depend on whether it is served by the session or by its heap
alone. -/
theorem serve_eq (hs : s.Housed) {request : Request} (hserved : request.Served) :
    Placed.serve s.placed request =
      (s.serve request).outcome.map (fun x => (x.1, x.2.placed)) := by
  obtain ⟨host, heap⟩ := s
  cases request with
  | setup host' =>
    obtain ⟨h, hsetup, -⟩ := setup_region
    simp only [Placed.serve, serve, setup, Run.outcome_bind, createHeap_eq hserved, hsetup,
      Fault.ok_bind]
    rfl
  | malloc request =>
    cases heap with
    | none => rfl
    | some h =>
      simp only [Placed.serve, placed, Placed.perform, Heap.perform, serve, malloc,
        Run.outcome_bind, Option.map_some]
      cases (h.allocate request).outcome with
      | error fault => rfl
      | ok x => exact congrArg (fun shown => Except.ok (shown, _)) (shown_pointer host x.1)
  | free address =>
    cases heap with
    | none => rfl
    | some h =>
      -- the region does not wrap around, so address and offset name the same place
      have hoffset := toOffset_eq ⟨host.base, h⟩ (hs h rfl).1 rfl address
      simp only [Placed.serve, placed, Placed.perform, Heap.perform, serve, free,
        Run.outcome_bind, Option.map_some, hoffset]
      cases (h.release _).outcome with
      | error fault => rfl
      | ok x =>
        obtain ⟨e | _, h'⟩ := x
        · rfl
        · rfl
  | realloc address request =>
    cases heap with
    | none => rfl
    | some h =>
      have hoffset := toOffset_eq ⟨host.base, h⟩ (hs h rfl).1 rfl address
      simp only [Placed.serve, placed, Placed.perform, Heap.perform, serve, realloc,
        Run.outcome_bind, Option.map_some, hoffset]
      cases (h.reallocate _ request).outcome with
      | error fault => rfl
      | ok x => exact congrArg (fun shown => Except.ok (shown, _)) (shown_pointer host x.1)
  | check verbose =>
    cases heap with
    | none => rfl
    | some h =>
      -- a housed heap is too small for more violations than a report can count
      have hfew := (hs h rfl).2.audit (by decide) verbose
      simp only [Placed.serve, placed, Placed.perform, Heap.perform, serve, check,
        Run.outcome_bind, Option.map_some]
      cases haudit : (h.audit verbose).outcome with
      | error fault => rfl
      | ok found =>
        have hle : found.length ≤ reportLimit := Nat.le_trans (hfew found haudit) (by decide)
        simp only [Fault.ok_bind, Run.outcome_pure, Nat.min_eq_left hle]
        rfl
  | store address count f =>
    cases heap with
    | none => rfl
    | some h =>
      simp only [Placed.serve, placed, Placed.overwrite, serve, store, locate, Run.outcome_bind,
        Run.outcome_liftM, Option.map_some]
      split <;> rfl

/-- A session keeps its heap in bounds. -/
theorem Housed.serve (hs : s.Housed) {request : Request} (hserved : request.Served) :
    Yields (fun x => x.2.Housed) (s.serve request).outcome := by
  obtain ⟨host, heap⟩ := s
  have hnone {shown : Response} : Yields (fun x : Response × Session => x.2.Housed)
      (.ok (shown, ⟨host, none⟩)) := .ok fun h hh => by cases hh
  have hhoused {h : Heap} (hhost : host.Reserves) (hc : h.Confined settings 8 20971520) :
      Housed ⟨host, some h⟩ := fun h' hh => by
    cases hh
    exact ⟨hhost, hc⟩
  cases request with
  | setup host' =>
    obtain ⟨h, hsetup, hc⟩ := setup_region
    simp only [Session.serve, setup, Run.outcome_bind, createHeap_eq hserved, hsetup, Fault.ok_bind]
    refine .ok fun h' hh => ?_
    cases hh
    exact ⟨hserved, hc⟩
  | malloc request =>
    cases heap with
    | none => exact hnone
    | some h =>
      obtain ⟨hhost, hc⟩ := hs h rfl
      simp only [Session.serve, malloc, Run.outcome_bind, bind_assoc, Run.outcome_pure,
        Fault.ok_bind]
      exact (hc.allocate request).bind fun x hc => .ok (hhoused hhost hc)
  | free address =>
    cases heap with
    | none => exact hnone
    | some h =>
      obtain ⟨hhost, hc⟩ := hs h rfl
      simp only [Session.serve, free, Run.outcome_bind, bind_assoc]
      refine (hc.release _).bind ?_
      rintro ⟨e | _, h'⟩ hc
      · exact .ok (hhoused hhost hc)
      · exact .ok (hhoused hhost hc)
  | realloc address request =>
    cases heap with
    | none => exact hnone
    | some h =>
      obtain ⟨hhost, hc⟩ := hs h rfl
      simp only [Session.serve, realloc, Run.outcome_bind, bind_assoc, Run.outcome_pure,
        Fault.ok_bind]
      exact (hc.reallocate _ request).bind fun x hc => .ok (hhoused hhost hc)
  | check verbose =>
    simp only [Session.serve, Run.outcome_bind]
    exact .after fun code _ => .ok hs
  | store address count f =>
    cases heap with
    | none =>
      rintro _ ⟨⟩
    | some h =>
      obtain ⟨hhost, hc⟩ := hs h rfl
      simp only [Session.serve, store, Run.outcome_bind, Run.outcome_liftM, bind_assoc]
      refine .after fun position _ => .ok (hhoused hhost ?_)
      exact ⟨hc.config_eq, hc.prologue_eq, (Memory.limit_write ..).trans hc.arena, hc.buckets⟩

end Session

/-- A request for a block is never answered with no block. -/
theorem Heap.reallocate_ne_none {h h' : Heap} {pointer : Option Nat} {request : Nat}
    (hrequest : request ≠ 0) : (h.reallocate pointer request).outcome ≠ .ok (.ok none, h') := by
  intro hrun
  cases pointer with
  | none =>
    simp only [reallocate, allocate, if_neg hrequest, Run.outcome_bind,
      Fault.bind_eq_ok_iff] at hrun
    obtain ⟨⟨answer, h₁⟩, -, hrun⟩ := hrun
    cases answer with
    | error e => cases hrun
    | ok block =>
      obtain ⟨_, -, hanswer⟩ := Fault.bind_eq_ok_iff.mp ((Run.outcome_bind ..).symm.trans hrun)
      cases hanswer
  | some source =>
    by_cases hn : h.Names source
    · simp only [reallocate, if_neg hrequest, Run.outcome_bind, Run.outcome_liftM, hn.resolve,
        Fault.ok_bind, Fault.bind_eq_ok_iff] at hrun
      obtain ⟨room, -, ⟨answer, h₁⟩, -, hrun⟩ := hrun
      cases answer with
      | error e => cases hrun
      | ok target =>
        simp only [Run.outcome_bind, Fault.bind_eq_ok_iff] at hrun
        obtain ⟨_, -, _, -, _, -, _, -, hanswer⟩ := hrun
        cases hanswer
    · rw [reallocate_of_not hn] at hrun
      cases hrun

/-- A write that fits into a payload puts all of its bytes there. -/
theorem Heap.writePayload_of_fits {h : Heap} {offset position count : Nat} {bytes : ByteArray}
    (hpayload : h.payload offset = .ok (.ok bytes)) (hfits : position + count ≤ bytes.size)
    (f : Nat → UInt8) :
    offset + bytes.size ≤ h.arena.size ∧ h.writePayload offset position count f =
      .ok (.ok count, ⟨⟨h.arena.memory.write (offset + position) count f, h.arena.granted⟩,
        h.buckets, h.config, h.prologue, h.rover⟩) := by
  have hn : h.Names offset := by
    by_contra hn
    rw [payload_of_not hn] at hpayload
    cases hpayload
  rw [hn.payload] at hpayload
  obtain rfl := Except.ok.inj (Except.ok.inj hpayload)
  rw [size_contents] at hfits ⊢
  have hlarge := hn.le_size
  have hinside := hn.end_le
  have hroom : payloadSize (h.blockAt offset).size = .ok ((h.blockAt offset).size - 16) :=
    payloadSize_of_le (Nat.le_trans (by decide) hlarge)
  have hwrite : h.arena.write (offset + position) count f =
      .ok ⟨h.arena.memory.write (offset + position) count f, h.arena.granted⟩ :=
    Arena.write_eq_ok_iff.mpr ⟨by omega, rfl⟩
  refine ⟨by omega, ?_⟩
  simp only [writePayload, hn.resolve, hroom, Fault.ok_bind, Nat.min_eq_left (show position ≤
    (h.blockAt offset).size - 16 by omega), Nat.min_eq_left (show count ≤
    (h.blockAt offset).size - 16 - position by omega), hwrite, Fault.pure_eq_ok]

/-- What a caller can rely on in a session with a heap. -/
structure Session.Reliable (s : Session) (h : Heap) : Prop where
  /-- A call that is answered with an error changes nothing. -/
  refused : ∀ {call reply e h'}, (h.perform call).outcome = .ok (reply, h') →
    reply.error? = some e → h' = h
  /-- When zero is shown in place of a moved block, everything is as it was. -/
  unmoved : ∀ {address request s'}, request ≠ 0 →
    (s.serve (.realloc address request)).outcome = .ok (.address 0, s') → s' = s
  /-- What the caller writes inside the payload of a block in use is what the heap would write. -/
  written : ∀ {offset bytes address position count f}, h.payload offset = .ok (.ok bytes) →
    address.toNat = s.host.base + offset + position → position + count ≤ bytes.size →
    ∃ h', h.writePayload offset position count f = .ok (.ok count, h') ∧
      (s.serve (.store address count f)).outcome = .ok (.nothing, ⟨s.host, some h'⟩)

namespace Session

variable {s s' : Session} {host : Host} {h : Heap}

private theorem Housed.reliable (hs : s.Housed) (hheap : s.heap = some h) : s.Reliable h := by
  obtain ⟨host, _⟩ := s
  cases hheap
  obtain ⟨hhost, hc⟩ := hs h rfl
  have hsame (e : HeapError) : h.refused e = h := by
    have hpolicy : h.config.policy ≠ .nextFit := by
      rw [hc.config_eq]
      decide
    rw [Heap.refused, if_neg fun hboth => hpolicy hboth.1]
  refine ⟨fun hrun herror => ?_, fun {address request s'} hrequest hrun => ?_,
    fun {offset bytes address position count f} hpayload haddress hfits => ?_⟩
  · rw [Heap.perform_error hrun herror, hsame]
  · simp only [Session.serve, realloc, Run.outcome_bind, bind_assoc] at hrun
    obtain ⟨⟨answer, h'⟩, hmoved, hrun⟩ := Fault.bind_eq_ok_iff.mp hrun
    rcases answer with e | _ | p
    · cases hrun
      rw [Heap.reallocate_error hmoved, hsame]
    · exact absurd hmoved (Heap.reallocate_ne_none hrequest)
    · -- no block is shown at the address zero
      have hshown : Response.address (host.base + p) = .address 0 :=
        congrArg Prod.fst (Except.ok.inj hrun)
      have hzero : host.base + p = 0 := Response.address.inj hshown
      have hpos : 0 < host.base := hhost.base_pos
      omega
  · have haddress : address.toNat = host.base + offset + position := haddress
    obtain ⟨hinside, hwrite⟩ := Heap.writePayload_of_fits hpayload hfits f
    have hlimit : h.arena.size ≤ h.arena.memory.limit := h.arena.memory.size_le_limit
    have hlocate : locate ⟨host, some h⟩ address.toNat count = .ok (offset + position) := by
      unfold locate
      dsimp only
      rw [if_pos ⟨by omega, by omega⟩, haddress, Nat.add_assoc, Nat.add_sub_cancel_left]
    refine ⟨_, hwrite, ?_⟩
    simp only [Session.serve, store, Run.outcome_bind, Run.outcome_liftM, hlocate, Fault.ok_bind]
    rfl

/-- For any requests in any order, with any addresses and any writing in between, a caller is shown
the same by a session as by a heap alone whose calls are made by hand, and the heap behind each
request is the same, up to the first fault if there is one. Before the first heap is set up every
request for a block is answered with zero and the number of violations with -1; setting up a heap
always succeeds, and begins with a new heap in a region of its own. Whenever there is a heap, a
call that is answered with an error changes nothing, so that a payload that could not be moved is
where it was, and the caller's own writing inside a payload is that of the heap. -/
theorem story_eq (host : Host) {requests : List Request} (hserved : ∀ r ∈ requests, r.Served) :
    (∃ h, (Heap.setup Memory.region {}).outcome = .ok (.ok h)) ∧
    Placed.story requests =
      ((start host).story requests).map (fun x => (x.1, x.2.placed)) ∧
    ∀ x ∈ ((start host).story requests).items, ∀ h, x.2.heap = some h → x.2.Reliable h := by
  obtain ⟨h, hsetup, -⟩ := setup_region
  have hstart : (start host).Housed := fun h hh => by cases hh
  have hstep (s : Session) (request : Request) (hs : s.Housed) (hrequest : request.Served) :
      Placed.serve s.placed request =
          (s.serve request).outcome.map (fun x => (x.1, x.2.placed)) ∧
        Yields (fun x => x.2.Housed) (s.serve request).outcome :=
    ⟨serve_eq hs hrequest, hs.serve hrequest⟩
  obtain ⟨hwalk, hhoused⟩ := Walk.ofSteps_map hstep hstart hserved
  exact ⟨⟨h, hsetup⟩, hwalk, fun x hx h hheap => (hhoused x hx).reliable hheap⟩

/-- A block asked for too early, a heap, a block, an address that was never handed out, and a
second heap. -/
theorem story_eq_of_refused : ∃ first second : Host, ∃ requests : List Request,
    requests = [.malloc 10, .setup first, .malloc 100, .free 7, .setup second, .check false] ∧
    (∀ r ∈ requests, r.Served) ∧
    Placed.story requests =
      ((start first).story requests).map (fun x => (x.1, x.2.placed)) ∧
    ∃ h, (Heap.setup Memory.region {}).outcome = .ok (.ok h) ∧
      ∃ rest, (Placed.story requests).items =
        (.address 0, none) :: (.code 0, some ⟨first.base, h⟩) :: rest := by
  let first : Host := ⟨65536, 20971520⟩
  let second : Host := ⟨131072, 33554432⟩
  have hfirst : first.Reserves := ⟨by decide, by decide, by decide⟩
  have hsecond : second.Reserves := ⟨by decide, by decide, by decide⟩
  have hserved : ∀ r ∈ [Request.malloc 10, .setup first, .malloc 100, .free 7, .setup second,
      .check false], r.Served := by
    simp [Request.Served, hfirst, hsecond]
  obtain ⟨⟨h, hsetup⟩, hwalk, -⟩ := story_eq first hserved
  have hnone : Placed.serve none (.malloc 10) = .ok (.address 0, none) := rfl
  have hnew : Placed.serve none (.setup first) = .ok (.code 0, some ⟨first.base, h⟩) := by
    simp only [Placed.serve, hsetup, Fault.ok_bind, Fault.pure_eq_ok]
  refine ⟨first, second, _, rfl, hserved, hwalk, h, hsetup, ?_⟩
  rw [Placed.story, Walk.ofSteps_cons hnone, Walk.ofSteps_cons hnew]
  exact ⟨_, rfl⟩

end Session

end SegregatedFit
