import SegregatedFit.Proofs.LegalRuns

/-!
# What legal runs guarantee

Three things hold at each moment of a legal run, for all policies and all histories. The heap
is well formed and no legal call breaks off. The buckets hold exactly the free blocks. And the
heap is a map from live pointers to bytes: each pointer leads to the bytes of the ledger, and
no two of them share any.
-/

namespace SegregatedFit

variable {held : Ledger} {h h' : Heap} {bs : List Block} {f : Filing}

/-- A heap whose blocks lie between the sentinels without gaps, with equal tags at both ends,
no two free ones side by side, all bytes accounted for, and the rover at one of them. -/
structure Heap.WellFormed (h : Heap) (bs : List Block) : Prop where
  prologue_eq : h.prologue = 8
  blocks_eq : h.blocks = ⟨bs, none⟩
  divided : h.arena.Divided 16 bs
  spaced : Block.Spaced bs
  sum_eq : 16 + Block.totalSize bs = h.arena.granted
  granted_eq : h.arena.granted = h.arena.size
  rover_mem : h.rover = h.prologue ∨ h.rover ∈ bs.map Block.start

/-- A heap in good order with the prologue at its usual place is well formed. -/
theorem Heap.Holds.wellFormed (hh : h.Holds bs f) (hprologue : h.prologue = 8) :
    h.WellFormed bs := by
  have hfirst : h.first = 16 := congrArg (· + 8) hprologue
  have hdivided := hh.divided
  rw [hfirst] at hdivided
  have hsize := hdivided.size_eq
  have hgranted := hdivided.granted_eq
  exact ⟨hprologue, hh.blocks_eq, hdivided, hh.spaced, by omega, by omega, hh.rover_mem⟩

namespace Tracked

/-- A heap tracked by a map of live pointers is well formed. -/
theorem wellFormed (ht : Tracked held h bs f) : h.WellFormed bs :=
  ht.holds.wellFormed ht.prologue_eq

private theorem divided (ht : Tracked held h bs f) : h.arena.Divided 16 bs :=
  ht.wellFormed.divided

end Tracked

/-- There is a legal run that leads to a live pointer: one allocation from a new heap. -/
theorem LegalRun.exists_live : ∃ held h, LegalRun held h ∧ ∃ bytes, held 16 = some bytes := by
  let memory : Memory := .growable ⟨ByteArray.empty, 4096, by decide, by decide⟩
  let config : Config := { chunk := 96, policy := .nextFit, audited := true }
  have heval : ((Heap.setup memory config).outcome.toOption.any fun answer =>
      answer.toOption.any fun new =>
        (new.perform (.allocate 30)).outcome.toOption.any fun answered =>
          (Ledger.empty.after answered.2 (.allocate 30) answered.1 16).isSome) = true := by
    decide +kernel
  obtain ⟨_, hsetup, hanswer⟩ := Fault.ok_of_any heval
  obtain ⟨new, rfl, hnew⟩ := Fault.ok_of_any hanswer
  obtain ⟨answered, hcall, hlive⟩ := Fault.ok_of_any hnew
  have hlegal : (Call.allocate 30).Legal new Ledger.empty := trivial
  refine ⟨_, answered.2, (LegalRun.start rfl hsetup).step hlegal hcall, ?_⟩
  exact Option.isSome_iff_exists.mp hlive

/-- In a legal run every heap is well formed, and every legal call has an answer. -/
theorem LegalRun.well_formed (hr : LegalRun held h) :
    (∃ bs, h.WellFormed bs) ∧
      ∀ call : Call, call.Legal h held →
        ∃ reply h', (h.perform call).outcome = .ok (reply, h') := by
  obtain ⟨bs, f, ht⟩ := hr.tracked
  refine ⟨⟨bs, ht.wellFormed⟩, ?_⟩
  intro call hlegal
  obtain ⟨reply, h', -, -, hrun, -⟩ := ht.step hlegal
  exact ⟨reply, h', hrun⟩

/-- A run with a live pointer leads to a well-formed heap. -/
theorem LegalRun.well_formed_of_live : ∃ held h, LegalRun held h ∧ held 16 ≠ none ∧
    ∃ bs, h.WellFormed bs := by
  obtain ⟨held, h, hr, bytes, hlive⟩ := LegalRun.exists_live
  refine ⟨held, h, hr, ?_, hr.well_formed.1⟩
  rw [hlive]
  exact Option.some_ne_none _

/-- The lists of the buckets together are as long as there are free blocks. -/
theorem Heap.Holds.length_listed (hh : h.Holds bs f) :
    f.listed.length = (bs.filter Block.isFree).length := by
  have hperm : f.listed.Perm (Block.freeStarts bs) := by
    have hnodup := Block.nodup_freeStarts hh.divided.nodup
    apply (List.perm_ext_iff_of_nodup hh.files.nodup_listed hnodup).mpr
    intro x
    rw [Filing.mem_listed_iff, Block.mem_freeStarts_iff]
    constructor
    · rintro ⟨c, hx⟩
      obtain ⟨b, hb, hfree, hstart, -⟩ := (hh.filed c x).mp hx
      exact ⟨b, hb, hfree, hstart⟩
    · rintro ⟨b, hb, hfree, hstart⟩
      exact ⟨_, (hh.filed _ x).mpr ⟨b, hb, hfree, hstart, rfl⟩⟩
  rw [hperm.length_eq, Block.length_freeStarts]

/-- In a legal run the buckets hold exactly the free blocks: every bucket lists those of its
class once each, and the table has the links that the list says and no others. -/
theorem LegalRun.buckets_exact (hr : LegalRun held h) :
    ∃ (bs : List Block) (f : Filing), h.blocks = ⟨bs, none⟩ ∧
      (∀ c, h.buckets.walk c = ⟨f c, none⟩ ∧ (f c).Nodup ∧
        h.buckets.length c = (f c).length ∧
        (∀ x, x ∈ f c ↔
          ∃ b ∈ bs, b.isFree = true ∧ b.start = x ∧ SizeClass.ofSize b.size = c) ∧
        ∀ lower x upper, f c = lower ++ x :: upper →
          h.buckets.linksOf x = some ⟨lower.getLast?, upper.head?, c⟩) ∧
      (∀ x, (h.buckets.linksOf x).isSome ↔ ∃ b ∈ bs, b.isFree = true ∧ b.start = x) ∧
      ∃ t, h.totals = .ok t ∧ h.buckets.size = t.freeBlocks := by
  obtain ⟨bs, f, ht⟩ := hr.tracked
  have hh := ht.holds
  refine ⟨bs, f, hh.blocks_eq, fun c => ?_, fun x => ?_, _, hh.totals, ?_⟩
  · exact ⟨hh.files.walk_eq c, hh.files.nodup c, hh.files.length_eq c, hh.filed c,
      fun lower x upper => hh.files.linksOf_eq⟩
  · rw [hh.files.linksOf_isSome_iff]
    constructor
    · rintro ⟨c, hx⟩
      obtain ⟨b, hb, hfree, hstart, -⟩ := (hh.filed c x).mp hx
      exact ⟨b, hb, hfree, hstart⟩
    · rintro ⟨b, hb, hfree, hstart⟩
      exact ⟨_, (hh.filed _ x).mpr ⟨b, hb, hfree, hstart, rfl⟩⟩
  · rw [hh.files.size_eq, hh.length_listed]

/-- In a run with a live pointer the registry has as many blocks as the heap counts free ones. -/
theorem LegalRun.buckets_exact_of_live : ∃ held h, LegalRun held h ∧ held 16 ≠ none ∧
    ∃ t, h.totals = .ok t ∧ h.buckets.size = t.freeBlocks := by
  obtain ⟨held, h, hr, bytes, hlive⟩ := LegalRun.exists_live
  obtain ⟨bs, f, -, -, -, htotals⟩ := hr.buckets_exact
  refine ⟨held, h, hr, ?_, htotals⟩
  rw [hlive]
  exact Option.some_ne_none _

/-- What a call leaves of the bytes behind a pointer that is still live. -/
def Call.written (p : Nat) (bytes : ByteArray) : Call → ByteArray
  | .write q position count g => if q = p then Bytes.write bytes position count g else bytes
  | _ => bytes

/-- Whether a call gives a pointer back. -/
def Call.GivesBack (p : Nat) : Call → Prop
  | .release q => q = some p
  | .reallocate q _ => q = some p
  | _ => False

/-- An entry of the ledger is struck out by a call that gives its pointer back, and otherwise
holds what the call left of its bytes. -/
theorem Ledger.after_of_live {call : Call} {reply : Reply} {p : Nat} {bytes : ByteArray}
    (hlive : held p = some bytes) (hnew : ∀ q, reply = .pointer (.ok (some q)) → p ≠ q)
    (hwrite : ∀ position count g, call = .write p position count g →
      ∃ written, reply = .written (.ok written)) :
    held.after h call reply p = some (call.written p bytes) ∨
      call.GivesBack p ∧ held.after h call reply p = none := by
  have hstruck (q : Nat) (hgives : p = q → call.GivesBack p)
      (hkept : call.written p bytes = bytes) :
      held.set q none p = some (call.written p bytes) ∨
        call.GivesBack p ∧ held.set q none p = none := by
    unfold set
    split
    · next heq => exact Or.inr ⟨hgives heq, rfl⟩
    · rw [hkept]
      exact Or.inl hlive
  unfold after
  split
  · next q =>
    rw [set, if_neg (hnew q rfl)]
    exact Or.inl hlive
  · next q => exact hstruck q (fun heq => heq ▸ rfl) rfl
  · next q =>
    rw [set, if_neg (hnew q rfl)]
    exact Or.inl hlive
  · next q _ => exact hstruck q (fun heq => heq ▸ rfl) rfl
  · next q _ r =>
    have hsame : (held.set q none).set r (found h r) p = held.set q none p := by
      rw [set, if_neg (hnew r rfl)]
    rw [hsame]
    exact hstruck q (fun heq => heq ▸ rfl) rfl
  · next q position count g _ =>
    left
    unfold set
    split
    · next heq =>
      subst heq
      simp [Call.written, hlive]
    · next hne => simp [Call.written, Ne.symm hne, hlive]
  · next hother =>
    have hsame : call.written p bytes = bytes := by
      cases call with
      | write q position count g =>
        have hne : q ≠ p := by
          rintro rfl
          obtain ⟨written, hdone⟩ := hwrite position count g rfl
          exact hother q position count g written rfl hdone
        exact if_neg hne
      | _ => rfl
    rw [hsame]
    exact Or.inl hlive

namespace Tracked

variable {p q : Nat} {bytes bytes' : ByteArray}

/-- A pointer is live exactly when a block in use starts there. -/
theorem live_iff (ht : Tracked held h bs f) :
    held p ≠ none ↔ ∃ b ∈ bs, b.isFree = false ∧ b.start = p := by
  constructor
  · intro hlive
    obtain ⟨u, hu, hstart⟩ := ht.matches_use.block_of_live p hlive
    obtain ⟨hmem, hused⟩ := Block.mem_inUse_iff.mp hu
    exact ⟨u, hmem, hused, hstart⟩
  · rintro ⟨b, hb, hused, rfl⟩
    rw [ht.matches_use.bytes_eq b (Block.mem_inUse_iff.mpr ⟨hb, hused⟩)]
    exact Option.some_ne_none _

/-- The live pointers are where the blocks in use start. -/
theorem live_iff_mem (ht : Tracked held h bs f) {p : Nat} :
    held p ≠ none ↔ p ∈ (Block.inUse bs).map Block.start := by
  rw [ht.live_iff, List.mem_map]
  simp only [Block.mem_inUse_iff, and_assoc]

/-- The bytes of the ledger are the contents of a block in use. -/
theorem block_of_bytes (ht : Tracked held h bs f) (hp : held p = some bytes) :
    ∃ u ∈ Block.inUse bs, u.start = p ∧ h.contents u = bytes := by
  obtain ⟨u, hu, rfl⟩ := ht.matches_use.block_of_live p (by rw [hp]; exact Option.some_ne_none _)
  rw [ht.matches_use.bytes_eq u hu] at hp
  exact ⟨u, hu, rfl, Option.some.inj hp⟩

/-- A live pointer has the bytes as its payload that the map remembers. -/
theorem payload_of_live (ht : Tracked held h bs f) (hp : held p = some bytes) :
    h.payload p = .ok (.ok bytes) := by
  obtain ⟨u, hu, rfl, rfl⟩ := ht.block_of_bytes hp
  exact ht.holds.payload hu

/-- The payloads of two live pointers share no bytes. -/
theorem payloads_apart (ht : Tracked held h bs f) (hp : held p = some bytes)
    (hq : held q = some bytes') (hne : p ≠ q) :
    p + bytes.size ≤ q ∨ q + bytes'.size ≤ p := by
  obtain ⟨u, hu, rfl, rfl⟩ := ht.block_of_bytes hp
  obtain ⟨v, hv, rfl, rfl⟩ := ht.block_of_bytes hq
  have hapart := ht.holds.divided.apart (Block.mem_inUse_iff.mp hu).1 (Block.mem_inUse_iff.mp hv).1
  rw [Heap.size_contents, Heap.size_contents]
  rcases hapart with rfl | hle | hle
  · exact absurd rfl hne
  · omega
  · omega

/-- The payload of a live pointer shares no bytes with a tag or a sentinel. -/
theorem payload_off_tags (ht : Tracked held h bs f) (hp : held p = some bytes) {j : Nat}
    (hlow : p ≤ j) (hhigh : j < p + bytes.size) :
    8 ≤ j ∧ j < h.arena.size - 8 ∧ ∀ b ∈ bs, ¬ b.OnTag j := by
  obtain ⟨u, hu, rfl, rfl⟩ := ht.block_of_bytes hp
  have hmem := (Block.mem_inUse_iff.mp hu).1
  have hbounds := ht.divided.bounds hmem
  rw [Heap.size_contents] at hhigh
  have hin : u.InPayload j := by
    unfold Block.InPayload
    omega
  exact ⟨by omega, by omega, fun b hb => ht.divided.tag_apart hmem hb hin⟩

/-- A write through a live pointer is never refused. -/
theorem write_of_live (ht : Tracked held h bs f) (hp : held p = some bytes) {position count : Nat}
    {g : Nat → UInt8} {reply : Reply}
    (hrun : (h.perform (.write p position count g)).outcome = .ok (reply, h')) :
    ∃ written, reply = .written (.ok written) := by
  obtain ⟨u, hu, rfl, -⟩ := ht.block_of_bytes hp
  obtain ⟨hmem, hused⟩ := Block.mem_inUse_iff.mp hu
  obtain ⟨a, written, hwrite, -⟩ := (ht.holds.names hmem hused).1.writePayload position count g
  cases Heap.performs_of_outcome hrun with
  | write hanswer =>
    rw [hwrite] at hanswer
    cases hanswer
    exact ⟨written, rfl⟩

end Tracked

/-- In a legal run the heap is a map from live pointers to bytes. The live pointers are the
blocks in use, their payloads are the bytes of the ledger, and these are apart from each other
and from all tags. A call hands out only new pointers, and leaves the bytes behind all others
alone, except for what it writes itself. -/
theorem LegalRun.refines_map (hr : LegalRun held h) :
    (∃ bs, h.blocks = ⟨bs, none⟩ ∧
      (∀ p, held p ≠ none ↔ ∃ b ∈ bs, b.isFree = false ∧ b.start = p) ∧
      ∀ p bytes, held p = some bytes → ∀ j, p ≤ j → j < p + bytes.size →
        8 ≤ j ∧ j < h.arena.size - 8 ∧ ∀ b ∈ bs, ¬ b.OnTag j) ∧
    (∀ p bytes, held p = some bytes → h.payload p = .ok (.ok bytes)) ∧
    (∀ p q bytes bytes', held p = some bytes → held q = some bytes' → p ≠ q →
      p + bytes.size ≤ q ∨ q + bytes'.size ≤ p) ∧
    ∀ (call : Call) (reply : Reply) (h' : Heap), call.Legal h held →
      (h.perform call).outcome = .ok (reply, h') →
      (∀ p, reply = .pointer (.ok (some p)) → NewPointer held call.request h' p) ∧
      ∀ p bytes, held p = some bytes →
        (call.GivesBack p ∧ held.after h' call reply p = none) ∨
          h'.payload p = .ok (.ok (call.written p bytes)) := by
  obtain ⟨bs, f, ht⟩ := hr.tracked
  refine ⟨⟨bs, ht.holds.blocks_eq, fun p => ht.live_iff, fun p bytes hp j =>
    ht.payload_off_tags hp⟩, fun p bytes => ht.payload_of_live, fun p q bytes bytes' =>
    ht.payloads_apart, fun call reply h' hlegal hrun => ?_⟩
  obtain ⟨reply', h'', bs', f', hanswer, htracked, hnew⟩ := ht.step hlegal
  rw [hrun] at hanswer
  cases hanswer
  refine ⟨hnew, ?_⟩
  intro p bytes hp
  have hfresh (q : Nat) (hq : reply = .pointer (.ok (some q))) : p ≠ q := by
    rintro rfl
    rw [(hnew p hq).not_live] at hp
    cases hp
  have hwrite (position count : Nat) (g : Nat → UInt8) (hcall : call = .write p position count g) :
      ∃ written, reply = .written (.ok written) := by
    subst hcall
    exact ht.write_of_live hp hrun
  exact (Ledger.after_of_live hp hfresh hwrite).symm.imp id htracked.payload_of_live

/-- After an allocation of 30 bytes, the payload of its pointer is what the map remembers. -/
theorem LegalRun.refines_map_of_live : ∃ held h bytes, LegalRun held h ∧ held 16 = some bytes ∧
    h.payload 16 = .ok (.ok bytes) := by
  obtain ⟨held, h, hr, bytes, hlive⟩ := LegalRun.exists_live
  exact ⟨held, h, bytes, hr, hlive, hr.refines_map.2.1 16 bytes hlive⟩

end SegregatedFit
