import SegregatedFit.Proofs.ExactPointers
import SegregatedFit.Proofs.Histories

/-!
# Both kinds of memory serve alike

A buffer appends zeros when it grows, and a region shows more of the zeros that it was set aside
with. Neither is touched behind the bytes that are granted, and both refuse growth in the same
cases. So a heap has the same history in either, and whenever it grows, the new bytes are zero.
-/

namespace SegregatedFit

/-- Growth begins where the arena ends, and all the new bytes are zero. -/
def Arena.GrowsBlank (a : Arena) : Prop :=
  ∀ amount base b, (a.grow amount).outcome = .ok (.ok base, b) →
    base = a.size ∧ b.size = base + amount ∧ ∀ j, base ≤ j → j < base + amount → b.memory.read j = 0

/-- Whenever a heap in some memory grows, whatever has happened to it, the new bytes are zero:
when it is set up, first for the sentinels and then for the first chunk, and in every call. -/
structure Memory.GrowsBlank (memory : Memory) : Prop where
  empty : (Arena.ofMemory memory).GrowsBlank
  sentinels : ∀ {base a b c}, ((Arena.ofMemory memory).grow granule).outcome = .ok (.ok base, a) →
    a.put base Tag.prologue.toWord = .ok b → b.stampEnd (base + granule) = .ok c → c.GrowsBlank
  start : ∀ {config h}, (Heap.setup memory config).outcome = .ok (.ok h) → h.arena.GrowsBlank
  story : ∀ {config h}, (Heap.setup memory config).outcome = .ok (.ok h) →
    ∀ deeds, ∀ x ∈ (h.story deeds).items, x.2.arena.GrowsBlank

/-- If nothing but zeros lies behind the end of an arena, then these are what growth shows. -/
theorem Arena.Twin.growsBlank {a b : Arena} (h : a.Twin (fun _ => 0) b) : a.GrowsBlank := by
  intro amount base c hgrow
  by_cases hmod : amount % granule = 0
  · by_cases hroom : amount ≤ a.memory.limit - a.memory.size
    · rw [Arena.grow_of_le hmod hroom] at hgrow
      cases hgrow
      refine ⟨rfl, Memory.size_grant .., fun j hlow hhigh => ?_⟩
      rw [Memory.read_grant]
      exact h.memory.past_eq j hlow
    · rw [Arena.grow_of_lt hmod (Nat.not_le.mp hroom)] at hgrow
      cases hgrow
  · rw [Arena.grow, if_neg hmod] at hgrow
    cases hgrow

namespace Memory

variable {memory m n : Memory} {limit room : Nat}

private theorem Blank.read_eq_zero (hblank : memory.Blank) : memory.read = fun _ => 0 :=
  funext hblank.read_eq

/-- Blank memories with one limit are twins. -/
theorem Blank.twin (hm : m.Blank) (hn : n.Blank) (hlimit : n.limit = m.limit) :
    m.Twin (fun _ => 0) n :=
  ⟨hn.size_eq.trans hm.size_eq.symm, hlimit, hn.read_eq_zero.trans hm.read_eq_zero.symm,
    fun j _ => hm.read_eq j⟩

private theorem limit_of_ofLimit (h : ofLimit limit = .ok m) : m.limit = limit := by
  unfold ofLimit at h
  split at h
  · cases h
    rfl
  · cases h

private theorem limit_of_reserve (h : reserve room limit = .ok m) : m.limit = limit := by
  unfold reserve at h
  split at h
  · cases h
    rfl
  · cases h

/-- A heap in blank memory only ever grows by zeros. -/
theorem Blank.growsBlank (hblank : memory.Blank) : memory.GrowsBlank := by
  have htwin : memory.Twin (fun _ => 0) memory := hblank.twin hblank rfl
  have harena : (Arena.ofMemory memory).Twin (fun _ => 0) (Arena.ofMemory memory) := ⟨htwin, rfl⟩
  have hnew {config : Config} {h : Heap}
      (hsetup : (Heap.setup memory config).outcome = .ok (.ok h)) :
      ∃ p, h.Twin (fun _ => 0) p h := by
    rw [← hblank.read_eq_zero]
    exact Heap.twin_of_setup hsetup
  refine ⟨harena.growsBlank, fun hgrow hput hend => ?_, fun hsetup => ?_,
    fun hsetup deeds x hx => ?_⟩
  · have ha := ((harena.grow granule).self hgrow).2
    have hb := (ha.put _ _).self hput
    exact ((hb.stampEnd _).self hend).growsBlank
  · obtain ⟨p, ht⟩ := hnew hsetup
    exact ht.arena.growsBlank
  · obtain ⟨p, ht⟩ := hnew hsetup
    exact (ht.self_story hx).arena.growsBlank

/-- In a buffer and in a region of one limit a heap has the same history, whatever its settings
are and whatever happens to it: it begins in the same way or is refused for the same reason, and
step by step the replies, the faults and all that can be seen of the heap are the same. New bytes
are zero in both. -/
theorem kinds_alike (hm : ofLimit limit = .ok m) (hn : reserve room limit = .ok n) :
    (∀ (config : Config) (deeds : List Deed),
      Heap.chronicle n config deeds = Heap.chronicle m config deeds) ∧
    m.GrowsBlank ∧ n.GrowsBlank := by
  have hblank := blank_of_ofLimit hm
  have hblank' := blank_of_reserve hn
  have htwin : m.Twin (fun _ => 0) n :=
    hblank.twin hblank' ((limit_of_reserve hn).trans (limit_of_ofLimit hm).symm)
  refine ⟨fun config deeds => ?_, hblank.growsBlank, hblank'.growsBlank⟩
  exact Heap.Twin.chronicle_eq htwin config config.audited deeds

/-- In a buffer and in a region of 256 bytes a heap grows for the first request and is refused
to grow for the second. -/
theorem kinds_alike_of_refused : ∃ m n x, ofLimit 256 = .ok m ∧ reserve 1024 256 = .ok n ∧
    Heap.chronicle m { chunk := 48 } [.call (.allocate 100), .call (.allocate 200)] =
      .ok (.ok x) ∧
    Heap.chronicle n { chunk := 48 } [.call (.allocate 100), .call (.allocate 200)] =
      .ok (.ok x) ∧
    x.1.granted = 64 ∧ x.2.items.map (fun y => y.2.granted) = [192, 192] := by
  let m : Memory := .growable ⟨ByteArray.empty, 256, Nat.zero_le _, by decide⟩
  let n : Memory := .reserved ⟨ByteArray.empty, 0, 256, Nat.zero_le _, by decide⟩
  have hm : ofLimit 256 = .ok m := dif_pos (by decide)
  have hn : reserve 1024 256 = .ok n := dif_pos (by decide)
  have heval : ((Heap.chronicle m { chunk := 48 }
      [.call (.allocate 100), .call (.allocate 200)]).toOption.any fun answer =>
        answer.toOption.any fun x => decide (x.1.granted = 64 ∧
          x.2.items.map (fun y => y.2.granted) = [192, 192])) = true := by
    decide +kernel
  obtain ⟨_, hchronicle, hanswer⟩ := Fault.ok_of_any heval
  obtain ⟨x, rfl, hx⟩ := Fault.ok_of_any hanswer
  exact ⟨m, n, x, hm, hn, hchronicle, ((kinds_alike hm hn).1 _ _).trans hchronicle,
    of_decide_eq_true hx⟩

end Memory

end SegregatedFit
