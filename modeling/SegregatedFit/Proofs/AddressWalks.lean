import Mathlib.Data.List.TakeWhile
import SegregatedFit.Proofs.Searching

/-!
# Walks by address end

Whatever the bytes of an arena are, a walk along the headers goes up by at least a word with each
block and every header lies inside the arena. So it meets no more blocks than there are words, and
stops at a size of zero or where no further step can be taken. The totals and the searches by
address come past no other blocks than those of such walks, wherever the rover is.
-/

namespace SegregatedFit

namespace Walk

variable {α : Type} {w rest : Walk α} {p : α → Bool}

/-- What can come of looking along a walk for an item that passes a test: such an item, nothing
once the walk is over, or the fault at which it broke off. -/
inductive Finds (w : Walk α) (p : α → Bool) : Except Fault (Option α) → Prop
  | found {a : α} (hmem : a ∈ w.items) (hpass : p a = true) : Finds w p (.ok (some a))
  | nothing (hend : w.ending = none) (hnone : ∀ a ∈ w.items, p a = false) : Finds w p (.ok none)
  | broken {fault : Fault} (hend : w.ending = some fault) : Finds w p (.error fault)

private theorem find?_finds (w : Walk α) (p : α → Bool) : w.Finds p (w.find? p) := by
  unfold find?
  cases hfind : w.items.find? p with
  | some a => exact .found (List.mem_of_find?_eq_some hfind) (List.find?_some hfind)
  | none =>
    cases hend : w.ending with
    | none =>
      exact .nothing hend fun a ha => Bool.eq_false_iff.mpr (List.find?_eq_none.mp hfind a ha)
    | some fault => exact .broken hend

private theorem bestFit?_finds (w : Walk Block) (need : Nat) :
    w.Finds (fun b => b.isFree && b.holds need) (bestFit? need (w.filter Block.isFree)) := by
  obtain ⟨items, ending⟩ := w
  rw [filter_mk, bestFit?]
  cases hexact : (items.filter Block.isFree).find? fun b => b.size == need with
  | some b =>
    have hsame := List.find?_some hexact
    have hroom : b.holds need = true := decide_eq_true (Nat.le_of_eq (beq_iff_eq.mp hsame).symm)
    obtain ⟨hmem, hfree⟩ := List.mem_filter.mp (List.mem_of_find?_eq_some hexact)
    exact .found hmem (Bool.and_eq_true_iff.mpr ⟨hfree, hroom⟩)
  | none =>
    cases ending with
    | some fault => exact .broken rfl
    | none =>
      simp only [toExcept, Fault.ok_bind, Fault.pure_eq_ok, List.filter_filter]
      cases hbest : smallest? (items.filter fun b => b.holds need && b.isFree) with
      | some b =>
        obtain ⟨hmem, hpass⟩ := List.mem_filter.mp (mem_of_smallest? hbest)
        exact .found hmem (Bool.and_comm .. ▸ hpass)
      | none =>
        refine .nothing rfl fun b hb => ?_
        have hnone := List.filter_eq_nil_iff.mp (smallest?_eq_none_iff.mp hbest) b hb
        rw [Bool.and_comm]
        exact Bool.eq_false_iff.mpr hnone

/-- One walk after another is searched when nothing is found along the first. -/
theorem find?_append (w rest : Walk α) (p : α → Bool) :
    (w.append rest).find? p = (do
      match ← w.find? p with
      | some a => return some a
      | none => rest.find? p) := by
  obtain ⟨items, ending⟩ := w
  cases ending with
  | none =>
    rw [find?_mk_none]
    simp only [append, find?, List.find?_append]
    cases items.find? p <;> rfl
  | some fault =>
    simp only [append, find?]
    cases items.find? p <;> rfl

/-- A walk that breaks off does so in one of the walks that it is made of. -/
theorem ending_append {fault : Fault} (h : (w.append rest).ending = some fault) :
    w.ending = some fault ∨ rest.ending = some fault := by
  unfold append at h
  split at h
  · exact Or.inr h
  · next hend => exact Or.inl (hend.trans h)

private theorem ending_takeWhile {fault : Fault} (h : (w.takeWhile p).ending = some fault) :
    w.ending = some fault := by
  unfold takeWhile at h
  dsimp only at h
  split at h
  · exact h
  · cases h

/-- One walk after another meets no more than both of them do. -/
theorem sublist_append (w rest : Walk α) :
    (w.append rest).items.Sublist (w.items ++ rest.items) := by
  unfold append
  cases w.ending with
  | none => exact List.Sublist.refl _
  | some fault => exact List.sublist_append_left _ _

end Walk

namespace Arena

variable {a : Arena} {start stop lower upper bound rover : Nat} {bs xs ys : List Block}

/-- A block whose header can be read and leads up. -/
structure StepsOver (a : Arena) (b : Block) : Prop where
  header : a.header b.start = .ok b.tag
  next : a.next b.start = .ok (b.start + b.size)
  pos : 0 < b.size

/-- The headers lead from `start` over the blocks `bs` to `stop`. -/
def Walked (a : Arena) : Nat → List Block → Nat → Prop
  | start, [], stop => start = stop
  | start, b :: rest, stop =>
    (b.start = start ∧ a.StepsOver b) ∧ a.Walked (start + b.size) rest stop

/-- Why a walk stops at an offset: the size there is zero, or there is no way on. -/
def StopsAt (a : Arena) (stop : Nat) : Option Fault → Prop
  | none => a.sizeOf stop = .ok 0
  | some fault => a.next stop = .error fault

/-- A way up is at least one word long, and what it starts from lies inside the arena. -/
theorem StepsOver.bounds {b : Block} (h : a.StepsOver b) :
    8 ≤ b.start ∧ b.start ≤ a.size ∧ 8 ≤ b.size := by
  obtain ⟨hlow, hhigh, htag⟩ := header_eq_ok_iff.mp h.header
  have hmod : b.tag.size % 8 = 0 := by
    rw [htag]
    exact Tag.size_ofWord_mod _
  have hpos : 0 < b.tag.size := h.pos
  exact ⟨hlow, hhigh, show 8 ≤ b.tag.size by omega⟩

private theorem walked_append : a.Walked start (xs ++ ys) stop ↔
    ∃ mid, a.Walked start xs mid ∧ a.Walked mid ys stop := by
  induction xs generalizing start with
  | nil => exact ⟨fun h => ⟨start, rfl, h⟩, fun ⟨_, rfl, h⟩ => h⟩
  | cons b rest ih =>
    simp only [List.cons_append, Walked, ih]
    constructor
    · rintro ⟨hb, mid, hrest, hys⟩
      exact ⟨mid, ⟨hb, hrest⟩, hys⟩
    · rintro ⟨mid, ⟨hb, hrest⟩, hys⟩
      exact ⟨hb, mid, hrest, hys⟩

namespace Walked

/-- The way up to some block is a way up. -/
theorem takeWhile (h : a.Walked start bs stop) (p : Block → Bool) :
    ∃ mid, a.Walked start (bs.takeWhile p) mid := by
  rw [← List.takeWhile_append_dropWhile (p := p) (l := bs)] at h
  obtain ⟨mid, hbelow, -⟩ := walked_append.mp h
  exact ⟨mid, hbelow⟩

private theorem stop_eq (h : a.Walked start bs stop) : stop = start + Block.totalSize bs := by
  induction bs generalizing start with
  | nil => exact h.symm
  | cons b rest ih => rw [Block.totalSize_cons, ih h.2, Nat.add_assoc]

/-- A walk steps over each of its blocks, all of which start at its start or above. -/
theorem mem (h : a.Walked start bs stop) {b : Block} (hb : b ∈ bs) :
    start ≤ b.start ∧ a.StepsOver b := by
  induction bs generalizing start with
  | nil => cases hb
  | cons c rest ih =>
    obtain ⟨⟨rfl, hc⟩, hrest⟩ := h
    rcases List.mem_cons.mp hb with rfl | hb
    · exact ⟨Nat.le_refl _, hc⟩
    · obtain ⟨hlow, hsteps⟩ := ih hrest hb
      exact ⟨Nat.le_of_add_right_le hlow, hsteps⟩

/-- Each block starts above the one before. -/
theorem pairwise (h : a.Walked start bs stop) : (bs.map Block.start).Pairwise (· < ·) := by
  induction bs generalizing start with
  | nil => exact List.Pairwise.nil
  | cons b rest ih =>
    obtain ⟨⟨rfl, hb⟩, hrest⟩ := h
    refine List.pairwise_cons.mpr ⟨fun x hx => ?_, ih hrest⟩
    obtain ⟨c, hc, rfl⟩ := List.mem_map.mp hx
    have hbehind := (hrest.mem hc).1
    have hpos := hb.pos
    omega

/-- No two blocks of a walk start at the same offset. -/
theorem nodup (h : a.Walked start bs stop) : (bs.map Block.start).Nodup :=
  h.pairwise.imp Nat.ne_of_lt

/-- Blocks that start no further up than a bound are a word or more apart. -/
theorem length_le (h : a.Walked start bs stop) (hbound : ∀ b ∈ bs, b.start ≤ bound) :
    bs = [] ∨ start + 8 * bs.length ≤ bound + 8 := by
  induction bs generalizing start with
  | nil => exact Or.inl rfl
  | cons b rest ih =>
    obtain ⟨⟨rfl, hb⟩, hrest⟩ := h
    obtain ⟨hfirst, hothers⟩ := List.forall_mem_cons.mp hbound
    have hlarge := hb.bounds.2.2
    right
    rcases ih hrest hothers with rfl | hle
    · exact Nat.add_le_add_right hfirst 8
    · rw [List.length_cons]
      omega

private theorem length_le_size (h : a.Walked start bs stop) : bs.length ≤ a.size / 8 := by
  cases bs with
  | nil => exact Nat.zero_le _
  | cons b rest =>
    have hstart : b.start = start := h.1.1
    have hlow := h.1.2.bounds.1
    rcases h.length_le fun c hc => (h.mem hc).2.bounds.2.1 with hnil | hle
    · cases hnil
    · omega

/-- A way up from above the rover and a way up to the rover meet no block twice, and together no
more blocks than there are words. -/
theorem around (hxs : a.Walked upper xs stop) (hys : a.Walked lower ys bound)
    (habove : xs = [] ∨ rover + 8 ≤ upper) (hupto : ∀ b ∈ ys, b.start ≤ rover) (hlower : 8 ≤ lower)
    (hrover : rover ≤ a.size) :
    ((xs ++ ys).map Block.start).Nodup ∧ (xs ++ ys).length ≤ a.size / 8 := by
  have hmany : rover + 8 * xs.length ≤ a.size := by
    rcases habove with rfl | habove
    · exact hrover
    · rcases hxs.length_le fun b hb => (hxs.mem hb).2.bounds.2.1 with rfl | hle
      · exact hrover
      · omega
  have hfew : 8 * ys.length ≤ rover := by
    rcases hys.length_le hupto with rfl | hle
    · exact Nat.zero_le _
    · omega
  constructor
  · rw [List.map_append, List.nodup_append]
    refine ⟨hxs.nodup, hys.nodup, fun x hx y hy => ?_⟩
    obtain ⟨b, hb, rfl⟩ := List.mem_map.mp hx
    obtain ⟨c, hc, rfl⟩ := List.mem_map.mp hy
    have hapart := habove.resolve_left (List.ne_nil_of_mem hb)
    have hlow := (hxs.mem hb).1
    have hhigh := hupto c hc
    omega
  · rw [List.length_append]
    omega

end Walked

/-- A header that cannot be read lies in front of the arena or behind it. -/
theorem header_error {x : Nat} {fault : Fault} (h : a.header x = .error fault) :
    fault = .underflow ∨ fault = .outOfRange := by
  rcases Nat.lt_or_ge x 8 with hlow | hlow
  · left
    rw [header, headerOffset, Word.sub, if_neg (Nat.not_le.mpr hlow)] at h
    exact (Except.error.inj h).symm
  · right
    rcases Nat.lt_or_ge a.size x with hhigh | hhigh
    · have hout : ¬ x - 8 + wordBytes ≤ a.size := by unfold wordBytes; omega
      rw [header, headerOffset_of_le hlow, Fault.ok_bind, tagAt, word, if_neg hout] at h
      exact (Except.error.inj h).symm
    · rw [header_of_le hlow hhigh] at h
      cases h

/-- There is no way on from where no header can be read. -/
theorem next_of_header_error {x : Nat} {fault : Fault} (h : a.header x = .error fault) :
    a.next x = .error fault := by
  rw [next, sizeOf, h]
  rfl

private theorem ne_endless_of_next {x : Nat} {fault : Fault} (h : a.next x = .error fault) :
    fault ≠ .endless := by
  cases hheader : a.header x with
  | error other =>
    rw [next_of_header_error hheader] at h
    obtain rfl := Except.error.inj h
    rcases header_error hheader with rfl | rfl <;> decide
  | ok t =>
    rw [next, sizeOf_of_header hheader, Fault.ok_bind, Word.add, Word.ofNat] at h
    split at h
    · cases h
    · obtain rfl := Except.error.inj h
      decide

private theorem next_eq_ok {x up : Nat} (h : a.next x = .ok up) :
    ∃ t, a.header x = .ok t ∧ up = x + t.size := by
  obtain ⟨size, hsize, hadd⟩ := Fault.bind_eq_ok_iff.mp h
  obtain ⟨t, ht, hsame⟩ := Fault.bind_eq_ok_iff.mp hsize
  cases hsame
  exact ⟨t, ht, (Word.add_eq_ok_iff.mp hadd).2⟩

/-- A walk from an offset that comes to an end: it leads up over its blocks to where it stops, it
meets no more blocks than there are words, and it is not broken off for being endless. -/
structure Ends (a : Arena) (start : Nat) (w : Walk Block) : Prop where
  stops : ∃ stop, a.Walked start w.items stop ∧ a.StopsAt stop w.ending
  ascending : (w.items.map Block.start).Pairwise (· < ·)
  length_le : w.items.length ≤ a.size / 8
  ending_ne : w.ending ≠ some .endless

/-- A walk leads over the blocks that it meets, to where it stops. -/
theorem blocksFrom_walked (a : Arena) (start : Nat) :
    ∃ stop, a.Walked start (a.blocksFrom start).items stop ∧
      a.StopsAt stop (a.blocksFrom start).ending := by
  fun_induction a.blocksFrom start with
  | case1 start fault hheader => exact ⟨start, rfl, next_of_header_error hheader⟩
  | case2 start tag hheader hinside fault hadd =>
    have hnext : a.next start = .error fault := by
      rw [next, sizeOf_of_header hheader, Fault.ok_bind, hadd]
    exact ⟨start, rfl, hnext⟩
  | case3 start tag hheader hinside up hadd hzero =>
    have hsize : a.sizeOf start = .ok 0 := by rw [sizeOf_of_header hheader, hzero]
    exact ⟨start, rfl, hsize⟩
  | case4 start tag hheader hinside up hadd hpos ih =>
    obtain ⟨stop, hrest, hstop⟩ := ih
    have hnext := next_of_header hheader (Word.add_eq_ok_iff.mp hadd).1
    exact ⟨stop, ⟨⟨rfl, hheader, hnext, Nat.pos_of_ne_zero hpos⟩, hrest⟩, hstop⟩

private theorem blocksFrom_ends (a : Arena) (start : Nat) : a.Ends start (a.blocksFrom start) := by
  obtain ⟨stop, hwalked, hstop⟩ := a.blocksFrom_walked start
  refine ⟨⟨stop, hwalked, hstop⟩, hwalked.pairwise, hwalked.length_le_size, fun hend => ?_⟩
  rw [hend] at hstop
  exact ne_endless_of_next hstop rfl

end Arena

namespace Heap

variable {h : Heap}

/-- The blocks of a heap are a walk from its first block, up to an offset where no walk goes on. -/
theorem blocks_walked (h : Heap) : ∃ stop, h.arena.Walked h.first h.blocks.items stop ∧
    h.arena.StopsAt stop h.blocks.ending :=
  h.arena.blocksFrom_walked h.first

/-- The blocks that next fit comes past: those behind the rover, and then those up to it. -/
def rovingWalk (h : Heap) : Walk Block :=
  match h.arena.next h.rover with
  | .ok start =>
    (h.arena.blocksFrom start).append (h.blocks.takeWhile fun b => decide (b.start ≤ h.rover))
  | .error fault => .broken fault

/-- The blocks that a search by address comes past. -/
def addressWalk (h : Heap) : Walk Block :=
  if h.config.policy = .nextFit then h.rovingWalk else h.blocks

/-- What a search by address takes of its walk. -/
def chosen (h : Heap) (need : Nat) : Except Fault (Option Block) :=
  if h.config.policy = .bestFit then bestFit? need (h.addressWalk.filter Block.isFree)
  else h.addressWalk.find? fun b => b.isFree && b.holds need

private theorem nextFrom_eq (h : Heap) (need : Nat) : h.nextFrom need =
    Option.map Block.start <$> h.rovingWalk.find? fun b => b.isFree && b.holds need := by
  unfold nextFrom rovingWalk
  cases hnext : h.arena.next h.rover with
  | error fault => rfl
  | ok start =>
    simp only [Fault.ok_bind, Walk.find?_append]
    cases (h.arena.blocksFrom start).find? fun b => b.isFree && b.holds need with
    | error fault => rfl
    | ok found =>
      cases found with
      | some b => rfl
      | none => exact (map_eq_pure_bind (m := Except Fault) _ _).symm

/-- A search by address takes what its walk offers and moves no more than the rover. -/
theorem search_by_address (hpolicy : h.config.policy ∈ [.firstFit, .bestFit, .nextFit])
    (need : Nat) : (h.search need).outcome =
      (fun found => (found.map Block.start, h.searched found)) <$> h.chosen need := by
  simp only [List.mem_cons, List.not_mem_nil, or_false] at hpolicy
  unfold search chosen addressWalk searched
  rcases hpolicy with hp | hp | hp
  · simp only [hp, reduceCtorEq, if_false, firstFit, Run.outcome_bind, Run.outcome_liftM]
    cases h.blocks.find? fun b => b.isFree && b.holds need <;> rfl
  · simp only [hp, reduceCtorEq, if_true, if_false, bestFit, Run.outcome_bind, Run.outcome_liftM]
    cases bestFit? need (h.blocks.filter Block.isFree) <;> rfl
  · simp only [hp, reduceCtorEq, if_true, if_false, nextFit, Run.outcome_bind, Run.outcome_liftM,
      nextFrom_eq]
    cases h.rovingWalk.find? fun b => b.isFree && b.holds need with
    | error fault => rfl
    | ok found => cases found <;> rfl

/-- The blocks behind the rover start above it. -/
theorem behind_rover {start : Nat} (hnext : h.arena.next h.rover = .ok start) :
    (h.arena.blocksFrom start).items = [] ∨ h.rover + 8 ≤ start := by
  obtain ⟨t, hheader, rfl⟩ := Arena.next_eq_ok hnext
  rcases Nat.eq_zero_or_pos t.size with hzero | hpos
  · left
    rw [hzero, Nat.add_zero, Arena.blocksFrom_of_zero hheader hzero]
  · right
    have hsteps : h.arena.StepsOver ⟨h.rover, t⟩ := ⟨hheader, hnext, hpos⟩
    exact Nat.add_le_add_left hsteps.bounds.2.2 _

/-- Both walks of next fit together meet no block twice and no more blocks than there are words. -/
theorem rovingWalk_bounded (h : Heap) : (h.rovingWalk.items.map Block.start).Nodup ∧
    h.rovingWalk.items.length ≤ h.arena.size / 8 := by
  unfold rovingWalk
  cases hnext : h.arena.next h.rover with
  | error fault => exact ⟨List.nodup_nil, Nat.zero_le _⟩
  | ok start =>
    obtain ⟨_, hheader, -⟩ := Arena.next_eq_ok hnext
    obtain ⟨_, hbehind, -⟩ := h.arena.blocksFrom_walked start
    obtain ⟨_, hall, -⟩ := h.blocks_walked
    obtain ⟨_, hupto⟩ := hall.takeWhile fun b => decide (b.start ≤ h.rover)
    obtain ⟨hnodup, hfew⟩ := hbehind.around hupto (behind_rover hnext)
      (fun b hb => by simpa using List.mem_takeWhile_imp hb) (Nat.le_add_left 8 h.prologue)
      (Arena.header_eq_ok_iff.mp hheader).2.1
    have hsublist := Walk.sublist_append (h.arena.blocksFrom start)
      (h.blocks.takeWhile fun b => decide (b.start ≤ h.rover))
    exact ⟨(hsublist.map Block.start).nodup hnodup, Nat.le_trans hsublist.length_le hfew⟩

private theorem rovingWalk_ending_ne (h : Heap) : h.rovingWalk.ending ≠ some .endless := by
  intro hend
  unfold rovingWalk at hend
  cases hnext : h.arena.next h.rover with
  | error fault =>
    rw [hnext] at hend
    obtain rfl := Option.some.inj hend
    exact Arena.ne_endless_of_next hnext rfl
  | ok start =>
    rw [hnext] at hend
    rcases Walk.ending_append hend with hbehind | hupto
    · exact (h.arena.blocksFrom_ends start).ending_ne hbehind
    · exact (h.arena.blocksFrom_ends h.first).ending_ne (Walk.ending_takeWhile hupto)

/-- The walk of any search by address meets no block twice and no more blocks than there are words,
and does not break off for being endless. -/
theorem addressWalk_bounded (h : Heap) : (h.addressWalk.items.map Block.start).Nodup ∧
    h.addressWalk.items.length ≤ h.arena.size / 8 ∧ h.addressWalk.ending ≠ some .endless := by
  unfold addressWalk
  split
  · obtain ⟨hnodup, hfew⟩ := h.rovingWalk_bounded
    exact ⟨hnodup, hfew, h.rovingWalk_ending_ne⟩
  · have hends := h.arena.blocksFrom_ends h.first
    exact ⟨hends.ascending.imp Nat.ne_of_lt, hends.length_le, hends.ending_ne⟩

/-- The totals break off where the walk does, and otherwise add up to the way that it leads. -/
theorem totals_walked (h : Heap) :
    (∃ fault, h.totals = .error fault ∧ h.blocks.ending = some fault) ∨
      ∃ t stop, h.totals = .ok t ∧ h.arena.Walked h.first h.blocks.items stop ∧
        h.arena.sizeOf stop = .ok 0 ∧ t.freeBytes + t.allocatedBytes = stop - h.first ∧
        t.freeBlocks + t.allocatedBlocks = h.blocks.items.length := by
  obtain ⟨stop, hwalked, hstop⟩ := h.blocks_walked
  cases hblocks : h.blocks with
  | mk bs ending =>
    rw [hblocks] at hwalked hstop
    cases ending with
    | some fault =>
      left
      refine ⟨fault, ?_, rfl⟩
      rw [totals, hblocks]
      rfl
    | none =>
      right
      have hzero : h.arena.sizeOf stop = .ok 0 := hstop
      obtain ⟨_, hheader, -⟩ := Fault.bind_eq_ok_iff.mp hzero
      have hinside := (Arena.header_eq_ok_iff.mp hheader).2.1
      have hlt := h.arena.size_lt
      have hlong : stop = h.first + Block.totalSize bs := hwalked.stop_eq
      have hsum : _ + Block.totalSize (Block.inUse bs) = _ :=
        Block.totalSize_filter_add Block.isFree bs
      refine ⟨_, stop, totals_of_blocks hblocks (by omega), hwalked, hzero, ?_,
        (bs.length_eq_length_filter_add Block.isFree).symm⟩
      dsimp only
      omega

private theorem chosen_finds (h : Heap) (need : Nat) :
    h.addressWalk.Finds (fun b => b.isFree && b.holds need) (h.chosen need) := by
  unfold chosen
  split
  · exact h.addressWalk.bestFit?_finds need
  · exact h.addressWalk.find?_finds _

/-- Whatever the bytes of a heap are and wherever a walk by address starts, it comes to an end. The
totals end with the walk along all blocks and add up to the way that it leads. A search by address
comes past no block twice, wherever the rover is, and ends with a free block of its walk that is
large enough, with none when the walk is over, or with the fault at which the walk breaks off. -/
theorem address_walks_end (h : Heap) :
    (∀ start, h.arena.Ends start (h.arena.blocksFrom start)) ∧
    ((∃ fault, h.totals = .error fault ∧ h.blocks.ending = some fault) ∨
      ∃ t stop, h.totals = .ok t ∧ h.arena.Walked h.first h.blocks.items stop ∧
        h.arena.sizeOf stop = .ok 0 ∧ t.freeBytes + t.allocatedBytes = stop - h.first ∧
        t.freeBlocks + t.allocatedBlocks = h.blocks.items.length) ∧
    ((h.addressWalk.items.map Block.start).Nodup ∧
      h.addressWalk.items.length ≤ h.arena.size / 8 ∧ h.addressWalk.ending ≠ some .endless) ∧
    (h.config.policy ∈ [.firstFit, .bestFit, .nextFit] → ∀ need,
      (h.search need).outcome =
        (fun found => (found.map Block.start, h.searched found)) <$> h.chosen need ∧
      h.addressWalk.Finds (fun b => b.isFree && b.holds need) (h.chosen need)) :=
  ⟨h.arena.blocksFrom_ends, h.totals_walked, h.addressWalk_bounded, fun hpolicy need =>
    ⟨search_by_address hpolicy need, h.chosen_finds need⟩⟩

/-- In 128 bytes of which three look like headers, the walk leads from 16 over 40 to 112. With the
rover at 40, next fit comes back to 40 from the front. -/
theorem address_walks_end_of_three : ∃ h : Heap, ∃ t : Totals, h.arena.size = 128 ∧ h.rover = 40 ∧
    h.blocks = ⟨[⟨16, .free 24⟩, ⟨40, .free 72⟩], none⟩ ∧ h.totals = .ok t ∧
    t.freeBytes + t.allocatedBytes = 96 ∧ ∃ b ∈ h.addressWalk.items, 50 ≤ b.size ∧
      (h.search 50).outcome = .ok (some b.start, { h with rover := b.start }) := by
  let bytes (i : Nat) : UInt8 :=
    if i = 8 then 24 else if i = 32 then 72 else if i = 104 then 1 else 0
  let memory : Memory := .growable ⟨Bytes.tabulate 128 bytes, 128, by simp, by decide⟩
  let h : Heap := ⟨⟨memory, 128⟩, .empty, { policy := .nextFit }, 8, 40⟩
  have hsize : h.arena.size = 128 := by decide +kernel
  have hitems : h.blocks.items = [⟨16, .free 24⟩, ⟨40, .free 72⟩] := by decide +kernel
  have hend : h.blocks.ending = none := by decide +kernel
  have hblocks : h.blocks = ⟨[⟨16, .free 24⟩, ⟨40, .free 72⟩], none⟩ := by
    rw [← hitems, ← hend]
  obtain ⟨-, htotals, -, hsearches⟩ := address_walks_end h
  rcases htotals with ⟨fault, -, hfault⟩ | ⟨t, stop, htotals, hwalked, -, hsum, -⟩
  · rw [hend] at hfault
    cases hfault
  · rw [hitems] at hwalked
    have hstop : stop = 16 + 96 := hwalked.stop_eq
    have hfirst : h.first = 16 := rfl
    obtain ⟨hsearch, hfinds⟩ := hsearches (by decide) 50
    have hchosen : h.chosen 50 = .ok (some ⟨40, .free 72⟩) :=
      Fault.eq_ok_of_any (by decide +kernel)
    rw [hchosen] at hsearch hfinds
    cases hfinds with
    | found hmem _ =>
      exact ⟨h, t, hsize, rfl, hblocks, htotals, by omega, _, hmem, by decide, hsearch⟩

end Heap

end SegregatedFit
