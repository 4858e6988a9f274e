import SegregatedFit.Proofs.Invariant
import SegregatedFit.Proofs.Classifying
import SegregatedFit.Heap.Search

/-!
# What a policy chooses

Each policy goes through free blocks in an order of its own, leaves out those that are not large
enough for it, and takes the first of the others or the first of the smallest. A block is large
enough when its size reaches the floor that the policy has for the need: the need itself, or what
the first class that qualifies guarantees. So whether anything is chosen depends on the blocks
alone, and the lists of the buckets only decide between the candidates.
-/

namespace SegregatedFit

variable {bs : List Block} {b c : Block} {f : Filing} {need rover : Nat} {cs : List SizeClass}

/-- A smallest block is one of the blocks. -/
theorem mem_of_smallest? (h : smallest? bs = some b) : b ∈ bs := by
  induction bs with
  | nil => cases h
  | cons c rest ih =>
    unfold smallest? at h
    cases hrest : smallest? rest with
    | none =>
      rw [hrest] at h
      cases h
      exact List.mem_cons_self
    | some best =>
      rw [hrest] at h
      simp only at h
      split at h
      · cases h
        exact List.mem_cons_of_mem _ (ih hrest)
      · cases h
        exact List.mem_cons_self

/-- There is a smallest block unless there is none at all. -/
theorem smallest?_eq_none_iff : smallest? bs = none ↔ bs = [] := by
  cases bs with
  | nil => simp [smallest?]
  | cons c rest =>
    unfold smallest?
    cases smallest? rest with
    | none => simp
    | some best => simp only; split <;> simp

/-- The first of the smallest blocks: those in front of it are larger, those behind it are not
smaller. -/
theorem smallest?_eq_some_iff : smallest? bs = some b ↔
    ∃ xs ys, bs = xs ++ b :: ys ∧ (∀ c ∈ xs, b.size < c.size) ∧ ∀ c ∈ ys, b.size ≤ c.size := by
  -- the first block wins unless the smallest of the rest is smaller, and is in front of it then
  constructor
  · intro h
    induction bs generalizing b with
    | nil => cases h
    | cons c rest ih =>
      unfold smallest? at h
      cases hrest : smallest? rest with
      | none =>
        rw [hrest] at h
        cases h
        obtain rfl := smallest?_eq_none_iff.mp hrest
        exact ⟨[], [], rfl, List.forall_mem_nil _, List.forall_mem_nil _⟩
      | some best =>
        rw [hrest] at h
        obtain ⟨xs, ys, rfl, hxs, hys⟩ := ih hrest
        simp only at h
        split at h
        · next hlt =>
          cases h
          exact ⟨c :: xs, ys, rfl, List.forall_mem_cons.mpr ⟨hlt, hxs⟩, hys⟩
        · next hle =>
          cases h
          refine ⟨[], _, rfl, List.forall_mem_nil _, fun d hd => ?_⟩
          rcases List.mem_append.mp hd with hd | hd
          · have hless := hxs d hd
            omega
          · rcases List.mem_cons.mp hd with rfl | hd
            · omega
            · have hless := hys d hd
              omega
  · rintro ⟨xs, ys, rfl, hxs, hys⟩
    induction xs with
    | nil =>
      rw [List.nil_append, smallest?]
      cases hrest : smallest? ys with
      | none => rfl
      | some best => exact if_neg (Nat.not_lt.mpr (hys best (mem_of_smallest? hrest)))
    | cons c xs ih =>
      obtain ⟨hc, hxs⟩ := List.forall_mem_cons.mp hxs
      rw [List.cons_append, smallest?, ih hxs]
      exact if_pos hc

/-- Stopping at a block of exactly the size does not change what the best fit is. -/
theorem bestFit?_mk_none (need : Nat) (bs : List Block) :
    bestFit? need ⟨bs, none⟩ = .ok (smallest? (bs.filter (Block.holds need))) := by
  unfold bestFit?
  cases hexact : bs.find? fun b => b.size == need with
  | none => rfl
  | some b =>
    obtain ⟨hsize, xs, ys, rfl, hxs⟩ := List.find?_eq_some_iff_append.mp hexact
    have hsize : b.size = need := beq_iff_eq.mp hsize
    have hb : b.holds need = true := decide_eq_true (Nat.le_of_eq hsize.symm)
    have hbest : smallest? ((xs ++ b :: ys).filter (Block.holds need)) = some b := by
      rw [List.filter_append, List.filter_cons, if_pos hb, smallest?_eq_some_iff]
      refine ⟨_, _, rfl, fun c hc => ?_, fun c hc => ?_⟩
      · obtain ⟨hc, hroom⟩ := List.mem_filter.mp hc
        have hroom : need ≤ c.size := of_decide_eq_true hroom
        have hne : c.size ≠ need := by simpa using hxs c hc
        omega
      · have hroom : need ≤ c.size := of_decide_eq_true (List.mem_filter.mp hc).2
        omega
    rw [hbest]

namespace Block

/-- Searching for a free block with room is going through the free ones. -/
theorem find?_isFree_and_holds (need : Nat) (bs : List Block) :
    (bs.find? fun b => b.isFree && b.holds need) =
      ((bs.filter isFree).filter (holds need)).head? := by
  rw [List.head?_filter, List.find?_filter]
  simp only [Bool.decide_and, Bool.decide_eq_true]

/-- The block that starts at an offset. -/
def startingAt (bs : List Block) (x : Nat) : Option Block := bs.find? fun b => b.start == x

/-- The blocks behind an offset, and then those up to it. -/
def rotated (bs : List Block) (x : Nat) : List Block :=
  (bs.filter fun b => decide (x < b.start)) ++ bs.filter fun b => decide (b.start ≤ x)

private theorem mem_rotated_iff {x : Nat} : b ∈ rotated bs x ↔ b ∈ bs := by
  simp only [rotated, List.mem_append, List.mem_filter, decide_eq_true_eq]
  constructor
  · rintro (⟨hb, -⟩ | ⟨hb, -⟩) <;> exact hb
  · intro hb
    exact (Nat.lt_or_ge x b.start).imp (fun hlt => ⟨hb, hlt⟩) fun hle => ⟨hb, hle⟩

/-- Rotating around an offset exchanges the blocks up to it with those behind it. -/
theorem rotated_append {xs ys : List Block} {x : Nat} (hxs : ∀ b ∈ xs, b.start ≤ x)
    (hys : ∀ b ∈ ys, x < b.start) : rotated (xs ++ ys) x = ys ++ xs := by
  have hbehind : (xs ++ ys).filter (fun b => decide (x < b.start)) = ys := by
    rw [List.filter_append, List.filter_eq_nil_iff.mpr, List.filter_eq_self.mpr, List.nil_append]
    · exact fun b hb => decide_eq_true (hys b hb)
    · exact fun b hb => by simpa using hxs b hb
  have hupto : (xs ++ ys).filter (fun b => decide (b.start ≤ x)) = xs := by
    rw [List.filter_append, List.filter_eq_self.mpr, List.filter_eq_nil_iff.mpr, List.append_nil]
    · exact fun b hb => by simpa using hys b hb
    · exact fun b hb => decide_eq_true (hxs b hb)
  rw [rotated, hbehind, hupto]

/-- Where starts are distinct, the block found at an offset is the one that starts there. -/
theorem startingAt_eq_some_iff (hnodup : (bs.map start).Nodup) {x : Nat} :
    startingAt bs x = some b ↔ b ∈ bs ∧ b.start = x := by
  constructor
  · intro h
    exact ⟨List.mem_of_find?_eq_some h, by simpa using List.find?_some h⟩
  · rintro ⟨hb, rfl⟩
    cases hfind : startingAt bs b.start with
    | none =>
      have hnone := List.find?_eq_none.mp hfind b hb
      exact absurd (beq_self_eq_true _) hnone
    | some c =>
      have hc := List.mem_of_find?_eq_some hfind
      have hstart : c.start = b.start := by simpa using List.find?_some hfind
      rw [List.inj_on_of_nodup_map hnodup hc hb hstart]

end Block

/-- The blocks that some classes list, class by class and newest first. -/
def Filing.blocksOf (f : Filing) (bs : List Block) (cs : List SizeClass) : List Block :=
  (cs.flatMap f).filterMap (Block.startingAt bs)

/-- The blocks of two runs of classes are those of the first and then those of the second. -/
theorem Filing.blocksOf_append (f : Filing) (bs : List Block) (cs ds : List SizeClass) :
    f.blocksOf bs (cs ++ ds) = f.blocksOf bs cs ++ f.blocksOf bs ds := by
  simp [blocksOf]

namespace Filing.Of

/-- The blocks a filing has in some classes are the free blocks of these classes. -/
theorem mem_blocksOf_iff (h : f.Of bs) (hnodup : (bs.map Block.start).Nodup) :
    b ∈ f.blocksOf bs cs ↔ b ∈ bs ∧ b.isFree = true ∧ SizeClass.ofSize b.size ∈ cs := by
  simp only [blocksOf, List.mem_filterMap, List.mem_flatMap]
  constructor
  · rintro ⟨x, ⟨c, hc, hx⟩, hstart⟩
    obtain ⟨hb, rfl⟩ := (Block.startingAt_eq_some_iff hnodup).mp hstart
    obtain ⟨d, hd, hfree, hsame, rfl⟩ := (h c b.start).mp hx
    obtain rfl := List.inj_on_of_nodup_map hnodup hd hb hsame
    exact ⟨hb, hfree, hc⟩
  · rintro ⟨hb, hfree, hc⟩
    exact ⟨b.start, ⟨_, hc, (h _ _).mpr ⟨b, hb, hfree, rfl, rfl⟩⟩,
      (Block.startingAt_eq_some_iff hnodup).mpr ⟨hb, rfl⟩⟩

/-- The blocks that classes list start at the offsets that they list. -/
theorem map_start_blocksOf (h : f.Of bs) (hnodup : (bs.map Block.start).Nodup)
    (cs : List SizeClass) : (f.blocksOf bs cs).map Block.start = cs.flatMap f := by
  rw [blocksOf, List.map_filterMap]
  calc
    _ = (cs.flatMap f).filterMap some := List.filterMap_congr fun x hx => ?_
    _ = cs.flatMap f := List.filterMap_some
  obtain ⟨c, -, hx⟩ := List.mem_flatMap.mp hx
  obtain ⟨b, hb, -, hstart, -⟩ := (h c x).mp hx
  rw [(Block.startingAt_eq_some_iff hnodup).mpr ⟨hb, hstart⟩, Option.map_some, hstart]

end Filing.Of

namespace SizeClass

/-- The classes left after dropping the first ones are those from there on. -/
theorem mem_drop_all_iff {c d : SizeClass} : d ∈ all.drop c.val ↔ c ≤ d := by
  rw [List.mem_drop_iff_getElem]
  constructor
  · rintro ⟨i, hi, rfl⟩
    rw [getElem_all]
    exact Fin.le_def.mpr (Nat.le_add_right _ _)
  · intro hle
    have hle : c.val ≤ d.val := hle
    have hlength : all.length = classCount := by simp [all]
    exact ⟨d.val - c.val, by have hlt := d.isLt; omega, by
      rw [getElem_all]
      exact Fin.ext (by simp; omega)⟩

/-- Every class is in the list of all classes. -/
theorem mem_all (c : SizeClass) : c ∈ all := List.mem_finRange c

/-- No class is listed twice. -/
theorem nodup_all : all.Nodup := List.nodup_finRange _

end SizeClass

namespace Policy

variable {policy : Policy}

/-- The least size that a block must have to be taken for `need` bytes. The segregated search
goes by class, and wants what the first class that qualifies guarantees. -/
def floor (policy : Policy) (need : Nat) : Nat :=
  match policy, SizeClass.qualifying? need with
  | .segregated, some c => c.guarantee
  | _, _ => need

/-- The free blocks that a policy goes through, in order. -/
def order (policy : Policy) (bs : List Block) (f : Filing) (rover need : Nat) : List Block :=
  match policy with
  | .segregated =>
    match SizeClass.qualifying? need with
    | some c => f.blocksOf bs (SizeClass.all.drop c.val)
    | none => f.blocksOf bs [.last]
  | .firstFit | .bestFit => bs.filter Block.isFree
  | .nextFit => (Block.rotated bs rover).filter Block.isFree
  | .explicitFirstFit | .explicitBestFit => f.blocksOf bs SizeClass.all

/-- Whether a policy takes the smallest of its candidates instead of the first. -/
def wantsSmallest : Policy → Bool
  | .bestFit | .explicitBestFit => true
  | _ => false

/-- The blocks that a policy may take. -/
def candidates (policy : Policy) (bs : List Block) (f : Filing) (rover need : Nat) : List Block :=
  (policy.order bs f rover need).filter (Block.holds (policy.floor need))

/-- The block that a policy takes. -/
def choose (policy : Policy) (bs : List Block) (f : Filing) (rover need : Nat) : Option Block :=
  if policy.wantsSmallest then smallest? (policy.candidates bs f rover need)
  else (policy.candidates bs f rover need).head?

/-- All policies but the segregated one take every block that is large enough. -/
theorem floor_of_ne (h : policy ≠ .segregated) (need : Nat) : policy.floor need = need := by
  cases policy <;> first | rfl | exact absurd rfl h

/-- No policy is content with less than the need. -/
theorem le_floor (policy : Policy) (need : Nat) : need ≤ policy.floor need := by
  unfold floor
  split
  · next c hc => exact (SizeClass.qualifying?_eq_some_iff.mp hc).2.1
  · exact Nat.le_refl _

/-- What is large enough for a need is large enough for a smaller one. -/
theorem floor_mono {m n : Nat} (h : m ≤ n) : policy.floor m ≤ policy.floor n := by
  by_cases hpolicy : policy = .segregated
  · subst hpolicy
    unfold floor
    cases hn : SizeClass.qualifying? n with
    | some d =>
      obtain ⟨hd, hnd, -⟩ := SizeClass.qualifying?_eq_some_iff.mp hn
      cases hm : SizeClass.qualifying? m with
      | some c =>
        obtain ⟨-, -, hleast⟩ := SizeClass.qualifying?_eq_some_iff.mp hm
        refine SizeClass.classBoundary_mono (Nat.not_lt.mp fun hlt => ?_)
        exact absurd (hleast d hd hlt) (by omega)
      | none => exact Nat.le_trans h hnd
    | none =>
      cases hm : SizeClass.qualifying? m with
      | some c =>
        have hlarge := SizeClass.qualifying?_eq_none_iff.mp hn
        have hc : c.guarantee ≤ SizeClass.last.guarantee :=
          SizeClass.classBoundary_mono (Nat.le_of_lt_succ c.isLt)
        exact Nat.le_trans hc (Nat.le_of_lt hlarge)
      | none => exact h
  · rw [floor_of_ne hpolicy, floor_of_ne hpolicy]
    exact h

/-- Next fit takes the first free block with room behind the rover, and else the first one up to
it. -/
theorem choose_nextFit {upto behind : List Block} (hupto : ∀ b ∈ upto, b.start ≤ rover)
    (hbehind : ∀ b ∈ behind, rover < b.start) :
    choose .nextFit (upto ++ behind) f rover need =
      (behind ++ upto).find? fun b => b.isFree && b.holds need := by
  rw [Block.find?_isFree_and_holds, ← Block.rotated_append hupto hbehind]
  rfl

/-- First fit without buckets chooses the first free block that fits. -/
theorem choose_firstFit :
    choose .firstFit bs f rover need = bs.find? fun b => b.isFree && b.holds need := by
  rw [Block.find?_isFree_and_holds]
  rfl

/-- A block of twice the need is large enough for every policy. -/
theorem floor_le_double (hneed : 40 < need) : policy.floor need ≤ 2 * need := by
  unfold floor
  split
  · next c hc => exact SizeClass.guarantee_le_double hc hneed
  · omega

variable (hf : f.Of bs) (hnodup : (bs.map Block.start).Nodup)
include hf hnodup

/-- A policy goes through free blocks only, and meets all those that are large enough. -/
theorem mem_order (hfree : b.isFree = true) (hfit : policy.floor need ≤ b.size) (hb : b ∈ bs) :
    b ∈ policy.order bs f rover need := by
  cases policy with
  | segregated =>
    unfold order
    unfold floor at hfit
    cases hclass : SizeClass.qualifying? need with
    | some c =>
      rw [hclass] at hfit
      exact (hf.mem_blocksOf_iff hnodup).mpr
        ⟨hb, hfree, SizeClass.mem_drop_all_iff.mpr (SizeClass.le_ofSize_iff.mpr hfit)⟩
    | none =>
      rw [hclass] at hfit
      have hlarge := SizeClass.qualifying?_eq_none_iff.mp hclass
      have hle : SizeClass.last ≤ SizeClass.ofSize b.size :=
        SizeClass.le_ofSize_iff.mpr (Nat.le_trans (Nat.le_of_lt hlarge) hfit)
      have hlast : SizeClass.ofSize b.size = .last :=
        Fin.le_antisymm (Fin.le_def.mpr (Nat.le_of_lt_succ (SizeClass.ofSize b.size).isLt)) hle
      exact (hf.mem_blocksOf_iff hnodup).mpr ⟨hb, hfree, List.mem_singleton.mpr hlast⟩
  | firstFit => exact List.mem_filter.mpr ⟨hb, hfree⟩
  | bestFit => exact List.mem_filter.mpr ⟨hb, hfree⟩
  | nextFit => exact List.mem_filter.mpr ⟨Block.mem_rotated_iff.mpr hb, hfree⟩
  | explicitFirstFit =>
    exact (hf.mem_blocksOf_iff hnodup).mpr ⟨hb, hfree, SizeClass.mem_all _⟩
  | explicitBestFit =>
    exact (hf.mem_blocksOf_iff hnodup).mpr ⟨hb, hfree, SizeClass.mem_all _⟩

private theorem mem_of_mem_order (hb : b ∈ policy.order bs f rover need) :
    b ∈ bs ∧ b.isFree = true := by
  have hlisted {cs : List SizeClass} (hb : b ∈ f.blocksOf bs cs) : b ∈ bs ∧ b.isFree = true :=
    ⟨((hf.mem_blocksOf_iff hnodup).mp hb).1, ((hf.mem_blocksOf_iff hnodup).mp hb).2.1⟩
  cases policy with
  | segregated =>
    unfold order at hb
    cases hclass : SizeClass.qualifying? need with
    | some c =>
      rw [hclass] at hb
      exact hlisted hb
    | none =>
      rw [hclass] at hb
      exact hlisted hb
  | firstFit => exact List.mem_filter.mp hb
  | bestFit => exact List.mem_filter.mp hb
  | nextFit =>
    obtain ⟨hmem, hfree⟩ := List.mem_filter.mp hb
    exact ⟨Block.mem_rotated_iff.mp hmem, hfree⟩
  | explicitFirstFit => exact hlisted hb
  | explicitBestFit => exact hlisted hb

/-- The candidates are the free blocks that reach the floor. -/
theorem mem_candidates_iff : b ∈ policy.candidates bs f rover need ↔
    b ∈ bs ∧ b.isFree = true ∧ policy.floor need ≤ b.size := by
  rw [candidates, List.mem_filter, Block.holds, decide_eq_true_eq]
  constructor
  · rintro ⟨hb, hfit⟩
    obtain ⟨hmem, hfree⟩ := mem_of_mem_order hf hnodup hb
    exact ⟨hmem, hfree, hfit⟩
  · rintro ⟨hb, hfree, hfit⟩
    exact ⟨mem_order hf hnodup hfree hfit hb, hfit⟩

/-- What is chosen is a free block that reaches the floor. -/
theorem mem_of_choose (h : policy.choose bs f rover need = some b) :
    b ∈ bs ∧ b.isFree = true ∧ policy.floor need ≤ b.size := by
  have hb : b ∈ policy.candidates bs f rover need := by
    unfold choose at h
    split at h
    · exact mem_of_smallest? h
    · exact List.mem_of_head? h
  exact (mem_candidates_iff hf hnodup).mp hb

/-- In the classes that qualify all blocks are large enough, so the segregated search takes the
first one. -/
theorem choose_of_qualifying {c : SizeClass} (hclass : SizeClass.qualifying? need = some c) :
    choose .segregated bs f rover need = (f.blocksOf bs (SizeClass.all.drop c.val)).head? := by
  have hall : (f.blocksOf bs (SizeClass.all.drop c.val)).filter (Block.holds c.guarantee) =
      f.blocksOf bs (SizeClass.all.drop c.val) := by
    refine List.filter_eq_self.mpr fun b hb => decide_eq_true ?_
    obtain ⟨-, -, hc⟩ := (hf.mem_blocksOf_iff hnodup).mp hb
    exact SizeClass.le_ofSize_iff.mp (SizeClass.mem_drop_all_iff.mp hc)
  simp only [choose, wantsSmallest, candidates, order, floor, hclass, hall, Bool.false_eq_true,
    if_false]

/-- Nothing is chosen exactly when no free block reaches the floor. -/
theorem choose_eq_none_iff : policy.choose bs f rover need = none ↔
    ∀ b ∈ bs, b.isFree = true → b.size < policy.floor need := by
  have hnone : policy.choose bs f rover need = none ↔ policy.candidates bs f rover need = [] := by
    unfold choose
    split
    · exact smallest?_eq_none_iff
    · exact List.head?_eq_none_iff
  rw [hnone, List.eq_nil_iff_forall_not_mem]
  simp only [mem_candidates_iff hf hnodup, not_and, Nat.not_le]

/-- Something is chosen exactly when some free block reaches the floor. -/
theorem isSome_choose_iff : (policy.choose bs f rover need).isSome = true ↔
    ∃ b ∈ bs, b.isFree = true ∧ policy.floor need ≤ b.size := by
  rw [Option.isSome_iff_ne_none, Ne, choose_eq_none_iff hf hnodup]
  simp only [not_forall, Nat.not_lt, exists_prop]

end Policy

end SegregatedFit
