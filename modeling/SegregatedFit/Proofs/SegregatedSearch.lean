import SegregatedFit.Proofs.Amending
import SegregatedFit.Proofs.ExhaustiveSearch
import SegregatedFit.Proofs.Recency

/-!
# How far the segregated search can be trusted

The segregated search takes the newest block of the first bucket that is not empty, from the class
on that qualifies, and looks at no size. It is sound because every listed block is filed by the
size that it has now. What it misses lies in the class below: a free block with room that reaches
no guarantee that qualifies, and all of these are smaller than twice the need. Only for a need
behind all guarantees does it look at sizes, and then it misses nothing.
-/

namespace SegregatedFit

variable {bs : List Block} {b : Block} {f : Filing} {c : SizeClass} {need : Nat}

/-- The buckets of a state of a legal run have a history. -/
theorem LegalRun.exists_history {held : Ledger} {h : Heap} (hr : LegalRun held h) :
    ∃ edits, h.buckets.IsHistory edits := by
  induction hr with
  | start _ hsetup => exact Heap.exists_history_of_setup hsetup
  | step _ _ hrun ih => exact ((Heap.Amends.refl _).perform _ _ hrun).leads.exists_history ih

/-- The first block that classes from one on list is the first one of the lowest of them that is
not empty. -/
theorem Filing.Of.head?_blocksOf_drop (hf : f.Of bs) (hnodup : (bs.map Block.start).Nodup)
    (hb : (f.blocksOf bs (SizeClass.all.drop c.val)).head? = some b) :
    ∃ d, c ≤ d ∧ (f d).head? = some b.start ∧ ∀ e, c ≤ e → e < d → f e = [] := by
  have hfirst : (SizeClass.all.drop c.val).findSome? (fun d => (f d).head?) = some b.start := by
    rw [← List.head?_flatMap, ← hf.map_start_blocksOf hnodup, List.head?_map, hb]
    rfl
  obtain ⟨lower, d, upper, hsplit, hd, hempty⟩ := List.findSome?_eq_some_iff.mp hfirst
  have hmem {e : SizeClass} : e ∈ lower ++ d :: upper ↔ c ≤ e :=
    hsplit ▸ SizeClass.mem_drop_all_iff
  have hordered : (lower ++ d :: upper).Pairwise (· < ·) :=
    hsplit ▸ (List.pairwise_lt_finRange _).sublist (List.drop_sublist ..)
  refine ⟨d, hmem.mp (List.mem_append_right _ List.mem_cons_self), hd, fun e hle hlt => ?_⟩
  rcases List.mem_append.mp (hmem.mpr hle) with he | he
  · exact List.head?_eq_none_iff.mp (hempty e he)
  · have hbehind : d ≤ e := by
      rcases List.mem_cons.mp he with rfl | he
      · exact Nat.le_refl _
      · exact Nat.le_of_lt (List.rel_of_pairwise_cons (List.pairwise_append.mp hordered).2.1 he)
    exact absurd hlt (Nat.not_lt.mpr hbehind)

/-- For a need of more than the smallest block, only blocks behind the first two classes are large
enough. -/
theorem Policy.le_floor_segregated (hneed : 40 < need) : 80 ≤ Policy.floor .segregated need := by
  unfold floor
  cases hclass : SizeClass.qualifying? need with
  | some s =>
    obtain ⟨hpos, hfit, -⟩ := SizeClass.qualifying?_eq_some_iff.mp hclass
    have hbehind : 2 ≤ s.val := by
      by_contra hfew
      have hone : s.val = 1 := by omega
      have hguarantee : s.guarantee = 40 := by rw [SizeClass.guarantee, hone]; rfl
      omega
    exact SizeClass.classBoundary_mono hbehind
  | none =>
    have hlarge := SizeClass.qualifying?_eq_none_iff.mp hclass
    have hlast : 80 ≤ SizeClass.last.guarantee := by decide
    exact Nat.le_trans hlast (Nat.le_of_lt hlarge)

namespace Heap.Holds

variable {h : Heap} (hh : h.Holds bs f)
include hh

/-- A block is listed in no bucket but that of its size. -/
theorem class_of_mem_walk (hb : b ∈ bs) (hmem : b.start ∈ (h.buckets.walk c).items) :
    SizeClass.ofSize b.size = c := by
  rw [hh.files.walk_eq] at hmem
  obtain ⟨d, hd, -, hstart, hclass⟩ := (hh.filed c b.start).mp hmem
  rw [← List.inj_on_of_nodup_map hh.divided.nodup hd hb hstart]
  exact hclass

/-- From a class on that qualifies, the segregated search takes the newest block of the lowest
class that has any. -/
theorem newest_of_choose {s : SizeClass} (hclass : SizeClass.qualifying? need = some s)
    (hb : Policy.choose .segregated bs f h.rover need = some b) :
    ∃ c, s ≤ c ∧ h.buckets.Newest c b.start ∧
      ∀ d, s ≤ d → d < c → (h.buckets.walk d).items = [] := by
  have hnodup := hh.divided.nodup
  rw [Policy.choose_of_qualifying hh.filed hnodup hclass] at hb
  obtain ⟨c, hle, hhead, hempty⟩ := hh.filed.head?_blocksOf_drop hnodup hb
  refine ⟨c, hle, hh.files.newest hhead, fun d hd hlt => ?_⟩
  rw [hh.files.walk_eq]
  exact hempty d hd hlt

end Heap.Holds

/-- In a state of a legal run and for the size of a block for any request, the segregated search
does not fail. What it finds is a listed free block with room, never one of the first two classes,
and if a class qualifies it is the newest block of the lowest class from there on that has any. If
it finds nothing then, all free blocks are below what the class guarantees, and so below twice the
need. If no class qualifies, it finds a block exactly when some free block has room. -/
theorem LegalRun.segregated_search {held : Ledger} {h : Heap} (hr : LegalRun held h)
    {request need : Nat} (hneed : blockFor request = .ok need) :
    ∃ bs found, h.blocks = ⟨bs, none⟩ ∧ (∃ edits, h.buckets.IsHistory edits) ∧
      ((h.withPolicy .segregated).search need).outcome = .ok (found, h.withPolicy .segregated) ∧
      (∀ p, found = some p →
        (∃ b ∈ bs, b.start = p ∧ b.isFree = true ∧ need ≤ b.size ∧
          h.buckets.contains p = true ∧ p ∈ (h.buckets.walk (.ofSize b.size)).items) ∧
        (∀ c, p ∈ (h.buckets.walk c).items → c ≠ 0 ∧ c ≠ 1) ∧
        ∀ s, SizeClass.qualifying? need = some s → ∃ c, s ≤ c ∧ h.buckets.Newest c p ∧
          ∀ d, s ≤ d → d < c → (h.buckets.walk d).items = []) ∧
      (found = none → ∀ s, SizeClass.qualifying? need = some s → ∀ b ∈ bs, b.isFree = true →
        b.size < s.guarantee ∧ b.size < 2 * need) ∧
      (SizeClass.qualifying? need = none →
        (found.isSome = true ↔ ∃ b ∈ bs, b.isFree = true ∧ need ≤ b.size)) := by
  obtain ⟨bs, f, ht⟩ := hr.tracked
  have hh := ht.holds
  have hlarge : 40 < need := by
    have hspec := (blockSize_spec request).2.2
    have hsize := (blockFor_eq_ok_iff.mp hneed).2
    omega
  refine ⟨bs, _, hh.blocks_eq, hr.exists_history,
    hh.search_withPolicy .segregated (by decide) need, fun p hp => ?_,
    fun hnone s hs b hb hfree => ?_, fun hnone => ?_⟩
  · obtain ⟨b, hchoice, rfl⟩ := Option.map_eq_some_iff.mp hp
    obtain ⟨hb, hfree, hfloor⟩ := Policy.mem_of_choose hh.filed hh.divided.nodup hchoice
    obtain ⟨hlisted, hwalk⟩ := hh.registered hb hfree
    refine ⟨⟨b, hb, rfl, hfree, Nat.le_trans (Policy.le_floor _ _) hfloor, hlisted, hwalk⟩,
      fun c hc => ?_, fun s hs => hh.newest_of_choose hs hchoice⟩
    have hbehind : (2 : SizeClass) ≤ SizeClass.ofSize b.size :=
      SizeClass.le_ofSize_iff.mpr (Nat.le_trans (Policy.le_floor_segregated hlarge) hfloor)
    rw [hh.class_of_mem_walk hb hc] at hbehind
    constructor
    · rintro rfl
      exact absurd hbehind (by decide)
    · rintro rfl
      exact absurd hbehind (by decide)
  · rw [Option.map_eq_none_iff, Policy.choose_eq_none_iff hh.filed hh.divided.nodup] at hnone
    have hless := hnone b hb hfree
    have hdouble : Policy.floor .segregated need ≤ 2 * need := Policy.floor_le_double hlarge
    have hfloor : Policy.floor .segregated need = s.guarantee := by simp only [Policy.floor, hs]
    omega
  · have hfloor : Policy.floor .segregated need = need := by simp only [Policy.floor, hnone]
    rw [Option.isSome_map, Policy.isSome_choose_iff hh.filed hh.divided.nodup, hfloor]

/-- Only one block of a bucket is the newest one, if the bucket has a history at all. -/
private theorem Buckets.Newest.eq {s : Buckets} {p q : Nat} (hp : s.Newest c p)
    (hq : s.Newest c q) (hs : ∃ edits, s.IsHistory edits) : p = q := by
  obtain ⟨edits, hhistory⟩ := hs
  by_contra hne
  have hless := hp.2 edits hhistory q hq.1 (Ne.symm hne)
  exact absurd (hq.2 edits hhistory p hp.1 hne) (Nat.lt_asymm hless)

/-- Three free blocks are in one bucket, and all of them have room for 48 bytes. The search takes
the one that was filed last. -/
theorem LegalRun.segregated_search_of_roomy : ∃ (held : Ledger) (h : Heap),
    LegalRun held h ∧ blockFor 30 = .ok 48 ∧ (h.buckets.walk 2).items = [16, 352, 176] ∧
    ((h.withPolicy .segregated).search 48).outcome = .ok (some 16, h.withPolicy .segregated) ∧
    h.buckets.Newest 2 16 := by
  obtain ⟨held, h, hr, hitems, -, hwalk⟩ := LegalRun.exists_roomy
  have hneed : blockFor 30 = .ok 48 := by rfl
  have hclass : SizeClass.qualifying? 48 = some 2 := by decide
  obtain ⟨bs, found, hblocks, hhistory, hsearch, hhit, hmiss, -⟩ :=
    LegalRun.segregated_search hr hneed
  rw [hblocks] at hitems
  obtain rfl : bs = _ := hitems
  have hfirst : h.buckets.Newest 2 16 := by
    obtain ⟨bs, f, ht⟩ := hr.tracked
    have hlist : f 2 = [16, 352, 176] :=
      (congrArg Walk.items (ht.holds.files.walk_eq 2)).symm.trans hwalk
    exact ht.holds.files.newest (by rw [hlist]; rfl)
  cases found with
  | none =>
    have hless := hmiss rfl 2 hclass ⟨16, .free 112⟩ List.mem_cons_self rfl
    exact absurd hless.1 (by decide)
  | some p =>
    obtain ⟨c, hle, hnewest, hempty⟩ := (hhit p rfl).2.2 2 hclass
    -- the lowest bucket from the second on that has any blocks is the second one
    have hc : c = 2 := by
      by_contra hne
      have hnil := hempty 2 (Nat.le_refl 2) (lt_of_le_of_ne hle (Ne.symm hne))
      rw [hwalk] at hnil
      cases hnil
    subst hc
    obtain rfl := hnewest.eq hfirst hhistory
    exact ⟨held, h, hr, hneed, hwalk, hsearch, hnewest⟩

end SegregatedFit
