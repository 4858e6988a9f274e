import SegregatedFit.Proofs.ExhaustiveSearch

/-!
# How well the best fit fits

Best fit takes the smallest block with room. By address this is the lowest one of that size, and
bucket by bucket it is the first one of that size. Neither answer depends on whether the search
stops at a block of exactly the size. Going through the buckets, the first block with room is in the
same class as the best one, because the classes come in the order of their sizes.
-/

namespace SegregatedFit

variable {bs : List Block} {b c : Block} {f : Filing} {cs : List SizeClass} {need : Nat}

/-- Goes through candidates one by one. Each one that has room and is smaller than the best one so
far takes its place. A search that stops takes a block of exactly the size at once. -/
def bestSoFar (stops : Bool) (need : Nat) : Option Block → List Block → Option Block
  | best, [] => best
  | best, b :: rest =>
    if b.size < need then bestSoFar stops need best rest
    else if stops = true ∧ b.size = need then some b
    else if best.all fun c => decide (b.size < c.size) then bestSoFar stops need (some b) rest
    else bestSoFar stops need best rest

private theorem size_le_of_smallest? (hbest : smallest? bs = some b) (hc : c ∈ bs) :
    b.size ≤ c.size := by
  obtain ⟨xs, ys, rfl, hxs, hys⟩ := smallest?_eq_some_iff.mp hbest
  rcases List.mem_append.mp hc with hc | hc
  · exact Nat.le_of_lt (hxs c hc)
  · rcases List.mem_cons.mp hc with rfl | hc
    · exact Nat.le_refl _
    · exact hys c hc

private theorem smallest?_cons_of_lt {rest : List Block} (h : b.size < c.size) :
    smallest? (c :: b :: rest) = smallest? (b :: rest) := by
  obtain ⟨best, hbest⟩ : ∃ best, smallest? (b :: rest) = some best :=
    Option.ne_none_iff_exists'.mp fun hnone => by cases smallest?_eq_none_iff.mp hnone
  obtain ⟨xs, ys, hsplit, hxs, hys⟩ := smallest?_eq_some_iff.mp hbest
  rw [hbest]
  refine smallest?_eq_some_iff.mpr ⟨c :: xs, ys, by rw [hsplit]; rfl, ?_, hys⟩
  refine List.forall_mem_cons.mpr ⟨?_, hxs⟩
  cases xs with
  | nil =>
    obtain ⟨rfl, -⟩ := List.cons.inj hsplit
    exact h
  | cons d xs =>
    obtain ⟨rfl, -⟩ := List.cons.inj hsplit
    have hless := hxs b List.mem_cons_self
    omega

private theorem smallest?_cons_of_le {rest : List Block} (h : c.size ≤ b.size) :
    smallest? (c :: b :: rest) = smallest? (c :: rest) := by
  obtain ⟨best, hbest⟩ : ∃ best, smallest? (c :: rest) = some best :=
    Option.ne_none_iff_exists'.mp fun hnone => by cases smallest?_eq_none_iff.mp hnone
  obtain ⟨xs, ys, hsplit, hxs, hys⟩ := smallest?_eq_some_iff.mp hbest
  rw [hbest]
  cases xs with
  | nil =>
    obtain ⟨rfl, rfl⟩ := List.cons.inj hsplit
    exact smallest?_eq_some_iff.mpr
      ⟨[], b :: rest, rfl, List.forall_mem_nil _, List.forall_mem_cons.mpr ⟨h, hys⟩⟩
  | cons d xs =>
    obtain ⟨rfl, rfl⟩ := List.cons.inj hsplit
    obtain ⟨hc, hxs⟩ := List.forall_mem_cons.mp hxs
    refine smallest?_eq_some_iff.mpr ⟨c :: b :: xs, ys, rfl, ?_, hys⟩
    exact List.forall_mem_cons.mpr ⟨hc, List.forall_mem_cons.mpr ⟨by omega, hxs⟩⟩

/-- What is left to look at decides together with the best block so far, whether the search stops
or not. A search that stops has not met a block of exactly the size yet. -/
theorem bestSoFar_eq {stops : Bool} {best : Option Block}
    (hbest : stops = true → ∀ c ∈ best, need < c.size) (bs : List Block) :
    bestSoFar stops need best bs = smallest? (best.toList ++ bs.filter (Block.holds need)) := by
  induction bs generalizing best with
  | nil => cases best <;> rfl
  | cons b rest ih =>
    rw [bestSoFar, List.filter_cons]
    by_cases hsmall : b.size < need
    · have hroom : Block.holds need b = false := decide_eq_false (Nat.not_le.mpr hsmall)
      simp only [if_pos hsmall, hroom, Bool.false_eq_true, if_false]
      exact ih hbest
    have hroom : Block.holds need b = true := decide_eq_true (Nat.not_lt.mp hsmall)
    rw [if_neg hsmall, if_pos hroom]
    -- no block so far fits exactly, so a search that stops here has met the first smallest one
    by_cases hexact : stops = true ∧ b.size = need
    · rw [if_pos hexact]
      refine (smallest?_eq_some_iff.mpr ⟨best.toList, _, rfl, fun c hc => ?_, fun c hc => ?_⟩).symm
      · rw [hexact.2]
        exact hbest hexact.1 c (Option.mem_toList.mp hc)
      · rw [hexact.2]
        exact of_decide_eq_true (List.mem_filter.mp hc).2
    rw [if_neg hexact]
    have hlarger : stops = true → need < b.size := fun hstops =>
      Nat.lt_of_le_of_ne (Nat.not_lt.mp hsmall) fun heq => hexact ⟨hstops, heq.symm⟩
    have hnext : stops = true → ∀ c ∈ some b, need < c.size := fun hstops c hc => by
      cases hc
      exact hlarger hstops
    cases best with
    | none => exact ih hnext
    | some c =>
      by_cases hless : b.size < c.size
      · rw [if_pos (by simpa using hless), ih hnext]
        exact (smallest?_cons_of_lt hless).symm
      · rw [if_neg (by simpa using hless), ih hbest]
        exact (smallest?_cons_of_le (Nat.not_lt.mp hless)).symm

/-- The best fit among blocks in address order: a free block of the least size that has room, and
the lowest one of its size. -/
structure Block.BestFor (need : Nat) (bs : List Block) (best : Block) : Prop where
  mem : best ∈ bs
  isFree : best.isFree = true
  le_size : need ≤ best.size
  least : ∀ b ∈ bs, b.isFree = true → need ≤ b.size → best.size ≤ b.size
  lowest : ∀ b ∈ bs, b.isFree = true → b.size = best.size → best.start ≤ b.start

/-- In address order the first of the smallest blocks is the lowest one of its size. -/
theorem Block.bestFor_of_smallest? (hsorted : bs.Pairwise fun b c => b.start ≤ c.start)
    (hbest : smallest? ((bs.filter isFree).filter (holds need)) = some b) : b.BestFor need bs := by
  have hmem (c : Block) : c ∈ (bs.filter isFree).filter (holds need) ↔
      (c ∈ bs ∧ c.isFree = true) ∧ need ≤ c.size := by
    rw [List.mem_filter, List.mem_filter, holds, decide_eq_true_eq]
  obtain ⟨⟨hb, hfree⟩, hfit⟩ := (hmem b).mp (mem_of_smallest? hbest)
  refine ⟨hb, hfree, hfit, fun c hc hcfree hcfit => ?_, fun c hc hcfree hsame => ?_⟩
  · exact size_le_of_smallest? hbest ((hmem c).mpr ⟨⟨hc, hcfree⟩, hcfit⟩)
  · have hordered := (hsorted.sublist List.filter_sublist).sublist
      (List.filter_sublist (p := holds need) (l := bs.filter isFree))
    have hcand := (hmem c).mpr ⟨⟨hc, hcfree⟩, hsame ▸ hfit⟩
    obtain ⟨xs, ys, hsplit, hxs, -⟩ := smallest?_eq_some_iff.mp hbest
    rw [hsplit] at hordered hcand
    rcases List.mem_append.mp hcand with hc | hc
    · have hless := hxs c hc
      omega
    · rcases List.mem_cons.mp hc with rfl | hc
      · exact Nat.le_refl _
      · exact List.rel_of_pairwise_cons (List.pairwise_append.mp hordered).2.1 hc

/-- In any order the first of the smallest blocks with room is the first one of its size. -/
theorem find?_of_smallest? (hbest : smallest? (bs.filter (Block.holds need)) = some b) :
    bs.find? (fun c => c.size == b.size) = some b := by
  obtain ⟨xs, ys, hsplit, hxs, -⟩ := smallest?_eq_some_iff.mp hbest
  have hfit : need ≤ b.size := of_decide_eq_true (List.mem_filter.mp (mem_of_smallest? hbest)).2
  have hfirst : (bs.filter (Block.holds need)).find? (fun c => c.size == b.size) = some b := by
    rw [hsplit]
    refine List.find?_eq_some_iff_append.mpr ⟨beq_self_eq_true _, xs, ys, rfl, fun c hc => ?_⟩
    have hne : c.size ≠ b.size := Nat.ne_of_gt (hxs c hc)
    simpa using hne
  rw [List.find?_filter] at hfirst
  rw [← hfirst]
  congr 1
  funext c
  by_cases hsame : c.size = b.size
  · have hroom : Block.holds need c = true := decide_eq_true (hsame ▸ hfit)
    simp [hroom, hsame]
  · simp [hsame]

/-- Blocks that are listed class by class come in the order of their classes. -/
theorem Filing.Of.pairwise_blocksOf (hf : f.Of bs) (hnodup : (bs.map Block.start).Nodup)
    (hcs : cs.Pairwise (· ≤ ·)) :
    (f.blocksOf bs cs).Pairwise fun b c => SizeClass.ofSize b.size ≤ SizeClass.ofSize c.size := by
  induction cs with
  | nil => exact .nil
  | cons c rest ih =>
    obtain ⟨hc, hrest⟩ := List.pairwise_cons.mp hcs
    have hfirst {b : Block} (hb : b ∈ f.blocksOf bs [c]) : SizeClass.ofSize b.size = c :=
      List.mem_singleton.mp ((hf.mem_blocksOf_iff hnodup).mp hb).2.2
    rw [← List.singleton_append, Filing.blocksOf_append, List.pairwise_append]
    refine ⟨List.pairwise_of_forall_mem_list fun b hb d hd => ?_, ih hrest, fun b hb d hd => ?_⟩
    · exact Nat.le_of_eq (congrArg Fin.val ((hfirst hb).trans (hfirst hd).symm))
    · rw [hfirst hb]
      exact hc _ ((hf.mem_blocksOf_iff hnodup).mp hd).2.2

/-- The first listed block with room is in the lowest class that has one. -/
theorem Filing.Of.class_le_of_find? (hf : f.Of bs) (hnodup : (bs.map Block.start).Nodup)
    (hfound : (f.blocksOf bs SizeClass.all).find? (Block.holds need) = some b) (hc : c ∈ bs)
    (hfree : c.isFree = true) (hfit : need ≤ c.size) :
    SizeClass.ofSize b.size ≤ SizeClass.ofSize c.size := by
  obtain ⟨-, xs, ys, hsplit, hxs⟩ := List.find?_eq_some_iff_append.mp hfound
  have hclasses : SizeClass.all.Pairwise (· ≤ ·) := List.pairwise_le_finRange _
  have hordered := hf.pairwise_blocksOf hnodup hclasses
  have hmem : c ∈ f.blocksOf bs SizeClass.all :=
    (hf.mem_blocksOf_iff hnodup).mpr ⟨hc, hfree, SizeClass.mem_all _⟩
  rw [hsplit] at hordered hmem
  rcases List.mem_append.mp hmem with hc | hc
  · have hroom : Block.holds need c = true := decide_eq_true hfit
    have hnone := hxs c hc
    rw [hroom] at hnone
    cases hnone
  · rcases List.mem_cons.mp hc with rfl | hc
    · exact Nat.le_refl _
    · exact List.rel_of_pairwise_cons (List.pairwise_append.mp hordered).2.1 hc

namespace Heap.Holds

variable {h : Heap} (hh : h.Holds bs f)
include hh

/-- The buckets list the free blocks. -/
theorem mem_listed_iff : b ∈ f.blocksOf bs SizeClass.all ↔ b ∈ bs ∧ b.isFree = true := by
  rw [hh.filed.mem_blocksOf_iff hh.divided.nodup]
  exact ⟨fun hb => ⟨hb.1, hb.2.1⟩, fun hb => ⟨hb.1, hb.2, SizeClass.mem_all _⟩⟩

/-- The listed blocks are those of each bucket in turn. -/
theorem map_start_listed : (f.blocksOf bs SizeClass.all).map Block.start =
    SizeClass.all.flatMap fun c => (h.buckets.walk c).items := by
  rw [hh.filed.map_start_blocksOf hh.divided.nodup]
  exact List.flatMap_congr fun c _ => by rw [hh.files.walk_eq]

private theorem sorted : bs.Pairwise fun b c => b.start ≤ c.start :=
  hh.divided.tiled.pairwise.imp fun hle => Nat.le_trans (Nat.le_add_right ..) hle

/-- Every policy that looks at sizes chooses a block when one has room. -/
theorem exists_choose (policy : Policy) (hpolicy : policy ≠ .segregated)
    (hfits : ∃ b ∈ bs, b.isFree = true ∧ need ≤ b.size) :
    ∃ b, policy.choose bs f h.rover need = some b := by
  rw [← Policy.floor_of_ne hpolicy need] at hfits
  exact Option.isSome_iff_exists.mp
    ((Policy.isSome_choose_iff hh.filed hh.divided.nodup).mpr hfits)

/-- Bucket by bucket the first of the smallest blocks has the size of the best one. -/
theorem size_eq_of_bestFor (hbest : b.BestFor need bs)
    (hc : smallest? ((f.blocksOf bs SizeClass.all).filter (Block.holds need)) = some c) :
    c.size = b.size := by
  obtain ⟨hmem, hroom⟩ := List.mem_filter.mp (mem_of_smallest? hc)
  obtain ⟨hmem, hfree⟩ := hh.mem_listed_iff.mp hmem
  have hlisted := hh.mem_listed_iff.mpr ⟨hbest.mem, hbest.isFree⟩
  have hle := size_le_of_smallest? hc
    (List.mem_filter.mpr ⟨hlisted, decide_eq_true hbest.le_size⟩)
  exact Nat.le_antisymm hle (hbest.least c hmem hfree (of_decide_eq_true hroom))

/-- Bucket by bucket the first block with room is in the class of the best one. -/
theorem class_eq_of_bestFor (hbest : b.BestFor need bs)
    (hc : (f.blocksOf bs SizeClass.all).find? (Block.holds need) = some c) :
    SizeClass.ofSize c.size = SizeClass.ofSize b.size := by
  obtain ⟨hmem, hfree⟩ := hh.mem_listed_iff.mp (List.mem_of_find?_eq_some hc)
  have hroom : Block.holds need c = true := List.find?_some hc
  have hfit : need ≤ c.size := of_decide_eq_true hroom
  exact Fin.le_antisymm (hh.filed.class_le_of_find? hh.divided.nodup hc hbest.mem hbest.isFree
    hbest.le_size) (SizeClass.gc_guarantee_ofSize.monotone_u (hbest.least c hmem hfree hfit))

end Heap.Holds

/-- In a state of a legal run in which some free block has room, best fit takes the lowest of the
smallest ones by address, and the first of the smallest ones bucket by bucket. Both are what comes
of looking at all candidates, whether the search stops at a block of exactly the size or not. The
explicit first fit takes a block of the same class as the best one, which in all classes but the
last is smaller than twice the best one. -/
theorem LegalRun.best_fit_optimal {held : Ledger} {h : Heap} (hr : LegalRun held h) {need : Nat}
    (hfits : ∃ b ∈ h.blocks.items, b.isFree = true ∧ need ≤ b.size) :
    ∃ bs listed best explicitBest explicitFirst,
      h.blocks = ⟨bs, none⟩ ∧ h.listedBlocks = ⟨listed, none⟩ ∧
      listed.map Block.start = SizeClass.all.flatMap (fun c => (h.buckets.walk c).items) ∧
      (∀ b, b ∈ listed ↔ b ∈ bs ∧ b.isFree = true) ∧
      ((h.withPolicy .bestFit).search need).outcome =
        .ok (some best.start, h.withPolicy .bestFit) ∧
      best.BestFor need bs ∧
      ((h.withPolicy .explicitBestFit).search need).outcome =
        .ok (some explicitBest.start, h.withPolicy .explicitBestFit) ∧
      explicitBest.size = best.size ∧
      listed.find? (fun b => b.size == best.size) = some explicitBest ∧
      (∀ stops, bestSoFar stops need none (bs.filter Block.isFree) = some best ∧
        bestSoFar stops need none listed = some explicitBest) ∧
      ((h.withPolicy .explicitFirstFit).search need).outcome =
        .ok (some explicitFirst.start, h.withPolicy .explicitFirstFit) ∧
      listed.find? (Block.holds need) = some explicitFirst ∧
      SizeClass.ofSize explicitFirst.size = SizeClass.ofSize best.size ∧
      (SizeClass.ofSize best.size ≠ .last → explicitFirst.size < 2 * best.size) := by
  obtain ⟨bs, f, ht⟩ := hr.tracked
  have hh := ht.holds
  rw [hh.blocks_eq] at hfits
  obtain ⟨best, hbest⟩ := hh.exists_choose .bestFit (by decide) hfits
  obtain ⟨explicitBest, hexplicit⟩ := hh.exists_choose .explicitBestFit (by decide) hfits
  obtain ⟨explicitFirst, hfirst⟩ := hh.exists_choose .explicitFirstFit (by decide) hfits
  have hsearch := hh.search_withPolicy .bestFit (by decide) need
  have hsearchBest := hh.search_withPolicy .explicitBestFit (by decide) need
  have hsearchFirst := hh.search_withPolicy .explicitFirstFit (by decide) need
  rw [hbest] at hsearch
  rw [hexplicit] at hsearchBest
  rw [hfirst] at hsearchFirst
  have hleast : best.BestFor need bs := Block.bestFor_of_smallest? hh.sorted hbest
  have hsame := hh.size_eq_of_bestFor hleast hexplicit
  have hfind := find?_of_smallest? hexplicit
  rw [hsame] at hfind
  have hfound : (f.blocksOf bs SizeClass.all).find? (Block.holds need) = some explicitFirst := by
    rw [← List.head?_filter]
    exact hfirst
  have hclass := hh.class_eq_of_bestFor hleast hfound
  refine ⟨bs, _, best, explicitBest, explicitFirst, hh.blocks_eq, hh.listedBlocks,
    hh.map_start_listed, fun b => hh.mem_listed_iff, hsearch, hleast, hsearchBest, hsame, hfind,
    fun stops => ?_, hsearchFirst, hfound, hclass, fun hlast => ?_⟩
  · have hnone : stops = true → ∀ c ∈ (none : Option Block), need < c.size :=
      fun _ c hc => by cases hc
    rw [bestSoFar_eq hnone, bestSoFar_eq hnone]
    exact ⟨hbest, hexplicit⟩
  · have hlarge := (hh.divided.proper hleast.mem).le_size
    exact SizeClass.lt_double_of_ofSize_eq hclass (by omega) hlast

/-- Of three free blocks with room for 80 bytes, two are of exactly that size. By address the lower
one of them is the best, bucket by bucket it is the upper one, which was filed later, and the
explicit first fit takes the larger block that was filed last. -/
theorem LegalRun.best_fit_optimal_of_roomy : ∃ (held : Ledger) (h : Heap),
    LegalRun held h ∧ (∃ b ∈ h.blocks.items, b.isFree = true ∧ 80 ≤ b.size) ∧
    ((h.withPolicy .bestFit).search 80).outcome = .ok (some 176, h.withPolicy .bestFit) ∧
    ((h.withPolicy .explicitBestFit).search 80).outcome =
      .ok (some 352, h.withPolicy .explicitBestFit) ∧
    ((h.withPolicy .explicitFirstFit).search 80).outcome =
      .ok (some 16, h.withPolicy .explicitFirstFit) := by
  obtain ⟨held, h, hr, hitems, hlisted, -⟩ := LegalRun.exists_roomy
  have hfits : ∃ b ∈ h.blocks.items, b.isFree = true ∧ 80 ≤ b.size := by
    rw [hitems]
    decide
  obtain ⟨bs, listed, best, explicitBest, explicitFirst, hblocks, hlist, -, -, hsearch, -,
    hsearchBest, -, -, hall, hsearchFirst, hfirst, -⟩ := LegalRun.best_fit_optimal hr hfits
  rw [hblocks] at hitems
  rw [hlist] at hlisted
  obtain rfl : bs = _ := hitems
  obtain rfl : listed = _ := hlisted
  obtain ⟨hbest, hexplicit⟩ := hall true
  cases hbest
  cases hexplicit
  cases hfirst
  exact ⟨held, h, hr, hfits, hsearch, hsearchBest, hsearchFirst⟩

end SegregatedFit
