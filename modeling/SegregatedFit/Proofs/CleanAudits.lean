import Mathlib.Data.List.Perm.Subperm
import SegregatedFit.Proofs.AddressWalks
import SegregatedFit.Proofs.Auditing
import SegregatedFit.Heap.Call

/-!
# What a clean audit proves

An audit of any heap at all may find nothing, also after bytes, links and the rover were
changed by hand. Its scan then has met the blocks, all walks have come to their ends, and no
offset was met twice. It does not notice offsets without links, offsets between two blocks, and
free blocks that have links but lie behind no head, so whether the buckets hold exactly the
free blocks depends on these three.
-/

namespace SegregatedFit

namespace Arena

variable {a : Arena} {start : Nat} {scan : Scan}

/-- A scan that comes to a header of size zero has seen the blocks of the walk. -/
theorem blocksFrom_of_scan {stop : Nat} {allocated : Bool} (hstart : 8 ≤ start)
    (hscan : a.scanFrom start = .ok scan) (hend : scan.ending = .terminal stop allocated) :
    a.blocksFrom start = ⟨scan.blocks.map Scanned.toBlock, none⟩ := by
  refine scanFrom_induction (P := fun start scan => scan.ending = .terminal stop allocated →
    a.blocksFrom start = ⟨scan.blocks.map Scanned.toBlock, none⟩) ?_ ?_ hstart hscan hend
  · intro start e hlow hstop hend
    subst hend
    exact blocksFrom_of_zero ((scanStep_eq_terminal_iff hlow).mp hstop).2 rfl
  · intro start rest hlow hlarge hinside hrest hend
    have hsize : (a.scannedAt start).tag.size = (a.scannedAt start).size := rfl
    have hheader := header_scannedAt hlow (show start ≤ a.size by omega)
    rw [blocksFrom_of_pos hheader (by omega) (by omega), hsize, hrest hend]
    rfl

end Arena

namespace Buckets

variable {s : Buckets} {c : SizeClass}

/-- The offsets that the walks of the buckets meet. -/
def met (s : Buckets) : Filing := fun c => (s.walk c).items

/-- Behind an offset a walk goes on where its links lead. -/
theorem follow_tail {links : LinkTable} {steps x : Nat} {first : Option Nat} {rest : List Nat}
    (h : (follow links steps first).items = x :: rest) :
    ∃ n, (follow links n ((links[x]?).bind fun l => l.next)).items = rest := by
  cases first with
  | none => cases steps <;> cases h
  | some y =>
    cases steps with
    | zero => cases h
    | succ n =>
      cases h
      exact ⟨n, rfl⟩

/-- A walk that does not end has taken all its steps, each at an offset with links. -/
theorem follow_endless {links : LinkTable} {steps : Nat} {first : Option Nat}
    (h : (follow links steps first).ending ≠ none) :
    (follow links steps first).items.length = steps ∧
      ∀ x ∈ (follow links steps first).items, x ∈ links := by
  induction steps generalizing first with
  | zero =>
    cases first with
    | none => exact absurd rfl h
    | some x => exact ⟨rfl, fun y hy => absurd hy List.not_mem_nil⟩
  | succ n ih =>
    cases first with
    | none => exact absurd rfl h
    | some x =>
      obtain ⟨hlength, hlisted⟩ := ih h
      refine ⟨congrArg Nat.succ hlength, ?_⟩
      intro y hy
      rcases List.mem_cons.mp hy with rfl | hrest
      · -- an offset without links would have ended the walk
        rw [Std.TreeMap.mem_iff_isSome_getElem?]
        cases hlinks : links[y]? with
        | none =>
          rw [follow, hlinks, Option.bind_none, follow] at h
          exact absurd rfl h
        | some l => rfl
      · exact hlisted y hrest

/-- A walk that meets no offset twice comes to its end. -/
theorem walk_ending_of_nodup (hnodup : (s.met c).Nodup) : (s.walk c).ending = none := by
  by_contra hendless
  obtain ⟨hlength, hlisted⟩ := follow_endless hendless
  have hsub : s.met c ⊆ s.links.keys := fun x hx => Std.TreeMap.mem_keys.mpr (hlisted x hx)
  have hle : (s.met c).length ≤ s.size :=
    (List.Nodup.length_le_of_subset hnodup hsub).trans_eq Std.TreeMap.length_keys
  have hlength : (s.met c).length = s.size + 1 := hlength
  omega

end Buckets

namespace Heap

variable {h : Heap} {free : List Scanned} {c : SizeClass} {x : Nat} {l : Links}

/-- The walk of a bucket in which an audit finds nothing meets new offsets only, each once, and
those with links are filed as they should be. -/
theorem bucketViolations_eq_nil {steps : Nat} {first before : Option Nat}
    {seen seen' items : List Nat}
    (hwalk : (Buckets.follow h.buckets.links steps first).items = items)
    (hnone : h.bucketViolations free c before seen items = ([], seen')) :
    seen' = items.reverse ++ seen ∧ items.Nodup ∧ ∀ x ∈ items, x ∉ seen ∧
      ∀ l, h.buckets.linksOf x = some l → h.filingViolations free c x l = [] := by
  induction items generalizing steps first before seen with
  | nil =>
    cases hnone
    exact ⟨rfl, List.nodup_nil, fun x hx => absurd hx List.not_mem_nil⟩
  | cons y rest ih =>
    obtain ⟨n, hrest⟩ := Buckets.follow_tail hwalk
    change (Buckets.follow _ n ((h.buckets.linksOf y).bind fun l => l.next)).items = rest at hrest
    rw [bucketViolations] at hnone
    split at hnone
    · cases hnone
    next hnew =>
    have hnew : y ∉ seen := by simpa using hnew
    split at hnone
    · -- an offset without links is the last one of its walk
      next hlinks =>
      rw [hlinks, Option.bind_none, Buckets.follow] at hrest
      subst hrest
      cases hnone
      refine ⟨rfl, List.nodup_singleton y, ?_⟩
      intro x hx
      rw [List.mem_singleton.mp hx]
      refine ⟨hnew, ?_⟩
      intro l hl
      rw [hlinks] at hl
      cases hl
    · next l hlinks =>
      obtain ⟨hfound, hseen⟩ := Prod.mk.inj hnone
      obtain ⟨hhere, hlater⟩ := List.append_eq_nil_iff.mp hfound
      obtain ⟨hseen', hnodup, hthere⟩ := ih hrest (Prod.ext hlater hseen)
      refine ⟨?_, ?_, ?_⟩
      · rw [hseen', List.reverse_cons, List.append_assoc, List.singleton_append]
      · exact List.nodup_cons.mpr ⟨fun hy => (hthere y hy).1 List.mem_cons_self, hnodup⟩
      · intro x hx
        rcases List.mem_cons.mp hx with rfl | hx
        · refine ⟨hnew, ?_⟩
          intro l' hl
          rw [hlinks] at hl
          cases hl
          exact (List.append_eq_nil_iff.mp hhere).2
        · obtain ⟨hunseen, hfiled⟩ := hthere x hx
          exact ⟨fun hx => hunseen (List.mem_cons_of_mem _ hx), hfiled⟩

/-- Audited buckets in which nothing is found meet each offset once, and those with links are
filed as they should be. -/
theorem filedViolations_eq_nil {seen : List Nat} {cs : List SizeClass}
    (hnone : h.filedViolations free seen cs = []) :
    (cs.flatMap h.buckets.met).Nodup ∧ ∀ c ∈ cs, ∀ x ∈ h.buckets.met c, x ∉ seen ∧
      ∀ l, h.buckets.linksOf x = some l → h.filingViolations free c x l = [] := by
  induction cs generalizing seen with
  | nil => exact ⟨List.nodup_nil, fun c hc => absurd hc List.not_mem_nil⟩
  | cons c rest ih =>
    rcases hbucket : h.bucketViolations free c none seen (h.buckets.met c) with ⟨found, seen'⟩
    have hfound : found ++ h.filedViolations free seen' rest = [] := by
      have hmet : (h.buckets.walk c).items = h.buckets.met c := rfl
      rw [← hnone, filedViolations, hmet, hbucket]
    obtain ⟨rfl, hlater⟩ := List.append_eq_nil_iff.mp hfound
    obtain ⟨rfl, hnodup, hhere⟩ := bucketViolations_eq_nil rfl hbucket
    obtain ⟨hrest, hthere⟩ := ih hlater
    have hapart : ∀ d ∈ rest, ∀ x ∈ h.buckets.met d, x ∉ h.buckets.met c ∧ x ∉ seen :=
      fun d hd x hx => not_or.mp fun hor => (hthere d hd x hx).1 <| List.mem_append.mpr <|
        hor.imp_left List.mem_reverse.mpr
    constructor
    · refine List.nodup_append'.mpr ⟨hnodup, hrest, ?_⟩
      intro x hx hx'
      obtain ⟨d, hd, hx'⟩ := List.mem_flatMap.mp hx'
      exact (hapart d hd x hx').1 hx
    · intro d hd x hx
      rcases List.mem_cons.mp hd with rfl | hd
      · exact hhere x hx
      · exact ⟨(hapart d hd x hx).2, (hthere d hd x hx).2⟩

/-- A listed offset without a violation starts a free block of that class, or no free block and
does not look allocated. -/
theorem filingViolations_eq_nil (hnone : h.filingViolations free c x l = []) :
    (∃ s ∈ free, s.start = x ∧ SizeClass.ofSize s.size = c) ∨
      (∀ s ∈ free, s.start ≠ x) ∧ h.looksAllocated x = false := by
  unfold filingViolations at hnone
  split at hnone
  · next hfind =>
    refine Or.inr ⟨fun s hs heq => ?_, ?_⟩
    · have hother := List.find?_eq_none.mp hfind s hs
      simp [heq] at hother
    · split at hnone
      · cases hnone
      · next hlooks => simpa using hlooks
  · next s hfind =>
    left
    refine ⟨s, List.mem_of_find?_eq_some hfind, by simpa using List.find?_some hfind, ?_⟩
    split at hnone
    · next hright => exact hright.2
    · cases hnone

/-- A block in use looks allocated. -/
theorem looksAllocated_of_block {b : Block} (hheader : h.arena.header b.start = .ok b.tag)
    (hused : b.isFree = false) : h.looksAllocated b.start = true := by
  obtain ⟨hlow, hhigh, htag⟩ := Arena.header_eq_ok_iff.mp hheader
  have hlow : 8 ≤ b.start := hlow
  have hlt := h.arena.size_lt
  have hlimit : wordLimit = 18446744073709551616 := rfl
  have hbytes : wordBytes = 8 := rfl
  have hslot : (b.start + wordLimit - wordBytes) % wordLimit = b.start - 8 := by
    rw [hlimit, hbytes]
    omega
  have hword : h.arena.word? (b.start - 8) = some (h.arena.memory.wordAt (b.start - 8)) :=
    Arena.word?_eq_some_iff.mpr (Arena.word_of_le (by omega))
  have hallocated : (Tag.ofWord (h.arena.memory.wordAt (b.start - 8))).allocated = true := by
    have htag : b.tag = Tag.ofWord (h.arena.memory.wordAt (b.start - 8)) := htag
    rw [← htag]
    simpa [Block.isFree] using hused
  rw [looksAllocated, hslot, hword]
  exact hallocated

/-- An audit that finds nothing has scanned the blocks of the walk, and found nothing in them
or in the buckets. -/
theorem audit_eq_nil {verbose : Bool} (hclean : (h.audit verbose).outcome = .ok []) :
    ∃ scan : Scan, h.blocks = ⟨scan.blocks.map Scanned.toBlock, none⟩ ∧
      blockViolations h.buckets none scan.blocks = [] ∧
      h.filedViolations (scan.blocks.filter Scanned.isFree) [] SizeClass.all = [] := by
  have hprologue : 8 ≤ h.prologue := by
    rw [audit, Run.outcome_bind] at hclean
    obtain ⟨slot, hslot, -⟩ := Fault.bind_eq_ok_iff.mp hclean
    exact (Word.sub_eq_ok_iff.mp hslot).1
  obtain ⟨scan, hscan, haudit⟩ := h.audit_eq verbose hprologue
  rw [hclean] at haudit
  obtain ⟨harena, hfiled⟩ := List.append_eq_nil_iff.mp (Except.ok.inj haudit).symm
  obtain ⟨-, hblocks, hending, -, -⟩ := arenaViolations_eq_nil_iff.mp harena
  have hwalk := Arena.blocksFrom_of_scan (Nat.le_add_left 8 h.prologue) hscan hending
  exact ⟨scan, hwalk, hblocks, hfiled⟩

end Heap

/-- The walks of the buckets meet exactly the free blocks of a list: each offset that they meet
starts one of the bucket's class, and each free block is met in one bucket, once. -/
structure Buckets.ListFree (s : Buckets) (bs : List Block) : Prop where
  free_of_met : ∀ c, ∀ x ∈ s.met c,
    ∃ b ∈ bs, b.isFree = true ∧ b.start = x ∧ SizeClass.ofSize b.size = c
  met_once : ∀ b ∈ bs, b.isFree = true →
    ∃ c, (s.met c).count b.start = 1 ∧ ∀ d, d ≠ c → b.start ∉ s.met d

/-- Buckets that meet only free blocks meet only starts of free blocks. -/
theorem Buckets.met_subset {s : Buckets} {bs : List Block} (h : ∀ c, ∀ x ∈ s.met c,
    ∃ b ∈ bs, b.isFree = true ∧ b.start = x ∧ SizeClass.ofSize b.size = c) :
    s.met.listed ⊆ Block.freeStarts bs := by
  intro x hx
  obtain ⟨c, hx⟩ := Filing.mem_listed_iff.mp hx
  obtain ⟨b, hb, hfree, hstart, -⟩ := h c x hx
  exact Block.mem_freeStarts_iff.mpr ⟨b, hb, hfree, hstart⟩

namespace Heap

variable {h : Heap} {c : SizeClass} {x : Nat} {bs : List Block} {verbose : Bool}

/-- What an audit that finds nothing says about the blocks and the buckets. -/
structure Audited (h : Heap) (bs : List Block) : Prop where
  blocks_eq : h.blocks = ⟨bs, none⟩
  nodup_met : h.buckets.met.listed.Nodup
  contains_free : ∀ b ∈ bs, b.isFree = true → h.buckets.contains b.start = true
  filed : ∀ c, ∀ x ∈ h.buckets.met c, h.buckets.contains x = true → ∀ b ∈ bs, b.start = x →
    b.isFree = true ∧ SizeClass.ofSize b.size = c

private theorem audited_of_clean (hclean : (h.audit verbose).outcome = .ok []) :
    ∃ bs, h.Audited bs := by
  obtain ⟨scan, hwalk, hblocks, hfiled⟩ := audit_eq_nil hclean
  obtain ⟨hnodup, hmet⟩ := filedViolations_eq_nil hfiled
  have hheader (b : Block) (hb : b ∈ scan.blocks.map Scanned.toBlock) :
      h.arena.header b.start = .ok b.tag := by
    obtain ⟨_, hwalked, -⟩ := h.blocks_walked
    rw [hwalk] at hwalked
    exact (hwalked.mem hb).2.header
  have hscanned {b : Block} (hb : b ∈ scan.blocks.map Scanned.toBlock) (hfree : b.isFree = true) :
      ∃ s ∈ scan.blocks.filter Scanned.isFree, s.toBlock = b := by
    obtain ⟨s, hs, rfl⟩ := List.mem_map.mp hb
    exact ⟨s, List.mem_filter.mpr ⟨hs, hfree⟩, rfl⟩
  refine ⟨_, hwalk, hnodup, fun b hb hfree => ?_, fun c x hx hlisted b hb hstart => ?_⟩
  · obtain ⟨s, hs, rfl⟩ := hscanned hb hfree
    obtain ⟨hmem, hfree⟩ := List.mem_filter.mp hs
    exact ((blockViolations_eq_nil_iff.mp hblocks).1 s hmem).2 hfree
  · rw [Buckets.contains_eq_isSome] at hlisted
    obtain ⟨l, hl⟩ := Option.isSome_iff_exists.mp hlisted
    rcases filingViolations_eq_nil ((hmet c (List.mem_finRange c) x hx).2 l hl) with
      ⟨s, hs, hsame, hclass⟩ | ⟨hnone, hlooks⟩
    · obtain ⟨hmem, hfree⟩ := List.mem_filter.mp hs
      -- two blocks at one offset have the same header
      have htag := hheader s.toBlock (List.mem_map_of_mem hmem)
      have hstarts : s.toBlock.start = b.start := hsame.trans hstart.symm
      rw [hstarts, hheader b hb] at htag
      obtain ⟨start, tag⟩ := b
      cases htag
      exact ⟨hfree, hclass⟩
    · by_cases hfree : b.isFree = true
      · obtain ⟨s, hs, rfl⟩ := hscanned hb hfree
        exact absurd hstart (hnone s hs)
      · rw [← hstart, looksAllocated_of_block (hheader b hb) (by simpa using hfree)] at hlooks
        cases hlooks

namespace Audited

private theorem nodup_freeStarts (ha : h.Audited bs) : (Block.freeStarts bs).Nodup := by
  obtain ⟨_, hwalked, -⟩ := h.blocks_walked
  rw [ha.blocks_eq] at hwalked
  exact Block.nodup_freeStarts hwalked.nodup

private theorem walk_ending (ha : h.Audited bs) (c : SizeClass) :
    (h.buckets.walk c).ending = none :=
  Buckets.walk_ending_of_nodup ((List.nodup_flatMap.mp ha.nodup_met).1 c (List.mem_finRange c))

/-- An offset that is met in one bucket is met there once and in no other. -/
theorem met_once (ha : h.Audited bs) (hx : x ∈ h.buckets.met c) :
    (h.buckets.met c).count x = 1 ∧ ∀ d, d ≠ c → x ∉ h.buckets.met d := by
  obtain ⟨hnodup, hapart⟩ := List.nodup_flatMap.mp ha.nodup_met
  refine ⟨List.count_eq_one_of_mem (hnodup c (List.mem_finRange c)) hx, ?_⟩
  intro d hne hd
  have : Std.Symm (Function.onFun List.Disjoint h.buckets.met) :=
    ⟨fun _ _ hcd y hd hc => hcd hc hd⟩
  exact hapart.forall (List.mem_finRange c) (List.mem_finRange d) (Ne.symm hne) hx hd

/-- The buckets are right exactly if every offset that they meet has links and starts a block,
and there are as many of them as free blocks. -/
theorem listFree_iff (ha : h.Audited bs) :
    h.buckets.ListFree bs ↔
      (∀ x ∈ h.buckets.met.listed, h.buckets.contains x = true ∧ ∃ b ∈ bs, b.start = x) ∧
        h.buckets.met.listed.length = (bs.filter Block.isFree).length := by
  rw [← Block.length_freeStarts]
  constructor
  · intro hlist
    have hsub := Buckets.met_subset hlist.free_of_met
    have hperm : h.buckets.met.listed.Perm (Block.freeStarts bs) := by
      refine (List.perm_ext_iff_of_nodup ha.nodup_met ha.nodup_freeStarts).mpr fun x =>
        ⟨fun hx => hsub hx, fun hx => ?_⟩
      obtain ⟨b, hb, hfree, rfl⟩ := Block.mem_freeStarts_iff.mp hx
      obtain ⟨c, hcount, -⟩ := hlist.met_once b hb hfree
      exact Filing.mem_listed_iff.mpr ⟨c, List.count_pos_iff.mp (hcount ▸ Nat.one_pos)⟩
    refine ⟨fun x hx => ?_, hperm.length_eq⟩
    obtain ⟨b, hb, hfree, rfl⟩ := Block.mem_freeStarts_iff.mp (hsub hx)
    exact ⟨ha.contains_free b hb hfree, b, hb, rfl⟩
  · rintro ⟨hblocks, hcount⟩
    have hfree (c : SizeClass) (x : Nat) (hx : x ∈ h.buckets.met c) :
        ∃ b ∈ bs, b.isFree = true ∧ b.start = x ∧ SizeClass.ofSize b.size = c := by
      obtain ⟨hlisted, b, hb, hstart⟩ := hblocks x (Filing.mem_listed_iff.mpr ⟨c, hx⟩)
      obtain ⟨hfree, hclass⟩ := ha.filed c x hx hlisted b hb hstart
      exact ⟨b, hb, hfree, hstart, hclass⟩
    refine ⟨hfree, ?_⟩
    intro b hb hbfree
    -- the offsets that are met are free blocks, and as many, so they are all of them
    have hperm := (List.subperm_of_subset ha.nodup_met (Buckets.met_subset hfree)).perm_of_length_le
      (Nat.le_of_eq hcount.symm)
    have hmem := hperm.mem_iff.mpr (Block.mem_freeStarts_iff.mpr ⟨b, hb, hbfree, rfl⟩)
    obtain ⟨c, hc⟩ := Filing.mem_listed_iff.mp hmem
    exact ⟨c, ha.met_once hc⟩

end Audited

/-- What an audit that finds nothing proves, and what it does not. The walk of the blocks and the
walks of the buckets come to their ends, no offset is met twice, every free block has links, and
whatever is met with links and starts a block is a free block of that class. The buckets hold
exactly the free blocks just when, besides, every offset that is met has links and starts a
block, and there are as many of them as free blocks. -/
theorem exact_iff_of_clean (hclean : (h.audit verbose).outcome = .ok []) :
    ∃ bs, h.blocks = ⟨bs, none⟩ ∧
      (∀ c, (h.buckets.walk c).ending = none) ∧
      h.buckets.met.listed.Nodup ∧
      (∀ b ∈ bs, b.isFree = true → h.buckets.contains b.start = true) ∧
      (∀ c, ∀ x ∈ h.buckets.met c, h.buckets.contains x = true → ∀ b ∈ bs, b.start = x →
        b.isFree = true ∧ SizeClass.ofSize b.size = c) ∧
      (h.buckets.ListFree bs ↔
        (∀ x ∈ h.buckets.met.listed, h.buckets.contains x = true ∧ ∃ b ∈ bs, b.start = x) ∧
          h.buckets.met.listed.length = (bs.filter Block.isFree).length) := by
  obtain ⟨bs, ha⟩ := audited_of_clean hclean
  exact ⟨bs, ha.blocks_eq, ha.walk_ending, ha.nodup_met, ha.contains_free, ha.filed,
    ha.listFree_iff⟩

/-- A new heap is clean, and its buckets are right. -/
theorem exact_of_new : ∃ (h : Heap) (bs : List Block), (h.audit false).outcome = .ok [] ∧
    h.blocks = ⟨bs, none⟩ ∧ h.buckets.ListFree bs := by
  have heval : ((Heap.setup (.growable ⟨ByteArray.empty, 112, by decide, by decide⟩)
        { chunk := 96, ceiling := 112 }).outcome.toOption.any fun answer =>
      answer.toOption.any fun h => (h.audit false).outcome.toOption.any fun found =>
        decide (found = [] ∧
          (∀ x ∈ h.buckets.met.listed, h.buckets.contains x = true ∧
            ∃ b ∈ h.blocks.items, b.start = x) ∧
          h.buckets.met.listed.length = (h.blocks.items.filter Block.isFree).length)) = true := by
    decide +kernel
  obtain ⟨_, -, hanswer⟩ := Fault.ok_of_any heval
  obtain ⟨h, -, hnew⟩ := Fault.ok_of_any hanswer
  obtain ⟨_, hclean, hfound⟩ := Fault.ok_of_any hnew
  obtain ⟨rfl, hmet, hcount⟩ := of_decide_eq_true hfound
  obtain ⟨bs, hblocks, -, -, -, -, hiff⟩ := exact_iff_of_clean hclean
  rw [hblocks] at hmet hcount
  exact ⟨h, bs, hclean, hblocks, hiff.mpr ⟨hmet, hcount⟩⟩

/-- A block in use that is filed twice and taken out once stays at the head of its bucket
without links, and the free blocks behind it are out of reach. An audit finds nothing. -/
theorem clean_of_filed_twice :
    ∃ (new h : Heap) (reply : Reply) (l : Option Links) (s : Buckets),
      (Heap.setup (.growable ⟨ByteArray.empty, 112, by decide, by decide⟩)
        { chunk := 96, ceiling := 112 }).outcome = .ok (.ok new) ∧
      (new.perform (.allocate 30)).outcome = .ok (reply, h) ∧
      (do (← (← h.buckets.push 16 48).push 16 48).erase 16) = .ok (l, s) ∧
      ({ h with buckets := s }.audit false).outcome = .ok [] ∧
      ¬ s.ListFree h.blocks.items := by
  have heval : ((Heap.setup (.growable ⟨ByteArray.empty, 112, by decide, by decide⟩)
        { chunk := 96, ceiling := 112 }).outcome.toOption.any fun answer =>
      answer.toOption.any fun new =>
        (new.perform (.allocate 30)).outcome.toOption.any fun answered =>
          (do (← (← answered.2.buckets.push 16 48).push 16 48).erase 16 :
            Except Fault (Option Links × Buckets)).toOption.any fun erased =>
            ({ answered.2 with buckets := erased.2 }.audit false).outcome.toOption.any fun found =>
              decide (found = [] ∧ 16 ∈ erased.2.met (SizeClass.ofSize 48) ∧
                ∀ b ∈ answered.2.blocks.items, b.start = 16 → b.isFree = false)) = true := by
    decide +kernel
  obtain ⟨_, hsetup, hanswer⟩ := Fault.ok_of_any heval
  obtain ⟨new, rfl, hnew⟩ := Fault.ok_of_any hanswer
  obtain ⟨answered, hcall, hanswered⟩ := Fault.ok_of_any hnew
  obtain ⟨erased, herase, herased⟩ := Fault.ok_of_any hanswered
  obtain ⟨_, hclean, hfound⟩ := Fault.ok_of_any herased
  obtain ⟨rfl, hmet, hused⟩ := of_decide_eq_true hfound
  refine ⟨new, answered.2, answered.1, erased.1, erased.2, hsetup, hcall, herase, hclean,
    fun hlist => ?_⟩
  -- the block in use at 16 would have to be free
  obtain ⟨b, hb, hfree, hstart, -⟩ := hlist.free_of_met _ 16 hmet
  rw [hused b hb hstart] at hfree
  cases hfree

end Heap

end SegregatedFit
