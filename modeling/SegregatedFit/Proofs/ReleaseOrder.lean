import Mathlib.Data.List.Sort
import SegregatedFit.Proofs.Guarantees

/-!
# The order of releases does not matter

Blocks that are given back are merged with all free blocks beside them. So the free blocks are
always as large as the blocks in use let them be, and how they came about cannot be seen: a
division without two free neighbours is determined by its blocks in use. The rover follows the
block that it is in, whatever that block is merged into.
-/

namespace SegregatedFit

namespace Arena.Tiled

variable {a a' : Arena} {start stop : Nat} {b c : Block} {bs cs : List Block}

/-- Behind a free block at the front all blocks in use start later. -/
theorem lt_of_free (h : a.Tiled start (b :: bs) stop) (hfree : b.isFree = true)
    (hc : c ∈ Block.inUse (b :: bs)) : start < c.start := by
  rw [Block.inUse_cons_of_free hfree] at hc
  obtain ⟨⟨-, hproper, -⟩, hrest⟩ := h
  have hsize := hproper.le_size
  have hbounds := hrest.bounds (Block.mem_inUse_iff.mp hc).1
  omega

/-- A free block at the front reaches up to the first block in use, or to the end. -/
theorem free_end (h : a.Tiled start (b :: bs) stop) (hspaced : Block.Spaced (b :: bs))
    (hfree : b.isFree = true) :
    start + b.size = ((Block.inUse bs).head?.map Block.start).getD stop := by
  obtain ⟨-, hrest⟩ := h
  cases bs with
  | nil => exact hrest
  | cons d rest =>
    have hused : d.isFree = false := (Block.spaced_cons.mp hspaced).1 d rfl hfree
    rw [Block.inUse_cons_of_used hused]
    exact hrest.1.1.symm

/-- Two divisions of one stretch without free neighbours are the same when their blocks in use
are. -/
theorem eq_of_inUse (h : a.Tiled start bs stop) (h' : a'.Tiled start cs stop)
    (hbs : Block.Spaced bs) (hcs : Block.Spaced cs) (huse : Block.inUse bs = Block.inUse cs) :
    bs = cs := by
  induction bs generalizing start cs with
  | nil =>
    cases cs with
    | nil => rfl
    | cons c rest =>
      have hstop : start = stop := h
      have hsize := h'.1.2.1.le_size
      have hbounds := h'.bounds List.mem_cons_self
      omega
  | cons b rest ih =>
    cases cs with
    | nil =>
      have hstop : start = stop := h'
      have hsize := h.1.2.1.le_size
      have hbounds := h.bounds List.mem_cons_self
      omega
    | cons c others =>
      have hbstart : b.start = start := h.1.1
      have hcstart : c.start = start := h'.1.1
      -- Both first blocks are in use or both are free, as a block in use behind a free one starts
      -- later than the one that it would have to be. Free ones end where the next use begins.
      have hsame : b = c ∧ Block.inUse rest = Block.inUse others := by
        cases hb : b.isFree with
        | false =>
          rw [Block.inUse_cons_of_used hb] at huse
          cases hc : c.isFree with
          | false =>
            rw [Block.inUse_cons_of_used hc] at huse
            exact List.cons.inj huse
          | true =>
            have hlater := h'.lt_of_free hc (huse ▸ List.mem_cons_self)
            omega
        | true =>
          cases hc : c.isFree with
          | false =>
            rw [Block.inUse_cons_of_used hc] at huse
            have hlater := h.lt_of_free hb (huse ▸ List.mem_cons_self)
            omega
          | true =>
            rw [Block.inUse_cons_of_free hb, Block.inUse_cons_of_free hc] at huse
            have hbend := h.free_end hbs hb
            have hcend := h'.free_end hcs hc
            rw [huse] at hbend
            have hsize : b.size = c.size := by omega
            refine ⟨?_, huse⟩
            rw [Block.eq_of_isFree hb, Block.eq_of_isFree hc, hbstart, hcstart, hsize]
      obtain ⟨rfl, hrest⟩ := hsame
      rw [ih h.2 h'.2 (Block.spaced_cons.mp hbs).2 (Block.spaced_cons.mp hcs).2 hrest]

/-- The blocks in use are listed by where they start, so they are determined by which they are. -/
theorem inUse_eq_of_mem_iff (h : a.Tiled start bs stop) (h' : a'.Tiled start cs stop)
    (hmem : ∀ b, b ∈ Block.inUse bs ↔ b ∈ Block.inUse cs) : Block.inUse bs = Block.inUse cs := by
  have hsorted {a : Arena} {ds : List Block} (ht : a.Tiled start ds stop) :
      (Block.inUse ds).Pairwise fun b c => b.start < c.start := by
    apply List.Pairwise.filter
    apply ht.pairwise.imp_of_mem
    intro b c hb _ hle
    have hsize := (ht.proper hb).le_size
    omega
  have : Std.Irrefl fun b c : Block => b.start < c.start := ⟨fun b => Nat.lt_irrefl b.start⟩
  have : Std.Antisymm fun b c : Block => b.start < c.start :=
    ⟨fun b c hlt hgt => absurd hgt (Nat.lt_asymm hlt)⟩
  exact List.Pairwise.eq_of_mem_iff (hsorted h) (hsorted h') hmem

/-- Where an offset is at home does not change when blocks are merged first. -/
theorem home_home (h : a.Tiled start bs stop) (h' : a'.Tiled start cs stop)
    (hcovered : ∀ b ∈ bs, ∃ c ∈ cs, c.Covers b) (x : Nat) :
    Block.home cs (Block.home bs x) = Block.home cs x := by
  by_cases hx : ∃ b ∈ bs, b.start ≤ x ∧ x < b.start + b.size
  · obtain ⟨b, hb, hlow, hhigh⟩ := hx
    obtain ⟨c, hc, hcover⟩ := hcovered b hb
    obtain ⟨hclow, hchigh⟩ := hcover
    rw [h.home_eq hb hlow hhigh, h'.home_eq hc hclow (by omega),
      h'.home_eq hc (by omega) (by omega)]
  · rw [Block.home_eq_self fun b hb hin => hx ⟨b, hb, hin⟩]

end Arena.Tiled

/-- The bucket that an offset is listed in. -/
theorem Buckets.Files.bucket_eq_some_iff {s : Buckets} {f : Filing} (h : s.Files f) {x i : Nat} :
    (s.linksOf x).map Links.bucket = some i ↔ ∃ c : SizeClass, c.val = i ∧ x ∈ f c := by
  constructor
  · intro hbucket
    obtain ⟨l, hl, rfl⟩ := Option.map_eq_some_iff.mp hbucket
    obtain ⟨c, hx⟩ := h.linksOf_isSome_iff.mp (Option.isSome_iff_exists.mpr ⟨l, hl⟩)
    obtain ⟨lower, upper, hlist⟩ := List.append_of_mem hx
    rw [h.linksOf_eq hlist] at hl
    cases hl
    exact ⟨c, rfl, hx⟩
  · rintro ⟨c, rfl, hx⟩
    obtain ⟨lower, upper, hlist⟩ := List.append_of_mem hx
    rw [h.linksOf_eq hlist]
    rfl

/-- Two heaps that differ at most in bytes and in the order of their buckets: they have the same
blocks, the same bytes granted, the same blocks in each bucket, and the same rover. -/
structure Heap.Agrees (h₁ h₂ : Heap) : Prop where
  blocks_eq : h₁.blocks = h₂.blocks
  size_eq : h₁.arena.size = h₂.arena.size
  granted_eq : h₁.arena.granted = h₂.arena.granted
  listed_iff : ∀ c x, x ∈ (h₁.buckets.walk c).items ↔ x ∈ (h₂.buckets.walk c).items
  bucket_eq : ∀ x, (h₁.buckets.linksOf x).map Links.bucket =
    (h₂.buckets.linksOf x).map Links.bucket
  length_eq : ∀ c, h₁.buckets.length c = h₂.buckets.length c
  rover_eq : h₁.rover = h₂.rover

/-- The calls that give back some pointers in order. -/
def Call.releases (ps : List Nat) : List Call := ps.map fun p => .release (some p)

namespace Heap

variable {h h₁ h₂ : Heap} {bs bs₁ bs₂ : List Block} {f f₁ f₂ : Filing} {ps qs : List Nat}

/-- The blocks that start at some pointers are no longer in use, and all others are. -/
structure Frees (h : Heap) (bs : List Block) (ps : List Nat) (h₁ : Heap) (bs₁ : List Block)
    (f₁ : Filing) : Prop where
  holds : h₁.Holds bs₁ f₁
  mem_iff : ∀ c, c ∈ Block.inUse bs₁ ↔ c ∈ Block.inUse bs ∧ c.start ∉ ps
  prologue_eq : h₁.prologue = h.prologue
  size_eq : h₁.arena.size = h.arena.size
  covered : ∀ b ∈ bs, ∃ c ∈ bs₁, c.Covers b
  rover_eq : h₁.rover = Block.home bs₁ h.rover

/-- Giving back one block, and then others. -/
theorem Loses.frees {u : Block} {f₂ : Filing} (hl : h.Loses bs h₁ bs₁ f₁ u) (hh : h.Holds bs f)
    (hu : u ∈ Block.inUse bs) (hf : h₁.Frees bs₁ ps h₂ bs₂ f₂) :
    h.Frees bs (u.start :: ps) h₂ bs₂ f₂ where
  holds := hf.holds
  mem_iff c := by
    rw [hf.mem_iff, hl.mem_iff, List.mem_cons, not_or]
    constructor
    · rintro ⟨⟨hne, hc⟩, hrest⟩
      exact ⟨hc, fun hstart => hne (hh.eq_of_start_eq hc hu hstart), hrest⟩
    · rintro ⟨hc, hstart, hrest⟩
      exact ⟨⟨fun heq => hstart (heq ▸ rfl), hc⟩, hrest⟩
  prologue_eq := hf.prologue_eq.trans hl.alike.prologue_eq
  size_eq := hf.size_eq.trans hl.size_eq
  covered b hb := by
    obtain ⟨c, hc, hcb⟩ := hl.covered b hb
    obtain ⟨d, hd, hdc⟩ := hf.covered c hc
    exact ⟨d, hd, hdc.trans hcb⟩
  rover_eq := by
    have hfirst : h₂.first = h₁.first := congrArg (· + wordBytes) hf.prologue_eq
    have htiled := hf.holds.divided.tiled
    rw [hfirst, hf.size_eq] at htiled
    rw [hf.rover_eq, hl.rover_eq]
    exact hl.holds.divided.tiled.home_home htiled hf.covered h.rover

/-- Blocks in use can be given back in any order. -/
theorem Holds.performAll_releases (hh : h.Holds bs f) (hnodup : ps.Nodup)
    (hlive : ∀ p ∈ ps, ∃ u ∈ Block.inUse bs, u.start = p) :
    ∃ h₁ bs₁ f₁, (h.performAll (Call.releases ps)).outcome =
        .ok (ps.map fun _ => .done (.ok ()), h₁) ∧ h.Frees bs ps h₁ bs₁ f₁ := by
  -- the pointers that remain stay live, because only the block of the first one is given back
  induction ps generalizing h bs f with
  | nil =>
    refine ⟨h, bs, f, rfl, hh, fun c => ?_, rfl, rfl, fun b hb => ⟨b, hb, Block.Covers.refl b⟩,
      hh.home_rover.symm⟩
    simp
  | cons p rest ih =>
    obtain ⟨hp, hrest⟩ := List.nodup_cons.mp hnodup
    obtain ⟨u, hu, rfl⟩ := hlive p List.mem_cons_self
    obtain ⟨h₁, bs₁, f₁, hrun, hl⟩ := hh.release hu
    have hlive₁ : ∀ q ∈ rest, ∃ v ∈ Block.inUse bs₁, v.start = q := by
      intro q hq
      obtain ⟨v, hv, rfl⟩ := hlive q (List.mem_cons_of_mem _ hq)
      refine ⟨v, (hl.mem_iff v).mpr ⟨?_, hv⟩, rfl⟩
      rintro rfl
      exact hp hq
    obtain ⟨h₂, bs₂, f₂, hruns, hf⟩ := ih hl.holds hrest hlive₁
    refine ⟨h₂, bs₂, f₂, ?_, hl.frees hh hu hf⟩
    rw [Call.releases] at hruns
    simp only [Call.releases, List.map_cons, performAll, Heap.perform, Run.outcome_bind, hrun,
      hruns, Run.outcome_pure, Fault.ok_bind]

/-- After the same blocks were given back, the blocks are the same. -/
theorem Frees.blocks_eq (hf₁ : h.Frees bs ps h₁ bs₁ f₁) (hf₂ : h.Frees bs qs h₂ bs₂ f₂)
    (hsame : ∀ p, p ∈ ps ↔ p ∈ qs) : bs₁ = bs₂ := by
  have htiled₁ := hf₁.holds.divided.tiled
  have htiled₂ := hf₂.holds.divided.tiled
  have hfirst₁ : h₁.first = h.first := congrArg (· + wordBytes) hf₁.prologue_eq
  have hfirst₂ : h₂.first = h.first := congrArg (· + wordBytes) hf₂.prologue_eq
  rw [hfirst₁, hf₁.size_eq] at htiled₁
  rw [hfirst₂, hf₂.size_eq] at htiled₂
  apply htiled₁.eq_of_inUse htiled₂ hf₁.holds.spaced hf₂.holds.spaced
  apply htiled₁.inUse_eq_of_mem_iff htiled₂
  intro b
  rw [hf₁.mem_iff, hf₂.mem_iff, hsame]

/-- Filings of the same blocks list the same blocks. -/
theorem Holds.mem_filing_iff (hh₁ : h₁.Holds bs f₁) (hh₂ : h₂.Holds bs f₂) (c : SizeClass)
    (x : Nat) : x ∈ f₁ c ↔ x ∈ f₂ c := by
  rw [hh₁.filed c x, hh₂.filed c x]

/-- Heaps in good order with the same blocks, bounds and rover agree. -/
theorem Holds.agrees (hh₁ : h₁.Holds bs f₁) (hh₂ : h₂.Holds bs f₂)
    (hprologue : h₁.prologue = h₂.prologue) (hsize : h₁.arena.size = h₂.arena.size)
    (hrover : h₁.rover = h₂.rover) : h₁.Agrees h₂ := by
  have hmem := hh₁.mem_filing_iff hh₂
  refine ⟨hh₁.blocks_eq.trans hh₂.blocks_eq.symm, hsize, ?_, fun c x => ?_, fun x => ?_,
    fun c => ?_, hrover⟩
  · have hgranted₁ := hh₁.divided.granted_eq
    have hgranted₂ := hh₂.divided.granted_eq
    have hfirst : h₁.first = h₂.first := congrArg (· + wordBytes) hprologue
    omega
  · rw [hh₁.files.walk_eq, hh₂.files.walk_eq]
    exact hmem c x
  · apply Option.ext
    intro i
    rw [hh₁.files.bucket_eq_some_iff, hh₂.files.bucket_eq_some_iff]
    simp only [hmem]
  · rw [hh₁.files.length_eq, hh₂.files.length_eq]
    apply List.Perm.length_eq
    exact (List.perm_ext_iff_of_nodup (hh₁.files.nodup c) (hh₂.files.nodup c)).mpr (hmem c)

/-- After the same blocks were given back, the heaps agree. -/
theorem Frees.agrees (hf₁ : h.Frees bs ps h₁ bs₁ f₁) (hf₂ : h.Frees bs qs h₂ bs₂ f₂)
    (hsame : ∀ p, p ∈ ps ↔ p ∈ qs) : h₁.Agrees h₂ := by
  obtain rfl := hf₁.blocks_eq hf₂ hsame
  exact hf₁.holds.agrees hf₂.holds (hf₁.prologue_eq.trans hf₂.prologue_eq.symm)
    (hf₁.size_eq.trans hf₂.size_eq.symm) (hf₁.rover_eq.trans hf₂.rover_eq.symm)

/-- Without blocks in use there is a single free block. -/
theorem Holds.eq_singleton (hh : h.Holds bs f) (hne : bs ≠ []) (huse : Block.inUse bs = []) :
    bs = [⟨h.first, .free (h.arena.size - h.first)⟩] := by
  have hfree (b : Block) (hb : b ∈ bs) : b.isFree = true := by
    by_contra hused
    have hmem := Block.mem_inUse_iff.mpr ⟨hb, Bool.eq_false_iff.mpr hused⟩
    rw [huse] at hmem
    cases hmem
  have hspaced := hh.spaced
  have htiled := hh.divided.tiled
  cases bs with
  | nil => exact absurd rfl hne
  | cons b rest =>
    have hb := hfree b List.mem_cons_self
    cases rest with
    | nil =>
      obtain ⟨⟨hstart, -, -⟩, hend⟩ := htiled
      have hend : h.first + b.size = h.arena.size := hend
      rw [Block.eq_of_isFree hb, hstart, ← hend, Nat.add_sub_cancel_left]
    | cons c rest =>
      have hused := (Block.spaced_cons.mp hspaced).1 c rfl hb
      rw [hfree c (by simp)] at hused
      cases hused

/-- A single free block is alone in the bucket of its class. -/
theorem Holds.bucket_singleton {size x : Nat} (hh : h.Holds [⟨x, .free size⟩] f) :
    f (SizeClass.ofSize size) = [x] := by
  apply List.perm_singleton.mp
  apply (List.perm_ext_iff_of_nodup (hh.files.nodup _) (List.nodup_singleton x)).mpr
  intro z
  rw [hh.filed, List.mem_singleton]
  constructor
  · rintro ⟨b, hb, -, hstart, -⟩
    rw [List.mem_singleton.mp hb] at hstart
    exact hstart.symm
  · rintro rfl
    exact ⟨_, List.mem_singleton.mpr rfl, rfl, rfl, rfl⟩

/-- All buckets but that of a single free block are empty. -/
theorem Holds.bucket_nil {size x : Nat} {c : SizeClass} (hh : h.Holds [⟨x, .free size⟩] f)
    (hne : c ≠ SizeClass.ofSize size) : f c = [] := by
  apply List.eq_nil_iff_forall_not_mem.mpr
  intro y hy
  obtain ⟨b, hb, -, -, hclass⟩ := (hh.filed c y).mp hy
  rw [List.mem_singleton.mp hb] at hclass
  exact hne hclass.symm

/-- A single free block is the only one listed, without neighbours. -/
theorem Holds.linksOf_singleton {size x y : Nat} (hh : h.Holds [⟨x, .free size⟩] f) :
    h.buckets.linksOf y =
      if y = x then some ⟨none, none, SizeClass.ofSize size⟩ else none := by
  split
  · next heq =>
    subst heq
    have hlist : f (SizeClass.ofSize size) = [] ++ y :: [] := hh.bucket_singleton
    exact hh.files.linksOf_eq hlist
  · next hne =>
    apply hh.files.unlisted
    intro c hy
    obtain ⟨b, hb, -, hstart, -⟩ := (hh.filed c y).mp hy
    rw [List.mem_singleton.mp hb] at hstart
    exact hne hstart.symm

end Heap

variable {held : Ledger} {h : Heap}

/-- In a state of a legal run, live pointers can be given back in any order, and the heaps that
come of it agree. When nothing is live any more, all blocks have become one, and this is the only
one listed. -/
theorem LegalRun.release_order (hr : LegalRun held h) {ps qs : List Nat} (hnodup : ps.Nodup)
    (hlive : ∀ p ∈ ps, held p ≠ none) (hperm : ps.Perm qs) :
    ∃ h₁ h₂, (h.performAll (Call.releases ps)).outcome =
        .ok (ps.map fun _ => .done (.ok ()), h₁) ∧
      (h.performAll (Call.releases qs)).outcome = .ok (qs.map fun _ => .done (.ok ()), h₂) ∧
      h₁.Agrees h₂ ∧
      ((∀ p, held p ≠ none → p ∈ ps) →
        h₁.blocks = ⟨[⟨16, .free (h₁.arena.granted - 16)⟩], none⟩ ∧
        ∀ x, h₁.buckets.linksOf x =
          if x = 16 then some ⟨none, none, SizeClass.ofSize (h₁.arena.granted - 16)⟩
          else none) := by
  obtain ⟨bs, f, ht⟩ := hr.tracked
  have huse (p : Nat) (hp : p ∈ ps) : ∃ u ∈ Block.inUse bs, u.start = p :=
    List.mem_map.mp (ht.live_iff_mem.mp (hlive p hp))
  obtain ⟨h₁, bs₁, f₁, hrun₁, hf₁⟩ := ht.holds.performAll_releases hnodup huse
  obtain ⟨h₂, bs₂, f₂, hrun₂, hf₂⟩ := ht.holds.performAll_releases (hperm.nodup_iff.mp hnodup)
    fun q hq => huse q (hperm.mem_iff.mpr hq)
  refine ⟨h₁, h₂, hrun₁, hrun₂, hf₁.agrees hf₂ fun p => hperm.mem_iff, fun hall => ?_⟩
  have hnone : Block.inUse bs₁ = [] := by
    rw [List.eq_nil_iff_forall_not_mem]
    intro c hc
    obtain ⟨hmem, hkept⟩ := (hf₁.mem_iff c).mp hc
    apply hkept
    exact hall _ (ht.live_iff_mem.mpr (List.mem_map_of_mem hmem))
  have hne : bs₁ ≠ [] := by
    obtain ⟨b, hb⟩ := List.exists_mem_of_ne_nil bs ht.ne_nil
    obtain ⟨c, hc, -⟩ := hf₁.covered b hb
    exact List.ne_nil_of_mem hc
  have hsingle := hf₁.holds.eq_singleton hne hnone
  have hfirst : h₁.first = 16 := congrArg (· + 8) (hf₁.prologue_eq.trans ht.prologue_eq)
  have hgranted := hf₁.holds.divided.granted_eq
  have hsize : h₁.arena.size = h₁.arena.granted := by omega
  rw [hfirst, hsize] at hsingle
  have hh := hf₁.holds
  rw [hsingle] at hh
  exact ⟨hh.blocks_eq, fun x => hh.linksOf_singleton⟩

/-- Two live pointers, released in both orders: the heaps agree, and are one free block. -/
theorem LegalRun.release_order_of_two : ∃ held h h₁ h₂, LegalRun held h ∧
    (∀ p, held p ≠ none ↔ p ∈ [16, 64]) ∧ [16, 64].Nodup ∧ [16, 64].Perm [64, 16] ∧
    (h.performAll (Call.releases [16, 64])).outcome =
      .ok ([.done (.ok ()), .done (.ok ())], h₁) ∧
    (h.performAll (Call.releases [64, 16])).outcome =
      .ok ([.done (.ok ()), .done (.ok ())], h₂) ∧
    h₁.Agrees h₂ ∧ h₁.blocks = ⟨[⟨16, .free (h₁.arena.granted - 16)⟩], none⟩ := by
  let memory : Memory := .growable ⟨ByteArray.empty, 4096, by decide, by decide⟩
  let config : Config := { chunk := 192 }
  have heval : ((Heap.setup memory config).outcome.toOption.any fun answer =>
      answer.toOption.any fun new =>
        (new.perform (.allocate 30)).outcome.toOption.any fun one =>
          (one.2.perform (.allocate 30)).outcome.toOption.any fun two =>
            decide ((Block.inUse two.2.blocks.items).map Block.start = [16, 64])) = true := by
    decide +kernel
  obtain ⟨_, hsetup, hanswer⟩ := Fault.ok_of_any heval
  obtain ⟨new, rfl, hnew⟩ := Fault.ok_of_any hanswer
  obtain ⟨one, hfirst, hone⟩ := Fault.ok_of_any hnew
  obtain ⟨two, hsecond, htwo⟩ := Fault.ok_of_any hone
  have hstarts := of_decide_eq_true htwo
  have hrun : LegalRun _ two.2 :=
    ((LegalRun.start rfl hsetup).allocate hfirst).allocate hsecond
  obtain ⟨bs, f, ht⟩ := hrun.tracked
  rw [ht.holds.blocks_eq] at hstarts
  have hlive := @ht.live_iff_mem
  rw [hstarts] at hlive
  have hnodup : [16, 64].Nodup := by decide
  have hperm : [16, 64].Perm [64, 16] := by decide
  obtain ⟨h₁, h₂, hruns₁, hruns₂, hagrees, hall⟩ :=
    LegalRun.release_order hrun hnodup (fun p => hlive.mpr) hperm
  obtain ⟨hblocks, -⟩ := hall fun p => hlive.mp
  exact ⟨_, two.2, h₁, h₂, hrun, fun p => hlive, hnodup, hperm, hruns₁, hruns₂, hagrees, hblocks⟩

end SegregatedFit
