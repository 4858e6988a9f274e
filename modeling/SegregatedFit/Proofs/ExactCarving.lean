import SegregatedFit.Proofs.ExactGrowth

/-!
# Carving without loss

A free block is put to use for a need of whole granules. If at least the smallest block would be
left, it is cut there and the rest is filed; otherwise at most two granules are given away with it.
So a request never gets much more than it needs, however its block was found.
-/

namespace SegregatedFit

namespace Block

variable {b : Block} {need : Nat}

/-- What is left of a block is whole granules. So it is at least the smallest block, and a block of
its own, or no more than two granules, and stays with the block. -/
theorem carve_cases (hmod : need % 16 = 0) (hsize : b.size % 16 = 0) (hfit : need ≤ b.size) :
    48 ≤ b.size - need ∧ b.taken need = ⟨b.start, .used need⟩ ∧
        b.rest? need = some ⟨b.start + need, .free (b.size - need)⟩ ∨
      b.size - need < 48 ∧ b.taken need = ⟨b.start, .used b.size⟩ ∧ b.rest? need = none ∧
        (b.size = need ∨ b.size = need + 16 ∨ b.size = need + 32) := by
  unfold taken rest?
  by_cases hrest : 40 ≤ b.size - need
  · rw [if_pos hrest, if_pos hrest]
    exact Or.inl ⟨by omega, rfl, rfl⟩
  · rw [if_neg hrest, if_neg hrest]
    exact Or.inr ⟨by omega, rfl, rfl, by omega⟩

/-- At most two granules are given away. -/
theorem size_taken (hmod : need % 16 = 0) (hsize : b.size % 16 = 0) (hfit : need ≤ b.size) :
    (b.taken need).size = need ∨ (b.taken need).size = need + 16 ∨
      (b.taken need).size = need + 32 := by
  rcases carve_cases hmod hsize hfit with ⟨-, htaken, -⟩ | ⟨-, htaken, -, hwhole⟩
  · rw [htaken]
    exact Or.inl rfl
  · rw [htaken]
    exact hwhole

end Block

namespace Heap

variable {h h' : Heap} {bs xs ys : List Block} {b : Block} {f : Filing} {need request p : Nat}

/-- `h'` is what putting a part of a free block to use makes of `h`: the part that is left over is
filed, if there is one, and nothing is written outside the block. -/
structure Cuts (h : Heap) (xs : List Block) (b : Block) (ys : List Block) (f : Filing) (need : Nat)
    (h' : Heap) : Prop where
  sound : h'.Sound (xs ++ b.taken need :: ((b.rest? need).toList ++ ys)) (f.carve b need)
  edited : h.arena.Edited h'.arena b.InSpan
  alike : h.Alike h'
  rover_eq : h'.rover = h.rover

/-- Carving succeeds wherever the block is free and large enough. -/
theorem Sound.carve (hs : h.Sound (xs ++ b :: ys) f) (hb : b.isFree = true)
    (hmod : need % 16 = 0) (hle : 48 ≤ need) (hfit : need ≤ b.size) :
    ∃ h', (h.carve b.start need).outcome = .ok h' ∧ h.Cuts xs b ys f need h' := by
  obtain ⟨h₁, hrun, hc⟩ := hs.holds.carve hb hmod hle hfit
  have hproper := hs.divided.proper hs.divided.mem_middle
  have hback := carve_withGrowth (h.withGrowth defaultChunk) h.config.chunk b.start need
  refine ⟨h₁.withGrowth h.config.chunk, ?_, hc.holds.sound.withGrowth h.config.chunk,
    hc.edited.mono fun j => hproper.inSpan_of_onCut hle hfit, hc.alike.withGrowth, hc.rover_eq⟩
  change h.carve b.start need = _ at hback
  rw [hback, Run.outcome_map, hrun]
  rfl

private theorem Sound.search (hs : h.Sound bs f) (need : Nat) :
    (h.search need).outcome =
      .ok ((h.choice bs f need).map Block.start, h.searched (h.choice bs f need)) :=
  outcome_of_withGrowth (F := fun h => h.search need)
    (fun h chunk => h.search_withGrowth chunk need) (hs.holds.search need)

private theorem Sound.searched (hs : h.Sound bs f) (need : Nat) :
    (h.searched (h.choice bs f need)).Sound bs f :=
  (hs.holds.searched need).sound.withGrowth h.config.chunk

/-- A growth that is cut down to words and then rounded up to an even number of them still has room
for a need of whole granules. -/
theorem le_even_words {amount : Nat} (hmod : need % 16 = 0) (hle : need ≤ amount) :
    need ≤ (if amount / 8 % 2 = 1 then amount / 8 + 1 else amount / 8) * 8 := by
  split <;> omega

/-- Growing succeeds only within the memory. -/
theorem room_of_extend {words : Nat} (hrun : (h.extend words).outcome = .ok (.ok p, h')) :
    (if words % 2 = 1 then words + 1 else words) * 8 < wordLimit ∧
      (if words % 2 = 1 then words + 1 else words) * 8 ≤
        h.arena.memory.limit - h.arena.memory.size := by
  have hlt : (if words % 2 = 1 then words + 1 else words) * 8 < wordLimit := by
    simp only [Heap.extend, Run.outcome_bind, Run.outcome_liftM] at hrun
    obtain ⟨even, heven, hrun⟩ := Fault.bind_eq_ok_iff.mp hrun
    obtain ⟨amount, hamount, -⟩ := Fault.bind_eq_ok_iff.mp hrun
    obtain ⟨-, rfl⟩ := Word.ofNat_eq_ok_iff.mp heven
    exact (Word.ofNat_eq_ok_iff.mp hamount).1
  refine ⟨hlt, ?_⟩
  by_contra hroom
  rw [extend_of_lt rfl hlt (Nat.not_le.mp hroom)] at hrun
  cases hrun

/-- A request is given a block in one of two ways: the search finds one that is carved, or it finds
none, and the block that the heap grows by is carved. -/
theorem allocate_cases (hrun : (h.allocate request).outcome = .ok (.ok (some p), h')) :
    ∃ found h₁, (h.search (blockSize request)).outcome = .ok (found, h₁) ∧
      (found = some p ∧ (h₁.carve p (blockSize request)).outcome = .ok h' ∨
        found = none ∧ ∃ h₂,
          (h₁.extend (max (blockSize request) h₁.config.chunk / wordBytes)).outcome =
            .ok (.ok p, h₂) ∧
          (h₂.carve p (blockSize request)).outcome = .ok h') := by
  have hblock : (h.allocateBlock request).outcome = .ok (.ok p, h') := by
    unfold Heap.allocate at hrun
    split at hrun
    · cases hrun
    · rw [Run.outcome_bind] at hrun
      obtain ⟨⟨answer, h₁⟩, hblock, hrun⟩ := Fault.bind_eq_ok_iff.mp hrun
      cases answer with
      | error e => cases hrun
      | ok block =>
        rw [Run.outcome_bind] at hrun
        obtain ⟨_, -, hanswer⟩ := Fault.bind_eq_ok_iff.mp hrun
        cases hanswer
        exact hblock
  unfold Heap.allocateBlock at hblock
  cases hneed : blockFor request with
  | error e =>
    rw [hneed] at hblock
    cases hblock
  | ok need =>
    obtain ⟨-, rfl⟩ := blockFor_eq_ok_iff.mp hneed
    simp only [hneed, Run.outcome_bind] at hblock
    obtain ⟨⟨found, h₁⟩, hsearch, hblock⟩ := Fault.bind_eq_ok_iff.mp hblock
    refine ⟨found, h₁, hsearch, ?_⟩
    cases found with
    | some block =>
      rw [Run.outcome_bind] at hblock
      obtain ⟨h₂, hcarve, hanswer⟩ := Fault.bind_eq_ok_iff.mp hblock
      cases hanswer
      exact Or.inl ⟨rfl, hcarve⟩
    | none =>
      simp only [Run.outcome_bind] at hblock
      obtain ⟨⟨answer, h₂⟩, hextend, hblock⟩ := Fault.bind_eq_ok_iff.mp hblock
      cases answer with
      | error cause => cases hblock
      | ok block =>
        rw [Run.outcome_bind] at hblock
        obtain ⟨h₃, hcarve, hanswer⟩ := Fault.bind_eq_ok_iff.mp hblock
        cases hanswer
        exact Or.inr ⟨rfl, h₂, hextend, hcarve⟩

/-- Carving a free block for a request puts a block of about its size to use. -/
theorem Sound.size_of_carve (hs : h.Sound bs f) (hmem : b ∈ bs) (hb : b.isFree = true)
    (hfit : blockSize request ≤ b.size)
    (hrun : (h.carve b.start (blockSize request)).outcome = .ok h') :
    ∃ bs' f' u, h'.Sound bs' f' ∧ u ∈ bs' ∧ u.isFree = false ∧ u.start = b.start ∧
      blockSize request ≤ u.size ∧ u.size ≤ blockSize request + 32 := by
  obtain ⟨-, hmod, hlarge⟩ := blockSize_spec request
  obtain ⟨xs, ys, rfl⟩ := List.append_of_mem hmem
  obtain ⟨h₁, hcarve, hc⟩ := hs.carve hb hmod hlarge hfit
  rw [hrun] at hcarve
  cases hcarve
  have hsize := Block.size_taken hmod (hs.divided.proper hmem).size_mod hfit
  exact ⟨_, _, b.taken (blockSize request), hc.sound, hc.sound.divided.mem_middle, rfl, rfl,
    by omega, by omega⟩

/-- However its block was found, a request is given no more than two granules too much. -/
theorem Sound.size_of_allocate (hs : h.Sound bs f)
    (hrun : (h.allocate request).outcome = .ok (.ok (some p), h')) :
    ∃ bs' f' u, h'.Sound bs' f' ∧ u ∈ bs' ∧ u.isFree = false ∧ u.start = p ∧
      blockSize request ≤ u.size ∧ u.size ≤ blockSize request + 32 := by
  obtain ⟨-, hmod, hlarge⟩ := blockSize_spec request
  have hroved := hs.searched (blockSize request)
  obtain ⟨found, h₁, hsearch, hrest⟩ := allocate_cases hrun
  rw [hs.search] at hsearch
  cases hsearch
  cases hchoice : h.choice bs f (blockSize request) with
  | some b =>
    obtain ⟨hmem, hfree, hfit⟩ := hs.holds.mem_of_choice hchoice
    rw [hchoice] at hrest hroved
    rcases hrest with ⟨hfound, hcarve⟩ | ⟨hnone, -⟩
    · obtain rfl := Option.some.inj hfound
      exact hroved.size_of_carve hmem hfree hfit hcarve
    · cases hnone
  | none =>
    rw [hchoice] at hrest hroved
    rcases hrest with ⟨hfound, -⟩ | ⟨-, h₂, hextend, hcarve⟩
    · cases hfound
    · obtain ⟨hlt, hroom⟩ := room_of_extend hextend
      have hneed := le_even_words hmod
        (Nat.le_max_left (blockSize request) (h.searched none).config.chunk)
      obtain ⟨h₃, hextend', hg⟩ := hroved.extend rfl (Nat.le_trans hlarge hneed) hlt hroom
      rw [hextend] at hextend'
      cases hextend'
      refine hg.sound.size_of_carve (List.mem_append_right _ List.mem_cons_self) rfl ?_ hcarve
      rw [size_grown]
      exact Nat.le_trans hneed (Nat.le_add_left ..)

/-- Carving a free block for a need of whole granules, at least three, puts its lower part to use.
When 48 bytes or more would be left, it is cut right at the need, and the rest is a free block
behind it, first in the bucket of its size. Otherwise it is used as a whole, and is at most 32 bytes
too large. The block has left its bucket; all other blocks, the order of the buckets and the rover
stay, the heap is sound again, and no byte is written outside the old block. So whatever a request
is given, it is not much larger than what the request needs. -/
theorem Sound.carve_exact (hs : h.Sound bs f) :
    (∀ xs b ys need, bs = xs ++ b :: ys → b.isFree = true → need % 16 = 0 → 48 ≤ need →
      need ≤ b.size → ∃ u h', (h.carve b.start need).outcome = .ok h' ∧
        u.start = b.start ∧ u.isFree = false ∧
        (u.size = need ∨ u.size = need + 16 ∨ u.size = need + 32) ∧
        (48 ≤ b.size - need → u.size = need ∧
          h'.Sound (xs ++ u :: ⟨b.start + need, .free (b.size - need)⟩ :: ys)
            ((f.without [b.start]).push (b.start + need) (SizeClass.ofSize (b.size - need))) ∧
          h'.buckets.head (SizeClass.ofSize (b.size - need)) = some (b.start + need)) ∧
        (b.size - need < 48 → u.size = b.size ∧ h'.Sound (xs ++ u :: ys) (f.without [b.start])) ∧
        h'.buckets.linksOf b.start = none ∧ h.arena.Edited h'.arena b.InSpan ∧ h.Alike h' ∧
        h'.rover = h.rover) ∧
    ∀ request p h', (h.allocate request).outcome = .ok (.ok (some p), h') →
      ∃ bs' f' u, h'.Sound bs' f' ∧ u ∈ bs' ∧ u.isFree = false ∧ u.start = p ∧
        blockSize request ≤ u.size ∧ u.size ≤ blockSize request + 32 := by
  refine ⟨fun xs b ys need hbs hb hmod hle hfit => ?_, fun request p h' => hs.size_of_allocate⟩
  subst hbs
  have hsize := (hs.divided.proper hs.divided.mem_middle).size_mod
  obtain ⟨h', hrun, hc⟩ := hs.carve hb hmod hle hfit
  have hsound := hc.sound
  have hdrop : f.drop b.start = f.without [b.start] :=
    Filing.dropAll_eq_without hs.files.nodup [b.start]
  refine ⟨b.taken need, h', hrun, rfl, rfl, Block.size_taken hmod hsize hfit, fun hrest => ?_,
    fun hrest => ?_, hsound.linksOf_of_used (b := b.taken need) hsound.divided.mem_middle rfl,
    hc.edited, hc.alike, hc.rover_eq⟩
  · rcases Block.carve_cases hmod hsize hfit with ⟨-, htaken, hleft⟩ | ⟨hlt, -⟩
    · rw [Filing.carve, hleft, hdrop] at hsound
      refine ⟨by rw [htaken]; rfl, hsound, ?_⟩
      rw [hsound.files.head_eq]
      simp [Filing.push]
    · omega
  · rcases Block.carve_cases hmod hsize hfit with ⟨hge, -⟩ | ⟨-, htaken, hleft, -⟩
    · omega
    · rw [Filing.carve, hleft, hdrop] at hsound
      exact ⟨by rw [htaken]; rfl, hsound⟩

/-- From 144 bytes a need of 96 leaves a block of its own, and a need of 112 does not. -/
theorem Sound.carve_exact_of_limit : ∃ (h : Heap) (f : Filing) (h₁ h₂ h₃ : Heap) (p : Nat),
    h.Sound [⟨16, .used 48⟩, ⟨64, .free 144⟩] f ∧ (h.carve 64 96).outcome = .ok h₁ ∧
    h₁.blocks = ⟨[⟨16, .used 48⟩, ⟨64, .used 96⟩, ⟨160, .free 48⟩], none⟩ ∧
    (h.carve 64 112).outcome = .ok h₂ ∧
    h₂.blocks = ⟨[⟨16, .used 48⟩, ⟨64, .used 144⟩], none⟩ ∧
    (h.allocate 30).outcome = .ok (.ok (some p), h₃) ∧
    ∃ bs u, h₃.blocks = ⟨bs, none⟩ ∧ u ∈ bs ∧ u.start = p ∧ 48 ≤ u.size ∧ u.size ≤ 80 := by
  obtain ⟨h, f, hs, -, p, h₃, hallocate⟩ := exists_half_used
  obtain ⟨hcarves, hallocates⟩ := Sound.carve_exact hs
  obtain ⟨u₁, h₁, hrun₁, hstart₁, hused₁, -, hsplit, -⟩ :=
    hcarves [⟨16, .used 48⟩] ⟨64, .free 144⟩ [] 96 rfl rfl (by decide) (by decide) (by decide)
  obtain ⟨u₂, h₂, hrun₂, hstart₂, hused₂, -, -, hwhole, -⟩ :=
    hcarves [⟨16, .used 48⟩] ⟨64, .free 144⟩ [] 112 rfl rfl (by decide) (by decide) (by decide)
  obtain ⟨hsize₁, hs₁, -⟩ := hsplit (by decide)
  obtain ⟨hsize₂, hs₂⟩ := hwhole (by decide)
  obtain ⟨bs, _, u, hs₃, hmem, -, hstart, hlow, hhigh⟩ := hallocates 30 p h₃ hallocate
  have hu₁ : u₁ = ⟨64, .used 96⟩ := by
    rw [Block.eq_of_used hused₁, hstart₁, hsize₁]
  have hu₂ : u₂ = ⟨64, .used 144⟩ := by
    rw [Block.eq_of_used hused₂, hstart₂, hsize₂]
    rfl
  subst hu₁ hu₂
  exact ⟨h, f, h₁, h₂, h₃, p, hs, hrun₁, hs₁.blocks_eq, hrun₂, hs₂.blocks_eq, hallocate, bs, u,
    hs₃.blocks_eq, hmem, hstart, hlow, hhigh⟩

end Heap

end SegregatedFit
