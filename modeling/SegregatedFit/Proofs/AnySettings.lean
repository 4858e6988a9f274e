import SegregatedFit.Proofs.Operations

/-!
# Good order, whatever the settings

Merging, carving and growing by a number of words do not look at how much a heap grows at a time.
So what is known of them in good order holds as well without any condition on that setting: a heap
is run with another chunk in its place, and the chunk is put back afterwards.
-/

namespace SegregatedFit

variable {α β : Type}

/-- Changing a value before it becomes a run or after that is the same. -/
theorem Run.liftM_map (g : α → β) (x : Except Fault α) :
    (liftM (g <$> x) : Run β) = g <$> (liftM x : Run α) := by
  cases x <;> rfl

namespace Filing

/-- Every list without some blocks, in the same order. -/
def without (f : Filing) (blocks : List Nat) : Filing :=
  fun c => (f c).filter fun x => decide (x ∉ blocks)

/-- Taking blocks out of a filing leaves just the others in each bucket. -/
theorem mem_without_iff {f : Filing} {blocks : List Nat} {c : SizeClass} {x : Nat} :
    x ∈ f.without blocks c ↔ x ∈ f c ∧ x ∉ blocks := by
  rw [without, List.mem_filter, decide_eq_true_eq]

/-- Taking blocks out one by one leaves the others in their order. -/
theorem dropAll_eq_without {f : Filing} (hf : ∀ c, (f c).Nodup) (blocks : List Nat) :
    f.dropAll blocks = f.without blocks := by
  induction blocks generalizing f with
  | nil =>
    funext c
    exact (List.filter_eq_self.mpr fun x _ => by simp).symm
  | cons b rest ih =>
    have hdrop : ∀ c, (f.drop b c).Nodup := fun c => (hf c).erase b
    funext c
    rw [dropAll_cons, ih hdrop, without, drop, (hf c).erase_eq_filter, List.filter_filter]
    apply List.filter_congr
    intro x _
    by_cases hx : x = b <;> simp [hx]

end Filing

namespace Heap

variable {h h₁ : Heap} {bs xs ys : List Block} {b : Block} {f : Filing} {chunk : Nat}

/-- The same heap with another chunk to grow by. -/
def withGrowth (h : Heap) (chunk : Nat) : Heap := { h with config := { h.config with chunk } }

/-! Nothing below looks at the chunk. -/

private theorem fuse_withGrowth (h : Heap) (chunk block start size : Nat) (beside : List Nat) :
    (h.withGrowth chunk).fuse block beside start size =
      (·.withGrowth chunk) <$> h.fuse block beside start size := by
  simp only [fuse, withGrowth, map_bind, map_pure]
  rfl

/-- Merging free blocks does not look at the growth step. -/
theorem coalesce_withGrowth (h : Heap) (chunk block : Nat) :
    (h.withGrowth chunk).coalesce block =
      (fun r => (r.1, r.2.withGrowth chunk)) <$> h.coalesce block := by
  unfold coalesce
  simp only [fuse_withGrowth, Run.liftM_map, map_bind]
  refine bind_congr fun below => bind_congr fun above => bind_congr fun whole => ?_
  cases below <;> cases above <;> simp only [map_bind, map_pure, bind_map_left]

private theorem file_withGrowth (h : Heap) (chunk block : Nat) :
    (h.withGrowth chunk).file block = (·.withGrowth chunk) <$> h.file block := by
  simp only [file, withGrowth, map_bind, map_pure]

/-- Carving a block does not look at the growth step. -/
theorem carve_withGrowth (h : Heap) (chunk block size : Nat) :
    (h.withGrowth chunk).carve block size = (·.withGrowth chunk) <$> h.carve block size := by
  simp only [carve, withGrowth, map_bind]
  refine bind_congr fun whole => bind_congr fun buckets => bind_congr fun remainder => ?_
  split <;> simp only [map_bind, map_pure]

/-- Extending by a given number of words does not look at the growth step. -/
theorem extend_withGrowth (h : Heap) (chunk words : Nat) :
    (h.withGrowth chunk).extend words =
      (fun r => (r.1, r.2.withGrowth chunk)) <$> h.extend words := by
  simp only [extend, map_bind]
  refine bind_congr fun even => bind_congr fun amount => bind_congr fun grown => ?_
  obtain ⟨answer, arena⟩ := grown
  cases answer with
  | error cause => rfl
  | ok base =>
    simp only [map_bind]
    refine bind_congr fun stamped => bind_congr fun ending => bind_congr fun ended => ?_
    refine (congrArg (· >>= _) (coalesce_withGrowth
      ⟨ended, h.buckets, h.config, h.prologue, h.rover⟩ chunk base)).trans ?_
    simp only [bind_map_left, file_withGrowth, Run.liftM_map, map_pure]

/-- Searching a free block does not look at the growth step. -/
theorem search_withGrowth (h : Heap) (chunk need : Nat) :
    (h.withGrowth chunk).search need =
      (fun r => (r.1, r.2.withGrowth chunk)) <$> h.search need := by
  have hsame : (h.withGrowth chunk).config.policy = h.config.policy := rfl
  unfold search
  rw [hsame]
  cases h.config.policy with
  | nextFit =>
    simp only [nextFit, map_bind]
    refine bind_congr fun found => ?_
    cases found <;> rfl
  | _ =>
    simp only [map_bind, map_pure]
    rfl

/-- What does not look at the chunk can be run with any chunk. -/
theorem outcome_of_withGrowth {F : Heap → Run (α × Heap)}
    (hF : ∀ h chunk, F (h.withGrowth chunk) = (fun r => (r.1, r.2.withGrowth chunk)) <$> F h)
    {a : α} (hrun : (F (h.withGrowth chunk)).outcome = .ok (a, h₁)) :
    (F h).outcome = .ok (a, h₁.withGrowth h.config.chunk) := by
  have hback := hF (h.withGrowth chunk) h.config.chunk
  change F h = _ at hback
  rw [hback, Run.outcome_map, hrun]
  rfl

/-- Putting the chunk back restores the settings. -/
theorem Alike.withGrowth (ha : (h.withGrowth chunk).Alike h₁) :
    h.Alike (h₁.withGrowth h.config.chunk) := by
  refine ⟨?_, ha.prologue_eq, ha.limit_eq⟩
  rw [Heap.withGrowth, ha.config_eq]
  rfl

/-- A heap in good order, whatever its settings: it is divided into blocks, the lists hold the free
ones, no two neighbours are free, and the rover is at the prologue or at a block. -/
structure Sound (h : Heap) (bs : List Block) (f : Filing) : Prop where
  divided : h.arena.Divided h.first bs
  files : h.buckets.Files f
  rover_mem : h.rover = h.prologue ∨ h.rover ∈ bs.map Block.start
  filed : f.Of bs
  spaced : Block.Spaced bs

/-- A heap that is sound but for one free block `b`, which is in no list and may lie beside other
free blocks. These are listed, and no other two neighbours are free. -/
structure Unsettled (h : Heap) (xs : List Block) (b : Block) (ys : List Block) (f : Filing) :
    Prop where
  divided : h.arena.Divided h.first (xs ++ b :: ys)
  files : h.buckets.Files f
  rover_mem : h.rover = h.prologue ∨ h.rover ∈ (xs ++ b :: ys).map Block.start
  isFree : b.isFree = true
  filed : f.Of (xs ++ ys)
  spaced_below : Block.Spaced xs
  spaced_above : Block.Spaced ys

private theorem defaultChunk_spec :
    defaultChunk % 16 = 0 ∧ 48 ≤ defaultChunk ∧ defaultChunk < wordLimit := by
  decide

/-- A sound heap is in good order if it grows by the usual chunk. -/
theorem Sound.holds (hs : h.Sound bs f) : (h.withGrowth defaultChunk).Holds bs f := by
  obtain ⟨hmod, hle, hlt⟩ := defaultChunk_spec
  exact ⟨⟨hs.divided, hs.files, hs.rover_mem, hmod, hle, hlt⟩, hs.filed, hs.spaced⟩

/-- The blocks of a sound heap are the ones it is sound for. -/
theorem Sound.blocks_eq (hs : h.Sound bs f) : h.blocks = ⟨bs, none⟩ := hs.holds.blocks_eq

/-- A block in use has no links. -/
theorem Sound.linksOf_of_used (hs : h.Sound bs f) (hb : b ∈ bs) (hused : b.isFree = false) :
    h.buckets.linksOf b.start = none := by
  apply hs.files.unlisted
  intro c hlisted
  obtain ⟨d, hd, hfree, hstart, -⟩ := (hs.filed c b.start).mp hlisted
  rw [hs.divided.tiled.eq_of_start_eq hd hb hstart, hused] at hfree
  cases hfree

/-- A heap that keeps the invariant is sound. -/
theorem Holds.sound (hh : h.Holds bs f) : h.Sound bs f :=
  ⟨hh.divided, hh.files, hh.rover_mem, hh.filed, hh.spaced⟩

/-- Whether a heap is sound does not depend on its growth step. -/
theorem Sound.withGrowth (hs : h.Sound bs f) (chunk : Nat) : (h.withGrowth chunk).Sound bs f :=
  ⟨hs.divided, hs.files, hs.rover_mem, hs.filed, hs.spaced⟩

/-- An unsettled heap has a block pending, once the growth step is a proper one. -/
theorem Unsettled.pending (hu : h.Unsettled xs b ys f) :
    (h.withGrowth defaultChunk).Pending xs b ys f := by
  obtain ⟨hmod, hle, hlt⟩ := defaultChunk_spec
  exact ⟨⟨hu.divided, hu.files, hu.rover_mem, hmod, hle, hlt⟩, hu.isFree, hu.filed,
    hu.spaced_below, hu.spaced_above⟩

/-- A heap with a block pending is unsettled. -/
theorem Pending.unsettled (hp : h.Pending xs b ys f) : h.Unsettled xs b ys f :=
  ⟨hp.divided, hp.files, hp.rover_mem, hp.isFree, hp.filed, hp.spaced_below, hp.spaced_above⟩

/-- Whether a heap is unsettled does not depend on its growth step. -/
theorem Unsettled.withGrowth (hu : h.Unsettled xs b ys f) (chunk : Nat) :
    (h.withGrowth chunk).Unsettled xs b ys f :=
  ⟨hu.divided, hu.files, hu.rover_mem, hu.isFree, hu.filed, hu.spaced_below, hu.spaced_above⟩

end Heap

end SegregatedFit
