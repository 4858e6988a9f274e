import SegregatedFit.Proofs.Invariant

/-!
# Merging keeps a heap in order

A pending block is merged with the free blocks beside it. These are one block below and one
above at most, because of all other blocks no two free ones are neighbours. The result is
again a pending block, now between blocks in use, so that filing it restores good order.
-/

namespace SegregatedFit.Heap

variable {h h' h'' : Heap} {xs ys lower upper mid mid' : List Block} {b : Block} {f : Filing}

/-- Two heaps have the same settings, the same prologue and the same limit. -/
structure Alike (h h' : Heap) : Prop where
  config_eq : h'.config = h.config
  prologue_eq : h'.prologue = h.prologue
  limit_eq : h'.arena.memory.limit = h.arena.memory.limit

/-- Every heap is like itself. -/
theorem Alike.refl (h : Heap) : h.Alike h := ⟨rfl, rfl, rfl⟩

/-- What one step and the next leave alone is left alone by both. -/
theorem Alike.trans (hh : h.Alike h') (hh' : h'.Alike h'') : h.Alike h'' :=
  ⟨hh'.config_eq.trans hh.config_eq, hh'.prologue_eq.trans hh.prologue_eq,
    hh'.limit_eq.trans hh.limit_eq⟩

/-- The one free block that several blocks behind `lower` become. -/
def merged (h : Heap) (lower run : List Block) : Block :=
  ⟨h.first + Block.totalSize lower, .free (Block.totalSize run)⟩

/-- A merged block has the size of the run it was made from. -/
@[simp] theorem size_merged (h : Heap) (lower run : List Block) :
    (h.merged lower run).size = Block.totalSize run := rfl

/-- A merged run of blocks is a block of the right form. -/
theorem merged_proper {a : Arena} {first : Nat}
    (hd : a.Divided first (lower ++ mid ++ b :: mid' ++ upper)) :
    (h.merged lower (mid ++ b :: mid')).Proper := by
  have hproper {c : Block} (hc : c ∈ mid ++ b :: mid') : c.Proper := by
    apply hd.proper
    simp only [List.append_assoc, List.mem_append] at hc ⊢
    tauto
  constructor
  · have hsum (run : List Block) (hrun : ∀ c ∈ run, c.Proper) : Block.totalSize run % 16 = 0 := by
      induction run with
      | nil => rfl
      | cons c rest ih =>
        have hc := (hrun c List.mem_cons_self).size_mod
        have hrest := ih fun d hd => hrun d (List.mem_cons_of_mem _ hd)
        rw [Block.totalSize_cons]
        omega
    exact hsum _ fun c hc => hproper hc
  · have hb := (hproper (List.mem_append_right _ List.mem_cons_self)).le_size
    rw [size_merged, Block.totalSize_append, Block.totalSize_cons]
    omega

/-- The block that a block between `xs` and `ys` becomes together with the free blocks right
beside it. -/
def joined (h : Heap) (xs : List Block) (b : Block) (ys : List Block) : Block :=
  h.merged (Block.trimEnd xs) ((Block.below xs).toList ++ b :: (Block.above ys).toList)

/-- Where the free blocks right beside a place between `xs` and `ys` start. -/
def besides (xs ys : List Block) : List Nat :=
  ((Block.below xs).toList ++ (Block.above ys).toList).map Block.start

/-- The rover after blocks were merged: at the merged block if it was on one of them. -/
def roverAfter (h : Heap) (lower run : List Block) : Nat :=
  if h.rover ∈ run.map Block.start then (h.merged lower run).start else h.rover

/-- Merging a pending block with any blocks around it leaves one pending block. -/
theorem Pending.fuse (hp : h.Pending (lower ++ mid) b (mid' ++ upper) f) :
    ∃ h', h.fuse b.start ((mid ++ mid').map Block.start) (h.merged lower (mid ++ b :: mid')).start
        (Block.totalSize (mid ++ b :: mid')) = .ok h' ∧
      h'.Pending lower (h.merged lower (mid ++ b :: mid')) upper
        (f.dropAll ((mid ++ mid').map Block.start)) ∧
      h.arena.Edited h'.arena (h.merged lower (mid ++ b :: mid')).OnTag ∧ h.Alike h' ∧
      h'.rover = h.roverAfter lower (mid ++ b :: mid') := by
  have hsplit : h.arena.Divided h.first (lower ++ (mid ++ b :: mid') ++ upper) := by
    simpa using hp.divided
  have hproper : (h.merged lower (mid ++ b :: mid')).Proper :=
    merged_proper (by simpa using hp.divided)
  obtain ⟨buckets, herase, hfiles⟩ := hp.files.eraseAll ((mid ++ mid').map Block.start)
  obtain ⟨arena, hstamp, hedit, hdivided⟩ := hsplit.restamp hproper rfl
  have hlarge := hproper.le_size
  -- the rover is compared with `b` and with its neighbours apart
  have hrover : (if h.rover = b.start ∨ h.rover ∈ (mid ++ mid').map Block.start
      then (h.merged lower (mid ++ b :: mid')).start else h.rover) =
        h.roverAfter lower (mid ++ b :: mid') := by
    unfold roverAfter
    congr 1
    simp only [List.map_append, List.map_cons, List.mem_append, List.mem_cons]
    apply propext
    tauto
  refine ⟨⟨arena, buckets, h.config, h.prologue, h.roverAfter lower (mid ++ b :: mid')⟩,
    ?_, ⟨⟨hdivided, hfiles, ?_, hp.chunk_mod, hp.le_chunk, hp.chunk_lt⟩, rfl, ?_, ?_, ?_⟩, ?_,
    ⟨rfl, rfl, hedit.limit_eq⟩, rfl⟩
  · have hstamp' : h.arena.stamp (h.merged lower (mid ++ b :: mid')).start
        (.free (Block.totalSize (mid ++ b :: mid'))) = .ok arena := hstamp
    rw [Heap.fuse, herase, Fault.ok_bind, hstamp', Fault.ok_bind, hrover]
    rfl
  · change h.roverAfter lower (mid ++ b :: mid') = h.prologue ∨ _
    unfold roverAfter
    split
    · exact Or.inr (by simp)
    · next hoff =>
      apply hp.rover_mem.imp id
      intro hmem
      simp only [List.map_append, List.map_cons, List.mem_append, List.mem_cons] at hmem hoff ⊢
      tauto
  · have hnodup := hp.divided.nodup
    have hrest : ((lower ++ (mid ++ mid') ++ upper).map Block.start).Nodup := by
      refine hnodup.sublist (List.Sublist.map _ ?_)
      simp
    have hfiled : f.Of (lower ++ (mid ++ mid') ++ upper) := by simpa using hp.filed
    exact hfiled.dropAll hp.files.nodup hrest
  · exact hp.spaced_below.left
  · exact hp.spaced_above.right
  · exact hedit

private theorem Pending.coalesce_split {below above : Option Block}
    (hp : h.Pending (lower ++ below.toList) b (above.toList ++ upper) f)
    (hbelow : Block.below (lower ++ below.toList) = below)
    (habove : Block.above (above.toList ++ upper) = above) :
    ∃ h', (h.coalesce b.start).outcome =
        .ok ((h.merged lower (below.toList ++ b :: above.toList)).start, h') ∧
      h'.Pending lower (h.merged lower (below.toList ++ b :: above.toList)) upper
        (f.dropAll ((below.toList ++ above.toList).map Block.start)) ∧
      h.arena.Edited h'.arena (h.merged lower (below.toList ++ b :: above.toList)).OnTag ∧
      h.Alike h' ∧ h'.rover = h.roverAfter lower (below.toList ++ b :: above.toList) := by
  obtain ⟨h', hfuse, hpending, hedit, halike, hrover⟩ := hp.fuse
  have hfreeBelow := hp.divided.freeBelow
  have hfreeAbove := hp.divided.freeAbove
  rw [hbelow] at hfreeBelow
  rw [habove] at hfreeAbove
  have hsizeOf := hp.divided.sizeOf hp.divided.mem_middle
  have htotal := hp.divided.size_eq
  have hlt := h.arena.size_lt
  have hstart := hp.divided.start_eq
  simp only [Block.totalSize_append, Block.totalSize_cons] at htotal hstart
  simp only [Heap.coalesce, Run.outcome_bind, Run.outcome_liftM, hfreeBelow, hfreeAbove, hsizeOf,
    Fault.ok_bind]
  -- The merge runs by which neighbours are free, with a sum of its own in each case. Nothing is
  -- fused in the first one, so `b` itself has to be the merged block there.
  cases below with
  | none =>
    have hfirst : (h.merged lower (Option.toList none ++ b :: above.toList)).start = b.start := by
      rw [hstart]
      simp [merged]
    cases above with
    | none =>
      have hb : h.merged lower (Option.toList none ++ b :: Option.toList none) = b := by
        rw [Block.eq_of_isFree hp.isFree, ← hfirst]
        simp [merged]
      refine ⟨h, ?_, ?_, Arena.Edited.refl _ _, Alike.refl h, ?_⟩
      · rw [hfirst]
        rfl
      · rw [hb]
        simpa using hp
      · unfold roverAfter
        rw [hb]
        simp [eq_comm]
    | some q =>
      refine ⟨h', ?_, hpending, hedit, halike, hrover⟩
      rw [hfirst] at hfuse ⊢
      simp only [Option.toList_some, Block.totalSize_cons, Block.totalSize_nil] at htotal
      have hsum : Word.add b.size q.size = .ok (b.size + q.size) :=
        Word.add_of_lt (by omega)
      have hfuse' : h.fuse b.start [q.start] b.start (b.size + q.size) = .ok h' := by
        simpa using hfuse
      simp only [Run.outcome_bind, Run.outcome_liftM, Run.outcome_tell, Run.outcome_pure, hsum,
        hfuse', Fault.ok_bind]
  | some p =>
    have hpdivided : h.arena.Divided h.first (lower ++ p :: b :: (above.toList ++ upper)) := by
      simpa using hp.divided
    have hfirst : (h.merged lower ((some p).toList ++ b :: above.toList)).start = p.start :=
      hpdivided.start_eq.symm
    refine ⟨h', ?_, hpending, hedit, halike, hrover⟩
    rw [hfirst] at hfuse ⊢
    simp only [Option.toList_some, Block.totalSize_cons, Block.totalSize_nil] at htotal
    cases above with
    | none =>
      have hsum : Word.add b.size p.size = .ok (b.size + p.size) :=
        Word.add_of_lt (by omega)
      have hfuse' : h.fuse b.start [p.start] p.start (b.size + p.size) = .ok h' := by
        simpa [Nat.add_comm] using hfuse
      simp only [Run.outcome_bind, Run.outcome_liftM, Run.outcome_tell, Run.outcome_pure, hsum,
        hfuse', Fault.ok_bind]
    | some q =>
      simp only [Option.toList_some, Block.totalSize_cons, Block.totalSize_nil] at htotal
      have hbeside : Word.add p.size q.size = .ok (p.size + q.size) :=
        Word.add_of_lt (by omega)
      have hsum : Word.add b.size (p.size + q.size) = .ok (b.size + (p.size + q.size)) :=
        Word.add_of_lt (by omega)
      have hfuse' : h.fuse b.start [p.start, q.start] p.start (b.size + (p.size + q.size)) =
          .ok h' := by
        simpa [Nat.add_left_comm] using hfuse
      simp only [Run.outcome_bind, Run.outcome_liftM, Run.outcome_tell, Run.outcome_pure, hbeside,
        hsum, hfuse', Fault.ok_bind]

/-- Coalescing merges a pending block with the free blocks right beside it, and rewrites no more
than the two tags of the whole. -/
theorem Pending.coalesce (hp : h.Pending xs b ys f) :
    ∃ h', (h.coalesce b.start).outcome = .ok ((h.joined xs b ys).start, h') ∧
      h'.Pending (Block.trimEnd xs) (h.joined xs b ys) (Block.trimStart ys)
        (f.dropAll (besides xs ys)) ∧
      h.arena.Edited h'.arena (h.joined xs b ys).OnTag ∧ h.Alike h' ∧
      h'.rover = h.roverAfter (Block.trimEnd xs)
        ((Block.below xs).toList ++ b :: (Block.above ys).toList) := by
  have hbelow := Block.trimEnd_append xs
  have habove := Block.append_trimStart ys
  rw [← hbelow, ← habove] at hp
  have hrun := hp.coalesce_split (by rw [hbelow]) (by rw [habove])
  exact hrun

end SegregatedFit.Heap
