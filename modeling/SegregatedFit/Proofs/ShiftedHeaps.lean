import SegregatedFit.Proofs.ShiftedArenas
import SegregatedFit.Proofs.Searching
import SegregatedFit.Proofs.Resolving
import SegregatedFit.Heap.Call

/-!
# Heaps that lie further up

Two heaps with the same settings can lie at two places, one further up than the other by a fixed
distance, each with all its offsets counted from where it is. The steps that change blocks are the
same on both at that distance. The searches are the same as well, because both heaps are in good
order if the lower one is, and a policy only compares offsets with each other.
-/

namespace SegregatedFit

variable {k : Nat} {past : Nat → UInt8}

/-- An offset further up is that of an offset further up only. -/
theorem map_add_eq_some_iff {o : Option Nat} {x : Nat} :
    o.map (· + k) = some (x + k) ↔ o = some x := by
  simp [Option.map_eq_some_iff]

/-- Links to the same blocks further up. -/
def Links.shift (k : Nat) (l : Links) : Links := ⟨l.prev.map (· + k), l.next.map (· + k), l.bucket⟩

/-- The same lists with all blocks further up. -/
def Filing.shift (k : Nat) (f : Filing) : Filing := fun c => (f c).map (· + k)

/-- The second buckets list the blocks of the first ones further up, in the same order and with
the same links, and nothing else. -/
structure Buckets.Shifted (k : Nat) (s t : Buckets) : Prop where
  head_eq (c : SizeClass) : t.head c = (s.head c).map (· + k)
  length_eq (c : SizeClass) : t.length c = s.length c
  linksOf_eq (x : Nat) : t.linksOf (x + k) = (s.linksOf x).map (Links.shift k)
  unlisted (x : Nat) : x < k → t.linksOf x = none

namespace Buckets.Shifted

variable {s t : Buckets}

/-- The empty registry is its own shift. -/
theorem empty : Buckets.empty.Shifted k Buckets.empty where
  head_eq c := by rw [head_empty, Option.map_none]
  length_eq c := rfl
  linksOf_eq x := by rw [linksOf_empty, linksOf_empty, Option.map_none]
  unlisted x _ := linksOf_empty x

private theorem withFirst (hs : s.Shifted k t) (block size : Nat) :
    (s.withFirst block size).Shifted k (t.withFirst (block + k) size) where
  head_eq c := by
    rw [head_withFirst, head_withFirst, hs.head_eq]
    split <;> rfl
  length_eq c := by rw [length_withFirst, length_withFirst, hs.length_eq]
  linksOf_eq x := by
    rw [linksOf_withFirst, linksOf_withFirst, hs.head_eq, hs.linksOf_eq]
    simp only [Nat.add_right_cancel_iff, map_add_eq_some_iff]
    split
    · rfl
    · split
      · rw [Option.map_map, Option.map_map]
        rfl
      · rfl
  unlisted x hx := by
    rw [linksOf_withFirst, if_neg (by omega), hs.unlisted x hx]
    simp

private theorem push (hs : s.Shifted k t) (block size : Nat) :
    Follows (Buckets.Shifted k) (s.push block size) (t.push (block + k) size) := by
  intro s' hpush
  obtain ⟨hroom, rfl⟩ := push_eq_ok_iff.mp hpush
  rw [← hs.length_eq] at hroom
  exact ⟨_, push_eq_ok_iff.mpr ⟨hroom, rfl⟩, hs.withFirst block size⟩

private theorem erase (hs : s.Shifted k t) (block : Nat) :
    Follows (fun r r' => r.2.Shifted k r'.2) (s.erase block) (t.erase (block + k)) := by
  rintro ⟨r, s'⟩ hr
  have hlinks := hs.linksOf_eq block
  cases hl : s.linksOf block with
  | none =>
    rw [hl, Option.map_none] at hlinks
    rw [erase_of_linksOf_eq_none hl] at hr
    cases hr
    exact ⟨_, erase_of_linksOf_eq_none hlinks, hs⟩
  | some l =>
    rw [hl, Option.map_some] at hlinks
    obtain ⟨c, hc, hpos, rfl, -⟩ := (erase_of_linksOf_eq_some hl).mp hr
    rw [← hs.length_eq] at hpos
    have hr' := (erase_of_linksOf_eq_some (r := some (l.shift k)) hlinks).mpr
      ⟨c, hc, hpos, rfl, rfl⟩
    refine ⟨_, hr', ?_, ?_, ?_, ?_⟩
    · intro c
      rw [head_erase hr c, head_erase hr' c, hs.head_eq]
      simp only [Links.shift, Option.map_eq_none_iff]
      split <;> rfl
    · intro c
      rw [length_erase hr c, length_erase hr' c, hs.length_eq]
      rfl
    · intro x
      rw [linksOf_erase hr x, linksOf_erase hr' (x + k), hs.linksOf_eq]
      simp only [Nat.add_right_cancel_iff, Links.shift, map_add_eq_some_iff]
      split
      · rfl
      · rw [Option.map_map, Option.map_map]
        congr 1
        funext m
        simp only [Function.comp_apply, Links.shift]
        split <;> split <;> rfl
    · intro x hx
      rw [linksOf_erase hr' x, hs.unlisted x hx]
      simp

private theorem refile (hs : s.Shifted k t) (block size : Nat) :
    Follows (Buckets.Shifted k) (s.refile block size) (t.refile (block + k) size) :=
  (hs.erase block).bind fun _ _ hs => hs.push block size

private theorem eraseAll (hs : s.Shifted k t) (blocks : List Nat) :
    Follows (Buckets.Shifted k) (blocks.foldlM (fun s b => return (← s.erase b).2) s)
      ((blocks.map (· + k)).foldlM (fun s b => return (← s.erase b).2) t) := by
  induction blocks generalizing s t with
  | nil => exact .ok hs
  | cons block rest ih =>
    rw [List.map_cons, List.foldlM_cons, List.foldlM_cons, bind_assoc, bind_assoc]
    exact (hs.erase block).bind fun _ _ hs => ih hs

/-- Buckets further up are lists if the ones below are. -/
theorem files (hs : s.Shifted k t) {f : Filing} (hf : s.Files f) : t.Files (f.shift k) where
  nodup c := (hf.nodup c).map fun _ _ => Nat.add_right_cancel
  apart {c d x} hc hd := by
    obtain ⟨y, hy, rfl⟩ := List.mem_map.mp hc
    obtain ⟨z, hz, heq⟩ := List.mem_map.mp hd
    obtain rfl := Nat.add_right_cancel heq
    exact hf.apart hy hz
  head_eq c := by rw [hs.head_eq, hf.head_eq, Filing.shift, List.head?_map]
  length_eq c := by rw [hs.length_eq, hf.length_eq, Filing.shift, List.length_map]
  linksOf_eq {c lower upper x} hlist := by
    obtain ⟨lower, rest, hsplit, rfl, hrest⟩ := List.map_eq_append_iff.mp hlist
    obtain ⟨x, upper, rfl, rfl, rfl⟩ := List.map_eq_cons_iff.mp hrest
    rw [hs.linksOf_eq, hf.linksOf_eq hsplit, List.getLast?_map, List.head?_map]
    rfl
  unlisted {x} hx := by
    rcases Nat.lt_or_ge x k with hlow | hhigh
    · exact hs.unlisted x hlow
    · obtain ⟨y, rfl⟩ := Nat.exists_eq_add_of_le' hhigh
      rw [hs.linksOf_eq, hf.unlisted fun c hy => hx c (List.mem_map_of_mem hy), Option.map_none]

end Buckets.Shifted

/-- The second heap is the first one further up, behind bytes as in `past`. -/
structure Heap.Shifted (k : Nat) (past : Nat → UInt8) (h g : Heap) : Prop where
  arena : h.arena.Shifted k past g.arena
  buckets : h.buckets.Shifted k g.buckets
  config_eq : g.config = h.config
  prologue_eq : g.prologue = h.prologue + k
  rover_eq : g.rover = h.rover + k
  le_prologue : 8 ≤ h.prologue

/-- The same answer for a heap further up, with such heaps left behind. -/
def Shown {α β : Type} (k : Nat) (past : Nat → UInt8) (f : α → β) (x : α × Heap)
    (y : β × Heap) : Prop :=
  y.1 = f x.1 ∧ x.2.Shifted k past y.2

namespace Follows

variable {α β γ δ : Type} {S : γ → δ → Prop} {f : α → β}

/-- After first steps with the same answer, the second ones start from it and from heaps at both
places. -/
theorem shown {x : Except Fault (α × Heap)} {y : Except Fault (β × Heap)}
    {F : α × Heap → Except Fault γ} {G : β × Heap → Except Fault δ}
    (h : Follows (Shown k past f) x y)
    (hF : ∀ a h g, h.Shifted k past g → Follows S (F (a, h)) (G (f a, g))) :
    Follows S (x >>= F) (y >>= G) := by
  refine h.bind ?_
  rintro ⟨a, h⟩ ⟨-, g⟩ ⟨rfl, hs⟩
  exact hF a h g hs

/-- Ending at once with corresponding answers shows heaps at both places. -/
theorem reply {h g : Heap} {a : α} (hs : h.Shifted k past g) :
    Follows (Shown k past f) (.ok (a, h)) (.ok (f a, g)) :=
  .ok ⟨rfl, hs⟩

end Follows

namespace Heap.Shifted

variable {h g : Heap}

/-- Heaps with the same settings lie at two places if their arenas and their buckets do. -/
theorem with_arena (hs : h.Shifted k past g) {a b : Arena} (hab : a.Shifted k past b)
    {s t : Buckets} (hst : s.Shifted k t) {x y : Nat} (hxy : y = x + k) :
    Shifted k past ⟨a, s, h.config, h.prologue, x⟩ ⟨b, t, g.config, g.prologue, y⟩ :=
  ⟨hab, hst, hs.config_eq, hs.prologue_eq, hxy, hs.le_prologue⟩

/-- The first block of a shifted heap starts further up. -/
theorem first_eq (hs : h.Shifted k past g) : g.first = h.first + k := by
  rw [first, first, hs.prologue_eq, Nat.add_right_comm]

/-! Changing blocks. -/

/-- Carving a block and the shifted one keeps heaps shifted. -/
theorem carve (hs : h.Shifted k past g) (block size : Nat) :
    Follows (Shifted k past) (h.carve block size).outcome (g.carve (block + k) size).outcome := by
  unfold Heap.carve
  simp only [Run.outcome_bind, Run.outcome_liftM]
  refine (hs.arena.sizeOf block).eq_bind fun whole => ?_
  refine (hs.buckets.erase block).bind fun r r' hst => .same fun remainder => ?_
  split
  · simp only [Run.outcome_bind, Run.outcome_liftM]
    refine (hs.arena.stamp block _).bind fun a b hab => hab.next_bind block ?_ fun rest => ?_
    · intro rest c hc
      obtain ⟨_, hstamp, -⟩ := Fault.bind_eq_ok_iff.mp hc
      exact (Arena.stamp_eq_ok_iff.mp hstamp).1.2
    · exact (hab.stamp rest _).bind fun a b hab => (hst.push rest remainder).bind fun s t hst =>
        .ok (hs.with_arena hab hst hs.rover_eq)
  · simp only [Run.outcome_bind, Run.outcome_liftM]
    exact (hs.arena.stamp block _).bind fun a b hab => .ok (hs.with_arena hab hst hs.rover_eq)

private theorem fuse (hs : h.Shifted k past g) (block : Nat) (beside : List Nat)
    (start size : Nat) :
    Follows (Shifted k past) (h.fuse block beside start size)
      (g.fuse (block + k) (beside.map (· + k)) (start + k) size) := by
  unfold Heap.fuse
  refine (hs.buckets.eraseAll beside).bind fun s t hst =>
    (hs.arena.stamp start _).bind fun a b hab => .ok (hs.with_arena hab hst ?_)
  have hmem : h.rover + k ∈ beside.map (· + k) ↔ h.rover ∈ beside :=
    List.mem_map_of_injective fun _ _ => Nat.add_right_cancel
  simp only [hs.rover_eq, Nat.add_right_cancel_iff, hmem]
  split <;> rfl

private theorem coalesce (hs : h.Shifted k past g) (block : Nat) :
    Follows (Shown k past (· + k)) (h.coalesce block).outcome (g.coalesce (block + k)).outcome := by
  have hfused {beside : List Nat} {start size : Nat} :
      Follows (Shown k past (· + k))
        (h.fuse block beside start size >>= fun h => .ok (start, h))
        (g.fuse (block + k) (beside.map (· + k)) (start + k) size >>= fun g =>
          .ok (start + k, g)) :=
    (hs.fuse block beside start size).bind fun h g hs => .reply hs
  unfold Heap.coalesce
  simp only [Run.outcome_bind, Run.outcome_liftM]
  refine (hs.arena.freeBelow block).bind fun below _ hbelow =>
    (hs.arena.freeAbove block).bind fun above _ habove =>
    (hs.arena.sizeOf block).eq_bind fun size => ?_
  subst hbelow habove
  cases below with
  | none =>
    cases above with
    | none => exact .reply hs
    | some above =>
      simp only [Option.map_none, Option.map_some, Run.outcome_bind, Run.outcome_liftM,
        Run.outcome_tell, Run.outcome_pure, Fault.ok_bind]
      exact .same fun size => hfused
  | some below =>
    cases above with
    | none =>
      simp only [Option.map_none, Option.map_some, Run.outcome_bind, Run.outcome_liftM,
        Run.outcome_tell, Run.outcome_pure, Fault.ok_bind]
      exact .same fun size => hfused
    | some above =>
      simp only [Option.map_some, Run.outcome_bind, Run.outcome_liftM,
        Run.outcome_tell, Run.outcome_pure, Fault.ok_bind]
      exact .same fun both => .same fun size => hfused

private theorem file (hs : h.Shifted k past g) (block : Nat) :
    Follows (Shifted k past) (h.file block) (g.file (block + k)) := by
  unfold Heap.file
  exact (hs.arena.sizeOf block).eq_bind fun size => (hs.buckets.push block size).bind
    fun s t hst => .ok (hs.with_arena hs.arena hst hs.rover_eq)

/-- Extending both heaps gives shifted offsets, and keeps them shifted. -/
theorem extend (hs : h.Shifted k past g) (words : Nat) :
    Follows (Shown k past (Except.map (· + k))) (h.extend words).outcome
      (g.extend words).outcome := by
  unfold Heap.extend
  simp only [Run.outcome_bind, Run.outcome_liftM]
  refine .same fun words => .same fun size => ?_
  obtain ⟨answer, a, b, hgrow, hgrow', hab⟩ := hs.arena.grow size
  rw [hgrow, hgrow']
  cases answer with
  | error cause => exact .reply (hs.with_arena hab hs.buckets hs.rover_eq)
  | ok block =>
    simp only [Fault.ok_bind, Except.map, Run.outcome_bind, Run.outcome_liftM]
    refine (hab.stamp block _).bind fun a b hab => hab.next_bind block ?_ fun ending => ?_
    · intro ending c hc
      obtain ⟨_, hend, -⟩ := Fault.bind_eq_ok_iff.mp hc
      obtain ⟨_, hsub, hput⟩ := Fault.bind_eq_ok_iff.mp hend
      obtain ⟨hlow, rfl⟩ := Word.sub_eq_ok_iff.mp hsub
      have hin := (Arena.put_eq_ok_iff.mp hput).1
      omega
    · refine (hab.stampEnd ending).bind fun a b hab => ?_
      refine ((hs.with_arena hab hs.buckets hs.rover_eq).coalesce block).shown
        fun start h g hs => ?_
      exact (hs.file start).bind fun h g hs => .reply hs

/-- Putting a block back and the shifted one keeps heaps shifted. -/
theorem releaseBlock (hs : h.Shifted k past g) (block : Nat) :
    Follows (Shifted k past) (h.releaseBlock block).outcome
      (g.releaseBlock (block + k)).outcome := by
  unfold Heap.releaseBlock
  simp only [Run.outcome_bind, Run.outcome_liftM]
  refine (hs.arena.sizeOf block).eq_bind fun size =>
    (hs.arena.stamp block _).bind fun a b hab => ?_
  refine ((hs.with_arena hab hs.buckets hs.rover_eq).coalesce block).shown fun start h g hs => ?_
  exact (hs.arena.sizeOf start).eq_bind fun size => (hs.buckets.refile start size).bind
    fun s t hst => .ok (hs.with_arena hs.arena hst hs.rover_eq)

end Heap.Shifted

end SegregatedFit
