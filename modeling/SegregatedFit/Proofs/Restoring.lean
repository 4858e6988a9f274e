import SegregatedFit.Heap.Call
import SegregatedFit.Proofs.Moving

/-!
# Giving back undoes carving

A free block that was carved has blocks in use beside it. So when the part in use is given back
it is merged with what was left of the block and with nothing else, and the block is there again.
Its tags are the same words as before. Of its payload no more has changed than what was written
in between and the two tags at the cut, and in its list it is now in front of all others.
-/

namespace SegregatedFit

/-- The lists after a free block has left them and has come back. -/
def Filing.raise (f : Filing) (b : Block) : Filing :=
  (f.drop b.start).push b.start (SizeClass.ofSize b.size)

/-- What was filed last is taken out again. -/
theorem Filing.push_drop {f : Filing} {x : Nat} (hx : ∀ c, x ∉ f c) (c : SizeClass) :
    (f.push x c).drop x = f := by
  funext d
  unfold drop push
  split
  · exact List.erase_cons_head x (f d)
  · exact List.erase_of_not_mem (hx d)

/-- A raised block comes first in the list of its class, and all other lists are as before. -/
theorem Filing.raise_eq {f : Filing} {bs : List Block} {b : Block} (hf : f.Of bs)
    (hnodup : (bs.map Block.start).Nodup) (hb : b ∈ bs) (c : SizeClass) :
    f.raise b c = if c = SizeClass.ofSize b.size then b.start :: (f c).erase b.start else f c := by
  unfold raise push drop
  split
  · rfl
  · next hne =>
    apply List.erase_of_not_mem
    intro hmem
    obtain ⟨d, hd, -, hstart, hclass⟩ := (hf c b.start).mp hmem
    obtain rfl := List.inj_on_of_nodup_map hnodup hd hb hstart
    exact hne hclass.symm

namespace Block

variable {b : Block} {xs ys : List Block} {need j : Nat}

private theorem below_eq_none (h : ClosedBelow xs) : below xs = none := by
  unfold below
  rw [Option.filter_eq_none_iff]
  exact fun p hp => Bool.eq_false_iff.mp (h p hp)

private theorem trimEnd_eq_self (h : ClosedBelow xs) : trimEnd xs = xs := by
  rw [trimEnd, below_eq_none h]
  rfl

/-- A free block at the end is the one that trimming takes off. -/
theorem below_concat (hb : b.isFree = true) : below (xs ++ [b]) = some b := by
  simp [below, hb]

/-- Trimming takes a free block off the end. -/
theorem trimEnd_concat (hb : b.isFree = true) : trimEnd (xs ++ [b]) = xs := by
  have hsplit := trimEnd_append (xs ++ [b])
  rw [below_concat hb] at hsplit
  exact List.append_cancel_right hsplit

/-- In front of blocks in use, a free block is the one that is merged. -/
theorem above_append {r : Option Block} (hr : ∀ c ∈ r, c.isFree = true) (h : ClosedAbove ys) :
    above (r.toList ++ ys) = r := by
  unfold above
  cases r with
  | none =>
    rw [Option.toList_none, List.nil_append, Option.filter_eq_none_iff]
    exact fun p hp => Bool.eq_false_iff.mp (h p hp)
  | some c =>
    rw [Option.toList_some, List.singleton_append, List.head?_cons]
    exact Option.filter_some_pos (hr c rfl)

private theorem trimStart_append {r : Option Block} (hr : ∀ c ∈ r, c.isFree = true)
    (h : ClosedAbove ys) : trimStart (r.toList ++ ys) = ys := by
  have hsplit := append_trimStart (r.toList ++ ys)
  rw [above_append hr h] at hsplit
  exact List.append_cancel_left hsplit

/-- The parts of a carved block are as large as the block. -/
theorem size_taken_add_rest? (hfit : need ≤ b.size) :
    (b.taken need).size + totalSize (b.rest? need).toList = b.size := by
  unfold taken rest?
  split
  · simp
    omega
  · simp

private theorem inPayload_of_taken (hfit : need ≤ b.size) (hj : (b.taken need).InPayload j) :
    b.InPayload j := by
  have hle := size_taken_add_rest? hfit
  have hstart := b.start_taken need
  unfold InPayload at hj ⊢
  omega

end Block

/-- The calls that write through a pointer: from a position on, so many bytes, and which. -/
def Call.writes (p : Nat) (ws : List (Nat × Nat × (Nat → UInt8))) : List Call :=
  ws.map fun w => .write p w.1 w.2.1 w.2.2

namespace Heap

variable {h h' : Heap} {xs ys : List Block} {b : Block} {f : Filing} {need : Nat}
  {P Q : Nat → Prop}

/-- `h'` is `h` with `need` bytes of the free block `b` in use, and with other bytes at `P`. -/
structure Lends (h : Heap) (xs : List Block) (b : Block) (ys : List Block) (f : Filing)
    (need : Nat) (P : Nat → Prop) (h' : Heap) : Prop where
  holds : h'.Holds (xs ++ b.taken need :: ((b.rest? need).toList ++ ys)) (f.carve b need)
  edited : h.arena.Edited h'.arena fun j => b.OnCut need j ∨ P j
  alike : h.Alike h'
  rover_eq : h'.rover = h.rover

/-- `h'` is `h` again, but for the bytes at `P` and at the cut of the free block `b`, and for the
place of `b` in its list. -/
structure Reverts (h : Heap) (bs : List Block) (b : Block) (f : Filing) (need : Nat)
    (P : Nat → Prop) (h' : Heap) : Prop where
  holds : h'.Holds bs (f.raise b)
  edited : h.arena.Edited h'.arena fun j => b.OnSeam need j ∨ P j
  alike : h.Alike h'
  rover_eq : h'.rover = h.rover

/-- A carved block is lent, with nothing written but the cut. -/
theorem Carves.lends (hc : h.Carves xs b ys f need h') :
    h.Lends xs b ys f need (fun _ => False) h' :=
  ⟨hc.holds, hc.edited.mono fun _ hj => Or.inl hj, hc.alike, hc.rover_eq⟩

private theorem Lends.mono (hl : h.Lends xs b ys f need P h') (hPQ : ∀ j, P j → Q j) :
    h.Lends xs b ys f need Q h' :=
  ⟨hl.holds, hl.edited.mono fun j hj => hj.imp id (hPQ j), hl.alike, hl.rover_eq⟩

/-- A write through the pointer stays inside the block. -/
theorem Lends.write (hl : h.Lends xs b ys f need P h') (hfit : need ≤ b.size)
    (position count : Nat) (g : Nat → UInt8) :
    ∃ written h'', (h'.perform (.write b.start position count g)).outcome =
        .ok (.written (.ok written), h'') ∧
      h.Lends xs b ys f need (fun j => P j ∨ b.InPayload j) h'' := by
  have hmem := hl.holds.divided.mem_middle
  obtain ⟨hnames, hblock⟩ := hl.holds.names hmem (Block.isFree_taken b need)
  rw [Block.start_taken] at hnames hblock
  obtain ⟨a, written, hrun, hedit, -⟩ := hnames.writePayload position count g
  rw [hblock] at hedit
  obtain ⟨hholds, -⟩ := hl.holds.overwrite hmem hedit
  refine ⟨written, _, by simp [Heap.perform, hrun], hholds, ?_, ?_, hl.rover_eq⟩
  · refine (hl.edited.trans hedit).mono fun j hj => ?_
    have hinside := Block.inPayload_of_taken (b := b) (j := j) hfit
    tauto
  · exact hl.alike.trans ⟨rfl, rfl, hedit.limit_eq⟩

/-- However much is written through the pointer, it stays inside the block. -/
theorem Lends.writes (hl : h.Lends xs b ys f need P h') (hfit : need ≤ b.size)
    (ws : List (Nat × Nat × (Nat → UInt8))) :
    ∃ (counts : List Nat) (h'' : Heap), (h'.performAll (Call.writes b.start ws)).outcome =
        .ok (counts.map fun n => .written (.ok n), h'') ∧
      h.Lends xs b ys f need (fun j => P j ∨ ws ≠ [] ∧ b.InPayload j) h'' := by
  induction ws generalizing h' P with
  | nil => exact ⟨[], h', rfl, hl.mono fun _ => Or.inl⟩
  | cons w rest ih =>
    obtain ⟨written, h₁, hwrite, hl₁⟩ := hl.write hfit w.1 w.2.1 w.2.2
    obtain ⟨counts, h'', hrun, hl''⟩ := ih hl₁
    refine ⟨written :: counts, h'', ?_, hl''.mono fun j hj => ?_⟩
    · rw [Call.writes] at hrun
      simp only [Call.writes, List.map_cons, performAll, Run.outcome_bind, hwrite, hrun,
        Run.outcome_pure, Fault.ok_bind]
    · have hne : w :: rest ≠ [] := List.cons_ne_nil w rest
      tauto

/-- The part in use and what was left of a block are joined to the block. -/
theorem Holds.joined_taken (hh : h.Holds (xs ++ b :: ys) f) (hb : b.isFree = true)
    (hfit : need ≤ b.size) (halike : h.Alike h') :
    h'.joined xs (b.taken need).freed ((b.rest? need).toList ++ ys) = b := by
  obtain ⟨hbelow, habove⟩ := hh.spaced.beside_free hb
  have hfirst : h'.first = h.first := congrArg (· + wordBytes) halike.prologue_eq
  have hsize := Block.size_taken_add_rest? hfit
  rw [joined, merged, Block.trimEnd_eq_self hbelow, Block.below_eq_none hbelow,
    Block.above_append (fun r hr => Block.isFree_of_rest? hr) habove, hfirst,
    ← hh.divided.start_eq, Option.toList_none, List.nil_append, Block.totalSize_cons,
    Block.size_freed, hsize]
  exact (Block.eq_of_isFree hb).symm

/-- Filing what was left of a block is undone when it is merged. -/
theorem Lends.merge_eq (hl : h.Lends xs b ys f need P h') (hh : h.Holds (xs ++ b :: ys) f)
    (hb : b.isFree = true) :
    (f.carve b need).merge (besides xs ((b.rest? need).toList ++ ys)) b = f.raise b := by
  obtain ⟨hbelow, habove⟩ := hh.spaced.beside_free hb
  have hdivided := hl.holds.divided
  rw [besides, Block.below_eq_none hbelow,
    Block.above_append (fun r hr => Block.isFree_of_rest? hr) habove, Filing.carve]
  cases hrest : b.rest? need with
  | none => rfl
  | some r =>
    rw [hrest] at hdivided
    have hmoved : h'.arena.Divided h'.first ((xs ++ [b.taken need]) ++ r :: ys) := by
      simpa using hdivided
    have hunfiled (c : SizeClass) : r.start ∉ f.drop b.start c := by
      intro hmem
      obtain ⟨d, hd, -, hstart, -⟩ := (hh.filed_without c r.start).mp hmem
      refine hmoved.start_ne ?_ hstart
      rcases List.mem_append.mp hd with hd | hd
      · exact List.mem_append_left _ (List.mem_append_left _ hd)
      · exact List.mem_append_right _ hd
    have hback := Filing.push_drop hunfiled (SizeClass.ofSize r.size)
    exact congrArg (Filing.push · b.start (SizeClass.ofSize b.size)) hback

/-- The bytes of a block that is there again are those from before, but for the cut. -/
theorem Lends.edited_of_release (hl : h.Lends xs b ys f need P h') {a : Arena} {first : Nat}
    (hh : h.Holds (xs ++ b :: ys) f) (ha : a.Divided first (xs ++ b :: ys))
    (hle : 48 ≤ need) (hfit : need ≤ b.size)
    (hedit : h'.arena.Edited a fun j => (b.taken need).OnTag j ∨ b.OnTag j) :
    h.arena.Edited a fun j => b.OnSeam need j ∨ P j := by
  have hproper := hh.divided.proper hh.divided.mem_middle
  have hbounds := hh.divided.bounds hh.divided.mem_middle
  have hfirst := hh.divided.le_first
  have hall := hl.edited.trans hedit
  refine ⟨hall.size_eq, hall.granted_eq, hall.limit_eq, fun j hj => ?_⟩
  obtain ⟨hseam, hP⟩ := not_or.mp hj
  by_cases htag : b.OnTag j
  · exact (hh.divided.tiled.marks hh.divided.mem_middle).read_eq
      (ha.tiled.marks ha.mem_middle) (by omega) hproper htag
  · have hcut : ¬ b.OnCut need j := fun hcut =>
      (Block.onTag_or_onSeam hle hfit hcut).elim htag hseam
    apply hall.read_eq j
    rintro ((hj | hj) | hj | hj)
    · exact hcut hj
    · exact hP hj
    · exact hcut (Or.inl hj)
    · exact htag hj

/-- When the part in use is given back, the heap is as it was. -/
theorem Lends.release (hl : h.Lends xs b ys f need P h') (hh : h.Holds (xs ++ b :: ys) f)
    (hb : b.isFree = true) (hle : 48 ≤ need) (hfit : need ≤ b.size) :
    ∃ h'', (h'.release (some b.start)).outcome = .ok (.ok (), h'') ∧
      h.Reverts (xs ++ b :: ys) b f need P h'' := by
  obtain ⟨hbelow, habove⟩ := hh.spaced.beside_free hb
  have hrest (r : Block) (hr : r ∈ b.rest? need) : r.isFree = true := Block.isFree_of_rest? hr
  obtain ⟨h'', hrun, hholds, hedit, halike, hrover, -⟩ := hl.holds.releaseBlock rfl
  have hhome := hl.holds.roverAfter_eq_home hholds halike
  rw [hh.joined_taken hb hfit hl.alike, Block.trimEnd_eq_self hbelow,
    Block.trimStart_append hrest habove] at hholds hhome
  rw [hh.joined_taken hb hfit hl.alike] at hedit
  rw [hl.merge_eq hh hb] at hholds
  have hused : b.taken need ∈ Block.inUse (xs ++ b.taken need :: ((b.rest? need).toList ++ ys)) :=
    Block.mem_inUse_iff.mpr ⟨hl.holds.divided.mem_middle, rfl⟩
  have hrelease := hl.holds.release_of_block hused hrun hholds.le_prologue
  refine ⟨h'', hrelease, hholds, hl.edited_of_release hh hholds.divided hle hfit hedit,
    hl.alike.trans halike, ?_⟩
  rw [hrover, Block.trimEnd_eq_self hbelow, hhome, hl.rover_eq]
  exact hh.home_rover

/-- What getting a block for a request and giving it back makes of a heap: a free block that was
chosen is there again, and a block that the heap has grown for stays free at the end. -/
inductive Returns (h : Heap) (bs : List Block) (f : Filing) (request : Nat) :
    Nat → Heap → Prop
  | kept {b : Block} {h' : Heap} : h.choice bs f (blockSize request) = some b →
      (h.searched (some b)).Reverts bs b f (blockSize request) (fun _ => False) h' →
      Returns h bs f request b.start h'
  | grown {f' : Filing} {h' : Heap} : h.choice bs f (blockSize request) = none →
      h'.Holds (Block.trimEnd bs ++ [h.grownFor bs (blockSize request)]) f' →
      h.Alike h' → h'.arena.size = h.arena.size + h.growth (blockSize request) →
      Returns h bs f request (h.grownFor bs (blockSize request)).start h'

/-- A block that a request got can be given back, and the arena stays as long as it is. -/
theorem Allocates.returns {request p : Nat} {bs : List Block}
    (ha : h.Allocates bs f request (.ok p) h') (hh : h.Holds bs f) :
    ∃ h'', (h'.release (some p)).outcome = .ok (.ok (), h'') ∧
      h''.arena.size = h'.arena.size ∧ h.Returns bs f request p h'' := by
  obtain ⟨-, -, hlarge⟩ := blockSize_spec request
  have hroved := hh.searched (blockSize request)
  cases ha with
  | chosen hsplit hchoice hcarves =>
    subst hsplit
    obtain ⟨-, hfree, hfit⟩ := hh.mem_of_choice hchoice
    rw [hchoice] at hroved
    obtain ⟨h'', hrelease, hreverts⟩ := hcarves.lends.release hroved hfree hlarge hfit
    exact ⟨h'', hrelease, hreverts.edited.size_eq.trans hcarves.edited.size_eq.symm,
      .kept hchoice hreverts⟩
  | grown hchoice _ hextends hcarves =>
    obtain ⟨h'', hrelease, hreverts⟩ :=
      hcarves.lends.release hextends.holds rfl hlarge (h.le_size_grownFor ..)
    have hsame : h''.arena.size = h'.arena.size :=
      hreverts.edited.size_eq.trans hcarves.edited.size_eq.symm
    exact ⟨h'', hrelease, hsame, .grown hchoice hreverts.holds
      ((h.alike_searched none).trans (hextends.alike.trans hreverts.alike))
      (hsame.trans (hh.size_of_grown hchoice hextends hcarves))⟩

end Heap

end SegregatedFit
