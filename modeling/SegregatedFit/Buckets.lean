import SegregatedFit.SizeClass
import SegregatedFit.Walk
import Std.Data.TreeMap

/-!
# Buckets

The free blocks are filed in one doubly linked list per size class, newest first. The links
of a block are kept in a table by offset, not in the block, and a block is listed exactly
while the table has an entry for it. The operations follow the links that they find, so they
are defined on any table: links that name no bucket and lengths that leave the range of a word
are faults, and a bucket whose links run in a circle shows as an endless walk.
-/

namespace SegregatedFit

/-- What the table knows of a listed block. -/
structure Links where
  /-- The block filed after it. -/
  prev : Option Nat
  /-- The block filed before it. -/
  next : Option Nat
  /-- The number of the bucket it was filed in. -/
  bucket : Nat
  deriving DecidableEq

/-- The links of all listed blocks, by offset. -/
abbrev LinkTable : Type := Std.TreeMap Nat Links

namespace LinkTable

/-- Changes what a block has in front of it. Without a block nothing changes. -/
def setPrev (t : LinkTable) (block prev : Option Nat) : LinkTable :=
  match block with
  | some b => t.modify b fun l => { l with prev }
  | none => t

/-- Changes what a block has behind it. Without a block nothing changes. -/
def setNext (t : LinkTable) (block next : Option Nat) : LinkTable :=
  match block with
  | some b => t.modify b fun l => { l with next }
  | none => t

/-- Lets the neighbours of a block that had the links `l` have each other as neighbours. -/
def bypass (t : LinkTable) (l : Links) : LinkTable :=
  (t.setNext l.prev l.next).setPrev l.next l.prev

private theorem getElem?_setPrev (t : LinkTable) (block prev : Option Nat) (x : Nat) :
    (t.setPrev block prev)[x]? =
      if block = some x then (t[x]?).map fun l => { l with prev } else t[x]? := by
  cases block with
  | none => simp [setPrev]
  | some b =>
    by_cases hb : b = x
    · simp [setPrev, hb]
    · simp [setPrev, Std.TreeMap.getElem?_modify, hb]

private theorem getElem?_setNext (t : LinkTable) (block next : Option Nat) (x : Nat) :
    (t.setNext block next)[x]? =
      if block = some x then (t[x]?).map fun l => { l with next } else t[x]? := by
  cases block with
  | none => simp [setNext]
  | some b =>
    by_cases hb : b = x
    · simp [setNext, hb]
    · simp [setNext, Std.TreeMap.getElem?_modify, hb]

end LinkTable

/-- The buckets: a first block and a length for each, and the links of all blocks. -/
structure Buckets where
  /-- The newest block of each bucket. -/
  heads : Vector (Option Nat) classCount
  /-- The number of blocks in each bucket. -/
  lengths : Vector Nat classCount
  /-- The links of every listed block. -/
  links : LinkTable

namespace Buckets

/-- Buckets without blocks. -/
def empty : Buckets := ⟨Vector.replicate classCount none, Vector.replicate classCount 0, ∅⟩

/-- The newest block of a bucket. -/
def head (s : Buckets) (c : SizeClass) : Option Nat := s.heads[c]

/-- How many blocks were filed in a bucket and not taken out again. -/
def length (s : Buckets) (c : SizeClass) : Nat := s.lengths[c]

/-- The links of a block, if it is listed. -/
def linksOf (s : Buckets) (block : Nat) : Option Links := s.links[block]?

/-- Whether a block is listed. -/
def contains (s : Buckets) (block : Nat) : Bool := s.links.contains block

/-- How many blocks are listed. -/
def size (s : Buckets) : Nat := s.links.size

/-- The buckets with one more block, of a given size and first in its bucket. -/
def withFirst (s : Buckets) (block size : Nat) : Buckets :=
  let ⟨heads, lengths, links⟩ := s
  let c := SizeClass.ofSize size
  let first := heads[c]
  { heads := heads.set c (some block)
    lengths := lengths.set c (lengths[c] + 1)
    links := (links.setPrev first (some block)).insert block ⟨none, first, c⟩ }

/-- Files a block of a given size first in its bucket, which then has one block more. -/
def push (s : Buckets) (block size : Nat) : Except Fault Buckets := do
  let _ ← Word.add (s.length (.ofSize size)) 1
  return s.withFirst block size

/-- Takes a block out of its bucket and joins its neighbours. Answers the links it had. -/
def erase (s : Buckets) (block : Nat) : Except Fault (Option Links × Buckets) :=
  match s.links[block]? with
  | none => .ok (none, s)
  | some l => do
    let ⟨heads, lengths, links⟩ := s
    let c ← SizeClass.ofNumber l.bucket
    let length ← Word.sub lengths[c] 1
    return (some l,
      { heads := if l.prev = none then heads.set c l.next else heads
        lengths := lengths.set c length
        links := LinkTable.bypass (links.erase block) l })

/-- Files a block by a new size, wherever it was before. -/
def refile (s : Buckets) (block size : Nat) : Except Fault Buckets := do
  let (_, s) ← s.erase block
  s.push block size

/-- Follows links for a number of steps. What is left then lies on a circle. -/
def follow (links : LinkTable) : Nat → Option Nat → Walk Nat
  | _, none => .done
  | 0, some _ => .broken .endless
  | steps + 1, some block =>
    .cons block (follow links steps ((links[block]?).bind fun l => l.next))

/-- The blocks of a bucket, newest first. An offset that is not listed ends the walk. A walk
of more steps than there are entries has met an entry twice and never ends. -/
def walk (s : Buckets) (c : SizeClass) : Walk Nat := follow s.links (s.size + 1) (s.head c)

/-- The blocks of all buckets, smallest class first. -/
def walkAll (s : Buckets) : Walk Nat := .concat (SizeClass.all.map s.walk)

/-- No bucket of the empty registry has a first block. -/
@[simp] theorem head_empty (c : SizeClass) : empty.head c = none := by
  simp [head, empty]

/-- Every bucket of the empty registry has length zero. -/
@[simp] theorem length_empty (c : SizeClass) : empty.length c = 0 := by
  simp [length, empty]

/-- No block has links in the empty registry. -/
@[simp] theorem linksOf_empty (x : Nat) : empty.linksOf x = none := by
  simp [linksOf, empty]

/-- A block is listed exactly while it has links. -/
theorem contains_eq_isSome (s : Buckets) (x : Nat) : s.contains x = (s.linksOf x).isSome :=
  Std.TreeMap.contains_eq_isSome_getElem?

/-- Putting a block first changes the head of the bucket of its size only. -/
theorem head_withFirst (s : Buckets) (block size : Nat) (c : SizeClass) :
    (s.withFirst block size).head c =
      if SizeClass.ofSize size = c then some block else s.head c := by
  simp only [withFirst, head, Fin.getElem_fin, Vector.getElem_set, Fin.ext_iff]

/-- Putting a block first makes the bucket of its size longer by one. -/
theorem length_withFirst (s : Buckets) (block size : Nat) (c : SizeClass) :
    (s.withFirst block size).length c =
      if SizeClass.ofSize size = c then s.length c + 1 else s.length c := by
  simp only [withFirst, length, Fin.getElem_fin, Vector.getElem_set, Fin.ext_iff]
  split
  · next h => simp only [h]
  · rfl

/-- Filing a block gives it links, and makes it the neighbour of the block that was first. -/
theorem linksOf_withFirst (s : Buckets) (block size x : Nat) :
    (s.withFirst block size).linksOf x =
      if x = block then some ⟨none, s.head (SizeClass.ofSize size), SizeClass.ofSize size⟩
      else if s.head (SizeClass.ofSize size) = some x then
        (s.linksOf x).map fun l => { l with prev := some block }
      else s.linksOf x := by
  simp only [withFirst, linksOf, head, Fin.getElem_fin, Std.TreeMap.getElem?_insert,
    LinkTable.getElem?_setPrev, Std.LawfulEqCmp.compare_eq_iff_eq]
  by_cases hx : block = x
  · rw [if_pos hx, if_pos hx.symm]
  · rw [if_neg hx, if_neg (Ne.symm hx)]
    rfl

/-- A block can be filed exactly if its bucket's new length is a word. -/
theorem push_eq_ok_iff {s t : Buckets} {block size : Nat} :
    s.push block size = .ok t ↔
      s.length (.ofSize size) + 1 < wordLimit ∧ t = s.withFirst block size := by
  simp only [push, Fault.bind_eq_ok_iff, Word.add_eq_ok_iff, Fault.pure_eq_ok, Except.ok.injEq]
  constructor
  · rintro ⟨_, ⟨hroom, -⟩, rfl⟩
    exact ⟨hroom, rfl⟩
  · rintro ⟨hroom, rfl⟩
    exact ⟨_, ⟨hroom, rfl⟩, rfl⟩

/-- A bucket whose length is the largest word takes no more blocks. -/
theorem push_of_full {s : Buckets} {block size : Nat}
    (h : ¬ s.length (.ofSize size) + 1 < wordLimit) : s.push block size = .error .overflow := by
  rw [push, Word.add, Word.ofNat, if_neg h]
  rfl

/-- Taking out a block that is not listed does nothing. -/
theorem erase_of_linksOf_eq_none {s : Buckets} {block : Nat} (h : s.linksOf block = none) :
    s.erase block = .ok (none, s) := by
  unfold linksOf at h
  simp [erase, h]

/-- A listed block can be taken out exactly if its links name a bucket that has a block by its
length. -/
theorem erase_of_linksOf_eq_some {s t : Buckets} {block : Nat} {l : Links} {r : Option Links}
    (hl : s.linksOf block = some l) :
    s.erase block = .ok (r, t) ↔
      ∃ c : SizeClass, l.bucket = c ∧ 0 < s.length c ∧ r = some l ∧ t =
        { heads := if l.prev = none then s.heads.set c l.next else s.heads
          lengths := s.lengths.set c (s.length c - 1)
          links := LinkTable.bypass (s.links.erase block) l } := by
  unfold linksOf at hl
  simp only [erase, hl, Fault.bind_eq_ok_iff, SizeClass.ofNumber_eq_ok_iff, Word.sub_eq_ok_iff,
    length]
  constructor
  · rintro ⟨c, hc, _, ⟨hpos, rfl⟩, heq⟩
    cases heq
    exact ⟨c, hc.symm, hpos, rfl, rfl⟩
  · rintro ⟨c, hc, hpos, rfl, rfl⟩
    exact ⟨c, hc.symm, _, ⟨hpos, rfl⟩, rfl⟩

/-- Only the bucket that the links of the block name has one block less. -/
theorem length_erase {s t : Buckets} {block : Nat} {l : Links}
    (h : s.erase block = .ok (some l, t)) (c : SizeClass) :
    t.length c = if l.bucket = c then s.length c - 1 else s.length c := by
  cases hl : s.linksOf block with
  | none =>
    rw [erase_of_linksOf_eq_none hl] at h
    cases h
  | some k =>
    obtain ⟨d, hd, -, heq, rfl⟩ := (erase_of_linksOf_eq_some hl).mp h
    cases heq
    simp only [hd, length, Fin.getElem_fin, Vector.getElem_set, ← Fin.ext_iff]
    split
    · next hc => simp only [hc]
    · rfl

/-- A block without one in front of it leaves its bucket to the block behind it. -/
theorem head_erase {s t : Buckets} {block : Nat} {l : Links}
    (h : s.erase block = .ok (some l, t)) (c : SizeClass) :
    t.head c = if l.prev = none ∧ l.bucket = c then l.next else s.head c := by
  cases hl : s.linksOf block with
  | none =>
    rw [erase_of_linksOf_eq_none hl] at h
    cases h
  | some k =>
    obtain ⟨d, hd, -, heq, rfl⟩ := (erase_of_linksOf_eq_some hl).mp h
    cases heq
    by_cases hp : l.prev = none
    · simp only [hd, head, hp, if_true, true_and, Fin.getElem_fin, Vector.getElem_set]
    · simp only [head, hp, if_false, false_and]

/-- After a block is taken out, its neighbours have each other as neighbours. -/
theorem linksOf_erase {s t : Buckets} {block : Nat} {l : Links}
    (h : s.erase block = .ok (some l, t)) (x : Nat) :
    t.linksOf x =
      if x = block then none
      else (s.linksOf x).map fun m =>
        { m with
          prev := if l.next = some x then l.prev else m.prev
          next := if l.prev = some x then l.next else m.next } := by
  cases hl : s.linksOf block with
  | none =>
    rw [erase_of_linksOf_eq_none hl] at h
    cases h
  | some k =>
    obtain ⟨d, -, -, heq, rfl⟩ := (erase_of_linksOf_eq_some hl).mp h
    cases heq
    simp only [linksOf, LinkTable.bypass, LinkTable.getElem?_setPrev,
      LinkTable.getElem?_setNext, Std.TreeMap.getElem?_erase, Std.LawfulEqCmp.compare_eq_iff_eq,
      @eq_comm _ block]
    by_cases hx : x = block
    · simp [hx]
    · cases s.links[x]? with
      | none => simp [hx]
      | some m =>
        by_cases hn : l.next = some x <;> by_cases hp : l.prev = some x <;> simp [hx, hn, hp]

end Buckets

end SegregatedFit
