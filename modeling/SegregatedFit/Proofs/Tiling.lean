import Mathlib.Data.List.Nodup
import SegregatedFit.Heap.Totals

/-!
# Arenas divided into blocks

An arena in good order is a prologue word, blocks that lie one behind the other, and a word
that ends them. Each block stands between two equal tags, so the blocks are found from
either side. Whatever rewrites one stretch of such an arena only has to tile that stretch
again: everything outside it is kept (`Arena.Divided.replace`).
-/

namespace SegregatedFit

namespace Tag

/-- A tag of a block in use has the size it was made with. -/
@[simp] theorem size_used (n : Nat) : (used n).size = n := rfl

/-- A tag of a free block has the size it was made with. -/
@[simp] theorem size_free (n : Nat) : (free n).size = n := rfl

/-- A tag of a block in use says so. -/
@[simp] theorem allocated_used (n : Nat) : (used n).allocated = true := rfl

/-- A tag of a free block says so. -/
@[simp] theorem allocated_free (n : Nat) : (free n).allocated = false := rfl

end Tag

namespace Block

/-- A block has the size in its tag. -/
@[simp] theorem size_mk (start : Nat) (tag : Tag) : size ⟨start, tag⟩ = tag.size := rfl

/-- A block is free if its tag does not say it is allocated. -/
@[simp] theorem isFree_mk (start : Nat) (tag : Tag) : isFree ⟨start, tag⟩ = !tag.allocated := rfl

/-- A free block is given by its start and its size. -/
theorem eq_of_isFree {b : Block} (h : b.isFree = true) : b = ⟨b.start, .free b.size⟩ := by
  obtain ⟨start, size, allocated⟩ := b
  cases allocated with
  | false => rfl
  | true => cases h

/-- A block in use is given by its start and its size. -/
theorem eq_of_used {b : Block} (h : b.isFree = false) : b = ⟨b.start, .used b.size⟩ := by
  obtain ⟨start, size, allocated⟩ := b
  cases allocated with
  | false => cases h
  | true => rfl

/-- A block in use has a tag that is given by its size. -/
theorem tag_of_used {b : Block} (h : b.isFree = false) : b.tag = .used b.size :=
  congrArg tag (eq_of_used h)

/-- The total size of two stretches is the sum of theirs. -/
@[simp] theorem totalSize_append (xs ys : List Block) :
    totalSize (xs ++ ys) = totalSize xs + totalSize ys := by
  induction xs with
  | nil => simp
  | cons b rest ih => simp [ih, Nat.add_assoc]

/-- The blocks that pass a test and those that fail it add up to all blocks. -/
theorem totalSize_filter_add (p : Block → Bool) (bs : List Block) :
    totalSize (bs.filter p) + totalSize (bs.filter fun b => !p b) = totalSize bs := by
  induction bs with
  | nil => rfl
  | cons b rest ih =>
    rw [totalSize_cons, ← ih]
    cases hb : p b
    · simp only [List.filter_cons, hb, Bool.not_false, if_true, Bool.false_eq_true, if_false,
        totalSize_cons]
      omega
    · simp only [List.filter_cons, hb, Bool.not_true, if_true, Bool.false_eq_true, if_false,
        totalSize_cons]
      omega

/-- Some of the blocks have at most the size of all of them. -/
theorem totalSize_filter_le (p : Block → Bool) (bs : List Block) :
    totalSize (bs.filter p) ≤ totalSize bs :=
  Nat.le.intro (totalSize_filter_add p bs)

/-- A block that a request can lead to: whole granules, and no fewer than three. -/
structure Proper (b : Block) : Prop where
  size_mod : b.size % 16 = 0
  le_size : 48 ≤ b.size

/-- The positions of a block: from its header to the end of its footer. -/
def InSpan (b : Block) (j : Nat) : Prop := b.start - 8 ≤ j ∧ j < b.start + b.size - 8

/-- The positions of a block's payload. -/
def InPayload (b : Block) (j : Nat) : Prop := b.start ≤ j ∧ j < b.start + b.size - 16

/-- The positions of a block's header and footer. -/
def OnTag (b : Block) (j : Nat) : Prop :=
  (b.start - 8 ≤ j ∧ j < b.start) ∨ (b.start + b.size - 16 ≤ j ∧ j < b.start + b.size - 8)

/-- The bytes of one block are all bytes of another. -/
def Covers (b c : Block) : Prop := b.start ≤ c.start ∧ c.start + c.size ≤ b.start + b.size

/-- Where the block starts that an offset lies in, or the offset itself if it lies in none. -/
def home (bs : List Block) (x : Nat) : Nat :=
  ((bs.find? fun b => decide (b.start ≤ x ∧ x < b.start + b.size)).map start).getD x

/-- A block covers itself. -/
theorem Covers.refl (b : Block) : b.Covers b := ⟨Nat.le_refl _, Nat.le_refl _⟩

/-- A block covers what the blocks it covers cover. -/
theorem Covers.trans {b c d : Block} (h : b.Covers c) (h' : c.Covers d) : b.Covers d :=
  ⟨Nat.le_trans h.1 h'.1, Nat.le_trans h'.2 h.2⟩

/-- An offset in no block is its own home. -/
theorem home_eq_self {bs : List Block} {x : Nat}
    (h : ∀ b ∈ bs, ¬ (b.start ≤ x ∧ x < b.start + b.size)) : home bs x = x := by
  have hnone : bs.find? (fun b => decide (b.start ≤ x ∧ x < b.start + b.size)) = none := by
    rw [List.find?_eq_none]
    exact fun b hb => by simpa using h b hb
  rw [home, hnone]
  rfl

/-- The tags of a block are at its two ends. -/
theorem Proper.inSpan {b : Block} {j : Nat} (h : b.Proper) (hj : b.OnTag j) : b.InSpan j := by
  have hsize := h.le_size
  unfold OnTag at hj
  unfold InSpan
  omega

end Block

/-- A word is determined by its eight bytes. -/
theorem Memory.wordAt_congr {m n : Memory} {offset : Nat}
    (h : ∀ j, offset ≤ j → j < offset + 8 → n.read j = m.read j) :
    n.wordAt offset = m.wordAt offset :=
  LittleEndian.decode_congr fun k (hk : k < 8) => h _ (by omega) (by omega)

/-- The bytes of a word are determined by it. -/
theorem Memory.read_eq_of_wordAt_eq {m n : Memory} {offset j : Nat}
    (h : n.wordAt offset = m.wordAt offset) (hlow : offset ≤ j) (hhigh : j < offset + 8) :
    n.read j = m.read j := by
  have hbyte := LittleEndian.decode_inj h (j - offset) (show j - offset < 8 by omega)
  rwa [Nat.add_sub_cancel' hlow] at hbyte

namespace Arena

/-- The header and the footer of a block are in the arena. -/
structure Marks (a : Arena) (b : Block) : Prop where
  header : a.memory.wordAt (b.start - 8) = b.tag.toWord
  footer : a.memory.wordAt (b.start + b.size - 16) = b.tag.toWord

/-- Blocks that lie one behind the other from `start` up to `stop`, with their tags. -/
def Tiled (a : Arena) : Nat → List Block → Nat → Prop
  | start, [], stop => start = stop
  | start, b :: rest, stop =>
    (b.start = start ∧ b.Proper ∧ a.Marks b) ∧ a.Tiled (start + b.size) rest stop

/-- An arena whose blocks from `first` on are `bs`: a prologue lies in front of them and the
tag that ends them behind. The bytes from the prologue on are those that were granted. -/
structure Divided (a : Arena) (first : Nat) (bs : List Block) : Prop where
  le_first : 16 ≤ first
  first_mod : first % 16 = 0
  prologue : a.memory.wordAt (first - 16) = Tag.prologue.toWord
  tiled : a.Tiled first bs a.size
  epilogue : a.memory.wordAt (a.size - 8) = Tag.epilogue.toWord
  granted_eq : first + a.granted = a.size + 16

variable {a a' : Arena} {start stop : Nat} {b c : Block} {bs xs ys mid mid' : List Block}

/-- Sizes and offsets inside an arena are far from the end of the words. -/
theorem size_lt (a : Arena) : a.size < 9223372036854775808 :=
  Nat.lt_of_le_of_lt a.memory.size_le_limit a.memory.limit_lt

/-- Whether a block is marked depends on the bytes of its tags only. -/
theorem Marks.congr (h : a.Marks b) (hstart : 8 ≤ b.start) (hproper : b.Proper)
    (hsame : ∀ j, b.OnTag j → a'.memory.read j = a.memory.read j) : a'.Marks b := by
  have hsize := hproper.le_size
  constructor
  · rw [← h.header]
    exact Memory.wordAt_congr fun j hlow hhigh => hsame j (Or.inl ⟨hlow, by omega⟩)
  · rw [← h.footer]
    exact Memory.wordAt_congr fun j hlow hhigh => hsame j (Or.inr ⟨hlow, by omega⟩)

/-- Two arenas that both mark a block have the same bytes where its tags are. -/
theorem Marks.read_eq {j : Nat} (h : a.Marks b) (h' : a'.Marks b) (hstart : 8 ≤ b.start)
    (hproper : b.Proper) (hj : b.OnTag j) : a'.memory.read j = a.memory.read j := by
  have hsize := hproper.le_size
  rcases hj with ⟨hlow, hhigh⟩ | ⟨hlow, hhigh⟩
  · exact Memory.read_eq_of_wordAt_eq (h'.header.trans h.header.symm) hlow (by omega)
  · exact Memory.read_eq_of_wordAt_eq (h'.footer.trans h.footer.symm) hlow (by omega)

/-- Two stretches tile a range if the second begins where the first ends. -/
theorem tiled_append :
    a.Tiled start (xs ++ ys) stop ↔
      a.Tiled start xs (start + Block.totalSize xs) ∧
        a.Tiled (start + Block.totalSize xs) ys stop := by
  induction xs generalizing start with
  | nil => simp [Tiled]
  | cons b rest ih => simp [Tiled, ih, Nat.add_assoc, and_assoc]

/-- A tiling ends behind its start by the total size of its blocks. -/
theorem Tiled.stop_eq (h : a.Tiled start bs stop) : stop = start + Block.totalSize bs := by
  induction bs generalizing start with
  | nil => exact h.symm
  | cons b rest ih =>
    rw [ih h.2, Block.totalSize_cons, Nat.add_assoc]

/-- A block of a tiling lies inside its bounds. -/
theorem Tiled.bounds (h : a.Tiled start bs stop) (hb : b ∈ bs) :
    start ≤ b.start ∧ b.start + b.size ≤ stop := by
  induction bs generalizing start with
  | nil => cases hb
  | cons c rest ih =>
    obtain ⟨⟨hstart, -, -⟩, hrest⟩ := h
    rcases List.mem_cons.mp hb with rfl | hb
    · have hstop := hrest.stop_eq
      omega
    · obtain ⟨hlow, hhigh⟩ := ih hrest hb
      exact ⟨by omega, hhigh⟩

/-- Every block of a tiling is a proper one. -/
theorem Tiled.proper (h : a.Tiled start bs stop) (hb : b ∈ bs) : b.Proper := by
  induction bs generalizing start with
  | nil => cases hb
  | cons c rest ih =>
    rcases List.mem_cons.mp hb with rfl | hb
    · exact h.1.2.1
    · exact ih h.2 hb

/-- Every block of a tiling has its tags in the arena. -/
theorem Tiled.marks (h : a.Tiled start bs stop) (hb : b ∈ bs) : a.Marks b := by
  induction bs generalizing start with
  | nil => cases hb
  | cons c rest ih =>
    rcases List.mem_cons.mp hb with rfl | hb
    · exact h.1.2.2
    · exact ih h.2 hb

/-- Blocks that follow a granule start at granules, and so does what follows them. -/
theorem Tiled.mod (h : a.Tiled start bs stop) (hstart : start % 16 = 0) :
    (∀ b ∈ bs, b.start % 16 = 0) ∧ stop % 16 = 0 := by
  induction bs generalizing start with
  | nil => exact ⟨List.forall_mem_nil _, h ▸ hstart⟩
  | cons c rest ih =>
    obtain ⟨⟨hc, hproper, -⟩, hrest⟩ := h
    have hsize := hproper.size_mod
    obtain ⟨hmem, hstop⟩ := ih hrest (by omega)
    refine ⟨fun b hb => ?_, hstop⟩
    rcases List.mem_cons.mp hb with rfl | hb
    · omega
    · exact hmem b hb

/-- A tiling depends on the bytes of its tags. -/
theorem Tiled.congr_tags (h : a.Tiled start bs stop) (hstart : 8 ≤ start)
    (hsame : ∀ b ∈ bs, ∀ j, b.OnTag j → a'.memory.read j = a.memory.read j) :
    a'.Tiled start bs stop := by
  induction bs generalizing start with
  | nil => exact h
  | cons b rest ih =>
    obtain ⟨⟨rfl, hproper, hmarks⟩, hrest⟩ := h
    refine ⟨⟨rfl, hproper, ?_⟩, ih hrest (by omega) ?_⟩
    · exact hmarks.congr hstart hproper (hsame b List.mem_cons_self)
    · exact fun c hc => hsame c (List.mem_cons_of_mem _ hc)

/-- A tiling does not depend on bytes before its first header or behind its last footer. -/
theorem Tiled.congr (h : a.Tiled start bs stop) (hstart : 8 ≤ start)
    (hsame : ∀ j, start - 8 ≤ j → j < stop - 8 → a'.memory.read j = a.memory.read j) :
    a'.Tiled start bs stop := by
  apply h.congr_tags hstart
  intro b hb j hj
  have hbounds := h.bounds hb
  have hsize := (h.proper hb).le_size
  unfold Block.OnTag at hj
  exact hsame j (by omega) (by omega)

/-- The blocks of a tiling do not overlap. -/
theorem Tiled.pairwise (h : a.Tiled start bs stop) :
    bs.Pairwise fun b c => b.start + b.size ≤ c.start := by
  induction bs generalizing start with
  | nil => exact List.Pairwise.nil
  | cons b rest ih =>
    obtain ⟨⟨rfl, -, -⟩, hrest⟩ := h
    exact List.Pairwise.cons (fun c hc => (hrest.bounds hc).1) (ih hrest)

/-- Of two blocks of a tiling, one lies behind the other. -/
theorem Tiled.apart (h : a.Tiled start bs stop) (hb : b ∈ bs) (hc : c ∈ bs) :
    b = c ∨ b.start + b.size ≤ c.start ∨ c.start + c.size ≤ b.start := by
  induction bs generalizing start with
  | nil => cases hb
  | cons d rest ih =>
    obtain ⟨⟨rfl, -, -⟩, hrest⟩ := h
    rcases List.mem_cons.mp hb with rfl | hbrest
    · rcases List.mem_cons.mp hc with rfl | hcrest
      · exact Or.inl rfl
      · exact Or.inr (Or.inl (hrest.bounds hcrest).1)
    · rcases List.mem_cons.mp hc with rfl | hcrest
      · exact Or.inr (Or.inr (hrest.bounds hbrest).1)
      · exact ih hrest hbrest hcrest

/-- An offset in a block of a tiling has that block's start as its home. -/
theorem Tiled.home_eq {x : Nat} (h : a.Tiled start bs stop) (hb : b ∈ bs) (hlow : b.start ≤ x)
    (hhigh : x < b.start + b.size) : Block.home bs x = b.start := by
  obtain ⟨c, hfind⟩ : ∃ c, bs.find? (fun b => decide (b.start ≤ x ∧ x < b.start + b.size)) =
      some c := by
    rw [← Option.isSome_iff_exists, List.find?_isSome]
    exact ⟨b, hb, by simp [hlow, hhigh]⟩
  have hin := List.find?_some hfind
  rw [decide_eq_true_eq] at hin
  rw [Block.home, hfind, Option.map_some, Option.getD_some]
  rcases h.apart (List.mem_of_find?_eq_some hfind) hb with rfl | hle | hle
  · rfl
  · omega
  · omega

/-- No two blocks of a tiling start at the same offset. -/
theorem Tiled.nodup (h : a.Tiled start bs stop) : (bs.map Block.start).Nodup := by
  refine List.pairwise_map.mpr (h.pairwise.imp_of_mem fun {b c} hb hc hle => ?_)
  have hsize := (h.proper hb).le_size
  omega

/-- The blocks of a tiling are told apart by where they start. -/
theorem Tiled.eq_of_start_eq (h : a.Tiled start bs stop) (hb : b ∈ bs) (hc : c ∈ bs)
    (hstart : b.start = c.start) : b = c :=
  List.inj_on_of_nodup_map h.nodup hb hc hstart

end Arena

end SegregatedFit
