import SegregatedFit.Proofs.Auditing

/-!
# Arenas that look the same

Two arenas may hold the same bytes in different kinds of memory. Whatever is read in one is then
read in the other, and whatever changes one changes the other in the same way or breaks off with
the same fault. Bytes that are not granted yet are never touched, so that it stays known what
growing will reveal.
-/

namespace SegregatedFit

/-- Both computations break off with the same fault, or both have values, which are related. -/
inductive EndAlike {ε α β : Type} (R : α → β → Prop) : Except ε α → Except ε β → Prop
  /-- Two values. -/
  | ok {a : α} {b : β} : R a b → EndAlike R (.ok a) (.ok b)
  /-- One fault. -/
  | error (fault : ε) : EndAlike R (.error fault) (.error fault)

/-- One answer, with related states left behind. -/
def SameAnswer {α σ τ : Type} (R : σ → τ → Prop) (x : α × σ) (y : α × τ) : Prop :=
  y.1 = x.1 ∧ R x.2 y.2

namespace EndAlike

variable {ε α β γ δ σ τ : Type} {R : α → β → Prop} {S : γ → δ → Prop}

/-- Computations in two steps end alike when the first steps do, and the second ones do on
related values. -/
theorem bind {x : Except Fault α} {y : Except Fault β} {f : α → Except Fault γ}
    {g : β → Except Fault δ} (h : EndAlike R x y) (hf : ∀ a b, R a b → EndAlike S (f a) (g b)) :
    EndAlike S (x >>= f) (y >>= g) := by
  cases h with
  | ok hab => exact hf _ _ hab
  | error fault => exact .error fault

/-- After first steps with the same answer, the second ones start from it and related states. -/
theorem answered {T : σ → τ → Prop} {x : Except Fault (α × σ)} {y : Except Fault (α × τ)}
    {f : α × σ → Except Fault γ} {g : α × τ → Except Fault δ} (h : EndAlike (SameAnswer T) x y)
    (hf : ∀ a s t, T s t → EndAlike S (f (a, s)) (g (a, t))) :
    EndAlike S (x >>= f) (y >>= g) := by
  refine h.bind ?_
  rintro ⟨-, s⟩ ⟨a, t⟩ ⟨rfl, hst⟩
  exact hf a s t hst

/-- After one and the same first step only the second steps matter. -/
theorem same {x : Except Fault α} {f : α → Except Fault γ} {g : α → Except Fault δ}
    (hf : ∀ a, EndAlike S (f a) (g a)) : EndAlike S (x >>= f) (x >>= g) := by
  cases x with
  | ok a => exact hf a
  | error fault => exact .error fault

/-- The same answer with related states. -/
theorem reply {T : σ → τ → Prop} {s : σ} {t : τ} {a : α} (h : T s t) :
    EndAlike (SameAnswer T) (.ok (a, s) : Except ε (α × σ)) (.ok (a, t)) :=
  .ok ⟨rfl, h⟩

/-- Related values that show the same thing give the same result. -/
theorem map_eq {f : α → γ} {g : β → γ} {x : Except ε α} {y : Except ε β} (h : EndAlike R x y)
    (hfg : ∀ a b, R a b → f a = g b) : x.map f = y.map g := by
  cases h with
  | ok hab => exact congrArg Except.ok (hfg _ _ hab)
  | error fault => rfl

/-- A computation that ends like itself relates its value to itself. -/
theorem self {T : α → α → Prop} {x : Except ε α} {a : α} (h : EndAlike T x x) (hx : x = .ok a) :
    T a a := by
  subst hx
  cases h with
  | ok ha => exact ha

end EndAlike

/-- Two memories of the same size and limit that hold the same bytes. Those that are not granted
yet are as in `past`. -/
structure Memory.Twin (past : Nat → UInt8) (m n : Memory) : Prop where
  size_eq : n.size = m.size
  limit_eq : n.limit = m.limit
  read_eq : n.read = m.read
  past_eq : ∀ j, m.size ≤ j → m.read j = past j

/-- Two arenas in such memories that were granted the same. -/
structure Arena.Twin (past : Nat → UInt8) (a b : Arena) : Prop where
  memory : a.memory.Twin past b.memory
  granted_eq : b.granted = a.granted

variable {past : Nat → UInt8}

namespace Memory.Twin

variable {m n : Memory}

/-- Every memory is a twin of itself. -/
theorem refl (m : Memory) : m.Twin m.read m := ⟨rfl, rfl, rfl, fun _ _ => rfl⟩

private theorem wordAt_eq (h : m.Twin past n) : n.wordAt = m.wordAt := by
  funext x
  rw [wordAt, wordAt, h.read_eq]

/-- Bytes that are granted are written in both memories, and no others are touched. -/
theorem write (h : m.Twin past n) {start count : Nat} {f : Nat → UInt8}
    (hin : start + count ≤ m.size) :
    (m.write start count f).Twin past (n.write start count f) where
  size_eq := by rw [size_write, size_write, h.size_eq]
  limit_eq := by rw [limit_write, limit_write, h.limit_eq]
  read_eq := by
    funext j
    have hm := m.size_le_extent
    have hn := n.size_le_extent
    have hsize := h.size_eq
    rw [read_write, read_write, h.read_eq]
    congr 1
    apply propext
    constructor
    · rintro ⟨hlow, hhigh, -⟩
      exact ⟨hlow, hhigh, by omega⟩
    · rintro ⟨hlow, hhigh, -⟩
      exact ⟨hlow, hhigh, by omega⟩
  past_eq j hj := by
    rw [size_write] at hj
    rw [read_write, if_neg (by omega), h.past_eq j hj]

private theorem extend (h : m.Twin past n) (amount : Nat) :
    (n.extend amount).1 = (m.extend amount).1 ∧
      (m.extend amount).2.Twin past (n.extend amount).2 := by
  unfold Memory.extend
  by_cases hroom : amount ≤ m.limit - m.size
  · have hroom' : amount ≤ n.limit - n.size := by rwa [h.limit_eq, h.size_eq]
    rw [dif_pos hroom, dif_pos hroom']
    refine ⟨congrArg Except.ok h.size_eq, ?_, ?_, ?_, fun j hj => ?_⟩
    · rw [size_grant, size_grant, h.size_eq]
    · rw [limit_grant, limit_grant, h.limit_eq]
    · funext j
      rw [read_grant, read_grant, h.read_eq]
    · rw [size_grant] at hj
      rw [read_grant, h.past_eq j (by omega)]
  · have hroom' : ¬ amount ≤ n.limit - n.size := by rwa [h.limit_eq, h.size_eq]
    rw [dif_neg hroom, dif_neg hroom', h.limit_eq, h.size_eq]
    exact ⟨rfl, h⟩

end Memory.Twin

namespace Arena.Twin

variable {a b : Arena}

/-- Twins have the same size. -/
theorem size_eq (h : a.Twin past b) : b.size = a.size := h.memory.size_eq

/-! What is read. -/

/-- Twins read the same words. -/
theorem word_eq (h : a.Twin past b) : b.word = a.word := by
  funext x
  rw [word, word, h.size_eq, h.memory.wordAt_eq]

/-- Twins read the same words, or none at the same offsets. -/
theorem word?_eq (h : a.Twin past b) : b.word? = a.word? := by
  funext x
  rw [word?, word?, h.size_eq, h.memory.wordAt_eq]

private theorem header_eq (h : a.Twin past b) : b.header = a.header := by
  funext x
  simp only [header, tagAt, h.word_eq]

/-- Twins have blocks of the same sizes. -/
theorem sizeOf_eq (h : a.Twin past b) : b.sizeOf = a.sizeOf := by
  funext x
  rw [Arena.sizeOf, Arena.sizeOf, h.header_eq]

/-- Twins have the same blocks. -/
theorem block_eq (h : a.Twin past b) : b.block = a.block := by
  funext x
  rw [block, block, h.header_eq]

/-- Twins have the same steps to the next block. -/
theorem next_eq (h : a.Twin past b) : b.next = a.next := by
  funext x
  rw [next, next, h.sizeOf_eq]

/-- Twins have footers at the same offsets. -/
theorem footerOffset_eq (h : a.Twin past b) : b.footerOffset = a.footerOffset := by
  funext x
  rw [footerOffset, footerOffset, h.sizeOf_eq]

/-- Twins have the same free blocks below. -/
theorem freeBelow_eq (h : a.Twin past b) : b.freeBelow = a.freeBelow := by
  funext x
  simp only [freeBelow, previous, footerBelow, tagAt, h.word_eq, h.block_eq]

/-- Twins have the same free blocks above. -/
theorem freeAbove_eq (h : a.Twin past b) : b.freeAbove = a.freeAbove := by
  funext x
  rw [freeAbove, freeAbove, h.next_eq, h.block_eq]

/-- Twins show the same slices. -/
theorem slice_eq (h : a.Twin past b) : b.slice = a.slice := by
  funext start count
  rw [slice, slice, h.size_eq, h.memory.read_eq]

/-- Twins hold the same bytes. -/
theorem bytes_eq (h : a.Twin past b) : b.bytes = a.bytes := by
  rw [bytes, bytes, h.size_eq, h.memory.read_eq]

/-- Twins are walked over in the same way. -/
theorem blocksFrom_eq (h : a.Twin past b) (start : Nat) :
    b.blocksFrom start = a.blocksFrom start := by
  induction hk : a.size + 1 - start using Nat.strongRecOn generalizing start with
  | ind k ih =>
    cases ht : a.header start with
    | error fault =>
      rw [blocksFrom_of_error ht, blocksFrom_of_error (h.header_eq ▸ ht)]
    | ok t =>
      have hinside := (header_eq_ok_iff.mp ht).2.1
      rw [blocksFrom_of_header ht, blocksFrom_of_header (h.header_eq ▸ ht)]
      by_cases hzero : t.size = 0
      · simp only [hzero, if_true]
      · rw [ih _ (by omega) (start + t.size) rfl]

private theorem scanStep_eq (h : a.Twin past b) : b.scanStep = a.scanStep := by
  funext start
  simp only [scanStep, h.word?_eq, h.word_eq, h.size_eq]

/-- Twins are scanned in the same way. -/
theorem scanFrom_eq (h : a.Twin past b) (start : Nat) : b.scanFrom start = a.scanFrom start := by
  induction hk : a.size - start using Nat.strongRecOn generalizing start with
  | ind k ih =>
    rw [Arena.scanFrom_eq, Arena.scanFrom_eq a, h.scanStep_eq]
    cases hstep : a.scanStep start with
    | error fault => rfl
    | ok step =>
      cases step with
      | stop ending => rfl
      | block s =>
        obtain ⟨-, hlarge, hinside⟩ := scanStep_eq_block hstep
        have hlarge : 40 ≤ s.size := hlarge
        rw [Fault.ok_bind, Fault.ok_bind]
        dsimp only
        rw [ih _ (by omega) (start + s.size) rfl]

/-! What is changed. -/

/-- Storing the same word keeps twins alike. -/
theorem put (h : a.Twin past b) (offset value : Nat) :
    EndAlike (Arena.Twin past) (a.put offset value) (b.put offset value) := by
  unfold Arena.put
  rw [h.size_eq]
  split
  · next hin => exact .ok ⟨h.memory.write hin, h.granted_eq⟩
  · exact .error _

/-- Writing the same bytes keeps twins alike. -/
theorem write (h : a.Twin past b) (start count : Nat) (f : Nat → UInt8) :
    EndAlike (Arena.Twin past) (a.write start count f) (b.write start count f) := by
  unfold Arena.write
  rw [h.size_eq]
  split
  · next hin => exact .ok ⟨h.memory.write hin, h.granted_eq⟩
  · exact .error _

/-- Copying the same bytes keeps twins alike. -/
theorem copy (h : a.Twin past b) (source target count : Nat) :
    EndAlike (Arena.Twin past) (a.copy source target count) (b.copy source target count) := by
  unfold Arena.copy
  dsimp only
  rw [h.size_eq, h.memory.read_eq]
  split
  · exact h.write ..
  · exact .error _

/-- Stamping the same block keeps twins alike. -/
theorem stamp (h : a.Twin past b) (block : Nat) (t : Tag) :
    EndAlike (Arena.Twin past) (a.stamp block t) (b.stamp block t) :=
  .same fun headerAt => (h.put headerAt t.toWord).bind fun _ _ h =>
    .same fun _ => .same fun footerAt => h.put footerAt t.toWord

/-- Stamping the epilogue at the same offset keeps twins alike. -/
theorem stampEnd (h : a.Twin past b) (offset : Nat) :
    EndAlike (Arena.Twin past) (a.stampEnd offset) (b.stampEnd offset) :=
  .same fun headerAt => h.put headerAt _

/-- Twins grow in the same way, and are refused alike. -/
theorem grow (h : a.Twin past b) (amount : Nat) :
    EndAlike (SameAnswer (Arena.Twin past)) (a.grow amount).outcome (b.grow amount).outcome := by
  obtain ⟨hanswer, hmemory⟩ := h.memory.extend amount
  unfold Arena.grow
  by_cases hmod : amount % granule = 0
  · rw [if_pos hmod, if_pos hmod]
    dsimp only
    rcases hm : a.memory.extend amount with ⟨answer, m⟩
    rcases hn : b.memory.extend amount with ⟨answer', n⟩
    rw [hm, hn] at hanswer hmemory
    cases hanswer
    cases answer with
    | ok base => exact .reply ⟨hmemory, congrArg (· + amount) h.granted_eq⟩
    | error cause => exact .reply ⟨hmemory, h.granted_eq⟩
  · rw [if_neg hmod, if_neg hmod]
    exact .reply h

end Arena.Twin

end SegregatedFit
