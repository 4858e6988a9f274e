import SegregatedFit.Proofs.Auditing

/-!
# Arenas that lie further up

A heap can begin behind bytes that belong to somebody else. The same arena then lies further up by
a fixed distance. Whatever is read in the lower one is read in the upper one at that distance,
whatever is written there is written here, and the bytes in front stay as they are. The converse
does not hold, because the upper arena has bytes where the lower one has none, so the statements
go from a value below to a value above.
-/

namespace SegregatedFit

/-- Whenever the first computation has a value, the second one has a related value. -/
def Follows {α β : Type} (R : α → β → Prop) (x : Except Fault α) (y : Except Fault β) : Prop :=
  ∀ a, x = .ok a → ∃ b, y = .ok b ∧ R a b

namespace Follows

variable {α β γ δ : Type} {R : α → β → Prop} {S : γ → δ → Prop}

/-- Successes that are related follow each other. -/
theorem ok {a : α} {b : β} (h : R a b) : Follows R (.ok a) (.ok b) := by
  rintro _ ⟨⟩
  exact ⟨b, rfl, h⟩

/-- A computation without a value is followed by anything. -/
theorem error {fault : Fault} {y : Except Fault β} : Follows R (.error fault) y := by
  rintro _ ⟨⟩

/-- Computations in two steps follow each other when the first steps do, and the second ones do
on related values. -/
theorem bind {x : Except Fault α} {y : Except Fault β} {f : α → Except Fault γ}
    {g : β → Except Fault δ} (h : Follows R x y) (hf : ∀ a b, R a b → Follows S (f a) (g b)) :
    Follows S (x >>= f) (y >>= g) := by
  intro c hc
  obtain ⟨a, ha, hc⟩ := Fault.bind_eq_ok_iff.mp hc
  obtain ⟨b, rfl, hab⟩ := h a ha
  exact hf a b hab c hc

/-- After one and the same first step only the second steps matter. -/
theorem same {x : Except Fault α} {f : α → Except Fault γ} {g : α → Except Fault δ}
    (hf : ∀ a, Follows S (f a) (g a)) : Follows S (x >>= f) (x >>= g) := by
  intro c hc
  obtain ⟨a, rfl, hc⟩ := Fault.bind_eq_ok_iff.mp hc
  exact hf a c hc

/-- After first steps with the same value, the second ones start from it. -/
theorem eq_bind {x y : Except Fault α} {f : α → Except Fault γ} {g : α → Except Fault δ}
    (h : Follows Eq x y) (hf : ∀ a, Follows S (f a) (g a)) : Follows S (x >>= f) (y >>= g) :=
  h.bind fun a _ hab => hab ▸ hf a

end Follows

/-- The same block further up. -/
def Block.shift (k : Nat) (b : Block) : Block := ⟨b.start + k, b.tag⟩

namespace Block

variable {k : Nat}

/-- A shifted block starts further up. -/
@[simp] theorem start_shift (b : Block) : (b.shift k).start = b.start + k := rfl

/-- A shifted block has the tag it had. -/
@[simp] theorem tag_shift (b : Block) : (b.shift k).tag = b.tag := rfl

/-- A shifted block has the size it had. -/
@[simp] theorem size_shift (b : Block) : (b.shift k).size = b.size := rfl

/-- A shifted block is free if it was. -/
@[simp] theorem isFree_shift (b : Block) : (b.shift k).isFree = b.isFree := rfl

/-- Shifted blocks have the total size they had. -/
@[simp] theorem totalSize_shift (bs : List Block) :
    totalSize (bs.map (Block.shift k)) = totalSize bs := by
  induction bs with
  | nil => rfl
  | cons b rest ih => simp [ih]

end Block

variable {k : Nat} {past : Nat → UInt8}

/-- The second memory holds the bytes of the first one further up, behind others as in `past`. -/
structure Memory.Shifted (k : Nat) (past : Nat → UInt8) (m n : Memory) : Prop where
  size_eq : n.size = m.size + k
  limit_eq : n.limit = m.limit + k
  read_eq : ∀ j, n.read (j + k) = m.read j
  past_eq : ∀ j, j < k → n.read j = past j

/-- The same for arenas, which were granted the same. -/
structure Arena.Shifted (k : Nat) (past : Nat → UInt8) (a b : Arena) : Prop where
  memory : a.memory.Shifted k past b.memory
  granted_eq : b.granted = a.granted

namespace Memory.Shifted

variable {m n : Memory}

/-- A word of the memory is found further up in the shifted one. -/
theorem wordAt_eq (h : m.Shifted k past n) (x : Nat) : n.wordAt (x + k) = m.wordAt x := by
  refine LittleEndian.decode_congr fun i _ => ?_
  rw [Nat.add_right_comm, h.read_eq]

/-- The room to grow is the same. -/
theorem room_eq (h : m.Shifted k past n) : n.limit - n.size = m.limit - m.size := by
  rw [h.limit_eq, h.size_eq, Nat.add_sub_add_right]

/-- What is written below is written above at the distance. -/
theorem write (h : m.Shifted k past n) {start count : Nat} {f : Nat → UInt8}
    (hin : start + count ≤ m.size) :
    (m.write start count f).Shifted k past (n.write (start + k) count f) where
  size_eq := by rw [size_write, size_write, h.size_eq]
  limit_eq := by rw [limit_write, limit_write, h.limit_eq]
  read_eq j := by
    have hm := m.size_le_extent
    have hn := n.size_le_extent
    have hsize := h.size_eq
    rw [read_write, read_write, h.read_eq, Nat.add_sub_add_right]
    congr 1
    apply propext
    constructor
    · rintro ⟨hlow, hhigh, -⟩
      exact ⟨by omega, by omega, by omega⟩
    · rintro ⟨hlow, hhigh, -⟩
      exact ⟨by omega, by omega, by omega⟩
  past_eq j hj := by
    rw [read_write, if_neg (by omega), h.past_eq j hj]

private theorem grant (h : m.Shifted k past n) {amount : Nat} (hm : amount ≤ m.limit - m.size)
    (hn : amount ≤ n.limit - n.size) : (m.grant amount hm).Shifted k past (n.grant amount hn) where
  size_eq := by rw [size_grant, size_grant, h.size_eq, Nat.add_right_comm]
  limit_eq := by rw [limit_grant, limit_grant, h.limit_eq]
  read_eq j := by rw [read_grant, read_grant, h.read_eq]
  past_eq j hj := by rw [read_grant, h.past_eq j hj]

end Memory.Shifted

namespace Arena.Shifted

variable {a b : Arena} {x y : Nat}

/-- A shifted arena ends further up. -/
theorem size_eq (h : a.Shifted k past b) : b.size = a.size + k := h.memory.size_eq

/-! What is read. -/

private theorem word_eq (h : a.Shifted k past b) (x : Nat) : b.word (x + k) = a.word x := by
  rw [word, word, h.size_eq, h.memory.wordAt_eq, Nat.add_right_comm]
  simp only [Nat.add_le_add_iff_right]

private theorem tagAt_eq (h : a.Shifted k past b) (x : Nat) : b.tagAt (x + k) = a.tagAt x := by
  rw [tagAt, tagAt, h.word_eq]

private theorem header (h : a.Shifted k past b) (x : Nat) :
    Follows Eq (a.header x) (b.header (x + k)) := by
  intro t ht
  obtain ⟨hlow, hhigh, rfl⟩ := header_eq_ok_iff.mp ht
  have hlow : 8 ≤ x := hlow
  have hsize := h.size_eq
  refine ⟨_, header_of_le (by omega) (by omega), ?_⟩
  rw [Nat.sub_add_comm hlow, h.memory.wordAt_eq]

/-- A shifted arena has a block of the same size further up. -/
theorem sizeOf (h : a.Shifted k past b) (x : Nat) :
    Follows Eq (a.sizeOf x) (b.sizeOf (x + k)) :=
  (h.header x).eq_bind fun _ => .ok rfl

private theorem block (h : a.Shifted k past b) (x : Nat) :
    Follows (fun c d => d = c.shift k) (a.block x) (b.block (x + k)) :=
  (h.header x).eq_bind fun _ => .ok rfl

/-- The step to the next block is the same further up, if something inside the arena is done
behind it. -/
theorem next_bind {α β : Type} {R : α → β → Prop} {f : Nat → Except Fault α}
    {g : Nat → Except Fault β} (h : a.Shifted k past b) (x : Nat)
    (hbound : ∀ y c, f y = .ok c → y ≤ a.size) (hf : ∀ y, Follows R (f y) (g (y + k))) :
    Follows R (a.next x >>= f) (b.next (x + k) >>= g) := by
  intro c hc
  obtain ⟨y, hy, hc⟩ := Fault.bind_eq_ok_iff.mp hc
  have hinside := hbound y c hc
  have hsize := h.size_eq
  have hlt := b.size_lt
  obtain ⟨size, hsizeOf, hadd⟩ := Fault.bind_eq_ok_iff.mp hy
  obtain ⟨-, rfl⟩ := Word.add_eq_ok_iff.mp hadd
  obtain ⟨_, hsizeOf', rfl⟩ := h.sizeOf x size hsizeOf
  have hnext : b.next (x + k) = .ok (x + size + k) := by
    rw [next, hsizeOf', Fault.ok_bind, Word.add_of_lt (by omega), Nat.add_right_comm]
  rw [hnext]
  exact hf _ c hc

private theorem footerBelow (h : a.Shifted k past b) (x : Nat) :
    Follows Eq (a.footerBelow x) (b.footerBelow (x + k)) := by
  intro t ht
  obtain ⟨y, hy, ht⟩ := Fault.bind_eq_ok_iff.mp ht
  obtain ⟨hle, rfl⟩ := Word.sub_eq_ok_iff.mp hy
  refine ⟨t, ?_, rfl⟩
  have hsub : Word.sub (x + k) granule = .ok (x - granule + k) := by
    rw [Word.sub_of_le (Nat.le_add_right_of_le hle), Nat.sub_add_comm hle]
  rw [Arena.footerBelow, hsub, Fault.ok_bind, h.tagAt_eq, ht]

private theorem previous (h : a.Shifted k past b) (x : Nat) :
    Follows (fun y z => z = y + k) (a.previous x) (b.previous (x + k)) := by
  refine (h.footerBelow x).eq_bind fun t => ?_
  intro y hy
  obtain ⟨hle, rfl⟩ := Word.sub_eq_ok_iff.mp hy
  exact ⟨_, Word.sub_of_le (Nat.le_add_right_of_le hle), Nat.sub_add_comm hle⟩

/-- A shifted arena has the shifted free block below. -/
theorem freeBelow (h : a.Shifted k past b) (x : Nat) :
    Follows (fun c d => d = c.map (Block.shift k)) (a.freeBelow x) (b.freeBelow (x + k)) := by
  unfold Arena.freeBelow
  refine (h.previous x).bind fun y _ hy => (h.footerBelow x).eq_bind fun t => ?_
  subst hy
  simp only [Nat.add_right_cancel_iff]
  split
  · exact .ok rfl
  · exact (h.block y).bind fun c d hcd => .ok (congrArg some hcd)

/-- A shifted arena has the shifted free block above. -/
theorem freeAbove (h : a.Shifted k past b) (x : Nat) :
    Follows (fun c d => d = c.map (Block.shift k)) (a.freeAbove x) (b.freeAbove (x + k)) := by
  unfold Arena.freeAbove
  refine h.next_bind x (fun y c hc => ?_) fun y => ?_
  · obtain ⟨_, hblock, -⟩ := Fault.bind_eq_ok_iff.mp hc
    obtain ⟨t, ht, -⟩ := Fault.bind_eq_ok_iff.mp hblock
    exact (header_eq_ok_iff.mp ht).2.1
  · refine (h.block y).bind fun c d hcd => .ok ?_
    rw [hcd, Block.isFree_shift]
    split <;> rfl

/-! What is changed. -/

/-- Storing a word further up keeps arenas shifted. -/
theorem put (h : a.Shifted k past b) (x value : Nat) :
    Follows (Arena.Shifted k past) (a.put x value) (b.put (x + k) value) := by
  intro a' ha
  obtain ⟨hin, rfl⟩ := put_eq_ok_iff.mp ha
  have hsize := h.size_eq
  refine ⟨_, put_eq_ok_iff.mpr ⟨by omega, rfl⟩, h.memory.write hin, h.granted_eq⟩

/-- Writing bytes further up keeps arenas shifted. -/
theorem write (h : a.Shifted k past b) (start count : Nat) (f : Nat → UInt8) :
    Follows (Arena.Shifted k past) (a.write start count f) (b.write (start + k) count f) := by
  intro a' ha
  obtain ⟨hin, rfl⟩ := write_eq_ok_iff.mp ha
  have hsize := h.size_eq
  exact ⟨_, write_eq_ok_iff.mpr ⟨by omega, rfl⟩, h.memory.write hin, h.granted_eq⟩

/-- Copying bytes further up keeps arenas shifted. -/
theorem copy (h : a.Shifted k past b) (source target count : Nat) :
    Follows (Arena.Shifted k past) (a.copy source target count)
      (b.copy (source + k) (target + k) count) := by
  have hbytes : (fun i => b.memory.read (source + k + i)) =
      fun i => a.memory.read (source + i) := by
    funext i
    rw [Nat.add_right_comm, h.memory.read_eq]
  by_cases hin : source + count ≤ a.size
  · have hin' : source + k + count ≤ b.size := by
      rw [h.size_eq]
      omega
    rw [Arena.copy, Arena.copy, if_pos hin, if_pos hin']
    dsimp only
    rw [hbytes]
    exact h.write target count _
  · rw [Arena.copy, if_neg hin]
    exact .error

/-- Stamping a block further up keeps arenas shifted. -/
theorem stamp (h : a.Shifted k past b) (x : Nat) (t : Tag) :
    Follows (Arena.Shifted k past) (a.stamp x t) (b.stamp (x + k) t) := by
  intro a' ha
  obtain ⟨⟨hlow, hin⟩, ⟨-, hfooter, hend⟩, rfl⟩ := stamp_eq_ok_iff.mp ha
  have hsize := h.size_eq
  have hlt := b.size_lt
  have hword : wordBytes = 8 := rfl
  have hgranule : granule = 16 := rfl
  have hlimit : wordLimit = 18446744073709551616 := rfl
  refine ⟨_, stamp_eq_ok_iff.mpr ⟨⟨by omega, by omega⟩, ⟨by omega, by omega, by omega⟩, rfl⟩,
    ?_, h.granted_eq⟩
  rw [Nat.sub_add_comm hlow, Nat.add_right_comm, Nat.sub_add_comm hfooter]
  have hheader : x - wordBytes + wordBytes ≤ a.memory.size := by
    show _ ≤ a.size
    omega
  apply (h.memory.write hheader).write
  rw [Memory.size_write]
  show _ ≤ a.size
  omega

/-- Stamping the epilogue further up keeps arenas shifted. -/
theorem stampEnd (h : a.Shifted k past b) (x : Nat) :
    Follows (Arena.Shifted k past) (a.stampEnd x) (b.stampEnd (x + k)) := by
  intro a' ha
  obtain ⟨y, hy, ha⟩ := Fault.bind_eq_ok_iff.mp ha
  obtain ⟨hlow, rfl⟩ := Word.sub_eq_ok_iff.mp hy
  obtain ⟨b', hb, hab⟩ := h.put (x - wordBytes) _ a' ha
  refine ⟨b', ?_, hab⟩
  rw [Arena.stampEnd, headerOffset, Word.sub_of_le (Nat.le_add_right_of_le hlow), Fault.ok_bind,
    Nat.sub_add_comm hlow, hb]

/-- Growing reveals the same bytes further up, or is refused for the same reason. -/
theorem grow (h : a.Shifted k past b) (amount : Nat) :
    ∃ answer a' b', (a.grow amount).outcome = .ok (answer, a') ∧
      (b.grow amount).outcome = .ok (answer.map (· + k), b') ∧ a'.Shifted k past b' := by
  by_cases hmod : amount % granule = 0
  · rcases Nat.lt_or_ge (a.memory.limit - a.memory.size) amount with hroom | hroom
    · have hroom' : b.memory.limit - b.memory.size < amount := h.memory.room_eq ▸ hroom
      refine ⟨_, a, b, grow_of_lt hmod hroom, ?_, h⟩
      rw [grow_of_lt hmod hroom', h.memory.room_eq]
      rfl
    · have hroom' : amount ≤ b.memory.limit - b.memory.size := h.memory.room_eq ▸ hroom
      refine ⟨.ok a.size, _, ⟨b.memory.grant amount hroom', b.granted + amount⟩,
        grow_of_le hmod hroom, ?_, h.memory.grant hroom hroom', congrArg (· + amount) h.granted_eq⟩
      rw [grow_of_le hmod hroom', h.size_eq]
      rfl
  · refine ⟨.error (.misaligned amount), a, b, ?_, ?_, h⟩
    · rw [Arena.grow, if_neg hmod]
      rfl
    · rw [Arena.grow, if_neg hmod]
      rfl

/-! The division into blocks. -/

private theorem marks (h : a.Shifted k past b) {c : Block} (hc : a.Marks c) (hstart : 8 ≤ c.start)
    (hproper : c.Proper) : b.Marks (c.shift k) := by
  have hlarge := hproper.le_size
  constructor
  · rw [Block.start_shift, show c.start + k - 8 = c.start - 8 + k by omega, h.memory.wordAt_eq,
      hc.header, Block.tag_shift]
  · rw [Block.start_shift, Block.size_shift,
      show c.start + k + c.size - 16 = c.start + c.size - 16 + k by omega, h.memory.wordAt_eq,
      hc.footer, Block.tag_shift]

private theorem tiled (h : a.Shifted k past b) {start stop : Nat} {bs : List Block}
    (ht : a.Tiled start bs stop) (hstart : 8 ≤ start) :
    b.Tiled (start + k) (bs.map (Block.shift k)) (stop + k) := by
  induction bs generalizing start with
  | nil => exact congrArg (· + k) ht
  | cons c rest ih =>
    obtain ⟨⟨rfl, hproper, hmarks⟩, hrest⟩ := ht
    refine ⟨⟨rfl, ⟨hproper.size_mod, hproper.le_size⟩, h.marks hmarks hstart hproper⟩, ?_⟩
    have hshifted := ih hrest (by omega)
    rwa [Nat.add_right_comm] at hshifted

/-- An arena that lies further up by whole granules is divided into the same blocks. -/
theorem divided (h : a.Shifted k past b) (hk : k % 16 = 0) {first : Nat} {bs : List Block}
    (hd : a.Divided first bs) : b.Divided (first + k) (bs.map (Block.shift k)) := by
  have hfirst := hd.le_first
  have hmod := hd.first_mod
  have hsize := h.size_eq
  have hlong := hd.size_eq
  have hgranted := hd.granted_eq
  refine ⟨by omega, by omega, ?_, ?_, ?_, ?_⟩
  · rw [show first + k - 16 = first - 16 + k by omega, h.memory.wordAt_eq, hd.prologue]
  · rw [hsize]
    exact h.tiled hd.tiled (by omega)
  · rw [hsize, show a.size + k - 8 = a.size - 8 + k by omega, h.memory.wordAt_eq, hd.epilogue]
  · rw [h.granted_eq]
    omega

end Arena.Shifted

end SegregatedFit
