import SegregatedFit.Proofs.Reading
import SegregatedFit.Heap.Extend

/-!
# Rewriting a divided arena

Every operation rewrites one stretch of blocks: it stamps one block over several, divides a
block in two, or writes into a payload. Each of these is described by the positions that it
may change, so that whatever lies elsewhere is known to be kept, and by the blocks that the
arena is divided into afterwards. Growing adds one free block at the end.
-/

namespace SegregatedFit.Arena

/-- `a'` is `a` with other bytes at positions of `P` at most. -/
structure Edited (a a' : Arena) (P : Nat → Prop) : Prop where
  size_eq : a'.size = a.size
  granted_eq : a'.granted = a.granted
  limit_eq : a'.memory.limit = a.memory.limit
  read_eq : ∀ j, ¬ P j → a'.memory.read j = a.memory.read j

variable {a a' a'' : Arena} {P Q : Nat → Prop} {b : Block} {bs xs ys mid mid' : List Block}
  {t u : Tag} {x first : Nat}

/-- An arena is edited from itself, wherever edits are allowed. -/
theorem Edited.refl (a : Arena) (P : Nat → Prop) : a.Edited a P :=
  ⟨rfl, rfl, rfl, fun _ _ => rfl⟩

/-- Edits are still edits where more is allowed. -/
theorem Edited.mono (h : a.Edited a' P) (hPQ : ∀ j, P j → Q j) : a.Edited a' Q :=
  ⟨h.size_eq, h.granted_eq, h.limit_eq, fun j hj => h.read_eq j fun hP => hj (hPQ j hP)⟩

/-- Edits after edits are edits where either is allowed. -/
theorem Edited.trans (h : a.Edited a' P) (h' : a'.Edited a'' Q) :
    a.Edited a'' fun j => P j ∨ Q j where
  size_eq := h'.size_eq.trans h.size_eq
  granted_eq := h'.granted_eq.trans h.granted_eq
  limit_eq := h'.limit_eq.trans h.limit_eq
  read_eq j hj :=
    (h'.read_eq j fun hQ => hj (Or.inr hQ)).trans (h.read_eq j fun hP => hj (Or.inl hP))

/-- Storing a word that fits succeeds, can be read back, and edits its eight bytes only. -/
theorem put_run (a : Arena) (x value : Nat) (hin : x + 8 ≤ a.size) (hvalue : value < wordLimit) :
    ∃ a', a.put x value = .ok a' ∧ a'.memory.wordAt x = value ∧
      a.Edited a' fun j => x ≤ j ∧ j < x + 8 := by
  have hput : a.put x value = .ok ⟨a.memory.putWord x value, a.granted⟩ :=
    put_eq_ok_iff.mpr ⟨hin, rfl⟩
  refine ⟨_, hput, ?_, ?_⟩
  · have hextent : x + wordBytes ≤ a.memory.extent :=
      Nat.le_trans hin a.memory.size_le_extent
    rw [Memory.wordAt_putWord _ _ hextent, Nat.mod_eq_of_lt hvalue]
  · refine ⟨Memory.size_write .., rfl, Memory.limit_write .., ?_⟩
    intro j hj
    rw [read_of_put hput, if_neg hj]

/-- Stamping puts both tags of a block in place and changes nothing else. -/
theorem stamp_run (hx : 8 ≤ x) (hsize : 16 ≤ t.size) (hend : x + t.size ≤ a.size + 8) :
    ∃ a', a.stamp x t = .ok a' ∧ a'.Marks ⟨x, t⟩ ∧ a.Edited a' (Block.OnTag ⟨x, t⟩) := by
  have hlt := a.size_lt
  have htag : t.toWord < wordLimit := Tag.toWord_lt (by omega)
  obtain ⟨a₁, hput₁, hword₁, hedit₁⟩ := put_run a (x - 8) t.toWord (by omega) htag
  have hend₁ : x + t.size - 16 + 8 ≤ a₁.size := by
    rw [hedit₁.size_eq]
    omega
  obtain ⟨a₂, hput₂, hword₂, hedit₂⟩ := put_run a₁ _ t.toWord hend₁ htag
  refine ⟨a₂, ?_, ⟨?_, hword₂⟩, (hedit₁.trans hedit₂).mono fun j hj => ?_⟩
  · have hheader := headerOffset_of_le hx
    have hsum : Word.add x t.size = .ok (x + t.size) :=
      Word.add_of_lt (by omega)
    have hfooter : Word.sub (x + t.size) granule = .ok (x + t.size - 16) :=
      footerOffset_of_le (by omega)
    rw [stamp, hheader, Fault.ok_bind, hput₁, Fault.ok_bind, hsum, Fault.ok_bind, hfooter,
      Fault.ok_bind, hput₂]
  · rw [← hword₁]
    refine Memory.wordAt_congr fun j hlow hhigh => hedit₂.read_eq j ?_
    intro hj
    change x - 8 ≤ j at hlow
    change j < x - 8 + 8 at hhigh
    omega
  · unfold Block.OnTag
    change x - 8 ≤ j ∧ j < x - 8 + 8 ∨ x + t.size - 16 ≤ j ∧ j < x + t.size - 16 + 8 at hj
    change x - 8 ≤ j ∧ j < x ∨ x + t.size - 16 ≤ j ∧ j < x + t.size - 8
    omega

/-- An arena stays in order when one stretch of its blocks is tiled anew and nothing outside
that stretch changes. -/
theorem Divided.replace (h : a.Divided first (xs ++ mid ++ ys)) (hedit : a.Edited a' P)
    (hP : ∀ j, P j → first - 8 + Block.totalSize xs ≤ j ∧
      j < first - 8 + Block.totalSize xs + Block.totalSize mid)
    (hmid : a'.Tiled (first + Block.totalSize xs) mid'
      (first + Block.totalSize xs + Block.totalSize mid)) :
    a'.Divided first (xs ++ mid' ++ ys) := by
  have hfirst := h.le_first
  have hsize := h.size_eq
  rw [Block.totalSize_append, Block.totalSize_append] at hsize
  have htotal := hmid.stop_eq
  obtain ⟨hlower, hupper⟩ := tiled_append.mp h.tiled
  obtain ⟨hxs, -⟩ := tiled_append.mp hlower
  rw [Block.totalSize_append] at hupper
  have hkeep (j : Nat) (hj : j < first - 8 + Block.totalSize xs ∨
      first - 8 + Block.totalSize xs + Block.totalSize mid ≤ j) :
      a'.memory.read j = a.memory.read j :=
    hedit.read_eq j fun hPj => by
      have hin := hP j hPj
      omega
  refine ⟨h.le_first, h.first_mod, ?_, ?_, ?_, ?_⟩
  · rw [← h.prologue]
    exact Memory.wordAt_congr fun j _ hj => hkeep j (by omega)
  · rw [hedit.size_eq, List.append_assoc, tiled_append, tiled_append]
    refine ⟨hxs.congr (by omega) fun j _ hj => hkeep j (by omega), ?_, ?_⟩
    · rwa [← htotal]
    · rw [← htotal, Nat.add_assoc]
      exact hupper.congr (by omega) fun j hj _ => hkeep j (by omega)
  · rw [hedit.size_eq, ← h.epilogue]
    exact Memory.wordAt_congr fun j hj _ => hkeep j (by omega)
  · rw [hedit.granted_eq, h.granted_eq, hedit.size_eq]

/-- One tag of the size of several blocks, stamped where they begin, makes one block of them. -/
theorem Divided.restamp (h : a.Divided first (xs ++ mid ++ ys))
    (hproper : Block.Proper ⟨first + Block.totalSize xs, t⟩) (ht : t.size = Block.totalSize mid) :
    ∃ a', a.stamp (first + Block.totalSize xs) t = .ok a' ∧
      a.Edited a' (Block.OnTag ⟨first + Block.totalSize xs, t⟩) ∧
      a'.Divided first (xs ++ ⟨first + Block.totalSize xs, t⟩ :: ys) := by
  have hfirst := h.le_first
  have hsize := h.size_eq
  rw [Block.totalSize_append, Block.totalSize_append] at hsize
  have hlarge : 48 ≤ t.size := hproper.le_size
  obtain ⟨a', hstamp, hmarks, hedit⟩ :=
    stamp_run (a := a) (x := first + Block.totalSize xs) (t := t) (by omega) (by omega) (by omega)
  refine ⟨a', hstamp, hedit, ?_⟩
  have hmid : a'.Tiled (first + Block.totalSize xs) [⟨first + Block.totalSize xs, t⟩]
      (first + Block.totalSize xs + Block.totalSize mid) :=
    ⟨⟨rfl, hproper, hmarks⟩, by rw [← ht]; rfl⟩
  have hreplaced := h.replace hedit (fun j hj => ?_) hmid
  · rwa [List.append_assoc, List.singleton_append] at hreplaced
  · change first + Block.totalSize xs - 8 ≤ j ∧ j < first + Block.totalSize xs ∨
      first + Block.totalSize xs + t.size - 16 ≤ j ∧
        j < first + Block.totalSize xs + t.size - 8 at hj
    omega

/-- A block is divided by stamping its lower part, and then what is left behind that. -/
theorem Divided.divide (h : a.Divided first (xs ++ b :: ys)) (hlower : Block.Proper ⟨b.start, t⟩)
    (hupper : Block.Proper ⟨b.start + t.size, u⟩) (hsum : t.size + u.size = b.size) :
    ∃ a₁ a₂, a.stamp b.start t = .ok a₁ ∧ a₁.next b.start = .ok (b.start + t.size) ∧
      a₁.stamp (b.start + t.size) u = .ok a₂ ∧
      a.Edited a₂ (fun j => Block.OnTag ⟨b.start, t⟩ j ∨ Block.OnTag ⟨b.start + t.size, u⟩ j) ∧
      a₂.Divided first (xs ++ ⟨b.start, t⟩ :: ⟨b.start + t.size, u⟩ :: ys) := by
  have hfirst := h.le_first
  have hbounds := h.bounds h.mem_middle
  have hstart := h.start_eq
  have hlt := a.size_lt
  have hlowerSize : 48 ≤ t.size := hlower.le_size
  have hupperSize : 48 ≤ u.size := hupper.le_size
  have hmod : t.size % 16 = 0 := hlower.size_mod
  obtain ⟨a₁, hstamp₁, hmarks₁, hedit₁⟩ :=
    stamp_run (a := a) (x := b.start) (t := t) (by omega) (by omega) (by omega)
  have hsize₁ := hedit₁.size_eq
  obtain ⟨a₂, hstamp₂, hmarks₂, hedit₂⟩ :=
    stamp_run (a := a₁) (x := b.start + t.size) (t := u) (by omega) (by omega) (by omega)
  have hheader : a₁.header b.start = .ok t :=
    hmarks₁.header_eq (by omega) (by omega) (by omega)
  have hnext : a₁.next b.start = .ok (b.start + t.size) :=
    next_of_header hheader (by omega)
  -- The second stamp begins behind the footer of the first block.
  have hkept : a₂.Marks ⟨b.start, t⟩ := by
    refine hmarks₁.congr (show 8 ≤ b.start by omega) hlower fun j hj =>
      hedit₂.read_eq j fun hother => ?_
    change b.start - 8 ≤ j ∧ j < b.start ∨
      b.start + t.size - 16 ≤ j ∧ j < b.start + t.size - 8 at hj
    change b.start + t.size - 8 ≤ j ∧ j < b.start + t.size ∨
      b.start + t.size + u.size - 16 ≤ j ∧ j < b.start + t.size + u.size - 8 at hother
    omega
  have hedit := hedit₁.trans hedit₂
  refine ⟨a₁, a₂, hstamp₁, hnext, hstamp₂, hedit, ?_⟩
  have hmid : a₂.Tiled (first + Block.totalSize xs) [⟨b.start, t⟩, ⟨b.start + t.size, u⟩]
      (first + Block.totalSize xs + Block.totalSize [b]) := by
    refine ⟨⟨hstart, hlower, hkept⟩, ⟨?_, hupper, hmarks₂⟩, ?_⟩
    · rw [Block.size_mk, hstart]
    · simp only [Tiled, Block.size_mk, Block.totalSize_cons, Block.totalSize_nil]
      omega
  have hsplit : a.Divided first (xs ++ [b] ++ ys) := by simpa using h
  have hreplaced := hsplit.replace hedit (fun j hj => ?_) hmid
  · simpa using hreplaced
  · rw [Block.totalSize_cons, Block.totalSize_nil]
    change (b.start - 8 ≤ j ∧ j < b.start ∨
        b.start + t.size - 16 ≤ j ∧ j < b.start + t.size - 8) ∨
      b.start + t.size - 8 ≤ j ∧ j < b.start + t.size ∨
        b.start + t.size + u.size - 16 ≤ j ∧ j < b.start + t.size + u.size - 8 at hj
    omega

/-- Writing a range puts its bytes in place and changes nothing else. -/
theorem write_run (a : Arena) (start count : Nat) (f : Nat → UInt8)
    (hin : start + count ≤ a.size) :
    ∃ a', a.write start count f = .ok a' ∧
      (∀ i, i < count → a'.memory.read (start + i) = f i) ∧
      a.Edited a' fun j => start ≤ j ∧ j < start + count := by
  have hextent : a.size ≤ a.memory.extent := a.memory.size_le_extent
  refine ⟨_, write_eq_ok_iff.mpr ⟨hin, rfl⟩, fun i hi => ?_, ?_⟩
  · rw [Memory.read_write, if_pos (by omega), Nat.add_sub_cancel_left]
  · refine ⟨Memory.size_write .., rfl, Memory.limit_write .., ?_⟩
    intro j hj
    rw [Memory.read_write, if_neg fun hin => hj ⟨hin.1, hin.2.1⟩]

/-- No tag of an arena in order shares a position with the payload of a block. -/
theorem Divided.tag_apart {c : Block} {j : Nat} (h : a.Divided first bs) (hb : b ∈ bs) (hc : c ∈ bs)
    (hj : b.InPayload j) : ¬ c.OnTag j := by
  have hbsize := (h.proper hb).le_size
  have hcsize := (h.proper hc).le_size
  have hbstart := h.bounds hb
  have hcstart := h.bounds hc
  unfold Block.InPayload at hj
  unfold Block.OnTag
  rcases h.apart hb hc with rfl | hbelow | habove
  · omega
  · omega
  · omega

/-- An arena stays in order when only payloads change. -/
theorem Divided.overwrite (h : a.Divided first bs) (hedit : a.Edited a' P)
    (hP : ∀ j, P j → ∃ b ∈ bs, b.InPayload j) : a'.Divided first bs := by
  have hkeep {j : Nat} (hj : ∀ b ∈ bs, ¬ b.InPayload j) :
      a'.memory.read j = a.memory.read j :=
    hedit.read_eq j fun hPj => by
      obtain ⟨b, hb, hin⟩ := hP j hPj
      exact hj b hb hin
  have hfirst := h.le_first
  have houter {j : Nat} (hj : j < first - 8 ∨ a.size - 8 ≤ j) : ∀ b ∈ bs, ¬ b.InPayload j := by
    intro b hb hin
    have hbounds := h.bounds hb
    unfold Block.InPayload at hin
    omega
  refine ⟨h.le_first, h.first_mod, ?_, ?_, ?_, ?_⟩
  · rw [← h.prologue]
    exact Memory.wordAt_congr fun j _ hj => hkeep (houter (by omega))
  · rw [hedit.size_eq]
    refine h.tiled.congr_tags (by omega) fun c hc j hj => hkeep ?_
    intro b hb hin
    exact h.tag_apart hb hc hin hj
  · rw [hedit.size_eq, ← h.epilogue]
    exact Memory.wordAt_congr fun j hj _ => hkeep (houter (by omega))
  · rw [hedit.granted_eq, h.granted_eq, hedit.size_eq]

/-- An arena grows by whole granules as long as they are within its limit. -/
theorem grow_of_le {amount : Nat} (hmod : amount % 16 = 0)
    (hroom : amount ≤ a.memory.limit - a.memory.size) :
    (a.grow amount).outcome =
      .ok (.ok a.size, ⟨a.memory.grant amount hroom, a.granted + amount⟩) := by
  rw [grow, if_pos hmod]
  unfold Memory.extend
  rw [dif_pos hroom]
  rfl

/-- An arena that would outgrow its limit says so, and stays as it is. -/
theorem grow_of_lt {amount : Nat} (hmod : amount % 16 = 0)
    (hroom : a.memory.limit - a.memory.size < amount) :
    (a.grow amount).outcome =
      .ok (.error (.exhausted amount (a.memory.limit - a.memory.size)), a) := by
  rw [grow, if_pos hmod]
  unfold Memory.extend
  rw [dif_neg (Nat.not_le.mpr hroom)]
  rfl

/-- Ending the blocks at an offset puts the last tag in front of it and changes nothing else. -/
theorem stampEnd_run (a : Arena) (hx : 8 ≤ x) (hin : x ≤ a.size) :
    ∃ a', a.stampEnd x = .ok a' ∧ a'.memory.wordAt (x - 8) = Tag.epilogue.toWord ∧
      a.Edited a' fun j => x - 8 ≤ j ∧ j < x := by
  have hslot := headerOffset_of_le hx
  obtain ⟨a', hput, hword, hedit⟩ :=
    put_run a (x - 8) Tag.epilogue.toWord (by omega) (by decide)
  refine ⟨a', ?_, hword, hedit.mono fun j hj => ⟨hj.1, by omega⟩⟩
  rw [stampEnd, hslot, Fault.ok_bind, hput]

/-- A block behind all others and a new last tag behind it extend a division. -/
theorem Divided.append (h : a.Divided first bs) (hproper : Block.Proper ⟨a.size, t⟩)
    (hbelow : ∀ j, j < a.size - 8 → a'.memory.read j = a.memory.read j)
    (hmarks : a'.Marks ⟨a.size, t⟩) (hsize : a'.size = a.size + t.size)
    (hend : a'.memory.wordAt (a.size + t.size - 8) = Tag.epilogue.toWord)
    (hgranted : a'.granted = a.granted + t.size) : a'.Divided first (bs ++ [⟨a.size, t⟩]) := by
  have hfirst := h.le_first
  have hold := h.size_eq
  refine ⟨h.le_first, h.first_mod, ?_, ?_, ?_, ?_⟩
  · rw [← h.prologue]
    exact Memory.wordAt_congr fun j _ hj => hbelow j (by omega)
  · rw [tiled_append, ← hold]
    exact ⟨h.tiled.congr (by omega) fun j _ hj => hbelow j hj, ⟨rfl, hproper, hmarks⟩, hsize.symm⟩
  · rw [hsize]
    exact hend
  · have hbefore := h.granted_eq
    omega

/-- Growing adds one block behind all others. Its header takes the place of the tag that
ended the blocks, and a new such tag ends the arena. Everything else is kept. -/
theorem Divided.grow {amount : Nat} (h : a.Divided first bs)
    (hproper : Block.Proper ⟨a.size, .free amount⟩)
    (hroom : amount ≤ a.memory.limit - a.memory.size) :
    ∃ a₁ a₂ a₃, (a.grow amount).outcome = .ok (.ok a.size, a₁) ∧
      a₁.stamp a.size (.free amount) = .ok a₂ ∧ a₂.next a.size = .ok (a.size + amount) ∧
      a₂.stampEnd (a.size + amount) = .ok a₃ ∧
      (∀ j, ¬ Block.OnTag ⟨a.size, .free amount⟩ j → ¬ (a₃.size - 8 ≤ j ∧ j < a₃.size) →
        a₃.memory.read j = a.memory.read j) ∧
      a₃.memory.limit = a.memory.limit ∧ a₃.Divided first (bs ++ [⟨a.size, .free amount⟩]) := by
  have hlarge : 48 ≤ amount := hproper.le_size
  have hmod : amount % 16 = 0 := hproper.size_mod
  have hfirst := h.le_first
  have hsize := h.size_eq
  let a₁ : Arena := ⟨a.memory.grant amount hroom, a.granted + amount⟩
  have hgrow : (a.grow amount).outcome = .ok (.ok a.size, a₁) := grow_of_le hmod hroom
  have hsize₁ : a₁.size = a.size + amount := Memory.size_grant ..
  have hread₁ (j : Nat) : a₁.memory.read j = a.memory.read j := Memory.read_grant ..
  have hlt := a₁.size_lt
  have htag : (Tag.free amount).size = amount := Tag.size_free amount
  obtain ⟨a₂, hstamp, hmarks, hedit₂⟩ := stamp_run (a := a₁) (x := a.size) (t := .free amount)
    (by omega) (by omega) (by omega)
  have hsize₂ := hedit₂.size_eq
  have hheader : a₂.header a.size = .ok (.free amount) :=
    hmarks.header_eq (by omega) (by omega) (by omega)
  have hnext : a₂.next a.size = .ok (a.size + amount) := next_of_header hheader (by omega)
  obtain ⟨a₃, hend, hword, hedit₃⟩ :=
    a₂.stampEnd_run (show 8 ≤ a.size + amount by omega) (by omega)
  -- granting writes nothing, so only the new tags and the new end can differ
  have hkept (j : Nat) (htag : ¬ Block.OnTag ⟨a.size, .free amount⟩ j)
      (hlast : ¬ (a₃.size - 8 ≤ j ∧ j < a₃.size)) : a₃.memory.read j = a.memory.read j := by
    rw [hedit₃.read_eq j (by have hsize₃ := hedit₃.size_eq; omega), hedit₂.read_eq j htag, hread₁]
  have hbelow (j : Nat) (hj : j < a.size - 8) : a₃.memory.read j = a.memory.read j := by
    have hsize₃ := hedit₃.size_eq
    apply hkept j
    · change ¬ (a.size - 8 ≤ j ∧ j < a.size ∨
        a.size + amount - 16 ≤ j ∧ j < a.size + amount - 8)
      omega
    · omega
  have hmarks₃ : a₃.Marks ⟨a.size, .free amount⟩ := by
    have hlow : 8 ≤ a.size := by omega
    refine hmarks.congr hlow hproper fun j hj => hedit₃.read_eq j ?_
    change a.size - 8 ≤ j ∧ j < a.size ∨
      a.size + amount - 16 ≤ j ∧ j < a.size + amount - 8 at hj
    omega
  have hlimit : a₃.memory.limit = a.memory.limit := by
    rw [hedit₃.limit_eq, hedit₂.limit_eq]
    exact Memory.limit_grant ..
  have hsize₃ : a₃.size = a.size + amount := (hedit₃.size_eq.trans hsize₂).trans hsize₁
  have hgranted : a₃.granted = a.granted + amount := hedit₃.granted_eq.trans hedit₂.granted_eq
  exact ⟨a₁, a₂, a₃, hgrow, hstamp, hnext, hend, hkept, hlimit,
    h.append hproper hbelow hmarks₃ hsize₃ hword hgranted⟩

end SegregatedFit.Arena
