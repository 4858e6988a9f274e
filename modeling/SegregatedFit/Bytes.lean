/-!
# Bytes

A byte buffer seen as a function from positions to bytes that is zero past its end. Writing
and padding are described by what they do to that function (`read_put`, `read_write`,
`read_pad`), and nothing later looks inside a buffer.
-/

namespace SegregatedFit.Bytes

/-- The byte at a position; past the end every byte is zero. -/
def read (b : ByteArray) (i : Nat) : UInt8 := if h : i < b.size then b[i] else 0

/-- Changes the byte at a position; past the end nothing happens. -/
def put (b : ByteArray) (i : Nat) (v : UInt8) : ByteArray :=
  if h : i < b.size then b.set i v h else b

/-- Writes `count` bytes from `start` on, the one at distance `i` being `f i`. -/
def write (b : ByteArray) (start count : Nat) (f : Nat → UInt8) : ByteArray :=
  count.fold (fun i _ b => put b (start + i) (f i)) b

/-- Appends zeros. -/
def pad (b : ByteArray) (count : Nat) : ByteArray := count.fold (fun _ _ b => b.push 0) b

/-- The buffer of the bytes `f 0`, `f 1`, and so on. -/
def tabulate (count : Nat) (f : Nat → UInt8) : ByteArray :=
  count.fold (fun i _ b => b.push (f i)) (ByteArray.emptyWithCapacity count)

/-- Behind the last byte, zero is read. -/
theorem read_of_le {b : ByteArray} {i : Nat} (h : b.size ≤ i) : read b i = 0 :=
  dif_neg (Nat.not_lt.mpr h)

/-- Buffers of one length are told apart by their bytes. -/
theorem ext {b c : ByteArray} (hsize : b.size = c.size) (hread : ∀ i, read b i = read c i) :
    b = c := by
  refine ByteArray.ext_getElem hsize fun i hb hc => ?_
  have hi := hread i
  rw [read, read, dif_pos hb, dif_pos hc] at hi
  exact hi

/-- Storing a byte keeps the number of bytes. -/
@[simp] theorem size_put (b : ByteArray) (i : Nat) (v : UInt8) : (put b i v).size = b.size := by
  obtain ⟨data⟩ := b
  unfold put
  split
  · exact Array.size_set _
  · rfl

private theorem read_put (b : ByteArray) (i j : Nat) (v : UInt8) :
    read (put b i v) j = if j = i ∧ i < b.size then v else read b j := by
  obtain ⟨data⟩ := b
  by_cases hi : i < data.size
  · have hput : put ⟨data⟩ i v = ⟨data.set i v hi⟩ := dif_pos hi
    rw [hput]
    by_cases hj : j < data.size
    · have hread : read ⟨data.set i v hi⟩ j = getElem (data.set i v hi) j (by simpa using hj) :=
        dif_pos (by simpa [ByteArray.size] using hj)
      have hold : read ⟨data⟩ j = data[j] := dif_pos hj
      rw [hread, hold, Array.getElem_set]
      have hsize : i < (ByteArray.mk data).size := hi
      simp [hsize, eq_comm]
    · have hne : j ≠ i := by omega
      rw [read_of_le (by simpa [ByteArray.size] using hj),
        read_of_le (b := ⟨data⟩) (by simpa [ByteArray.size] using hj)]
      simp [hne]
  · have hput : put ⟨data⟩ i v = ⟨data⟩ := dif_neg hi
    have hsize : ¬ i < (ByteArray.mk data).size := hi
    simp [hput, hsize]

/-- Writing a run of bytes keeps the number of bytes. -/
@[simp] theorem size_write (b : ByteArray) (start count : Nat) (f : Nat → UInt8) :
    (write b start count f).size = b.size := by
  induction count with
  | zero => rfl
  | succ n ih =>
    unfold write at ih ⊢
    rw [Nat.fold_succ, size_put, ih]

/-- A write changes exactly the bytes of its range that the buffer has. -/
theorem read_write (b : ByteArray) (start count : Nat) (f : Nat → UInt8) (j : Nat) :
    read (write b start count f) j =
      if start ≤ j ∧ j < start + count ∧ j < b.size then f (j - start) else read b j := by
  induction count with
  | zero => simp [write, show ¬ (start ≤ j ∧ j < start ∧ j < b.size) by omega]
  | succ n ih =>
    have hstep : write b start (n + 1) f = put (write b start n f) (start + n) (f n) := by
      simp [write, Nat.fold_succ]
    rw [hstep, read_put, ih, size_write]
    by_cases hj : j = start + n
    · subst hj
      by_cases hb : start + n < b.size <;> simp [hb]
    · by_cases hr : start ≤ j ∧ j < start + n ∧ j < b.size
      · simp [hj, hr, show j < start + (n + 1) by omega]
      · have hr' : ¬ (start ≤ j ∧ j < start + (n + 1) ∧ j < b.size) := by omega
        simp [hj, hr, hr']

/-- Appending a byte makes the array longer by one. -/
@[simp] theorem size_push (b : ByteArray) (v : UInt8) : (b.push v).size = b.size + 1 := by
  obtain ⟨data⟩ := b
  exact Array.size_push v

private theorem read_push (b : ByteArray) (v : UInt8) (j : Nat) :
    read (b.push v) j = if j = b.size then v else read b j := by
  obtain ⟨data⟩ := b
  by_cases hj : j < data.size
  · have hread : read (ByteArray.mk data |>.push v) j =
        getElem (data.push v) j (by rw [Array.size_push]; omega) :=
      dif_pos (by rw [size_push]; exact Nat.lt_succ_of_lt hj)
    have hold : read ⟨data⟩ j = data[j] := dif_pos hj
    have hne : j ≠ (ByteArray.mk data).size := Nat.ne_of_lt hj
    rw [hread, hold, if_neg hne, Array.getElem_push_lt hj]
  · by_cases he : j = data.size
    · subst he
      have hread : read (ByteArray.mk data |>.push v) data.size =
          getElem (data.push v) data.size (by simp) :=
        dif_pos (by rw [size_push]; exact Nat.lt_succ_self _)
      rw [hread, Array.getElem_push_eq]
      exact (if_pos rfl).symm
    · have hne : j ≠ (ByteArray.mk data).size := he
      have hsize : (ByteArray.mk data).size = data.size := rfl
      rw [if_neg hne, read_of_le (by rw [size_push, hsize]; omega),
        read_of_le (b := ⟨data⟩) (by rw [hsize]; omega)]

/-- Padding adds exactly the number of bytes asked for. -/
@[simp] theorem size_pad (b : ByteArray) (count : Nat) : (pad b count).size = b.size + count := by
  induction count with
  | zero => rfl
  | succ n ih =>
    unfold pad at ih ⊢
    rw [Nat.fold_succ, size_push, ih, Nat.add_assoc]

/-- Padding cannot be seen: the bytes past the end are zero before and after. -/
@[simp] theorem read_pad (b : ByteArray) (count j : Nat) : read (pad b count) j = read b j := by
  induction count with
  | zero => rfl
  | succ n ih =>
    have hstep : pad b (n + 1) = (pad b n).push 0 := by simp [pad, Nat.fold_succ]
    rw [hstep, read_push, ih]
    split
    · next hj => rw [read_of_le (by rw [hj, size_pad]; omega)]
    · rfl

private theorem size_pushes (count capacity : Nat) (f : Nat → UInt8) :
    (count.fold (fun i _ (b : ByteArray) => b.push (f i))
      (ByteArray.emptyWithCapacity capacity)).size = count := by
  induction count with
  | zero => rfl
  | succ n ih => rw [Nat.fold_succ, size_push, ih]

/-- A table has as many bytes as it was asked to have. -/
@[simp] theorem size_tabulate (count : Nat) (f : Nat → UInt8) :
    (tabulate count f).size = count := size_pushes count count f

/-- A table holds the values of the function it was made from, and zero behind them. -/
theorem read_tabulate (count : Nat) (f : Nat → UInt8) (j : Nat) :
    read (tabulate count f) j = if j < count then f j else 0 := by
  suffices h : ∀ n : Nat, read (n.fold (fun i _ (b : ByteArray) => b.push (f i))
      (ByteArray.emptyWithCapacity count)) j = if j < n then f j else 0 from h count
  intro n
  induction n with
  | zero => exact read_of_le (Nat.zero_le j)
  | succ n ih =>
    rw [Nat.fold_succ, read_push, size_pushes, ih]
    by_cases hj : j = n
    · simp [hj]
    · by_cases hlt : j < n
      · simp [hj, hlt, Nat.lt_succ_of_lt hlt]
      · simp [hj, hlt, show ¬ j < n + 1 by omega]

end SegregatedFit.Bytes
