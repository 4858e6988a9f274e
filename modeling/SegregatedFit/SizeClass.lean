import SegregatedFit.Layout

/-!
# Size classes

Twenty classes divide the sizes at the boundaries 40, 80, 160, and so on: a class takes the
sizes from its guarantee up to, but not including, its capacity, and the last class takes
all larger ones as well. A request may be served without looking at sizes from any class
whose guarantee covers it.
-/

namespace SegregatedFit

/-- How many size classes there are. -/
abbrev classCount : Nat := 20

/-- One of the size classes, in order of size. -/
abbrev SizeClass : Type := Fin classCount

/-- The boundary with number `i`: the first is zero, the next is the smallest block, and
each one after that doubles the one before. -/
def classBoundary : Nat → Nat
  | 0 => 0
  | i + 1 => minBlock <<< i

/-- The boundary with a given number, of the twenty-one that the classes have. -/
def classBoundaryAt (i : Nat) : Except Fault Nat :=
  if i ≤ classCount then .ok (classBoundary i) else .error .outOfRange

namespace SizeClass

/-- The class with a given number. -/
def ofNumber (i : Nat) : Except Fault SizeClass :=
  if h : i < classCount then .ok ⟨i, h⟩ else .error .outOfRange

/-- All classes, smallest sizes first. -/
def all : List SizeClass := List.finRange classCount

/-- The last class, which has no upper end. -/
def last : SizeClass := 19

/-- Every size in the class is below its capacity, unless it is the last class. -/
def capacity (c : SizeClass) : Nat := classBoundary (c.val + 1)

/-- No size in the class is below its guarantee. -/
def guarantee (c : SizeClass) : Nat := classBoundary c.val

/-- The class that a size falls into. -/
def ofSize (size : Nat) : SizeClass :=
  (all.find? fun c => decide (size < capacity c)).getD last

/-- The first class that can serve `need` bytes from any of its blocks. The class of the
smallest sizes guarantees nothing and is never asked. -/
def qualifying? (need : Nat) : Option SizeClass :=
  (all.drop 1).find? fun c => decide (need ≤ guarantee c)

/-- A number is that of a class if it is below the number of classes. -/
theorem ofNumber_eq_ok_iff {i : Nat} {c : SizeClass} : ofNumber i = .ok c ↔ c.val = i := by
  unfold ofNumber
  split
  · simp [Fin.ext_iff, eq_comm]
  · next h =>
    refine ⟨fun hc => (by cases hc), fun hc => absurd (hc ▸ c.isLt) h⟩

/-- Each boundary lies below the next one. -/
theorem classBoundary_lt_succ (i : Nat) : classBoundary i < classBoundary (i + 1) := by
  cases i with
  | zero => exact Nat.zero_lt_succ 39
  | succ i =>
    have hpow : 0 < 2 ^ i := Nat.two_pow_pos i
    simp only [classBoundary, Nat.shiftLeft_eq, Nat.pow_succ]
    unfold minBlock
    omega

/-- The boundaries of the classes rise. -/
theorem classBoundary_mono {i j : Nat} (h : i ≤ j) : classBoundary i ≤ classBoundary j := by
  induction h with
  | refl => exact Nat.le_refl _
  | step _ ih => exact Nat.le_trans ih (Nat.le_of_lt (classBoundary_lt_succ _))

/-- The classes are listed by their numbers. -/
@[simp] theorem getElem_all (i : Nat) (h : i < all.length) :
    all[i] = ⟨i, by simpa [all] using h⟩ := by
  simp [all]

/-- A size is below the capacity of its class, except in the last class. -/
theorem lt_capacity_ofSize {size : Nat} (h : ofSize size ≠ last) :
    size < (ofSize size).capacity := by
  unfold ofSize at h ⊢
  cases hfind : all.find? fun c => decide (size < capacity c) with
  | none => simp [hfind] at h
  | some c => simpa using List.find?_some hfind

/-- A size reaches the guarantee of its class. -/
theorem guarantee_ofSize_le (size : Nat) : (ofSize size).guarantee ≤ size := by
  have hearlier (c : SizeClass) (k : Nat) (hk : k + 1 = c.val)
      (hnot : ¬ size < classBoundary (k + 1)) : guarantee c ≤ size := by
    rw [guarantee, ← hk]
    exact Nat.not_lt.mp hnot
  unfold ofSize
  cases hfind : all.find? fun c => decide (size < capacity c) with
  | none =>
    have hlast := List.find?_eq_none.mp hfind ⟨18, by decide⟩ (by decide)
    exact hearlier last 18 rfl (of_decide_eq_false (Bool.eq_false_iff.mpr hlast))
  | some c =>
    obtain ⟨-, i, hi, hc, hbefore⟩ := List.find?_eq_some_iff_getElem.mp hfind
    have hval : i = c.val := by rw [← hc, getElem_all]
    cases i with
    | zero => simp [guarantee, ← hval, classBoundary]
    | succ k =>
      have hk := hbefore k (Nat.lt_succ_self k)
      exact hearlier c k hval (by simpa [capacity] using hk)

/-- A size belongs to a class or a higher one exactly when it reaches its guarantee. -/
theorem le_ofSize_iff {c : SizeClass} {size : Nat} : c ≤ ofSize size ↔ c.guarantee ≤ size := by
  constructor
  · intro h
    exact Nat.le_trans (classBoundary_mono h) (guarantee_ofSize_le size)
  · intro h
    refine Nat.not_lt.mp fun hlt => ?_
    have hlast : ofSize size ≠ last := by
      intro heq
      rw [heq] at hlt
      exact absurd c.isLt (Nat.not_lt.mpr hlt)
    have hcapacity : (ofSize size).capacity ≤ c.guarantee := classBoundary_mono hlt
    exact absurd (lt_capacity_ofSize hlast) (by omega)

/-- The class that serves a request is the first one, from the second class on, whose
guarantee covers it. -/
theorem qualifying?_eq_some_iff {need : Nat} {c : SizeClass} :
    qualifying? need = some c ↔
      0 < c.val ∧ need ≤ c.guarantee ∧ ∀ d : SizeClass, 0 < d.val → d < c → d.guarantee < need := by
  unfold qualifying?
  rw [List.find?_eq_some_iff_getElem]
  simp only [decide_eq_true_eq, List.getElem_drop, getElem_all, List.length_drop]
  constructor
  · rintro ⟨hneed, i, hi, hc, hbefore⟩
    have hval : 1 + i = c.val := congrArg Fin.val hc
    refine ⟨by omega, hneed, fun d hpos hlt => ?_⟩
    have hd : d.val < c.val := hlt
    have hskip := hbefore (d.val - 1) (by omega)
    simpa [show 1 + (d.val - 1) = d.val by omega] using hskip
  · rintro ⟨hpos, hneed, hleast⟩
    have hlt := c.isLt
    have hlength : all.length = classCount := by simp [all]
    have hval : 1 + (c.val - 1) = c.val := by omega
    have hpositive (j : Nat) : 0 < 1 + j := by omega
    refine ⟨hneed, c.val - 1, by omega, Fin.ext hval, fun j hj => ?_⟩
    have hskip := hleast ⟨1 + j, by omega⟩ (hpositive j) (Fin.mk_lt_of_lt_val (by omega))
    simpa using hskip

/-- No class serves a request that is larger than the guarantee of the last class. -/
theorem qualifying?_eq_none_iff {need : Nat} :
    qualifying? need = none ↔ last.guarantee < need := by
  unfold qualifying?
  rw [List.find?_eq_none]
  constructor
  · intro h
    simpa using h last (by decide)
  · intro h c _
    have hc : c.guarantee ≤ last.guarantee := classBoundary_mono (Nat.le_of_lt_succ c.isLt)
    simp only [decide_eq_true_eq]
    omega

end SizeClass

end SegregatedFit
