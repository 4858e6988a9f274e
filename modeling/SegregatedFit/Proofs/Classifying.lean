import Mathlib.Order.Fin.Basic
import Mathlib.Order.GaloisConnection.Basic
import SegregatedFit.SizeClass

/-!
# Classes and what they guarantee

The guarantees of the classes go up with them, and each is the least size of its class. So whether
a size belongs to a class or a higher one can be asked either way: of the class that the size falls
into, or of the guarantee that it reaches. A search for a class that serves a need asks the
guarantees from the other side, and finds the first class whose sizes are all large enough.
-/

namespace SegregatedFit

/-- Behind the first one, each boundary is twice the one before. -/
theorem classBoundary_add_two (i : Nat) : classBoundary (i + 2) = 2 * classBoundary (i + 1) := by
  simp only [classBoundary, Nat.shiftLeft_eq, Nat.pow_succ]
  rw [← Nat.mul_assoc, Nat.mul_comm]

namespace SizeClass

variable {c d : SizeClass} {size need : Nat}

/-- All sizes of a class and of the higher ones are at least as large as a need. -/
def Covers (c : SizeClass) (need : Nat) : Prop := ∀ size, c ≤ ofSize size → need ≤ size

private theorem guarantee_strictMono : StrictMono guarantee := fun _ _ hlt =>
  strictMono_nat_of_lt_succ classBoundary_lt_succ hlt

/-- The guarantee of a class and the class of a size form a Galois connection. -/
theorem gc_guarantee_ofSize : GaloisConnection guarantee ofSize := fun _ _ => le_ofSize_iff.symm

/-- What a class guarantees is a size of that class. -/
theorem ofSize_guarantee (c : SizeClass) : ofSize c.guarantee = c :=
  le_antisymm (guarantee_strictMono.le_iff_le.mp (guarantee_ofSize_le _))
    (gc_guarantee_ofSize.le_u_l c)

/-- A class covers what it guarantees and no more. -/
theorem covers_iff : c.Covers need ↔ need ≤ c.guarantee := by
  constructor
  · intro hcovers
    exact hcovers _ (gc_guarantee_ofSize.le_u_l c)
  · intro hneed size hsize
    exact hneed.trans (le_ofSize_iff.mp hsize)

/-- Below the last class, the sizes of a class are those from its guarantee up to its capacity. -/
theorem ofSize_eq_iff (hc : c ≠ last) :
    ofSize size = c ↔ c.guarantee ≤ size ∧ size < c.capacity := by
  constructor
  · rintro rfl
    exact ⟨guarantee_ofSize_le size, lt_capacity_ofSize hc⟩
  · rintro ⟨hlow, hhigh⟩
    refine le_antisymm (not_lt.mp fun hlt => ?_) (le_ofSize_iff.mpr hlow)
    -- the capacity of a class is the boundary that the next one begins at
    have hnext : c.capacity ≤ (ofSize size).guarantee := classBoundary_mono hlt
    exact absurd (hnext.trans (guarantee_ofSize_le size)) (not_le.mpr hhigh)

/-- Behind the first class, the sizes reach up to twice the guarantee. -/
theorem capacity_eq_double (hc : 0 < c.val) : c.capacity = 2 * c.guarantee := by
  obtain ⟨i, hi⟩ := Nat.exists_eq_succ_of_ne_zero (Nat.ne_of_gt hc)
  rw [capacity, guarantee, hi]
  exact classBoundary_add_two i

/-- In one class behind the first, but not in the last one, no size is twice another one. -/
theorem lt_double_of_ofSize_eq {m n : Nat} (hsame : ofSize m = ofSize n)
    (hlarge : 40 ≤ n) (hlast : ofSize n ≠ last) : m < 2 * n := by
  have hcapacity : m < (ofSize n).capacity := by
    rw [← hsame] at hlast ⊢
    exact lt_capacity_ofSize hlast
  have hfirst : (1 : SizeClass) ≤ ofSize n := le_ofSize_iff.mpr hlarge
  have hguarantee := guarantee_ofSize_le n
  rw [capacity_eq_double hfirst] at hcapacity
  omega

/-- From the class that serves a need on, and only from there on, the classes guarantee it. -/
theorem le_iff_of_qualifying (hneed : 0 < need) (hclass : qualifying? need = some c) :
    c ≤ d ↔ need ≤ d.guarantee := by
  obtain ⟨-, hfit, hleast⟩ := qualifying?_eq_some_iff.mp hclass
  constructor
  · intro hle
    exact hfit.trans (guarantee_strictMono.monotone hle)
  · intro hfits
    refine not_lt.mp fun hlt => ?_
    have hpos : 0 < d.val := by
      refine Nat.pos_of_ne_zero fun hzero => ?_
      have hnothing : d.guarantee = 0 := by rw [guarantee, hzero]; rfl
      omega
    exact absurd (hleast d hpos hlt) (not_lt.mpr hfits)

/-- The class that serves a need is the least one that covers it. -/
theorem isLeast_of_qualifying (hneed : 0 < need) (hclass : qualifying? need = some c) :
    IsLeast {d : SizeClass | d.Covers need} c := by
  constructor
  · exact covers_iff.mpr ((le_iff_of_qualifying hneed hclass).mp le_rfl)
  · intro d hd
    exact (le_iff_of_qualifying hneed hclass).mpr (covers_iff.mp hd)

/-- The class right below the one that serves a need guarantees less. -/
theorem exists_below_qualifying (hneed : 0 < need) (hclass : qualifying? need = some c) :
    ∃ d : SizeClass, d.val + 1 = c.val ∧ d.guarantee < need := by
  have hpos : 0 < c.val := (qualifying?_eq_some_iff.mp hclass).1
  obtain ⟨d, hd⟩ : ∃ d : SizeClass, d.val + 1 = c.val :=
    ⟨⟨c.val - 1, by omega⟩, Nat.sub_add_cancel hpos⟩
  have hlt : d < c := Fin.lt_def.mpr (by omega)
  refine ⟨d, hd, not_le.mp ?_⟩
  rw [← le_iff_of_qualifying hneed hclass]
  exact not_le.mpr hlt

/-- The class that serves a need guarantees at most twice as much. -/
theorem guarantee_le_double (hclass : qualifying? need = some c) (hneed : 40 < need) :
    c.guarantee ≤ 2 * need := by
  have hpositive : 0 < need := by omega
  obtain ⟨d, hd, hshort⟩ := exists_below_qualifying hpositive hclass
  -- the second class guarantees too little, so the one below is not the first
  have hsecond : (1 : SizeClass) < c := by
    rw [← not_le, le_iff_of_qualifying hpositive hclass]
    exact not_le.mpr hneed
  have hfirst : 1 < c.val := hsecond
  have hnext : c.guarantee = d.capacity := by rw [guarantee, ← hd, capacity]
  rw [hnext, capacity_eq_double (by omega)]
  omega

/-- The class of a size and the guarantee of a class are adjoint, so classes go up with sizes, and
below the last one each is an interval. The search for a class that serves a need finds the least
one that covers it: a size that falls short is filed right below, and twice the need is always
filed there or above. It finds none exactly for needs beyond the last guarantee. -/
theorem guarantees_adjoint :
    GaloisConnection guarantee ofSize ∧ Monotone ofSize ∧
    (∀ c size, c ≠ last → (ofSize size = c ↔ c.guarantee ≤ size ∧ size < c.capacity)) ∧
    ∀ need, 0 < need →
      (∀ c, qualifying? need = some c →
        IsLeast {d : SizeClass | d.Covers need} c ∧
        (∃ size, size < need ∧ (ofSize size).val + 1 = c.val) ∧
        (40 < need → ∀ size, 2 * need ≤ size → c ≤ ofSize size)) ∧
      (qualifying? need = none ↔ last.guarantee < need) := by
  refine ⟨gc_guarantee_ofSize, gc_guarantee_ofSize.monotone_u, fun c size hc => ofSize_eq_iff hc,
    fun need hneed => ⟨fun c hclass => ?_, qualifying?_eq_none_iff⟩⟩
  obtain ⟨d, hd, hshort⟩ := exists_below_qualifying hneed hclass
  refine ⟨isLeast_of_qualifying hneed hclass, ⟨d.guarantee, hshort, ?_⟩,
    fun hlarge size hsize => ?_⟩
  · rw [ofSize_guarantee, hd]
  · exact le_ofSize_iff.mpr ((guarantee_le_double hclass hlarge).trans hsize)

/-- A need of 100 is served from class 3 on, whose sizes begin at 160. One more than the last
guarantee is served by none. -/
theorem guarantees_adjoint_of_hundred :
    qualifying? 100 = some 3 ∧ (3 : SizeClass) ≠ last ∧ (0 < 100 ∧ 40 < 100) ∧
    (∀ size, 3 ≤ ofSize size → 100 ≤ size) ∧ (∃ size, size < 100 ∧ (ofSize size).val = 2) ∧
    (∀ size, 200 ≤ size → 3 ≤ ofSize size) ∧
    (∀ size, ofSize size = 3 ↔ 160 ≤ size ∧ size < 320) ∧ qualifying? 10485761 = none := by
  obtain ⟨-, -, hinterval, hneeds⟩ := guarantees_adjoint
  have hclass : qualifying? 100 = some 3 := by decide
  obtain ⟨hserved, -⟩ := hneeds 100 (by decide)
  obtain ⟨hleast, ⟨size, hshort, hbelow⟩, hdouble⟩ := hserved 3 hclass
  exact ⟨hclass, by decide, by decide, hleast.1, ⟨size, hshort, Nat.succ_inj.mp hbelow⟩,
    hdouble (by decide), fun size => hinterval 3 size (by decide),
    (hneeds 10485761 (by decide)).2.mpr (by decide)⟩

end SizeClass

end SegregatedFit
