import Mathlib.Algebra.BigOperators.Fin
import SegregatedFit.Proofs.Edits

/-!
# Which block was filed last

From the edits that led to some buckets one can tell when each block was filed for the last time,
and every bucket has its blocks in that order, the latest one first. Nothing need be known of the
edits for this, as long as the buckets are lists in the end: a block that is filed while it is
listed is counted twice from then on, and no later edit can make up for it.
-/

namespace SegregatedFit

namespace LinkTable

/-- Changing a link back keeps the number of entries. -/
@[simp] theorem size_setPrev (t : LinkTable) (block prev : Option Nat) :
    (t.setPrev block prev).size = t.size := by
  cases block with
  | none => rfl
  | some b => exact Std.TreeMap.size_modify

/-- Changing a link forward keeps the number of entries. -/
@[simp] theorem size_setNext (t : LinkTable) (block next : Option Nat) :
    (t.setNext block next).size = t.size := by
  cases block with
  | none => rfl
  | some b => exact Std.TreeMap.size_modify

/-- Changing a link back keeps which blocks have an entry. -/
@[simp] theorem contains_setPrev (t : LinkTable) (block prev : Option Nat) (x : Nat) :
    (t.setPrev block prev).contains x = t.contains x := by
  cases block with
  | none => rfl
  | some b => exact Std.TreeMap.contains_modify

end LinkTable

namespace Buckets

/-- How many edits were done when a block was filed for the last time. It is zero for a block that
none of them filed. -/
def lastFiling (edits : List Edit) (x : Nat) : Nat :=
  edits.length - edits.reverse.findIdx fun e => e.filed? == some x

private theorem lastFiling_le (edits : List Edit) (x : Nat) : lastFiling edits x ≤ edits.length :=
  Nat.sub_le ..

private theorem lastFiling_concat (edits : List Edit) (e : Edit) (x : Nat) :
    lastFiling (edits ++ [e]) x =
      if e.filed? = some x then edits.length + 1 else lastFiling edits x := by
  unfold lastFiling
  rw [List.reverse_concat, List.findIdx_cons, List.length_append, List.length_singleton]
  by_cases he : e.filed? = some x
  · simp [he]
  · have hno : (e.filed? == some x) = false := beq_eq_false_iff_ne.mpr he
    rw [hno, cond_false, if_neg he, Nat.add_sub_add_right]

/-- A block is the newest of a bucket when it is listed there, and whatever edits have led to the
buckets, all others that are listed there were filed before it. -/
def Newest (s : Buckets) (c : SizeClass) (p : Nat) : Prop :=
  p ∈ (s.walk c).items ∧ ∀ edits, s.IsHistory edits →
    ∀ q ∈ (s.walk c).items, q ≠ p → lastFiling edits q < lastFiling edits p

end Buckets

open Buckets

namespace Filing

variable {f : Filing} {past edits : List Edit} {e : Edit} {block : Nat}

/-- Every list has its blocks in the order of their last filing, latest first. -/
def Recent (f : Filing) (past : List Edit) : Prop :=
  ∀ c, (f c).Pairwise fun x y => lastFiling past y < lastFiling past x

namespace Recent

private theorem empty : Filing.empty.Recent [] := fun _ => .nil

private theorem nodup (h : f.Recent past) (c : SizeClass) : (f c).Nodup :=
  (h c).imp fun hlt heq => absurd (heq ▸ hlt) (Nat.lt_irrefl _)

private theorem drop (h : f.Recent past) (block : Nat) : (f.drop block).Recent past :=
  fun c => (h c).sublist List.erase_sublist

/-- An edit does not matter to lists without the block that it files. -/
theorem of_unlisted (h : f.Recent past) (hnew : ∀ x ∈ e.filed?, ∀ c, x ∉ f c) :
    f.Recent (past ++ [e]) := by
  have hkept {c : SizeClass} {x : Nat} (hx : x ∈ f c) :
      lastFiling (past ++ [e]) x = lastFiling past x := by
    have hother : e.filed? ≠ some x := fun he => hnew x he c hx
    rw [lastFiling_concat, if_neg hother]
  intro c
  refine (h c).imp_of_mem fun {x y} hx hy hlt => ?_
  rwa [hkept hx, hkept hy]

/-- The block that an edit files comes first, because all others were filed before. -/
theorem push (h : f.Recent past) (he : e.filed? = some block) (hnew : ∀ c, block ∉ f c)
    (c : SizeClass) : (f.push block c).Recent (past ++ [e]) := by
  have hkept : f.Recent (past ++ [e]) := by
    refine h.of_unlisted fun x hx => ?_
    rw [he, Option.mem_some_iff] at hx
    exact hx ▸ hnew
  intro d
  unfold Filing.push
  split
  · refine List.pairwise_cons.mpr ⟨fun y hy => ?_, hkept d⟩
    have hother : e.filed? ≠ some y := by
      rw [he]
      rintro ⟨⟩
      exact hnew d hy
    rw [lastFiling_concat, lastFiling_concat, if_pos he, if_neg hother]
    exact Nat.lt_succ_of_le (lastFiling_le ..)
  · exact hkept d

private theorem edit (h : f.Recent past) (hadmits : f.admits e = true) :
    (f.edit e).2.Recent (past ++ [e]) := by
  cases e with
  | push block size => exact h.push rfl (not_mem_of_admits hadmits) _
  | erase block => exact (h.drop block).of_unlisted fun x hx => by cases hx
  | refile block size =>
    exact (h.drop block).push rfl (not_mem_drop h.nodup block) _

private theorem editAll (h : f.Recent past) (hadmits : f.admitsAll edits = true) :
    (f.editAll edits).2.Recent (past ++ edits) := by
  induction edits generalizing f past with
  | nil => rwa [List.append_nil]
  | cons e rest ih =>
    obtain ⟨hfirst, hlater⟩ := Bool.and_eq_true_iff.mp hadmits
    have hrest := ih (h.edit hfirst) hlater
    rwa [List.append_assoc, List.singleton_append] at hrest

end Recent

end Filing

namespace Buckets

variable {s t : Buckets} {f g : Filing} {edits : List Edit} {answers : List (Option Links)}

/-- How many blocks the buckets have by their lengths. -/
def total (s : Buckets) : Nat := ∑ c, s.length c

/-- The lengths count more blocks than are listed. -/
def Overfull (s : Buckets) : Prop := s.size < s.total

private theorem total_withFirst (s : Buckets) (block size : Nat) :
    (s.withFirst block size).total = s.total + 1 := by
  have hone (c : SizeClass) : (s.withFirst block size).length c =
      s.length c + if SizeClass.ofSize size = c then 1 else 0 := by
    rw [length_withFirst]
    split <;> rfl
  simp only [total, hone, Finset.sum_add_distrib, Finset.sum_ite_eq, Finset.mem_univ, if_true]

private theorem size_withFirst (s : Buckets) (block size : Nat) :
    (s.withFirst block size).size = if s.contains block then s.size else s.size + 1 := by
  simp only [withFirst, Buckets.size, Std.TreeMap.size_insert, LinkTable.contains_setPrev,
    LinkTable.size_setPrev, Buckets.contains]
  rfl

private theorem total_erase {block : Nat} {l : Links} (hl : s.linksOf block = some l)
    (h : s.erase block = .ok (some l, t)) : t.total + 1 = s.total := by
  obtain ⟨d, hd, hpos, -, -⟩ := (erase_of_linksOf_eq_some hl).mp h
  have hone (c : SizeClass) : s.length c = t.length c + if d = c then 1 else 0 := by
    rw [length_erase h, hd]
    simp only [← Fin.ext_iff]
    split
    · next hc =>
      subst hc
      omega
    · rfl
  simp only [total, hone, Finset.sum_add_distrib, Finset.sum_ite_eq, Finset.mem_univ, if_true]

private theorem size_erase {block : Nat} {l : Links} (hl : s.linksOf block = some l)
    (h : s.erase block = .ok (some l, t)) : t.size + 1 = s.size := by
  obtain ⟨d, -, -, -, rfl⟩ := (erase_of_linksOf_eq_some hl).mp h
  have hmem : block ∈ s.links := by
    unfold linksOf at hl
    rw [Std.TreeMap.mem_iff_isSome_getElem?, hl]
    rfl
  have hpos := List.length_pos_of_mem (Std.TreeMap.mem_keys.mpr hmem)
  rw [Std.TreeMap.length_keys] at hpos
  rw [Std.TreeMap.mem_iff_contains] at hmem
  simp only [Buckets.size, LinkTable.bypass, LinkTable.size_setPrev, LinkTable.size_setNext,
    Std.TreeMap.size_erase, hmem, if_true]
  omega

/-- No edit makes up for a block that was counted too often. -/
theorem Overfull.edit (h : s.Overfull) {e : Edit} {answer : Option Links}
    (hedit : s.edit e = .ok (answer, t)) : t.Overfull := by
  -- filing adds one to the total and at most one to the entries, taking out takes one from both
  have hpush {u v : Buckets} (hu : u.Overfull) {block size : Nat}
      (hv : u.push block size = .ok v) : v.Overfull := by
    obtain ⟨-, rfl⟩ := push_eq_ok_iff.mp hv
    have htotal := u.total_withFirst block size
    have hsize := u.size_withFirst block size
    unfold Overfull at hu ⊢
    split at hsize <;> omega
  have herase {block : Nat} {r : Option Links} {u : Buckets} (hr : s.erase block = .ok (r, u)) :
      u.Overfull := by
    cases hl : s.linksOf block with
    | none =>
      rw [erase_of_linksOf_eq_none hl] at hr
      cases hr
      exact h
    | some l =>
      obtain ⟨d, -, -, rfl, -⟩ := (erase_of_linksOf_eq_some hl).mp hr
      have htotal := total_erase hl hr
      have hsize := size_erase hl hr
      unfold Overfull at h ⊢
      omega
  cases e with
  | push block size =>
    obtain ⟨u, hu, heq⟩ := Fault.bind_eq_ok_iff.mp hedit
    cases heq
    exact hpush h hu
  | erase block => exact herase hedit
  | refile block size =>
    obtain ⟨u, hrefile, heq⟩ := Fault.bind_eq_ok_iff.mp hedit
    cases heq
    obtain ⟨⟨r, v⟩, hr, hu⟩ := Fault.bind_eq_ok_iff.mp hrefile
    exact hpush (herase hr) hu

private theorem Overfull.editAll (h : s.Overfull) (hrun : s.editAll edits = .ok (answers, t)) :
    t.Overfull := by
  induction edits generalizing s answers with
  | nil =>
    cases hrun
    exact h
  | cons e rest ih =>
    obtain ⟨answer, u, more, hedit, hrest, -⟩ := editAll_cons_eq_ok_iff.mp hrun
    exact ih (h.edit hedit) hrest

namespace Files

/-- In lists both ways of counting agree. -/
theorem size_eq_total (h : s.Files f) : s.size = s.total := by
  simp only [h.size_eq, total, h.length_eq, Fin.sum_univ_def, Filing.listed, List.length_flatMap]
  rfl

private theorem not_overfull (h : s.Files f) : ¬ s.Overfull :=
  Nat.not_lt.mpr (Nat.le_of_eq h.size_eq_total.symm)

/-- Edits that lead from lists to lists have filed no block that was listed. -/
theorem admitsAll (h : s.Files f) (ht : t.Files g) (hrun : s.editAll edits = .ok (answers, t)) :
    f.admitsAll edits = true := by
  induction edits generalizing s f answers with
  | nil => rfl
  | cons e rest ih =>
    obtain ⟨answer, u, more, hedit, hrest, -⟩ := editAll_cons_eq_ok_iff.mp hrun
    cases hadmits : f.admits e with
    | true =>
      obtain ⟨-, hu⟩ := h.edit_of_ok hadmits hedit
      rw [Filing.admitsAll, hadmits, ih hu hrest]
      rfl
    | false =>
      cases e with
      | push block size =>
        obtain ⟨v, hpush, heq⟩ := Fault.bind_eq_ok_iff.mp hedit
        cases heq
        obtain ⟨-, rfl⟩ := push_eq_ok_iff.mp hpush
        have hlisted : block ∈ f.listed := by
          simpa [Filing.admits] using hadmits
        have hcontains : s.contains block = true := by
          rw [contains_eq_isSome, h.linksOf_isSome_iff]
          exact Filing.mem_listed_iff.mp hlisted
        have hover : (s.withFirst block size).Overfull := by
          rw [Overfull, size_withFirst, if_pos hcontains, total_withFirst, h.size_eq_total]
          exact Nat.lt_succ_self _
        exact absurd (hover.editAll hrest) ht.not_overfull
      | _ => cases hadmits

/-- The first block of a bucket is its newest one. -/
theorem newest (h : s.Files f) {c : SizeClass} {p : Nat} (hp : (f c).head? = some p) :
    s.Newest c p := by
  obtain ⟨older, hlist⟩ := List.head?_eq_some_iff.mp hp
  rw [Newest, h.walk_eq]
  refine ⟨List.mem_of_head? hp, fun edits hhistory q hq hne => ?_⟩
  obtain ⟨answers, hrun⟩ := hhistory
  have hadmits := Files.empty.admitsAll h hrun
  obtain ⟨-, hfiles⟩ := Files.empty.editAll_of_ok hadmits hrun
  have hrecent := Filing.Recent.empty.editAll hadmits c
  have hlists := h.walk_eq c
  rw [hfiles.walk_eq] at hlists
  have heq : (Filing.empty.editAll edits).2 c = f c := congrArg Walk.items hlists
  rw [heq, hlist, List.nil_append, List.pairwise_cons] at hrecent
  rw [hlist] at hq
  exact hrecent.1 q ((List.mem_cons.mp hq).resolve_left hne)

end Files

end Buckets

end SegregatedFit
