import Mathlib.Data.List.Perm.Subperm
import SegregatedFit.Proofs.Filing

/-!
# Buckets through any edits

The buckets behave like twenty lists, whatever blocks are filed, taken out and filed anew. Each
edit of the buckets is matched by one edit of the lists with the same answer, so that after any
run of edits a walk along the links reads a list, and whatever else the buckets tell can be read
off the lists.
-/

namespace SegregatedFit

namespace Buckets

/-- One edit of the buckets and its arguments. -/
inductive Edit where
  /-- Files a block of a given size first in its bucket. -/
  | push (block size : Nat)
  /-- Takes a block out of its bucket. -/
  | erase (block : Nat)
  /-- Files a block by a new size, wherever it was before. -/
  | refile (block size : Nat)

/-- Does one edit. Only taking a block out is answered, with the links that the block had. -/
def edit (s : Buckets) : Edit → Except Fault (Option Links × Buckets)
  | .push block size => do return (none, ← s.push block size)
  | .erase block => s.erase block
  | .refile block size => do return (none, ← s.refile block size)

/-- Does one edit after the other. -/
def editAll (s : Buckets) : List Edit → Except Fault (List (Option Links) × Buckets)
  | [] => .ok ([], s)
  | e :: rest => do
    let (answer, s) ← s.edit e
    let (answers, s) ← s.editAll rest
    return (answer :: answers, s)

/-- The block that an edit files, if it files one. -/
def Edit.filed? : Edit → Option Nat
  | .push block _ => some block
  | .refile block _ => some block
  | .erase _ => none

/-- A sequence of edits succeeds exactly if its first edit does, and then the others. -/
theorem editAll_cons_eq_ok_iff {s t : Buckets} {e : Edit} {rest : List Edit}
    {answers : List (Option Links)} : s.editAll (e :: rest) = .ok (answers, t) ↔
      ∃ answer u more, s.edit e = .ok (answer, u) ∧ u.editAll rest = .ok (more, t) ∧
        answers = answer :: more := by
  simp only [editAll, Fault.bind_eq_ok_iff, Prod.exists]
  constructor
  · rintro ⟨answer, u, hedit, more, _, hrest, heq⟩
    cases heq
    exact ⟨answer, u, more, hedit, hrest, rfl⟩
  · rintro ⟨answer, u, more, hedit, hrest, rfl⟩
    exact ⟨answer, u, hedit, more, t, hrest, rfl⟩

/-- Later edits go on from where the earlier ones have led. -/
theorem editAll_append {s t u : Buckets} {edits later : List Edit}
    {answers more : List (Option Links)} (h : s.editAll edits = .ok (answers, t))
    (h' : t.editAll later = .ok (more, u)) :
    s.editAll (edits ++ later) = .ok (answers ++ more, u) := by
  induction edits generalizing s answers with
  | nil =>
    cases h
    exact h'
  | cons e rest ih =>
    obtain ⟨answer, v, between, hedit, hrest, rfl⟩ := editAll_cons_eq_ok_iff.mp h
    exact editAll_cons_eq_ok_iff.mpr ⟨answer, v, _, hedit, ih hrest, rfl⟩

/-- Edits that lead from empty buckets to these. -/
def IsHistory (s : Buckets) (edits : List Edit) : Prop :=
  ∃ answers, Buckets.empty.editAll edits = .ok (answers, s)

end Buckets

namespace Filing

/-- The class of the list that a block is in, and what stands before and behind it there. -/
def linksOf (f : Filing) (x : Nat) : Option Links :=
  (SizeClass.all.find? fun c => (f c).contains x).map fun c =>
    let i := (f c).idxOf x
    ⟨if i = 0 then none else (f c)[i - 1]?, (f c)[i + 1]?, c⟩

/-- One edit of the lists: a block is put in front of the list of its class, or removed from
whichever list it is in, or first removed and then put in front. -/
def edit (f : Filing) : Buckets.Edit → Option Links × Filing
  | .push block size => (none, f.push block (.ofSize size))
  | .erase block => (f.linksOf block, f.drop block)
  | .refile block size => (none, (f.drop block).push block (.ofSize size))

/-- One edit of the lists after the other. -/
def editAll (f : Filing) : List Buckets.Edit → List (Option Links) × Filing
  | [] => ([], f)
  | e :: rest =>
    let (answer, f) := f.edit e
    let (answers, f) := f.editAll rest
    (answer :: answers, f)

/-- Only a block that is in no list may be filed without being taken out first. -/
def admits (f : Filing) : Buckets.Edit → Bool
  | .push block _ => !f.listed.contains block
  | _ => true

/-- Whether each edit is admitted by the lists as the edits before it left them. -/
def admitsAll (f : Filing) : List Buckets.Edit → Bool
  | [] => true
  | e :: rest => f.admits e && (f.edit e).2.admitsAll rest

/-- A block that may be filed right away is in no list. -/
theorem not_mem_of_admits {f : Filing} {block size : Nat}
    (h : f.admits (.push block size) = true) (c : SizeClass) : block ∉ f c := by
  intro hmem
  have hlisted := mem_listed_iff.mpr ⟨c, hmem⟩
  simp [admits, hlisted] at h

/-- A block in the middle of a list has its neighbours there as links. -/
theorem linksOf_of_split {f : Filing} {c : SizeClass} {lower upper : List Nat} {x : Nat}
    (hlist : f c = lower ++ x :: upper) (hlower : x ∉ lower) (honly : ∀ d, x ∈ f d → d = c) :
    f.linksOf x = some ⟨lower.getLast?, upper.head?, c⟩ := by
  have hmem : x ∈ f c := hlist ▸ List.mem_append_right _ List.mem_cons_self
  have hfind : (SizeClass.all.find? fun d => (f d).contains x) = some c := by
    obtain ⟨d, hfound⟩ : ∃ d, (SizeClass.all.find? fun d => (f d).contains x) = some d := by
      rw [← Option.isSome_iff_exists, List.find?_isSome]
      exact ⟨c, List.mem_finRange c, List.contains_iff_mem.mpr hmem⟩
    have hd : (f d).contains x = true := List.find?_some (p := fun d => (f d).contains x) hfound
    rw [hfound, honly d (List.contains_iff_mem.mp hd)]
  have hindex : (f c).idxOf x = lower.length := by
    rw [hlist, List.idxOf_append_of_notMem hlower, List.idxOf_cons_self, Nat.add_zero]
  have hprev : (if lower.length = 0 then none else (f c)[lower.length - 1]?) = lower.getLast? := by
    rw [hlist, List.getLast?_eq_getElem?]
    split
    · next hempty => rw [List.length_eq_zero_iff.mp hempty]; rfl
    · next hlong => exact List.getElem?_append_left (by omega)
  have hnext : (f c)[lower.length + 1]? = upper.head? := by
    rw [hlist, List.getElem?_append_right (by omega), Nat.add_sub_cancel_left,
      List.getElem?_cons_succ, List.head?_eq_getElem?]
  unfold linksOf
  simp only [hfind, Option.map_some, hindex, hprev, hnext]

end Filing

/-- What the buckets tell is read off the lists: no block is twice in them, and walks, heads,
lengths and links are those of the lists. -/
structure Buckets.Shows (s : Buckets) (f : Filing) : Prop where
  nodup : f.listed.Nodup
  walk_eq : ∀ c, s.walk c = ⟨f c, none⟩
  head_eq : ∀ c, s.head c = (f c).head?
  length_eq : ∀ c, s.length c = (f c).length
  contains_iff : ∀ x, s.contains x = true ↔ ∃ c, x ∈ f c
  size_eq : s.size = f.listed.length
  linksOf_eq : ∀ x, s.linksOf x = f.linksOf x

namespace Buckets.Files

variable {s : Buckets} {f : Filing}

/-- The links of the table are those in the lists. -/
theorem linksOf_eq_linksOf (h : s.Files f) (x : Nat) : s.linksOf x = f.linksOf x := by
  by_cases hx : ∃ c, x ∈ f c
  · obtain ⟨c, hmem⟩ := hx
    obtain ⟨lower, upper, hlist⟩ := List.append_of_mem hmem
    have hnodup := h.nodup c
    rw [hlist, List.nodup_middle, List.nodup_cons] at hnodup
    have hlower : x ∉ lower := fun hlow => hnodup.1 (List.mem_append_left _ hlow)
    rw [h.linksOf_eq hlist, Filing.linksOf_of_split hlist hlower fun d hd => h.apart hd hmem]
  · have hnot := not_exists.mp hx
    have hfind : (SizeClass.all.find? fun c => (f c).contains x) = none := by
      rw [List.find?_eq_none]
      exact fun c _ hc => hnot c (List.contains_iff_mem.mp hc)
    rw [h.unlisted hnot, Filing.linksOf, hfind, Option.map_none]

private theorem shows (h : s.Files f) : s.Shows f where
  nodup := h.nodup_listed
  walk_eq := h.walk_eq
  head_eq := h.head_eq
  length_eq := h.length_eq
  contains_iff x := by rw [contains_eq_isSome, h.linksOf_isSome_iff]
  size_eq := h.size_eq
  linksOf_eq := h.linksOf_eq_linksOf

/-- A block that is in no list is filed in front of the list of its class, unless that list gets
too long to be counted. -/
private theorem file_or (h : s.Files f) {block : Nat} (hnew : ∀ c, block ∉ f c) (size : Nat) :
    (∃ t, (do return (none, ← s.push block size) : Except Fault (Option Links × Buckets)) =
        .ok (none, t) ∧ t.Files (f.push block (.ofSize size))) ∨
      (do return (none, ← s.push block size) : Except Fault (Option Links × Buckets)) =
        .error .overflow ∧ ¬ (f.push block (.ofSize size)).Counted := by
  rcases h.push_or block size with hpush | ⟨hpush, hlong⟩
  · exact Or.inl ⟨_, by rw [hpush]; rfl, h.withFirst hnew⟩
  · exact Or.inr ⟨by rw [hpush]; rfl, hlong⟩

/-- An edit that the lists admit is answered as the lists answer it, unless a list gets too long
to be counted. -/
theorem edit (h : s.Files f) {e : Edit} (hadmits : f.admits e = true) :
    (∃ t, s.edit e = .ok ((f.edit e).1, t) ∧ t.Files (f.edit e).2) ∨
      s.edit e = .error .overflow ∧ ¬ (f.edit e).2.Counted := by
  cases e with
  | push block size => exact h.file_or (Filing.not_mem_of_admits hadmits) size
  | erase block =>
    obtain ⟨t, herase, ht⟩ := h.erase block
    rw [h.linksOf_eq_linksOf] at herase
    exact Or.inl ⟨t, herase, ht⟩
  | refile block size =>
    obtain ⟨t, hrefile, ht⟩ := h.refile block size
    rw [Buckets.edit, hrefile]
    exact ht.file_or (Filing.not_mem_drop h.nodup block) size

/-- An edit that the lists admit, and that does not fail, is answered as the lists answer it. -/
theorem edit_of_ok (h : s.Files f) {t : Buckets} {e : Edit} {answer : Option Links}
    (hadmits : f.admits e = true) (hedit : s.edit e = .ok (answer, t)) :
    answer = (f.edit e).1 ∧ t.Files (f.edit e).2 := by
  rcases h.edit hadmits with ⟨u, hsame, hu⟩ | ⟨hfull, -⟩
  · rw [hedit] at hsame
    cases hsame
    exact ⟨rfl, hu⟩
  · rw [hedit] at hfull
    cases hfull

/-- A run of edits that the lists admit is answered as the lists answer it, unless a list gets too
long to be counted on the way. -/
theorem editAll (h : s.Files f) {edits : List Edit} (hadmits : f.admitsAll edits = true) :
    (∃ t, s.editAll edits = .ok ((f.editAll edits).1, t) ∧ t.Files (f.editAll edits).2) ∨
      s.editAll edits = .error .overflow ∧
        ∃ before, before <+: edits ∧ ¬ (f.editAll before).2.Counted := by
  induction edits generalizing s f with
  | nil => exact Or.inl ⟨s, rfl, h⟩
  | cons e rest ih =>
    obtain ⟨hfirst, hlater⟩ := Bool.and_eq_true_iff.mp hadmits
    rcases h.edit hfirst with ⟨t, hedit, ht⟩ | ⟨hedit, hlong⟩
    · rw [Buckets.editAll, hedit, Fault.ok_bind]
      rcases ih ht hlater with ⟨u, hrest, hu⟩ | ⟨hrest, before, hbefore, hlong⟩
      · refine Or.inl ⟨u, ?_, hu⟩
        dsimp only
        rw [hrest]
        rfl
      · refine Or.inr ⟨?_, e :: before, List.cons_prefix_cons.mpr ⟨rfl, hbefore⟩, hlong⟩
        dsimp only
        rw [hrest]
        rfl
    · refine Or.inr ⟨?_, [e], List.cons_prefix_cons.mpr ⟨rfl, List.nil_prefix⟩, hlong⟩
      rw [Buckets.editAll, hedit]
      rfl

/-- A run of edits that the lists admit, and that does not fail, is answered as the lists answer
it. -/
theorem editAll_of_ok (h : s.Files f) {t : Buckets} {edits : List Edit}
    {answers : List (Option Links)} (hadmits : f.admitsAll edits = true)
    (hrun : s.editAll edits = .ok (answers, t)) :
    answers = (f.editAll edits).1 ∧ t.Files (f.editAll edits).2 := by
  rcases h.editAll hadmits with ⟨u, hsame, hu⟩ | ⟨hfull, -⟩
  · rw [hrun] at hsame
    cases hsame
    exact ⟨rfl, hu⟩
  · rw [hrun] at hfull
    cases hfull

end Buckets.Files

namespace Filing

/-- All lists are of different words, and none of these is `spare`. -/
structure Spares (spare : Nat) (f : Filing) : Prop where
  nodup (c : SizeClass) : (f c).Nodup
  word {c : SizeClass} {x : Nat} : x ∈ f c → x < wordLimit ∧ x ≠ spare

namespace Spares

variable {f : Filing} {spare : Nat}

private theorem empty : Filing.empty.Spares spare :=
  ⟨fun _ => List.nodup_nil, fun hx => by cases hx⟩

/-- Lists without one of the words can be counted. -/
theorem counted (hs : f.Spares spare) (hspare : spare < wordLimit) : f.Counted := by
  intro c
  have hnodup : (spare :: f c).Nodup :=
    List.nodup_cons.mpr ⟨fun hmem => (hs.word hmem).2 rfl, hs.nodup c⟩
  have hsub : spare :: f c ⊆ List.range wordLimit := by
    intro x hx
    rcases List.mem_cons.mp hx with rfl | hx
    · exact List.mem_range.mpr hspare
    · exact List.mem_range.mpr (hs.word hx).1
  have hle := (List.subperm_of_subset hnodup hsub).length_le
  rwa [List.length_range] at hle

private theorem drop (hs : f.Spares spare) (block : Nat) : (f.drop block).Spares spare :=
  ⟨fun c => (hs.nodup c).erase block, fun hx => hs.word (List.mem_of_mem_erase hx)⟩

private theorem push (hs : f.Spares spare) {block : Nat} (hnew : ∀ c, block ∉ f c)
    (hblock : block < wordLimit ∧ block ≠ spare) (c : SizeClass) :
    (f.push block c).Spares spare where
  nodup d := by
    unfold Filing.push
    split
    · exact List.nodup_cons.mpr ⟨hnew d, hs.nodup d⟩
    · exact hs.nodup d
  word hx := by
    rcases mem_push_iff.mp hx with ⟨rfl, -⟩ | hx
    · exact hblock
    · exact hs.word hx

private theorem edit (hs : f.Spares spare) {e : Buckets.Edit} (hadmits : f.admits e = true)
    (hfiled : ∀ x ∈ e.filed?, x < wordLimit ∧ x ≠ spare) : (f.edit e).2.Spares spare := by
  cases e with
  | push block size => exact hs.push (not_mem_of_admits hadmits) (hfiled block rfl) _
  | erase block => exact hs.drop block
  | refile block size =>
    exact (hs.drop block).push (not_mem_drop hs.nodup block) (hfiled block rfl) _

/-- Edits that file only words, and never the spare one, keep it out of the lists. -/
theorem editAll (hs : f.Spares spare) {edits before : List Buckets.Edit}
    (hadmits : f.admitsAll edits = true)
    (hfiled : ∀ e ∈ edits, ∀ x ∈ e.filed?, x < wordLimit ∧ x ≠ spare)
    (hbefore : before <+: edits) : (f.editAll before).2.Spares spare := by
  induction edits generalizing f before with
  | nil => rwa [List.prefix_nil.mp hbefore]
  | cons e rest ih =>
    obtain ⟨hfirst, hlater⟩ := Bool.and_eq_true_iff.mp hadmits
    obtain ⟨hhere, hothers⟩ := List.forall_mem_cons.mp hfiled
    cases before with
    | nil => exact hs
    | cons e' before =>
      obtain ⟨rfl, hrest⟩ := List.cons_prefix_cons.mp hbefore
      exact ih (hs.edit hfirst hhere) hlater hothers hrest

end Spares

end Filing

/-- Buckets that start empty go through any edits as twenty lists do, as long as no block is
filed that is already in one of them. No edit fails, blocks that are taken out had the links
that the lists say, and in the end, as after each edit on the way, everything that the buckets
tell is read off the lists. Filing overflows only where a list would get as long as there are
words, so that runs that file words, and leave out a single one of them, never fail. -/
theorem Buckets.shows_of_edits {edits : List Edit} (h : Filing.empty.admitsAll edits = true) :
    ((∃ s, Buckets.empty.editAll edits = .ok ((Filing.empty.editAll edits).1, s) ∧
        s.Shows (Filing.empty.editAll edits).2) ∨
      Buckets.empty.editAll edits = .error .overflow ∧
        ∃ before c, before <+: edits ∧
          wordLimit ≤ ((Filing.empty.editAll before).2 c).length) ∧
    ∀ spare < wordLimit, (∀ e ∈ edits, ∀ x ∈ e.filed?, x < wordLimit ∧ x ≠ spare) →
      ∃ s, Buckets.empty.editAll edits = .ok ((Filing.empty.editAll edits).1, s) ∧
        s.Shows (Filing.empty.editAll edits).2 := by
  rcases Files.empty.editAll h with ⟨s, hrun, hfiles⟩ | ⟨hrun, before, hbefore, hlong⟩
  · exact ⟨Or.inl ⟨s, hrun, hfiles.shows⟩, fun _ _ _ => ⟨s, hrun, hfiles.shows⟩⟩
  · obtain ⟨c, hc⟩ := not_forall.mp hlong
    refine ⟨Or.inr ⟨hrun, before, c, hbefore, Nat.not_lt.mp hc⟩, fun spare hspare hfiled => ?_⟩
    have hspares : (Filing.empty.editAll before).2.Spares spare :=
      Filing.Spares.empty.editAll h hfiled hbefore
    exact absurd (hspares.counted hspare) hlong

/-- Three blocks are filed in one bucket. The middle one moves to another and the oldest is
taken out, which by then stands right behind the newest. -/
theorem Buckets.shows_of_edits_of_three : ∃ s,
    Buckets.empty.editAll [.push 16 48, .push 64 48, .push 112 48, .refile 64 400, .erase 16,
      .erase 16] = .ok ([none, none, none, none, some ⟨some 112, none, 1⟩, none], s) ∧
      s.walk 1 = ⟨[112], none⟩ ∧ s.walk 4 = ⟨[64], none⟩ := by
  have hadmits : Filing.empty.admitsAll [.push 16 48, .push 64 48, .push 112 48, .refile 64 400,
      .erase 16, .erase 16] = true := by decide
  -- no block at offset 0 is ever filed
  obtain ⟨s, hrun, hshows⟩ := (Buckets.shows_of_edits hadmits).2 0 (by decide) (by decide)
  have hanswers : (Filing.empty.editAll [.push 16 48, .push 64 48, .push 112 48,
      .refile 64 400, .erase 16, .erase 16]).1 =
        [none, none, none, none, some ⟨some 112, none, 1⟩, none] := by
    decide
  rw [hanswers] at hrun
  exact ⟨s, hrun, hshows.walk_eq 1, hshows.walk_eq 4⟩

end SegregatedFit
