import Mathlib.Data.List.Nodup
import SegregatedFit.Buckets

/-!
# Buckets as lists

The link table with its heads and lengths stands for one list of blocks for each class.
Filing a block puts it in front of the list of its class, and taking a block out removes it
from whichever list it is in. As long as no block is in two places, the links of every block
are its true neighbours, a walk along the links reads the list, and the table has no entries
besides.
-/

namespace SegregatedFit

/-- The blocks of every bucket, newest first. -/
abbrev Filing : Type := SizeClass → List Nat

namespace Filing

/-- No blocks in any bucket. -/
def empty : Filing := fun _ => []

/-- One more block, first in a bucket. -/
def push (f : Filing) (block : Nat) (c : SizeClass) : Filing :=
  fun d => if d = c then block :: f d else f d

/-- One block less, wherever it was. -/
def drop (f : Filing) (block : Nat) : Filing := fun d => (f d).erase block

/-- Several blocks less. -/
def dropAll (f : Filing) (blocks : List Nat) : Filing := blocks.foldl drop f

/-- The length of every list is a word. -/
def Counted (f : Filing) : Prop := ∀ c, (f c).length < wordLimit

/-- The blocks of all buckets, smallest class first. -/
def listed (f : Filing) : List Nat := SizeClass.all.flatMap f

/-- A block is listed if it is in some bucket. -/
theorem mem_listed_iff {f : Filing} {x : Nat} : x ∈ f.listed ↔ ∃ c, x ∈ f c := by
  simp [listed, SizeClass.all]

/-- Dropping no block leaves a filing as it is. -/
@[simp] theorem dropAll_nil (f : Filing) : f.dropAll [] = f := rfl

/-- Blocks are dropped one after the other. -/
@[simp] theorem dropAll_cons (f : Filing) (block : Nat) (rest : List Nat) :
    f.dropAll (block :: rest) = (f.drop block).dropAll rest := rfl

/-- Pushing a block adds just this block, to just the bucket of its class. -/
theorem mem_push_iff {f : Filing} {block x : Nat} {c d : SizeClass} :
    x ∈ f.push block c d ↔ (x = block ∧ d = c) ∨ x ∈ f d := by
  unfold push
  split
  · next h => simp [h]
  · next h => simp [h]

/-- Taking a block out of lists without repetitions leaves all others. -/
theorem mem_drop_iff {f : Filing} (hf : ∀ c, (f c).Nodup) {block x : Nat} {c : SizeClass} :
    x ∈ f.drop block c ↔ x ≠ block ∧ x ∈ f c :=
  (hf c).mem_erase_iff

/-- A block that was taken out of lists without repetitions is in none of them. -/
theorem not_mem_drop {f : Filing} (hf : ∀ c, (f c).Nodup) (block : Nat) (c : SizeClass) :
    block ∉ f.drop block c :=
  fun hmem => ((mem_drop_iff hf).mp hmem).1 rfl

/-- Taking blocks out of lists without repetitions leaves all others. -/
theorem mem_dropAll_iff {f : Filing} (hf : ∀ c, (f c).Nodup) {blocks : List Nat} {c : SizeClass}
    {x : Nat} : x ∈ f.dropAll blocks c ↔ x ∉ blocks ∧ x ∈ f c := by
  induction blocks generalizing f with
  | nil => simp
  | cons b rest ih =>
    have hdrop : ∀ c, (f.drop b c).Nodup := fun c => (hf c).erase b
    rw [dropAll_cons, ih hdrop, mem_drop_iff hf, List.mem_cons]
    constructor
    · rintro ⟨hrest, hb, hx⟩
      exact ⟨not_or.mpr ⟨hb, hrest⟩, hx⟩
    · rintro ⟨hnot, hx⟩
      exact ⟨fun hmem => hnot (Or.inr hmem), fun heq => hnot (Or.inl heq), hx⟩

private theorem drop_eq_self {f : Filing} {block : Nat} (h : ∀ c, block ∉ f c) :
    f.drop block = f := by
  funext c
  exact List.erase_of_not_mem (h c)

end Filing

/-- The buckets are the lists of a filing: no block is listed twice, heads and lengths are
those of the lists, and the links of each block are its neighbours. -/
structure Buckets.Files (s : Buckets) (f : Filing) : Prop where
  nodup (c : SizeClass) : (f c).Nodup
  apart {c d : SizeClass} {x : Nat} : x ∈ f c → x ∈ f d → c = d
  head_eq (c : SizeClass) : s.head c = (f c).head?
  length_eq (c : SizeClass) : s.length c = (f c).length
  linksOf_eq {c : SizeClass} {lower upper : List Nat} {x : Nat} :
    f c = lower ++ x :: upper → s.linksOf x = some ⟨lower.getLast?, upper.head?, c⟩
  unlisted {x : Nat} : (∀ c, x ∉ f c) → s.linksOf x = none

namespace Buckets.Files

variable {s : Buckets} {f : Filing} {x size : Nat} {c d : SizeClass}

/-- The empty registry files nothing. -/
theorem empty : Buckets.empty.Files Filing.empty where
  nodup _ := List.nodup_nil
  apart h := by cases h
  head_eq c := head_empty c
  length_eq c := length_empty c
  linksOf_eq h := by simp [Filing.empty] at h
  unlisted _ := linksOf_empty _

/-- A block has links exactly while it is in one of the lists. -/
theorem linksOf_isSome_iff (h : s.Files f) : (s.linksOf x).isSome ↔ ∃ c, x ∈ f c := by
  constructor
  · intro hsome
    by_contra hnot
    rw [h.unlisted (not_exists.mp hnot)] at hsome
    cases hsome
  · rintro ⟨c, hx⟩
    obtain ⟨lower, upper, hlist⟩ := List.append_of_mem hx
    rw [h.linksOf_eq hlist]
    rfl

/-- The blocks of the lists keep their neighbours, except that the new block comes in front of
the one that was first in its class. -/
private theorem linksOf_pushed (h : s.Files f) (hx : ∀ c, x ∉ f c) {lower upper : List Nat}
    {y : Nat} (hlist : f.push x (SizeClass.ofSize size) c = lower ++ y :: upper) :
    (s.withFirst x size).linksOf y = some ⟨lower.getLast?, upper.head?, c⟩ := by
  rw [linksOf_withFirst, h.head_eq]
  by_cases hc : c = SizeClass.ofSize size
  · subst hc
    rw [Filing.push, if_pos rfl] at hlist
    -- in the class of the new block, `y` is the new block or stands behind it
    cases lower with
    | nil =>
      obtain ⟨rfl, rfl⟩ := List.cons.inj hlist
      simp
    | cons z lower =>
      obtain ⟨rfl, htail⟩ := List.cons.inj hlist
      have hmem : y ∈ f (SizeClass.ofSize size) := by
        rw [htail]
        exact List.mem_append_right _ List.mem_cons_self
      have hy : y ≠ x := by
        rintro rfl
        exact hx _ hmem
      have hnodup := h.nodup (SizeClass.ofSize size)
      rw [if_neg hy, h.linksOf_eq htail, htail]
      cases lower with
      | nil => simp
      | cons z lower =>
        have hz : z ≠ y := by
          rintro rfl
          simp [htail] at hnodup
        simp [hz]
  · rw [Filing.push, if_neg hc] at hlist
    have hmem : y ∈ f c := hlist ▸ List.mem_append_right _ List.mem_cons_self
    have hy : y ≠ x := by
      rintro rfl
      exact hx c hmem
    have hhead : (f (SizeClass.ofSize size)).head? ≠ some y := by
      intro hhead
      exact hc (h.apart hmem (List.mem_of_head? hhead))
    rw [if_neg hy, if_neg hhead, h.linksOf_eq hlist]

/-- A block that is not listed comes in front of the list of its class. -/
theorem withFirst (h : s.Files f) (hx : ∀ c, x ∉ f c) :
    (s.withFirst x size).Files (f.push x (SizeClass.ofSize size)) where
  nodup c := by
    unfold Filing.push
    split
    · exact List.nodup_cons.mpr ⟨hx c, h.nodup c⟩
    · exact h.nodup c
  apart {c d y} hc hd := by
    rcases Filing.mem_push_iff.mp hc with ⟨rfl, rfl⟩ | hyc
    · rcases Filing.mem_push_iff.mp hd with ⟨-, rfl⟩ | hyd
      · rfl
      · exact absurd hyd (hx d)
    · rcases Filing.mem_push_iff.mp hd with ⟨rfl, rfl⟩ | hyd
      · exact absurd hyc (hx c)
      · exact h.apart hyc hyd
  head_eq c := by
    rw [head_withFirst, Filing.push, h.head_eq]
    by_cases hc : c = SizeClass.ofSize size
    · simp [hc]
    · simp [hc, Ne.symm hc]
  length_eq c := by
    rw [length_withFirst, Filing.push, h.length_eq]
    by_cases hc : c = SizeClass.ofSize size
    · simp [hc]
    · simp [hc, Ne.symm hc]
  linksOf_eq hlist := h.linksOf_pushed hx hlist
  unlisted {y} hy := by
    have hyx : y ≠ x := by
      rintro rfl
      apply hy (SizeClass.ofSize size)
      simp [Filing.push]
    have hyf (c : SizeClass) : y ∉ f c := fun hmem =>
      hy c (Filing.mem_push_iff.mpr (Or.inr hmem))
    rw [linksOf_withFirst, if_neg hyx, h.unlisted hyf]
    split <;> rfl

/-- Filing a block fails only if the list of its class gets too long to be counted. -/
theorem push_or (h : s.Files f) (x size : Nat) :
    s.push x size = .ok (s.withFirst x size) ∨
      s.push x size = .error .overflow ∧ ¬ (f.push x (SizeClass.ofSize size)).Counted := by
  by_cases hroom : s.length (SizeClass.ofSize size) + 1 < wordLimit
  · exact Or.inl (push_eq_ok_iff.mpr ⟨hroom, rfl⟩)
  · refine Or.inr ⟨push_of_full hroom, fun hcounted => hroom ?_⟩
    have hlong := hcounted (SizeClass.ofSize size)
    rwa [Filing.push, if_pos rfl, List.length_cons, ← h.length_eq] at hlong

/-- A registry takes a new block if the length of its bucket still fits into a word. -/
theorem push (h : s.Files f) (hcounted : (f.push x (SizeClass.ofSize size)).Counted) :
    s.push x size = .ok (s.withFirst x size) :=
  (h.push_or x size).resolve_right fun hfull => hfull.2 hcounted

/-- A list from which one element was taken can be split at any other one as before, with the
missing element in the upper part or in the lower part. -/
private theorem split_around {lower upper lo up : List Nat} {y : Nat}
    (h : lower ++ upper = lo ++ y :: up) :
    (∃ mid, lo = lower ++ mid ∧ upper = mid ++ y :: up) ∨
      ∃ mid, lower = lo ++ y :: mid ∧ up = mid ++ upper := by
  rcases List.append_eq_append_iff.mp h with ⟨mid, hlo, hupper⟩ | ⟨mid, hlower, hrest⟩
  · exact Or.inl ⟨mid, hlo, hupper⟩
  · cases mid with
    | nil => exact Or.inl ⟨[], by simp [hlower], by simpa using hrest.symm⟩
    | cons z mid =>
      obtain ⟨rfl, hup⟩ := List.cons.inj hrest
      exact Or.inr ⟨mid, hlower, hup⟩

/-- The blocks that stay in a list keep their neighbours, except that those of the block that
left have each other. -/
private theorem linksOf_listed (h : s.Files f) {t : Buckets} {lower upper lo up : List Nat}
    {y : Nat} (hlist : f c = lower ++ x :: upper)
    (herase : s.erase x = .ok (some ⟨lower.getLast?, upper.head?, c⟩, t))
    (hsplit : lower ++ upper = lo ++ y :: up) :
    t.linksOf y = some ⟨lo.getLast?, up.head?, c⟩ := by
  have hnodup := h.nodup c
  rw [hlist] at hnodup
  have hne : y ≠ x := by
    rintro rfl
    have hrest : (y :: (lower ++ upper)).Nodup := List.nodup_middle.mp hnodup
    apply (List.nodup_cons.mp hrest).1
    rw [hsplit]
    exact List.mem_append_right _ List.mem_cons_self
  rw [linksOf_erase herase, if_neg hne]
  -- `y` stood behind `x`, or in front of it; only one of its links can have led to `x`
  rcases split_around hsplit with ⟨mid, rfl, rfl⟩ | ⟨mid, rfl, rfl⟩
  · have hlast : lower.getLast? ≠ some y := by
      intro hlast
      have hmem := List.mem_of_getLast? hlast
      exact (List.nodup_append.mp hnodup).2.2 y hmem y (by simp) rfl
    have hlist' : f c = (lower ++ x :: mid) ++ y :: up := by simpa using hlist
    rw [h.linksOf_eq hlist']
    cases mid with
    | nil => simp [hlast]
    | cons z mid =>
      have hz : z ≠ y := by
        rintro rfl
        simp [List.nodup_append] at hnodup
      simp [hlast, hz]
  · have hhead : upper.head? ≠ some y := by
      intro hhead
      have hmem := List.mem_of_head? hhead
      exact (List.nodup_append.mp hnodup).2.2 y (by simp) y (List.mem_cons_of_mem _ hmem) rfl
    have hlist' : f c = lo ++ y :: (mid ++ x :: upper) := by simpa using hlist
    rw [h.linksOf_eq hlist']
    cases mid with
    | nil => simp [hhead]
    | cons z mid =>
      have hlast : (z :: mid).getLast? ≠ some y := by
        intro hlast
        have hmem := List.mem_of_getLast? hlast
        rw [List.append_assoc, List.cons_append, List.nodup_middle] at hnodup
        apply (List.nodup_cons.mp hnodup).1
        simp only [List.mem_append]
        exact Or.inr (Or.inl hmem)
      have hlast' : (lo ++ y :: z :: mid).getLast? ≠ some y := by simpa using hlast
      simp [hhead, hlast]

private theorem erase_listed (h : s.Files f) {lower upper : List Nat}
    (hlist : f c = lower ++ x :: upper) :
    ∃ t, s.erase x = .ok (some ⟨lower.getLast?, upper.head?, c⟩, t) ∧ t.Files (f.drop x) := by
  have hx : x ∈ f c := hlist ▸ List.mem_append_right _ List.mem_cons_self
  have hpos : 0 < s.length c := by
    rw [h.length_eq]
    exact List.length_pos_of_mem hx
  have hdrop : f.drop x c = lower ++ upper := by
    have hlower : x ∉ lower := by
      have hnodup := h.nodup c
      rw [hlist] at hnodup
      exact fun hmem => (List.nodup_append.mp hnodup).2.2 x hmem x List.mem_cons_self rfl
    rw [Filing.drop, hlist, List.erase_append_right _ hlower, List.erase_cons_head]
  have hother (d : SizeClass) (hd : d ≠ c) : f.drop x d = f d :=
    List.erase_of_not_mem fun hmem => hd (h.apart hmem hx)
  obtain ⟨t, herase⟩ : ∃ t, s.erase x = .ok (some ⟨lower.getLast?, upper.head?, c⟩, t) :=
    ⟨_, (erase_of_linksOf_eq_some (h.linksOf_eq hlist)).mpr ⟨c, rfl, hpos, rfl, rfl⟩⟩
  refine ⟨t, herase, ?_, ?_, ?_, ?_, ?_, ?_⟩
  · exact fun d => (h.nodup d).erase x
  · intro d e y hd he
    exact h.apart (List.mem_of_mem_erase hd) (List.mem_of_mem_erase he)
  · intro d
    rw [head_erase herase]
    by_cases hd : d = c
    · subst hd
      rw [hdrop, h.head_eq, hlist]
      cases lower <;> simp
    · rw [if_neg fun hand => hd (Fin.ext hand.2.symm), hother d hd, h.head_eq]
  · intro d
    rw [length_erase herase]
    by_cases hd : d = c
    · subst hd
      rw [if_pos rfl, hdrop, h.length_eq, hlist]
      simp
    · rw [if_neg fun hsame => hd (Fin.ext hsame.symm), hother d hd, h.length_eq]
  -- blocks of other classes are no neighbours of `x`, so their links stay
  · intro d lo up y hsplit
    by_cases hd : d = c
    · subst hd
      rw [hdrop] at hsplit
      exact h.linksOf_listed hlist herase hsplit
    · rw [hother d hd] at hsplit
      have hy : y ∈ f d := hsplit ▸ List.mem_append_right _ List.mem_cons_self
      have hoff (hmem : y ∈ lower ++ x :: upper) : False :=
        hd (h.apart hy (hlist ▸ hmem))
      have hne : y ≠ x := fun heq => hoff (by simp [heq])
      have hnext : upper.head? ≠ some y := fun hhead =>
        hoff (List.mem_append_right _ (List.mem_cons_of_mem _ (List.mem_of_head? hhead)))
      have hprev : lower.getLast? ≠ some y := fun hlast =>
        hoff (List.mem_append_left _ (List.mem_of_getLast? hlast))
      rw [linksOf_erase herase, if_neg hne, h.linksOf_eq hsplit]
      simp [hnext, hprev]
  · intro y hy
    rw [linksOf_erase herase]
    by_cases hyx : y = x
    · rw [if_pos hyx]
    · rw [if_neg hyx, h.unlisted fun d hmem => hy d ((Filing.mem_drop_iff h.nodup).mpr ⟨hyx, hmem⟩)]
      rfl

/-- Taking a block out never fails, and answers the links it had. -/
theorem erase (h : s.Files f) (x : Nat) :
    ∃ t, s.erase x = .ok (s.linksOf x, t) ∧ t.Files (f.drop x) := by
  by_cases hx : ∃ c, x ∈ f c
  · obtain ⟨c, hx⟩ := hx
    obtain ⟨lower, upper, hlist⟩ := List.append_of_mem hx
    rw [h.linksOf_eq hlist]
    exact h.erase_listed hlist
  · have hnot := not_exists.mp hx
    refine ⟨s, ?_, ?_⟩
    · rw [h.unlisted hnot]
      exact erase_of_linksOf_eq_none (h.unlisted hnot)
    · rwa [Filing.drop_eq_self hnot]

/-- Several blocks are taken out one after the other. -/
theorem eraseAll (h : s.Files f) (blocks : List Nat) :
    ∃ t, blocks.foldlM (fun s b => return (← s.erase b).2) s = (.ok t : Except Fault Buckets) ∧
      t.Files (f.dropAll blocks) := by
  induction blocks generalizing s f with
  | nil => exact ⟨s, rfl, h⟩
  | cons b rest ih =>
    obtain ⟨t, herase, ht⟩ := h.erase b
    obtain ⟨u, hrest, hu⟩ := ih ht
    refine ⟨u, ?_, hu⟩
    rw [List.foldlM_cons, herase]
    exact hrest

/-- A block that is filed anew is first taken out of where it was. -/
theorem refile (h : s.Files f) (x size : Nat) :
    ∃ t : Buckets, s.refile x size = t.push x size ∧ t.Files (f.drop x) := by
  obtain ⟨t, herase, ht⟩ := h.erase x
  refine ⟨t, ?_, ht⟩
  rw [Buckets.refile, herase]
  rfl

/-- No block is listed twice, not even in two buckets. -/
theorem nodup_listed (h : s.Files f) : f.listed.Nodup := by
  refine List.nodup_flatMap.mpr ⟨fun c _ => h.nodup c, ?_⟩
  refine (List.nodup_finRange _).imp fun {c d} hne x hc hd => hne ?_
  exact h.apart hc hd

/-- The table has an entry for each listed block and no other. -/
theorem size_eq (h : s.Files f) : s.size = f.listed.length := by
  have hperm : s.links.keys.Perm f.listed := by
    apply (List.perm_ext_iff_of_nodup Std.TreeMap.nodup_keys h.nodup_listed).mpr
    intro x
    rw [Std.TreeMap.mem_keys, Std.TreeMap.mem_iff_isSome_getElem?, Filing.mem_listed_iff]
    exact h.linksOf_isSome_iff
  rw [← hperm.length_eq]
  exact Std.TreeMap.length_keys.symm

private theorem follow_eq (h : s.Files f) {lower upper : List Nat} {steps : Nat}
    (hlist : f c = lower ++ upper) (hsteps : upper.length ≤ steps) :
    follow s.links steps upper.head? = ⟨upper, none⟩ := by
  induction upper generalizing lower steps with
  | nil =>
    rw [List.head?_nil, follow]
    rfl
  | cons x rest ih =>
    cases steps with
    | zero => cases hsteps
    | succ n =>
      have hlinks : s.links[x]? = some ⟨lower.getLast?, rest.head?, c⟩ := h.linksOf_eq hlist
      have hrest := @ih (lower ++ [x]) n (by simpa using hlist) (Nat.le_of_succ_le_succ hsteps)
      rw [List.head?_cons, follow, hlinks, Option.bind_some, hrest]
      rfl

/-- A walk along the links of a bucket reads its list. -/
theorem walk_eq (h : s.Files f) (c : SizeClass) : s.walk c = ⟨f c, none⟩ := by
  have hsub : (f c).Sublist f.listed :=
    List.sublist_flatten_of_mem (List.mem_map_of_mem (List.mem_finRange c))
  have hlength := hsub.length_le
  rw [← h.size_eq] at hlength
  rw [Buckets.walk, h.head_eq]
  exact h.follow_eq (List.nil_append _).symm (Nat.le_succ_of_le hlength)

/-- Walking through all buckets meets the listed blocks, and does not break off. -/
theorem walkAll_eq (h : s.Files f) : s.walkAll = ⟨f.listed, none⟩ := by
  rw [walkAll, Filing.listed]
  generalize SizeClass.all = cs
  induction cs with
  | nil => rfl
  | cons c rest ih =>
    rw [Walk.concat] at ih ⊢
    rw [List.map_cons, List.foldr_cons, ih, h.walk_eq]
    rfl

end Buckets.Files

end SegregatedFit
