import Mathlib.Data.List.Perm.Subperm
import SegregatedFit.Proofs.Amending

/-!
# What calls keep of any heap

Giving back blocks that were never handed out, and writing over tags, can leave a heap in almost
any state. Still there are things that no call changes: the settings, the prologue, and the limit
of the memory. And no call lists an offset behind that limit, because a block is only filed after
its size was read from a tag inside the arena. So the lists of a heap stay shorter than its memory,
whatever the bytes say.
-/

namespace SegregatedFit

variable {limit p : Nat} {settings : Config}

/-- No offset behind a limit is listed. -/
def Buckets.ListsUpTo (limit : Nat) (s : Buckets) : Prop := ∀ x, s.linksOf x ≠ none → x ≤ limit

namespace Buckets.ListsUpTo

variable {s : Buckets}

private theorem push (hs : s.ListsUpTo limit) {block : Nat} (hblock : block ≤ limit) (size : Nat) :
    Yields (ListsUpTo limit) (s.push block size) := by
  intro t hpush
  obtain ⟨-, rfl⟩ := push_eq_ok_iff.mp hpush
  intro x hx
  by_cases heq : x = block
  · exact heq ▸ hblock
  · refine hs x fun hnone => hx ?_
    rw [linksOf_withFirst, if_neg heq, hnone]
    simp

private theorem erase (hs : s.ListsUpTo limit) (block : Nat) :
    Yields (fun r => r.2.ListsUpTo limit) (s.erase block) := by
  rintro ⟨r, t⟩ hr
  cases hl : s.linksOf block with
  | none =>
    rw [erase_of_linksOf_eq_none hl] at hr
    cases hr
    exact hs
  | some l =>
    obtain ⟨c, -, -, rfl, -⟩ := (erase_of_linksOf_eq_some hl).mp hr
    refine fun x hx => hs x fun hnone => hx ?_
    rw [linksOf_erase hr, hnone]
    simp

private theorem refile (hs : s.ListsUpTo limit) {block : Nat} (hblock : block ≤ limit)
    (size : Nat) :
    Yields (ListsUpTo limit) (s.refile block size) :=
  (hs.erase block).bind fun _ ht => ht.push hblock size

/-- No edit lists an offset behind the limit, unless it files one. -/
theorem edit (hs : s.ListsUpTo limit) {e : Edit} (he : ∀ x ∈ e.filed?, x ≤ limit) :
    Yields (fun r => r.2.ListsUpTo limit) (s.edit e) := by
  cases e with
  | push block size => exact (hs.push (he block rfl) size).bind fun _ ht => .ok ht
  | erase block => exact hs.erase block
  | refile block size => exact (hs.refile (he block rfl) size).bind fun _ ht => .ok ht

private theorem of_leads {t : Buckets} (hs : s.ListsUpTo limit) (h : s.Leads limit t) :
    t.ListsUpTo limit := by
  obtain ⟨edits, answers, hrun, hfiled⟩ := h
  induction edits generalizing s answers with
  | nil =>
    cases hrun
    exact hs
  | cons e rest ih =>
    obtain ⟨he, hrest⟩ := List.forall_mem_cons.mp hfiled
    obtain ⟨answer, u, more, hedit, hlater, -⟩ := editAll_cons_eq_ok_iff.mp hrun
    exact ih (hs.edit he _ hedit) _ hlater hrest

/-- Lists without offsets behind a limit have few entries. -/
theorem size_le (hs : s.ListsUpTo limit) : s.size ≤ limit + 1 := by
  have hsub : s.links.keys ⊆ List.range (limit + 1) := by
    intro x hx
    rw [Std.TreeMap.mem_keys, Std.TreeMap.mem_iff_isSome_getElem?] at hx
    exact List.mem_range.mpr (Nat.lt_succ_of_le (hs x (Option.isSome_iff_ne_none.mp hx)))
  have hle := (List.subperm_of_subset Std.TreeMap.nodup_keys hsub).length_le
  rwa [Std.TreeMap.length_keys, List.length_range] at hle

end Buckets.ListsUpTo

/-- What stays of a heap whatever is done to it: its settings, its prologue, the limit of its
memory, and that no offset behind this limit is listed. -/
structure Heap.Confined (settings : Config) (p limit : Nat) (h : Heap) : Prop where
  config_eq : h.config = settings
  prologue_eq : h.prologue = p
  arena : h.arena.Limited limit
  buckets : h.buckets.ListsUpTo limit

namespace Heap.Confined

variable {g h : Heap}

private theorem of_amends (hc : g.Confined settings p limit) (ha : g.Amends h) :
    h.Confined settings p limit := by
  obtain ⟨hconfig, hprologue, harena, hlists⟩ := hc
  have hlimit : g.arena.memory.limit = limit := harena
  have hleads := ha.leads
  rw [hlimit] at hleads
  exact ⟨ha.config_eq.trans hconfig, ha.prologue_eq.trans hprologue, ha.limit_eq.trans hlimit,
    hlists.of_leads hleads⟩

/-! The operations. -/

/-- Allocating keeps a heap confined, whatever its arena and registry hold. -/
theorem allocate (hc : h.Confined settings p limit) (request : Nat) :
    Yields (fun r => r.2.Confined settings p limit) (h.allocate request).outcome :=
  ((Amends.refl h).allocate request).mono fun _ => hc.of_amends

/-- Releasing keeps a heap confined, whatever its arena and registry hold. -/
theorem release (hc : h.Confined settings p limit) (pointer : Option Nat) :
    Yields (fun r => r.2.Confined settings p limit) (h.release pointer).outcome :=
  ((Amends.refl h).release pointer).mono fun _ => hc.of_amends

/-- Reallocating keeps a heap confined, whatever its arena and registry hold. -/
theorem reallocate (hc : h.Confined settings p limit) (pointer : Option Nat) (request : Nat) :
    Yields (fun r => r.2.Confined settings p limit) (h.reallocate pointer request).outcome :=
  ((Amends.refl h).reallocate pointer request).mono fun _ => hc.of_amends

end Heap.Confined

end SegregatedFit
