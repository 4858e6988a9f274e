import SegregatedFit.Proofs.Histories

/-!
# Audits do no harm

Whatever has become of the bytes, the buckets and the rover of a heap, an audit gives an answer.
It reads nothing outside the arena and its sums stay words, links that run in a circle do not
keep it going, and it changes nothing. So a heap that audits itself after every operation has the
same history as one that does not.
-/

namespace SegregatedFit.Heap

variable {h : Heap}

/-- The prologue of a heap is where setting up a heap has put it. The bytes, the buckets, the
rover, the growth and the settings may be anything. -/
def Founded (h : Heap) : Prop :=
  ∃ memory config new, (setup memory config).outcome = .ok (.ok new) ∧ h.prologue = new.prologue

/-- A founded heap has room for a tag before its prologue. -/
theorem Founded.le_prologue (hf : h.Founded) : 8 ≤ h.prologue := by
  obtain ⟨memory, config, new, hsetup, hprologue⟩ := hf
  obtain ⟨p, ht⟩ := twin_of_setup hsetup
  rw [hprologue]
  exact ht.le_prologue

/-- Neither calls nor damage move the prologue. -/
theorem founded_of_story {memory : Memory} {config : Config} {new : Heap} {deeds : List Deed}
    {x : Option Reply × Heap} (hsetup : (setup memory config).outcome = .ok (.ok new))
    (hx : x ∈ (new.story deeds).items) : x.2.Founded := by
  obtain ⟨p, ht⟩ := twin_of_setup hsetup
  exact ⟨memory, config, new, hsetup, (ht.self_story hx).prologue_at.trans ht.prologue_at.symm⟩

/-- An audit of a heap gives an answer, however damaged the heap is: its scan meets only blocks
that lie in the arena and can be read again, and the answer lists what is wrong. Whatever happens
to a heap, the replies, the faults and all that can be seen of the heap after each step are the
same whether or not it audits itself. -/
theorem audits_harmless :
    (∀ h : Heap, h.Founded → ∀ verbose, ∃ scan, h.arena.scanFrom h.first = .ok scan ∧
      (∀ s ∈ scan.blocks, h.arena.header s.start = .ok s.tag ∧ s.start + s.size ≤ h.arena.size) ∧
      (h.audit verbose).outcome = .ok (h.findings scan)) ∧
    ∀ (memory : Memory) (config : Config) (deeds : List Deed),
      chronicle memory { config with audited := true } deeds =
        chronicle memory { config with audited := false } deeds := by
  constructor
  · intro h hf verbose
    obtain ⟨scan, hscan, haudit⟩ := h.audit_eq verbose hf.le_prologue
    exact ⟨scan, hscan, Arena.scanFrom_sound (Nat.le_add_left 8 h.prologue) hscan, haudit⟩
  · intro memory config deeds
    exact Twin.chronicle_eq (Memory.Twin.refl memory) { config with audited := false } true deeds

/-- All bytes of a new heap are overwritten, its rover leads nowhere, the links of its block lead
in a circle and name no bucket, and the lengths are as large as words can be. An audit still
answers, and says that something is wrong. -/
theorem audits_harmless_on_circle : ∃ damaged : Heap, damaged.Founded ∧
    ∃ found, (damaged.audit true).outcome = .ok found ∧ found ≠ [] := by
  let memory : Memory := .growable ⟨ByteArray.empty, 4096, by decide, by decide⟩
  let config : Config := { chunk := 192, audited := true }
  let circle : Buckets :=
    { heads := (Buckets.empty.withFirst 16 192).heads
      lengths := Vector.replicate classCount (wordLimit - 1)
      links := (∅ : LinkTable).insert 16 ⟨some 16, some 16, classCount⟩ }
  have heval : ((Heap.setup memory config).outcome.toOption.any fun answer =>
      answer.toOption.any fun new =>
        (new.befall (.damage (fun _ => 255) circle 1)).outcome.toOption.any fun damaged =>
          (damaged.2.audit true).outcome.toOption.any fun found => !found.isEmpty) = true := by
    decide +kernel
  obtain ⟨_, hsetup, hanswer⟩ := Fault.ok_of_any heval
  obtain ⟨new, rfl, hnew⟩ := Fault.ok_of_any hanswer
  obtain ⟨damaged, hdamaged, haudit⟩ := Fault.ok_of_any hnew
  have hmem : damaged ∈ (new.story [.damage (fun _ => 255) circle 1]).items := by
    rw [story, hdamaged]
    exact List.mem_singleton_self _
  have hf : damaged.2.Founded := founded_of_story hsetup hmem
  obtain ⟨scan, -, -, hanswer⟩ := audits_harmless.1 damaged.2 hf true
  refine ⟨damaged.2, hf, damaged.2.findings scan, hanswer, ?_⟩
  rintro hclean
  rw [hanswer, hclean] at haudit
  cases haudit

end SegregatedFit.Heap
