import JoshOS.Paging.Runs

/-!
The page tables among the other owners of memory.

The tables stand in frames that are neither free nor held by others.  Whatever the
others do, as long as they write only what they hold and trade only frames with the
allocator, the address space stays as it is.

* `Maps.transfer`, `Ready.transfer`: memory, allocator and owners change, the
  translations do not.
* `Ready.step`: a call of the paging interface leaves what others hold alone.
-/

namespace JoshOS

open Words Memory Radix Spans

namespace Paging

variable {c : Surroundings} {root limit f x : ℕ} {R : ℕ → Leaf → Prop} {tabled others : Set ℕ}
  {s s' : Machine}

/-! ### The bytes of a table -/

/-- The bytes of a table are managed, not free and held by no one else. -/
lemma TableFrame.bytes (h : TableFrame c s f) (hkept : Kept c s) (hle : f ≤ x)
    (hlt : x < f + pageSize) :
    x ∈ cover c.managed ∧ x ∉ c.others ∧ x ∉ cover s.pmm.freeRanges := by
  refine ⟨page_subset_managed hkept.inv hkept.managed h.aligned h.managed hle hlt, fun hx => ?_,
    fun hx => h.taken ?_⟩
  · have := h.apart x hx
    omega
  · rwa [← Pmm.alignDown_mem_cover_iff hkept.inv.free_aligned,
      alignDown_eq Pmm.pmmPageSize_pos h.aligned hle hlt] at hx

/-! ### Changing hands -/

/-- **The tables do not notice the others.**  The others write only what they hold or
what was free; they hold what they held or what was free; and what becomes free was
free or theirs. -/
theorem Maps.transfer (h : Maps c root R tabled s) (hreached : c.reached s'.pmm)
    (hinv : s'.pmm.Inv) (hman : s'.pmm.managedRanges = c.managed)
    (hothers : others ⊆ c.others ∪ cover s.pmm.freeRanges)
    (hfree : cover s'.pmm.freeRanges ⊆ c.others ∪ cover s.pmm.freeRanges)
    (hdisj : Disjoint others (cover s'.pmm.freeRanges))
    (hmem : ∀ x ∈ cover c.managed, x ∉ c.others → x ∉ cover s.pmm.freeRanges →
      s'.mem (c.boot.physicalMemoryOffset + x) = s.mem (c.boot.physicalMemoryOffset + x)) :
    Maps { c with others := others, image := s'.mem } root R tabled s' := by
  have hps : pageSize = 4096 := rfl
  have hentries : ∀ f ∈ pageShape.tables (entries c.boot s.mem) root, ∀ i < pageShape.fan,
      entries c.boot s'.mem f i = entries c.boot s.mem f i := by
    intro f hf i hi
    have hi' : i < 512 := hi
    refine read64_congr fun y hle hlt => ?_
    obtain ⟨x, rfl⟩ : ∃ x, y = c.boot.physicalMemoryOffset + x :=
      ⟨y - c.boot.physicalMemoryOffset, by omega⟩
    obtain ⟨h1, h2, h3⟩ := (h.frame f hf).bytes h.toKept (x := x) (by omega) (by omega)
    exact hmem x h1 h2 h3
  have htab : ∀ {l p}, l ≤ pageShape.depth → p < pageShape.fan ^ l →
      pageShape.tableAt (entries c.boot s'.mem) root l p =
        pageShape.tableAt (entries c.boot s.mem) root l p :=
    Shape.tableAt_congr fun l hl p hp f hf i hi =>
      congrArg _ (hentries f (Shape.mem_tables hl.le hp hf) i hi)
  have hentry : ∀ {l p}, l ≤ 3 → p < 512 ^ (l + 1) →
      pageShape.entryAt (entries c.boot s'.mem) root l p =
        pageShape.entryAt (entries c.boot s.mem) root l p :=
    fun hl hp => Shape.entryAt_congr hentries hl hp
  obtain ⟨htables, hone⟩ := Shape.tables_congr htab
  refine ⟨⟨⟨hreached, hinv, hman, hdisj, fun _ _ => rfl⟩, hone.mpr h.one, fun f hf => ?_,
    fun hst l hl p hp e he => ?_⟩, fun n hn leaf => ?_, fun m hm f hf => ?_⟩
  · have hframe := h.frame f (htables ▸ hf)
    have hbytes := fun {x} => hframe.bytes (x := x) h.toKept
    refine ⟨hframe.aligned, hframe.managed, fun hx => ?_, fun x hx => ?_⟩
    · obtain ⟨-, h2, h3⟩ := hbytes (le_refl f) (by omega)
      exact (hfree hx).elim h2 h3
    · by_contra hin
      obtain ⟨-, h2, h3⟩ := hbytes (x := x) (by omega) (by omega)
      exact (hothers hx).elim h2 h3
  · rw [hentry (by omega) hp] at he
    exact h.clean hst l hl p hp e he
  · rw [← h.leaf n hn leaf, IsLeaf, IsLeaf, hentry (le_refl 3) (by omega),
      hentry (by omega) (show n / 512 < 512 ^ 3 by omega)]
  · exact h.split m hm f ((htab (le_refl 3) hm).symm.trans hf)

/-- The same for the whole address space. -/
theorem Ready.transfer {s : Paging} (h : Ready c limit R s) (others : Set ℕ) (machine : Machine)
    (hreached : c.reached machine.pmm) (hinv : machine.pmm.Inv)
    (hman : machine.pmm.managedRanges = c.managed)
    (hothers : others ⊆ c.others ∪ cover s.machine.pmm.freeRanges)
    (hfree : cover machine.pmm.freeRanges ⊆ c.others ∪ cover s.machine.pmm.freeRanges)
    (hdisj : Disjoint others (cover machine.pmm.freeRanges))
    (hmem : ∀ x ∈ cover c.managed, x ∉ c.others → x ∉ cover s.machine.pmm.freeRanges →
      machine.mem (c.boot.physicalMemoryOffset + x) =
        s.machine.mem (c.boot.physicalMemoryOffset + x)) :
    Ready { c with others := others, image := machine.mem } limit R { s with machine := machine } :=
  { h with maps := h.maps.transfer hreached hinv hman hothers hfree hdisj hmem }

/-- The image can be taken anew at any time. -/
lemma Ready.refresh {s : Paging} (h : Ready c limit R s) :
    Ready { c with image := s.machine.mem } limit R s :=
  h.transfer c.others s.machine h.maps.reached h.maps.inv h.maps.managed Set.subset_union_left
    Set.subset_union_right h.maps.others_held fun _ _ _ _ => rfl

/-- A call of the paging interface keeps the address space and what others hold. -/
lemma Ready.step {s : Paging} (h : Ready c limit R s) (call : Call) :
    ∃ R', Ready c limit R' (s.step call).2 := by
  cases call with
  | mapMmio phys size =>
    obtain ⟨done, hr⟩ := pagingMapMmio_ready h phys.toNat size.toNat
    exact ⟨_, hr⟩
  | tempMap phys =>
    rcases pagingTempMap_ready h phys.toNat_lt with hr | hr
    · exact ⟨R, hr⟩
    · exact ⟨_, hr⟩
  | tempUnmap =>
    rcases pagingTempUnmap_ready h with hr | hr
    · exact ⟨R, hr⟩
    · exact ⟨_, hr⟩

end Paging

end JoshOS
