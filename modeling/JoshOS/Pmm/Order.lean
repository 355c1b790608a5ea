import JoshOS.Pmm.Runs

/-!
The result of `pmm_init` does not depend on the order of the memory map.

* `pmmInit_perm`: over the map in another order the loops give the same error or the same
  list, since a set of addresses has one separated list.
* `pmm_init_exact`: which frames are free after `pmm_init`, in whatever order the map comes.
-/

namespace JoshOS

open Words Spans

/-! ### `pmm_init` in any order -/

/-- The boot context with another memory map. -/
def BootContext.withMap (boot : BootContext) (map : List BootMemoryRegion) : BootContext :=
  { boot with memoryMap := map }

namespace Pmm

lemma finishInit_ne_rangeCapacity (boot : BootContext) {ranges : List Span}
    (hok : RangesOk ranges) (hroom : ranges.length + 1 < pmmMaxRanges) :
    (finishInit boot ranges).1 ≠ .rangeCapacity := by
  rw [finishInit]
  rcases leaves_removeExtent boot.kernelPhysStart hok (by omega) boot.kernelPhysEnd_lt with
    ⟨-, hbad⟩ | ⟨-, l, hrun, hok', -, hlength⟩
  · simp [andThen_badArgument hbad]
  rw [hrun, andThen_ok]
  rcases leaves_removeExtent boot.framebufferPhysStart hok' (by omega)
    boot.framebufferPhysEnd_lt with
    ⟨-, hbad⟩ | ⟨-, l', hrun', -⟩
  · simp [andThen_badArgument hbad]
  rw [hrun', andThen_ok]
  split <;> simp

/-- `pmm_init` on a boot context and on one with the map permuted: never out of ranges, the
same status, and the same state unless an argument is refused. -/
lemma pmmInit_perm (boot : BootContext) {map : List BootMemoryRegion}
    (hperm : map.Perm boot.memoryMap) :
    (pmmInit (some boot)).1 ≠ .rangeCapacity ∧
    (pmmInit (some (boot.withMap map))).1 = (pmmInit (some boot)).1 ∧
    ((pmmInit (some boot)).1 ≠ .badArgument →
      pmmInit (some (boot.withMap map)) = pmmInit (some boot)) := by
  have hrefused {r r' : PmmStatus × Pmm} (h' : r'.1 = .badArgument) (h : r.1 = .badArgument) :
      r.1 ≠ .rangeCapacity ∧ r'.1 = r.1 ∧ (r.1 ≠ .badArgument → r' = r) :=
    ⟨by simp [h], h'.trans h.symm, absurd h⟩
  simp only [pmmInit_eq, BootContext.withMap, hperm.length_eq]
  split
  · exact hrefused rfl rfl
  next hargs =>
    push Not at hargs
    have hcount : boot.memoryMap.length ≤ 128 := hargs.2.1
    have hmax : pmmMaxRanges = 4096 := rfl
    have hfirst (map : List BootMemoryRegion) (hmap : map.length ≤ 128) :=
      leaves_insertUsable boot.physicalMemoryLimit_lt map rangesOk_nil
        (by rw [List.length_nil]; omega)
    have hfirst' := hfirst map (hperm.length_eq ▸ hcount)
    simp only [hperm.mem_iff] at hfirst'
    obtain ⟨h', h⟩ | ⟨l₁, h', h, hok₁, hlen₁⟩ := hfirst'.eq (hfirst _ hcount)
    · exact hrefused (andThen_badArgument h' _) (andThen_badArgument h _)
    rw [List.length_nil, hperm.length_eq] at hlen₁
    rw [h', h, andThen_ok, andThen_ok]
    split
    · exact ⟨by simp, rfl, fun _ => rfl⟩
    have hsecond := leaves_removeReserved map hok₁ (by rw [hperm.length_eq]; omega)
    simp only [hperm.mem_iff, hperm.length_eq] at hsecond
    obtain ⟨h', h⟩ | ⟨l₂, h', h, hok₂, hlen₂⟩ :=
      hsecond.eq (leaves_removeReserved _ hok₁ (by omega))
    · exact hrefused (andThen_badArgument h' _) (andThen_badArgument h _)
    rw [h', h, andThen_ok, andThen_ok]
    exact ⟨finishInit_ne_rangeCapacity boot hok₂ (by omega), rfl, fun _ => rfl⟩

/-! ### The frames that are free -/

/-- The page at an aligned address meets an interval that is not empty exactly when the two
are not disjoint. -/
lemma not_pageMeets_iff {f start stop : ℕ} (hf : pmmPageSize ∣ f) :
    ¬ (start < stop ∧ pageMeets f start stop) ↔
      Disjoint (Set.Ico f (f + pmmPageSize)) (Set.Ico start stop) := by
  have hpos := pmmPageSize_pos
  rw [pageMeets, alignDown_of_dvd hf, Set.Ico_disjoint_Ico]
  omega

/-- **`pmm_init` computes exactly the usable frames.**  When it succeeds, an aligned address is
a free frame exactly when its page lies in a usable entry, at or above 1 MiB and below the
limit, and meets no other entry, nor the kernel image, nor the framebuffer.  It never runs out
of ranges; and the status, and with it the free ranges of every map that is not refused, are
the same in whatever order the entries come. -/
theorem pmm_init_exact (boot : BootContext) :
    (∀ s, pmmInit (some boot) = (.ok, s) → ∀ f, pmmPageSize ∣ f →
      (s.frameIsFree f = true ↔
        (∃ r ∈ boot.memoryMap, r.type = .usable ∧ r.length ≠ 0 ∧
          max r.base pmmMinPhysical ≤ f ∧
          f + pmmPageSize ≤ min (r.base + r.length) boot.physicalMemoryLimit) ∧
        (∀ r ∈ boot.memoryMap, r.type ≠ .usable → r.length ≠ 0 →
          Disjoint (Set.Ico f (f + pmmPageSize)) (Set.Ico r.base (r.base + r.length))) ∧
        Disjoint (Set.Ico f (f + pmmPageSize))
          (Set.Ico boot.kernelPhysStart boot.kernelPhysEnd) ∧
        Disjoint (Set.Ico f (f + pmmPageSize))
          (Set.Ico boot.framebufferPhysStart boot.framebufferPhysEnd))) ∧
    (pmmInit (some boot)).1 ≠ .rangeCapacity ∧
    ∀ map, map.Perm boot.memoryMap →
      (pmmInit (some (boot.withMap map))).1 = (pmmInit (some boot)).1 ∧
      ((pmmInit (some boot)).1 ≠ .badArgument →
        (pmmInit (some (boot.withMap map))).2.freeRanges = (pmmInit (some boot)).2.freeRanges) := by
  refine ⟨fun s hinit f hf => ?_, (pmmInit_perm boot (List.Perm.refl _)).1, fun map hperm => ?_⟩
  · obtain ⟨hinv, hsame, -, hcover, -⟩ := pmmInit_spec hinit
    have hfree : s.frameIsFree f = true ↔ f ∈ InitiallyFree boot := by
      rw [← hcover, ← hsame, frameIsFree]
      exact containsFrame_iff hinv.free_aligned (hsame ▸ hinv.managed_word) hf
    rw [hfree]
    refine and_congr (exists_congr fun r => and_congr_right fun _ => ?_)
      (and_congr (forall₂_congr fun r _ => ?_)
        (and_congr (not_pageMeets_iff hf) (not_pageMeets_iff hf)))
    · simp only [usablePart, alignDown_of_dvd hf, max_le_iff, le_min_iff, and_assoc,
        BootMemoryRegion.stop]
    · rw [← not_pageMeets_iff hf, reservedPart, BootMemoryRegion.stop]
      have hpos : r.length ≠ 0 → r.base < r.base + r.length := by omega
      tauto
  · obtain ⟨-, hstatus, hstate⟩ := pmmInit_perm boot hperm
    exact ⟨hstatus, fun h => by rw [hstate h]⟩

/-- The theorem on one boot: its last frame is free, and the ranges are those of the map read
backwards. -/
theorem pmm_init_exact_eightMiB :
    let s := (pmmInit (some eightMiBBoot)).2
    (pmmInit (some eightMiBBoot)).1 = .ok ∧
    (s.frameIsFree 0x7ff000 = true ∧ ∃ r ∈ eightMiBBoot.memoryMap, r.type = .usable ∧
      r.length ≠ 0 ∧ max r.base pmmMinPhysical ≤ 0x7ff000 ∧
      0x7ff000 + pmmPageSize ≤ min (r.base + r.length) eightMiBBoot.physicalMemoryLimit) ∧
    (pmmInit (some (eightMiBBoot.withMap eightMiBBoot.memoryMap.reverse))).2.freeRanges =
      s.freeRanges := by
  intro s
  have hinit : pmmInit (some eightMiBBoot) = (.ok, s) := Prod.ext (by decide) rfl
  have hfree : s.frameIsFree 0x7ff000 = true := by decide
  obtain ⟨hframes, -, hperm⟩ := pmm_init_exact eightMiBBoot
  exact ⟨by decide, ⟨hfree, ((hframes s hinit 0x7ff000 (by decide)).mp hfree).1⟩,
    (hperm _ (List.reverse_perm _)).2 (by decide)⟩

end Pmm

end JoshOS
