import JoshOS.Lib.Runs
import JoshOS.Paging.Direct

/-!
Writable memory is never executable.

After `paging_init` the kernel maps device memory and moves its temporary window, in
any order and with any arguments; a call that fails midway leaves the pages it has
mapped so far.

* `Guarded`: every translation is write-protected or not executable; kept by every
  run (`Guarded.run`).
* `write_xor_execute`: the result, with the aliases of `.text` right after
  `paging_init`.
-/

namespace JoshOS

open Words Memory Radix Spans Hoare

namespace Paging

variable {c : Surroundings} {boot : BootContext} {sym : KernelSymbols} {limit root : ℕ}
  {R : ℕ → Leaf → Prop} {tabled : Set ℕ} {s : Paging}

/-! ### Device memory -/

/-- The flags of device memory. -/
def mmioFlags : ℕ := pageRw ||| pageNx ||| pagePcd ||| pagePwt

/-- The first `done` bytes of a window of device memory. -/
def MmioMap (virtPage physPage done n : ℕ) (leaf : Leaf) : Prop :=
  ∃ d < done, pageSize ∣ d ∧ n = pageNumber (virtPage + d) ∧
    leaf = ⟨smallEntry (wrap64 (physPage + d)) mmioFlags, false⟩

lemma mmioMap_succ {virtPage physPage d n : ℕ} {leaf : Leaf} (hd : pageSize ∣ d) :
    MmioMap virtPage physPage (d + pageSize) n leaf ↔ MmioMap virtPage physPage d n leaf ∨
      n = pageNumber (virtPage + d) ∧
        leaf = ⟨smallEntry (wrap64 (physPage + d)) mmioFlags, false⟩ :=
  exists_lt_add_iff (by decide) hd

/-- The pages of a window are distinct. -/
lemma not_mmioMap_next {virtPage physPage d : ℕ} {leaf : Leaf} (hsmall : d < 2 ^ 48)
    (hd : pageSize ∣ d) : ¬ MmioMap virtPage physPage d (pageNumber (virtPage + d)) leaf := by
  rintro ⟨b, hb, ⟨x, rfl⟩, hn, -⟩
  obtain ⟨y, rfl⟩ := hd
  simp only [pageNumber, show pageSize = 4096 from rfl] at hb hn hsmall
  omega

/-- The mapping loop of `paging_map_mmio` maps a whole number of pages, also when it
fails. -/
lemma mmioLoop_triple (virtPage physPage : ℕ) {span : ℕ} (hspan : pageSize ∣ span)
    (htab : ∀ d < span, pageNumber (virtPage + d) / 512 ∈ tabled) :
    Triple (Maps c root R tabled)
      (forUp 0 span pageSize fun done =>
        map4kFlags c.boot root (virtPage + done) (wrap64 (physPage + done)) mmioFlags false)
      (fun _ s => Maps c root (fun n leaf => R n leaf ∨ MmioMap virtPage physPage span n leaf)
        tabled s ∧ ∀ d < span, pageSize ∣ d → ∀ leaf, R (pageNumber (virtPage + d)) leaf →
          leaf = ⟨smallEntry (wrap64 (physPage + d)) mmioFlags, false⟩)
      (fun _ s => ∃ done ≤ span,
        Maps c root (fun n leaf => R n leaf ∨ MmioMap virtPage physPage done n leaf) tabled s) := by
  refine .conseq (.forUp
    (I := fun done s =>
      Maps c root (fun n leaf => R n leaf ∨ MmioMap virtPage physPage done n leaf) tabled s ∧
        ∀ d < done, pageSize ∣ d → ∀ leaf, R (pageNumber (virtPage + d)) leaf →
          leaf = ⟨smallEntry (wrap64 (physPage + d)) mmioFlags, false⟩)
    (by decide : 0 < pageSize) (Nat.zero_le span) (by simpa using hspan) ?_)
    (fun s hs => ⟨hs.congr fun n _ leaf => (or_iff_left ?_).symm,
      fun d hd => absurd hd (Nat.not_lt_zero d)⟩) (fun _ _ h => h) fun _ _ h => h
  rotate_left
  · rintro ⟨d, hd, -⟩
    omega
  intro d _ hlt hd
  rw [Nat.sub_zero] at hd
  refine .of_pre fun s₀ hs₀ => (map4kFlags_triple (k := 0) _ _ (wrap64_lt _) (by decide)
    (htab d hlt)).conseq (fun s hs => hs ▸ ⟨hs₀.1, Nat.zero_le _⟩)
    (fun _ s hs => ⟨hs.1.congr fun n _ leaf => ?_, fun b hb hdb leaf hleaf => ?_⟩)
    fun _ s hs => ⟨d, hlt.le, hs.1⟩
  · rw [setLeaf_iff (smallEntry_present _ _) (hs.2.2.2.2 rfl), mmioMap_succ hd, or_assoc]
  · rcases lt_or_eq_of_dvd hd hdb hb with hbd | rfl
    · exact hs₀.2 b hbd hdb leaf hleaf
    · exact hs.2.2.2.2 rfl leaf (.inl hleaf)

/-- What a call of `paging_map_mmio` can come to: nothing returned and some first part of
the window mapped, with the bump pointer where it was, or the whole window and the pointer
behind it. -/
inductive MmioOutcome (c : Surroundings) (limit : ℕ) (R : ℕ → Leaf → Prop) (s : Paging)
    (phys size : ℕ) : ℕ × Paging → Prop
  | failed (t : Paging) (done : ℕ) (hnext : t.mmioNext = s.mmioNext)
      (hready : Ready c limit (fun n leaf =>
        R n leaf ∨ MmioMap s.mmioNext (alignDown phys pageSize) done n leaf) t) :
      MmioOutcome c limit R s phys size (0, t)
  | mapped (t : Paging) (span : ℕ) (hsize : size ≠ 0)
      (hspan : alignUp (phys - alignDown phys pageSize + size) pageSize = some span)
      (hnext : t.mmioNext = s.mmioNext + span)
      (hready : Ready c limit (fun n leaf =>
        R n leaf ∨ MmioMap s.mmioNext (alignDown phys pageSize) span n leaf) t) :
      MmioOutcome c limit R s phys size (s.mmioNext + (phys - alignDown phys pageSize), t)

/-- **`paging_map_mmio`** comes to one of these. -/
lemma pagingMapMmio_outcome (h : Ready c limit R s) (phys size : ℕ) :
    MmioOutcome c limit R s phys size (pagingMapMmio s phys size) := by
  have hsame : MmioOutcome c limit R s phys size (0, s) := by
    refine .failed s 0 rfl { h with maps := h.maps.congr fun n _ leaf => (or_iff_left ?_).symm }
    rintro ⟨d, hd, -⟩
    omega
  rw [pagingMapMmio, h.active]
  simp only
  split
  · exact hsame
  rename_i hargs
  split
  · exact hsame
  split
  · exact hsame
  rename_i span hup
  split
  · exact hsame
  rename_i hroom
  rw [not_or] at hroom
  have hspan := (alignUp_eq_some (by decide) hup).1
  obtain ⟨hok, herr⟩ := mmioLoop_triple s.mmioNext (alignDown phys pageSize) hspan
    (fun _ _ => Set.mem_univ _) s.machine h.maps
  split
  · rename_i status machine hrun
    obtain ⟨done, -, hmaps⟩ := herr status machine hrun
    exact .failed _ done rfl { h with active := rfl, maps := hmaps }
  · rename_i machine hrun
    exact .mapped _ span (not_or.mp hargs).2 hup rfl { h with
      active := rfl
      maps := (hok _ machine hrun).1
      next_dvd := dvd_add h.next_dvd hspan
      next_ge := h.next_ge.trans (Nat.le_add_right _ _)
      next_le := not_lt.mp hroom.2 }

lemma pagingMapMmio_ready (h : Ready c limit R s) (phys size : ℕ) :
    ∃ done, Ready c limit
      (fun n leaf => R n leaf ∨ MmioMap s.mmioNext (alignDown phys pageSize) done n leaf)
      (pagingMapMmio s phys size).2 := by
  have houtcome := pagingMapMmio_outcome h phys size
  generalize pagingMapMmio s phys size = r at houtcome
  cases houtcome with
  | failed t done hnext hready => exact ⟨done, hready⟩
  | mapped t span hsize hspan hnext hready => exact ⟨span, hready⟩

/-! ### The temporary window -/

/-- **`paging_temp_map`** sets the translation of its one page, or fails and changes
none. -/
lemma pagingTempMap_ready (h : Ready c limit R s) {phys : ℕ} (hphys : phys < 2 ^ 64) :
    Ready c limit R (pagingTempMap s phys).2 ∨
      Ready c limit (setLeaf R (pageNumber tempMapBase)
        (smallEntry (alignDown phys pageSize) (pageRw ||| pageNx ||| pagePcd)))
        (pagingTempMap s phys).2 := by
  have hle := alignDown_le phys pageSize
  have hword : alignDown phys pageSize < 2 ^ 64 := by omega
  have hflags : pageRw ||| pageNx ||| pagePcd < 2 ^ 64 := by decide
  obtain ⟨hok, herr⟩ := map4kFlags_triple (k := 0) tempMapBase true hword hflags
    (Set.mem_univ _) s.machine ⟨h.maps, Nat.zero_le _⟩
  rw [pagingTempMap, h.active]
  simp only
  split
  · exact .inl h
  split
  · rename_i status machine hrun
    exact .inl { h with active := rfl, maps := (herr status machine hrun).1 }
  · rename_i machine hrun
    exact .inr { h with active := rfl, maps := (hok _ machine hrun).1 }

/-- **`paging_temp_unmap`** clears the translation of the window, if there is a page
table for it. -/
lemma pagingTempUnmap_ready (h : Ready c limit R s) :
    Ready c limit R (pagingTempUnmap s) ∨
      Ready c limit (setLeaf R (pageNumber tempMapBase) 0) (pagingTempUnmap s) := by
  obtain ⟨hok, herr⟩ := pteForVirtual_triple_lookup tempMapBase s.machine h.maps
  rw [pagingTempUnmap, h.active]
  simp only
  split
  · exact .inl h
  split
  · rename_i status machine hrun
    exact .inl { h with active := rfl, maps := herr status machine hrun }
  · rename_i pte machine hrun
    obtain ⟨f, hw, rfl⟩ := hok pte machine hrun
    exact .inr { h with active := rfl, maps := hw.set4k (by norm_num) }

/-! ### Runs -/

/-- A call of the interface after `paging_init`, with any arguments of the types of
`paging.h`. -/
inductive Call where
  | mapMmio (physicalAddress size : UInt64)
  | tempMap (physicalAddress : UInt64)
  | tempUnmap

/-- One call, with the pointer it returns. -/
def step (s : Paging) : Call → ℕ × Paging
  | .mapMmio phys size => pagingMapMmio s phys.toNat size.toNat
  | .tempMap phys => pagingTempMap s phys.toNat
  | .tempUnmap => (0, pagingTempUnmap s)

/-- A leaf that is write-protected or not executable. -/
def WriteXorExec (leaf : Leaf) : Prop := leaf.entry.testBit 1 = true → leaf.entry.testBit 63 = true

/-- Every translation is write-protected or not executable. -/
def Guarded (c : Surroundings) (limit : ℕ) (s : Paging) : Prop :=
  ∃ R, Ready c limit R s ∧ ∀ n leaf, R n leaf → WriteXorExec leaf

/-- A small leaf whose flags have the no-execute bit. -/
lemma writeXorExec_of_nx {phys flags : ℕ} (h : flags.testBit 63 = true) :
    WriteXorExec ⟨smallEntry phys flags, false⟩ := fun _ => smallEntry_nx h

/-- Setting one leaf keeps the others. -/
lemma forall_setLeaf {P : Leaf → Prop} {n₀ e : ℕ} (hR : ∀ n leaf, R n leaf → P leaf)
    (he : e.testBit 0 = true → P ⟨e, false⟩) : ∀ n leaf, setLeaf R n₀ e n leaf → P leaf := by
  intro n leaf h
  rw [setLeaf] at h
  split at h
  · obtain ⟨rfl, h0⟩ := h
    exact he h0
  · exact hR n leaf h

/-- The step lemma. -/
lemma Guarded.step (h : Guarded c limit s) (call : Call) : Guarded c limit (s.step call).2 := by
  obtain ⟨R, hr, hR⟩ := h
  cases call with
  | mapMmio phys size =>
    obtain ⟨done, hr'⟩ := pagingMapMmio_ready hr phys.toNat size.toNat
    refine ⟨_, hr', ?_⟩
    rintro n leaf (h | ⟨d, -, -, -, rfl⟩)
    · exact hR n leaf h
    · exact writeXorExec_of_nx (by decide)
  | tempMap phys =>
    rcases pagingTempMap_ready hr phys.toNat_lt with hr' | hr'
    · exact ⟨R, hr', hR⟩
    · exact ⟨_, hr', forall_setLeaf hR fun _ => writeXorExec_of_nx (by decide)⟩
  | tempUnmap =>
    rcases pagingTempUnmap_ready hr with hr' | hr'
    · exact ⟨R, hr', hR⟩
    · exact ⟨_, hr', forall_setLeaf hR fun h0 => absurd h0 (by decide)⟩

/-- The run lemma. -/
lemma Guarded.run (h : Guarded c limit s) (calls : List Call) :
    Guarded c limit (Runs.final Paging.step s calls) :=
  Runs.final_induction Paging.step (fun _ call ht => ht.step call) h calls

/-- The direct map is not executable. -/
lemma directLeaf_nx (boot : BootContext) (sym : KernelSymbols) (a : ℕ) :
    (directLeaf boot sym a).entry.testBit 63 = true := by
  rw [directLeaf]
  split
  · simp only [hugeEntry, Nat.testBit_or, show pageNx.testBit 63 = true by decide, Bool.or_true]
  · exact smallEntry_nx (directFlags_bits boot sym a).2.1

/-- In the sections only `.text` may be executed, and it is not writable. -/
lemma sections_flags_cases {r : Section} (hr : r ∈ sections boot sym) :
    r = ⟨sym.textStart, sym.textEnd, 0⟩ ∨ r.flags.testBit 63 = true := by
  simp only [sections, List.mem_cons, List.not_mem_nil, or_false] at hr
  rcases hr with rfl | rfl | rfl | rfl | rfl
  · exact .inr (by simp only; decide)
  · exact .inl rfl
  · exact .inr (by simp only; decide)
  · exact .inr (by simp only; decide)
  · exact .inr (by simp only; decide)

/-- `paging_init` maps nothing writable and executable. -/
lemma kernelMap_guarded {n : ℕ} {leaf : Leaf} (h : KernelMap boot sym limit n leaf) :
    WriteXorExec leaf := by
  rcases h with ⟨a, -, -, -, rfl⟩ | ⟨r, hr, v, -, -, phys, -, rfl⟩
  · exact fun _ => directLeaf_nx boot sym a
  · rcases sections_flags_cases hr with rfl | hnx
    · intro hrw
      rw [smallEntry_testBit (dvd_alignDown phys pageSize) (by decide) (by decide)] at hrw
      exact absurd hrw (by simp)
    · exact writeXorExec_of_nx hnx

/-! ### Aliases -/

/-- The page that a leaf of the direct map leads to. -/
lemma directLeaf_page (hc : Checked boot limit) {a w : ℕ} (ha : a < limit) (hd : pageSize ∣ a)
    (hw : pageNumber w = pageNumber (boot.physicalMemoryOffset + a)) :
    (leafMapping (directLeaf boot sym a).entry w (directLeaf boot sym a).size
      (directLeaf boot sym a).huge).physicalAddress / pageSize = a / pageSize := by
  have hmap : directMapMax = 2 ^ 40 := rfl
  have hps : pageSize = 4096 := rfl
  have hhs : hugePageSize = 2097152 := rfl
  have hsmall := hc.small
  obtain ⟨o, ho⟩ := hc.offset_dvd
  rw [pageNumber, pageNumber, ho, hhs] at hw
  simp only [leafMapping, directLeaf]
  split
  · have hle := alignDown_le a hugePageSize
    obtain ⟨hframe, -⟩ := hugeEntry_direct (a := alignDown a hugePageSize)
      (dvd_trans pageSize_dvd_hugePageSize (dvd_alignDown _ _)) (by omega)
    simp only [hframe, Leaf.size, if_true]
    rw [alignDown_eq_mul, hps, hhs]
    omega
  · simp only [smallEntry_frame hd (directFlags_bits boot sym a).1, Leaf.size, Bool.false_eq_true,
      if_false]
    obtain ⟨x, rfl⟩ := hd
    rw [hps] at ha ⊢
    omega

/-- The page that a leaf of the kernel image leads to, for an aligned virtual page
`v`. -/
lemma section_page (hc : Checked boot limit) (hi : ImagePlaced boot sym) {r : Section}
    (hr : r ∈ sections boot sym) {v phys w : ℕ} (hd : pageSize ∣ v)
    (hphys : kernelPhysForVirtual boot v = some phys) :
    phys = boot.kernelPhysStart + (v - boot.kernelVirtStart) ∧ boot.kernelVirtStart ≤ v ∧
      v < boot.kernelVirtEnd ∧ alignDown phys pageSize = phys ∧
      ∀ leaf : Leaf, leaf = ⟨smallEntry (alignDown phys pageSize) r.flags, false⟩ →
        (leafMapping leaf.entry w leaf.size leaf.huge).physicalAddress / pageSize =
          phys / pageSize := by
  have hmap : directMapMax = 2 ^ 40 := rfl
  have hps : pageSize = 4096 := rfl
  have h1 := hc.kernelPhys
  have h2 := hi.extent
  have h3 := hc.kernel
  have h4 := hc.small
  have h5 := hi.offset
  have hin : boot.kernelVirtStart ≤ v ∧ v < boot.kernelVirtEnd := by
    rw [kernelPhysForVirtual] at hphys
    split at hphys
    · simp at hphys
    · omega
  have heq := Option.some.inj (hphys.symm.trans (hi.kernelPhysForVirtual hc hin.1 hin.2))
  have hdvd : pageSize ∣ phys := by
    obtain ⟨x, rfl⟩ := hd
    rw [hps] at h5 hin heq ⊢
    omega
  refine ⟨heq, hin.1, hin.2, alignDown_of_dvd hdvd, ?_⟩
  have hflags : r.flags &&& pageMask = 0 := by
    simp only [sections, List.mem_cons, List.not_mem_nil, or_false] at hr
    rcases hr with rfl | rfl | rfl | rfl | rfl <;> simp only <;> decide
  rintro leaf rfl
  simp only [leafMapping, alignDown_of_dvd hdvd, smallEntry_frame hdvd hflags, Leaf.size,
    Bool.false_eq_true, if_false]
  obtain ⟨x, rfl⟩ := hdvd
  rw [hps] at heq ⊢
  omega

/-- The addresses of an aligned `.text` section are in its pages. -/
lemma inSection_of_mem_text (hi : ImagePlaced boot sym) {start stop v : ℕ}
    (hk : boot.kernelVirtStart ≤ start) (hs : start ≤ v) (he : v < stop) :
    InSection boot start stop (boot.kernelPhysStart + (v - boot.kernelVirtStart)) := by
  have hpm : pmmPageSize = 4096 := rfl
  have h1 := alignDown_le (boot.kernelPhysStart + (v - boot.kernelVirtStart)) pmmPageSize
  have h2 := lt_alignDown_add Pmm.pmmPageSize_pos
    (boot.kernelPhysStart + (v - boot.kernelVirtStart))
  have := hi.extent
  exact ⟨by omega, by omega, by omega⟩

/-- No physical page is executable through one address and writable through
another. -/
lemma Ready.no_alias (hr : Ready c limit (KernelMap c.boot sym limit) s)
    (hi : ImagePlaced c.boot sym) (htext : pageSize ∣ sym.textStart) {v w : ℕ}
    {m m' : PagingMapping} (hm : Paging.pagingQuery s v = some m)
    (hm' : Paging.pagingQuery s w = some m') (hexec : m.executable = true)
    (hwrite : m'.writable = true) :
    m.physicalAddress / pageSize ≠ m'.physicalAddress / pageSize := by
  have hc := hr.checked
  have hin := hi.inside
  rcases hr.pagingQuery v with ⟨leaf, hleaf, heq⟩ | ⟨-, heq⟩
  case inr =>
    rw [heq] at hm
    rw [← Option.some.inj hm] at hexec
    simp at hexec
  rcases hr.pagingQuery w with ⟨leaf', hleaf', heq'⟩ | ⟨-, heq'⟩
  case inr =>
    rw [heq'] at hm'
    rw [← Option.some.inj hm'] at hwrite
    simp at hwrite
  have hmeq := Option.some.inj (heq.symm.trans hm)
  have hmeq' := Option.some.inj (heq'.symm.trans hm')
  rw [← hmeq, executable_eq, Bool.not_eq_true'] at hexec
  rw [← hmeq', writable_eq] at hwrite
  rw [← hmeq, ← hmeq']
  -- the executable page is one of `.text`
  rcases id hleaf with ⟨a, -, -, -, hl⟩ | ⟨r, hrmem, x, hx, hn, phys, hphys, hl⟩
  · rw [hl, directLeaf_nx] at hexec
    exact absurd hexec (by simp)
  rcases sections_flags_cases hrmem with htextr | hnx
  swap
  · rw [hl, smallEntry_nx hnx] at hexec
    exact absurd hexec (by simp)
  obtain ⟨hphyseq, hxk, hxk', hal, hpage⟩ := section_page (w := v) hc hi hrmem hx.2.1 hphys
  have hlimit : phys < limit := by
    have h1 := hi.extent
    have h2 := hc.kernelPhys
    have h3 := hc.kernel
    omega
  have hdp : pageSize ∣ phys := hal ▸ dvd_alignDown phys pageSize
  have hps : pageSize = 4096 := rfl
  rw [hpage leaf hl]
  intro hsame
  rcases id hleaf' with ⟨a, ha, hda, hn', hl'⟩ | ⟨r', hrmem', x', hx', hn', phys', hphys', hl'⟩
  · -- a writable page of the direct map
    rw [hl', directLeaf_page hc ha hda hn'] at hsame
    obtain rfl : phys = a := by
      obtain ⟨i, rfl⟩ := hdp
      obtain ⟨j, rfl⟩ := hda
      rw [hps] at hsame ⊢
      omega
    obtain ⟨-, -, hstart, hstop⟩ := hx
    rw [htextr, alignDown_of_dvd htext] at hstart
    rw [htextr] at hstop
    have hro := (directMapping_flags hc hi hlimit).1.mpr (.inl (by
      rw [hphyseq]
      exact inSection_of_mem_text hi (hin _ (by simp)).1 hstart hstop))
    rw [directMapping, writable_eq, hal, ← hl', hwrite] at hro
    exact absurd hro (by simp)
  · -- a writable page of the image
    obtain ⟨hphyseq', hxk'', -, hal', hpage'⟩ := section_page (w := w) hc hi hrmem' hx'.2.1 hphys'
    have hdp' : pageSize ∣ phys' := hal' ▸ dvd_alignDown phys' pageSize
    rw [hpage' leaf' hl'] at hsame
    obtain rfl : x = x' := by
      obtain ⟨i, hi'⟩ := hdp
      obtain ⟨j, hj⟩ := hdp'
      rw [hps] at hsame hi' hj
      omega
    have huniq := hr.unique (pageNumber_lt v) hleaf (hn.trans hn'.symm ▸ hleaf')
    rw [huniq, kernelMap_guarded hleaf' hwrite] at hexec
    exact absurd hexec (by simp)

/-- **Writable memory is never executable.**  After `paging_init` no sequence of
mapping calls makes an address both writable and executable.  Right after it, with an
aligned image placed apart from the framebuffer, no physical page is executable through
one address and writable through another, and the direct map shows `.text` read-only
and not executable. -/
theorem write_xor_execute {pmm₀ : Pmm} {s s' : Paging} {root : ℕ}
    (hp : Pmm.pmmInit (some boot) = (.ok, pmm₀)) (hs : PmmReached pmm₀ s.machine.pmm)
    (h : pagingInit sym (some boot) s = (.ok root, s')) :
    (∀ calls virt m, pagingQuery (Runs.final step s' calls) virt = some m →
      ¬ (m.writable = true ∧ m.executable = true)) ∧
    (ImagePlaced boot sym →
      (∀ v ∈ [sym.textStart, sym.textEnd, sym.rodataStart, sym.rodataEnd, sym.dataStart,
        sym.dataEnd, sym.stackStart, sym.stackEnd], pageSize ∣ v) →
      (∀ v w m m', pagingQuery s' v = some m → pagingQuery s' w = some m' →
        m.executable = true → m'.writable = true →
        m.physicalAddress / pageSize ≠ m'.physicalAddress / pageSize) ∧
      ∀ v, sym.textStart ≤ v → v < sym.textEnd →
        ∃ m, pagingQuery s' (boot.physicalMemoryOffset +
            (boot.kernelPhysStart + (v - boot.kernelVirtStart))) = some m ∧
          m.present = true ∧
          m.physicalAddress = boot.kernelPhysStart + (v - boot.kernelVirtStart) ∧
          m.writable = false ∧ m.executable = false) := by
  obtain ⟨limit, hc, hr⟩ := pagingInit_ready hp hs (Set.empty_disjoint _) h
  refine ⟨fun calls virt m hm => ?_, fun hi hsym => ⟨?_, fun v hv hv' => ?_⟩⟩
  · have hguard : Guarded _ limit (Runs.final step s' calls) :=
      Guarded.run ⟨_, hr, fun n leaf => kernelMap_guarded⟩ calls
    obtain ⟨R, hr', hR⟩ := hguard
    rintro ⟨hwrite, hexec⟩
    rcases hr'.pagingQuery virt with ⟨leaf, hleaf, heq⟩ | ⟨-, heq⟩
    · rw [heq] at hm
      rw [← Option.some.inj hm, writable_eq] at hwrite
      rw [← Option.some.inj hm, executable_eq, hR _ leaf hleaf hwrite] at hexec
      simp at hexec
    · rw [heq] at hm
      rw [← Option.some.inj hm] at hwrite
      simp at hwrite
  · intro v w m m' hm hm' hexec hwrite
    exact hr.no_alias hi (hsym _ (by simp)) hm hm' hexec hwrite
  · have hlt : boot.kernelPhysStart + (v - boot.kernelVirtStart) < limit := by
      have h1 := hi.extent
      have h2 := hc.kernelPhys
      have h3 := hc.kernel
      have h4 := hi.inside sym.textStart (by simp)
      have h5 := hi.inside sym.textEnd (by simp)
      omega
    obtain ⟨hpres, haddr, hexec⟩ := directMapping_address sym hc hlt
    refine ⟨_, hr.query_direct hlt, hpres, haddr, ?_, hexec⟩
    exact (directMapping_flags hc hi hlt).1.mpr (Or.inl
      (inSection_of_mem_text hi (hi.inside _ (by simp)).1 hv hv'))

/-- The concrete boot, after a device page and a temporary page have been mapped. -/
theorem write_xor_execute_eightMiB :
    ∃ root s, pagingInit eightMiBSymbols (some eightMiBBoot) eightMiBStart = (.ok root, s) ∧
      (∀ m, pagingQuery (Runs.final step s [.mapMmio 0xfee00000 0x1000, .tempMap 0x123456])
        mmioBase = some m → ¬ (m.writable = true ∧ m.executable = true)) ∧
      ∃ m, pagingQuery s (eightMiBBoot.physicalMemoryOffset + 0x200000) = some m ∧
        m.writable = false ∧ m.executable = false := by
  obtain ⟨root, s, hrun⟩ := eightMiB_pagingInit
  obtain ⟨hguard, halias⟩ := write_xor_execute eightMiB_pmmInit ⟨[], rfl⟩ hrun
  obtain ⟨m, hq, -, -, hw, hx⟩ := (halias eightMiB_placed (by decide)).2
    eightMiBSymbols.textStart (le_refl _) (by decide)
  exact ⟨root, s, hrun, fun m hm => hguard _ _ m hm, m, hq, hw, hx⟩

end Paging

end JoshOS
