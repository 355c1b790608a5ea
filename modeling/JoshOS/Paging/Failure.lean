import JoshOS.Paging.Windows

/-!
What a failed call of `paging_map_mmio` leaves behind.

The loop of the call can give up at any page, and the pages before that one stay mapped
above the bump pointer, which has not moved.

* `GivesUp`: the byte of its window behind which a call can map no page; `failed_cases`.
* `traceless_iff`: a failed call leaves no trace exactly if every page before that byte
  was mapped already.
* `Vacant`: nothing is mapped from the bump pointer on; kept by every call that leaves no
  trace (`Vacant.step`), and then the free frames decide whether a call fails
  (`Vacant.mapMmio`).
-/

namespace JoshOS

open Words Memory Radix Spans Hoare

namespace Paging

variable {c : Surroundings} {boot : BootContext} {limit phys size span done : ℕ}
  {R R' : ℕ → Leaf → Prop} {s t : Paging}

/-! ### Where the loop gives up -/

/-- The call for these arguments passes its checks, and the first `done` bytes of its window
fit, but not the page behind them. -/
def GivesUp (s : Paging) (phys size done : ℕ) : Prop :=
  ∃ span, mmioSpan s phys size = some span ∧ done < span ∧ pageSize ∣ done ∧
    Fits s phys done ∧ ¬ Fits s phys (done + pageSize)

/-- There is one such page at most. -/
lemma GivesUp.unique {done' : ℕ} (hg : GivesUp s phys size done) (hg' : GivesUp s phys size done') :
    done = done' := by
  obtain ⟨-, -, -, ⟨a, rfl⟩, hfits, hstop⟩ := hg
  obtain ⟨-, -, -, ⟨b, rfl⟩, hfits', hstop'⟩ := hg'
  rcases lt_trichotomy a b with hlt | rfl | hlt
  · exact absurd (hfits'.mono (Nat.mul_le_mul_left pageSize hlt)) hstop
  · rfl
  · exact absurd (hfits.mono (Nat.mul_le_mul_left pageSize hlt)) hstop'

/-- **A call that returns null** was refused by its checks, or gives up.  The translations of
the pages it has mapped are what it wanted, also where there was one before. -/
lemma failed_cases (h : Ready c limit R s) (hstrict : c.strict)
    (hnull : (pagingMapMmio s phys size).1 = 0) :
    (mmioSpan s phys size = none ∧ pagingMapMmio s phys size = (0, s)) ∨
      ∃ done t, GivesUp s phys size done ∧ pagingMapMmio s phys size = (0, t) ∧
        t.mmioNext = s.mmioNext ∧
        Ready c limit (fun n leaf =>
          R n leaf ∨ MmioMap s.mmioNext (alignDown phys pageSize) done n leaf) t ∧
        ∀ d < done, pageSize ∣ d → ∀ leaf, R (pageNumber (s.mmioNext + d)) leaf →
          leaf = ⟨smallEntry (wrap64 (alignDown phys pageSize + d)) mmioFlags, false⟩ := by
  rw [pagingMapMmio_eq h.active] at hnull ⊢
  cases hspan : mmioSpan s phys size with
  | none => exact .inl ⟨rfl, rfl⟩
  | some span =>
    rw [hspan] at hnull
    dsimp only at hnull ⊢
    obtain ⟨-, -, hdvd, hroom⟩ := mmioSpan_eq_some hspan
    have hbase := h.next_ge
    have hpos : 0 < mmioBase := by decide
    have harea : mmioLimit = mmioBase + 2 ^ 30 := by decide
    rcases hall : outcome (mmioLoop s c.boot phys span) s.machine with ⟨status | _, machine⟩
    · obtain ⟨done, -, hlt, hd, m, hloop, hstop⟩ :=
        outcome_forUp_error (by decide : 0 < pageSize) hdvd hall
      have hnext : pageSize ∣ done + pageSize := dvd_add hd (dvd_refl _)
      obtain ⟨hmaps, hwanted⟩ := (mmioLoop_triple s.mmioNext (alignDown phys pageSize) hd
        (fun _ _ => Set.mem_univ _) s.machine h.maps).1 () m hloop
      have hmaps' := ((map4kFlags_triple (k := 0) (s.mmioNext + done) false (wrap64_lt _)
        (by decide) (Set.mem_univ _)) m ⟨hmaps, Nat.zero_le _⟩).2 status machine hstop
      refine .inr ⟨done, { s with machine := machine }, ⟨span, hspan, hlt, hd,
        (mmioLoop_ok_iff h hstrict hd (by omega)).mp ⟨m, hloop⟩, fun hfits => ?_⟩, rfl, rfl,
        { h with active := h.active, maps := hmaps'.1 }, hwanted⟩
      -- the loop stops at this page, however far it was to go
      have hle := Nat.le_of_dvd (by omega) ((Nat.dvd_sub hdvd hd))
      obtain ⟨m', hok⟩ := (mmioLoop_ok_iff h hstrict hnext (by omega)).mpr hfits
      have hlast : done < done + pageSize := Nat.lt_add_of_pos_right (by decide)
      have hstopped := outcome_forUp_stop (by decide : 0 < pageSize) hnext (Nat.zero_le _) hlast hd
        hloop hstop
      cases hok.symm.trans hstopped
    · rw [hall] at hnull
      dsimp only at hnull
      omega

/-- What a call that gives up returns, and the translations it leaves. -/
lemma GivesUp.outcome_eq (h : Ready c limit R s) (hstrict : c.strict)
    (hg : GivesUp s phys size done) :
    ∃ t, pagingMapMmio s phys size = (0, t) ∧ t.mmioNext = s.mmioNext ∧
      Ready c limit (fun n leaf =>
        R n leaf ∨ MmioMap s.mmioNext (alignDown phys pageSize) done n leaf) t := by
  have hnull : (pagingMapMmio s phys size).1 = 0 := by
    obtain ⟨span, hspan, hlt, hdvd, -, hstop⟩ := hg
    have hle := Nat.le_of_dvd (by omega) (Nat.dvd_sub (mmioSpan_eq_some hspan).2.2.1 hdvd)
    by_contra hne
    exact hstop (((pagingMapMmio_iff h hstrict hspan).mp hne).mono (by omega))
  rcases failed_cases h hstrict hnull with ⟨hnone, -⟩ | ⟨done', t, hg', heq, hnext, hready, -⟩
  · obtain ⟨span, hspan, -⟩ := hg
    cases hnone.symm.trans hspan
  · exact ⟨t, heq, hnext, hg.unique hg' ▸ hready⟩

/-! ### Traces -/

/-- `paging_query` reports the address as mapped. -/
def Present (s : Paging) (virt : ℕ) : Prop := ∃ m, pagingQuery s virt = some m ∧ m.present = true

/-- If the call fails, the bump pointer and every answer of `paging_query` are what they
were. -/
def Traceless (s : Paging) (phys size : ℕ) : Prop :=
  (pagingMapMmio s phys size).1 = 0 →
    (pagingMapMmio s phys size).2.mmioNext = s.mmioNext ∧
      ∀ virt, pagingQuery (pagingMapMmio s phys size).2 virt = pagingQuery s virt

/-- What is mapped has a translation. -/
lemma Ready.present_iff (h : Ready c limit R s) (virt : ℕ) :
    Present s virt ↔ ∃ leaf, R (pageNumber virt) leaf := by
  constructor
  · rintro ⟨m, hm, hpresent⟩
    rcases h.pagingQuery virt with ⟨leaf, hleaf, -⟩ | ⟨-, heq⟩
    · exact ⟨leaf, hleaf⟩
    · rw [heq] at hm
      obtain rfl := Option.some.inj hm
      cases hpresent
  · rintro ⟨leaf, hleaf⟩
    exact ⟨_, pagingQuery_of_leaf h hleaf, rfl⟩

/-- The translations decide the answers. -/
lemma Ready.pagingQuery_congr {c' : Surroundings} {limit' : ℕ} (h : Ready c limit R s)
    (h' : Ready c' limit' R t) (virt : ℕ) :
    Paging.pagingQuery t virt = Paging.pagingQuery s virt := by
  rcases h.pagingQuery virt with ⟨leaf, hleaf, heq⟩ | ⟨hnone, heq⟩
  · rw [heq, pagingQuery_of_leaf h' hleaf]
  · rcases h'.pagingQuery virt with ⟨leaf, hleaf, -⟩ | ⟨-, heq'⟩
    · exact absurd hleaf (hnone leaf)
    · rw [heq, heq']

/-- **When a failed call leaves no trace**: when every page before the one at which it gives
up was mapped already. -/
theorem traceless_iff (h : Ready c limit R s) (hstrict : c.strict) (phys size : ℕ) :
    Traceless s phys size ↔ ∀ done, GivesUp s phys size done →
      ∀ d < done, pageSize ∣ d → Present s (s.mmioNext + d) := by
  constructor
  · intro htrace done hg d hd hdvd
    obtain ⟨t, heq, -, hready⟩ := hg.outcome_eq h hstrict
    rw [Traceless, heq] at htrace
    have hpresent : Present t (s.mmioNext + d) :=
      (hready.present_iff _).mpr ⟨_, .inr ⟨d, hd, hdvd, rfl, rfl⟩⟩
    rwa [Present, (htrace rfl).2] at hpresent
  · intro hmapped hnull
    rcases failed_cases h hstrict hnull with
      ⟨-, heq⟩ | ⟨done, t, hg, heq, hnext, hready, hwanted⟩
    · rw [heq]
      exact ⟨rfl, fun _ => rfl⟩
    · rw [heq]
      refine ⟨hnext, h.pagingQuery_congr (show Ready _ limit R t from { hready with
        maps := hready.maps.congr fun n _ leaf => or_iff_left_of_imp ?_ })⟩
      rintro ⟨d, hd, hdvd, rfl, rfl⟩
      obtain ⟨leaf, hleaf⟩ := (h.present_iff _).mp (hmapped done hg d hd hdvd)
      rwa [← hwanted d hd hdvd leaf hleaf]

/-! ### A vacant rest of the window -/

/-- Nothing is mapped in the device area from the bump pointer on. -/
def Vacant (s : Paging) : Prop := ∀ v, s.mmioNext ≤ v → v < mmioLimit → ¬ Present s v

/-- Only the answers and the bump pointer matter. -/
lemma Vacant.congr (h : Vacant s) (hnext : t.mmioNext = s.mmioNext)
    (hquery : ∀ v, pagingQuery t v = pagingQuery s v) : Vacant t := by
  intro v hv hlt hpresent
  rw [Present, hquery] at hpresent
  exact h v (hnext ▸ hv) hlt hpresent

/-- The pages of a new window lie below the bump pointer after the call. -/
lemma not_mmioMap_above {next physPage v : ℕ} {leaf : Leaf} (hbase : mmioBase ≤ next)
    (hnext : pageSize ∣ next) (hspan : pageSize ∣ span) (hv : next + span ≤ v)
    (hlt : v < mmioLimit) : ¬ MmioMap next physPage span (pageNumber v) leaf := by
  rintro ⟨d, hd, -, hn, -⟩
  obtain ⟨a, rfl⟩ := hnext
  obtain ⟨b, rfl⟩ := hspan
  simp only [pageNumber, mmioBase, mmioLimit, show pageSize = 4096 from rfl] at *
  omega

/-- The temporary window is not in the device area. -/
lemma setLeaf_device {e v : ℕ} (hbase : mmioBase ≤ v) (hlt : v < mmioLimit) {leaf : Leaf} :
    setLeaf R (pageNumber tempMapBase) e (pageNumber v) leaf ↔ R (pageNumber v) leaf := by
  have hne : pageNumber v ≠ pageNumber tempMapBase := by
    simp only [pageNumber, mmioBase, mmioLimit, tempMapBase] at *
    omega
  rw [setLeaf, if_neg hne]

/-- Moving the temporary window leaves the device area vacant. -/
lemma Vacant.setLeaf (hv : Vacant s) (h : Ready c limit R s) {e : ℕ}
    (hnext : t.mmioNext = s.mmioNext)
    (ht : Ready c limit R t ∨ Ready c limit (setLeaf R (pageNumber tempMapBase) e) t) :
    Vacant t := by
  intro v hle hlt hpresent
  rw [hnext] at hle
  refine hv v hle hlt ((h.present_iff v).mpr ?_)
  rcases ht with ht | ht
  · exact (ht.present_iff v).mp hpresent
  · obtain ⟨leaf, hleaf⟩ := (ht.present_iff v).mp hpresent
    exact ⟨leaf, (setLeaf_device (h.next_ge.trans hle) hlt).mp hleaf⟩

/-- **Calls that leave no trace when they fail** keep the rest of the window vacant. -/
lemma Vacant.step (hv : Vacant s) (h : Ready c limit R s) (call : Call)
    (htrace : ∀ phys size, call = .mapMmio phys size → Traceless s phys.toNat size.toNat) :
    Vacant (s.step call).2 := by
  cases call with
  | mapMmio phys size =>
    rw [Paging.step]
    by_cases hnull : (pagingMapMmio s phys.toNat size.toNat).1 = 0
    · obtain ⟨hnext, hquery⟩ := htrace phys size rfl hnull
      exact hv.congr hnext hquery
    · have houtcome := pagingMapMmio_outcome h phys.toNat size.toNat
      generalize pagingMapMmio s phys.toNat size.toNat = r at houtcome hnull
      cases houtcome with
      | failed t done hnext hready => exact absurd rfl hnull
      | mapped t span hsize hspan hnext hready =>
        have hdvd := (alignUp_eq_some (by decide) hspan).1
        intro v hle hlt hpresent
        dsimp only at hle hpresent
        rw [hnext] at hle
        obtain ⟨leaf, hleaf | hleaf⟩ := (hready.present_iff v).mp hpresent
        · exact hv v (by omega) hlt ((h.present_iff v).mpr ⟨leaf, hleaf⟩)
        · exact not_mmioMap_above h.next_ge h.next_dvd hdvd hle hlt hleaf
  | tempMap phys =>
    exact hv.setLeaf h (pagingTempMap_mmioNext s phys.toNat) (pagingTempMap_ready h phys.toNat_lt)
  | tempUnmap => exact hv.setLeaf h (pagingTempUnmap_mmioNext s) (pagingTempUnmap_ready h)

/-- **A vacant window**: a call that passes its checks fails exactly if there are too few
frames for the missing tables. -/
lemma Vacant.mapMmio (hv : Vacant s) (h : Ready c limit R s) (hstrict : c.strict)
    (hspan : mmioSpan s phys size = some span) :
    (pagingMapMmio s phys size).1 = 0 ↔ s.machine.pmm.freeFrames <
      (missing c.boot s.rootPhys (windowPages s.mmioNext span) s.machine.mem).card := by
  obtain ⟨-, -, -, hroom⟩ := mmioSpan_eq_some hspan
  rw [← not_iff_not, not_lt, ← ne_eq, pagingMapMmio_iff h hstrict hspan]
  constructor
  · rintro ⟨boot, hactive, -, hframes⟩
    obtain rfl : c.boot = boot := Option.some.inj (h.active.symm.trans hactive)
    exact hframes
  · refine fun hframes => ⟨c.boot, h.active, fun d hd _ leaf hleaf => ?_, hframes⟩
    exact absurd ((h.present_iff _).mpr ⟨leaf, (h.maps.leaf _ (pageNumber_lt _) leaf).mp hleaf⟩)
      (hv (s.mmioNext + d) (by omega) (by omega))

/-- No page table stands where none may. -/
lemma Maps.no_table {root m : ℕ} {machine : Machine} (h : Maps c root R {m}ᶜ machine)
    (hm : m < 512 ^ 3) : pageShape.tableAt (entries c.boot machine.mem) root 3 m = none :=
  Option.eq_none_iff_forall_ne_some.mpr fun f hf => h.split m hm f hf rfl

end Paging

end JoshOS
