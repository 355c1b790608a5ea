import JoshOS.Paging.Runs

/-!
The frames that a window of device memory takes.

`paging_map_mmio` takes a frame for each table that is missing on the way to one of its
pages, and for nothing else.  So the difference between the free frames and the missing
tables stays what it is while the call runs, and the state before the call decides how far
it comes.

* `missing`, `balance`: the missing tables of some pages, and the frames left behind them.
* `Fits`, `mmioLoop_ok_iff`: a first part of a window can be mapped exactly if nothing else is
  mapped there and there are frames for its missing tables.
* `mmioSpan`, `mmioLoop`, `pagingMapMmio_eq`: the checks and the loop of the call.
-/

namespace JoshOS

open Set Words Memory Radix Spans Hoare

namespace Paging

/-! ### Missing tables -/

/-- The tables that are missing on the way to some addresses: their levels and paths. -/
def missing (boot : BootContext) (root : ℕ) (virts : Finset ℕ) (m : Memory) : Finset (ℕ × ℕ) :=
  {q ∈ (Finset.Icc 1 3 ×ˢ virts).image fun q => (q.1, way q.2 q.1) |
    pageShape.tableAt (entries boot m) root q.1 q.2 = none}

/-- The free frames less the missing tables. -/
def balance (boot : BootContext) (root : ℕ) (virts : Finset ℕ) (s : Machine) : ℤ :=
  s.pmm.freeFrames - (missing boot root virts s.mem).card

variable {c : Surroundings} {boot : BootContext} {root limit l f g k virt phys flags : ℕ}
  {virts : Finset ℕ} {b : ℤ} {m m' : Memory} {R : ℕ → Leaf → Prop} {tabled : Set ℕ}

lemma mem_missing {q : ℕ × ℕ} : q ∈ missing boot root virts m ↔
    (∃ v ∈ virts, way v q.1 = q.2) ∧ (1 ≤ q.1 ∧ q.1 ≤ 3) ∧
      pageShape.tableAt (entries boot m) root q.1 q.2 = none := by
  simp only [missing, Finset.mem_filter, Finset.mem_image, Finset.mem_product, Finset.mem_Icc,
    Prod.exists]
  constructor
  · rintro ⟨⟨l, v, ⟨hl, hv⟩, rfl⟩, hnone⟩
    exact ⟨⟨v, hv, rfl⟩, hl, hnone⟩
  · rintro ⟨⟨v, hv, hq⟩, hl, hnone⟩
    exact ⟨⟨q.1, v, ⟨hl, hv⟩, Prod.ext rfl hq⟩, hnone⟩

lemma card_missing_le : (missing boot root virts m).card ≤ 3 * virts.card :=
  (Finset.card_filter_le _ _).trans (Finset.card_image_le.trans (Finset.card_product _ _).le)

lemma missing_congr (h : ∀ l ≤ 3, ∀ p < 512 ^ l, pageShape.tableAt (entries boot m') root l p =
    pageShape.tableAt (entries boot m) root l p) :
    missing boot root virts m' = missing boot root virts m := by
  refine Finset.filter_congr fun q hq => ?_
  simp only [Finset.mem_image, Finset.mem_product, Finset.mem_Icc, Prod.exists] at hq
  obtain ⟨l, v, ⟨hl, -⟩, rfl⟩ := hq
  rw [h l hl.2 _ (way_lt v (by omega))]

/-- Below a missing table there is no page table. -/
lemma no_page_table {t : ℕ → ℕ → ℕ} (hl : l ≤ 3)
    (h : pageShape.tableAt t root l (way virt l) = none) :
    pageShape.tableAt t root 3 (way virt 3) = none := by
  induction hl using Nat.decreasingInduction with
  | self => exact h
  | of_succ l hl ih =>
    have hdiv : way virt (l + 1) / pageShape.fan = way virt l := by
      rw [← way_succ virt hl.le, pageShape_fan, Nat.mul_add_div (by norm_num),
        Nat.div_eq_of_lt (tableIndex_lt virt _), Nat.add_zero]
    rw [← hdiv] at h
    exact ih (Shape.tableAt_succ_eq_none h)

/-- A fresh table is missing no longer. -/
lemma missing_link (hone : pageShape.OneParent (entries boot m) root) (hl : l < 3)
    (hn : NewTable (entries boot m) (entries boot m') root l (way virt l)
      (tableIndex virt (39 - 9 * l)) f g) :
    missing boot root virts m' = (missing boot root virts m).erase (l + 1, way virt (l + 1)) := by
  ext ⟨l', p⟩
  have hlink : (∃ v ∈ virts, way v l' = p) → l' ≤ 3 →
      (pageShape.tableAt (entries boot m') root l' p = none ↔ (l', p) ≠ (l + 1, way virt (l + 1)) ∧
        pageShape.tableAt (entries boot m) root l' p = none) := by
    rintro ⟨v, -, rfl⟩ hl'
    rw [Shape.tableAt_link hone hn.toLink hl' (way_lt v (by omega)), pageShape_fan,
      way_succ virt hl.le, ne_eq, Prod.mk.injEq]
    split_ifs with heq
    · exact iff_of_false (by simp) fun h => h.1 heq
    · exact (and_iff_right heq).symm
  rw [Finset.mem_erase, mem_missing, mem_missing]
  constructor
  · rintro ⟨hv, hl', hnone⟩
    exact ⟨((hlink hv hl'.2).mp hnone).1, hv, hl', ((hlink hv hl'.2).mp hnone).2⟩
  · rintro ⟨hne, hv, hl', hnone⟩
    exact ⟨hv, hl', (hlink hv hl'.2).mpr ⟨hne, hnone⟩⟩

/-- **`ensure_table`** takes a frame only for a missing table. -/
lemma ensureTable_balance (hl : l < 3) (hvirt : virt ∈ virts) :
    Triple (fun s => Walked c root R tabled virt k l f s ∧ balance c.boot root virts s = b)
      (ensureTable c.boot f (tableIndex virt (39 - 9 * l)))
      (fun _ s => balance c.boot root virts s = b)
      (fun status _ => status = .noMemory → b < 0) := by
  refine Triple.iff_ends.mpr fun s hs => ?_
  obtain ⟨hw, rfl⟩ := hs
  have hmissing (h0 : (entries c.boot s.mem f (tableIndex virt (39 - 9 * l))).testBit 0 = false) :
      (l + 1, way virt (l + 1)) ∈ missing c.boot root virts s.mem := by
    refine mem_missing.mpr ⟨⟨virt, hvirt, rfl⟩, ⟨by omega, by omega⟩, ?_⟩
    rw [Shape.tableAt_succ, entryAt_way hl.le hw.table]
    exact child_eq_none (.inl h0)
  have hout := ensureTable_ensured c.boot s f (tableIndex virt (39 - 9 * l))
  generalize outcome (ensureTable c.boot f _) s = r at hout ⊢
  cases hout with
  | unreached | conflict | lost => exact fun h => by cases h
  | found => rfl
  | noMemory hptr h0 hg =>
    have hzero := (pmmAllocFrame_none hw.inv hg).2
    have hpos := Finset.card_pos.mpr ⟨_, hmissing h0⟩
    intro _
    rw [balance]
    omega
  | added hptr h0 hg hgptr =>
    have ha := allocated_of_alloc hw.toKept hg
    have hcount : s.pmm.pmmAllocFrame.2.freeFrames + 1 = s.pmm.freeFrames := ha.count
    have hn := newTable_of_allocated hw.toTreeOk hl (way_lt virt (by omega)) (tableIndex_lt virt _)
      hw.table h0 ha
    have hpos := Finset.card_pos.mpr ⟨_, hmissing h0⟩
    change ((s.pmm.pmmAllocFrame.2.freeFrames : ℕ) : ℤ) -
      (missing c.boot root virts (linked c s f _ _)).card = _
    rw [missing_link hw.one hl hn, Finset.card_erase_of_mem (hmissing h0), balance]
    omega

/-- **`pte_for_virtual`** keeps the balance. -/
lemma pteForVirtual_balance (hvirt : virt ∈ virts) :
    Triple (fun s => Maps c root R univ s ∧ balance c.boot root virts s = b)
      (pteForVirtual c.boot root virt true)
      (fun pte s => ∃ f, (Walked c root R univ virt 0 3 f s ∧ balance c.boot root virts s = b) ∧
        pte = c.boot.physicalMemoryOffset + f + 8 * tableIndex virt 12)
      (fun status _ => status = .noMemory → b < 0) := by
  have hstep : ∀ l < 3, ∀ f, Triple
      (fun s => Walked c root R univ virt 0 l f s ∧ balance c.boot root virts s = b)
      (ensureTable c.boot f (tableIndex virt (39 - 9 * l)))
      (fun g s => Walked c root R univ virt 0 (l + 1) g s ∧ balance c.boot root virts s = b)
      (fun status _ => status = .noMemory → b < 0) := fun l hl f =>
    ((ensureTable_triple hl fun _ => mem_univ _).and (ensureTable_balance hl hvirt)).conseq
      (fun _ hs => ⟨hs.1, hs⟩) (fun _ _ hs => hs) fun _ _ hs => hs.2
  refine (pteForVirtual_rule (A := fun l f s => Walked c root R univ virt 0 l f s ∧
    balance c.boot root virts s = b) ?_ (fun l hl f _ => ?_) ?_ fun f e _ => ?_).conseq
    (fun s hs => ⟨hs.1.walked virt (Nat.zero_le _), hs.2⟩)
    (fun _ s ⟨f, hf, _, hpte⟩ => ⟨f, hf, hpte⟩) fun _ _ hs => hs
  · simp
  · rw [nextTable, if_pos rfl]
    exact hstep l (by omega) f
  · simp
  · rw [lastTable, if_pos rfl]
    exact (hstep 2 (by omega) f).conseq (fun _ hs => hs.1) (fun _ _ hs => hs) fun _ _ hs => hs

/-- **`map_4k_flags`** keeps the balance, and there is no frame only if it is negative. -/
lemma map4kFlags_balance (hvirt : virt ∈ virts) (replace : Bool) :
    Triple (fun s => Maps c root R univ s ∧ balance c.boot root virts s = b)
      (map4kFlags c.boot root virt phys flags replace)
      (fun _ s => balance c.boot root virts s = b)
      (fun status _ => status = .noMemory → b < 0) := by
  rw [map4kFlags]
  refine .guard (by simp) fun _ => .bind (pteForVirtual_balance hvirt) fun pte =>
    .bind readEntry_triple fun e => .guard (by simp) fun _ =>
    writeEntry_triple fun s hs => ?_
  obtain ⟨⟨f, ⟨hw, rfl⟩, rfl⟩, -⟩ := hs
  have hp := way_lt virt (l := 3) (by omega)
  have hag := hw.agree le_rfl hp hw.table (tableIndex_lt virt 12) (phys ||| pagePresent ||| flags)
  simp only [balance]
  rw [Nat.mul_zero, Nat.add_zero, missing_congr fun l hl p hp' =>
    Shape.tableAt_set hw.one hag le_rfl hp hw.table (fun h => absurd h (lt_irrefl 3)) hl hp']

/-- **The mapping loop** keeps the balance. -/
lemma mmioLoop_balance (virts : Finset ℕ) (virtPage physPage : ℕ) {span : ℕ}
    (hspan : pageSize ∣ span) (hvirts : ∀ d < span, pageSize ∣ d → virtPage + d ∈ virts) :
    Triple (fun s => Maps c root R univ s ∧ balance c.boot root virts s = b)
      (forUp 0 span pageSize fun done =>
        map4kFlags c.boot root (virtPage + done) (wrap64 (physPage + done)) mmioFlags false)
      (fun _ s => balance c.boot root virts s = b)
      (fun status _ => status = .noMemory → b < 0) := by
  refine (Triple.forUp (I := fun _ s => (∃ R, Maps c root R Set.univ s) ∧
    balance c.boot root virts s = b) (by decide : 0 < pageSize) (Nat.zero_le span)
    (by simpa using hspan) fun d _ hlt hd => ?_).conseq (fun s hs => ⟨⟨R, hs.1⟩, hs.2⟩)
    (fun _ _ hs => hs.2) fun _ _ hs => hs
  rintro s ⟨⟨R', hm⟩, hb⟩
  exact (((map4kFlags_triple (k := 0) (virtPage + d) false (wrap64_lt _) (by decide)
    (mem_univ _)).and (map4kFlags_balance (hvirts d hlt hd) false)).conseq
    (fun _ hs => ⟨⟨hs.1, Nat.zero_le _⟩, hs⟩) (fun _ _ hs => ⟨⟨_, hs.1.1⟩, hs.2⟩)
    fun _ _ hs => hs.2) s ⟨hm, hb⟩

/-! ### The checks and the loop -/

/-- The checks of `paging_map_mmio`: the length of the window in whole pages, if the call
comes as far as its loop. -/
def mmioSpan (s : Paging) (phys size : ℕ) : Option ℕ :=
  let offset := phys - alignDown phys pageSize
  if s.rootPhys = 0 ∨ size = 0 ∨ uint64Max - offset < size then none
  else (alignUp (offset + size) pageSize).filter fun span =>
    ¬ (uint64Max - s.mmioNext < span ∨ mmioLimit < s.mmioNext + span)

/-- The loop of `paging_map_mmio` up to byte `stop` of the window. -/
def mmioLoop (s : Paging) (boot : BootContext) (phys stop : ℕ) : PagingM Unit :=
  forUp 0 stop pageSize fun done =>
    map4kFlags boot s.rootPhys (s.mmioNext + done) (wrap64 (alignDown phys pageSize + done))
      mmioFlags false

variable {s : Paging} {size span stop : ℕ}

lemma mmioSpan_eq_some (h : mmioSpan s phys size = some span) :
    size ≠ 0 ∧ alignUp (phys - alignDown phys pageSize + size) pageSize = some span ∧
      pageSize ∣ span ∧ s.mmioNext + span ≤ mmioLimit := by
  rw [mmioSpan] at h
  split at h
  · cases h
  · rename_i hargs
    obtain ⟨hup, hroom⟩ := Option.filter_eq_some_iff.mp h
    simp only [not_or, decide_eq_true_eq] at hargs hroom
    exact ⟨hargs.2.1, hup, (alignUp_eq_some (by decide) hup).1, not_lt.mp hroom.2⟩

/-- **`paging_map_mmio`** is its checks and its loop. -/
lemma pagingMapMmio_eq (hactive : s.activeBoot = some boot) (phys size : ℕ) :
    pagingMapMmio s phys size =
      match mmioSpan s phys size with
      | none => (0, s)
      | some span =>
        match outcome (mmioLoop s boot phys span) s.machine with
        | (.error _, machine) => (0, { s with machine := machine })
        | (.ok _, machine) => (s.mmioNext + (phys - alignDown phys pageSize),
            { s with machine := machine, mmioNext := s.mmioNext + span }) := by
  rw [pagingMapMmio, hactive, mmioSpan]
  dsimp only
  by_cases hargs : s.rootPhys = 0 ∨ size = 0
  · rw [if_pos hargs, if_pos (by tauto)]
  by_cases hword : uint64Max - (phys - alignDown phys pageSize) < size
  · rw [if_neg hargs, if_pos hword, if_pos (by tauto)]
  rw [if_neg hargs, if_neg hword, if_neg (by tauto)]
  cases hup : alignUp (phys - alignDown phys pageSize + size) pageSize with
  | none => rfl
  | some span =>
    by_cases hroom : uint64Max - s.mmioNext < span ∨ mmioLimit < s.mmioNext + span
    · simp only [Option.filter_some, hroom, not_true_eq_false, decide_false, if_true,
        Bool.false_eq_true, if_false]
    · simp only [Option.filter_some, hroom, not_false_eq_true, decide_true, if_true, if_false]
      rfl

/-! ### What fits -/

/-- The pages of the first `stop` bytes of a window at `next`. -/
def windowPages (next stop : ℕ) : Finset ℕ :=
  {d ∈ Finset.range stop | pageSize ∣ d}.image (next + ·)

/-- The first `stop` bytes of a window fit: each of their pages is mapped as wanted or not at
all, and there are frames for the tables that are missing. -/
def Fits (s : Paging) (phys stop : ℕ) : Prop :=
  ∃ boot, s.activeBoot = some boot ∧
    (∀ d < stop, pageSize ∣ d → ∀ leaf,
      IsLeaf (entries boot s.machine.mem) s.rootPhys (pageNumber (s.mmioNext + d)) leaf →
        leaf = ⟨smallEntry (wrap64 (alignDown phys pageSize + d)) mmioFlags, false⟩) ∧
    (missing boot s.rootPhys (windowPages s.mmioNext stop) s.machine.mem).card ≤
      s.machine.pmm.freeFrames

lemma mem_windowPages {next v : ℕ} :
    v ∈ windowPages next stop ↔ ∃ d < stop, pageSize ∣ d ∧ next + d = v := by
  simp [windowPages, and_assoc]

lemma windowPages_pageSize (next : ℕ) : windowPages next pageSize = {next} := by
  ext v
  rw [mem_windowPages, Finset.mem_singleton]
  constructor
  · rintro ⟨d, hd, hpage, rfl⟩
    rw [Nat.eq_zero_of_dvd_of_lt hpage hd, Nat.add_zero]
  · rintro rfl
    exact ⟨0, by decide, dvd_zero _, rfl⟩

/-- No table is missing on the way to pages next to which a page is mapped. -/
lemma missing_eq_empty {s : Machine} (h : Maps c root R tabled s)
    (hpages : ∀ v ∈ virts, ∃ v' e, pageNumber v' / 512 = pageNumber v / 512 ∧
      R (pageNumber v') ⟨e, false⟩) : missing c.boot root virts s.mem = ∅ := by
  refine Finset.eq_empty_of_forall_notMem fun q hq => ?_
  obtain ⟨⟨v, hv, hway⟩, ⟨-, hl⟩, hnone⟩ := mem_missing.mp hq
  obtain ⟨v', e, hnear, he⟩ := hpages v hv
  refine h.tabled_of_small (pageNumber_lt v') he ?_
  rw [hnear]
  exact no_page_table hl (hway ▸ hnone)

/-- A part of what fits. -/
lemma Fits.mono {stop' : ℕ} (h : Fits s phys stop) (hle : stop' ≤ stop) : Fits s phys stop' := by
  obtain ⟨boot, hactive, hfree, hframes⟩ := h
  refine ⟨boot, hactive, fun d hd => hfree d (hd.trans_le hle),
    (Finset.card_le_card fun q hq => ?_).trans hframes⟩
  rw [mem_missing] at hq ⊢
  obtain ⟨⟨v, hv, hway⟩, hrest⟩ := hq
  obtain ⟨d, hd, hpage⟩ := mem_windowPages.mp hv
  exact ⟨⟨v, mem_windowPages.mpr ⟨d, hd.trans_le hle, hpage⟩, hway⟩, hrest⟩

/-- **How far the loop comes**: through every part of the window that fits. -/
lemma mmioLoop_ok_iff (h : Ready c limit R s) (hstrict : c.strict) (hdvd : pageSize ∣ stop)
    (hsmall : stop < 2 ^ 48) :
    (∃ m, outcome (mmioLoop s c.boot phys stop) s.machine = (.ok (), m)) ↔ Fits s phys stop := by
  have hbalance := mmioLoop_balance (windowPages s.mmioNext stop) s.mmioNext
    (alignDown phys pageSize) hdvd (fun d hd hpage => mem_windowPages.mpr ⟨d, hd, hpage, rfl⟩)
    s.machine ⟨h.maps, rfl⟩
  constructor
  · rintro ⟨m, hm⟩
    obtain ⟨hmaps, hwanted⟩ := (mmioLoop_triple s.mmioNext (alignDown phys pageSize) hdvd
      (fun _ _ => mem_univ _) s.machine h.maps).1 () m hm
    refine ⟨c.boot, h.active, fun d hd hpage leaf hleaf => hwanted d hd hpage leaf
      ((h.maps.leaf _ (pageNumber_lt _) leaf).mp hleaf), ?_⟩
    have hnone : missing c.boot s.rootPhys (windowPages s.mmioNext stop) m.mem = ∅ := by
      refine missing_eq_empty hmaps fun v hv => ?_
      obtain ⟨d, hd, hpage, rfl⟩ := mem_windowPages.mp hv
      exact ⟨_, _, rfl, .inr ⟨d, hd, hpage, rfl, rfl⟩⟩
    have hsame := hbalance.1 () m hm
    rw [balance, balance, hnone, Finset.card_empty] at hsame
    omega
  · rintro ⟨boot, hactive, hfree, hframes⟩
    obtain rfl : c.boot = boot := Option.some.inj (h.active.symm.trans hactive)
    rcases hall : outcome (mmioLoop s c.boot phys stop) s.machine with ⟨status | _, machine⟩
    · obtain ⟨done, -, hlt, hd, m, hloop, hstop⟩ :=
        outcome_forUp_error (by decide : 0 < pageSize) hdvd hall
      have hmaps := ((mmioLoop_triple s.mmioNext (alignDown phys pageSize) hd
        (fun _ _ => mem_univ _) s.machine h.maps).1 () m hloop).1
      have hwhy := ((map4kFlags_triple (k := 0) (s.mmioNext + done) false (wrap64_lt _) (by decide)
        (mem_univ _)) m ⟨hmaps, Nat.zero_le _⟩).2 status machine hstop
      rcases hwhy.2 hstrict (dvd_add h.next_dvd hd) ((Nat.dvd_mod_iff (by decide)).mpr
        (dvd_add (dvd_alignDown _ _) hd)) with ⟨hstatus, -⟩ | ⟨leaf, hleaf | hleaf, hother⟩
      · have hneg := hbalance.2 status machine hall hstatus
        rw [balance] at hneg
        omega
      · have hwanted := hfree done hlt hd leaf ((h.maps.leaf _ (pageNumber_lt _) leaf).mpr hleaf)
        subst hwanted
        simp at hother
      · exact absurd hleaf (not_mmioMap_next (hlt.trans hsmall) hd)
    · exact ⟨machine, rfl⟩

lemma Ready.rootPhys_ne_zero (h : Ready c limit R s) : s.rootPhys ≠ 0 := by
  have hframe := h.maps.frame _ Shape.root_mem_tables
  exact (c.window _ hframe.managed).1.ne'

/-- **When `paging_map_mmio` gives out a window**: when it passes the checks and fits. -/
lemma pagingMapMmio_iff (h : Ready c limit R s) (hstrict : c.strict)
    (hspan : mmioSpan s phys size = some span) :
    (pagingMapMmio s phys size).1 ≠ 0 ↔ Fits s phys span := by
  obtain ⟨-, -, hdvd, hroom⟩ := mmioSpan_eq_some hspan
  have hbase := h.next_ge
  have hpos : 0 < mmioBase := by decide
  have harea : mmioLimit = mmioBase + 2 ^ 30 := by decide
  rw [← mmioLoop_ok_iff h hstrict hdvd (by omega), pagingMapMmio_eq h.active, hspan]
  dsimp only
  rcases outcome (mmioLoop s c.boot phys span) s.machine with ⟨status | _, machine⟩
  · simp
  · simp only [Prod.mk.injEq, true_and, exists_eq', iff_true]
    omega

end Paging

end JoshOS
