import JoshOS.Heap.Runs

/-!
Freeing in any order.

The block list is in a canonical form: the memory of the heap and the blocks in use
determine it, because the free blocks must fill the gaps and no two of them may touch.
`kfree` strikes one block from those in use and leaves the memory alone, so the order in
which pointers are freed cannot matter.

* `Ordered.eq_of_used`: the canonical form.
* `Session.Good.freeAll`: what freeing a list of pointers leaves.
* `kfree_any_order`: any two orders end with the same list and the same statistics, and
  freeing everything leaves one block for each maximal run of touching regions.
-/

namespace JoshOS.Heap

open Links Words Spans

variable {bs bs' l l' : List Block} {a b : Block} {x : ℕ}

/-! ### The canonical form -/

/-- The first block begins where the memory begins. -/
lemma Ordered.addr_le_of_mem_cover (h : Ordered (a :: l)) (hx : x ∈ cover (spans (a :: l))) :
    a.addr ≤ x := by
  obtain ⟨b, hb, hle, -⟩ := mem_cover_spans.mp hx
  rcases List.mem_cons.mp hb with rfl | hb
  · exact hle
  · have hsep := (ordered_cons.mp h).2.2 b hb
    have := a.addr_le_stop
    omega

lemma Block.addr_mem_cover (h : b ∈ bs) : b.addr ∈ cover (spans bs) := by
  have := b.addr_le_stop
  exact mem_cover_spans.mpr ⟨b, h, le_refl _, by omega⟩

/-- The memory behind the first block. -/
lemma Ordered.cover_tail (h : Ordered (a :: l)) :
    cover (spans l) = cover (spans (a :: l)) \ a.span.points := by
  obtain ⟨-, -, hsep⟩ := ordered_cons.mp h
  have hdisj : Disjoint a.span.points (cover (spans l)) := by
    refine Set.disjoint_left.mpr fun x hx hxl => ?_
    obtain ⟨b, hb, hle, -⟩ := mem_cover_spans.mp hxl
    have := hsep b hb
    simp only [Block.span, Span.mem_points] at hx
    omega
  rw [spans_cons, cover_cons, Set.union_sdiff_left, hdisj.sdiff_eq_right]

/-- Where memory goes on behind the first block and that is free, it goes on with a block
in use. -/
lemma Ordered.exists_used_behind (h : Ordered (a :: l)) (hc : Coalesced (a :: l)) (hfree : a.free)
    (hx : a.stop ∈ cover (spans (a :: l))) : ∃ c ∈ used (a :: l), c.addr = a.stop := by
  obtain ⟨-, hl, hsep⟩ := ordered_cons.mp h
  have hxl : a.stop ∈ cover (spans l) := by
    rw [h.cover_tail]
    exact ⟨hx, by simp [Block.span]⟩
  cases l with
  | nil => simp [spans] at hxl
  | cons c l =>
    have hle := hl.addr_le_of_mem_cover hxl
    have hge := hsep c (by simp)
    have haddr : c.addr = a.stop := by omega
    have hused : ¬ c.free := fun hcfree =>
      (List.isChain_cons_cons.mp hc).1 ⟨hfree, hcfree, haddr.symm⟩
    exact ⟨c, mem_used.mpr ⟨by simp, hused⟩, haddr⟩

section Canonical

variable (h : Ordered (a :: l)) (h' : Ordered (b :: l')) (haddr : a.addr = b.addr)
  (hcover : cover (spans (a :: l)) = cover (spans (b :: l')))
  (hused : used (a :: l) = used (b :: l'))

include h' haddr hcover hused

/-- Of two first blocks that are free, neither ends before the other: the first one would be
followed by a block in use inside the second one. -/
lemma Ordered.stop_le_of_free (h : Ordered (a :: l)) (hc : Coalesced (a :: l)) (ha : a.free)
    (hb : b.free) : b.stop ≤ a.stop := by
  by_contra hlt
  have := a.addr_le_stop
  have hx : a.stop ∈ cover (spans (a :: l)) := by
    rw [hcover]
    exact mem_cover_spans.mpr ⟨b, by simp, by omega, by omega⟩
  obtain ⟨c, hcused, hcaddr⟩ := h.exists_used_behind hc ha hx
  rw [hused] at hcused
  obtain ⟨hcmem, hcnot⟩ := mem_used.mp hcused
  have := c.addr_le_stop
  rcases h'.eq_or_apart (show b ∈ b :: l' by simp) hcmem with rfl | hap | hap
  · exact hcnot hb
  · omega
  · omega

end Canonical

/-- **The canonical form.**  A coalesced list is determined by its memory and its blocks in
use. -/
theorem Ordered.eq_of_used (h : Ordered bs) (hc : Coalesced bs) (h' : Ordered bs')
    (hc' : Coalesced bs') (hcover : cover (spans bs) = cover (spans bs'))
    (hused : used bs = used bs') : bs = bs' := by
  induction bs generalizing bs' with
  | nil =>
    cases bs' with
    | nil => rfl
    | cons b l' =>
      have hb : b.addr ∈ cover (spans []) := hcover ▸ Block.addr_mem_cover (by simp)
      simp at hb
  | cons a l ih =>
    cases bs' with
    | nil =>
      have ha : a.addr ∈ cover (spans []) := hcover ▸ Block.addr_mem_cover (by simp)
      simp at ha
    | cons b l' =>
      have haddr : a.addr = b.addr := le_antisymm
        (h.addr_le_of_mem_cover (hcover ▸ Block.addr_mem_cover (by simp)))
        (h'.addr_le_of_mem_cover (hcover ▸ Block.addr_mem_cover (by simp)))
      obtain rfl : a = b := by
        by_cases ha : a.free
        · by_cases hb : b.free
          · have hstop : a.stop = b.stop := le_antisymm
              (Ordered.stop_le_of_free h haddr.symm hcover.symm hused.symm h' hc' hb ha)
              (Ordered.stop_le_of_free h' haddr hcover hused h hc ha hb)
            have hra := (h.block a (by simp)).requested_free ha
            have hrb := (h'.block b (by simp)).requested_free hb
            obtain ⟨addr, capacity, requested, free⟩ := a
            obtain ⟨addr', capacity', requested', free'⟩ := b
            simp only [Block.stop_eq] at haddr hstop hra hrb ha hb
            subst haddr hra hrb ha hb
            simp only [Block.mk.injEq, true_and, and_true]
            omega
          · have hmem : b ∈ used (a :: l) := hused ▸ mem_used.mpr ⟨by simp, hb⟩
            exact h.eq_of_addr (by simp) (mem_used.mp hmem).1 haddr
        · have hmem : a ∈ used (b :: l') := hused ▸ mem_used.mpr ⟨by simp, ha⟩
          exact h'.eq_of_addr (mem_used.mp hmem).1 (by simp) haddr
      have htail : used l = used l' := by
        by_cases ha : a.free
        · rwa [used_cons_free ha, used_cons_free ha] at hused
        · rw [used_cons_used ha, used_cons_used ha] at hused
          exact (List.cons.inj hused).2
      rw [ih (ordered_cons.mp h).2.1 (List.IsChain.of_cons hc) (ordered_cons.mp h').2.1
        (List.IsChain.of_cons hc') (by rw [h.cover_tail, h'.cover_tail, hcover]) htail]

/-- Without a block in use the blocks are the separated spans of the memory. -/
lemma Ordered.separated_spans (h : Ordered bs) (hc : Coalesced bs) (hfree : ∀ b ∈ bs, b.free) :
    Separated (spans bs) := by
  induction bs with
  | nil => exact separated_nil
  | cons a l ih =>
    obtain ⟨-, hl, hsep⟩ := ordered_cons.mp h
    have hne := a.addr_le_stop
    refine separated_cons.mpr ⟨show a.addr < a.stop by omega, ?_,
      ih hl (List.IsChain.of_cons hc) fun b hb => hfree b (by simp [hb])⟩
    intro r hr
    obtain ⟨b, hb, rfl⟩ := List.mem_map.mp hr
    cases l with
    | nil => simp at hb
    | cons c l =>
      have hlt : a.stop < c.addr := lt_of_le_of_ne (hsep c (by simp)) fun htouch =>
        (List.isChain_cons_cons.mp hc).1 ⟨hfree a (by simp), hfree c (by simp), htouch⟩
      exact lt_of_lt_of_le hlt (hl.addr_le_of_mem_cover (Block.addr_mem_cover hb))

/-! ### Freeing a list of pointers -/

section Counters

variable {ε : Type} {s s' : Heap ε} {regions : List Span}

/-- The counters that `kfree` leaves alone. -/
structure SameCounts (s s' : Heap ε) : Prop where
  total : s'.totalAllocations = s.totalAllocations
  failures : s'.allocationFailures = s.allocationFailures
  regions : s'.regionCount = s.regionCount

lemma Inv.sameCounts_kfree {q : ℕ × ℕ} (h : Inv s bs regions) (hq : q ∈ allocations bs) :
    SameCounts s (kfree q.1 s).2 := by
  obtain ⟨a, ha, hused, rfl⟩ := mem_allocations.mp hq
  rw [show a.allocation.1 = payload a.addr from rfl, kfree_eq h ha hused]
  exact ⟨rfl, rfl, rfl⟩

lemma SameCounts.trans {s'' : Heap ε} (h : SameCounts s s') (h' : SameCounts s' s'') :
    SameCounts s s'' :=
  ⟨h'.total.trans h.total, h'.failures.trans h.failures, h'.regions.trans h.regions⟩

/-- The statistics are those of the block list and three counters. -/
lemma Inv.heapStats_eq (h : Inv s bs regions) :
    s.heapStats =
      { totalRegionBytes := total (spans bs)
        freePayloadBytes := wrap64 ((bs.filter Block.free).map Block.capacity).sum
        allocatedPayloadBytes := ((allocations bs).map Prod.snd).sum
        activeAllocations := (allocations bs).length
        totalAllocations := s.totalAllocations
        allocationFailures := s.allocationFailures
        regionCount := s.regionCount } := by
  have hfree : freePayloadFrom s.mem heapWalkFuel 0 s.blocks =
      wrap64 ((bs.filter Block.free).map Block.capacity).sum := by
    rw [h.holds.head_eq, freePayloadFrom_eq h.holds.chain h.holds.header h.ordered
      h.ordered.length_le (by norm_num), Nat.zero_add]
  rw [heapStats, hfree, h.bytes_eq, h.active_eq, h.allocated_eq]

end Counters

namespace Session

variable {ε : Type} {grow : HeapGrowFn ε} {t : Session ε}

/-- Freeing a list of live pointers succeeds and strikes their blocks from those in use. -/
theorem Good.freeAll {ps : List UInt64} (h : Good grow t bs) (hnodup : ps.Nodup)
    (hlive : ∀ p ∈ ps, ∃ size, (p.toNat, size) ∈ t.live) :
    let t' := Runs.final Session.step t (ps.map .kfree)
    (∀ e ∈ Runs.trace Session.step t (ps.map .kfree), e.2 = .status .ok) ∧
    t'.regions = t.regions ∧ SameCounts t.heap t'.heap ∧
    ∃ bs', Good grow t' bs' ∧
      used bs' = (used bs).filter fun b => decide (∀ p ∈ ps, payload b.addr ≠ p.toNat) := by
  induction ps generalizing t bs with
  | nil => exact ⟨by simp, rfl, ⟨rfl, rfl, rfl⟩, bs, h, by simp⟩
  | cons p ps ih =>
    obtain ⟨hp, hnodup⟩ := List.nodup_cons.mp hnodup
    obtain ⟨size, hq⟩ := hlive p (by simp)
    obtain ⟨hok, bs₁, hgood, -, hused⟩ := h.free hq
    have hlive₁ : ∀ p' ∈ ps, ∃ size, (p'.toNat, size) ∈ (t.step (.kfree p)).2.live := by
      intro p' hp'
      obtain ⟨size', hq'⟩ := hlive p' (by simp [hp'])
      refine ⟨size', List.mem_filter.mpr ⟨hq', ?_⟩⟩
      have hne : p' ≠ p := fun heq => hp (heq ▸ hp')
      simpa using fun heq => hne (UInt64.toNat_inj.mp heq)
    have hregions : (t.step (.kfree p)).2.regions = t.regions :=
      regions_congr (kfree_spec h.inv (h.live.symm.subset hq)).2.1
    obtain ⟨htrace, hsame, hcounts, bs', hgood', hused'⟩ := ih hgood hnodup hlive₁
    have hfreed := h.inv.sameCounts_kfree (h.live.symm.subset hq)
    refine ⟨?_, hsame.trans hregions, hfreed.trans hcounts, bs', hgood', ?_⟩
    · intro e he
      rcases List.mem_cons.mp he with rfl | he
      · exact congrArg Answer.status hok
      · exact htrace e he
    · rw [hused', hused, List.filter_filter]
      refine List.filter_congr fun b _ => ?_
      rw [Bool.eq_iff_iff, Bool.and_eq_true, decide_eq_true_eq, decide_eq_true_eq,
        decide_eq_true_eq, List.forall_mem_cons]
      exact and_comm

/-- A step adds at most one region, outside those that are there. -/
lemma Good.regions_step {c : Call} (h : Good grow t bs) (hlegal : t.Legal grow c) :
    ∃ new, (t.step c).2.regions = t.regions ++ new ∧ new.length ≤ 1 ∧
      Disjoint (cover new) (cover t.regions) := by
  have hone : ∀ {s' : Heap (ε × List (ℕ × ℕ))} {new : List Span}, Asked t.heap s' new →
      new.length ≤ 1 := by
    rintro s' new (⟨-, rfl⟩ | ⟨_, _, _, _, rfl⟩)
    · simp
    · rw [accepted]
      exact Option.length_toList_le
  cases c with
  | kmalloc size =>
    obtain ⟨bs', new, hkeeps, -⟩ := kmalloc_spec h.inv (h.honest hlegal) size.toNat
    exact ⟨new, regions_of_asked h.callback hkeeps.asked, hone hkeeps.asked, hkeeps.fresh⟩
  | kzalloc size =>
    obtain ⟨bs', new, hkeeps, -⟩ := kzalloc_spec h.inv (h.honest hlegal) size.toNat
    exact ⟨new, regions_of_asked h.callback hkeeps.asked, hone hkeeps.asked, hkeeps.fresh⟩
  | kfree pointer =>
    refine ⟨[], ?_, by simp, by simp⟩
    rw [List.append_nil]
    rcases hlegal with rfl | ⟨size, hq⟩
    · rw [h.step_null]
    · exact regions_congr (kfree_spec h.inv (h.live.symm.subset hq)).2.1
  | store address value => exact ⟨[], by simp [regions, Session.step], by simp, by simp⟩

/-- The regions of a run are disjoint. -/
theorem Good.regions_disjoint {calls : List Call} (h : Good grow t bs)
    (hlegal : Runs.Legal Session.step (Legal grow) t calls)
    (hdisj : t.regions.Pairwise fun a b => Disjoint a.points b.points) :
    (Runs.final Session.step t calls).regions.Pairwise fun a b => Disjoint a.points b.points := by
  refine (Runs.legal_induction Session.step (P := fun t => (∃ bs, Good grow t bs) ∧
    t.regions.Pairwise fun a b => Disjoint a.points b.points) ?_ ⟨⟨bs, h⟩, hdisj⟩ hlegal).2
  rintro t c ⟨⟨bs, hgood⟩, hpair⟩ hrule
  obtain ⟨new, hregions, hone, hfresh⟩ := hgood.regions_step hrule
  refine ⟨⟨_, (hgood.step hrule).choose_spec.1⟩, ?_⟩
  rw [hregions]
  refine List.pairwise_append.mpr ⟨hpair, ?_, fun a ha b hb => ?_⟩
  · match new, hone with
    | [], _ => exact List.Pairwise.nil
    | [r], _ => exact List.pairwise_singleton _ r
  · refine Set.disjoint_left.mpr fun x hxa hxb => ?_
    exact Set.disjoint_left.mp hfresh ⟨b, hb, hxb⟩ ⟨a, ha, hxa⟩

lemma start_lt_stop_of_mem_regions (t : Session ε) {r : Span} (hr : r ∈ t.regions) :
    r.start < r.stop := by
  obtain ⟨answer, -, hr⟩ := List.mem_flatMap.mp hr
  obtain ⟨-, -, -, hlong, -⟩ := acceptedRegion_eq_some (Option.mem_toList.mp hr)
  rw [Span.length] at hlong
  omega

end Session

/-! ### The result -/

/-- **Freeing in any order.**  In every state reached, two orders of freeing the same live
pointers end with the same block list and the same statistics, and every call succeeds.
When everything was freed, the list has exactly one block, a free one, for each maximal run
of touching regions, as large as the run without a header. -/
theorem kfree_any_order {ε : Type} (grow : HeapGrowFn ε) (w : ε) (s : Heap (ε × List (ℕ × ℕ)))
    (calls : List Call)
    (hlegal : Runs.Legal Session.step (Session.Legal grow) (Session.start grow w s) calls)
    (ps qs : List UInt64) (hnodup : ps.Nodup) (hperm : ps.Perm qs) :
    let t := Runs.final Session.step (Session.start grow w s) calls
    let t₁ := Runs.final Session.step t (ps.map .kfree)
    let t₂ := Runs.final Session.step t (qs.map .kfree)
    (∀ p ∈ ps, ∃ size, (p.toNat, size) ∈ t.live) →
    (∀ e ∈ Runs.trace Session.step t (ps.map .kfree), e.2 = .status .ok) ∧
    ∃ bs : List Block,
      Holds t₁.heap.mem t₁.heap.blocks bs ∧ Holds t₂.heap.mem t₂.heap.blocks bs ∧
      t₁.heap.heapStats = t₂.heap.heapStats ∧
      ((∀ q ∈ t.live, ∃ p ∈ ps, p.toNat = q.1) →
        (∀ b ∈ bs, b.free ∧ ∃ run, MaximalRun t.regions run b.span) ∧
        ∀ run r, MaximalRun t.regions run r → ∃! b, b ∈ bs ∧ b.addr = r.start ∧
          b.capacity = total run - heapBlock.size) := by
  intro t t₁ t₂ hlive
  obtain ⟨bs₀, hgood⟩ := (Session.start_good w s).run hlegal
  obtain ⟨htrace, hregions, hcounts, bs, hgood₁, hused₁⟩ := hgood.freeAll hnodup hlive
  obtain ⟨-, hregions₂, hcounts₂, bs₂, hgood₂, hused₂⟩ := hgood.freeAll (hperm.nodup hnodup)
    fun p hp => hlive p (hperm.symm.subset hp)
  have hord := hgood₁.inv.ordered
  have hcover : cover (spans bs) = cover t.regions := by
    rw [hgood₁.inv.cover_eq, hregions]
  obtain rfl : bs = bs₂ := by
    refine hord.eq_of_used hgood₁.inv.coalesced hgood₂.inv.ordered hgood₂.inv.coalesced ?_ ?_
    · rw [hcover, hgood₂.inv.cover_eq, hregions₂]
    · rw [hused₁, hused₂]
      exact List.filter_congr fun b _ => by simp only [hperm.mem_iff]
  refine ⟨htrace, bs, hgood₁.inv.holds, hgood₂.inv.holds, ?_, fun hall => ?_⟩
  · rw [hgood₁.inv.heapStats_eq, hgood₂.inv.heapStats_eq, hcounts.total, hcounts.failures,
      hcounts.regions, hcounts₂.total, hcounts₂.failures, hcounts₂.regions]
  have hfree : ∀ b ∈ bs, b.free := by
    intro b hb
    by_contra hbused
    have hmem : b ∈ used bs := mem_used.mpr ⟨hb, hbused⟩
    rw [hused₁] at hmem
    obtain ⟨hold, hkept⟩ := List.mem_filter.mp hmem
    have hq : b.allocation ∈ t.live := hgood.live.subset (List.mem_map.mpr ⟨b, hold, rfl⟩)
    obtain ⟨p, hp, heq⟩ := hall _ hq
    exact (of_decide_eq_true hkept) p hp heq.symm
  have hrun : ∀ r, r ∈ spans bs ↔ ∃ run, MaximalRun t.regions run r := fun r =>
    (hord.separated_spans hgood₁.inv.coalesced hfree).mem_iff_maximalRun
      (fun _ => Session.start_lt_stop_of_mem_regions t)
      ((Session.start_good w s).regions_disjoint hlegal List.Pairwise.nil) hcover
  refine ⟨fun b hb => ⟨hfree b hb, (hrun b.span).mp (List.mem_map_of_mem hb)⟩,
    fun run r hr => ?_⟩
  obtain ⟨b, hb, rfl⟩ := List.mem_map.mp ((hrun r).mpr ⟨run, hr⟩)
  refine ⟨b, ⟨hb, rfl, ?_⟩, fun b' hb' => hord.eq_of_addr hb'.1 hb hb'.2.1⟩
  have hlen := hr.joined.add_total fun q hq =>
    Session.start_lt_stop_of_mem_regions t (hr.mem q hq)
  simp only [Block.span, Block.stop_eq, Block.size_eq] at hlen ⊢
  omega

theorem kfree_any_order_shortRun :
    let t := Runs.final Session.step (Session.start oneRegion 0 blankHeap)
      [.kmalloc 37, .kzalloc 257]
    (Runs.final Session.step t [.kfree 65584, .kfree 65680]).heap.heapStats =
      (Runs.final Session.step t [.kfree 65680, .kfree 65584]).heap.heapStats := by
  have hlegal := (Runs.legal_append Session.step _ _ [.kmalloc 37, .kzalloc 257]
    [.store 65590 90, .kfree 65584]).mp shortRun_legal
  have hlive : (Runs.final Session.step (Session.start oneRegion 0 blankHeap)
      [.kmalloc 37, .kzalloc 257]).live = [(65680, 257), (65584, 37)] := by decide +kernel
  obtain ⟨-, bs, -, -, hstats, -⟩ := kfree_any_order oneRegion 0 blankHeap _ hlegal.1
    [65584, 65680] [65680, 65584] (by decide) (List.Perm.swap _ _ []) (by
      rw [hlive]
      exact List.forall_mem_cons.mpr ⟨⟨37, by decide⟩,
        List.forall_mem_singleton.mpr ⟨257, by decide⟩⟩)
  exact hstats

end JoshOS.Heap
