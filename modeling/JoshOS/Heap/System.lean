import JoshOS.Heap.Kernel
import JoshOS.Heap.Runs

/-!
The memory system of the kernel: frame allocator, page tables and heap at work on one
memory.

A `Kernel` is the kernel heap, which has the paging statics and the frame allocator
behind its callback, together with what clients hold: allocations of the heap and
frames of the allocator.  Clients call all three interfaces in any order, free only
what they hold, and store to what they hold and to memory that the allocator does not
manage.

* `Good`: the heap is in order, the page tables are in order, and the bytes of the
  heap, of the tables, of the clients' frames and of the free list are apart.
* `Good.step`, `Good.run`: kept by every step and every run.
* `failed_kmalloc_consumes`: when a failed `kmalloc` consumes nothing.
-/

namespace JoshOS

open Set Paging Words Spans Heap

/-- The kernel heap, the live allocations and the frames that clients hold. -/
structure Kernel where
  heap : Heap Paging
  live : List (ℕ × ℕ)
  frames : Set ℕ

namespace Kernel

/-- What clients do: calls of the three interfaces, and stores of one byte. -/
inductive Call where
  | kmalloc (size : UInt64)
  | kzalloc (size : UInt64)
  | kfree (pointer : UInt64)
  | pmm (call : Pmm.Call)
  | paging (call : Paging.Call)
  | store (address : ℕ) (value : UInt8)

/-- What a call answers. -/
inductive Answer where
  | pointer (p : ℕ)
  | status (status : HeapStatus)
  | frames (reply : Pmm.Reply)
  | stored

/-- There is one memory: the page tables stand in what the heap has written. -/
def publish (s : Heap Paging) : Heap Paging :=
  { s with world := { s.world with machine := { s.world.machine with mem := s.mem } } }

lemma publish_of_coherent {s : Heap Paging} (h : s.world.machine.mem = s.mem) : publish s = s := by
  have hmachine : ({ s.world.machine with mem := s.mem } : Machine) = s.world.machine := by
    rw [← h]
  rw [publish, hmachine]

/-- One step of a client. -/
def step (k : Kernel) : Call → Answer × Kernel
  | .kmalloc size =>
    let r := k.heap.kmalloc size.toNat
    (.pointer r.1, { k with heap := publish r.2, live := Session.hold r.1 size.toNat k.live })
  | .kzalloc size =>
    let r := k.heap.kzalloc size.toNat
    (.pointer r.1, { k with heap := publish r.2, live := Session.hold r.1 size.toNat k.live })
  | .kfree pointer =>
    let r := k.heap.kfree pointer.toNat
    (.status r.1, { k with
      heap := publish r.2
      live := k.live.filter fun q => q.1 ≠ pointer.toNat })
  | .pmm call =>
    let w := k.heap.world
    let r := w.machine.pmm.step call
    (.frames r.1, { k with
      heap := { k.heap with world := { w with machine := { w.machine with pmm := r.2 } } }
      frames := Pmm.updateHeld k.frames (call, r.1) })
  | .paging call =>
    let r := k.heap.world.step call
    (.pointer r.1, { k with heap := { k.heap with world := r.2, mem := r.2.machine.mem } })
  | .store address value =>
    (.stored, { k with heap := publish { k.heap with
      mem := Function.update k.heap.mem address value } })

/-- The bytes of a set of frames. -/
def bytes (frames : Set ℕ) : Set ℕ := {x | alignDown x pmmPageSize ∈ frames}

/-- What clients keep to: they free what they hold, allocations and frames, and store
only to what they hold or to memory that is not managed. -/
def Legal (boot : BootContext) (k : Kernel) : Call → Prop
  | .kmalloc _ | .kzalloc _ | .paging _ => True
  | .kfree pointer => pointer = 0 ∨ ∃ size, (pointer.toNat, size) ∈ k.live
  | .pmm call => Pmm.takenBack (call, (k.heap.world.machine.pmm.step call).1) ⊆ k.frames
  | .store address _ => (∃ q ∈ k.live, q.1 ≤ address ∧ address < q.1 + q.2) ∨
      ∀ x ∈ cover k.heap.world.machine.pmm.managedRanges,
        address = boot.physicalMemoryOffset + x → x ∈ bytes k.frames

/-- The physical memory that clients and the heap own. -/
def owned (boot : BootContext) (regions : List Span) (frames : Set ℕ) : Set ℕ :=
  bytes frames ∪ {x | boot.physicalMemoryOffset + x ∈ cover regions}

/-! ### Bytes and frames -/

/-- Aligned ranges cover the bytes of their frames. -/
lemma mem_cover_iff_bytes {l : List Span} (h : BoundsIn (pmmPageSize ∣ ·) l) {x : ℕ} :
    x ∈ cover l ↔ x ∈ bytes (Pmm.frames l) := by
  rw [bytes, Set.mem_ofPred_eq, Pmm.mem_frames_iff h, Pmm.alignDown_mem_cover_iff h]
  exact (and_iff_right (dvd_alignDown x pmmPageSize)).symm

/-! ### The invariant -/

section Invariant

variable {boot : BootContext} {pmm₀ : Pmm} {limit : ℕ}

/-- The heap and the page tables are in order, and every byte has one owner. -/
structure Good (hp : Pmm.pmmInit (some boot) = (.ok, pmm₀)) (hc : Checked boot limit)
    (k : Kernel) (R : ℕ → Leaf → Prop) (bs : List Block) (regions : List Span) : Prop where
  fed : Fed (surroundings hc hp (owned boot regions k.frames) k.heap.mem) limit R k.heap bs
    regions
  live : (allocations bs).Perm k.live
  coherent : k.heap.world.machine.mem = k.heap.mem
  frames_managed : bytes k.frames ⊆ cover pmm₀.managedRanges
  frames_apart : ∀ x ∈ bytes k.frames, boot.physicalMemoryOffset + x ∉ cover regions

variable {hp : Pmm.pmmInit (some boot) = (.ok, pmm₀)} {hc : Checked boot limit} {k : Kernel}
  {R : ℕ → Leaf → Prop} {bs bs' : List Block} {regions new : List Span}

/-- The allocator behind the heap. -/
lemma Good.kept (h : Good hp hc k R bs regions) :
    Kept (surroundings hc hp (owned boot regions k.frames) k.heap.mem)
      k.heap.world.machine :=
  h.fed.ready.maps.toKept

/-- Nothing that has an owner is free. -/
lemma Good.not_free (h : Good hp hc k R bs regions) {x : ℕ}
    (hx : x ∈ owned boot regions k.frames) : x ∉ cover k.heap.world.machine.pmm.freeRanges :=
  disjoint_left.mp h.kept.others_held hx

lemma Good.free_managed (h : Good hp hc k R bs regions) {x : ℕ}
    (hx : x ∈ cover k.heap.world.machine.pmm.freeRanges) : x ∈ cover pmm₀.managedRanges := by
  have hsub := h.kept.inv.free_sub hx
  rwa [h.kept.managed] at hsub

/-- How asking the callback moves the allocator: the new regions were free. -/
structure Fetched (boot : BootContext) (pmm₀ : Pmm) (w w' : Paging) (new : List Span) : Prop where
  world : w' = { w with machine := { w.machine with pmm := w'.machine.pmm } }
  reached : PmmReached pmm₀ w'.machine.pmm
  free : cover w'.machine.pmm.freeRanges ⊆ cover w.machine.pmm.freeRanges
  region : ∀ y ∈ cover new, ∃ x ∈ cover w.machine.pmm.freeRanges,
    x ∉ cover w'.machine.pmm.freeRanges ∧ y = boot.physicalMemoryOffset + x

lemma Fetched.refl {w : Paging} (h : PmmReached pmm₀ w.machine.pmm) :
    Fetched boot pmm₀ w w [] :=
  ⟨rfl, h, subset_rfl, by simp⟩

lemma reached_allocFrames {pmm : Pmm} (h : PmmReached pmm₀ pmm) {n : ℕ}
    (hn : n ≤ uint32Max) : PmmReached pmm₀ (pmm.pmmAllocFrames n).2 := by
  have hstep := h.step (.allocFrames (UInt32.ofNat n))
  rwa [Pmm.step, UInt32.toNat_ofNat_of_lt' (by
    rw [uint32Max] at hn
    rw [UInt32.size]
    omega)] at hstep

/-- What a heap call that used the callback did to the allocator. -/
lemma Good.fetched (h : Good hp hc k R bs regions) {s' : Heap Paging}
    (hasked : Asked k.heap s' new) : Fetched boot pmm₀ k.heap.world s'.world new := by
  have hreached := h.kept.reached
  rcases hasked with ⟨hworld, rfl⟩ | ⟨grow, n, hgrow, hworld, rfl⟩
  · rw [hworld]
    exact Fetched.refl hreached
  obtain rfl : kernelHeapGrow = grow := by
    rw [h.fed.callback] at hgrow
    exact Option.some.inj hgrow
  rw [hworld]
  by_cases hn : n = 0
  · rw [kernelHeapGrow, if_pos hn]
    exact Fetched.refl hreached
  rcases kernelHeapGrow_cases h.fed.ready h.fed.below hn with ⟨heq, -⟩ | ⟨f, pmm, hle, htaken, heq⟩
  · rw [heq]
    exact Fetched.refl hreached
  · have haccept := htaken.accepted h.kept hc
    rw [heq]
    refine ⟨rfl, ?_, ?_, fun y hy => ?_⟩
    · have hmove := reached_allocFrames hreached hle
      rwa [htaken.run] at hmove
    · show cover pmm.freeRanges ⊆ _
      rw [htaken.left]
      exact sdiff_subset
    · rw [accepted, haccept] at hy
      simp only [Option.toList_some, cover_cons, cover_nil, union_empty, Span.mem_points] at hy
      have hmem : y - boot.physicalMemoryOffset ∈
          Set.Ico f (f + growPages n * pmmPageSize) := by
        have hboot : (surroundings hc hp (owned boot regions k.frames) k.heap.mem).boot =
          boot := rfl
        rw [hboot] at hy
        exact ⟨by omega, by omega⟩
      refine ⟨_, htaken.free hmem, fun hin => ?_, ?_⟩
      · rw [show cover pmm.freeRanges = _ from htaken.left] at hin
        exact hin.2 hmem
      · have : boot.physicalMemoryOffset ≤ y := le_trans (Nat.le_add_right _ _) hy.1
        omega

/-- **A call of the heap.**  It wrote only inside its regions, and what it added to
them was free. -/
lemma Good.heapCall (h : Good hp hc k R bs regions) {s' : Heap Paging} {live : List (ℕ × ℕ)}
    (hinv : Inv s' bs' (regions ++ new))
    (hmem : Set.EqOn s'.mem k.heap.mem (cover (regions ++ new))ᶜ)
    (hasked : Asked k.heap s' new) (hcallback : s'.growCallback = k.heap.growCallback)
    (hlive : (allocations bs').Perm live) :
    Good hp hc { k with heap := publish s', live := live } R bs' (regions ++ new) := by
  obtain ⟨hworld, hreached, hfree, hregion⟩ := h.fetched hasked
  obtain ⟨hpinv, hman⟩ := hreached.inv hp
  -- the bytes of the new regions come from the free list
  have hfresh : ∀ {x}, boot.physicalMemoryOffset + x ∈ cover new →
      x ∈ cover k.heap.world.machine.pmm.freeRanges ∧
        x ∉ cover s'.world.machine.pmm.freeRanges := by
    intro x hx
    obtain ⟨x', hx', hleft, heq⟩ := hregion _ hx
    obtain rfl : x = x' := Nat.add_left_cancel heq
    exact ⟨hx', hleft⟩
  have howned : ∀ {x}, x ∈ owned boot (regions ++ new) k.frames →
      x ∈ owned boot regions k.frames ∨ boot.physicalMemoryOffset + x ∈ cover new := by
    rintro x (hx | hx)
    · exact .inl (.inl hx)
    · rw [mem_ofPred_eq, cover_append] at hx
      exact hx.imp .inr id
  have hready := h.fed.ready.transfer (owned boot (regions ++ new) k.frames)
    ⟨s'.mem, s'.world.machine.pmm⟩ hreached hpinv hman
    (fun x hx => (howned hx).imp id fun hn => (hfresh hn).1) (fun x hx => .inr (hfree hx))
    (disjoint_left.mpr fun x hx hx' => ?_) fun x hx hne hnf => ?_
  · refine ⟨⟨hinv.with_world _, hcallback.trans h.fed.callback, ?_, h.fed.below, fun y hy => ?_⟩,
      hlive, rfl, h.frames_managed, fun x hx hcover => ?_⟩
    · show Ready _ limit R (publish s').world
      rw [publish, hworld]
      exact hready
    · rw [cover_append] at hy
      rcases hy with hy | hy
      · obtain ⟨x, hx, hmx, rfl⟩ := h.fed.owns y hy
        exact ⟨x, .inr (by
          rw [mem_ofPred_eq, cover_append]
          exact .inl hy), hmx, rfl⟩
      · obtain ⟨x, hx, -, rfl⟩ := hregion y hy
        exact ⟨x, .inr (by
          rw [mem_ofPred_eq, cover_append]
          exact .inr hy), h.free_managed hx, rfl⟩
    · rw [cover_append] at hcover
      rcases hcover with hcover | hcover
      · exact h.frames_apart x hx hcover
      · exact h.not_free (.inl hx) (hfresh hcover).1
  · rcases howned hx with hx | hx
    · exact h.not_free hx (hfree hx')
    · exact (hfresh hx).2 hx'
  · rw [h.coherent]
    refine hmem fun hin => ?_
    rw [cover_append] at hin
    exact hin.elim (fun hr => hne (.inr hr)) fun hn => hnf (hfresh hn).1

/-- A call of the heap that did not use the callback. -/
lemma Good.heapWrite (h : Good hp hc k R bs regions) {s' : Heap Paging} {live : List (ℕ × ℕ)}
    (hinv : Inv s' bs' regions) (hmem : Set.EqOn s'.mem k.heap.mem (cover regions)ᶜ)
    (hworld : s'.world = k.heap.world) (hcallback : s'.growCallback = k.heap.growCallback)
    (hlive : (allocations bs').Perm live) :
    Good hp hc { k with heap := publish s', live := live } R bs' regions := by
  rw [← List.append_nil regions] at hinv hmem ⊢
  exact h.heapCall hinv hmem (.inl ⟨hworld, rfl⟩) hcallback hlive

/-- Allocating. -/
lemma Good.allocate (h : Good hp hc k R bs regions) {p size : ℕ} {s' : Heap Paging}
    (hkeeps : Keeps k.heap s' bs bs' regions new) (halloc : Allocates p size bs bs' new) :
    Good hp hc { k with heap := publish s', live := Session.hold p size k.live } R bs'
      (regions ++ new) := by
  refine h.heapCall hkeeps.inv (hkeeps.memory.mono (compl_subset_compl.mpr ?_)) hkeeps.asked
    hkeeps.callback ?_
  · rw [cover_append, ← h.fed.inv.cover_eq]
    exact union_subset_union_left _ held_subset_cover
  · rcases halloc with ⟨rfl, hsame⟩ | ⟨hne, hperm, -⟩
    · rw [hsame]
      exact h.live
    · rw [Session.hold, if_neg hne]
      exact hperm.trans (h.live.cons _)

/-- Freeing. -/
lemma Good.free (h : Good hp hc k R bs regions) {q : ℕ × ℕ} (hq : q ∈ k.live) :
    ∃ bs', Good hp hc { k with
      heap := publish (k.heap.kfree q.1).2
      live := k.live.filter fun p => p.1 ≠ q.1 } R bs' regions := by
  obtain ⟨-, hworld, hcallback, bs', hinv, hperm, hmem⟩ :=
    kfree_spec h.fed.inv (h.live.symm.subset hq)
  refine ⟨bs', h.heapWrite hinv (hmem.mono (compl_subset_compl.mpr ?_)) hworld hcallback
    (h.fed.inv.ordered.filter_live h.live hperm)⟩
  rw [← hinv.cover_eq]
  exact held_subset_cover

/-- A store by a client. -/
lemma Good.store (h : Good hp hc k R bs regions) {address : ℕ} (value : UInt8)
    (hlegal : Legal boot k (.store address value)) :
    Good hp hc (k.step (.store address value)).2 R bs regions := by
  have heq : ∀ S : Set ℕ, address ∈ S →
      Set.EqOn (Function.update k.heap.mem address value) k.heap.mem Sᶜ := fun S hS =>
    Memory.update_eqOn hS k.heap.mem value
  by_cases hin : address ∈ cover regions
  · -- the heap covers only one kind of memory that a client may write to
    have hlive : ∃ q ∈ k.live, q.1 ≤ address ∧ address < q.1 + q.2 := by
      refine hlegal.resolve_right fun hout => ?_
      obtain ⟨x, -, hx, heq⟩ := h.fed.owns address hin
      have hbytes := hout x (by rw [h.kept.managed]; exact hx) heq
      exact h.frames_apart x hbytes (heq ▸ hin)
    obtain ⟨q, hq, hle, hlt⟩ := hlive
    exact h.heapWrite (h.fed.inv.with_mem (h.fed.inv.holds.congr_of_allocation h.fed.inv.ordered
      (h.live.symm.subset hq) (heq _ ⟨hle, hlt⟩))) (heq _ hin) rfl rfl h.live
  · have hkept : Set.EqOn (Function.update k.heap.mem address value) k.heap.mem
        (cover (spans bs)) := by
      rw [h.fed.inv.cover_eq]
      simpa using heq (cover regions)ᶜ hin
    have hholds := h.fed.inv.holds.congr_of_eqOn h.fed.inv.ordered hkept
    refine ⟨⟨(h.fed.inv.with_mem hholds).with_world _, h.fed.callback, ?_, h.fed.below, h.fed.owns⟩,
      h.live, rfl, h.frames_managed, h.frames_apart⟩
    refine h.fed.ready.transfer _ ⟨_, k.heap.world.machine.pmm⟩ h.kept.reached h.kept.inv
      h.kept.managed subset_union_left subset_union_right h.kept.others_held
      fun x hx hne _ => ?_
    rw [h.coherent]
    refine heq {address} rfl fun hsame => ?_
    rw [mem_singleton_iff] at hsame
    rcases hlegal with ⟨q, hq, hle, hlt⟩ | hout
    · refine hin ?_
      rw [← h.fed.inv.cover_eq]
      exact h.fed.inv.ordered.allocation_subset (h.live.symm.subset hq) hle
        (lt_of_lt_of_le hlt (Nat.le_add_right _ _))
    · exact hne (.inl (hout x (by rw [h.kept.managed]; exact hx) hsame.symm))

/-- A call of the frame allocator. -/
lemma Good.pmmCall (h : Good hp hc k R bs regions) {call : Pmm.Call}
    (hlegal : Legal boot k (.pmm call)) : Good hp hc (k.step (.pmm call)).2 R bs regions := by
  set pmm := k.heap.world.machine.pmm with hpmm
  set out := Pmm.handedOut (call, (pmm.step call).1)
  set back := Pmm.takenBack (call, (pmm.step call).1)
  have hreached := h.kept.reached.step call
  obtain ⟨hinv, hman⟩ := hreached.inv hp
  have hfree : ∀ {x}, x ∈ cover pmm.freeRanges ↔ x ∈ bytes (Pmm.frames pmm.freeRanges) :=
    mem_cover_iff_bytes h.kept.inv.free_aligned
  have hfree' : ∀ {x}, x ∈ cover (pmm.step call).2.freeRanges ↔
      x ∈ bytes (Pmm.frames (pmm.step call).2.freeRanges) :=
    mem_cover_iff_bytes hinv.free_aligned
  have hback : back ⊆ k.frames := hlegal
  -- one call hands out free frames, or takes frames back that are not free
  obtain ⟨hout, hleft⟩ : out ⊆ Pmm.frames pmm.freeRanges ∧
      Pmm.frames (pmm.step call).2.freeRanges = (Pmm.frames pmm.freeRanges \ out) ∪ back := by
    rcases Pmm.step_cases h.kept.inv call with ⟨-, hs, hout, hback⟩ |
      ⟨-, -, -, hback, hsub, hfr⟩ | ⟨-, -, -, hout, -, -, hfr⟩
    · have hout' : out = ∅ := hout
      have hback' : back = ∅ := hback
      rw [hout', hback', show (pmm.step call).2 = pmm from hs]
      simp
    · have hback' : back = ∅ := hback
      rw [hback', union_empty]
      exact ⟨hsub, hfr⟩
    · have hout' : out = ∅ := hout
      rw [hout', sdiff_empty]
      exact ⟨empty_subset _, hfr⟩
  have hframes : ∀ {x}, x ∈ bytes (Pmm.updateHeld k.frames (call, (pmm.step call).1)) →
      (x ∈ bytes k.frames ∨ x ∈ bytes out) ∧ x ∉ bytes back := fun hx => hx
  have hready := h.fed.ready.transfer
    (owned boot regions (Pmm.updateHeld k.frames (call, (pmm.step call).1)))
    ⟨k.heap.world.machine.mem, (pmm.step call).2⟩ hreached hinv hman ?_ ?_ ?_
    fun _ _ _ _ => rfl
  · refine ⟨⟨h.fed.inv.with_world _, h.fed.callback, ?_, h.fed.below, fun y hy => ?_⟩, h.live,
      ?_, ?_, ?_⟩
    · have himage : (k.step (.pmm call)).2.heap.mem = k.heap.world.machine.mem := h.coherent.symm
      rw [himage]
      exact hready
    · obtain ⟨x, -, hmx, rfl⟩ := h.fed.owns y hy
      exact ⟨x, .inr hy, hmx, rfl⟩
    · exact h.coherent
    · intro x hx
      rcases (hframes hx).1 with hx | hx
      · exact h.frames_managed hx
      · exact h.free_managed (hfree.mpr (hout hx))
    · intro x hx hcover
      rcases (hframes hx).1 with hx | hx
      · exact h.frames_apart x hx hcover
      · exact h.not_free (.inr hcover) (hfree.mpr (hout hx))
  · rintro x (hx | hx)
    · exact (hframes hx).1.imp .inl fun hx => hfree.mpr (hout hx)
    · exact .inl (.inr hx)
  · intro x hx
    have hx' := hfree'.mp hx
    rw [hleft] at hx'
    rcases hx' with hx' | hx'
    · exact .inr (hfree.mpr hx'.1)
    · exact .inl (.inl (hback hx'))
  · refine disjoint_left.mpr fun x hx hxf => ?_
    have hx' := hfree'.mp hxf
    rw [hleft] at hx'
    rcases hx with hx | hx <;> rcases hx' with hx' | hx'
    · exact (hframes hx).1.elim (fun hin => h.not_free (.inl hin) (hfree.mpr hx'.1)) hx'.2
    · exact (hframes hx).2 hx'
    · exact h.not_free (.inr hx) (hfree.mpr hx'.1)
    · exact h.frames_apart x (hback hx') hx

/-- A call of the paging interface. -/
lemma Good.pagingCall (h : Good hp hc k R bs regions) {R' : ℕ → Leaf → Prop}
    {call : Paging.Call}
    (hready : Ready (surroundings hc hp (owned boot regions k.frames) k.heap.mem) limit R'
      (k.heap.world.step call).2) : Good hp hc (k.step (.paging call)).2 R' bs regions := by
  have hkept : Set.EqOn (k.heap.world.step call).2.machine.mem k.heap.mem (cover (spans bs)) := by
    rw [h.fed.inv.cover_eq]
    intro y hy
    obtain ⟨x, hx, -, rfl⟩ := h.fed.owns y hy
    exact hready.maps.image x hx
  have hholds := h.fed.inv.holds.congr_of_eqOn h.fed.inv.ordered hkept
  exact ⟨⟨(h.fed.inv.with_mem hholds).with_world _, h.fed.callback, hready.refresh, h.fed.below,
    h.fed.owns⟩, h.live, rfl, h.frames_managed, h.frames_apart⟩

/-- **A step past the paging interface** changes no translation, and does not move the bump
pointer of the device area. -/
theorem Good.past_paging {call : Call} (h : Good hp hc k R bs regions) (hlegal : Legal boot k call)
    (hcall : ∀ pagingCall, call ≠ .paging pagingCall) :
    ∃ bs' regions', Good hp hc (k.step call).2 R bs' regions' ∧
      (k.step call).2.heap.world.mmioNext = k.heap.world.mmioNext := by
  have hfetched {s' : Heap Paging} {new : List Span} (hasked : Asked k.heap s' new) :
      s'.world.mmioNext = k.heap.world.mmioNext := by
    rw [(h.fetched hasked).world]
  cases call with
  | kmalloc size =>
    obtain ⟨bs', new, hkeeps, halloc⟩ := kmalloc_spec h.fed.inv h.fed.honest size.toNat
    have hnext := hfetched hkeeps.asked
    exact ⟨bs', _, h.allocate hkeeps halloc, hnext⟩
  | kzalloc size =>
    obtain ⟨bs', new, hkeeps, halloc⟩ := kzalloc_spec h.fed.inv h.fed.honest size.toNat
    have hnext := hfetched hkeeps.asked
    exact ⟨bs', _, h.allocate hkeeps halloc, hnext⟩
  | kfree pointer =>
    rcases hlegal with rfl | ⟨size, hq⟩
    · have hfilter : k.live.filter (fun q => q.1 ≠ (0 : UInt64).toNat) = k.live :=
        h.fed.inv.ordered.filter_live_null h.live
      have hnull : k.heap.kfree (0 : UInt64).toNat = (.ok, k.heap) :=
        kfree_null h.fed.inv.initialised
      have hsame : (k.step (.kfree 0)).2 = k := by
        simp only [Kernel.step, hfilter, hnull, publish_of_coherent h.coherent]
      rw [hsame]
      exact ⟨bs, regions, h, rfl⟩
    · obtain ⟨bs', hgood⟩ := h.free hq
      have hnext := congrArg mmioNext (kfree_spec h.fed.inv (h.live.symm.subset hq)).2.1
      exact ⟨bs', regions, hgood, hnext⟩
  | pmm call => exact ⟨bs, regions, h.pmmCall hlegal, rfl⟩
  | paging call => exact absurd rfl (hcall call)
  | store address value => exact ⟨bs, regions, h.store value hlegal, rfl⟩

/-- **The step lemma.** -/
theorem Good.step {call : Call} (h : Good hp hc k R bs regions) (hlegal : Legal boot k call) :
    ∃ R' bs' regions', Good hp hc (k.step call).2 R' bs' regions' := by
  by_cases hcall : ∃ pagingCall, call = .paging pagingCall
  · obtain ⟨pagingCall, rfl⟩ := hcall
    obtain ⟨R', hready⟩ := h.fed.ready.step pagingCall
    exact ⟨R', bs, regions, h.pagingCall hready⟩
  · obtain ⟨bs', regions', hgood, -⟩ := h.past_paging hlegal (not_exists.mp hcall)
    exact ⟨R, bs', regions', hgood⟩

/-- **The run lemma.** -/
theorem Good.run {calls : List Call} (h : Good hp hc k R bs regions)
    (hlegal : Runs.Legal Kernel.step (Legal boot) k calls) :
    ∃ R' bs' regions', Good hp hc (Runs.final Kernel.step k calls) R' bs' regions' :=
  Runs.legal_induction Kernel.step (P := fun k => ∃ R bs regions, Good hp hc k R bs regions)
    (fun _ _ ⟨_, _, _, hgood⟩ hrule => hgood.step hrule) ⟨R, bs, regions, h⟩ hlegal

/-! ### The start -/

variable {sym : KernelSymbols} {s w : Paging} {root : ℕ} {heap₀ heap : Heap Paging}

/-- The kernel after `heap_kernel_init`.  What was allocated before `paging_init`, in
the state `s`, stays with the clients. -/
def start (pmm₀ : Pmm) (s : Paging) (heap : Heap Paging) : Kernel where
  heap := heap
  live := []
  frames := Pmm.frames pmm₀.managedRanges \ Pmm.frames s.machine.pmm.freeRanges

/-- A successful `heap_kernel_init` starts an empty heap. -/
lemma heapKernelInit_eq_ok {b : Option BootContext}
    (h : heapKernelInit b heap₀ = (.ok, heap)) :
    heap = { mem := heap₀.mem, world := heap₀.world, growCallback := some kernelHeapGrow,
             initialised := true } := by
  rw [heapKernelInit] at h
  split at h
  · simp at h
  · exact (congrArg Prod.snd h).symm

/-- The invariant holds at the start. -/
theorem start_good (hp : Pmm.pmmInit (some boot) = (.ok, pmm₀))
    (hs : PmmReached pmm₀ s.machine.pmm)
    (hpaging : pagingInit sym (some boot) s = (.ok root, w))
    (hheap : heapKernelInit (some boot) { heap₀ with mem := w.machine.mem, world := w } =
      (.ok, heap)) :
    ∃ limit, ∃ hc : Checked boot limit,
      Good hp hc (start pmm₀ s heap) (KernelMap boot sym limit) [] [] := by
  obtain ⟨hinv, hman⟩ := hs.inv hp
  have hmanaged : ∀ {x}, x ∈ cover pmm₀.managedRanges ↔ x ∈ bytes (Pmm.frames pmm₀.managedRanges) :=
    mem_cover_iff_bytes (hman ▸ hinv.managed_aligned)
  have hdisj : Disjoint (owned boot [] (start pmm₀ s heap).frames)
      (cover s.machine.pmm.freeRanges) := by
    refine disjoint_left.mpr fun x hx hfree => ?_
    rcases hx with hx | hx
    · exact hx.2 ((mem_cover_iff_bytes hinv.free_aligned).mp hfree)
    · simp at hx
  obtain ⟨limit, hc, hready⟩ := pagingInit_ready hp hs hdisj hpaging
  have hbelow : ∀ x ∈ cover pmm₀.managedRanges, x < limit := by
    obtain ⟨-, -, -, hcov, hword⟩ := Pmm.pmmInit_spec hp
    intro x hx
    rw [hcov] at hx
    exact (InitiallyFree.below_limit hc hword hx).2
  have heq := heapKernelInit_eq_ok hheap
  refine ⟨limit, hc, ⟨?_, ?_, ?_, hbelow, by simp⟩, List.Perm.refl _, ?_, ?_, by simp⟩
  · rw [start, heq]
    exact ⟨rfl, ⟨rfl, trivial, by simp, by simp⟩, ordered_nil, coalesced_nil, rfl, rfl, rfl, rfl,
      rfl⟩
  · rw [start, heq]
  · have hmem : (start pmm₀ s heap).heap.mem = w.machine.mem := by rw [start, heq]
    have hworld : (start pmm₀ s heap).heap.world = w := by rw [start, heq]
    rw [hmem, hworld]
    exact hready.refresh
  · rw [start, heq]
  · intro x hx
    exact hmanaged.mpr hx.1

/-- Every allocation lies inside the direct map. -/
lemma Good.live_lt (h : Good hp hc k R bs regions) {q : ℕ × ℕ} (hq : q ∈ k.live) :
    q.2 < 2 ^ 52 := by
  obtain ⟨b, hb, hused, rfl⟩ := mem_allocations.mp (h.live.symm.subset hq)
  have hcapacity := capacity_lt h.fed.inv (fun _ => h.fed.region_bounds) hb
  have hrequested := ((h.fed.inv.ordered.block b hb).requested_used hused).2
  exact (Nat.le_of_add_right_le hrequested).trans_lt hcapacity

/-- **No request is as large as the mark of an allocation.**  In every state that the kernel
can reach after `heap_kernel_init`, a request of `HEAP_ALLOC_MAGIC` bytes returns null, and no
allocation that is live was one. -/
theorem heapAllocMagic_refused (hp : Pmm.pmmInit (some boot) = (.ok, pmm₀))
    (hs : PmmReached pmm₀ s.machine.pmm)
    (hpaging : pagingInit sym (some boot) s = (.ok root, w))
    (hheap : heapKernelInit (some boot) { heap₀ with mem := w.machine.mem, world := w } =
      (.ok, heap))
    {calls : List Call} (hlegal : Runs.Legal step (Legal boot) (start pmm₀ s heap) calls) :
    let k := Runs.final step (start pmm₀ s heap) calls
    (k.heap.kmalloc heapAllocMagic).1 = 0 ∧ ∀ q ∈ k.live, q.2 ≠ heapAllocMagic := by
  intro k
  obtain ⟨limit, hc, hgood⟩ := start_good hp hs hpaging hheap
  obtain ⟨R, bs, regions, hreached⟩ := hgood.run hlegal
  have hsize : ¬ heapAllocMagic < 2 ^ 52 := by decide
  refine ⟨by_contra fun hne => ?_, fun q hq heq => hsize (heq ▸ hreached.live_lt hq)⟩
  -- a granted request would be live after the call
  have hcall : Legal boot k (.kmalloc (.ofNat heapAllocMagic)) := trivial
  obtain ⟨R', bs', regions', hnext⟩ := hreached.step hcall
  have hheld : ((k.heap.kmalloc heapAllocMagic).1, heapAllocMagic) ∈
      (k.step (.kmalloc (.ofNat heapAllocMagic))).2.live := by
    rw [Kernel.step, Session.hold, UInt64.toNat_ofNat_of_lt' (by decide), if_neg hne]
    exact List.mem_cons_self
  exact hsize (hnext.live_lt hheld)

/-- After `paging_init` the heap can be started. -/
lemma heapKernelInit_ok (hp : Pmm.pmmInit (some boot) = (.ok, pmm₀))
    (hs : PmmReached pmm₀ s.machine.pmm)
    (hpaging : pagingInit sym (some boot) s = (.ok root, w)) (heap₀ : Heap Paging) :
    ∃ heap, heapKernelInit (some boot) { heap₀ with mem := w.machine.mem, world := w } =
      (.ok, heap) := by
  obtain ⟨limit, hc, hready⟩ := pagingInit_ready hp hs (empty_disjoint _) hpaging
  have hroot : w.rootPhys ≠ 0 :=
    ((surroundings hc hp ∅ s.machine.mem).window _
      (hready.maps.frame _ Radix.Shape.root_mem_tables).managed).1.ne'
  rw [heapKernelInit, if_neg (by simp [pagingKernelAddressSpace, hroot]), heapInit]
  exact ⟨_, rfl⟩

/-- **When a failed `kmalloc` consumes nothing.**  In every state that the kernel can
reach after `heap_kernel_init`, a `kmalloc` that returns null leaves the frames, the
regions and the block list as they were, unless its size overflows in the rounding of
`kernel_heap_grow` while sixteen frames in a row are free; then it does not. -/
theorem failed_kmalloc_consumes {boot : BootContext} {sym : KernelSymbols} {pmm₀ : Pmm}
    {s w : Paging} {root : ℕ} {heap₀ heap : Heap Paging}
    (hp : Pmm.pmmInit (some boot) = (.ok, pmm₀)) (hs : PmmReached pmm₀ s.machine.pmm)
    (hpaging : pagingInit sym (some boot) s = (.ok root, w))
    (hheap : heapKernelInit (some boot) { heap₀ with mem := w.machine.mem, world := w } =
      (.ok, heap))
    (calls : List Call) (hlegal : Runs.Legal step (Legal boot) (start pmm₀ s heap) calls)
    (size : UInt64) :
    let k := Runs.final step (start pmm₀ s heap) calls
    ((k.heap.kmalloc size.toNat).1 = 0 → ConsumedNothing k.heap (k.heap.kmalloc size.toNat).2) ↔
      ¬ ((2 ^ 64 - 4167 ≤ size.toNat ∧ size.toNat ≤ 2 ^ 64 - 72) ∧
        ∃ r ∈ k.heap.world.machine.pmm.freeRanges,
          kheapMinGrowPages * pmmPageSize ≤ r.stop - r.start) := by
  obtain ⟨limit, hc, hgood⟩ := start_good hp hs hpaging hheap
  obtain ⟨R, bs, regions, hreached⟩ := hgood.run hlegal
  exact hreached.fed.kmalloc_consumes_iff size.toNat

end Invariant

/-! ### A concrete boot -/

/-- A heap before `heap_kernel_init`, on the machine of `eightMiBStart`. -/
def eightMiBHeap : Heap Paging := { mem := fun _ => 0, world := eightMiBStart }

/-- On it an ordinary request consumes nothing when it fails. -/
theorem failed_kmalloc_consumes_eightMiB :
    ∃ root w heap,
      pagingInit eightMiBSymbols (some eightMiBBoot) eightMiBStart =
        (.ok root, w) ∧
      heapKernelInit (some eightMiBBoot) { eightMiBHeap with mem := w.machine.mem, world := w } =
        (.ok, heap) ∧
      ((heap.kmalloc 0x10000000).1 = 0 →
        ConsumedNothing heap (heap.kmalloc 0x10000000).2) := by
  obtain ⟨root, w, hpaging⟩ := eightMiB_pagingInit
  obtain ⟨heap, hheap⟩ :=
    heapKernelInit_ok eightMiB_pmmInit ⟨[], rfl⟩ hpaging eightMiBHeap
  refine ⟨root, w, heap, hpaging, hheap, ?_⟩
  refine (failed_kmalloc_consumes eightMiB_pmmInit ⟨[], rfl⟩ hpaging hheap [] trivial
    0x10000000).mpr fun hover => ?_
  exact absurd hover.1.1 (by decide)

/-- After `paging_init` sixteen frames in a row are still free. -/
lemma eightMiB_long_range {root : ℕ} {w : Paging}
    (h : pagingInit eightMiBSymbols (some eightMiBBoot) eightMiBStart =
      (.ok root, w)) :
    ∃ r ∈ w.machine.pmm.freeRanges, kheapMinGrowPages * pmmPageSize ≤ r.stop - r.start := by
  obtain ⟨limit, hc, hready⟩ := pagingInit_ready eightMiB_pmmInit ⟨[], rfl⟩
    (empty_disjoint _) h
  obtain ⟨hlength, hcheck, hcount⟩ := pagingInit_keeps eightMiB_pmmInit ⟨[], rfl⟩
    (P := fun p => p.freeRanges.length ≤ 3)
    (fun p hle => (Pmm.length_pmmAllocFrames p 1).trans hle) (by decide) h
  rw [eightMiB_checkLayout] at hcheck
  simp only [Except.ok.injEq, Prod.mk.injEq, true_and] at hcheck
  rw [← hcheck] at hcount
  have hfree : eightMiBStart.machine.pmm.freeFrames = 1786 := by decide
  have hcost : spaceCost eightMiBBoot eightMiBSymbols 0x800000 = 1558 := by decide
  refine Pmm.exists_long_range hready.maps.inv ?_
  rw [kheapMinGrowPages]
  omega

/-- A request of 72 bytes less than the address space fails and takes sixteen frames
with it. -/
theorem failed_kmalloc_leaks_frames :
    ∃ root w heap,
      pagingInit eightMiBSymbols (some eightMiBBoot) eightMiBStart =
        (.ok root, w) ∧
      heapKernelInit (some eightMiBBoot) { eightMiBHeap with mem := w.machine.mem, world := w } =
        (.ok, heap) ∧
      (heap.kmalloc (2 ^ 64 - 72)).1 = 0 ∧
      ¬ ConsumedNothing heap (heap.kmalloc (2 ^ 64 - 72)).2 := by
  obtain ⟨root, w, hpaging⟩ := eightMiB_pagingInit
  obtain ⟨heap, hheap⟩ :=
    heapKernelInit_ok eightMiB_pmmInit ⟨[], rfl⟩ hpaging eightMiBHeap
  obtain ⟨limit, hc, hgood⟩ := start_good eightMiB_pmmInit ⟨[], rfl⟩ hpaging hheap
  have hworld : heap.world = w := by rw [heapKernelInit_eq_ok hheap]
  have hroom := eightMiB_long_range hpaging
  rw [← hworld] at hroom
  have hiff := hgood.fed.kmalloc_consumes_iff (2 ^ 64 - 72)
  have hfails := mt hiff.mp (not_not_intro ⟨⟨by norm_num, le_refl _⟩, hroom⟩)
  rw [Classical.not_imp] at hfails
  exact ⟨root, w, heap, hpaging, hheap, hfails⟩

end Kernel

end JoshOS
