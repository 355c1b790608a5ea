import JoshOS.Heap.Spec
import JoshOS.Lib.Runs

/-!
Runs of the heap with its clients.

A `Session` is a heap together with the allocations its clients hold.  Clients
allocate, free what they hold, and store bytes inside it; memory that the heap
was never given may change at any time.  The callback is arbitrary; whenever it
can be asked it answers with null or with memory outside the accepted regions.

* `Session.Good.step`, `Session.Good.run`: the invariant of `Heap.Spec`, with the
  live allocations as the blocks in use, is kept by every step and every run.
* `heap_list_invariant`: what the block list looks like in every state reached.
* `heap_isolation`: no client ever notices another one or the heap.
-/

namespace JoshOS.Heap

open Links Words Spans

/-- The callback `grow` with a record of its answers. -/
def recorded {ε : Type} (grow : HeapGrowFn ε) : HeapGrowFn (ε × List (ℕ × ℕ)) :=
  fun minimum w => ((grow minimum w.1).1, (grow minimum w.1).2, w.2 ++ [(grow minimum w.1).1])

/-- A heap and the allocations, pointer and size, that its clients hold. -/
structure Session (ε : Type) where
  heap : Heap (ε × List (ℕ × ℕ))
  live : List (ℕ × ℕ)

/-- What clients do: the calls of `heap.h`, and stores of one byte. -/
inductive Call where
  | kmalloc (size : UInt64)
  | kzalloc (size : UInt64)
  | kfree (pointer : UInt64)
  | store (address : ℕ) (value : UInt8)

/-- What a call answers. -/
inductive Answer where
  | pointer (p : ℕ)
  | status (status : HeapStatus)
  | stored
  deriving DecidableEq

namespace Session

variable {ε : Type}

/-- The regions that the heap made of the answers of its callback. -/
def regions (t : Session ε) : List Span := t.heap.world.2.flatMap accepted

/-- A client keeps a pointer unless it is null. -/
def hold (p size : ℕ) (live : List (ℕ × ℕ)) : List (ℕ × ℕ) :=
  if p = 0 then live else (p, size) :: live

/-- One step of a client. -/
def step (t : Session ε) : Call → Answer × Session ε
  | .kmalloc size =>
    let r := t.heap.kmalloc size.toNat
    (.pointer r.1, { heap := r.2, live := hold r.1 size.toNat t.live })
  | .kzalloc size =>
    let r := t.heap.kzalloc size.toNat
    (.pointer r.1, { heap := r.2, live := hold r.1 size.toNat t.live })
  | .kfree pointer =>
    let r := t.heap.kfree pointer.toNat
    (.status r.1, { heap := r.2, live := t.live.filter fun q => q.1 ≠ pointer.toNat })
  | .store address value =>
    (.stored, { t with heap := { t.heap with
      mem := Function.update t.heap.mem address value } })

/-- What clients and the callback `grow` keep to: the callback answers with fresh
memory, clients free only what they hold and store only inside it; bytes outside
every region may change. -/
def Legal (grow : HeapGrowFn ε) (t : Session ε) : Call → Prop
  | .kmalloc _ | .kzalloc _ => ∀ minimum, Fresh t.regions (grow minimum t.heap.world.1).1
  | .kfree pointer => pointer = 0 ∨ ∃ size, (pointer.toNat, size) ∈ t.live
  | .store address _ =>
    (∃ q ∈ t.live, q.1 ≤ address ∧ address < q.1 + q.2) ∨ address ∉ cover t.regions

/-- The session that `heap_init` starts with the callback `grow`, whatever the heap
was before. -/
def start (grow : HeapGrowFn ε) (w : ε) (s : Heap (ε × List (ℕ × ℕ))) : Session ε where
  heap := (heapInit (some (recorded grow)) { s with world := (w, []) }).2
  live := []

variable {grow : HeapGrowFn ε} {t : Session ε} {bs : List Block}

/-- The heap is in order and its blocks in use are what the clients hold. -/
structure Good (grow : HeapGrowFn ε) (t : Session ε) (bs : List Block) : Prop where
  inv : Inv t.heap bs t.regions
  live : (allocations bs).Perm t.live
  callback : t.heap.growCallback = some (recorded grow)

/-- A step leaves the bytes of an allocation alone that is neither freed nor stored
to. -/
def Spares (t t' : Session ε) (c : Call) : Prop :=
  ∀ q ∈ t.live, (∀ p, c = .kfree p → p.toNat ≠ q.1) →
    q ∈ t'.live ∧ ∀ x, q.1 ≤ x → x < q.1 + q.2 → (∀ v, c ≠ .store x v) →
      t'.heap.mem x = t.heap.mem x

lemma start_good (w : ε) (s : Heap (ε × List (ℕ × ℕ))) : Good grow (start grow w s) [] := by
  refine ⟨⟨rfl, ⟨rfl, trivial, by simp, by simp⟩, ordered_nil, coalesced_nil, ?_, ?_, rfl, rfl,
    rfl⟩, List.Perm.refl _, rfl⟩
  · simp [regions, start, heapInit]
  · simp [regions, start, heapInit]

lemma regions_congr {t t' : Session ε} (h : t'.heap.world = t.heap.world) :
    t'.regions = t.regions := by
  rw [regions, regions, h]

/-- Asking the recorded callback extends the record by its answer. -/
lemma regions_of_asked {s' : Heap (ε × List (ℕ × ℕ))} {new : List Span} {live : List (ℕ × ℕ)}
    (hcallback : t.heap.growCallback = some (recorded grow)) (h : Asked t.heap s' new) :
    ({ heap := s', live } : Session ε).regions = t.regions ++ new := by
  rcases h with ⟨hworld, rfl⟩ | ⟨grow', k, hgrow, hworld, rfl⟩
  · simp [regions, hworld]
  · obtain rfl : recorded grow = grow' := by
      rw [hcallback] at hgrow
      exact Option.some.inj hgrow
    simp [regions, hworld, recorded]

/-- An allocating call, whether it succeeds or not. -/
lemma Good.allocate {p size : ℕ} {s' : Heap (ε × List (ℕ × ℕ))} {bs' : List Block}
    {new : List Span} {c : Call} (h : Good grow t bs)
    (hkeeps : Keeps t.heap s' bs bs' t.regions new) (halloc : Allocates p size bs bs' new) :
    Good grow { heap := s', live := hold p size t.live } bs' ∧
      Spares t { heap := s', live := hold p size t.live } c := by
  refine ⟨⟨?_, ?_, hkeeps.callback.trans h.callback⟩, fun q hq _ => ⟨?_, fun x hle hlt _ => ?_⟩⟩
  · rw [regions_of_asked h.callback hkeeps.asked]
    exact hkeeps.inv
  · rcases halloc with ⟨rfl, hsame⟩ | ⟨hne, hperm, -⟩
    · rw [hsame]
      exact h.live
    · simp only [hold, if_neg hne]
      exact hperm.trans (h.live.cons _)
  · simp only [hold]
    split
    · exact hq
    · exact List.mem_cons_of_mem _ hq
  · exact hkeeps.allocation_kept h.inv (h.live.symm.subset hq) hle
      (lt_of_lt_of_le hlt (Nat.le_add_right _ _))

/-- Freeing the pointer of a block in use. -/
lemma Good.free_block {l₁ l₂ : List Block} {a : Block} {p : ℕ} (h : Good grow t (l₁ ++ a :: l₂))
    (hused : ¬ a.free) (hp : p = payload a.addr) :
    Good grow { heap := (t.heap.kfree p).2, live := t.live.filter fun q => q.1 ≠ p }
      (coalesce l₁ a.release l₂) := by
  subst hp
  have hq : a.allocation ∈ allocations (l₁ ++ a :: l₂) :=
    mem_allocations.mpr ⟨a, by simp, hused, rfl⟩
  obtain ⟨-, hworld, hcallback, -⟩ := kfree_spec h.inv hq
  have hperm : (allocations (l₁ ++ a :: l₂)).Perm
      (a.allocation :: allocations (coalesce l₁ a.release l₂)) := by
    rw [allocations_eq_map, allocations_eq_map, used_coalesce rfl, used_append,
      used_cons_used hused]
    simp
  refine ⟨?_, h.inv.ordered.filter_live h.live hperm, hcallback.trans h.callback⟩
  rw [regions_congr (t := t) hworld]
  exact (kfree_inv h.inv hused).1

/-- Freeing a live pointer. -/
lemma Good.free {q : ℕ × ℕ} (h : Good grow t bs) (hq : q ∈ t.live) :
    (t.heap.kfree q.1).1 = .ok ∧
    ∃ bs', Good grow
        { heap := (t.heap.kfree q.1).2, live := t.live.filter fun p => p.1 ≠ q.1 } bs' ∧
      Set.EqOn (t.heap.kfree q.1).2.mem t.heap.mem (held bs')ᶜ ∧
      used bs' = (used bs).filter fun b => payload b.addr ≠ q.1 := by
  have hok := (kfree_spec h.inv (h.live.symm.subset hq)).1
  obtain ⟨a, ha, hused, rfl⟩ := mem_allocations.mp (h.live.symm.subset hq)
  obtain ⟨l₁, l₂, rfl⟩ := List.append_of_mem ha
  refine ⟨hok, coalesce l₁ a.release l₂, h.free_block hused rfl, (kfree_inv h.inv hused).2, ?_⟩
  rw [used_coalesce rfl]
  exact (h.inv.ordered.filter_used hused).symm

/-- Freeing null changes nothing. -/
lemma Good.step_null (h : Good grow t bs) : (t.step (.kfree 0)).2 = t := by
  have hfilter : t.live.filter (fun q => q.1 ≠ (0 : UInt64).toNat) = t.live :=
    h.inv.ordered.filter_live_null h.live
  have hnull : t.heap.kfree (0 : UInt64).toNat = (.ok, t.heap) := kfree_null h.inv.initialised
  simp only [Session.step, hfilter, hnull]

/-- A store by a client, or outside the heap. -/
lemma Good.store {address : ℕ} (value : UInt8) (h : Good grow t bs)
    (hlegal : (∃ q ∈ t.live, q.1 ≤ address ∧ address < q.1 + q.2) ∨ address ∉ cover t.regions) :
    Good grow (t.step (.store address value)).2 bs := by
  refine ⟨h.inv.with_mem ?_, h.live, h.callback⟩
  rcases hlegal with ⟨q, hq, hle, hlt⟩ | hout
  · exact h.inv.holds.congr_of_allocation h.inv.ordered (h.live.symm.subset hq)
      (Memory.update_eqOn (S := Set.Ico q.1 (q.1 + q.2)) ⟨hle, hlt⟩ t.heap.mem value)
  · refine h.inv.holds.congr_of_eqOn h.inv.ordered ?_
    rw [h.inv.cover_eq]
    simpa using Memory.update_eqOn (S := (cover t.regions)ᶜ) hout t.heap.mem value

/-- The answers of the callback are those of its recorded form. -/
lemma Good.honest (h : Good grow t bs)
    (hfresh : ∀ minimum, Fresh t.regions (grow minimum t.heap.world.1).1) :
    Honest t.heap t.regions := by
  intro grow' hgrow k
  obtain rfl : recorded grow = grow' := by
    rw [h.callback] at hgrow
    exact Option.some.inj hgrow
  exact hfresh k

/-- **The step lemma.** -/
theorem Good.step {c : Call} (h : Good grow t bs) (hlegal : t.Legal grow c) :
    ∃ bs', Good grow (t.step c).2 bs' ∧ Spares t (t.step c).2 c := by
  cases c with
  | kmalloc size =>
    obtain ⟨bs', new, hkeeps, halloc⟩ := kmalloc_spec h.inv (h.honest hlegal) size.toNat
    exact ⟨bs', h.allocate hkeeps halloc⟩
  | kzalloc size =>
    obtain ⟨bs', new, hkeeps, halloc⟩ := kzalloc_spec h.inv (h.honest hlegal) size.toNat
    exact ⟨bs', h.allocate hkeeps halloc⟩
  | kfree pointer =>
    rcases hlegal with rfl | ⟨size, hq⟩
    · rw [h.step_null]
      exact ⟨bs, h, fun q hq _ => ⟨hq, fun _ _ _ _ => rfl⟩⟩
    · obtain ⟨-, bs', hgood, hmem, -⟩ := h.free hq
      refine ⟨bs', hgood, fun q hq hne => ?_⟩
      have hkept : q ∈ (t.step (.kfree pointer)).2.live := by
        simpa [Session.step] using ⟨hq, (hne pointer rfl).symm⟩
      exact ⟨hkept, fun x hle hlt _ => hmem (hgood.inv.ordered.allocation_notMem_held
        (hgood.live.symm.subset hkept) hle (lt_of_lt_of_le hlt (Nat.le_add_right _ _)))⟩
  | store address value =>
    refine ⟨bs, h.store value hlegal, fun q hq _ => ⟨hq, fun x _ _ hne => ?_⟩⟩
    refine Function.update_of_ne ?_ _ _
    rintro rfl
    exact hne value rfl

/-- **The run lemma.** -/
theorem Good.run {calls : List Call} (h : Good grow t bs)
    (hlegal : Runs.Legal Session.step (Legal grow) t calls) :
    ∃ bs', Good grow (Runs.final Session.step t calls) bs' :=
  Runs.legal_induction Session.step (P := fun t => ∃ bs, Good grow t bs)
    (fun _ _ ⟨_, hgood⟩ hrule => ⟨_, (hgood.step hrule).choose_spec.1⟩) ⟨bs, h⟩ hlegal

/-- A run leaves the bytes of an allocation alone that is neither freed nor stored
to. -/
theorem Good.run_spares {calls : List Call} {q : ℕ × ℕ} {x : ℕ} (h : Good grow t bs)
    (hlegal : Runs.Legal Session.step (Legal grow) t calls) (hq : q ∈ t.live)
    (hfree : ∀ p, Call.kfree p ∈ calls → p.toNat ≠ q.1) (hle : q.1 ≤ x) (hlt : x < q.1 + q.2)
    (hstore : ∀ v, Call.store x v ∉ calls) :
    (Runs.final Session.step t calls).heap.mem x = t.heap.mem x := by
  induction calls generalizing t bs with
  | nil => rfl
  | cons c calls ih =>
    obtain ⟨bs', hgood, hspares⟩ := h.step hlegal.1
    obtain ⟨hlive, hbytes⟩ := hspares q hq fun p hc => hfree p (by simp [hc])
    have hhere : (t.step c).2.heap.mem x = t.heap.mem x :=
      hbytes x hle hlt fun v hc => hstore v (by simp [hc])
    rw [Runs.final_cons, ih hgood hlegal.2 hlive (fun p hp => hfree p (by simp [hp]))
      fun v hv => hstore v (by simp [hv]), hhere]

end Session

/-! ### The results -/

lemma total_spans (bs : List Block) :
    total (spans bs) = (bs.map fun b => heapBlock.size + b.capacity).sum := by
  induction bs with
  | nil => rfl
  | cons b bs ih =>
    rw [spans_cons, total_cons, ih, List.map_cons, List.sum_cons, Span.length]
    simp only [Block.span, Block.stop_eq, Block.size_eq]
    omega

/-- **The block list.**  In every state that a run reaches the blocks are linked both
ways in ascending order, they tile the accepted regions, no two free neighbours
touch, the blocks in use are the live allocations with room for their canary, and
the counters count them. -/
theorem heap_list_invariant {ε : Type} (grow : HeapGrowFn ε) (w : ε)
    (s : Heap (ε × List (ℕ × ℕ))) (calls : List Call)
    (hlegal : Runs.Legal Session.step (Session.Legal grow) (Session.start grow w s) calls) :
    let t := Runs.final Session.step (Session.start grow w s) calls
    ∃ bs : List Block,
      t.heap.blocks = first (nodes bs) 0 ∧
      Chain (fun x => heapBlock.get t.heap.mem x .next) (fun x => heapBlock.get t.heap.mem x .prev)
        0 (nodes bs) 0 ∧
      (∀ b ∈ bs, Header t.heap.mem b) ∧
      (nodes bs).Pairwise (· < ·) ∧
      (∀ b ∈ bs, heapAlignment ∣ b.capacity) ∧
      bs.Pairwise (fun a b => a.stop ≤ b.addr) ∧
      cover (spans bs) = cover t.regions ∧
      (bs.map fun b => heapBlock.size + b.capacity).sum = t.heap.totalRegionBytes ∧
      total t.regions = t.heap.totalRegionBytes ∧
      bs.IsChain (fun a b => ¬ (a.free ∧ b.free ∧ a.stop = b.addr)) ∧
      (allocations bs).Perm t.live ∧
      (∀ b ∈ bs, ¬ b.free → b.requested + heapCanaryBytes ≤ b.capacity) ∧
      t.heap.activeAllocations = t.live.length ∧
      t.heap.allocatedPayloadBytes = (t.live.map Prod.snd).sum := by
  obtain ⟨bs, hinv, hlive, -⟩ := (Session.start_good w s).run hlegal
  have hord := hinv.ordered
  refine ⟨bs, hinv.holds.head_eq, hinv.holds.chain, hinv.holds.header, ?_,
    fun b hb => (hord.block b hb).capacity_dvd, hord.sorted, hinv.cover_eq, ?_, ?_, hinv.coalesced,
    hlive, fun b hb hused => ((hord.block b hb).requested_used hused).2, ?_, ?_⟩
  · refine List.pairwise_map.mpr (hord.sorted.imp fun {a b} hab => ?_)
    have := a.addr_le_stop
    omega
  · rw [← total_spans, hinv.bytes_eq]
  · rw [hinv.bytes_eq, hinv.total_eq]
  · rw [hinv.active_eq, hlive.length_eq]
  · rw [hinv.allocated_eq, (hlive.map Prod.snd).sum_eq]

/-- A callback with one region to give. -/
def oneRegion : HeapGrowFn ℕ := fun _ e => if e = 0 then ((65536, 4096), 1) else ((0, 0), e)

/-- A heap on cleared memory, before `heap_init`. -/
def blankHeap : Heap (ℕ × List (ℕ × ℕ)) := { mem := fun _ => 0, world := (0, []) }

/-- Two allocations, a store and a free. -/
def shortRun : List Call := [.kmalloc 37, .kzalloc 257, .store 65590 90, .kfree 65584]

lemma shortRun_legal :
    Runs.Legal Session.step (Session.Legal oneRegion) (Session.start oneRegion 0 blankHeap)
      shortRun := by
  set t₀ := Session.start oneRegion 0 blankHeap with ht₀
  have hworld : (t₀.step (.kmalloc 37)).2.heap.world.1 = 1 := by decide +kernel
  have hlive : (Runs.final Session.step t₀ [.kmalloc 37, .kzalloc 257]).live =
      [(65680, 257), (65584, 37)] := by decide +kernel
  refine ⟨fun minimum => Or.inr ⟨show 65536 + 4096 ≤ 2 ^ 64 by norm_num, ?_⟩,
    fun minimum => Or.inl ?_, Or.inl ?_, Or.inr ?_, trivial⟩
  · have hregions : t₀.regions = [] := rfl
    simp [hregions]
  · rw [hworld]
    rfl
  · refine ⟨(65584, 37), ?_, by decide, by decide⟩
    have : (65584, 37) ∈ [(65680, 257), (65584, 37)] := by decide
    rwa [← hlive] at this
  · refine ⟨37, ?_⟩
    have : (65584, 37) ∈ [(65680, 257), (65584, 37)] := by decide
    rwa [← hlive] at this

theorem heap_list_invariant_shortRun :
    let t := Runs.final Session.step (Session.start oneRegion 0 blankHeap) shortRun
    t.live = [(65680, 257)] ∧ ∃ bs : List Block, t.heap.blocks = first (nodes bs) 0 ∧
      (allocations bs).Perm [(65680, 257)] ∧ cover (spans bs) = cover [⟨65536, 69632⟩] := by
  have hlive : (Runs.final Session.step (Session.start oneRegion 0 blankHeap) shortRun).live =
      [(65680, 257)] := by decide +kernel
  have hregions : (Runs.final Session.step (Session.start oneRegion 0 blankHeap) shortRun).regions =
      [⟨65536, 69632⟩] := by decide +kernel
  obtain ⟨bs, hhead, -, -, -, -, -, hcover, -, -, -, hperm, -⟩ :=
    heap_list_invariant oneRegion 0 blankHeap shortRun shortRun_legal
  rw [hlive] at hperm
  rw [hregions] at hcover
  exact ⟨hlive, bs, hhead, hperm, hcover⟩

/-- **Isolation.**  Live allocations are aligned and share no byte, canaries
included, with each other or with a header; whatever happens later, the bytes of an
allocation change only when a client stores to them; its canary stays in place, and
it can be freed. -/
theorem heap_isolation {ε : Type} (grow : HeapGrowFn ε) (w : ε) (s : Heap (ε × List (ℕ × ℕ)))
    (calls : List Call)
    (hlegal : Runs.Legal Session.step (Session.Legal grow) (Session.start grow w s) calls) :
    let t := Runs.final Session.step (Session.start grow w s) calls
    (t.live.map Prod.fst).Nodup ∧
    ∃ bs : List Block, Holds t.heap.mem t.heap.blocks bs ∧ ∀ q ∈ t.live,
      heapAlignment ∣ q.1 ∧
      (∀ q' ∈ t.live, q' ≠ q → Disjoint (Set.Ico q.1 (q.1 + q.2 + heapCanaryBytes))
        (Set.Ico q'.1 (q'.1 + q'.2 + heapCanaryBytes))) ∧
      (∀ b ∈ bs, Disjoint (Set.Ico q.1 (q.1 + q.2 + heapCanaryBytes))
        (Set.Ico b.addr (b.addr + heapBlock.size))) ∧
      (∀ later, Runs.Legal Session.step (Session.Legal grow) t later →
        (∀ p, Call.kfree p ∈ later → p.toNat ≠ q.1) → ∀ x ∈ Set.Ico q.1 (q.1 + q.2),
        (∀ v, Call.store x v ∉ later) →
          (Runs.final Session.step t later).heap.mem x = t.heap.mem x) ∧
      Memory.read64 t.heap.mem (q.1 + q.2) = blockCanary t.heap.mem (q.1 - heapBlock.size) ∧
      (t.heap.kfree q.1).1 = .ok := by
  obtain ⟨bs, hgood⟩ := (Session.start_good w s).run hlegal
  have hinv := hgood.inv
  have hord := hinv.ordered
  have hmem : ∀ q ∈ (Runs.final Session.step (Session.start grow w s) calls).live,
      q ∈ allocations bs := fun q hq => hgood.live.symm.subset hq
  refine ⟨(hgood.live.map Prod.fst).nodup_iff.mp hord.nodup_pointers, bs, hinv.holds,
    fun q hq => ⟨?_, fun q' hq' hne => ?_, fun b hb => ?_, fun later hlater hfree x hx hstore => ?_,
      ?_, (hgood.free hq).1⟩⟩
  · obtain ⟨b, hb, -, rfl, -⟩ := hord.exists_block (hmem q hq)
    exact Nat.dvd_add (hord.block b hb).addr_dvd ⟨3, rfl⟩
  · rw [Set.disjoint_left]
    rintro x ⟨hle, hlt⟩ ⟨hle', hlt'⟩
    have hapart := (hord.allocation_eq_or_apart (hmem q hq) (hmem q' hq')).resolve_left hne.symm
    omega
  · rw [Set.disjoint_left]
    rintro x ⟨hle, hlt⟩ hx
    exact hord.allocation_notMem_held (hmem q hq) hle hlt
      (Ordered.header_subset (mem_nodes.mpr ⟨b, hb, rfl⟩) hx)
  · exact hgood.run_spares hlater hq hfree hx.1 hx.2 hstore
  · obtain ⟨b, hb, hused, rfl, -⟩ := hord.exists_block (hmem q hq)
    have hcanary := hinv.holds.canary b hb hused
    simp only [Block.allocation, Block.payload_eq, Block.size_eq, Nat.add_sub_cancel] at hcanary ⊢
    rw [hcanary, blockCanary, (hinv.holds.header b hb).requested, Block.canary]

theorem heap_isolation_shortRun :
    let t := Runs.final Session.step (Session.start oneRegion 0 blankHeap) shortRun
    (65680, 257) ∈ t.live ∧ (t.heap.kfree 65680).1 = .ok ∧
      Memory.read64 t.heap.mem 65937 = blockCanary t.heap.mem 65632 := by
  have hlive : (Runs.final Session.step (Session.start oneRegion 0 blankHeap) shortRun).live =
      [(65680, 257)] := by decide +kernel
  have hmem : (65680, 257) ∈
      (Runs.final Session.step (Session.start oneRegion 0 blankHeap) shortRun).live := by
    rw [hlive]
    exact List.mem_singleton.mpr rfl
  obtain ⟨-, bs, -, hall⟩ := heap_isolation oneRegion 0 blankHeap shortRun shortRun_legal
  obtain ⟨-, -, -, -, hcanary, hfree⟩ := hall (65680, 257) hmem
  exact ⟨hmem, hfree, hcanary⟩

end JoshOS.Heap
