import JoshOS.Heap.Ops

/-!
The invariant of the heap and what each call does to it.

`Inv s bs regions` says that the heap `s` holds the blocks `bs`, that they tile
the accepted regions, and that the counters count them.  Every interface call
keeps it, for some new list of blocks whose allocations are known, and writes
only bytes that belong to the heap or to memory it was just given.

* `growHeap_inv`: asking the callback for memory.
* `takeBlock_inv`: handing out a block.
* `kmalloc_spec`, `kzalloc_spec`, `kfree_spec`: the interface.
-/

namespace JoshOS.Heap

open Heap.Block List Links Words Spans

/-- The heap `s` holds the blocks `bs`, which tile the accepted `regions`. -/
structure Inv {ε : Type} (s : Heap ε) (bs : List Block) (regions : List Span) : Prop where
  initialised : s.initialised = true
  holds : Holds s.mem s.blocks bs
  ordered : Ordered bs
  coalesced : Coalesced bs
  cover_eq : cover (spans bs) = cover regions
  total_eq : total (spans bs) = total regions
  bytes_eq : s.totalRegionBytes = total (spans bs)
  active_eq : s.activeAllocations = (allocations bs).length
  allocated_eq : s.allocatedPayloadBytes = ((allocations bs).map Prod.snd).sum

variable {ε : Type} {s s' : Heap ε} {m m' : Memory} {head : ℕ} {bs bs' l l₁ l₂ : List Block}
  {regions new : List Span} {a b c : Block} {n size : ℕ}

/-! ### Counters -/

/-- The allocations fit into the blocks, one byte to spare for each. -/
lemma Ordered.allocations_le (h : Ordered bs) :
    ((allocations bs).map Prod.snd).sum + (allocations bs).length ≤ total (spans bs) := by
  induction bs with
  | nil => simp [allocations]
  | cons b bs ih =>
    obtain ⟨hb, hbs, -⟩ := ordered_cons.mp h
    have hrest := ih hbs
    rw [spans_cons, total_cons, Span.length]
    by_cases hfree : b.free
    · rw [allocations_cons_free hfree]
      omega
    · have hroom := (hb.requested_used hfree).2
      rw [allocations_cons_used hfree, map_cons, sum_cons, length_cons]
      simp only [Block.allocation, Block.span, Block.stop_eq, heapCanaryBytes] at *
      omega

lemma Ordered.total_lt (h : Ordered bs) : total (spans bs) < 2 ^ 64 := by
  have := h.total_le
  simp only [heapAlignment] at this
  omega

/-! ### Where allocations lie -/

section Allocations

variable {p q : ℕ × ℕ} {x : ℕ}

/-- An allocation and its canary lie inside the payload of a block in use. -/
lemma Ordered.exists_block (h : Ordered bs) (hp : p ∈ allocations bs) :
    ∃ b ∈ bs, ¬ b.free ∧ p = b.allocation ∧ p.1 + p.2 + heapCanaryBytes ≤ b.stop := by
  obtain ⟨b, hb, hused, rfl⟩ := mem_allocations.mp hp
  have hroom := ((h.block b hb).requested_used hused).2
  refine ⟨b, hb, hused, rfl, ?_⟩
  simp only [allocation, stop]
  omega

/-- The bytes of an allocation and of its canary do not belong to the heap. -/
lemma Ordered.allocation_notMem_held (h : Ordered bs) (hp : p ∈ allocations bs) (hle : p.1 ≤ x)
    (hlt : x < p.1 + p.2 + heapCanaryBytes) : x ∉ held bs := by
  obtain ⟨b, hb, hused, rfl, hstop⟩ := h.exists_block hp
  exact h.payload_notMem_held hb hused hle (by omega)

lemma Ordered.allocation_subset (h : Ordered bs) (hp : p ∈ allocations bs) (hle : p.1 ≤ x)
    (hlt : x < p.1 + p.2 + heapCanaryBytes) : x ∈ cover (spans bs) := by
  obtain ⟨b, hb, -, rfl, hstop⟩ := h.exists_block hp
  simp only [allocation, payload_eq] at *
  exact mem_cover_spans.mpr ⟨b, hb, by omega, by omega⟩

/-- Two allocations are the same or share no byte, canaries included. -/
lemma Ordered.allocation_eq_or_apart (h : Ordered bs) (hp : p ∈ allocations bs)
    (hq : q ∈ allocations bs) :
    p = q ∨ p.1 + p.2 + heapCanaryBytes ≤ q.1 ∨ q.1 + q.2 + heapCanaryBytes ≤ p.1 := by
  obtain ⟨a, ha, -, rfl, hstop⟩ := h.exists_block hp
  obtain ⟨b, hb, -, rfl, hstop'⟩ := h.exists_block hq
  simp only [allocation, payload_eq] at *
  rcases h.eq_or_apart ha hb with rfl | hap | hap
  · exact .inl rfl
  · exact .inr (.inl (by omega))
  · exact .inr (.inr (by omega))

/-- No two allocations have the same pointer. -/
lemma Ordered.nodup_pointers (h : Ordered bs) : ((allocations bs).map Prod.fst).Nodup := by
  have hmap : (allocations bs).map Prod.fst =
      (nodes (bs.filter fun b => !b.free)).map payload := by
    simp [allocations, nodes, allocation, Function.comp_def]
  rw [hmap]
  refine Nodup.map (fun x y hxy => ?_) ?_
  · simpa using hxy
  · exact h.nodup.sublist (filter_sublist.map _)

end Allocations

/-! ### Asking for memory -/

/-- An answer of the callback that the heap can work with: the null pointer, or
memory inside the address space that no accepted region contains. -/
def Fresh (regions : List Span) (answer : ℕ × ℕ) : Prop :=
  answer.1 = 0 ∨ (answer.1 + answer.2 ≤ 2 ^ 64 ∧
    Disjoint (Set.Ico answer.1 (answer.1 + answer.2)) (cover regions))

/-- The region, if any, that the heap makes of an answer of the callback. -/
def accepted (answer : ℕ × ℕ) : List Span := (acceptedRegion answer.1 answer.2).toList

/-- How a call may have used the callback: not at all, or once, in which case the
state behind it moved on and the new regions are what came of the answer. -/
def Asked (s s' : Heap ε) (new : List Span) : Prop :=
  (s'.world = s.world ∧ new = []) ∨
    ∃ grow minimum, s.growCallback = some grow ∧ s'.world = (grow minimum s.world).2 ∧
      new = accepted (grow minimum s.world).1

lemma Inv.failed (h : Inv s bs regions) : Inv (allocationFailed s).2 bs regions :=
  ⟨h.initialised, h.holds, h.ordered, h.coalesced, h.cover_eq, h.total_eq, h.bytes_eq, h.active_eq,
    h.allocated_eq⟩

lemma Inv.with_mem (h : Inv s bs regions) (hm : Holds m s.blocks bs) :
    Inv { s with mem := m } bs regions :=
  ⟨h.initialised, hm, h.ordered, h.coalesced, h.cover_eq, h.total_eq, h.bytes_eq, h.active_eq,
    h.allocated_eq⟩

lemma Inv.with_world (h : Inv s bs regions) (w : ε) : Inv { s with world := w } bs regions :=
  ⟨h.initialised, h.holds, h.ordered, h.coalesced, h.cover_eq, h.total_eq, h.bytes_eq, h.active_eq,
    h.allocated_eq⟩

/-- Adding an accepted region keeps the invariant and gives a free block that is
at least as large as the region allows. -/
lemma addRegion_inv {memory bytes : ℕ} {r : Span} (h : Inv s bs regions)
    (hend : memory + bytes ≤ 2 ^ 64) (haccept : acceptedRegion memory bytes = some r)
    (hdisj : Disjoint r.points (cover regions)) :
    (addRegion memory bytes s).1 = true ∧
    ∃ bs', Inv (addRegion memory bytes s).2 bs' (regions ++ [r]) ∧
      used bs' = used bs ∧ (∃ b ∈ bs', b.fits (r.length - heapBlock.size)) ∧
      Set.EqOn (addRegion memory bytes s).2.mem s.mem (held bs ∪ r.points)ᶜ ∧
      held bs' ⊆ held bs ∪ r.points ∧
      (addRegion memory bytes s).2.world = s.world ∧
      (addRegion memory bytes s).2.growCallback = s.growCallback ∧
      Quiet s.mem (addRegion memory bytes s).2.mem := by
  obtain ⟨hwf, hspan⟩ := regionBlock_wellFormed haccept hend
  have hdisj' : Disjoint r.points (cover (spans bs)) := by rwa [h.cover_eq]
  obtain ⟨m', head', hadd, hholds, heq, hquiet⟩ :=
    addRegion_holds h.ordered h.holds hend haccept hdisj'
  obtain ⟨hord, hcoal, hcover, htotal, hheld, halloc⟩ :=
    insertBlock_spec h.ordered h.coalesced hwf rfl (by rwa [hspan])
  rw [hspan] at hcover htotal hheld
  have hfits : (regionBlock r).fits (r.length - heapBlock.size) := by
    simp [fits, regionBlock]
  rw [hadd]
  refine ⟨rfl, insertBlock (regionBlock r) bs, ⟨h.initialised, hholds, hord, hcoal, ?_, ?_, ?_, ?_,
    ?_⟩, used_insertBlock rfl, exists_fits_coalesce _ _ hfits, heq, hheld, rfl, rfl, hquiet⟩
  · rw [hcover, h.cover_eq]
    simp
  · rw [htotal, h.total_eq]
    simp
  · have hlt := hord.total_lt
    rw [htotal] at hlt ⊢
    rw [h.bytes_eq]
    exact wrap64_of_lt hlt
  · rw [halloc]
    exact h.active_eq
  · rw [halloc]
    exact h.allocated_eq

/-- A call that keeps the invariant: it writes only bytes of the heap and of the
regions it added, which came from the callback. -/
structure Keeps (s s' : Heap ε) (bs bs' : List Block) (regions new : List Span) : Prop where
  inv : Inv s' bs' (regions ++ new)
  memory : Set.EqOn s'.mem s.mem (held bs ∪ cover new)ᶜ
  held_subset : held bs' ⊆ held bs ∪ cover new
  fresh : Disjoint (cover new) (cover regions)
  asked : Asked s s' new
  callback : s'.growCallback = s.growCallback

lemma Fresh.disjoint {answer : ℕ × ℕ} {r : Span} (h : Fresh regions answer)
    (hr : acceptedRegion answer.1 answer.2 = some r) :
    answer.1 + answer.2 ≤ 2 ^ 64 ∧ Disjoint r.points (cover regions) := by
  obtain ⟨hne, hstart, hstop, -⟩ := acceptedRegion_eq_some hr
  obtain ⟨hend, hdisj⟩ := h.resolve_left hne
  refine ⟨hend, hdisj.mono_left fun x hx => ?_⟩
  simp only [Span.mem_points] at hx
  exact ⟨by omega, by omega⟩

/-- What `grow_heap` asks the callback for. -/
def growRequest (n : ℕ) : ℕ := heapBlock.size + n + heapCanaryBytes

/-- `grow_heap` with a callback in place. -/
lemma growHeap_eq {grow : HeapGrowFn ε} (hgrow : s.growCallback = some grow) :
    growHeap n s =
      let k := heapBlock.size + n + heapCanaryBytes
      let answer := (grow k s.world).1
      let asked := { s with world := (grow k s.world).2 }
      if uint64Max - n < heapBlock.size + heapCanaryBytes then (false, s)
      else if answer.1 = 0 then (false, asked) else addRegion answer.1 answer.2 asked := by
  rw [growHeap, hgrow]

/-- The callback answers with fresh memory only. -/
def Honest (s : Heap ε) (regions : List Span) : Prop :=
  ∀ grow, s.growCallback = some grow → ∀ k, Fresh regions (grow k s.world).1

/-- **`grow_heap`.**  Either nothing changes but the state of the callback, or one
accepted region is added. -/
theorem growHeap_inv (h : Inv s bs regions)
    (hfresh : Honest s regions) :
    ((growHeap n s).1 = false ∧ Asked s (growHeap n s).2 [] ∧
        ∃ w, (growHeap n s).2 = { s with world := w }) ∨
      ((growHeap n s).1 = true ∧ ∃ bs' r, Keeps s (growHeap n s).2 bs bs' regions [r] ∧
        used bs' = used bs ∧ Quiet s.mem (growHeap n s).2.mem) := by
  rcases Option.eq_none_or_eq_some s.growCallback with hgrow | ⟨grow, hgrow⟩
  · have hnone : growHeap n s = (false, s) := by rw [growHeap, hgrow]
    rw [hnone]
    exact .inl ⟨rfl, .inl ⟨rfl, rfl⟩, s.world, rfl⟩
  · rw [growHeap_eq hgrow]
    simp only
    set k := heapBlock.size + n + heapCanaryBytes
    set answer := (grow k s.world).1 with hanswer
    set w := (grow k s.world).2 with hw
    have hasked : ∀ (t : Heap ε) (l : List Span), t.world = w → l = accepted answer →
        Asked s t l := fun t l ht hl => .inr ⟨grow, k, hgrow, ht, hl⟩
    have hans : Fresh regions answer := hfresh grow hgrow k
    split
    case isTrue => exact .inl ⟨rfl, .inl ⟨rfl, rfl⟩, s.world, rfl⟩
    case isFalse =>
      split
      case isTrue hnull =>
        refine .inl ⟨rfl, hasked _ _ rfl ?_, w, rfl⟩
        simp [accepted, acceptedRegion, hnull]
      case isFalse hnonnull =>
        have hend := (hans.resolve_left hnonnull).1
        rcases Option.eq_none_or_eq_some (acceptedRegion answer.1 answer.2) with
          hreject | ⟨r, haccept⟩
        · rw [addRegion_eq hend, hreject]
          exact .inl ⟨rfl, hasked _ _ rfl (by simp [accepted, hreject]), w, rfl⟩
        · obtain ⟨htrue, bs', hinv, hused, -, heq, hheld, hworld, hcallback, hquiet⟩ :=
            addRegion_inv (h.with_world w) hend haccept (hans.disjoint haccept).2
          refine .inr ⟨htrue, bs', r, ⟨hinv, ?_, ?_, ?_, ?_, hcallback⟩, hused, hquiet⟩
          · simpa using heq
          · simpa using hheld
          · simpa using (hans.disjoint haccept).2
          · exact hasked _ _ hworld (by simp [accepted, haccept])

/-- No allocation notices such a call. -/
lemma Keeps.allocation_kept {p : ℕ × ℕ} {x : ℕ} (h : Keeps s s' bs bs' regions new)
    (hinv : Inv s bs regions) (hp : p ∈ allocations bs) (hle : p.1 ≤ x)
    (hlt : x < p.1 + p.2 + heapCanaryBytes) : s'.mem x = s.mem x := by
  refine h.memory fun hx => ?_
  rcases hx with hx | hx
  · exact hinv.ordered.allocation_notMem_held hp hle hlt hx
  · have hmem := hinv.ordered.allocation_subset hp hle hlt
    rw [hinv.cover_eq] at hmem
    exact Set.disjoint_left.mp h.fresh hx hmem

/-! ### Handing out a block -/

/-- The capacity that `kmalloc` looks for, when the request is not refused. -/
def neededCapacity (size : ℕ) : Option ℕ :=
  if size = 0 then none
  else if uint64Max - size < heapCanaryBytes then none
  else alignUpSize (size + heapCanaryBytes) heapAlignment

/-- A request is refused when it is empty or within 24 bytes of the largest
word; otherwise it is rounded up to the alignment with room for the canary. -/
lemma neededCapacity_eq_some (h : neededCapacity size = some n) :
    0 < size ∧ size + heapCanaryBytes ≤ n ∧ n < size + heapCanaryBytes + heapAlignment ∧
      heapAlignment ∣ n ∧ n < 2 ^ 64 := by
  rw [neededCapacity] at h
  split at h
  case isTrue => simp at h
  case isFalse hsize =>
    split at h
    case isTrue => simp at h
    case isFalse hcanary =>
      rw [alignUpSize] at h
      split at h
      case isTrue haligned =>
        obtain rfl := Option.some.inj h
        simp only [heapAlignment, heapCanaryBytes, uint64Max] at *
        omega
      case isFalse haligned =>
        simp only at h
        split at h
        case isTrue => simp at h
        case isFalse hover =>
          obtain rfl := Option.some.inj h
          simp only [heapAlignment, heapCanaryBytes, uint64Max] at *
          omega

lemma kmalloc_refused (h : neededCapacity size = none) (s : Heap ε) :
    kmalloc size s = allocationFailed s := by
  rw [kmalloc]
  by_cases hsize : ¬ s.initialised = true ∨ size = 0
  · rw [if_pos hsize]
  · rw [if_neg hsize]
    push Not at hsize
    rw [neededCapacity, if_neg hsize.2] at h
    split
    case isTrue => rfl
    case isFalse hcanary =>
      rw [if_neg hcanary] at h
      rw [h]

/-- `kmalloc` once its request is known not to be refused. -/
lemma kmalloc_eq (hinit : s.initialised = true) (h : neededCapacity size = some n) :
    kmalloc size s =
      if findBlock n s ≠ 0 then takeBlock (findBlock n s) size n s
      else if (growHeap n s).1 = false then allocationFailed (growHeap n s).2
      else if findBlock n (growHeap n s).2 = 0 then allocationFailed (growHeap n s).2
      else takeBlock (findBlock n (growHeap n s).2) size n (growHeap n s).2 := by
  have hpos := (neededCapacity_eq_some h).1
  rw [neededCapacity, if_neg hpos.ne'] at h
  rw [kmalloc, if_neg (by simp [hinit, hpos.ne'])]
  split at h
  case isTrue => simp at h
  case isFalse hcanary =>
    rw [if_neg hcanary, h]
    simp only
    cases (growHeap n s).1 <;> simp

lemma Inv.findBlock_eq (h : Inv s bs regions) (n : ℕ) :
    findBlock n s = (bs.find? (fits n)).elim 0 addr := by
  rw [findBlock, h.holds.head_eq]
  exact findBlockFrom_eq h.holds.chain h.holds.header h.ordered h.ordered.length_le n

/-- A search ends at a block exactly when a free one is large enough. -/
lemma Inv.findBlock_ne_zero_iff (h : Inv s bs regions) :
    findBlock n s ≠ 0 ↔ ∃ b ∈ bs, b.free ∧ n ≤ b.capacity := by
  constructor
  · intro hne
    rw [h.findBlock_eq] at hne
    cases hfind : bs.find? (fits n) with
    | none =>
      rw [hfind] at hne
      exact absurd rfl hne
    | some b =>
      exact ⟨b, mem_of_find?_eq_some hfind, fits_iff.mp (find?_some hfind)⟩
  · rintro ⟨b, hb, hfree, hle⟩
    rw [h.findBlock_eq]
    cases hfind : bs.find? (fits n) with
    | none => exact absurd (find?_eq_none.mp hfind b hb) (not_not_intro (fits_iff.mpr ⟨hfree, hle⟩))
    | some a => exact (h.ordered.block a (mem_of_find?_eq_some hfind)).addr_pos.ne'

/-- What the memory holds after a block was split and stamped. -/
lemma take_holds (hord : Ordered (l₁ ++ a :: l₂)) (h : Holds m head (l₁ ++ a :: l₂))
    (hord' : Ordered (l₁ ++ a.take n size ++ l₂)) (hn : heapAlignment ∣ n) (hle : n ≤ a.capacity)
    (hfree : a.free) :
    Holds (stampBlock a.addr size (splitBlock a.addr n m)) head (l₁ ++ a.take n size ++ l₂) ∧
      Set.EqOn (stampBlock a.addr size (splitBlock a.addr n m)) m (held (l₁ ++ a :: l₂))ᶜ := by
  obtain ⟨hsplit, heq⟩ := splitBlock_holds hord h hn hle hfree
  have hord₁ := hord.split hn hle hfree
  simp only [Block.split, Block.take, List.append_assoc, List.cons_append] at hord₁ hsplit hord' ⊢
  obtain ⟨hstamp, heq'⟩ := stampBlock_holds hord₁ hsplit hord'
  refine ⟨hstamp, (heq'.mono (Set.compl_subset_compl.mpr ?_)).trans heq⟩
  refine Set.Subset.trans (fun x hx => ?_) (span_subset_held (by simp) hfree)
  have hwf := hord.block a (by simp)
  have hin := mem_split hn hle hwf (show a.front n ∈ a.split n by simp [split])
  simp only [Block.span, Span.mem_points] at hx ⊢
  omega

/-- **Handing out a block.**  The first block that fits becomes an allocation. -/
theorem takeBlock_inv (h : Inv s bs regions) (hsize : neededCapacity size = some n)
    (hfind : bs.find? (fits n) = some a) :
    ∃ bs', Keeps s (takeBlock a.addr size n s).2 bs bs' regions [] ∧
      (used bs').Perm ((a.front n).use size :: used bs) ∧
      Set.Ico (payload a.addr) (payload a.addr + size) ⊆ held bs := by
  obtain ⟨hfits, l₁, l₂, rfl, -⟩ := find?_eq_some_iff_append.mp hfind
  obtain ⟨hfree, hle⟩ := fits_iff.mp hfits
  obtain ⟨hpos, hroom, -, hn, -⟩ := neededCapacity_eq_some hsize
  obtain ⟨hord, hcoal, hcover, htotal, hheld, -⟩ :=
    take_spec h.ordered h.coalesced hfree hn hle hpos hroom
  obtain ⟨hholds, heq⟩ := take_holds h.ordered h.holds hord hn hle hfree
  have hused : (used (l₁ ++ a.take n size ++ l₂)).Perm
      ((a.front n).use size :: used (l₁ ++ a :: l₂)) := by
    rw [used_take hn (h.ordered.block a (by simp)), used_append, used_cons_free hfree]
    exact perm_middle
  have hperm : (allocations (l₁ ++ a.take n size ++ l₂)).Perm
      ((payload a.addr, size) :: allocations (l₁ ++ a :: l₂)) := hused.map allocation
  have hbound := hord.allocations_le
  have htop := hord.total_lt
  have hsum := (hperm.map Prod.snd).sum_eq
  have hlength := hperm.length_eq
  simp only [map_cons, sum_cons, length_cons] at hsum hlength
  refine ⟨_, ⟨⟨h.initialised, hholds, hord, hcoal, ?_, ?_, ?_, ?_, ?_⟩, ?_, ?_, by simp,
    .inl ⟨rfl, rfl⟩, rfl⟩, hused, fun x hx => span_subset_held (by simp) hfree ?_⟩
  · rw [hcover, h.cover_eq, append_nil]
  · rw [htotal, h.total_eq, append_nil]
  · rw [htotal]
    exact h.bytes_eq
  · have hactive := h.active_eq
    rw [hlength, ← hactive]
    exact wrap64_of_lt (by omega)
  · have hallocated := h.allocated_eq
    rw [hsum, ← hallocated, Nat.add_comm size]
    exact wrap64_of_lt (by omega)
  · rw [cover_nil, Set.union_empty]
    exact heq
  · rw [cover_nil, Set.union_empty]
    exact hheld
  · simp only [Set.mem_Ico, Block.span, Span.mem_points, Block.stop, Block.payload_eq,
      heapCanaryBytes] at *
    omega

/-! ### The interface -/

/-- What a call of `kmalloc` or `kzalloc` for `size` bytes that answers `p` does
to the allocations: nothing, or it adds one whose bytes belonged to the heap or
to memory that was just added. -/
def Allocates (p size : ℕ) (bs bs' : List Block) (new : List Span) : Prop :=
  (p = 0 ∧ allocations bs' = allocations bs) ∨
    (p ≠ 0 ∧ (allocations bs').Perm ((p, size) :: allocations bs) ∧
      Set.Ico p (p + size) ⊆ held bs ∪ cover new)

/-- Two calls one after the other, the second one without the callback. -/
lemma Keeps.trans {s₁ s₂ : Heap ε} {bs₁ bs₂ : List Block} (h : Keeps s s₁ bs bs₁ regions new)
    (h' : Keeps s₁ s₂ bs₁ bs₂ (regions ++ new) []) (hworld : s₂.world = s₁.world) :
    Keeps s s₂ bs bs₂ regions new where
  inv := by simpa using h'.inv
  memory := by
    refine Set.EqOn.trans (h'.memory.mono (Set.compl_subset_compl.mpr ?_)) h.memory
    simpa using h.held_subset
  held_subset := by
    refine Set.Subset.trans h'.held_subset ?_
    simpa using h.held_subset
  fresh := h.fresh
  asked := by
    rcases h.asked with ⟨hsame, hnew⟩ | ⟨grow, k, hgrow, hmoved, hnew⟩
    · exact .inl ⟨hworld.trans hsame, hnew⟩
    · exact .inr ⟨grow, k, hgrow, hworld.trans hmoved, hnew⟩
  callback := h'.callback.trans h.callback

/-- Nothing but a counter or the state of the callback changed. -/
lemma Keeps.refl (h : Inv s' bs regions) (hmem : s'.mem = s.mem) (hasked : Asked s s' [])
    (hcallback : s'.growCallback = s.growCallback) : Keeps s s' bs bs regions [] where
  inv := by simpa using h
  memory := fun x _ => congrFun hmem x
  held_subset := Set.subset_union_left
  fresh := by simp
  asked := hasked
  callback := hcallback

/-- A search comes back empty or with the first block that fits. -/
lemma Inv.search_cases (h : Inv s bs regions) (n : ℕ) :
    findBlock n s = 0 ∨ ∃ a, bs.find? (fits n) = some a ∧ findBlock n s = a.addr ∧
      a.addr ≠ 0 := by
  rw [h.findBlock_eq]
  cases hfind : bs.find? (fits n) with
  | none => exact .inl rfl
  | some a =>
    exact .inr ⟨a, rfl, rfl,
      (h.ordered.block a (mem_of_find?_eq_some hfind)).addr_pos.ne'⟩

/-- **What `kmalloc` does.**  It may grow the heap; then it fails, or hands out the first
block that fits. -/
theorem kmalloc_cases (h : Inv s bs regions)
    (hfresh : Honest s regions) (size : ℕ) :
    ∃ s₁ bs₁ new, Keeps s s₁ bs bs₁ regions new ∧ used bs₁ = used bs ∧
      Quiet s.mem s₁.mem ∧
      (kmalloc size s = allocationFailed s₁ ∨ ∃ n a, neededCapacity size = some n ∧
        bs₁.find? (fits n) = some a ∧ kmalloc size s = takeBlock a.addr size n s₁) := by
  have hself : Keeps s s bs bs regions [] := Keeps.refl h rfl (.inl ⟨rfl, rfl⟩) rfl
  rcases Option.eq_none_or_eq_some (neededCapacity size) with hnone | ⟨n, hsize⟩
  · exact ⟨s, bs, [], hself, rfl, Quiet.refl _, .inl (kmalloc_refused hnone s)⟩
  rw [kmalloc_eq h.initialised hsize]
  rcases h.search_cases n with hzero | ⟨a, hfind, haddr, ha0⟩
  · rw [if_neg (not_not_intro hzero)]
    rcases growHeap_inv (n := n) h hfresh with ⟨hfalse, hasked, w, hgrown⟩ |
      ⟨htrue, bs₁, r, hkeeps, hused, hquiet⟩
    · have hinv := h.with_world w
      rw [← hgrown] at hinv
      refine ⟨(growHeap n s).2, bs, [], Keeps.refl hinv ?_ hasked ?_, rfl, ?_,
        .inl (if_pos hfalse)⟩
      · rw [hgrown]
      · rw [hgrown]
      · rw [hgrown]
        exact Quiet.refl _
    · rw [if_neg (by simp [htrue])]
      refine ⟨(growHeap n s).2, bs₁, [r], hkeeps, hused, hquiet, ?_⟩
      rcases hkeeps.inv.search_cases n with hzero' | ⟨a, hfind, haddr, ha0⟩
      · exact .inl (if_pos hzero')
      · rw [haddr, if_neg ha0]
        exact .inr ⟨n, a, hsize, hfind, rfl⟩
  · rw [haddr, if_pos ha0]
    exact ⟨s, bs, [], hself, rfl, Quiet.refl _, .inr ⟨n, a, hsize, hfind, rfl⟩⟩

/-- A failed `kmalloc`, after the heap may have grown. -/
lemma Keeps.failed {s₁ : Heap ε} {bs₁ : List Block} (h : Keeps s s₁ bs bs₁ regions new)
    (hused : used bs₁ = used bs) (size : ℕ) :
    Keeps s (allocationFailed s₁).2 bs bs₁ regions new ∧ Allocates 0 size bs bs₁ new := by
  refine ⟨h.trans (Keeps.refl h.inv.failed rfl (.inl ⟨rfl, rfl⟩) rfl) rfl, .inl ⟨rfl, ?_⟩⟩
  rw [allocations_eq_map, hused, ← allocations_eq_map]

/-- A `kmalloc` that hands out a block, after the heap may have grown. -/
lemma Keeps.took {s₁ : Heap ε} {bs₁ bs₂ : List Block} (h : Keeps s s₁ bs bs₁ regions new)
    (hused : used bs₁ = used bs)
    (h₂ : Keeps s₁ (takeBlock a.addr size n s₁).2 bs₁ bs₂ (regions ++ new) [])
    (hperm : (used bs₂).Perm ((a.front n).use size :: used bs₁))
    (hsub : Set.Ico (payload a.addr) (payload a.addr + size) ⊆ held bs₁) :
    Keeps s (takeBlock a.addr size n s₁).2 bs bs₂ regions new ∧
      Allocates (payload a.addr) size bs bs₂ new := by
  rw [hused] at hperm
  exact ⟨h.trans h₂ rfl, .inr ⟨by simp, hperm.map allocation, hsub.trans h.held_subset⟩⟩

/-- **`kmalloc`.**  The invariant is kept; an answer other than null is a new
allocation of the requested size. -/
theorem kmalloc_spec (h : Inv s bs regions)
    (hfresh : Honest s regions) (size : ℕ) :
    ∃ bs' new, Keeps s (kmalloc size s).2 bs bs' regions new ∧
      Allocates (kmalloc size s).1 size bs bs' new := by
  obtain ⟨s₁, bs₁, new, hkeeps, hused, -, hfailed | ⟨n, a, hsize, hfind, htake⟩⟩ :=
    kmalloc_cases h hfresh size
  · rw [hfailed]
    exact ⟨bs₁, new, hkeeps.failed hused size⟩
  · obtain ⟨bs₂, hkeeps₂, hperm, hsub⟩ := takeBlock_inv hkeeps.inv hsize hfind
    rw [htake]
    exact ⟨bs₂, new, hkeeps.took hused hkeeps₂ hperm hsub⟩

/-- Writes inside an allocation do not disturb the heap. -/
lemma Holds.congr_of_allocation {p : ℕ × ℕ} (hord : Ordered bs) (h : Holds m head bs)
    (hp : p ∈ allocations bs) (heq : Set.EqOn m' m (Set.Ico p.1 (p.1 + p.2))ᶜ) :
    Holds m' head bs := by
  obtain ⟨b, hb, hused, rfl⟩ := mem_allocations.mp hp
  have hroom := ((hord.block b hb).requested_used hused).2
  simp only [allocation, heapCanaryBytes] at heq hroom
  refine h.congr (fun x hx => ?_) fun c hc hcused => ?_
  · refine RecordLayout.get_congr fun y hle hlt => heq fun hy => ?_
    refine hord.payload_notMem_held hb hused hy.1 ?_ (Ordered.header_subset hx ⟨hle, hlt⟩)
    simp only [stop]
    exact lt_of_lt_of_le hy.2 (by omega)
  · have hcroom := ((hord.block c hc).requested_used hcused).2
    refine Memory.read64_congr fun y hle hlt => heq fun hy => ?_
    simp only [Set.mem_Ico, payload_eq, heapCanaryBytes] at hy hle hlt hcroom
    rcases hord.eq_or_apart hb hc with rfl | hap | hap
    · omega
    · rw [stop_eq] at hap
      omega
    · rw [stop_eq] at hap
      omega

/-- Clearing the payload writes to the new allocation only. -/
lemma kzalloc_mem (size : ℕ) (s : Heap ε) :
    Set.EqOn (kzalloc size s).2.mem (kmalloc size s).2.mem
      (Set.Ico (kmalloc size s).1 ((kmalloc size s).1 + size))ᶜ := by
  rw [kzalloc]
  by_cases hnull : (kmalloc size s).1 = 0
  · simp only [hnull, if_true]
    exact Set.eqOn_refl _ _
  · simp only [hnull, if_false]
    intro x hx
    refine Memory.fill_apply_of_notMem ?_
    simpa only [Set.mem_compl_iff, Set.mem_Ico, not_and_or, not_le, not_lt] using hx

lemma kzalloc_eq (size : ℕ) (s : Heap ε) :
    (kzalloc size s).1 = (kmalloc size s).1 ∧
      (kzalloc size s).2 = { (kmalloc size s).2 with mem := (kzalloc size s).2.mem } ∧
      ((kmalloc size s).1 = 0 → (kzalloc size s).2 = (kmalloc size s).2) := by
  rw [kzalloc]
  by_cases hnull : (kmalloc size s).1 = 0
  · simp [hnull]
  · simp [hnull]

/-- **`kzalloc`.**  As `kmalloc`; the payload is cleared. -/
theorem kzalloc_of_kmalloc {bs' : List Block}
    (hkeeps : Keeps s (kmalloc size s).2 bs bs' regions new)
    (halloc : Allocates (kmalloc size s).1 size bs bs' new) :
    Keeps s (kzalloc size s).2 bs bs' regions new ∧
      Allocates (kzalloc size s).1 size bs bs' new := by
  obtain ⟨hptr, hstate, hsame⟩ := kzalloc_eq size s
  rw [hptr]
  refine ⟨?_, halloc⟩
  rcases halloc with ⟨hnull, -⟩ | ⟨-, hperm, hsub⟩
  · rw [hsame hnull]
    exact hkeeps
  · have hlive : ((kmalloc size s).1, size) ∈ allocations bs' := hperm.symm.subset (by simp)
    have hinv := hkeeps.inv.with_mem
      (hkeeps.inv.holds.congr_of_allocation hkeeps.inv.ordered hlive (kzalloc_mem size s))
    rw [← hstate] at hinv
    refine ⟨hinv, ?_, hkeeps.held_subset, hkeeps.fresh, ?_, ?_⟩
    · exact ((kzalloc_mem size s).mono (Set.compl_subset_compl.mpr hsub)).trans hkeeps.memory
    · rw [hstate]
      exact hkeeps.asked
    · rw [hstate]
      exact hkeeps.callback

theorem kzalloc_spec (h : Inv s bs regions)
    (hfresh : Honest s regions) (size : ℕ) :
    ∃ bs' new, Keeps s (kzalloc size s).2 bs bs' regions new ∧
      Allocates (kzalloc size s).1 size bs bs' new := by
  obtain ⟨bs', new, hkeeps, halloc⟩ := kmalloc_spec h hfresh size
  exact ⟨bs', new, kzalloc_of_kmalloc hkeeps halloc⟩

/-- The checks of `kfree` let a live pointer pass. -/
lemma kfree_eq (h : Inv s bs regions) (ha : a ∈ bs) (hused : ¬ a.free) :
    kfree (payload a.addr) s = (.ok, { s with
      mem := mergeFreed a.addr (poisonBlock a.addr s.mem)
      allocatedPayloadBytes := wrap64 (s.allocatedPayloadBytes + 2 ^ 64 - a.requested)
      activeAllocations := wrap64 (s.activeAllocations + 2 ^ 64 - 1) }) := by
  have hwf := h.ordered.block a ha
  have hheader := h.holds.header a ha
  have hcanary := h.holds.canary a ha hused
  have hstop := hwf.stop_le
  obtain ⟨hpos, hroom⟩ := hwf.requested_used hused
  rw [stop_eq] at hstop
  simp only [heapCanaryBytes] at hroom
  have haligned : payload a.addr % heapAlignment = 0 :=
    Nat.mod_eq_zero_of_dvd (Nat.dvd_add hwf.addr_dvd ⟨3, rfl⟩)
  have hblock : wrap64 (payload a.addr + 2 ^ 64 - heapBlock.size) = a.addr := by
    simp only [wrap64, payload_eq, size_eq]
    omega
  have hmagic : heapBlock.get s.mem a.addr .magic = heapAllocMagic := by
    rw [hheader.magic, if_neg hused]
  have hflag : heapBlock.get s.mem a.addr .isFree = 0 := by
    rw [hheader.isFree, if_neg hused]
  have hwrap : wrap64 (a.requested + heapCanaryBytes) = a.requested + heapCanaryBytes :=
    wrap64_of_lt (by simp only [heapCanaryBytes]; omega)
  have hfit : ¬ a.capacity < a.requested + heapCanaryBytes := by
    simp only [heapCanaryBytes]
    omega
  have hvalue : Memory.read64 s.mem (payload a.addr + a.requested) = blockCanary s.mem a.addr := by
    rw [hcanary, blockCanary, hheader.requested, canary]
  rw [kfree, if_neg (by simp [h.initialised]), if_neg (by simp),
    if_neg (not_not_intro haligned)]
  simp only [hblock, hmagic, hflag, hheader.requested, hheader.capacity, hwrap, hvalue]
  rw [if_neg (by simp), if_neg (by simp [hpos.ne', hfit]), if_neg (by simp)]

/-- **`kfree`.**  The block of a live pointer is marked free where it is and joined with
its neighbours. -/
theorem kfree_inv (h : Inv s (l₁ ++ a :: l₂) regions) (hused : ¬ a.free) :
    Inv (kfree (payload a.addr) s).2 (coalesce l₁ a.release l₂) regions ∧
      Set.EqOn (kfree (payload a.addr) s).2.mem s.mem (held (coalesce l₁ a.release l₂))ᶜ := by
  have ha : a ∈ l₁ ++ a :: l₂ := by simp
  have hord := h.ordered.retag (h.ordered.block a ha).release rfl rfl
  obtain ⟨hleft, hright⟩ := coalesced_split.mp h.coalesced
  obtain ⟨hord', hcoal, hrefits⟩ := coalesce_spec hord (IsChain.left_of_append hleft)
    (IsChain.of_cons hright)
  obtain ⟨hpoison, hmem⟩ := poisonBlock_holds h.ordered h.holds
  obtain ⟨hmerge, hmem'⟩ := mergeBoth_holds hord hpoison
  rw [← mergeFreed_eq hord hpoison rfl] at hmerge hmem'
  have hspans : spans (l₁ ++ a.release :: l₂) = spans (l₁ ++ a :: l₂) := by
    simp only [spans_append, spans_cons]
    rfl
  have halloc : allocations (coalesce l₁ a.release l₂) = allocations l₁ ++ allocations l₂ := by
    rw [hrefits.allocations_eq, allocations_append, allocations_cons_free rfl]
  have hold : allocations (l₁ ++ a :: l₂) = allocations l₁ ++ a.allocation :: allocations l₂ := by
    rw [allocations_append, allocations_cons_used hused]
  have hbound := h.ordered.allocations_le
  have htop := h.ordered.total_lt
  have hallocated := h.allocated_eq
  have hactive := h.active_eq
  have hreq : a.allocation.2 = a.requested := rfl
  simp only [hold, map_append, map_cons, sum_append, sum_cons, length_append,
    length_cons, hreq] at hbound hallocated hactive
  rw [kfree_eq h ha hused]
  refine ⟨⟨h.initialised, hmerge, hord', hcoal, ?_, ?_, ?_, ?_, ?_⟩, ?_⟩
  · rw [hrefits.cover_eq, hspans, h.cover_eq]
  · rw [hrefits.total_eq, hspans, h.total_eq]
  · rw [hrefits.total_eq, hspans]
    exact h.bytes_eq
  · show wrap64 (s.activeAllocations + 2 ^ 64 - 1) = _
    rw [halloc, length_append, wrap64]
    omega
  · show wrap64 (s.allocatedPayloadBytes + 2 ^ 64 - a.requested) = _
    rw [halloc, map_append, sum_append, wrap64]
    omega
  · rw [hrefits.held_eq]
    refine hmem'.trans (hmem.mono (Set.compl_subset_compl.mpr ?_))
    have hspan : a.release.span = a.span := rfl
    rw [← hspan]
    exact span_subset_held (by simp) rfl

/-- No two blocks have the same payload. -/
lemma Ordered.filter_used (h : Ordered (l₁ ++ a :: l₂)) (hused : ¬ a.free) :
    (used (l₁ ++ a :: l₂)).filter (fun b => payload b.addr ≠ payload a.addr) =
      used l₁ ++ used l₂ := by
  have hnodup := h.nodup
  simp only [nodes, map_append, map_cons, nodup_middle, nodup_cons,
    mem_append, mem_map, not_or, not_exists, not_and] at hnodup
  rw [used_append, used_cons_used hused, filter_append, filter_cons_of_neg (by simp)]
  have hkeep : ∀ l, (∀ b ∈ l, b.addr ≠ a.addr) →
      (used l).filter (fun b => payload b.addr ≠ payload a.addr) = used l := by
    intro l hl
    refine filter_eq_self.mpr fun b hb => ?_
    simpa using hl b (mem_used.mp hb).1
  rw [hkeep l₁ hnodup.1.1, hkeep l₂ hnodup.1.2]

/-- A live pointer is taken back: its bytes go to the heap, every other allocation
stays. -/
theorem kfree_spec {p : ℕ × ℕ} (h : Inv s bs regions) (hp : p ∈ allocations bs) :
    (kfree p.1 s).1 = .ok ∧ (kfree p.1 s).2.world = s.world ∧
      (kfree p.1 s).2.growCallback = s.growCallback ∧
      ∃ bs', Inv (kfree p.1 s).2 bs' regions ∧ (allocations bs).Perm (p :: allocations bs') ∧
        Set.EqOn (kfree p.1 s).2.mem s.mem (held bs')ᶜ := by
  obtain ⟨a, ha, hused, rfl⟩ := mem_allocations.mp hp
  have heq := kfree_eq h ha hused
  obtain ⟨l₁, l₂, rfl⟩ := append_of_mem ha
  obtain ⟨hinv, hmem⟩ := kfree_inv h hused
  have hleft : used (coalesce l₁ a.release l₂) = used l₁ ++ used l₂ := used_coalesce rfl
  refine ⟨?_, ?_, ?_, _, hinv, ?_, hmem⟩
  · rw [show a.allocation.1 = payload a.addr from rfl, heq]
  · rw [show a.allocation.1 = payload a.addr from rfl, heq]
  · rw [show a.allocation.1 = payload a.addr from rfl, heq]
  · rw [allocations_eq_map, allocations_eq_map, hleft, used_append, used_cons_used hused]
    simp

/-- Freeing null does nothing. -/
lemma kfree_null (h : s.initialised = true) : kfree 0 s = (.ok, s) := by
  rw [kfree, if_neg (by simp [h]), if_pos rfl]

/-! ### Keeping track of the live allocations -/

section Live

variable {live : List (ℕ × ℕ)} {q : ℕ × ℕ}

/-- The pointers are distinct, so that striking off the freed one removes exactly one
allocation. -/
lemma Ordered.filter_live (h : Ordered bs) (hlive : (allocations bs).Perm live)
    (hperm : (allocations bs).Perm (q :: allocations bs')) :
    (allocations bs').Perm (live.filter fun p => p.1 ≠ q.1) := by
  have hnodup := (hperm.map Prod.fst).nodup_iff.mp h.nodup_pointers
  rw [map_cons, nodup_cons] at hnodup
  have hother : ∀ p ∈ allocations bs', p.1 ≠ q.1 := fun p hp heq =>
    hnodup.1 (mem_map.mpr ⟨p, hp, heq⟩)
  have hfilter := (hlive.symm.trans hperm).filter fun p => decide (p.1 ≠ q.1)
  have hself : (q :: allocations bs').filter (fun p => decide (p.1 ≠ q.1)) = allocations bs' := by
    rw [filter_cons_of_neg (by simp)]
    exact filter_eq_self.mpr fun p hp => by simpa using hother p hp
  rw [hself] at hfilter
  exact hfilter.symm

/-- No client holds the null pointer. -/
lemma Ordered.filter_live_null (h : Ordered bs) (hlive : (allocations bs).Perm live) :
    live.filter (fun p => p.1 ≠ 0) = live := by
  refine filter_eq_self.mpr fun p hp => ?_
  obtain ⟨b, -, -, rfl, -⟩ := h.exists_block (hlive.symm.subset hp)
  simp [allocation]

end Live

end JoshOS.Heap
