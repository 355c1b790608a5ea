import JoshOS.Heap.Runs

/-!
When `kmalloc` succeeds with a callback that keeps its word.

`kmalloc` looks for a capacity, `grow_heap` asks for that capacity with a header and a
canary, and `add_region` refuses whatever does not leave room for a header and a block
worth splitting off.  For the smallest requests what is asked for is less than what is
accepted.

* `Honours`: what the callback is asked to answer with.
* `kmalloc_succeeds_iff`: when `kmalloc` answers with memory, in every state reached.
-/

namespace JoshOS.Heap

open Links Words Spans

/-- An answer that honours the contract of `heap_grow_fn`: aligned memory of at least
`minimum` bytes, inside the address space and outside every region. -/
structure Honours (regions : List Span) (minimum : ℕ) (answer : ℕ × ℕ) : Prop where
  nonnull : answer.1 ≠ 0
  aligned : heapAlignment ∣ answer.1
  enough : minimum ≤ answer.2
  stop_le : answer.1 + answer.2 ≤ 2 ^ 64
  fresh : Disjoint (Set.Ico answer.1 (answer.1 + answer.2)) (cover regions)

section Answers

variable {ε : Type} {s : Heap ε} {bs : List Block} {regions : List Span} {n size : ℕ}
  {grow : HeapGrowFn ε}

/-- **`grow_heap` with an honest callback.**  What was asked for is found afterwards,
unless the answer is too small for `add_region`. -/
lemma growHeap_of_honours (h : Inv s bs regions) (hgrow : s.growCallback = some grow)
    (hn : heapAlignment ∣ n) (hroom : n + 56 < 2 ^ 64)
    (hanswer : Honours regions (growRequest n) (grow (growRequest n) s.world).1) :
    ((growHeap n s).1 = true ∧ findBlock n (growHeap n s).2 ≠ 0) ∧
        96 ≤ (grow (growRequest n) s.world).1.2 ∨
      (growHeap n s).1 = false ∧ ¬ 96 ≤ (grow (growRequest n) s.world).1.2 := by
  have hsmall : ¬ uint64Max - n < heapBlock.size + heapCanaryBytes := by
    simp only [uint64Max, Block.size_eq, heapCanaryBytes]
    omega
  rw [growHeap_eq hgrow]
  simp only [if_neg hsmall]
  rw [growRequest] at hanswer ⊢
  generalize grow (heapBlock.size + n + heapCanaryBytes) s.world = r at hanswer ⊢
  obtain ⟨⟨memory, actual⟩, w⟩ := r
  obtain ⟨hne, haligned, henough, hstop, hfresh⟩ := hanswer
  simp only at hne haligned henough hstop hfresh ⊢
  have haccept := acceptedRegion_of_aligned hne haligned actual
  rw [if_neg hne]
  by_cases hlarge : 96 ≤ actual
  · rw [if_pos hlarge] at haccept
    have hanswer : Fresh regions (memory, actual) := .inr ⟨hstop, hfresh⟩
    obtain ⟨htrue, bs', hinv, -, ⟨b, hb, hfits⟩, -⟩ :=
      addRegion_inv (h.with_world w) hstop haccept (hanswer.disjoint haccept).2
    -- `n` and the header are multiples of 16, so the rounding cannot cut into them
    obtain ⟨hfree, hcap⟩ := Block.fits_iff.mp hfits
    simp only [Span.length, Block.size_eq, heapCanaryBytes, heapAlignment] at hcap henough hn
    exact .inl ⟨⟨htrue, hinv.findBlock_ne_zero_iff.mpr ⟨b, hb, hfree, by omega⟩⟩, hlarge⟩
  · rw [if_neg hlarge] at haccept
    refine .inr ⟨?_, hlarge⟩
    rw [addRegion_eq hstop, haccept]

/-- Requests a little below the largest word are not refused. -/
lemma exists_neededCapacity (hpos : 0 < size) (hle : size ≤ uint64Max - 256) :
    ∃ n, neededCapacity size = some n := by
  refine Option.ne_none_iff_exists'.mp ?_
  rw [neededCapacity, if_neg hpos.ne',
    if_neg (by simp only [uint64Max, heapCanaryBytes] at *; omega), alignUpSize]
  split
  · simp
  · simp only
    rw [if_neg (by simp only [uint64Max, heapCanaryBytes, heapAlignment] at *; omega)]
    simp

/-- `kmalloc` answers with memory when it finds a block, before or after growing. -/
lemma Inv.kmalloc_ne_zero_iff (h : Inv s bs regions) (hgrow : s.growCallback = some grow)
    (hneed : neededCapacity size = some n) (hroom : n + 56 < 2 ^ 64)
    (hanswer : Honours regions (growRequest n) (grow (growRequest n) s.world).1) :
    (kmalloc size s).1 ≠ 0 ↔ findBlock n s ≠ 0 ∨ 96 ≤ (grow (growRequest n) s.world).1.2 := by
  have htake : ∀ b (t : Heap ε), (takeBlock b size n t).1 ≠ 0 := fun b t => by simp [takeBlock]
  rw [kmalloc_eq h.initialised hneed]
  by_cases hfound : findBlock n s ≠ 0
  · rw [if_pos hfound]
    exact iff_of_true (htake _ _) (.inl hfound)
  · rw [if_neg hfound]
    obtain ⟨-, -, -, hdvd, -⟩ := neededCapacity_eq_some hneed
    rcases growHeap_of_honours h hgrow hdvd hroom hanswer with ⟨⟨htrue, hne⟩, hlarge⟩ |
      ⟨hfalse, hsmall⟩
    · rw [if_neg (by simp [htrue]), if_neg hne]
      exact iff_of_true (htake _ _) (.inr hlarge)
    · rw [if_pos hfalse]
      exact iff_of_false (fun hne => hne rfl) (not_or.mpr ⟨hfound, hsmall⟩)

end Answers

/-- **When `kmalloc` succeeds.**  In every state reached, for a request that is not
refused and a callback that honours its contract for it, `kmalloc` answers with memory
exactly when a free block is large enough or the callback gives at least 96 bytes,
which it must for requests of 25 bytes or more. -/
theorem kmalloc_succeeds_iff {ε : Type} (grow : HeapGrowFn ε) (w : ε)
    (s : Heap (ε × List (ℕ × ℕ))) (calls : List Call)
    (hlegal : Runs.Legal Session.step (Session.Legal grow) (Session.start grow w s) calls)
    (size : ℕ) (hpos : 0 < size) (hle : size ≤ uint64Max - 256) :
    let t := Runs.final Session.step (Session.start grow w s) calls
    ∃ (bs : List Block) (n : ℕ), Holds t.heap.mem t.heap.blocks bs ∧
      neededCapacity size = some n ∧
      (Honours t.regions (growRequest n) (grow (growRequest n) t.heap.world.1).1 →
        ((t.heap.kmalloc size).1 ≠ 0 ↔ (∃ b ∈ bs, b.free ∧ n ≤ b.capacity) ∨
          96 ≤ (grow (growRequest n) t.heap.world.1).1.2) ∧
        (25 ≤ size → (t.heap.kmalloc size).1 ≠ 0)) := by
  obtain ⟨bs, hgood⟩ := (Session.start_good w s).run hlegal
  obtain ⟨n, hneed⟩ := exists_neededCapacity hpos hle
  obtain ⟨-, hlow, hhigh, hdvd, -⟩ := neededCapacity_eq_some hneed
  have hroom : n + 56 < 2 ^ 64 := by
    simp only [uint64Max, heapCanaryBytes, heapAlignment] at *
    omega
  refine ⟨bs, n, hgood.inv.holds, hneed, fun hanswer => ?_⟩
  have hiff := hgood.inv.kmalloc_ne_zero_iff hgood.callback hneed hroom hanswer
  rw [hgood.inv.findBlock_ne_zero_iff] at hiff
  refine ⟨hiff, fun hsize => hiff.mpr (Or.inr ?_)⟩
  have henough := hanswer.enough
  simp only [growRequest, Block.size_eq, heapCanaryBytes, heapAlignment] at *
  exact le_trans (by omega) henough

/-- A callback that gives what it is asked for, and no byte more. -/
def exactly : HeapGrowFn ℕ := fun minimum e => ((65536, minimum), e + 1)

lemma exactly_honours {k : ℕ} (h : k ≤ 4096) (e : ℕ) : Honours [] k (exactly k e).1 where
  nonnull := by simp [exactly]
  aligned := ⟨4096, rfl⟩
  enough := le_refl k
  stop_le := by
    simp only [exactly]
    omega
  fresh := by simp

theorem kmalloc_succeeds_iff_exactly :
    ((Session.start exactly 0 blankHeap).heap.kmalloc 25).1 ≠ 0 := by
  obtain ⟨bs, n, -, hneed, hall⟩ :=
    kmalloc_succeeds_iff exactly 0 blankHeap [] trivial 25 (by decide) (by decide)
  have hcap : neededCapacity 25 = some 48 := by decide
  obtain rfl : n = 48 := Option.some.inj (hneed.symm.trans hcap)
  exact (hall (exactly_honours (by decide) _)).2 (le_refl 25)

/-- The first request for up to 24 bytes fails although the callback gives what it is
asked for. -/
theorem kmalloc_fails_exactly :
    let t := Session.start exactly 0 blankHeap
    (∃ n, neededCapacity 24 = some n ∧
      Honours t.regions (growRequest n) (exactly (growRequest n) t.heap.world.1).1) ∧
    (t.heap.kmalloc 24).1 = 0 ∧ (t.heap.kmalloc 1).1 = 0 :=
  ⟨⟨32, by decide, exactly_honours (by decide) _⟩, by decide +kernel, by decide +kernel⟩

end JoshOS.Heap
