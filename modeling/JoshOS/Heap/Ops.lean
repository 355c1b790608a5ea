import JoshOS.Heap.Refine

/-!
The functions of `heap.c` on a memory that holds a list of blocks.

Each lemma gives the list that the memory holds afterwards and bounds the bytes
that were written.

* `splitBlock_holds`, `stampBlock_holds`, `poisonBlock_holds`: the edits behind
  `kmalloc` and `kfree`.
* `insertRegion_holds`: a new region is linked in at its place and coalesced.
-/

namespace JoshOS.Heap

open Memory RecordLayout Heap.Block List Links Words Spans

variable {m m' : Memory} {head : ℕ} {bs l l₁ l₂ : List Block} {a b c : Block} {x y z n size : ℕ}

/-! ### `split_block` -/

/-- The part that `split_block` cuts off. -/
def Block.tail (n : ℕ) (a : Block) : Block :=
  { addr := payload a.addr + n, capacity := a.capacity - n - heapBlock.size, requested := 0,
    free := true }

lemma Block.split_of_splits (h : a.Splits n) :
    a.split n = [{ a with capacity := n }, a.tail n] := by
  simp [split, front, rest, if_pos h, tail]

lemma Block.split_of_not_splits (h : ¬ a.Splits n) : a.split n = [a] := by
  simp [split, front, rest, if_neg h]

/-- What `split_block` stores when it cuts a block in two. -/
def splitStores (n : ℕ) (a : Block) (z : ℕ) : List (ℕ × HeapField × ℕ) :=
  let t := (a.tail n).addr
  [(t, .magic, heapFreeMagic), (t, .capacity, (a.tail n).capacity), (t, .requested, 0),
    (t, .isFree, 1), (t, .reserved, 0), (t, .prev, a.addr), (t, .next, z), (z, .prev, t),
    (a.addr, .next, t), (a.addr, .capacity, n)]

section Split

variable (hord : Ordered (l₁ ++ a :: l₂))
  (hord' : Ordered (l₁ ++ { a with capacity := n } :: a.tail n :: l₂)) (hs : a.Splits n)

include hord hord' hs

lemma storeOk_split : ∀ e ∈ splitStores n a (first (nodes l₂) 0),
    StoreOk (l₁ ++ { a with capacity := n } :: a.tail n :: l₂) e := by
  set bs := l₁ ++ { a with capacity := n } :: a.tail n :: l₂ with hbs
  have ha : a.addr ∈ nodes bs := by simp [hbs]
  have ht : (a.tail n).addr ∈ nodes bs := by simp [hbs]
  have hz : first (nodes l₂) 0 ≠ 0 → first (nodes l₂) 0 ∈ nodes bs := by
    simpa [hbs] using first_link (l₁ ++ [{ a with capacity := n }, a.tail n]) l₂
  have hn64 : n < 2 ^ 64 ∧ (a.tail n).capacity < 2 ^ 64 := by
    have hstop := (hord.block a (by simp)).stop_le
    have hroom : 80 ≤ a.capacity - n := hs
    rw [stop_eq] at hstop
    simp only [Block.tail, Block.size_eq]
    omega
  simp only [splitStores, forall_mem_cons]
  exact ⟨storeOk_const ht (by decide), storeOk_capacity ht hn64.2, storeOk_const ht (by decide),
    storeOk_const ht (by decide), storeOk_const ht (by decide),
    hord'.storeOk_link (fun _ => ht) rfl fun _ => ha, hord'.storeOk_link (fun _ => ht) rfl hz,
    hord'.storeOk_link hz rfl fun _ => ht, hord'.storeOk_link (fun _ => ha) rfl fun _ => ht,
    storeOk_capacity ha hn64.1, forall_mem_nil _⟩

lemma splitBlock_eq (h : Holds m head (l₁ ++ a :: l₂)) :
    splitBlock a.addr n m = heapBlock.setAll m (splitStores n a (first (nodes l₂) 0)) := by
  have hroom : 80 ≤ a.capacity - n := hs
  have ha := h.header a (by simp)
  have ha0 : a.addr ≠ 0 := (hord.addr_pos (by simp)).ne'
  have hz : first (nodes l₂) 0 < 2 ^ 64 := hord.link_lt (by simpa using first_link (l₁ ++ [a]) l₂)
  have htail : payload a.addr + n = (a.tail n).addr := rfl
  have ht0 : (a.tail n).addr ≠ 0 := (hord'.addr_pos (by simp)).ne'
  have hapart : heapBlock.Apart (a.tail n).addr a.addr :=
    (hord'.apart (x := (a.tail n).addr) (y := a.addr) (by simp) (by simp)).resolve_left (by
      simp only [Block.tail, Block.payload_eq]
      omega)
  have hself : ∀ m', heapBlock.get (heapBlock.set m' (a.tail n).addr .next (first (nodes l₂) 0))
      (a.tail n).addr .next = first (nodes l₂) 0 := fun m' => by
    rw [get_set (.inl rfl) hz, if_pos ⟨rfl, rfl⟩]
  have hcond : ¬ (a.addr = 0 ∨ a.capacity ≤ n) := by omega
  have hcond' : ¬ a.capacity - n < heapBlock.size + heapMinSplit := by
    simp only [size_eq, heapMinSplit]
    omega
  have hcap : a.capacity - n - heapBlock.size = (a.tail n).capacity := rfl
  rw [splitBlock]
  simp only [ha.capacity, if_neg hcond, if_neg hcond', htail, hcap,
    get_set_of_apart hapart, h.next_eq, hself, splitStores, setAll,
    foldl, if_neg ha0, if_neg ht0, ite_not]

end Split

/-- `split_block` leaves a block alone that is not worth splitting. -/
lemma splitBlock_eq_self (h : Holds m head (l₁ ++ a :: l₂)) (hs : ¬ a.Splits n) :
    splitBlock a.addr n m = m := by
  have hroom : ¬ 80 ≤ a.capacity - n := hs
  rw [splitBlock, (h.header a (by simp)).capacity]
  split
  · rfl
  · exact if_pos (not_le.mp hroom)

/-- `split_block` leaves no mark of an allocation behind. -/
lemma splitBlock_quiet (hord : Ordered (l₁ ++ a :: l₂)) (h : Holds m head (l₁ ++ a :: l₂))
    (hn : heapAlignment ∣ n) (hle : n ≤ a.capacity) (hfree : a.free) :
    Quiet m (splitBlock a.addr n m) := by
  by_cases hs : a.Splits n
  · have hord' := hord.split hn hle hfree
    rw [split_of_splits hs, append_assoc] at hord'
    rw [splitBlock_eq hord hord' hs h]
    exact hord'.quiet_setAll (storeOk_split hord hord' hs)
  · rw [splitBlock_eq_self h hs]
    exact Quiet.refl m

/-- The header of a block lies in its bytes. -/
lemma Block.header_subset (a : Block) :
    Set.Ico a.addr (a.addr + heapBlock.size) ⊆ a.span.points := by
  intro x hx
  have := a.addr_le_stop
  simp only [size_eq, Set.mem_Ico] at hx
  simp only [span, Span.mem_points]
  omega

/-- A free block may be cut down in place. -/
lemma Holds.shrink (hord : Ordered (l₁ ++ a :: l₂)) (h : Holds m head (l₁ ++ a :: l₂))
    (hle : n ≤ a.capacity) (hfree : a.free) :
    ∃ m', Holds m' head (l₁ ++ { a with capacity := n } :: l₂) ∧
      Set.EqOn m' m (held (l₁ ++ a :: l₂))ᶜ ∧ ∀ x ∈ nodes (l₁ ++ a :: l₂), ∀ g,
        heapBlock.get m' x g = if x = a.addr ∧ g = .capacity then n else heapBlock.get m x g := by
  have hn64 : n < 2 ^ 64 := by
    have hstop := (hord.block a (by simp)).stop_le
    rw [stop_eq] at hstop
    omega
  have ha : a.addr ∈ nodes (l₁ ++ a :: l₂) := by simp
  have hok : ∀ e ∈ [(a.addr, HeapField.capacity, n)], StoreOk (l₁ ++ a :: l₂) e :=
    forall_mem_singleton.mpr (storeOk_capacity ha hn64)
  have hget := fun x hx => hord.get_setAll (m := m) hok (x := x) hx
  have hself : ∀ g, _ = if g = .capacity then n else heapBlock.get m a.addr g := fun g => by
    simpa using hget a.addr ha g
  obtain ⟨hmagic, hcap, hreq, hflag⟩ := h.header a (by simp)
  refine ⟨_, h.retag hord (setAll_eqOn ?_) rfl (hself _) (hself _)
    ⟨(hself _).trans hmagic, hself _, (hself _).trans hreq, (hself _).trans hflag⟩
    fun hused => absurd hfree hused, setAll_eqOn_held hok, hget⟩
  simpa using fun _ => a.header_subset

/-- `split_block` cuts the block down to the capacity that is used and links what
is left behind it. -/
lemma splitBlock_holds (hord : Ordered (l₁ ++ a :: l₂)) (h : Holds m head (l₁ ++ a :: l₂))
    (hn : heapAlignment ∣ n) (hle : n ≤ a.capacity) (hfree : a.free) :
    Holds (splitBlock a.addr n m) head (l₁ ++ a.split n ++ l₂) ∧
      Set.EqOn (splitBlock a.addr n m) m (held (l₁ ++ a :: l₂))ᶜ := by
  by_cases hs : a.Splits n
  case neg =>
    rw [splitBlock_eq_self h hs, split_of_not_splits hs]
    exact ⟨by simpa using h, Set.eqOn_refl _ _⟩
  have hord' := hord.split hn hle hfree
  have hheld := ((split_refits hle hfree).within l₁ l₂).held_eq
  rw [split_of_splits hs] at hord' hheld ⊢
  simp only [append_assoc, cons_append, nil_append] at hord' hheld ⊢
  have hok := storeOk_split hord hord' hs
  rw [splitBlock_eq hord hord' hs h]
  have heq := setAll_eqOn_held (m := m) hok
  rw [hheld] at heq
  refine ⟨?_, heq⟩
  -- first shrink the block in place, then link the tail in behind it
  obtain ⟨m₀, hshrunk, heq₀, hget₀⟩ := h.shrink hord hle hfree
  set front : Block := { a with capacity := n } with hfront
  have hsplit : l₁ ++ front :: a.tail n :: l₂ = (l₁ ++ [front]) ++ a.tail n :: l₂ := by simp
  have hhead : head = first (nodes ((l₁ ++ [front]) ++ a.tail n :: l₂)) 0 := by
    rw [h.head_eq]
    simp [first_append, hfront]
  have hne : (a.tail n).addr ≠ a.addr := by
    simp only [Block.tail, Block.payload_eq]
    omega
  have ht0 : (a.tail n).addr ≠ 0 := (hord'.addr_pos (by simp)).ne'
  have hget := fun x (hx : x ∈ nodes ((l₁ ++ [front]) ++ a.tail n :: l₂)) =>
    hord'.get_setAll (m := m) hok (x := x) (by simpa using hx)
  rw [hsplit] at hord' ⊢
  have hnz : (a.tail n).addr ≠ first (nodes l₂) 0 := fun heq =>
    hord'.fresh.1 (heq ▸ first_link _ l₂ (heq ▸ ht0))
  have hfree' : (a.tail n).free = true := rfl
  have hreq : (a.tail n).requested = 0 := rfl
  rw [show l₁ ++ front :: l₂ = (l₁ ++ [front]) ++ l₂ by simp] at hshrunk
  rw [hhead]
  refine hshrunk.link hord' ?_ (fun x hx hxt g => ?_) ?_ ?_ ⟨?_, ?_, ?_, ?_⟩ rfl
  · rw [← hsplit, hheld]
    exact heq.trans heq₀.symm
  · rw [hget x (by simp at hx ⊢; tauto), hget₀ x (by simpa [hfront] using hx)]
    by_cases hxa : x = a.addr
    · cases g <;> simp [splitStores, hxa, hne.symm, hfront]
    · simp [splitStores, hxt, hxa, hfront]
  all_goals
    rw [hget (a.tail n).addr (by simp)]
    simp [splitStores, hne, hnz, hfree', hreq, hfront]

/-! ### Handing out and taking back one block -/

/-- Filling a payload touches no byte outside it. -/
lemma fill_eqOn (m : Memory) (a : Block) (v : UInt8) :
    Set.EqOn (fill m (payload a.addr) a.capacity v) m
      (Set.Ico (payload a.addr) a.stop)ᶜ := by
  intro x hx
  refine fill_apply_of_notMem ?_
  simp only [Set.mem_compl_iff, Set.mem_Ico, not_and_or, not_le, not_lt] at hx
  exact hx

/-- Bytes behind the header do not matter to it. -/
lemma get_congr_payload (heq : Set.EqOn m' m (Set.Ico (payload a.addr) a.stop)ᶜ) :
    heapBlock.get m' a.addr = heapBlock.get m a.addr :=
  get_congr fun x _ hlt => heq fun hx => by
    simp only [size_eq] at hlt
    simp only [payload_eq, Set.mem_Ico] at hx
    omega

lemma Block.payload_subset (a : Block) : Set.Ico (payload a.addr) a.stop ⊆ a.span.points := by
  intro x hx
  simp only [payload_eq, Set.mem_Ico] at hx
  simp only [span, Span.mem_points]
  omega

lemma Block.canary_lt (hord : Ordered bs) (ha : a ∈ bs) : a.canary < 2 ^ 64 := by
  have hwf := hord.block a ha
  have hstop := hwf.stop_le
  rw [stop_eq] at hstop
  have hreq : a.requested < 2 ^ 64 := by
    by_cases hfree : a.free
    · rw [hwf.requested_free hfree]
      norm_num
    · have := (hwf.requested_used hfree).2
      omega
  exact Nat.xor_lt_two_pow (Nat.xor_lt_two_pow (by norm_num [heapCanarySeed]) (by omega)) hreq

/-- The bytes of a block in the list belong to the heap while it is free. -/
lemma span_subset_held (ha : a ∈ bs) (hfree : a.free) : a.span.points ⊆ held bs := by
  intro x hx
  refine mem_held.mpr ⟨a, ha, hx.1, ?_⟩
  simp only [Block.held, hfree, if_true]
  exact hx.2

/-- Storing in the header of a block, seen from that header. -/
lemma Ordered.get_setAll_self (hord : Ordered bs) (ha : a ∈ bs) (es : List (HeapField × ℕ))
    (hv : ∀ e ∈ es, e.2 < 256 ^ heapBlock.width e.1) (g : HeapField) :
    heapBlock.get (heapBlock.setAll m (es.map (a.addr, ·))) a.addr g =
      es.foldl (fun v e => if g = e.1 then e.2 else v) (heapBlock.get m a.addr g) := by
  rw [RecordLayout.get_setAll (hord.block a ha).addr_pos.ne'
    (forall_mem_map.mpr fun _ _ _ => .inl rfl) (forall_mem_map.mpr hv), foldl_map]
  simp

lemma setAll_self_eqOn (es : List (HeapField × ℕ)) :
    Set.EqOn (heapBlock.setAll m (es.map (a.addr, ·))) m a.span.points ᶜ :=
  setAll_eqOn (forall_mem_map.mpr fun _ _ _ => a.header_subset)

/-- A block that was found and cut down becomes an allocation. -/
lemma stampBlock_holds (hord : Ordered (l₁ ++ a :: l₂)) (h : Holds m head (l₁ ++ a :: l₂))
    (hord' : Ordered (l₁ ++ a.use size :: l₂)) :
    Holds (stampBlock a.addr size m) head (l₁ ++ a.use size :: l₂) ∧
      Set.EqOn (stampBlock a.addr size m) m a.span.points ᶜ := by
  have ha0 : a.addr ≠ 0 := (hord.addr_pos (by simp)).ne'
  have hwf := hord'.block (a.use size) (by simp)
  have hroom : size + 8 ≤ a.capacity := (hwf.requested_used (by simp)).2
  have hstop := hwf.stop_le
  rw [stop_eq] at hstop
  simp only [addr_use, capacity_use] at hstop
  have hcanary : (a.use size).canary < 2 ^ 64 := canary_lt hord' (by simp)
  have hsize : size < 2 ^ 64 := by omega
  -- the header is written first
  set m₁ := heapBlock.setAll m ([(.magic, heapAllocMagic), (.requested, size),
    (HeapField.isFree, 0)].map (a.addr, ·)) with hm₁
  have hget₁ := hord.get_setAll_self (m := m) (a := a) (by simp)
    [(.magic, heapAllocMagic), (.requested, size), (.isFree, 0)]
    (by simp only [forall_mem_cons]; exact ⟨by decide, hsize, by decide⟩)
  -- then the payload
  have hcap : heapBlock.get m₁ a.addr .capacity = a.capacity :=
    (hget₁ _).trans (h.header a (by simp)).capacity
  set m₂ := fill m₁ (payload a.addr) a.capacity 0xcd with hm₂
  have hget₂ : heapBlock.get m₂ a.addr = heapBlock.get m₁ a.addr :=
    get_congr_payload (fill_eqOn m₁ a 0xcd)
  have hstamp : stampBlock a.addr size m =
      write64 m₂ (payload a.addr + size) (a.use size).canary := by
    have hvalue : blockCanary m₂ a.addr = (a.use size).canary := by
      rw [blockCanary, hget₂, hget₁]
      rfl
    have hm₁' : heapBlock.set (heapBlock.set (heapBlock.set m a.addr .magic heapAllocMagic)
        a.addr .requested size) a.addr .isFree 0 = m₁ := by
      simp [hm₁, setAll, ha0]
    rw [stampBlock]
    simp only [hm₁', hcap, ← hm₂, hvalue]
  have heq₃ : Set.EqOn (stampBlock a.addr size m) m₂ (Set.Ico (payload a.addr) a.stop)ᶜ := by
    intro x hx
    rw [hstamp]
    refine write64_apply_of_notMem ?_
    simp only [stop, Set.mem_compl_iff, Set.mem_Ico, not_and_or, not_le, not_lt] at hx
    omega
  have hget : heapBlock.get (stampBlock a.addr size m) a.addr = heapBlock.get m₁ a.addr :=
    (get_congr_payload heq₃).trans hget₂
  have hcompl := Set.compl_subset_compl.mpr a.payload_subset
  have heq : Set.EqOn (stampBlock a.addr size m) m a.span.points ᶜ :=
    (heq₃.mono hcompl).trans (((fill_eqOn m₁ a 0xcd).mono hcompl).trans (setAll_self_eqOn _))
  rw [funext hget₁] at hget
  refine ⟨h.retag hord heq rfl (congrFun hget _) (congrFun hget _) ⟨congrFun hget _,
    (congrFun hget _).trans (h.header a (by simp)).capacity, congrFun hget _, congrFun hget _⟩
    fun _ => ?_, heq⟩
  rw [addr_use, hstamp]
  exact (read64_write64 _ _ _).trans (Nat.mod_eq_of_lt hcanary)

/-- A block that is taken back is free again. -/
lemma poisonBlock_holds (hord : Ordered (l₁ ++ a :: l₂)) (h : Holds m head (l₁ ++ a :: l₂)) :
    Holds (poisonBlock a.addr m) head (l₁ ++ a.release :: l₂) ∧
      Set.EqOn (poisonBlock a.addr m) m a.span.points ᶜ := by
  have hcap := (h.header a (by simp)).capacity
  have ha0 : a.addr ≠ 0 := (hord.addr_pos (by simp)).ne'
  set m₁ := fill m (payload a.addr) a.capacity 0xdd with hm₁
  have hpoison : poisonBlock a.addr m = heapBlock.setAll m₁
      ([(.magic, heapFreeMagic), (.requested, 0), (HeapField.isFree, 1)].map (a.addr, ·)) := by
    simp [poisonBlock, setAll, hcap, hm₁, ha0]
  have hget := hord.get_setAll_self (m := m₁) (a := a) (by simp)
    [(.magic, heapFreeMagic), (.requested, 0), (.isFree, 1)] (by decide)
  rw [get_congr_payload (fill_eqOn m a 0xdd), ← hpoison] at hget
  have heq : Set.EqOn (poisonBlock a.addr m) m a.span.points ᶜ := by
    rw [hpoison]
    exact (setAll_self_eqOn _).trans
      ((fill_eqOn m a 0xdd).mono (Set.compl_subset_compl.mpr a.payload_subset))
  exact ⟨h.retag hord heq rfl (hget _) (hget _)
    ⟨hget _, (hget _).trans hcap, hget _, hget _⟩ fun hused => absurd rfl hused, heq⟩

/-! ### `insert_region` -/

/-- What `insert_region` stores to link the block `c` in between `p` and `z`. -/
def linkStores (c p z : ℕ) : List (ℕ × HeapField × ℕ) :=
  [(c, .prev, p), (c, .next, z), (p, .next, c), (z, .prev, c)]

lemma linkIn_eq (hx : x ≠ 0) (m : Memory) :
    linkIn x y z m = heapBlock.setAll m (linkStores x y z) := by
  simp [linkIn, linkStores, setAll, hx]

/-- Linking a new block in between two parts of the list. -/
lemma linkIn_holds (hord : Ordered (l₁ ++ c :: l₂)) (h : Holds m head (l₁ ++ l₂))
    (hheader : Header m c) (hfree : c.free) :
    Holds (linkIn c.addr (last 0 (nodes l₁)) (first (nodes l₂) 0) m)
        (first (nodes (l₁ ++ c :: l₂)) 0) (l₁ ++ c :: l₂) ∧
      Set.EqOn (linkIn c.addr (last 0 (nodes l₁)) (first (nodes l₂) 0) m) m
        (held (l₁ ++ c :: l₂))ᶜ ∧
      Quiet m (linkIn c.addr (last 0 (nodes l₁)) (first (nodes l₂) 0) m) := by
  have hc : c.addr ∈ nodes (l₁ ++ c :: l₂) := by simp
  have hc0 : c.addr ≠ 0 := (hord.addr_pos hc).ne'
  have hp := last_link l₁ (c :: l₂)
  have hz : first (nodes l₂) 0 ≠ 0 → first (nodes l₂) 0 ∈ nodes (l₁ ++ c :: l₂) := by
    simpa using first_link (l₁ ++ [c]) l₂
  have hcp : c.addr ≠ last 0 (nodes l₁) := fun heq =>
    hord.fresh.1 (heq ▸ last_link l₁ l₂ (heq ▸ hc0))
  have hcz : c.addr ≠ first (nodes l₂) 0 := fun heq =>
    hord.fresh.1 (heq ▸ first_link l₁ l₂ (heq ▸ hc0))
  rw [linkIn_eq hc0]
  have hok : ∀ e ∈ linkStores c.addr (last 0 (nodes l₁)) (first (nodes l₂) 0),
      StoreOk (l₁ ++ c :: l₂) e := by
    simp only [linkStores, forall_mem_cons]
    exact ⟨hord.storeOk_link (fun _ => hc) rfl hp, hord.storeOk_link (fun _ => hc) rfl hz,
      hord.storeOk_link hp rfl fun _ => hc, hord.storeOk_link hz rfl fun _ => hc,
      forall_mem_nil _⟩
  have hget := fun x hx => hord.get_setAll (m := m) hok (x := x) hx
  have heq := setAll_eqOn_held (m := m) hok
  refine ⟨h.link hord heq (fun x hx hxc g => ?_) ?_ ?_ (hheader.congr fun g hn hp => ?_) hfree,
    heq, hord.quiet_setAll hok⟩
  · rw [hget x (by simp at hx ⊢; tauto)]
    cases g <;> simp [linkStores, hxc]
  all_goals
    rw [hget c.addr hc]
    simp [linkStores, *]

/-- **`insert_region`.**  A new free block is linked in at its place in address
order and coalesced with its neighbours. -/
theorem insertRegion_holds {ε : Type} {s : Heap ε} (hord : Ordered bs)
    (h : Holds s.mem s.blocks bs) (hc : c.WellFormed) (hfree : c.free)
    (hdisj : Disjoint c.span.points (cover (spans bs))) (hheader : Header s.mem c)
    (hnext : heapBlock.get s.mem c.addr .next = 0) (hprev : heapBlock.get s.mem c.addr .prev = 0) :
    ∃ m' head', insertRegion c.addr s = { s with mem := m', blocks := head' } ∧
      Holds m' head' (insertBlock c bs) ∧
      Set.EqOn m' s.mem (held bs ∪ c.span.points)ᶜ ∧ Quiet s.mem m' := by
  have hord' := hord.insert hc hdisj
  cases bs with
  | nil =>
    have hblocks : s.blocks = 0 := h.head_eq
    refine ⟨s.mem, c.addr, by rw [insertRegion, if_pos hblocks], ?_, Set.eqOn_refl _ _,
      Quiet.refl _⟩
    refine ⟨rfl, ⟨hprev, hnext, trivial⟩, fun b hb => ?_, fun b hb hused => ?_⟩
    · obtain rfl : b = c := by simpa [insertBlock, coalesce, before, behind, mergeHead] using hb
      exact hheader
    · obtain rfl : b = c := by simpa [insertBlock, coalesce, before, behind, mergeHead] using hb
      exact absurd hfree hused
  | cons d l =>
    have hblocks : s.blocks ≠ 0 := by
      rw [h.head_eq]
      exact (hord.addr_pos (by simp)).ne'
    have hpoint : insertionPoint s.mem c.addr heapWalkFuel 0 s.blocks =
        (last 0 (nodes (before c.addr (d :: l))), first (nodes (behind c.addr (d :: l))) 0) := by
      rw [h.head_eq]
      exact insertionPoint_eq h.chain h.header hord hord.length_le c.addr
    rw [← before_append_behind c.addr (d :: l)] at h
    obtain ⟨hlinked, heq, hquiet'⟩ := linkIn_holds hord' h hheader hfree
    obtain ⟨hmerged, heq'⟩ := mergeBoth_holds hord' hlinked
    have hquiet := mergeBoth_quiet hord' hlinked
    rw [← mergeInserted_eq hord' hlinked] at hmerged heq' hquiet
    have hhead : (if last 0 (nodes (before c.addr (d :: l))) ≠ 0 then s.blocks else c.addr) =
        first (nodes (before c.addr (d :: l) ++ c :: behind c.addr (d :: l))) 0 := by
      rw [h.head_eq]
      cases hb : before c.addr (d :: l) with
      | nil => simp
      | cons e l' =>
        have hlast : last 0 (nodes (e :: l')) ∈ nodes (d :: l) := by
          rw [← before_append_behind c.addr (d :: l), hb, nodes_append]
          exact mem_append_left _ (last_mem (by simp))
        rw [if_pos (hord.addr_pos hlast).ne']
        simp
    rw [← hhead] at hmerged
    have hheld : held (before c.addr (d :: l) ++ c :: behind c.addr (d :: l)) ⊆
        held (d :: l) ∪ c.span.points := by
      rw [held_middle, before_append_behind]
      exact Set.union_subset_union_right _ c.held_subset
    refine ⟨_, _, ?_, hmerged, (heq'.trans heq).mono (Set.compl_subset_compl.mpr hheld),
      hquiet'.trans hquiet⟩
    rw [insertRegion, if_neg hblocks]
    simp only [hpoint]

/-! ### `add_region` -/

/-- The part of a piece of memory that the heap accepts as a region: what is left
between the first and the last aligned address, if it has room for more than a
header and the smallest split. -/
def acceptedRegion (memory bytes : ℕ) : Option Span :=
  let start := (memory + (heapAlignment - 1)) / heapAlignment * heapAlignment
  let stop := (memory + bytes) / heapAlignment * heapAlignment
  if memory ≠ 0 ∧ start + (heapBlock.size + heapMinSplit) < stop then some ⟨start, stop⟩ else none

/-- The free block that fills a region. -/
def regionBlock (r : Span) : Block :=
  { addr := r.start, capacity := r.length - heapBlock.size, requested := 0, free := true }

lemma acceptedRegion_eq_some {memory bytes : ℕ} {r : Span}
    (h : acceptedRegion memory bytes = some r) :
    memory ≠ 0 ∧ memory ≤ r.start ∧ r.stop ≤ memory + bytes ∧ 80 < r.length ∧
      heapAlignment ∣ r.start ∧ heapAlignment ∣ r.stop := by
  rw [acceptedRegion] at h
  split at h
  case isTrue hroom =>
    obtain rfl := Option.some.inj h
    simp only [size_eq, heapMinSplit, heapAlignment, Span.length] at hroom ⊢
    refine ⟨hroom.1, by omega, by omega, by omega, ⟨_, Nat.mul_comm _ _⟩, ⟨_, Nat.mul_comm _ _⟩⟩
  case isFalse => simp at h

/-- Aligned memory loses only its end to the rounding of `add_region`. -/
lemma acceptedRegion_of_aligned {memory : ℕ} (hne : memory ≠ 0) (hdvd : heapAlignment ∣ memory)
    (bytes : ℕ) :
    acceptedRegion memory bytes =
      if 96 ≤ bytes then some ⟨memory, memory + bytes / heapAlignment * heapAlignment⟩
      else none := by
  have hal : heapAlignment = 16 := rfl
  have hsize : heapBlock.size + heapMinSplit = 80 := rfl
  rw [hal] at hdvd
  have hstart : (memory + (16 - 1)) / 16 * 16 = memory := by omega
  have hstop : (memory + bytes) / 16 * 16 = memory + bytes / 16 * 16 := by omega
  rw [acceptedRegion]
  simp only [hal, hsize, hstart, hstop]
  refine if_congr ⟨fun h => ?_, fun h => ⟨hne, ?_⟩⟩ rfl rfl
  · have hroom := h.2
    omega
  · omega

lemma regionBlock_wellFormed {memory bytes : ℕ} {r : Span}
    (h : acceptedRegion memory bytes = some r) (hend : memory + bytes ≤ 2 ^ 64) :
    (regionBlock r).WellFormed ∧ (regionBlock r).span = r := by
  obtain ⟨hne, hstart, hstop, hroom, hdvd, hdvd'⟩ := acceptedRegion_eq_some h
  have hlen : r.start + r.length = r.stop := by
    simp only [Span.length] at hroom ⊢
    omega
  have hspan : (regionBlock r).stop = r.stop := by
    simp only [regionBlock, stop_eq, size_eq]
    omega
  refine ⟨⟨?_, hdvd, ?_, by omega, fun _ => rfl, fun hused => absurd rfl hused⟩, ?_⟩
  · simp only [regionBlock]
    omega
  · exact Nat.dvd_sub (Nat.dvd_sub hdvd' hdvd) ⟨3, rfl⟩
  · rw [Block.span, hspan]
    rfl

/-- `add_region` on memory inside the address space: the three size checks and
the rounding amount to `acceptedRegion`. -/
lemma addRegion_eq {ε : Type} {memory bytes : ℕ} (hend : memory + bytes ≤ 2 ^ 64) (s : Heap ε) :
    addRegion memory bytes s =
      match acceptedRegion memory bytes with
      | none => (false, s)
      | some r => (true, registerRegion r.start r.length s) := by
  have hroom_eq : heapBlock.size + heapMinSplit = 80 := rfl
  by_cases hsmall : memory = 0 ∨ bytes ≤ 80
  · have hno : ¬ (memory ≠ 0 ∧ (memory + 15) / 16 * 16 + 80 < (memory + bytes) / 16 * 16) := by
      omega
    have hnone : acceptedRegion memory bytes = none := if_neg hno
    rw [addRegion, hroom_eq, if_pos hsmall, hnone]
  · have haligned : alignUpPtr memory heapAlignment = (memory + 15) / 16 * 16 := by
      simp only [alignUpPtr, heapAlignment, alignDown, wrap64]
      omega
    have hskipped : wrap64 ((memory + 15) / 16 * 16 + 2 ^ 64 - memory) =
        (memory + 15) / 16 * 16 - memory := by
      rw [wrap64]
      omega
    have hbytes : alignDown (bytes - ((memory + 15) / 16 * 16 - memory)) heapAlignment =
        (memory + bytes) / 16 * 16 - (memory + 15) / 16 * 16 := by
      simp only [alignDown, heapAlignment]
      omega
    have hfit : ¬ bytes ≤ (memory + 15) / 16 * 16 - memory := by omega
    rw [addRegion, hroom_eq, if_neg hsmall]
    simp only [haligned, hskipped, if_neg hfit, hbytes]
    by_cases hroom : (memory + bytes) / 16 * 16 - (memory + 15) / 16 * 16 ≤ 80
    · have hno : ¬ (memory ≠ 0 ∧ (memory + 15) / 16 * 16 + 80 < (memory + bytes) / 16 * 16) := by
        omega
      have hnone : acceptedRegion memory bytes = none := if_neg hno
      rw [hnone]
      exact if_pos hroom
    · have hyes : memory ≠ 0 ∧ (memory + 15) / 16 * 16 + 80 < (memory + bytes) / 16 * 16 := by
        omega
      have hsome : acceptedRegion memory bytes =
          some ⟨(memory + 15) / 16 * 16, (memory + bytes) / 16 * 16⟩ := if_pos hyes
      rw [hsome]
      exact if_neg hroom

/-- The fields of the header of a new region. -/
def regionFields (bytes : ℕ) : List (HeapField × ℕ) :=
  [(.magic, heapFreeMagic), (.capacity, bytes - heapBlock.size), (.requested, 0), (.next, 0),
    (.prev, 0), (.isFree, 1), (.reserved, 0)]

lemma regionHeader_eq (hx : x ≠ 0) (bytes : ℕ) (m : Memory) :
    regionHeader x bytes m = heapBlock.setAll m ((regionFields bytes).map (x, ·)) := by
  simp [regionHeader, regionFields, setAll, hx]

/-- The list does not notice writes outside its blocks. -/
lemma Holds.congr_of_eqOn (hord : Ordered bs) (h : Holds m head bs)
    (heq : Set.EqOn m' m (cover (spans bs))) : Holds m' head bs := by
  refine h.congr (fun x hx => ?_) fun b hb hused => ?_
  · refine get_congr fun y hle hlt => heq (held_subset_cover ?_)
    exact Ordered.header_subset hx ⟨hle, hlt⟩
  · have hroom := ((hord.block b hb).requested_used hused).2
    refine read64_congr fun y hle hlt => heq (mem_cover_spans.mpr ⟨b, hb, ?_⟩)
    simp only [stop, payload_eq, heapCanaryBytes] at *
    omega

/-- **`add_region`.**  An accepted region that is disjoint from the heap becomes
a free block of it, coalesced with its neighbours. -/
theorem addRegion_holds {ε : Type} {memory bytes : ℕ} {s : Heap ε} {r : Span} (hord : Ordered bs)
    (h : Holds s.mem s.blocks bs) (hend : memory + bytes ≤ 2 ^ 64)
    (haccept : acceptedRegion memory bytes = some r)
    (hdisj : Disjoint r.points (cover (spans bs))) :
    ∃ m' head', addRegion memory bytes s = (true, { s with
        mem := m', blocks := head', totalRegionBytes := wrap64 (s.totalRegionBytes + r.length)
        regionCount := (s.regionCount + 1) % 2 ^ 32 }) ∧
      Holds m' head' (insertBlock (regionBlock r) bs) ∧
      Set.EqOn m' s.mem (held bs ∪ r.points)ᶜ ∧ Quiet s.mem m' := by
  obtain ⟨hwf, hspan⟩ := regionBlock_wellFormed haccept hend
  obtain ⟨hne, hstart, hstop, hroom, hdvd, -⟩ := acceptedRegion_eq_some haccept
  have hlen : r.length < 2 ^ 64 := by
    simp only [Span.length] at hroom ⊢
    omega
  have hord₁ : Ordered [regionBlock r] := ordered_singleton.mpr hwf
  have hstore := regionHeader_eq (x := r.start) hwf.addr_pos.ne' r.length s.mem
  have hget := hord₁.get_setAll_self (m := s.mem) (a := regionBlock r) (by simp)
    (regionFields r.length) (by
      simp only [regionFields, forall_mem_cons]
      exact ⟨by decide, lt_of_le_of_lt (Nat.sub_le _ _) hlen, by decide⟩)
  have heq := setAll_self_eqOn (m := s.mem) (a := regionBlock r) (regionFields r.length)
  have hquiet' : Quiet s.mem (regionHeader r.start r.length s.mem) := by
    rw [hstore]
    refine quiet_setAll (forall_mem_map.mpr fun _ _ => hdvd) ?_
    simpa [regionFields, Leading] using by decide
  simp only [regionBlock] at hget
  rw [hspan] at heq
  simp only [regionBlock, ← hstore] at hget heq
  -- the header lies outside the old list, which therefore is still there
  have hkept : Holds (regionHeader r.start r.length s.mem) s.blocks bs :=
    h.congr_of_eqOn hord (heq.mono hdisj.subset_compl_left)
  obtain ⟨m', head', hinsert, hholds, heq', hquiet⟩ := insertRegion_holds
    (s := { s with mem := regionHeader r.start r.length s.mem }) hord hkept hwf rfl
    (by rwa [hspan]) ⟨hget .magic, hget .capacity, hget .requested, hget .isFree⟩ (hget .next)
    (hget .prev)
  refine ⟨m', head', ?_, hholds, ?_, hquiet'.trans hquiet⟩
  · rw [addRegion_eq hend, haccept]
    have hblock : (regionBlock r).addr = r.start := rfl
    rw [hblock] at hinsert
    simp only [registerRegion, hinsert]
  · rw [hspan] at heq'
    exact heq'.trans (heq.mono (Set.compl_subset_compl.mpr Set.subset_union_right))

end JoshOS.Heap
