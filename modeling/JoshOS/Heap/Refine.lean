import JoshOS.Heap.Blocks
import JoshOS.Lib.Links

/-!
The block list in memory refines the abstract list of blocks.

`Holds m head bs` says that the memory `m` holds the blocks `bs` from the
pointer `head` on: the links run both ways, every header says what its block
says, and every block in use carries its canary.  Each function that follows or
edits the list is matched with its list edit, and it is shown to write only
bytes that belong to the heap itself (`held`).

* `mergeWithNext_holds`: `merge_with_next` joins a block with its successor.
* `Quiet`: the edits of the list never leave the mark of an allocation behind.
-/

namespace JoshOS.Heap

open Links Words

/-- The canary that belongs to a block. -/
def Block.canary (b : Block) : ℕ := heapCanarySeed ^^^ b.addr ^^^ b.requested

/-- The header in memory says what the block says. -/
structure Header (m : Memory) (b : Block) : Prop where
  magic : heapBlock.get m b.addr .magic = if b.free then heapFreeMagic else heapAllocMagic
  capacity : heapBlock.get m b.addr .capacity = b.capacity
  requested : heapBlock.get m b.addr .requested = b.requested
  isFree : heapBlock.get m b.addr .isFree = if b.free then 1 else 0

/-- The addresses of a list of blocks. -/
def nodes (bs : List Block) : List ℕ := bs.map Block.addr

/-- The memory holds the blocks `bs` from the pointer `head` on. -/
structure Holds (m : Memory) (head : ℕ) (bs : List Block) : Prop where
  head_eq : head = first (nodes bs) 0
  chain : Chain (fun x => heapBlock.get m x .next) (fun x => heapBlock.get m x .prev)
    0 (nodes bs) 0
  header : ∀ b ∈ bs, Header m b
  canary : ∀ b ∈ bs, ¬ b.free → Memory.read64 m (payload b.addr + b.requested) = b.canary

variable {m m' : Memory} {head : ℕ} {bs l l₁ l₂ : List Block} {a b c : Block} {x y z : ℕ}

@[simp] lemma nodes_nil : nodes [] = [] := rfl

@[simp] lemma nodes_cons : nodes (b :: bs) = b.addr :: nodes bs := rfl

@[simp] lemma nodes_append : nodes (l₁ ++ l₂) = nodes l₁ ++ nodes l₂ := List.map_append

lemma mem_nodes : x ∈ nodes bs ↔ ∃ b ∈ bs, b.addr = x := List.mem_map

/-! ### Addresses of blocks -/

namespace Ordered

lemma addr_pos (h : Ordered bs) (hx : x ∈ nodes bs) : 0 < x := by
  obtain ⟨b, hb, rfl⟩ := mem_nodes.mp hx
  exact (h.block b hb).addr_pos

lemma zero_notMem (h : Ordered bs) : 0 ∉ nodes bs := fun hx => absurd (h.addr_pos hx) (by simp)

lemma addr_lt (h : Ordered bs) (hx : x ∈ nodes bs) : x < 2 ^ 64 := by
  obtain ⟨b, hb, rfl⟩ := mem_nodes.mp hx
  have := (h.block b hb).stop_le
  have := b.addr_le_stop
  omega

/-- Headers of different blocks share no byte. -/
lemma apart (h : Ordered bs) (hx : x ∈ nodes bs) (hy : y ∈ nodes bs) :
    y = x ∨ heapBlock.Apart x y := by
  obtain ⟨a, ha, rfl⟩ := mem_nodes.mp hx
  obtain ⟨b, hb, rfl⟩ := mem_nodes.mp hy
  rcases h.eq_or_apart ha hb with rfl | hle | hle
  · exact Or.inl rfl
  · have := a.addr_le_stop
    exact Or.inr (Or.inl (by simp only [Block.size_eq]; omega))
  · have := b.addr_le_stop
    exact Or.inr (Or.inr (by simp only [Block.size_eq]; omega))

lemma nodup (h : Ordered bs) : (nodes bs).Nodup := by
  refine List.pairwise_map.mpr (h.sorted.imp fun {a b} hab => ?_)
  have := a.addr_le_stop
  omega

/-- A block is named by its address. -/
lemma eq_of_addr (h : Ordered bs) (ha : a ∈ bs) (hb : b ∈ bs) (hab : a.addr = b.addr) : a = b := by
  have := a.addr_le_stop
  have := b.addr_le_stop
  rcases h.eq_or_apart ha hb with heq | hle | hle
  · exact heq
  · omega
  · omega

/-- Every header lies in the heap's own bytes. -/
lemma header_subset (hx : x ∈ nodes bs) : Set.Ico x (x + heapBlock.size) ⊆ held bs := by
  obtain ⟨b, hb, rfl⟩ := mem_nodes.mp hx
  intro y hy
  simp only [Block.size_eq, Set.mem_Ico] at hy
  refine mem_held.mpr ⟨b, hb, hy.1, ?_⟩
  have := b.addr_le_stop
  simp only [Block.held, Block.payload_eq]
  split <;> omega

/-- The payload of a block in use does not belong to the heap. -/
lemma payload_notMem_held (h : Ordered bs) (hb : b ∈ bs) (hused : ¬ b.free)
    (hle : payload b.addr ≤ x) (hlt : x < b.stop) : x ∉ held bs := by
  intro hx
  obtain ⟨a, ha, hle', hlt'⟩ := mem_held.mp hx
  have := a.held_stop_le
  simp only [Block.payload_eq] at hle
  rcases h.eq_or_apart ha hb with rfl | hapart | hapart
  · simp only [Block.held, hused, Block.payload_eq] at hlt'
    simp at hlt'
    omega
  · omega
  · have := b.addr_le_stop
    omega

/-- The canary of a block in use lies in its payload. -/
lemma canary_congr (h : Ordered bs) (heq : Set.EqOn m' m (held bs)ᶜ) (hb : b ∈ bs)
    (hused : ¬ b.free) : Memory.read64 m' (payload b.addr + b.requested) =
      Memory.read64 m (payload b.addr + b.requested) := by
  have hroom := ((h.block b hb).requested_used hused).2
  refine Memory.read64_congr fun x hx hx' => heq (h.payload_notMem_held hb hused ?_ ?_)
  · omega
  · simp only [Block.stop, heapCanaryBytes] at *
    omega

end Ordered

/-! ### The mark of an allocation

`kfree` trusts a word at an aligned address that equals `HEAP_ALLOC_MAGIC`.  The edits of
the list store other values at such addresses: the mark of a free block, zero, and
addresses of blocks. -/

/-- No aligned word becomes the mark of an allocation. -/
def Quiet (m m' : Memory) : Prop :=
  ∀ x, heapAlignment ∣ x → Memory.read64 m x ≠ heapAllocMagic →
    Memory.read64 m' x ≠ heapAllocMagic

lemma Quiet.refl (m : Memory) : Quiet m m := fun _ _ h => h

lemma Quiet.trans {m'' : Memory} (h : Quiet m m') (h' : Quiet m' m'') : Quiet m m'' :=
  fun y hy hne => h' y hy (h y hy hne)

/-- The mark is no address of a block. -/
lemma mod_ne_heapAllocMagic (h : heapAlignment ∣ x) : x % 2 ^ 64 ≠ heapAllocMagic := by
  simp only [heapAlignment, heapAllocMagic] at *
  omega

/-- The fields of a header that lie at an aligned address. -/
def Leading (f : HeapField) : Prop := f = .magic ∨ f = .requested ∨ f = .prev

/-- Storing a field, seen from an aligned word. -/
lemma read64_set (f : HeapField) (v : ℕ) (hx : heapAlignment ∣ x) (hy : heapAlignment ∣ y) :
    Memory.read64 (heapBlock.set m x f v) y = Memory.read64 m y ∨
      Leading f ∧ Memory.read64 (heapBlock.set m x f v) y = v % 2 ^ 64 := by
  simp only [heapAlignment] at hx hy
  rw [RecordLayout.set]
  by_cases hsame : y = x + heapBlock.offset f
  · have hlead : Leading f ∧ heapBlock.width f = 8 := by
      cases f with
      | magic => exact ⟨Or.inl rfl, rfl⟩
      | requested => exact ⟨Or.inr (Or.inl rfl), rfl⟩
      | prev => exact ⟨Or.inr (Or.inr rfl), rfl⟩
      | capacity | next | isFree | reserved =>
        simp only [heapBlock] at hsame
        omega
    refine Or.inr ⟨hlead.1, ?_⟩
    rw [hsame, hlead.2]
    exact Memory.read64_write64 m _ v
  · refine Or.inl (Memory.readLE_writeLE_of_disjoint ?_)
    cases f <;> simp only [heapBlock] at hsame ⊢ <;> omega

lemma quiet_setAll {es : List (ℕ × HeapField × ℕ)} (hx : ∀ e ∈ es, heapAlignment ∣ e.1)
    (hv : ∀ e ∈ es, Leading e.2.1 → e.2.2 % 2 ^ 64 ≠ heapAllocMagic) :
    Quiet m (heapBlock.setAll m es) := by
  induction es generalizing m with
  | nil => exact Quiet.refl m
  | cons e es ih =>
    rw [List.forall_mem_cons] at hx hv
    rw [RecordLayout.setAll_cons]
    refine Quiet.trans (fun y hy hne => ?_) (ih hx.2 hv.2)
    split_ifs
    · exact hne
    rcases read64_set e.2.1 e.2.2 hx.1 hy with hkeep | ⟨hlead, hval⟩
    · rw [hkeep]
      exact hne
    · rw [hval]
      exact hv.1 hlead

lemma Ordered.dvd_of_mem_nodes (h : Ordered bs) (hx : x ∈ nodes bs) : heapAlignment ∣ x := by
  obtain ⟨b, hb, rfl⟩ := mem_nodes.mp hx
  exact (h.block b hb).addr_dvd

/-! ### Links and stores -/

lemma first_link (l₁ l₂ : List Block) (h : first (nodes l₂) 0 ≠ 0) :
    first (nodes l₂) 0 ∈ nodes (l₁ ++ l₂) := by
  simp [(first_mem_or (nodes l₂) 0).resolve_right h]

lemma last_link (l₁ l₂ : List Block) (h : last 0 (nodes l₁) ≠ 0) :
    last 0 (nodes l₁) ∈ nodes (l₁ ++ l₂) := by
  simp [(last_mem_or 0 (nodes l₁)).resolve_right h]

lemma Ordered.dvd_link (h : Ordered bs) (hx : x ≠ 0 → x ∈ nodes bs) : heapAlignment ∣ x := by
  by_cases hx0 : x = 0
  · exact hx0 ▸ dvd_zero _
  · exact h.dvd_of_mem_nodes (hx hx0)

lemma Ordered.link_lt (h : Ordered bs) (hx : x ≠ 0 → x ∈ nodes bs) : x < 2 ^ 64 := by
  by_cases hx0 : x = 0
  · omega
  · exact h.addr_lt (hx hx0)

lemma Ordered.dvd_last (h : Ordered bs) : heapAlignment ∣ last 0 (nodes bs) :=
  h.dvd_link (by simpa using last_link bs [])

/-- A store of the kind that the edits of the list make: to a header of the list, perhaps
behind a check against the null pointer, of a value that fits and is not the mark of an
allocation. -/
structure StoreOk (bs : List Block) (e : ℕ × HeapField × ℕ) : Prop where
  node : e.1 ≠ 0 → e.1 ∈ nodes bs
  value : e.2.2 < 256 ^ heapBlock.width e.2.1
  mark : Leading e.2.1 → e.2.2 % 2 ^ 64 ≠ heapAllocMagic

/-- Storing the address of a block of the list, or the null pointer. -/
lemma Ordered.storeOk_link (h : Ordered bs) {f : HeapField} (hx : x ≠ 0 → x ∈ nodes bs)
    (hf : heapBlock.width f = 8) (hy : y ≠ 0 → y ∈ nodes bs) : StoreOk bs (x, f, y) :=
  ⟨hx, by rw [hf]; exact h.link_lt hy, fun _ => mod_ne_heapAllocMagic (h.dvd_link hy)⟩

lemma storeOk_capacity (hx : x ∈ nodes bs) (hy : y < 2 ^ 64) : StoreOk bs (x, .capacity, y) :=
  ⟨fun _ => hx, hy, by simp [Leading]⟩

lemma storeOk_const {f : HeapField} (hx : x ∈ nodes bs)
    (hv : y < 256 ^ heapBlock.width f ∧ y % 2 ^ 64 ≠ heapAllocMagic) : StoreOk bs (x, f, y) :=
  ⟨fun _ => hx, hv.1, fun _ => hv.2⟩

section Stores

variable {es : List (ℕ × HeapField × ℕ)} (hes : ∀ e ∈ es, StoreOk bs e)

include hes

lemma Ordered.get_setAll (h : Ordered bs) (hx : x ∈ nodes bs) (g : HeapField) :
    heapBlock.get (heapBlock.setAll m es) x g =
      es.foldl (fun v e => if x = e.1 ∧ g = e.2.1 then e.2.2 else v) (heapBlock.get m x g) :=
  RecordLayout.get_setAll (h.addr_pos hx).ne'
    (fun e he hne => h.apart ((hes e he).node hne) hx) fun e he => (hes e he).value

lemma setAll_eqOn_held : Set.EqOn (heapBlock.setAll m es) m (held bs)ᶜ :=
  RecordLayout.setAll_eqOn fun e he hne => Ordered.header_subset ((hes e he).node hne)

lemma Ordered.quiet_setAll (h : Ordered bs) : Quiet m (heapBlock.setAll m es) :=
  Heap.quiet_setAll (fun e he => h.dvd_link (hes e he).node) fun e he => (hes e he).mark

end Stores

/-! ### What the list depends on -/

/-- A header does not depend on the links. -/
lemma Header.congr (h : Header m b) (heq : ∀ g, g ≠ .next → g ≠ .prev →
    heapBlock.get m' b.addr g = heapBlock.get m b.addr g) : Header m' b where
  magic := (heq .magic nofun nofun).trans h.magic
  capacity := (heq .capacity nofun nofun).trans h.capacity
  requested := (heq .requested nofun nofun).trans h.requested
  isFree := (heq .isFree nofun nofun).trans h.isFree

/-- The list stays in memory as long as its headers and canaries do. -/
lemma Holds.congr (h : Holds m head bs)
    (hheader : ∀ x ∈ nodes bs, heapBlock.get m' x = heapBlock.get m x)
    (hcanary : ∀ b ∈ bs, ¬ b.free → Memory.read64 m' (payload b.addr + b.requested) =
      Memory.read64 m (payload b.addr + b.requested)) : Holds m' head bs where
  head_eq := h.head_eq
  chain := h.chain.congr fun x hx => by rw [hheader x hx]; exact ⟨rfl, rfl⟩
  header b hb := (h.header b hb).congr fun g _ _ => by
    rw [hheader b.addr (mem_nodes.mpr ⟨b, hb, rfl⟩)]
  canary b hb hused := (hcanary b hb hused).trans (h.canary b hb hused)

/-- One block may change its state, if only its own bytes and not its links
change. -/
lemma Holds.retag (hord : Ordered (l₁ ++ a :: l₂)) (h : Holds m head (l₁ ++ a :: l₂))
    (heq : Set.EqOn m' m (a.span.points)ᶜ) (haddr : b.addr = a.addr)
    (hnext : heapBlock.get m' a.addr .next = heapBlock.get m a.addr .next)
    (hprev : heapBlock.get m' a.addr .prev = heapBlock.get m a.addr .prev)
    (hheader : Header m' b)
    (hcanary : ¬ b.free → Memory.read64 m' (payload b.addr + b.requested) = b.canary) :
    Holds m' head (l₁ ++ b :: l₂) := by
  have hmem : a ∈ l₁ ++ a :: l₂ := by simp
  -- a block other than `a` shares no byte with it
  have hother : ∀ c ∈ l₁ ++ a :: l₂, c ≠ a → ∀ x, c.addr ≤ x → x < c.stop → m' x = m x := by
    intro c hc hne x hle hlt
    refine heq fun hx => ?_
    simp only [Block.span, Span.mem_points] at hx
    rcases (hord.eq_or_apart hc hmem).resolve_left hne with hap | hap <;> omega
  have hget : ∀ c ∈ l₁ ++ a :: l₂, c ≠ a → heapBlock.get m' c.addr = heapBlock.get m c.addr := by
    intro c hc hne
    refine RecordLayout.get_congr fun x hle hlt => hother c hc hne x hle ?_
    have := c.addr_le_stop
    simp only [Block.size_eq] at hlt
    omega
  have hrest : ∀ c ∈ l₁ ++ l₂, c ∈ l₁ ++ a :: l₂ ∧ c ≠ a := by
    intro c hc
    have hnodup : (l₁ ++ a :: l₂).Nodup := List.Nodup.of_map _ hord.nodup
    refine ⟨List.perm_middle.mem_iff.mpr (List.mem_cons_of_mem a hc), ?_⟩
    rintro rfl
    exact (List.nodup_middle.mp hnodup).notMem hc
  have hlist : ∀ c ∈ l₁ ++ b :: l₂, c = b ∨ c ∈ l₁ ++ l₂ := fun c hc =>
    List.mem_cons.mp (List.perm_middle.mem_iff.mp hc)
  refine ⟨?_, ?_, fun c hc => ?_, fun c hc hused => ?_⟩
  · rw [h.head_eq]
    simp [first_append, haddr]
  · have hnodes : nodes (l₁ ++ b :: l₂) = nodes (l₁ ++ a :: l₂) := by simp [haddr]
    rw [hnodes]
    refine h.chain.congr fun x hx => ?_
    obtain ⟨c, hc, rfl⟩ := mem_nodes.mp hx
    by_cases hca : c = a
    · subst hca
      exact ⟨hnext, hprev⟩
    · rw [hget c hc hca]
      exact ⟨rfl, rfl⟩
  · rcases hlist c hc with rfl | hc
    · exact hheader
    · obtain ⟨hc, hne⟩ := hrest c hc
      exact (h.header c hc).congr fun g _ _ => by rw [hget c hc hne]
  · rcases hlist c hc with rfl | hc
    · exact hcanary hused
    · obtain ⟨hc, hne⟩ := hrest c hc
      have hroom := ((hord.block c hc).requested_used hused).2
      rw [← h.canary c hc hused]
      refine Memory.read64_congr fun x hx hx' => hother c hc hne x ?_ ?_
      · simp only [Block.payload_eq] at hx
        omega
      · simp only [Block.stop, heapCanaryBytes] at *
        omega

/-- The address of a block is no other's. -/
lemma Ordered.fresh (h : Ordered (l₁ ++ c :: l₂)) :
    c.addr ∉ nodes (l₁ ++ l₂) ∧ (nodes (l₁ ++ l₂)).Nodup := by
  have hall := h.nodup
  rwa [nodes_append, nodes_cons, List.nodup_middle, List.nodup_cons, ← nodes_append] at hall

/-- A block may be linked in between two parts of the list. -/
lemma Holds.link (hord : Ordered (l₁ ++ c :: l₂)) (h : Holds m head (l₁ ++ l₂))
    (heq : Set.EqOn m' m (held (l₁ ++ c :: l₂))ᶜ)
    (hget : ∀ x ∈ nodes (l₁ ++ l₂), x ≠ c.addr → ∀ g, heapBlock.get m' x g =
      if x = last 0 (nodes l₁) ∧ g = .next then c.addr
      else if x = first (nodes l₂) 0 ∧ g = .prev then c.addr
      else heapBlock.get m x g)
    (hnext : heapBlock.get m' c.addr .next = first (nodes l₂) 0)
    (hprev : heapBlock.get m' c.addr .prev = last 0 (nodes l₁))
    (hheader : Header m' c) (hfree : c.free) :
    Holds m' (first (nodes (l₁ ++ c :: l₂)) 0) (l₁ ++ c :: l₂) := by
  have hlist : ∀ b ∈ l₁ ++ c :: l₂, b = c ∨ b ∈ l₁ ++ l₂ := fun b hb =>
    List.mem_cons.mp (List.perm_middle.mem_iff.mp hb)
  obtain ⟨hfresh, hnodup⟩ := hord.fresh
  replace hget := fun x hx => hget x hx fun hxc => hfresh (hxc ▸ hx)
  refine ⟨rfl, ?_, fun b hb => ?_, fun b hb hused => ?_⟩
  · have hchain := h.chain
    have hzero := hord.zero_notMem
    simp only [nodes_append, nodes_cons, List.mem_append, List.mem_cons, not_or]
      at hchain hnodup hzero hget ⊢
    refine hchain.insert hnodup (by simp [hzero]) (by simp [hzero]) (fun x hx => ?_)
      (fun x hx => ?_) hnext hprev
    · rw [hget x (List.mem_append.mp hx)]
      by_cases hlast : x = last 0 (nodes l₁) <;> simp [hlast]
    · rw [hget x (List.mem_append.mp hx)]
      by_cases hfirst : x = first (nodes l₂) 0 <;> simp [hfirst]
  · rcases hlist b hb with rfl | hb
    · exact hheader
    · refine (h.header b hb).congr fun g hn hp => ?_
      simp [hget b.addr (mem_nodes.mpr ⟨b, hb, rfl⟩), hn, hp]
  · have hmem := (hlist b hb).resolve_left fun hbc => hused (hbc ▸ hfree)
    exact (hord.canary_congr heq hb hused).trans (h.canary b hmem hused)

/-! ### Following the links -/

namespace Holds

lemma next_eq (h : Holds m head (l₁ ++ a :: l₂)) :
    heapBlock.get m a.addr .next = first (nodes l₂) 0 := by
  have hchain := h.chain
  rw [nodes_append, nodes_cons, chain_append, chain_cons] at hchain
  exact hchain.2.2.1

lemma prev_eq (h : Holds m head (l₁ ++ a :: l₂)) :
    heapBlock.get m a.addr .prev = last 0 (nodes l₁) := by
  have hchain := h.chain
  rw [nodes_append, nodes_cons, chain_append, chain_cons] at hchain
  exact hchain.2.1

end Holds

lemma Header.isFree_ne_zero (h : Header m b) : heapBlock.get m b.addr .isFree ≠ 0 ↔ b.free := by
  rw [h.isFree]
  cases b.free <;> simp

/-- `blocks_adjacent` compares the end of the left block, which can only wrap to
the null pointer. -/
lemma blocksAdjacent_iff (h : Header m a) (ha : a.WellFormed) (hx : 0 < x) (hx' : x < 2 ^ 64) :
    blocksAdjacent m a.addr x ↔ a.stop = x := by
  have hstop := ha.stop_le
  rw [blocksAdjacent, h.capacity, decide_eq_true_iff, ← Block.stop, wrap64]
  rcases Nat.lt_or_ge a.stop (2 ^ 64) with hlt | hge
  · rw [Nat.mod_eq_of_lt hlt]
  · have htop : a.stop = 2 ^ 64 := by omega
    rw [htop, Nat.mod_self]
    omega

/-! ### Walks

Every walk starts at the first block and follows `next`; the lemmas are about
the part of the list that is still ahead. -/

/-- There are fewer blocks than a walk has steps. -/
lemma Ordered.length_le (h : Ordered bs) : bs.length ≤ heapWalkFuel := by
  have hle : bs.length ≤ Spans.total (spans bs) := by
    clear h
    induction bs with
    | nil => simp
    | cons b bs ih =>
      have := b.addr_le_stop
      rw [spans_cons, Spans.total_cons, List.length_cons, Span.length]
      simp only [Block.span]
      omega
  have := h.total_le
  simp only [heapWalkFuel]
  omega

section Walks

variable {before : ℕ} {fuel n : ℕ}
  (hchain : Chain (fun x => heapBlock.get m x .next) (fun x => heapBlock.get m x .prev)
    before (nodes bs) 0)
  (hheader : ∀ b ∈ bs, Header m b) (hord : Ordered bs) (hfuel : bs.length ≤ fuel)

include hchain hheader hord hfuel

/-- The loop of `find_block` finds the first block that fits. -/
lemma findBlockFrom_eq (n : ℕ) :
    findBlockFrom m n fuel (first (nodes bs) 0) = (bs.find? (Block.fits n)).elim 0 Block.addr := by
  induction bs generalizing before fuel with
  | nil => cases fuel <;> simp [findBlockFrom]
  | cons b bs ih =>
    have hnext : heapBlock.get m b.addr .next = first (nodes bs) 0 := hchain.2.1
    have hrest := hchain.2.2
    obtain _ | fuel := fuel
    · simp at hfuel
    have hfuel' := Nat.le_of_succ_le_succ hfuel
    have hb := hheader b (by simp)
    have hb0 : b.addr ≠ 0 := (hord.addr_pos (by simp)).ne'
    have hfits : (heapBlock.get m b.addr .isFree ≠ 0 ∧ n ≤ heapBlock.get m b.addr .capacity) ↔
        b.fits n = true := by
      rw [hb.isFree_ne_zero, hb.capacity]
      simp [Block.fits]
    rw [nodes_cons, first_cons, findBlockFrom, if_neg hb0, List.find?_cons]
    by_cases hfit : b.fits n = true
    · rw [if_pos (hfits.mpr hfit), hfit]
      rfl
    · rw [if_neg (fun hand => hfit (hfits.mp hand)), hnext,
        ih hrest (fun c hc => hheader c (by simp [hc])) (ordered_cons.mp hord).2.1 hfuel']
      simp [hfit]

/-- The loop of `insert_region` stops between the blocks in front of the new one
and those behind it. -/
lemma insertionPoint_eq (addr : ℕ) :
    insertionPoint m addr fuel before (first (nodes bs) 0) =
      (last before (nodes (Heap.before addr bs)), first (nodes (behind addr bs)) 0) := by
  induction bs generalizing before fuel with
  | nil => cases fuel <;> simp [insertionPoint, Heap.before, behind]
  | cons b bs ih =>
    have hnext : heapBlock.get m b.addr .next = first (nodes bs) 0 := hchain.2.1
    have hrest := hchain.2.2
    obtain _ | fuel := fuel
    · simp at hfuel
    have hfuel' := Nat.le_of_succ_le_succ hfuel
    have hb0 : b.addr ≠ 0 := (hord.addr_pos (by simp)).ne'
    rw [nodes_cons, first_cons, insertionPoint, Heap.before, behind, List.takeWhile_cons,
      List.dropWhile_cons]
    by_cases hlt : b.addr < addr
    · rw [if_pos ⟨hb0, hlt⟩, hnext, ih hrest (fun c hc => hheader c (by simp [hc]))
        (ordered_cons.mp hord).2.1 hfuel']
      simp [hlt, Heap.before, behind]
    · rw [if_neg (fun hand => hlt hand.2)]
      simp [hlt]

/-- The loop of `heap_stats` adds up the capacities of the free blocks. -/
lemma freePayloadFrom_eq {acc : ℕ} (hacc : acc < 2 ^ 64) :
    freePayloadFrom m fuel acc (first (nodes bs) 0) =
      wrap64 (acc + ((bs.filter Block.free).map Block.capacity).sum) := by
  induction bs generalizing before fuel acc with
  | nil => cases fuel <;> simp [freePayloadFrom, wrap64_of_lt hacc]
  | cons b bs ih =>
    have hnext : heapBlock.get m b.addr .next = first (nodes bs) 0 := hchain.2.1
    have hrest := hchain.2.2
    obtain _ | fuel := fuel
    · simp at hfuel
    have hfuel' := Nat.le_of_succ_le_succ hfuel
    have hb := hheader b (by simp)
    have hb0 : b.addr ≠ 0 := (hord.addr_pos (by simp)).ne'
    have hstep := fun acc' (hacc' : acc' < 2 ^ 64) =>
      ih hrest (fun c hc => hheader c (by simp [hc])) (ordered_cons.mp hord).2.1 hfuel' hacc'
    rw [nodes_cons, first_cons, freePayloadFrom, if_neg hb0, hnext, hb.capacity]
    by_cases hfree : b.free
    · rw [if_pos (hb.isFree_ne_zero.mpr hfree), hstep _ (wrap64_lt _)]
      simp [hfree, wrap64, Nat.add_assoc]
    · rw [if_neg (fun hne => hfree (hb.isFree_ne_zero.mp hne)), hstep _ hacc]
      simp [hfree]

end Walks

/-! ### `merge_with_next` -/

/-- What `merge_with_next` stores when it joins two blocks: the first one takes over
capacity and successor `z`, and `z` is linked back to it. -/
def mergeStores (a b : Block) (z : ℕ) : List (ℕ × HeapField × ℕ) :=
  [(a.addr, .capacity, (a.join b).capacity), (a.addr, .next, z), (z, .prev, a.addr),
    (a.addr, .magic, heapFreeMagic), (a.addr, .requested, 0)]

section Joined

variable (hord : Ordered (l₁ ++ a :: b :: l₂)) (hab : a.Joins b)

include hord hab

lemma capacity_join_lt : (a.join b).capacity < 2 ^ 64 := by
  have hstop := (hab.wellFormed (hord.block a (by simp)) (hord.block b (by simp))).stop_le
  rw [Block.stop_eq] at hstop
  omega

lemma storeOk_merge : ∀ e ∈ mergeStores a b (first (nodes l₂) 0),
    StoreOk (l₁ ++ a :: b :: l₂) e := by
  have ha : a.addr ∈ nodes (l₁ ++ a :: b :: l₂) := by simp
  have hz : first (nodes l₂) 0 ≠ 0 → first (nodes l₂) 0 ∈ nodes (l₁ ++ a :: b :: l₂) := by
    simpa using first_link (l₁ ++ [a, b]) l₂
  simp only [mergeStores, List.forall_mem_cons]
  exact ⟨storeOk_capacity ha (capacity_join_lt hord hab),
    hord.storeOk_link (fun _ => ha) rfl hz, hord.storeOk_link hz rfl fun _ => ha,
    storeOk_const ha (by decide), storeOk_const ha (by decide), List.forall_mem_nil _⟩

variable (h : Holds m head (l₁ ++ a :: b :: l₂))

include h

lemma mergeWithNext_eq_joined :
    mergeWithNext a.addr m = heapBlock.setAll m (mergeStores a b (first (nodes l₂) 0)) := by
  have ha := h.header a (by simp)
  have hb := h.header b (by simp)
  have hnext : heapBlock.get m a.addr .next = b.addr := h.next_eq
  have hnext' : heapBlock.get m b.addr .next = first (nodes l₂) 0 := by
    rw [show l₁ ++ a :: b :: l₂ = (l₁ ++ [a]) ++ b :: l₂ by simp] at h
    exact h.next_eq
  have hb0 : 0 < b.addr := hord.addr_pos (by simp)
  have ha0 : 0 < a.addr := hord.addr_pos (by simp)
  have hadj : blocksAdjacent m a.addr b.addr :=
    (blocksAdjacent_iff ha (hord.block a (by simp)) hb0 (hord.addr_lt (by simp))).mpr hab.2.2
  have hcap_lt := capacity_join_lt hord hab
  have hcap : wrap64 (a.capacity + (48 + b.capacity)) = (a.join b).capacity := wrap64_of_lt hcap_lt
  have hapart := (hord.apart (x := a.addr) (y := b.addr) (by simp) (by simp)).resolve_left (by
    have := a.addr_le_stop
    have := hab.2.2
    omega)
  have hz : first (nodes l₂) 0 < 2 ^ 64 :=
    hord.link_lt (by simpa using first_link (l₁ ++ [a, b]) l₂)
  have hcond : ¬ (a.addr = 0 ∨ b.addr = 0 ∨ heapBlock.get m a.addr .isFree = 0 ∨
      heapBlock.get m b.addr .isFree = 0 ∨ ¬ blocksAdjacent m a.addr b.addr = true) := by
    have hfa := ha.isFree_ne_zero.mpr hab.1
    have hfb := hb.isFree_ne_zero.mpr hab.2.1
    simp only [hadj, not_true_eq_false, or_false]
    omega
  have hread : ∀ m₁, heapBlock.get (heapBlock.set m₁ a.addr .next (first (nodes l₂) 0))
      a.addr .next = first (nodes l₂) 0 := fun m₁ => by
    rw [RecordLayout.get_set (Or.inl rfl) hz, if_pos ⟨rfl, rfl⟩]
  rw [mergeWithNext]
  simp only [if_neg ha0.ne', hnext, if_neg hcond, ha.capacity, hb.capacity, Block.size_eq, hcap,
    RecordLayout.get_set_of_apart hapart, hnext', hread, mergeStores, RecordLayout.setAll,
    List.foldl, ite_not]

/-- Every header after `merge_with_next` has joined `a` and `b`. -/
lemma get_mergeWithNext_joined (hx : x ∈ nodes (l₁ ++ a :: b :: l₂)) (g : HeapField) :
    heapBlock.get (mergeWithNext a.addr m) x g =
      if x = a.addr ∧ g = .requested then 0
      else if x = a.addr ∧ g = .magic then heapFreeMagic
      else if x = first (nodes l₂) 0 ∧ g = .prev then a.addr
      else if x = a.addr ∧ g = .next then first (nodes l₂) 0
      else if x = a.addr ∧ g = .capacity then (a.join b).capacity
      else heapBlock.get m x g := by
  rw [mergeWithNext_eq_joined hord hab h]
  exact hord.get_setAll (storeOk_merge hord hab) hx g

lemma mergeWithNext_joined_eqOn :
    Set.EqOn (mergeWithNext a.addr m) m (held (l₁ ++ a :: b :: l₂))ᶜ := by
  rw [mergeWithNext_eq_joined hord hab h]
  exact setAll_eqOn_held (storeOk_merge hord hab)

/-- Joining two blocks in memory joins them in the list. -/
lemma mergeWithNext_joined_holds :
    Holds (mergeWithNext a.addr m) head (l₁ ++ a.join b :: l₂) := by
  have hget := fun x (hx : x ∈ nodes l₁ ++ a.addr :: nodes l₂) =>
    get_mergeWithNext_joined hord hab h (x := x) (by
      simp only [nodes_append, nodes_cons, List.mem_append, List.mem_cons] at hx ⊢
      tauto)
  have hord' := hord.join hab
  have hnodup := hord'.nodup
  have hzero := hord'.zero_notMem
  simp only [nodes_append, nodes_cons, Block.addr_join] at hnodup hzero
  have hold : ∀ c ∈ l₁ ++ a.join b :: l₂, c ≠ a.join b →
      c ∈ l₁ ++ a :: b :: l₂ ∧ c.addr ≠ a.addr := by
    intro c hc hne
    refine ⟨?_, fun haddr => hne (hord'.eq_of_addr hc (by simp) haddr)⟩
    simp only [List.mem_append, List.mem_cons] at hc ⊢
    tauto
  have hfree : (a.join b).free = true := hab.1
  refine ⟨?_, ?_, fun c hc => ?_, fun c hc hused => ?_⟩
  · rw [h.head_eq]
    simp [first_append]
  · have hchain := h.chain
    simp only [nodes_append, nodes_cons, Block.addr_join] at hchain ⊢
    refine hchain.remove hnodup hzero (fun x hx => ?_) fun x hx => ?_
    · rw [hget x hx]
      by_cases hxa : x = a.addr <;> simp [hxa]
    · rw [hget x hx]
      by_cases hxz : x = first (nodes l₂) 0 <;> simp [hxz]
  · by_cases hc' : c = a.join b
    · subst hc'
      have hself := hget a.addr (by simp)
      have hflag := (h.header a (by simp)).isFree
      rw [if_pos hab.1] at hflag
      constructor <;> rw [Block.addr_join, hself] <;> simp [hab.1, hflag, Block.join]
    · obtain ⟨hmem, hne⟩ := hold c hc hc'
      refine (h.header c hmem).congr fun g hn hp => ?_
      rw [hget c.addr (by simpa using mem_nodes.mpr ⟨c, hc, rfl⟩)]
      simp [hne, hp]
  · have hmem := (hold c hc fun hcj => hused (hcj ▸ hfree)).1
    rw [hord.canary_congr (mergeWithNext_joined_eqOn hord hab h) hmem hused]
    exact h.canary c hmem hused

end Joined

/-- `merge_with_next` leaves blocks alone that do not join. -/
lemma mergeWithNext_eq_self (hord : Ordered (l₁ ++ a :: l₂)) (h : Holds m head (l₁ ++ a :: l₂))
    (hno : mergeHead (a :: l₂) = a :: l₂) : mergeWithNext a.addr m = m := by
  have ha0 : a.addr ≠ 0 := (hord.addr_pos (by simp)).ne'
  have ha := h.header a (by simp)
  rw [mergeWithNext]
  simp only [if_neg ha0, h.next_eq]
  refine if_pos ?_
  cases l₂ with
  | nil => simp
  | cons b l =>
    have hb := h.header b (by simp)
    have hb0 : 0 < b.addr := hord.addr_pos (by simp)
    have hb64 : b.addr < 2 ^ 64 := hord.addr_lt (by simp)
    have hjoins : ¬ a.Joins b := by
      intro hab
      rw [mergeHead, if_pos hab] at hno
      have := congrArg List.length hno
      simp at this
    have hadj := blocksAdjacent_iff ha (hord.block a (by simp)) hb0 hb64
    by_contra hne
    simp only [first_cons, nodes_cons, not_or, not_not] at hne
    exact hjoins ⟨ha.isFree_ne_zero.mp hne.2.2.1, hb.isFree_ne_zero.mp hne.2.2.2.1,
      hadj.mp hne.2.2.2.2⟩

/-- **`merge_with_next`.**  The block is joined with its successor exactly when
both are free and touch; only the heap's own bytes are written. -/
theorem mergeWithNext_holds (hord : Ordered (l₁ ++ a :: l₂)) (h : Holds m head (l₁ ++ a :: l₂)) :
    Holds (mergeWithNext a.addr m) head (l₁ ++ mergeHead (a :: l₂)) ∧
      Set.EqOn (mergeWithNext a.addr m) m (held (l₁ ++ a :: l₂))ᶜ := by
  rcases mergeHead_cons a l₂ with hkeep | ⟨b, l, rfl, hab, hjoin⟩
  · rw [hkeep, mergeWithNext_eq_self hord h hkeep]
    exact ⟨h, Set.eqOn_refl _ _⟩
  · rw [hjoin]
    exact ⟨mergeWithNext_joined_holds hord hab h, mergeWithNext_joined_eqOn hord hab h⟩

lemma mergeWithNext_quiet (hord : Ordered (l₁ ++ a :: l₂)) (h : Holds m head (l₁ ++ a :: l₂)) :
    Quiet m (mergeWithNext a.addr m) := by
  rcases mergeHead_cons a l₂ with hkeep | ⟨b, l, rfl, hab, -⟩
  · rw [mergeWithNext_eq_self hord h hkeep]
    exact Quiet.refl m
  · rw [mergeWithNext_eq_joined hord hab h]
    exact hord.quiet_setAll (storeOk_merge hord hab)

/-! ### Merging with both neighbours -/

/-- A block between `l ++ [p]` and `l₂` starts the tail of `p`. -/
lemma append_concat_cons (l l₂ : List Block) (p a : Block) :
    (l ++ [p]) ++ a :: l₂ = l ++ p :: a :: l₂ := by
  simp

/-- Merging `p` with `a` and the result with what follows, in memory and in the
list, once `p` and `a` join. -/
lemma mergeTwice_holds {p : Block} (hord : Ordered (l ++ p :: a :: l₂))
    (h : Holds m head (l ++ p :: a :: l₂)) (hpa : p.Joins a) :
    Holds (mergeWithNext p.addr (mergeWithNext p.addr m)) head (coalesce (l ++ [p]) a l₂) ∧
      Set.EqOn (mergeWithNext p.addr (mergeWithNext p.addr m)) m (held (l ++ p :: a :: l₂))ᶜ := by
  have hheld : held (l ++ p.join a :: l₂) = held (l ++ p :: a :: l₂) := by
    simpa using (hpa.refits.within l l₂).held_eq
  have hfirst := mergeWithNext_joined_eqOn hord hpa h
  obtain ⟨hholds, heq⟩ :=
    mergeWithNext_holds (hord.join hpa) (mergeWithNext_joined_holds hord hpa h)
  rw [hheld] at heq
  rw [coalesce, joinBack_concat, if_pos hpa]
  exact ⟨hholds, heq.trans hfirst⟩

/-- A block merged with its predecessor, when the two join, and the result with its
successor. -/
def mergeBoth (l₁ : List Block) (a : Block) (m : Memory) : Memory :=
  match l₁.getLast? with
  | some p =>
    if p.Joins a then mergeWithNext p.addr (mergeWithNext p.addr m) else mergeWithNext a.addr m
  | none => mergeWithNext a.addr m

@[simp] lemma mergeBoth_nil (a : Block) (m : Memory) :
    mergeBoth [] a m = mergeWithNext a.addr m := rfl

@[simp] lemma mergeBoth_concat (l : List Block) (p a : Block) (m : Memory) :
    mergeBoth (l ++ [p]) a m =
      if p.Joins a then mergeWithNext p.addr (mergeWithNext p.addr m)
      else mergeWithNext a.addr m := by
  simp [mergeBoth]

/-- Merging with both neighbours coalesces the block. -/
lemma mergeBoth_holds (hord : Ordered (l₁ ++ a :: l₂)) (h : Holds m head (l₁ ++ a :: l₂)) :
    Holds (mergeBoth l₁ a m) head (coalesce l₁ a l₂) ∧
      Set.EqOn (mergeBoth l₁ a m) m (held (l₁ ++ a :: l₂))ᶜ := by
  rcases List.eq_nil_or_concat' l₁ with rfl | ⟨l, p, rfl⟩
  · exact mergeWithNext_holds hord h
  · rw [mergeBoth_concat]
    by_cases hpa : p.Joins a
    · rw [append_concat_cons] at hord h ⊢
      rw [if_pos hpa]
      exact mergeTwice_holds hord h hpa
    · rw [if_neg hpa, coalesce, joinBack_concat, if_neg hpa]
      exact mergeWithNext_holds hord h

lemma mergeBoth_quiet (hord : Ordered (l₁ ++ a :: l₂)) (h : Holds m head (l₁ ++ a :: l₂)) :
    Quiet m (mergeBoth l₁ a m) := by
  rcases List.eq_nil_or_concat' l₁ with rfl | ⟨l, p, rfl⟩
  · exact mergeWithNext_quiet hord h
  · rw [mergeBoth_concat]
    split
    case isTrue hpa =>
      rw [append_concat_cons] at hord h
      have hagain : Quiet _ (mergeWithNext (p.join a).addr (mergeWithNext p.addr m)) :=
        mergeWithNext_quiet (hord.join hpa) (mergeWithNext_joined_holds hord hpa h)
      exact (mergeWithNext_quiet hord h).trans hagain
    case isFalse => exact mergeWithNext_quiet hord h

/-- The end of `kfree` merges the block with both neighbours. -/
lemma mergeFreed_eq (hord : Ordered (l₁ ++ a :: l₂)) (h : Holds m head (l₁ ++ a :: l₂))
    (ha : a.free) : mergeFreed a.addr m = mergeBoth l₁ a m := by
  have hprev := h.prev_eq
  rw [mergeFreed]
  simp only [hprev]
  rcases List.eq_nil_or_concat' l₁ with rfl | ⟨l, p, rfl⟩
  · rw [if_neg (by simp), mergeBoth_nil]
  · rw [append_concat_cons] at hord h
    simp only [nodes_append, nodes_cons, nodes_nil, last_concat, mergeBoth_concat]
    have hp0 : p.addr ≠ 0 := (hord.addr_pos (by simp)).ne'
    have hp := h.header p (by simp)
    have hadj := blocksAdjacent_iff hp (hord.block p (by simp)) (hord.addr_pos (x := a.addr)
      (by simp)) (hord.addr_lt (by simp))
    have hjoins : (p.addr ≠ 0 ∧ heapBlock.get m p.addr .isFree ≠ 0 ∧
        blocksAdjacent m p.addr a.addr = true) ↔ p.Joins a := by
      rw [hp.isFree_ne_zero, hadj]
      exact ⟨fun hand => ⟨hand.2.1, ha, hand.2.2⟩, fun hpa => ⟨hp0, hpa.1, hpa.2.2⟩⟩
    simp only [hjoins]

/-- The end of `insert_region` merges the block with both neighbours. -/
lemma mergeInserted_eq (hord : Ordered (l₁ ++ a :: l₂)) (h : Holds m head (l₁ ++ a :: l₂)) :
    mergeInserted a.addr m = mergeBoth l₁ a m := by
  have hprev := h.prev_eq
  rw [mergeInserted]
  simp only [hprev]
  rcases List.eq_nil_or_concat' l₁ with rfl | ⟨l, p, rfl⟩
  · rw [if_neg (by simp), mergeBoth_nil]
  · rw [append_concat_cons] at hord h
    simp only [nodes_append, nodes_cons, nodes_nil, last_concat] at hprev ⊢
    have hp0 : p.addr ≠ 0 := (hord.addr_pos (by simp)).ne'
    rw [if_pos hp0, mergeBoth_concat]
    by_cases hpa : p.Joins a
    · -- the header of `a` is stale but intact, and leads back to `p`
      have hget := fun x hx => get_mergeWithNext_joined hord hpa h (x := x) hx
      have hne : a.addr ≠ p.addr := by
        have := p.addr_le_stop
        have := hpa.2.2
        omega
      have hnodup := hord.nodup
      have hfirst : first (nodes l₂) 0 ≠ a.addr := by
        intro heq
        have ha0 : a.addr ≠ 0 := (hord.addr_pos (by simp)).ne'
        rcases first_mem_or (nodes l₂) 0 with hmem | hzero
        · rw [heq] at hmem
          simp [List.nodup_append, hmem] at hnodup
        · exact ha0 (heq.symm.trans hzero)
      have hstale : heapBlock.get (mergeWithNext p.addr m) a.addr .prev = p.addr := by
        rw [hget a.addr (by simp)]
        simp [hne, hfirst.symm, hprev]
      have hnext : heapBlock.get (mergeWithNext p.addr m) p.addr .next ≠ a.addr := by
        rw [hget p.addr (by simp)]
        simpa using hfirst
      simp only [hstale, if_pos hnext, if_pos hpa]
    · have hkeep : mergeHead (p :: a :: l₂) = p :: a :: l₂ := by
        rw [mergeHead, if_neg hpa]
      have hnext : heapBlock.get m p.addr .next = a.addr := h.next_eq
      simp only [mergeWithNext_eq_self hord h hkeep, hprev, hnext, ne_eq, not_true_eq_false,
        if_false, if_neg hpa]

end JoshOS.Heap
