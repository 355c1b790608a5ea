import JoshOS.Heap.Model
import JoshOS.Lib.Spans

/-!
What the heap is for: an ordered list of blocks that tile the memory it was
given.

This is the abstract heap.  A `Block` is what a header says about a block; a
heap is a list of blocks in address order.  The functions below are the list
edits behind the pointer edits of `heap.c`: joining two neighbours, splitting a
free block, and inserting one where it belongs.

* `Ordered`: blocks are well formed and follow one another without overlap.
* `Coalesced`: no two free neighbours touch.
* `coalesce_spec`: joining a new free block with both neighbours keeps the
  bytes, the allocations and the order, and leaves no touching free pair.
* `take_spec`, `insertBlock_spec`: handing out a block and inserting one.
-/

namespace JoshOS.Heap

open Spans

/-- What the header of a block says. -/
structure Block where
  addr : ℕ
  capacity : ℕ
  requested : ℕ
  free : Bool
  deriving DecidableEq, Repr

namespace Block

/-- The end of a block. -/
def stop (b : Block) : ℕ := payload b.addr + b.capacity

/-- The bytes of a block, header and payload. -/
def span (b : Block) : Span := ⟨b.addr, b.stop⟩

/-- The bytes of a block that belong to the heap itself: the header, and the
payload while the block is free. -/
def held (b : Block) : Span := ⟨b.addr, if b.free then b.stop else payload b.addr⟩

/-- The allocation that a block in use stands for: its pointer and its size. -/
def allocation (b : Block) : ℕ × ℕ := (payload b.addr, b.requested)

/-- A block is aligned, inside the address space and away from the null
pointer, and in use it has room for the requested bytes and the canary. -/
structure WellFormed (b : Block) : Prop where
  addr_pos : 0 < b.addr
  addr_dvd : heapAlignment ∣ b.addr
  capacity_dvd : heapAlignment ∣ b.capacity
  stop_le : b.stop ≤ 2 ^ 64
  requested_free : b.free → b.requested = 0
  requested_used : ¬ b.free → 0 < b.requested ∧ b.requested + heapCanaryBytes ≤ b.capacity

/-- Two free blocks that touch. -/
def Joins (a b : Block) : Prop := a.free ∧ b.free ∧ a.stop = b.addr

instance (a b : Block) : Decidable (a.Joins b) := inferInstanceAs (Decidable (_ ∧ _ ∧ _))

/-- Two touching blocks as one. -/
def join (a b : Block) : Block :=
  { a with capacity := a.capacity + (heapBlock.size + b.capacity), requested := 0 }

/-- Whether a block can serve a request for `n` bytes of capacity. -/
def fits (n : ℕ) (b : Block) : Bool := b.free && decide (n ≤ b.capacity)

/-- Whether the capacity of a block beyond `n` can stand alone. -/
def Splits (n : ℕ) (a : Block) : Prop := heapBlock.size + heapMinSplit ≤ a.capacity - n

instance (n : ℕ) (a : Block) : Decidable (a.Splits n) := inferInstanceAs (Decidable (_ ≤ _))

/-- A block cut down to capacity `n`. -/
def front (n : ℕ) (a : Block) : Block := { a with capacity := if a.Splits n then n else a.capacity }

/-- What is left of a block that was cut down to capacity `n`. -/
def rest (n : ℕ) (a : Block) : List Block :=
  if a.Splits n then
    [{ addr := payload a.addr + n, capacity := a.capacity - n - heapBlock.size,
       requested := 0, free := true }]
  else []

/-- The block handed out for a request of `size` bytes. -/
def use (size : ℕ) (a : Block) : Block := { a with requested := size, free := false }

/-- What a block becomes when it is cut down to capacity `n`. -/
def split (n : ℕ) (a : Block) : List Block := a.front n :: a.rest n

/-- What a block becomes when it is cut down to capacity `n` and its front is
handed out for `size` bytes. -/
def take (n size : ℕ) (a : Block) : List Block := (a.front n).use size :: a.rest n

/-- The block after it was freed. -/
def release (a : Block) : Block := { a with requested := 0, free := true }

@[simp] lemma payload_eq (a : ℕ) : payload a = a + 48 := rfl

@[simp] lemma size_eq : heapBlock.size = 48 := rfl

lemma stop_eq (b : Block) : b.stop = b.addr + 48 + b.capacity := rfl

lemma fits_iff {n : ℕ} {b : Block} : b.fits n ↔ b.free ∧ n ≤ b.capacity := by
  simp [fits]

@[simp] lemma stop_use (size : ℕ) (a : Block) : (a.use size).stop = a.stop := rfl

@[simp] lemma stop_release (a : Block) : a.release.stop = a.stop := rfl

@[simp] lemma addr_join (a b : Block) : (a.join b).addr = a.addr := rfl

lemma stop_join (a b : Block) (h : a.stop = b.addr) : (a.join b).stop = b.stop := by
  rw [stop_eq] at h
  rw [stop_eq, stop_eq]
  simp only [join, size_eq]
  omega

end Block

/-! ### Lists of blocks -/

/-- The bytes of a list of blocks. -/
def spans (bs : List Block) : List Span := bs.map Block.span

/-- The bytes that the heap itself may write. -/
def held (bs : List Block) : Set ℕ := cover (bs.map Block.held)

/-- The blocks in use, as the allocations they stand for. -/
def allocations (bs : List Block) : List (ℕ × ℕ) :=
  (bs.filter fun b => !b.free).map Block.allocation

/-- The blocks in use. -/
def used (bs : List Block) : List Block := bs.filter fun b => !b.free

/-- Well-formed blocks in address order, none overlapping the next. -/
structure Ordered (bs : List Block) : Prop where
  block : ∀ b ∈ bs, b.WellFormed
  sorted : bs.Pairwise fun a b => a.stop ≤ b.addr

/-- No two free neighbours touch. -/
def Coalesced (bs : List Block) : Prop := bs.IsChain fun a b => ¬ a.Joins b

variable {bs l₁ l₂ mid mid' : List Block} {a b c : Block} {x n size : ℕ}

@[simp] lemma spans_append : spans (l₁ ++ l₂) = spans l₁ ++ spans l₂ := List.map_append

@[simp] lemma spans_nil : spans [] = [] := rfl

@[simp] lemma spans_cons : spans (b :: bs) = b.span :: spans bs := rfl

@[simp] lemma held_append : held (l₁ ++ l₂) = held l₁ ∪ held l₂ := by
  simp [held]

@[simp] lemma held_cons : held (b :: bs) = b.held.points ∪ held bs := by
  simp [held]

@[simp] lemma held_nil : held [] = ∅ := by
  simp [held]

@[simp] lemma allocations_append :
    allocations (l₁ ++ l₂) = allocations l₁ ++ allocations l₂ := by
  simp [allocations]

lemma allocations_cons_free (h : b.free) : allocations (b :: bs) = allocations bs := by
  simp [allocations, h]

lemma allocations_cons_used (h : ¬ b.free) :
    allocations (b :: bs) = b.allocation :: allocations bs := by
  simp [allocations, h]

@[simp] lemma used_append : used (l₁ ++ l₂) = used l₁ ++ used l₂ := List.filter_append _ _

@[simp] lemma used_nil : used [] = [] := rfl

lemma used_cons_free (h : b.free) : used (b :: bs) = used bs := by
  simp [used, h]

lemma used_cons_used (h : ¬ b.free) : used (b :: bs) = b :: used bs := by
  simp [used, h]

@[simp] lemma mem_used : b ∈ used bs ↔ b ∈ bs ∧ ¬ b.free := by
  simp [used]

lemma allocations_eq_map (bs : List Block) : allocations bs = (used bs).map Block.allocation := rfl

lemma mem_held : x ∈ held bs ↔ ∃ b ∈ bs, b.addr ≤ x ∧ x < b.held.stop := by
  simp [held, mem_cover, Block.held]

lemma mem_allocations {p : ℕ × ℕ} :
    p ∈ allocations bs ↔ ∃ b ∈ bs, ¬ b.free ∧ b.allocation = p := by
  simp [allocations, and_assoc]

lemma mem_cover_spans : x ∈ cover (spans bs) ↔ ∃ b ∈ bs, b.addr ≤ x ∧ x < b.stop := by
  simp [spans, mem_cover, Block.span]

lemma Block.held_stop_le (b : Block) : b.held.stop ≤ b.stop := by
  simp only [held]
  split <;> simp [Block.stop]

lemma Block.addr_le_stop (b : Block) : b.addr + 48 ≤ b.stop := by
  simp [Block.stop]

/-- The heap writes only inside its blocks. -/
lemma held_subset_cover : held bs ⊆ cover (spans bs) := by
  intro x hx
  obtain ⟨b, hb, hle, hlt⟩ := mem_held.mp hx
  exact mem_cover_spans.mpr ⟨b, hb, hle, lt_of_lt_of_le hlt b.held_stop_le⟩

lemma ordered_append : Ordered (l₁ ++ l₂) ↔
    Ordered l₁ ∧ Ordered l₂ ∧ ∀ a ∈ l₁, ∀ b ∈ l₂, a.stop ≤ b.addr := by
  constructor
  · rintro ⟨hb, hs⟩
    rw [List.pairwise_append] at hs
    exact ⟨⟨fun b h => hb b (by simp [h]), hs.1⟩, ⟨fun b h => hb b (by simp [h]), hs.2.1⟩, hs.2.2⟩
  · rintro ⟨h₁, h₂, hsep⟩
    refine ⟨fun b hb => ?_, List.pairwise_append.mpr ⟨h₁.sorted, h₂.sorted, hsep⟩⟩
    exact (List.mem_append.mp hb).elim (h₁.block b) (h₂.block b)

lemma ordered_cons : Ordered (a :: bs) ↔
    a.WellFormed ∧ Ordered bs ∧ ∀ b ∈ bs, a.stop ≤ b.addr := by
  constructor
  · rintro ⟨hb, hs⟩
    rw [List.pairwise_cons] at hs
    exact ⟨hb a (by simp), ⟨fun b h => hb b (by simp [h]), hs.2⟩, hs.1⟩
  · rintro ⟨ha, h, hsep⟩
    refine ⟨fun b hb => ?_, List.pairwise_cons.mpr ⟨hsep, h.sorted⟩⟩
    rcases List.mem_cons.mp hb with rfl | hb
    · exact ha
    · exact h.block b hb

lemma ordered_nil : Ordered [] := ⟨by simp, List.Pairwise.nil⟩

lemma ordered_singleton : Ordered [a] ↔ a.WellFormed := by
  simp [ordered_cons, ordered_nil]

/-- A run of blocks may be replaced by one that stays in the same place. -/
lemma Ordered.replace (h : Ordered (l₁ ++ mid ++ l₂)) (hmid : Ordered mid')
    (hstart : ∀ c ∈ mid', ∃ b ∈ mid, b.addr ≤ c.addr)
    (hstop : ∀ c ∈ mid', ∃ b ∈ mid, c.stop ≤ b.stop) : Ordered (l₁ ++ mid' ++ l₂) := by
  rw [ordered_append, ordered_append] at h ⊢
  obtain ⟨⟨h₁, -, hleft⟩, h₂, hright⟩ := h
  refine ⟨⟨h₁, hmid, fun a ha c hc => ?_⟩, h₂, fun a ha d hd => ?_⟩
  · obtain ⟨b, hb, hbc⟩ := hstart c hc
    exact (hleft a ha b hb).trans hbc
  · rcases List.mem_append.mp ha with ha | ha
    · exact hright a (by simp [ha]) d hd
    · obtain ⟨b, hb, hbc⟩ := hstop a ha
      exact hbc.trans (hright b (by simp [hb]) d hd)

/-- Two blocks of an ordered list are the same or lie one behind the other. -/
lemma Ordered.eq_or_apart (h : Ordered bs) (ha : a ∈ bs) (hb : b ∈ bs) :
    a = b ∨ a.stop ≤ b.addr ∨ b.stop ≤ a.addr := by
  by_contra hne
  push Not at hne
  have : Std.Symm fun a b : Block => a.stop ≤ b.addr ∨ b.stop ≤ a.addr := ⟨fun _ _ => Or.symm⟩
  have hpw : bs.Pairwise fun a b => a.stop ≤ b.addr ∨ b.stop ≤ a.addr := h.sorted.imp Or.inl
  have hcases := hpw.forall ha hb hne.1
  omega

/-- The blocks fit in the address space, which leaves out the null pointer. -/
lemma Ordered.total_le (h : Ordered bs) : total (spans bs) + heapAlignment ≤ 2 ^ 64 := by
  have hgen : ∀ A, A ≤ 2 ^ 64 → (∀ b ∈ bs, A ≤ b.addr) → total (spans bs) + A ≤ 2 ^ 64 := by
    induction bs with
    | nil =>
      intro A hA _
      simpa [spans] using hA
    | cons a l ih =>
      intro A _ hstart
      obtain ⟨ha, hl, hsep⟩ := ordered_cons.mp h
      have hrest := ih hl a.stop ha.stop_le hsep
      have hlow := hstart a (by simp)
      have hlen := a.addr_le_stop
      rw [spans_cons, total_cons, Span.length]
      simp only [Block.span]
      omega
  refine hgen heapAlignment (by norm_num [heapAlignment]) fun b hb => ?_
  exact Nat.le_of_dvd (h.block b hb).addr_pos (h.block b hb).addr_dvd

/-- A block among others adds its own share. -/
lemma held_middle : held (l₁ ++ c :: l₂) = held (l₁ ++ l₂) ∪ c.held.points := by
  simp only [held_append, held_cons]
  ext x
  simp only [Set.mem_union]
  tauto

lemma Block.held_subset (c : Block) : c.held.points ⊆ c.span.points := by
  intro x hx
  have := c.held_stop_le
  simp only [held, span, Span.mem_points] at *
  omega

/-! ### Joining neighbours -/

/-- Two runs of blocks with the same bytes, the same share of the heap in them
and the same allocations. -/
structure Refits (l l' : List Block) : Prop where
  cover_eq : cover (spans l') = cover (spans l)
  total_eq : total (spans l') = total (spans l)
  held_eq : held l' = held l
  allocations_eq : allocations l' = allocations l

lemma Refits.refl (l : List Block) : Refits l l := ⟨rfl, rfl, rfl, rfl⟩

lemma Refits.trans {l l' l'' : List Block} (h : Refits l l') (h' : Refits l' l'') :
    Refits l l'' :=
  ⟨h'.cover_eq.trans h.cover_eq, h'.total_eq.trans h.total_eq, h'.held_eq.trans h.held_eq,
    h'.allocations_eq.trans h.allocations_eq⟩

/-- Refitting a part of a list refits the list. -/
lemma Refits.within (h : Refits mid mid') (l₁ l₂ : List Block) :
    Refits (l₁ ++ mid ++ l₂) (l₁ ++ mid' ++ l₂) where
  cover_eq := by simp [h.cover_eq]
  total_eq := by simp [h.total_eq]
  held_eq := by simp [h.held_eq]
  allocations_eq := by simp [h.allocations_eq]

namespace Block

lemma Joins.wellFormed (h : a.Joins b) (ha : a.WellFormed) (hb : b.WellFormed) :
    (a.join b).WellFormed where
  addr_pos := ha.addr_pos
  addr_dvd := ha.addr_dvd
  capacity_dvd := Nat.dvd_add ha.capacity_dvd (Nat.dvd_add ⟨3, rfl⟩ hb.capacity_dvd)
  stop_le := by
    rw [stop_join a b h.2.2]
    exact hb.stop_le
  requested_free _ := rfl
  requested_used hused := absurd h.1 hused

lemma Joins.refits (h : a.Joins b) : Refits [a, b] [a.join b] where
  cover_eq := by
    ext x
    have hstop := stop_join a b h.2.2
    have hab := h.2.2
    have ha := a.addr_le_stop
    have hb := b.addr_le_stop
    simp only [mem_cover_spans, List.mem_cons, List.not_mem_nil, or_false, exists_eq_left,
      exists_eq_or_imp, hstop, addr_join]
    omega
  total_eq := by
    have hstop := stop_join a b h.2.2
    have hab := h.2.2
    have ha := a.addr_le_stop
    have hb := b.addr_le_stop
    simp only [spans_cons, total_cons, Span.length, span, hstop, addr_join]
    omega
  held_eq := by
    ext x
    have hstop := stop_join a b h.2.2
    have hab := h.2.2
    have ha := a.addr_le_stop
    have hb := b.addr_le_stop
    have hfree : (a.join b).free = true := h.1
    simp only [mem_held, List.mem_cons, List.not_mem_nil, or_false, exists_eq_left,
      exists_eq_or_imp, Block.held, h.1, h.2.1, hfree, hstop, addr_join, if_true]
    omega
  allocations_eq := by
    have hfree : (a.join b).free = true := h.1
    rw [allocations_cons_free hfree, allocations_cons_free h.1, allocations_cons_free h.2.1]

/-- To a block in front, a joined block looks like its first part. -/
lemma joins_join_left (c : Block) : c.Joins (a.join b) ↔ c.Joins a := Iff.rfl

/-- To a block behind, a joined block looks like its second part. -/
lemma Joins.join_joins (h : a.Joins b) (c : Block) : (a.join b).Joins c ↔ b.Joins c := by
  have hfree : (a.join b).free = true := h.1
  rw [Joins, Joins, stop_join a b h.2.2, hfree, h.2.1]

end Block

lemma Ordered.join (h : Ordered (l₁ ++ a :: b :: l₂)) (hab : a.Joins b) :
    Ordered (l₁ ++ a.join b :: l₂) := by
  have hsplit : l₁ ++ a :: b :: l₂ = l₁ ++ [a, b] ++ l₂ := by simp
  have hwf := hab.wellFormed (h.block a (by simp)) (h.block b (by simp))
  rw [hsplit] at h
  have hjoined := h.replace (ordered_singleton.mpr hwf)
    (by simp) (by simp [Block.stop_join a b hab.2.2])
  simpa using hjoined

/-- The first block of a list joined with the second one when both are free and
touch: what `merge_with_next` does. -/
def mergeHead : List Block → List Block
  | a :: b :: l => if a.Joins b then a.join b :: l else a :: b :: l
  | l => l

/-- The block `a` joined with the last block of `l₁` when both are free and
touch. -/
def joinBack (l₁ : List Block) (a : Block) : List Block × Block :=
  match l₁.getLast? with
  | some p => if p.Joins a then (l₁.dropLast, p.join a) else (l₁, a)
  | none => (l₁, a)

/-- A free block joined with both of its neighbours. -/
def coalesce (l₁ : List Block) (a : Block) (l₂ : List Block) : List Block :=
  (joinBack l₁ a).1 ++ mergeHead ((joinBack l₁ a).2 :: l₂)

lemma mergeHead_cons (a : Block) (l : List Block) :
    mergeHead (a :: l) = a :: l ∨
      ∃ b l', l = b :: l' ∧ a.Joins b ∧ mergeHead (a :: l) = a.join b :: l' := by
  cases l with
  | nil => exact Or.inl rfl
  | cons b l =>
    rw [mergeHead]
    split
    · exact Or.inr ⟨b, l, rfl, by assumption, rfl⟩
    · exact Or.inl rfl

@[simp] lemma joinBack_nil (a : Block) : joinBack [] a = ([], a) := rfl

@[simp] lemma joinBack_concat (l : List Block) (p a : Block) :
    joinBack (l ++ [p]) a = if p.Joins a then (l, p.join a) else (l ++ [p], a) := by
  simp [joinBack]

lemma mergeHead_refits (h : Ordered (l₁ ++ a :: l₂)) :
    Ordered (l₁ ++ mergeHead (a :: l₂)) ∧
      Refits (l₁ ++ a :: l₂) (l₁ ++ mergeHead (a :: l₂)) := by
  rcases mergeHead_cons a l₂ with hkeep | ⟨b, l, rfl, hab, hjoin⟩
  · rw [hkeep]
    exact ⟨h, Refits.refl _⟩
  · rw [hjoin]
    exact ⟨h.join hab, by simpa using hab.refits.within l₁ l⟩

lemma joinBack_refits (h : Ordered (l₁ ++ a :: l₂)) :
    Ordered ((joinBack l₁ a).1 ++ (joinBack l₁ a).2 :: l₂) ∧
      Refits (l₁ ++ a :: l₂) ((joinBack l₁ a).1 ++ (joinBack l₁ a).2 :: l₂) := by
  rcases List.eq_nil_or_concat' l₁ with rfl | ⟨l, p, rfl⟩
  · exact ⟨h, Refits.refl _⟩
  · rw [joinBack_concat]
    split
    case isTrue hpa =>
      rw [List.append_assoc] at h
      exact ⟨h.join hpa, by simpa using hpa.refits.within l l₂⟩
    case isFalse => exact ⟨h, Refits.refl _⟩

lemma coalesced_nil : Coalesced [] := List.IsChain.nil

lemma coalesced_split : Coalesced (l₁ ++ a :: l₂) ↔ Coalesced (l₁ ++ [a]) ∧ Coalesced (a :: l₂) :=
  List.isChain_split

/-- Whether a block touches a free one in front matters only for its place and
its flag. -/
lemma Coalesced.concat_congr (h : Coalesced (l₁ ++ [a])) (hb : ∀ c : Block, c.Joins b → c.Joins a) :
    Coalesced (l₁ ++ [b]) := by
  rw [Coalesced, List.isChain_append] at h ⊢
  refine ⟨h.1, List.isChain_singleton b, fun c hc d hd => ?_⟩
  obtain rfl : b = d := by simpa using hd
  exact fun hjoins => h.2.2 c hc a (by simp) (hb c hjoins)

lemma Coalesced.cons_congr (h : Coalesced (a :: l₂)) (hb : ∀ c, b.Joins c → a.Joins c) :
    Coalesced (b :: l₂) := by
  rw [Coalesced, List.isChain_cons] at h ⊢
  exact ⟨fun c hc hjoins => h.1 c hc (hb c hjoins), h.2⟩

lemma coalesced_mergeHead (h₁ : Coalesced (l₁ ++ [a])) (h₂ : Coalesced l₂) :
    Coalesced (l₁ ++ mergeHead (a :: l₂)) := by
  cases l₂ with
  | nil => exact h₁
  | cons b l =>
    rw [mergeHead]
    split
    case isTrue hab =>
      refine coalesced_split.mpr ⟨h₁.concat_congr fun c => (Block.joins_join_left c).mp, ?_⟩
      exact h₂.cons_congr fun c => (hab.join_joins c).mp
    case isFalse hab =>
      exact coalesced_split.mpr ⟨h₁, List.isChain_cons_cons.mpr ⟨hab, h₂⟩⟩

lemma coalesced_joinBack (h₁ : Coalesced l₁) :
    Coalesced ((joinBack l₁ a).1 ++ [(joinBack l₁ a).2]) := by
  rcases List.eq_nil_or_concat' l₁ with rfl | ⟨l, p, rfl⟩
  · exact List.isChain_singleton a
  · rw [joinBack_concat]
    split
    case isTrue => exact h₁.concat_congr fun c => (Block.joins_join_left c).mp
    case isFalse hpa =>
      rw [List.append_assoc]
      exact coalesced_split.mpr ⟨h₁, List.isChain_pair.mpr hpa⟩

/-- **Coalescing.**  Joining a block with both of its neighbours keeps bytes and
allocations and leaves no touching free pair. -/
theorem coalesce_spec (h : Ordered (l₁ ++ a :: l₂)) (h₁ : Coalesced l₁) (h₂ : Coalesced l₂) :
    Ordered (coalesce l₁ a l₂) ∧ Coalesced (coalesce l₁ a l₂) ∧
      Refits (l₁ ++ a :: l₂) (coalesce l₁ a l₂) := by
  obtain ⟨hback, hrefits⟩ := joinBack_refits h
  obtain ⟨hmerge, hrefits'⟩ := mergeHead_refits hback
  exact ⟨hmerge, coalesced_mergeHead (coalesced_joinBack h₁) h₂, hrefits.trans hrefits'⟩

lemma used_mergeHead (a : Block) (l : List Block) : used (mergeHead (a :: l)) = used (a :: l) := by
  rcases mergeHead_cons a l with hkeep | ⟨b, l', rfl, hab, hjoin⟩
  · rw [hkeep]
  · have hfree : (a.join b).free = true := hab.1
    rw [hjoin, used_cons_free hfree, used_cons_free hab.1, used_cons_free hab.2.1]

/-- Coalescing leaves the blocks in use as they are. -/
lemma used_coalesce (ha : a.free) : used (coalesce l₁ a l₂) = used l₁ ++ used l₂ := by
  rw [coalesce, used_append, used_mergeHead]
  rcases List.eq_nil_or_concat' l₁ with rfl | ⟨l, p, rfl⟩
  · rw [joinBack_nil, used_cons_free ha]
  · rw [joinBack_concat]
    split
    case isTrue hpa =>
      have hfree : (p.join a).free = true := hpa.1
      rw [used_cons_free hfree, used_append, used_cons_free hpa.1, used_nil, List.append_nil]
    case isFalse => rw [used_cons_free ha]

/-- A coalesced block is still there, and no smaller. -/
lemma exists_fits_coalesce (l₁ l₂ : List Block) (ha : a.fits n) :
    ∃ b ∈ coalesce l₁ a l₂, b.fits n := by
  have hjoin : ∀ p b : Block, p.Joins b → (p.fits n ∨ b.fits n) → (p.join b).fits n := by
    intro p b hpb hfit
    simp only [Block.fits, Bool.and_eq_true, decide_eq_true_eq] at hfit ⊢
    refine ⟨hpb.1, ?_⟩
    simp only [Block.join, Block.size_eq]
    omega
  have hback : (joinBack l₁ a).2.fits n := by
    rcases List.eq_nil_or_concat' l₁ with rfl | ⟨l, p, rfl⟩
    · exact ha
    · rw [joinBack_concat]
      split
      case isTrue hpa => exact hjoin p a hpa (Or.inr ha)
      case isFalse => exact ha
  rcases mergeHead_cons (joinBack l₁ a).2 l₂ with hkeep | ⟨b, l, rfl, hab, hjoined⟩
  · exact ⟨_, by simp [coalesce, hkeep], hback⟩
  · exact ⟨_, by simp [coalesce, hjoined], hjoin _ b hab (Or.inl hback)⟩

/-! ### Handing out, freeing and inserting a block -/

namespace Block

@[simp] lemma addr_front (n : ℕ) (a : Block) : (a.front n).addr = a.addr := rfl

@[simp] lemma free_front (n : ℕ) (a : Block) : (a.front n).free = a.free := rfl

@[simp] lemma addr_use (size : ℕ) (a : Block) : (a.use size).addr = a.addr := rfl

@[simp] lemma capacity_use (size : ℕ) (a : Block) : (a.use size).capacity = a.capacity := rfl

@[simp] lemma free_use (size : ℕ) (a : Block) : (a.use size).free = false := rfl

@[simp] lemma addr_release (a : Block) : a.release.addr = a.addr := rfl

/-- Cutting a block down keeps what was asked for. -/
lemma le_capacity_front (h : n ≤ a.capacity) : n ≤ (a.front n).capacity := by
  simp only [front]
  split <;> omega

lemma WellFormed.front (ha : a.WellFormed) (hn : heapAlignment ∣ n) (hle : n ≤ a.capacity)
    (hfree : a.free) : (a.front n).WellFormed where
  addr_pos := ha.addr_pos
  addr_dvd := ha.addr_dvd
  capacity_dvd := by
    have hcap := ha.capacity_dvd
    simp only [Block.front]
    split <;> assumption
  stop_le := by
    have hstop := ha.stop_le
    rw [stop_eq] at hstop
    rw [stop_eq, addr_front]
    simp only [Block.front]
    split <;> omega
  requested_free := ha.requested_free
  requested_used hused := absurd hfree hused

lemma WellFormed.use (ha : a.WellFormed) (hpos : 0 < size)
    (hsize : size + heapCanaryBytes ≤ a.capacity) : (a.use size).WellFormed where
  addr_pos := ha.addr_pos
  addr_dvd := ha.addr_dvd
  capacity_dvd := ha.capacity_dvd
  stop_le := ha.stop_le
  requested_free hfree := by simp at hfree
  requested_used _ := ⟨hpos, hsize⟩

lemma WellFormed.release (ha : a.WellFormed) : a.release.WellFormed where
  addr_pos := ha.addr_pos
  addr_dvd := ha.addr_dvd
  capacity_dvd := ha.capacity_dvd
  stop_le := ha.stop_le
  requested_free _ := rfl
  requested_used hused := absurd rfl hused

/-- The rest of a block is a free block behind its front, with the same end. -/
lemma mem_rest (hn : heapAlignment ∣ n) (ha : a.WellFormed) (h : b ∈ a.rest n) :
    b.WellFormed ∧ b.free ∧ b.addr = (a.front n).stop ∧ b.stop = a.stop := by
  simp only [rest] at h
  split at h
  case isTrue hsplits =>
    obtain rfl := List.mem_singleton.mp h
    have hcap := ha.capacity_dvd
    have haddr := ha.addr_dvd
    have hstop := ha.stop_le
    have hroom : 80 ≤ a.capacity - n := hsplits
    have hfront : (a.front n).stop = a.addr + 48 + n := by
      simp [stop_eq, front, if_pos hsplits]
    have hend : a.addr + 48 + n + 48 + (a.capacity - n - 48) = a.stop := by
      rw [stop_eq]
      omega
    refine ⟨⟨?_, ?_, ?_, ?_, fun _ => rfl, fun hused => absurd rfl hused⟩, rfl, hfront.symm, hend⟩
    · simp
    · exact Nat.dvd_add (Nat.dvd_add haddr ⟨3, rfl⟩) hn
    · exact Nat.dvd_sub (Nat.dvd_sub hcap hn) ⟨3, rfl⟩
    · exact hend.le.trans hstop
  case isFalse => simp at h

/-- The parts of a block lie inside it. -/
lemma mem_split (hn : heapAlignment ∣ n) (hle : n ≤ a.capacity) (ha : a.WellFormed)
    (h : b ∈ a.split n) : a.addr ≤ b.addr ∧ b.stop ≤ a.stop := by
  have hfront : (a.front n).stop ≤ a.stop := by
    simp only [stop_eq, front]
    split <;> omega
  rcases List.mem_cons.mp h with rfl | hrest
  · exact ⟨le_refl _, hfront⟩
  · obtain ⟨-, -, haddr, hstop⟩ := mem_rest hn ha hrest
    have := (a.front n).addr_le_stop
    rw [addr_front] at this
    exact ⟨by omega, hstop.le⟩

lemma WellFormed.ordered_split (ha : a.WellFormed) (hn : heapAlignment ∣ n) (hle : n ≤ a.capacity)
    (hfree : a.free) : Ordered (a.split n) := by
  refine ordered_cons.mpr ⟨ha.front hn hle hfree, ⟨fun b hb => (mem_rest hn ha hb).1, ?_⟩,
    fun b hb => (mem_rest hn ha hb).2.2.1.ge⟩
  simp only [rest]
  split <;> simp

/-- Cutting a free block in two changes neither its bytes nor whose they are. -/
lemma split_refits (hle : n ≤ a.capacity) (hfree : a.free) : Refits [a] (a.split n) := by
  by_cases hsplits : a.Splits n
  · have hroom : 80 ≤ a.capacity - n := hsplits
    have hparts : a.split n = [{ a with capacity := n },
        { addr := a.addr + 48 + n, capacity := a.capacity - n - 48, requested := 0,
          free := true }] := by
      simp [split, front, rest, if_pos hsplits]
    rw [hparts]
    constructor
    · ext x
      simp only [mem_cover_spans, List.mem_cons, List.not_mem_nil, or_false, exists_eq_left,
        exists_eq_or_imp, stop_eq]
      omega
    · simp only [spans_cons, total_cons, Span.length, span, stop_eq]
      omega
    · ext x
      simp only [mem_held, Block.held, List.mem_cons, List.not_mem_nil, or_false, exists_eq_left,
        exists_eq_or_imp, stop_eq, hfree, if_true]
      omega
    · simp [allocations, hfree]
  · have hwhole : a.split n = [a] := by
      simp [split, front, rest, if_neg hsplits]
    rw [hwhole]
    exact Refits.refl _

/-- To the blocks behind, what is left of a free block looks like the block. -/
lemma coalesced_take (hn : heapAlignment ∣ n) (ha : a.WellFormed) (hfree : a.free)
    (h : Coalesced (a :: l₂)) : Coalesced (a.take n size ++ l₂) := by
  have hused : ∀ c, ¬ ((a.front n).use size).Joins c := fun c hjoins => by
    simp [Joins] at hjoins
  have htail : Coalesced l₂ := List.IsChain.of_cons h
  by_cases hsplits : a.Splits n
  · have hmem : ∀ t ∈ a.rest n, t.free ∧ t.stop = a.stop := fun t ht =>
      ⟨(mem_rest hn ha ht).2.1, (mem_rest hn ha ht).2.2.2⟩
    simp only [take, rest, if_pos hsplits, List.mem_singleton, forall_eq] at hmem ⊢
    refine List.isChain_cons_cons.mpr ⟨hused _, h.cons_congr fun c hjoins => ?_⟩
    rw [Joins, hmem.2] at hjoins
    exact ⟨hfree, hjoins.2⟩
  · simp only [take, rest, if_neg hsplits, List.singleton_append]
    exact List.isChain_cons.mpr ⟨fun c _ => hused c, htail⟩

end Block

lemma Ordered.split (h : Ordered (l₁ ++ a :: l₂)) (hn : heapAlignment ∣ n) (hle : n ≤ a.capacity)
    (hfree : a.free) : Ordered (l₁ ++ a.split n ++ l₂) := by
  have hwf := h.block a (by simp)
  have hsplit : l₁ ++ a :: l₂ = l₁ ++ [a] ++ l₂ := by simp
  rw [hsplit] at h
  exact h.replace (hwf.ordered_split hn hle hfree)
    (fun c hc => ⟨a, by simp, (Block.mem_split hn hle hwf hc).1⟩)
    fun c hc => ⟨a, by simp, (Block.mem_split hn hle hwf hc).2⟩

/-- A block may change its state where it is. -/
lemma Ordered.retag (h : Ordered (l₁ ++ a :: l₂)) (hb : b.WellFormed) (haddr : b.addr = a.addr)
    (hstop : b.stop = a.stop) : Ordered (l₁ ++ b :: l₂) := by
  have hsplit : ∀ c, l₁ ++ c :: l₂ = l₁ ++ [c] ++ l₂ := by simp
  rw [hsplit] at h ⊢
  exact h.replace (ordered_singleton.mpr hb) (by simp [haddr]) (by simp [hstop])

/-- Handing out a block adds its front to the blocks in use. -/
lemma used_take (hn : heapAlignment ∣ n) (ha : a.WellFormed) :
    used (l₁ ++ a.take n size ++ l₂) = used l₁ ++ (a.front n).use size :: used l₂ := by
  have hrest : used (a.rest n) = [] := by
    refine List.eq_nil_iff_forall_not_mem.mpr fun b hb => ?_
    obtain ⟨hmem, hused⟩ := mem_used.mp hb
    exact hused (Block.mem_rest hn ha hmem).2.1
  rw [Block.take, used_append, used_append, used_cons_used (by simp), hrest]
  simp

/-- **Handing out a block.**  Cutting a free block down and handing out its
front keeps bytes and order and adds one allocation. -/
theorem take_spec (h : Ordered (l₁ ++ a :: l₂)) (hc : Coalesced (l₁ ++ a :: l₂)) (ha : a.free)
    (hn : heapAlignment ∣ n) (hle : n ≤ a.capacity) (hpos : 0 < size)
    (hsize : size + heapCanaryBytes ≤ n) :
    Ordered (l₁ ++ a.take n size ++ l₂) ∧ Coalesced (l₁ ++ a.take n size ++ l₂) ∧
      cover (spans (l₁ ++ a.take n size ++ l₂)) = cover (spans (l₁ ++ a :: l₂)) ∧
      total (spans (l₁ ++ a.take n size ++ l₂)) = total (spans (l₁ ++ a :: l₂)) ∧
      held (l₁ ++ a.take n size ++ l₂) ⊆ held (l₁ ++ a :: l₂) ∧
      allocations (l₁ ++ a.take n size ++ l₂) =
        allocations l₁ ++ (payload a.addr, size) :: allocations l₂ := by
  have hwf := h.block a (by simp)
  obtain ⟨hleft, hright⟩ := coalesced_split.mp hc
  have hrefits : Refits (l₁ ++ a :: l₂) (l₁ ++ a.split n ++ l₂) := by
    simpa using (Block.split_refits hle ha).within l₁ l₂
  have hspans : spans (a.take n size) = spans (a.split n) := rfl
  refine ⟨?_, ?_, ?_, ?_, ?_, ?_⟩
  · have hord := h.split hn hle ha
    rw [Block.split, List.append_assoc, List.cons_append] at hord
    rw [Block.take, List.append_assoc, List.cons_append]
    exact hord.retag ((hord.block _ (by simp)).use hpos
      (hsize.trans (Block.le_capacity_front hle))) rfl rfl
  · rw [List.append_assoc]
    refine coalesced_split.mpr ⟨hleft.concat_congr fun c hjoins => ?_,
      Block.coalesced_take hn hwf ha hright⟩
    simp [Block.Joins] at hjoins
  · rw [← hrefits.cover_eq]
    simp [hspans]
  · rw [← hrefits.total_eq]
    simp [hspans]
  · rw [← hrefits.held_eq]
    simp only [held_append, Block.take, Block.split, held_cons]
    have huse : ((a.front n).use size).held.points ⊆ (a.front n).held.points := by
      intro x hx
      have := (a.front n).addr_le_stop
      simp only [Block.held, Span.mem_points, Block.free_use, Block.free_front, ha, Block.addr_use,
        Block.addr_front, Block.payload_eq, if_true, Bool.false_eq_true, if_false] at *
      omega
    exact Set.union_subset_union_left _ (Set.union_subset_union_right _
      (Set.union_subset_union_left _ huse))
  · rw [allocations_eq_map, used_take hn hwf]
    simp [allocations_eq_map, Block.allocation, Block.use]

/-- The blocks in front of an address. -/
def before (addr : ℕ) (bs : List Block) : List Block := bs.takeWhile fun b => decide (b.addr < addr)

/-- The blocks from an address on. -/
def behind (addr : ℕ) (bs : List Block) : List Block := bs.dropWhile fun b => decide (b.addr < addr)

lemma before_append_behind (addr : ℕ) (bs : List Block) : before addr bs ++ behind addr bs = bs :=
  List.takeWhile_append_dropWhile

lemma Ordered.mem_behind {addr : ℕ} (h : Ordered bs) (hb : b ∈ behind addr bs) :
    addr ≤ b.addr := by
  induction bs with
  | nil => simp [behind] at hb
  | cons a l ih =>
    obtain ⟨-, hl, hsep⟩ := ordered_cons.mp h
    rw [behind, List.dropWhile_cons] at hb
    split at hb
    case isTrue => exact ih hl hb
    case isFalse hlt =>
      have ha : addr ≤ a.addr := by simpa using hlt
      rcases List.mem_cons.mp hb with rfl | hb
      · exact ha
      · have := hsep b hb
        have := a.addr_le_stop
        omega

/-- A new block goes between the blocks in front of it and those behind. -/
lemma Ordered.insert (h : Ordered bs) (hc : c.WellFormed)
    (hdisj : Disjoint c.span.points (cover (spans bs))) :
    Ordered (before c.addr bs ++ c :: behind c.addr bs) := by
  have hapart : ∀ b ∈ bs, b.stop ≤ c.addr ∨ c.stop ≤ b.addr := by
    intro b hb
    by_contra hne
    push Not at hne
    have hb' := b.addr_le_stop
    have hc' := c.addr_le_stop
    have hc'' : max b.addr c.addr ∈ c.span.points := by
      simp only [Block.span, Span.mem_points]
      omega
    exact Set.disjoint_left.mp hdisj hc'' (mem_cover_spans.mpr ⟨b, hb, by omega, by omega⟩)
  have hparts := before_append_behind c.addr bs ▸ h
  obtain ⟨hbefore, hbehind, hsep⟩ := ordered_append.mp hparts
  refine ordered_append.mpr ⟨hbefore, ordered_cons.mpr ⟨hc, hbehind, fun b hb => ?_⟩,
    fun a ha b hb => ?_⟩
  · have hge := h.mem_behind hb
    have hmem : b ∈ bs := List.dropWhile_subset _ hb
    have := hapart b hmem
    have := b.addr_le_stop
    omega
  · rcases List.mem_cons.mp hb with rfl | hb
    · have hlt : a.addr < b.addr := by simpa using List.mem_takeWhile_imp ha
      have hmem : a ∈ bs := List.takeWhile_subset _ ha
      have := hapart a hmem
      have := b.addr_le_stop
      omega
    · exact hsep a ha b hb

/-- A free block put at its place and joined with its neighbours. -/
def insertBlock (c : Block) (bs : List Block) : List Block :=
  coalesce (before c.addr bs) c (behind c.addr bs)

lemma used_insertBlock (hfree : c.free) : used (insertBlock c bs) = used bs := by
  rw [insertBlock, used_coalesce hfree, ← used_append, before_append_behind]

/-- **Inserting a block.**  A free block outside the heap adds its bytes and no
allocation. -/
theorem insertBlock_spec (h : Ordered bs) (hcoal : Coalesced bs) (hc : c.WellFormed)
    (hfree : c.free) (hdisj : Disjoint c.span.points (cover (spans bs))) :
    Ordered (insertBlock c bs) ∧ Coalesced (insertBlock c bs) ∧
      cover (spans (insertBlock c bs)) = cover (spans bs) ∪ c.span.points ∧
      total (spans (insertBlock c bs)) = total (spans bs) + c.span.length ∧
      held (insertBlock c bs) ⊆ held bs ∪ c.span.points ∧
      allocations (insertBlock c bs) = allocations bs := by
  have hinsert := h.insert hc hdisj
  have hparts := before_append_behind c.addr bs
  have hcoal' := hparts.symm ▸ hcoal
  obtain ⟨hord, hcoalesced, hrefits⟩ := coalesce_spec hinsert
    (List.IsChain.left_of_append hcoal') (List.IsChain.right_of_append hcoal')
  refine ⟨hord, hcoalesced, ?_, ?_, ?_, ?_⟩
  · calc cover (spans (insertBlock c bs))
        = cover (spans (before c.addr bs ++ c :: behind c.addr bs)) := hrefits.cover_eq
      _ = cover (spans (before c.addr bs ++ behind c.addr bs)) ∪ c.span.points := by
          simp only [spans_append, spans_cons, cover_append, cover_cons]
          rw [Set.union_left_comm, Set.union_comm]
      _ = cover (spans bs) ∪ c.span.points := by rw [hparts]
  · calc total (spans (insertBlock c bs))
        = total (spans (before c.addr bs ++ c :: behind c.addr bs)) := hrefits.total_eq
      _ = total (spans (before c.addr bs ++ behind c.addr bs)) + c.span.length := by
          simp only [spans_append, spans_cons, total_append, total_cons]
          omega
      _ = total (spans bs) + c.span.length := by rw [hparts]
  · calc held (insertBlock c bs)
        = held (before c.addr bs ++ c :: behind c.addr bs) := hrefits.held_eq
      _ = held bs ∪ c.held.points := by rw [held_middle, hparts]
      _ ⊆ held bs ∪ c.span.points := Set.union_subset_union_right _ c.held_subset
  · rw [allocations_eq_map, allocations_eq_map, used_insertBlock hfree]

end JoshOS.Heap
