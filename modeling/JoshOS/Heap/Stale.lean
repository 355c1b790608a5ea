import JoshOS.Heap.Runs

/-!
Pointers that were freed.

After a block was freed, its header may be merged into another block, overwritten by a
fill pattern, or end up inside the payload or the header of a later block.  `kfree` of the
old pointer then reads whatever is there.  It is refused unless that is the mark of an
allocation.

* `Marked`: the bytes behind a canary are the fill pattern, and no header that was ever
  handed out carries the mark unless it lies in a block in use.
* `double_free_detected`: a pointer that is not live is refused, and nothing changes.
-/

namespace JoshOS.Heap

open Memory RecordLayout Session Runs Heap.Block List Links Words Spans

variable {m m' : Memory} {head : ℕ} {bs bs' l₁ l₂ : List Block} {a b : Block} {x y n size : ℕ}
  {ever : Set ℕ}

/-! ### Aligned words -/

/-- A block contains an aligned word or misses it. -/
lemma Block.WellFormed.word_mem_iff (h : b.WellFormed) (hx : heapAlignment ∣ x) (hle : x ≤ y)
    (hlt : y < x + 8) : y ∈ b.span.points ↔ x ∈ b.span.points := by
  have haddr := h.addr_dvd
  have hcap := h.capacity_dvd
  simp only [span, Span.mem_points, stop_eq, heapAlignment] at *
  omega

lemma Ordered.word_mem_cover_iff (h : Ordered bs) (hx : heapAlignment ∣ x) (hle : x ≤ y)
    (hlt : y < x + 8) : y ∈ cover (spans bs) ↔ x ∈ cover (spans bs) := by
  rw [mem_cover_spans, mem_cover_spans]
  exact exists_congr fun b => and_congr_right fun hb =>
    (h.block b hb).word_mem_iff hx hle hlt

/-- A word whose byte differs from that of the mark is not the mark. -/
lemma read64_ne_of_byte {k : ℕ} (hk : k < 8)
    (h : (m (x + k)).toNat ≠ heapAllocMagic / 256 ^ k % 256) :
    read64 m x ≠ heapAllocMagic := by
  intro heq
  rw [← heq] at h
  exact h (readLE_div_mod m x hk).symm

/-- The words of a header at aligned addresses. -/
lemma Holds.header_word (h : Holds m head (l₁ ++ a :: l₂)) (ha : heapAlignment ∣ a.addr)
    (hx : heapAlignment ∣ x) (hle : a.addr ≤ x) (hlt : x < payload a.addr) :
    (x = a.addr ∧ read64 m x = if a.free then heapFreeMagic else heapAllocMagic) ∨
      Memory.read64 m x = a.requested ∨ Memory.read64 m x = last 0 (nodes l₁) := by
  have hheader := h.header a (by simp)
  have hprev := h.prev_eq
  have hmagic := hheader.magic
  have hreq := hheader.requested
  rw [RecordLayout.get] at hprev hmagic hreq
  simp only [payload_eq, heapAlignment] at *
  have hcases : x = a.addr ∨ x = a.addr + 16 ∨ x = a.addr + 32 := by omega
  rcases hcases with rfl | rfl | rfl
  · exact .inl ⟨rfl, hmagic⟩
  · exact .inr (.inl hreq)
  · exact .inr (.inr hprev)

/-! ### What `kmalloc` and `kfree` leave in memory -/

/-- Behind the canary, a block that was handed out is filled. -/
lemma stampBlock_filled (h : Header m a) (hle : payload a.addr + size + heapCanaryBytes ≤ x)
    (hlt : x < a.stop) (hsize : size < 2 ^ 64) : stampBlock a.addr size m x = 0xcd := by
  rw [stampBlock, write64_apply_of_notMem (.inr hle)]
  refine fill_apply_of_mem (by omega) ?_
  rw [get_set (.inl rfl) (by decide), get_set (.inl rfl) hsize,
    get_set (.inl rfl) (by decide)]
  simpa [h.capacity, stop_eq] using hlt

/-- A block that was taken back carries no mark. -/
lemma poisonBlock_word (hord : Ordered (l₁ ++ a :: l₂)) (h : Holds m head (l₁ ++ a :: l₂))
    (hx : heapAlignment ∣ x) (hmem : x ∈ a.span.points) :
    read64 (poisonBlock a.addr m) x ≠ heapAllocMagic := by
  have ha := (hord.block a (by simp)).addr_dvd
  by_cases hlt : x < payload a.addr
  · have hleft : Ordered l₁ := (ordered_append.mp hord).1
    rcases (poisonBlock_holds hord h).1.header_word ha hx hmem.1 hlt with ⟨-, hval⟩ | hval | hval
    · rw [hval]
      exact show heapFreeMagic ≠ heapAllocMagic by decide
    · rw [hval]
      exact show 0 ≠ heapAllocMagic by decide
    · have hne := mod_ne_heapAllocMagic hleft.dvd_last
      rw [← hval, Nat.mod_eq_of_lt (read64_lt _ _)] at hne
      exact hne
  · refine read64_ne_of_byte (k := 0) (by decide) ?_
    have hout : ∀ (m' : Memory) f v, heapBlock.set m' a.addr f v x = m' x := fun m' f v =>
      set_apply_of_notMem (.inr (not_lt.mp hlt))
    rw [Nat.add_zero, poisonBlock]
    simp only [hout]
    rw [fill_apply_of_mem (not_lt.mp hlt) (by
      rw [(h.header a (by simp)).capacity]
      exact hmem.2)]
    decide

section Taking

variable {ε : Type} {s : Heap ε} {regions : List Span}

/-- The block that was handed out is filled behind its canary, and no mark appears outside
it. -/
lemma Inv.takeBlock_marks (h : Inv s bs regions) (hsize : neededCapacity size = some n)
    (hfind : bs.find? (fits n) = some a) :
    (∀ x, payload a.addr + size + heapCanaryBytes ≤ x → x < (a.front n).stop →
      (takeBlock a.addr size n s).2.mem x = 0xcd) ∧
    ∀ x, heapAlignment ∣ x → x ∉ (a.front n).span.points →
      read64 s.mem x ≠ heapAllocMagic →
      read64 (takeBlock a.addr size n s).2.mem x ≠ heapAllocMagic := by
  obtain ⟨hfits, l₁, l₂, rfl, -⟩ := find?_eq_some_iff_append.mp hfind
  obtain ⟨hfree, hle⟩ := fits_iff.mp hfits
  obtain ⟨hpos, hroom, -, hn, hn64⟩ := neededCapacity_eq_some hsize
  obtain ⟨hsplit, -⟩ := splitBlock_holds h.ordered h.holds hn hle hfree
  have hquiet := splitBlock_quiet h.ordered h.holds hn hle hfree
  have hord := h.ordered.split hn hle hfree
  have hord' := (take_spec h.ordered h.coalesced hfree hn hle hpos hroom).1
  simp only [Block.split, Block.take, List.append_assoc, List.cons_append] at hord hsplit hord'
  refine ⟨fun x hle hlt => ?_, fun x hx hout hne => ?_⟩
  · exact stampBlock_filled (a := a.front n) (hsplit.header _ (by simp)) hle hlt (by omega)
  · have hwf := hord.block (a.front n) (by simp)
    have hstamp := (stampBlock_holds hord hsplit hord').2
    have hsame : read64 (stampBlock a.addr size (splitBlock a.addr n s.mem)) x =
        read64 (splitBlock a.addr n s.mem) x :=
      read64_congr fun y hle hlt =>
        hstamp fun hy => hout ((hwf.word_mem_iff hx hle hlt).mp hy)
    show read64 (stampBlock a.addr size (splitBlock a.addr n s.mem)) x ≠ _
    rw [hsame]
    exact hquiet x hx hne

end Taking

/-! ### Headers that were ever handed out -/

/-- The blocks in use are filled behind their canaries; the headers in `ever` lie in the heap,
and outside the blocks in use none of them carries the mark of an allocation. -/
structure Marked (m : Memory) (bs : List Block) (ever : Set ℕ) : Prop where
  filled : ∀ b ∈ used bs, ∀ x, payload b.addr + b.requested + heapCanaryBytes ≤ x → x < b.stop →
    m x = 0xcd
  known : ∀ x ∈ ever, heapAlignment ∣ x ∧ x ∈ cover (spans bs)
  clean : ∀ x ∈ ever, x ∉ cover (spans (used bs)) → Memory.read64 m x ≠ heapAllocMagic

/-- Memory that the blocks do not cover does not matter. -/
lemma Marked.outside (h : Marked m bs ever) (hord : Ordered bs)
    (heq : Set.EqOn m' m (cover (spans bs))) : Marked m' bs ever where
  filled b hb x hle hlt := by
    have := payload_eq b.addr
    rw [heq (mem_cover_spans.mpr ⟨b, (mem_used.mp hb).1, by omega, hlt⟩)]
    exact h.filled b hb x hle hlt
  known := h.known
  clean x hx hout := by
    obtain ⟨hdvd, hmem⟩ := h.known x hx
    rw [read64_congr fun y hle hlt => heq ((hord.word_mem_cover_iff hdvd hle hlt).mpr hmem)]
    exact h.clean x hx hout

/-- A client may write to what it holds. -/
lemma Marked.write (h : Marked m bs ever) (hord : Ordered bs) (hb : b ∈ used bs)
    (heq : Set.EqOn m' m (Set.Ico (payload b.addr) (payload b.addr + b.requested))ᶜ) :
    Marked m' bs ever := by
  obtain ⟨hbmem, hbused⟩ := mem_used.mp hb
  have hroom := ((hord.block b hbmem).requested_used hbused).2
  have hsub : ∀ y, y ∈ Set.Ico (payload b.addr) (payload b.addr + b.requested) →
      y ∈ b.span.points := by
    intro y hy
    simp only [Block.span, Span.mem_points, Block.stop_eq, Block.payload_eq, Set.mem_Ico,
      heapCanaryBytes] at *
    omega
  refine ⟨fun c hc x hle hlt => ?_, h.known, fun x hx hout => ?_⟩
  · rw [heq fun hy => ?_]
    · exact h.filled c hc x hle hlt
    · have hin := hsub x hy
      simp only [Block.span, Span.mem_points, Block.payload_eq, Set.mem_Ico,
        heapCanaryBytes] at hin hy hle
      rcases hord.eq_or_apart hbmem (mem_used.mp hc).1 with rfl | hap | hap <;> omega
  · rw [read64_congr fun y hle hlt => heq fun hy => hout ?_]
    · exact h.clean x hx hout
    · have hword := (hord.block b hbmem).word_mem_iff (h.known x hx).1 hle hlt
      exact ⟨b.span, mem_map_of_mem hb, hword.mp (hsub y hy)⟩

section Steps

variable {ε : Type} {s s' : Heap ε} {regions new : List Span}

/-- The bytes of a block in use do not change when the heap works elsewhere. -/
lemma Keeps.used_kept (h : Keeps s s' bs bs' regions new) (hinv : Inv s bs regions)
    (hb : b ∈ used bs) (hle : payload b.addr ≤ x) (hlt : x < b.stop) : s'.mem x = s.mem x := by
  obtain ⟨hmem, hused⟩ := mem_used.mp hb
  refine h.memory fun hx => ?_
  rcases hx with hx | hx
  · exact hinv.ordered.payload_notMem_held hmem hused hle hlt hx
  · have hin : x ∈ cover (spans bs) :=
      mem_cover_spans.mpr ⟨b, hmem, by simp only [payload_eq] at hle; omega, hlt⟩
    rw [hinv.cover_eq] at hin
    exact Set.disjoint_left.mp h.fresh hx hin

/-- Growing the heap. -/
lemma Marked.grow (h : Marked s.mem bs ever) (hinv : Inv s bs regions)
    (hkeeps : Keeps s s' bs bs' regions new) (hused : used bs' = used bs)
    (hquiet : Quiet s.mem s'.mem) : Marked s'.mem bs' ever := by
  refine ⟨fun b hb x hle hlt => ?_, fun x hx => ⟨(h.known x hx).1, ?_⟩, fun x hx hout => ?_⟩
  · rw [hused] at hb
    rw [hkeeps.used_kept hinv hb (by omega) hlt]
    exact h.filled b hb x hle hlt
  · rw [hkeeps.inv.cover_eq, cover_append, ← hinv.cover_eq]
    exact .inl (h.known x hx).2
  · rw [hused] at hout
    exact hquiet x (h.known x hx).1 (h.clean x hx hout)

/-- Handing out a block. -/
lemma Marked.take (h : Marked s.mem bs ever) (hinv : Inv s bs regions)
    (hsize : neededCapacity size = some n) (hfind : bs.find? (fits n) = some a)
    (hkeeps : Keeps s (takeBlock a.addr size n s).2 bs bs' regions [])
    (hused : (used bs').Perm ((a.front n).use size :: used bs)) :
    Marked (takeBlock a.addr size n s).2.mem bs' (insert a.addr ever) := by
  obtain ⟨hfill, hquiet⟩ := hinv.takeBlock_marks hsize hfind
  have hcover : cover (spans bs') = cover (spans bs) := by
    rw [hkeeps.inv.cover_eq, append_nil, hinv.cover_eq]
  have ha : a ∈ bs := mem_of_find?_eq_some hfind
  have hself : a.addr ∈ ((a.front n).use size).span.points := by
    have hlt := ((a.front n).use size).addr_le_stop
    rw [addr_use, addr_front] at hlt
    exact ⟨le_refl _, show a.addr < ((a.front n).use size).stop by omega⟩
  refine ⟨fun b hb x hle hlt => ?_, fun x hx => ?_, fun x hx hout => ?_⟩
  · rcases mem_cons.mp (hused.mem_iff.mp hb) with rfl | hb
    · exact hfill x hle hlt
    · rw [hkeeps.used_kept hinv hb (by omega) hlt]
      exact h.filled b hb x hle hlt
  · rw [hcover]
    rcases hx with rfl | hx
    · have := a.addr_le_stop
      exact ⟨(hinv.ordered.block a ha).addr_dvd, mem_cover_spans.mpr ⟨a, ha, le_refl _, by omega⟩⟩
    · exact h.known x hx
  · have hmiss : ∀ b ∈ (a.front n).use size :: used bs, x ∉ b.span.points := fun b hb hxb =>
      hout ⟨b.span, mem_map_of_mem (hused.mem_iff.mpr hb), hxb⟩
    rcases hx with rfl | hx
    · exact absurd hself (hmiss _ (by simp))
    · refine hquiet x (h.known x hx).1 (hmiss ((a.front n).use size) (by simp)) (h.clean x hx ?_)
      rintro ⟨r, hr, hxr⟩
      obtain ⟨b, hb, rfl⟩ := mem_map.mp hr
      exact hmiss b (by simp [hb]) hxr

/-- Taking a block back. -/
lemma Marked.free (h : Marked s.mem (l₁ ++ a :: l₂) ever) (hinv : Inv s (l₁ ++ a :: l₂) regions)
    (hused : ¬ a.free) :
    Marked (kfree (payload a.addr) s).2.mem (coalesce l₁ a.release l₂) ever := by
  obtain ⟨hinv', hmem⟩ := kfree_inv hinv hused
  have hwf := hinv.ordered.block a (by simp)
  have hord := hinv.ordered.retag hwf.release rfl rfl
  obtain ⟨hpoison, heq⟩ := poisonBlock_holds hinv.ordered hinv.holds
  have hquiet := mergeBoth_quiet hord hpoison
  rw [← mergeFreed_eq hord hpoison rfl] at hquiet
  have hleft : used (coalesce l₁ a.release l₂) = used l₁ ++ used l₂ := used_coalesce rfl
  have hold : ∀ b, b ∈ used (l₁ ++ a :: l₂) ↔ b = a ∨ b ∈ used (coalesce l₁ a.release l₂) := by
    intro b
    rw [hleft, used_append, used_cons_used hused, perm_middle.mem_iff, mem_cons]
  refine ⟨fun b hb x hle hlt => ?_, fun x hx => ⟨(h.known x hx).1, ?_⟩, fun x hx hout => ?_⟩
  · obtain ⟨hbmem, hbused⟩ := mem_used.mp hb
    rw [hmem (hinv'.ordered.payload_notMem_held hbmem hbused (by omega) hlt)]
    exact h.filled b ((hold b).mpr (.inr hb)) x hle hlt
  · rw [hinv'.cover_eq, ← hinv.cover_eq]
    exact (h.known x hx).2
  · have hdvd := (h.known x hx).1
    rw [kfree_eq hinv (by simp) hused]
    refine hquiet x hdvd ?_
    by_cases hxa : x ∈ a.span.points
    · exact poisonBlock_word hinv.ordered hinv.holds hdvd hxa
    · rw [read64_congr fun y hle hlt =>
        heq fun hy => hxa ((hwf.word_mem_iff hdvd hle hlt).mp hy)]
      refine h.clean x hx ?_
      rintro ⟨r, hr, hxr⟩
      obtain ⟨b, hb, rfl⟩ := mem_map.mp hr
      rcases (hold b).mp hb with rfl | hb
      · exact hxa hxr
      · exact hout ⟨b.span, mem_map_of_mem hb, hxr⟩

/-- The header of a pointer, if it is not null. -/
def headerOf (p : ℕ) : Set ℕ := {x | p ≠ 0 ∧ x = p - heapBlock.size}

@[simp] lemma headerOf_zero : headerOf 0 = ∅ := by
  simp [headerOf]

@[simp] lemma headerOf_payload (x : ℕ) : headerOf (payload x) = {x} := by
  simp [headerOf]

/-- `kmalloc` keeps the marks, and the header of what it hands out is known from then on. -/
theorem Marked.kmalloc (h : Marked s.mem bs ever) (hinv : Inv s bs regions)
    (hfresh : Honest s regions) (size : ℕ) :
    ∃ bs' new, Keeps s (kmalloc size s).2 bs bs' regions new ∧
      Allocates (kmalloc size s).1 size bs bs' new ∧
      Marked (kmalloc size s).2.mem bs' (headerOf (kmalloc size s).1 ∪ ever) := by
  obtain ⟨s₁, bs₁, new, hkeeps, hused, hquiet, hfailed | ⟨n, a, hsize, hfind, htake⟩⟩ :=
    kmalloc_cases hinv hfresh size
  · obtain ⟨hkeeps', halloc⟩ := hkeeps.failed hused size
    rw [hfailed]
    refine ⟨bs₁, new, hkeeps', halloc, ?_⟩
    rw [show (allocationFailed s₁).1 = 0 from rfl, headerOf_zero, Set.empty_union]
    have hgrown : Marked s₁.mem bs₁ ever := h.grow hinv hkeeps hused hquiet
    exact hgrown
  · obtain ⟨bs₂, hkeeps₂, hperm, hsub⟩ := takeBlock_inv hkeeps.inv hsize hfind
    obtain ⟨hkeeps', halloc⟩ := hkeeps.took hused hkeeps₂ hperm hsub
    rw [htake]
    refine ⟨bs₂, new, hkeeps', halloc, ?_⟩
    rw [show (takeBlock a.addr size n s₁).1 = payload a.addr from rfl, headerOf_payload,
      Set.singleton_union]
    exact (h.grow hinv hkeeps hused hquiet).take hkeeps.inv hsize hfind hkeeps₂ hperm

/-- So does `kzalloc`, which writes to the new allocation only. -/
theorem Marked.kzalloc (h : Marked s.mem bs ever) (hinv : Inv s bs regions)
    (hfresh : Honest s regions) (size : ℕ) :
    ∃ bs' new, Keeps s (kzalloc size s).2 bs bs' regions new ∧
      Allocates (kzalloc size s).1 size bs bs' new ∧
      Marked (kzalloc size s).2.mem bs' (headerOf (kzalloc size s).1 ∪ ever) := by
  obtain ⟨bs', new, hkeeps, halloc, hmarked⟩ := h.kmalloc hinv hfresh size
  obtain ⟨hkeeps', halloc'⟩ := kzalloc_of_kmalloc hkeeps halloc
  obtain ⟨hptr, -, hsame⟩ := kzalloc_eq size s
  refine ⟨bs', new, hkeeps', halloc', ?_⟩
  rw [hptr]
  rcases halloc with ⟨hnull, -⟩ | ⟨-, hperm, -⟩
  · rw [hsame hnull]
    exact hmarked
  · obtain ⟨b, hb, heq⟩ := mem_map.mp (hperm.symm.subset (mem_cons_self))
    have hmem := kzalloc_mem size s
    simp only [allocation, Prod.mk.injEq] at heq
    rw [← heq.1, ← heq.2] at hmem
    exact hmarked.write hkeeps.inv.ordered hb (by rwa [heq.1, heq.2] at hmem ⊢)

end Steps

/-! ### Blocks in use -/

/-- The canary that starts inside an aligned word differs from the mark there: the last
digit of its first byte is that of the seed and of the requested size, whose last digit is
the distance. -/
lemma canary_digit {k : ℕ} (ha : heapAlignment ∣ b.addr) (hk : k < 8)
    (hreq : b.requested % 16 = k) : b.canary % 16 ≠ heapAllocMagic / 256 ^ k % 16 := by
  have haddr : b.addr % 2 ^ 4 = 0 := Nat.mod_eq_zero_of_dvd ha
  have hdigit : b.canary % 16 = 1 ^^^ k := by
    rw [canary, show (16 : ℕ) = 2 ^ 4 from rfl, Nat.xor_mod_two_pow, Nat.xor_mod_two_pow,
      haddr, show b.requested % 2 ^ 4 = k from hreq]
    rfl
  rw [hdigit]
  interval_cases k <;> decide

/-- Inside a block in use, an aligned word other than the first is the mark only when the
client stored it or asked for as many bytes. -/
lemma word_ne_of_used (h : Marked m bs ever) (hord : Ordered bs) (hholds : Holds m head bs)
    (hb : b ∈ used bs) (hx : heapAlignment ∣ x) (hmem : x ∈ b.span.points) (hne : x ≠ b.addr)
    (hreq : b.requested ≠ heapAllocMagic)
    (hdata : payload b.addr ≤ x → x + 8 ≤ payload b.addr + b.requested →
      read64 m x ≠ heapAllocMagic) : read64 m x ≠ heapAllocMagic := by
  obtain ⟨hbmem, hbused⟩ := mem_used.mp hb
  have hwf := hord.block b hbmem
  obtain ⟨l₁, l₂, rfl⟩ := append_of_mem hbmem
  by_cases hlt : x < payload b.addr
  · rcases hholds.header_word hwf.addr_dvd hx hmem.1 hlt with ⟨heq, -⟩ | hval | hval
    · exact absurd heq hne
    · rwa [hval]
    · have hprev := mod_ne_heapAllocMagic (ordered_append.mp hord).1.dvd_last
      rw [← hval, Nat.mod_eq_of_lt (read64_lt _ _)] at hprev
      exact hprev
  · have hlow := not_lt.mp hlt
    by_cases hin : x + 8 ≤ payload b.addr + b.requested
    · exact hdata hlow hin
    have hdvd := hwf.addr_dvd
    have hcap := hwf.capacity_dvd
    have htop : x < b.stop := hmem.2
    simp only [payload_eq, stop_eq, heapAlignment] at hlow hin hx hdvd hcap htop
    by_cases hfill : b.addr + 48 + b.requested < x
    · -- the last byte of the word lies behind the canary
      refine read64_ne_of_byte (k := 7) (by decide) ?_
      rw [h.filled b hb (x + 7) (by simp only [payload_eq, heapCanaryBytes]; omega)
        (by rw [stop_eq]; omega)]
      decide
    · -- the canary starts in the word
      obtain ⟨k, hk⟩ : ∃ k, x + k = payload b.addr + b.requested :=
        ⟨b.addr + 48 + b.requested - x, by simp only [payload_eq]; omega⟩
      have hk8 : k < 8 := by
        simp only [payload_eq] at hk
        omega
      refine read64_ne_of_byte hk8 fun hbyte => ?_
      have hdigit := canary_digit (k := k) hwf.addr_dvd hk8
        (by simp only [payload_eq] at hk; omega)
      have hfirst := readLE_div_mod m (payload b.addr + b.requested) (k := 0) (n := 8)
        (by decide)
      have hcanary := hholds.canary b hbmem hbused
      rw [read64] at hcanary
      rw [hcanary, pow_zero, Nat.div_one, Nat.add_zero, ← hk, hbyte] at hfirst
      omega

namespace Session

variable {ε : Type} {grow : HeapGrowFn ε} {t : Session ε}

/-- The headers of the pointers that were ever handed out. -/
def returned (trace : List (Call × Answer)) : Set ℕ :=
  {x | ∃ c p, (c, Answer.pointer p) ∈ trace ∧ x ∈ headerOf p}

lemma returned_concat_pointer (g : List (Call × Answer)) (c : Call) (p : ℕ) :
    returned (g ++ [(c, .pointer p)]) = headerOf p ∪ returned g := by
  ext x
  simp only [returned, mem_append, mem_singleton, Set.mem_ofPred_eq, Set.mem_union]
  constructor
  · rintro ⟨c', p', hold | hnew, hx⟩
    · exact .inr ⟨c', p', hold, hx⟩
    · simp only [Prod.mk.injEq, Answer.pointer.injEq] at hnew
      exact .inl (hnew.2 ▸ hx)
  · rintro (hx | ⟨c', p', hold, hx⟩)
    · exact ⟨c, p, .inr rfl, hx⟩
    · exact ⟨c', p', .inl hold, hx⟩

lemma returned_concat_other (g : List (Call × Answer)) (c : Call) {answer : Answer}
    (h : ∀ p, answer ≠ .pointer p) : returned (g ++ [(c, answer)]) = returned g := by
  ext x
  simp only [returned, mem_append, mem_singleton, Set.mem_ofPred_eq]
  refine exists_congr fun c' => exists_congr fun p => and_congr_left fun _ =>
    or_iff_left fun hnew => ?_
  simp only [Prod.mk.injEq] at hnew
  exact h p hnew.2.symm

/-- **The step lemma.** -/
theorem Good.step_marked {c : Call} {g : List (Call × Answer)} (h : Good grow t bs)
    (hm : Marked t.heap.mem bs (returned g)) (hlegal : t.Legal grow c) :
    ∃ bs', Good grow (t.step c).2 bs' ∧
      Marked (t.step c).2.heap.mem bs' (returned (g ++ [(c, (t.step c).1)])) := by
  have hord := h.inv.ordered
  cases c with
  | kmalloc size =>
    obtain ⟨bs', new, hkeeps, halloc, hm'⟩ := hm.kmalloc h.inv (h.honest hlegal) size.toNat
    refine ⟨bs', (h.allocate (c := .kmalloc size) hkeeps halloc).1, ?_⟩
    rw [Session.step, returned_concat_pointer]
    exact hm'
  | kzalloc size =>
    obtain ⟨bs', new, hkeeps, halloc, hm'⟩ := hm.kzalloc h.inv (h.honest hlegal) size.toNat
    refine ⟨bs', (h.allocate (c := .kzalloc size) hkeeps halloc).1, ?_⟩
    rw [Session.step, returned_concat_pointer]
    exact hm'
  | kfree pointer =>
    rw [returned_concat_other g _ fun p => by simp [Session.step]]
    rcases hlegal with rfl | ⟨size, hq⟩
    · rw [h.step_null]
      exact ⟨bs, h, hm⟩
    · obtain ⟨a, ha, hused, heq⟩ := mem_allocations.mp (h.live.symm.subset hq)
      obtain ⟨l₁, l₂, rfl⟩ := append_of_mem ha
      have hptr : pointer.toNat = payload a.addr := (congrArg Prod.fst heq).symm
      refine ⟨coalesce l₁ a.release l₂, h.free_block hused hptr, ?_⟩
      rw [Session.step, hptr]
      exact hm.free h.inv hused
  | store address value =>
    rw [returned_concat_other g _ fun p => by simp [Session.step]]
    refine ⟨bs, h.store value hlegal, ?_⟩
    rcases hlegal with ⟨q, hq, hle, hlt⟩ | hout
    · obtain ⟨b, hb, rfl⟩ := mem_map.mp (h.live.symm.subset hq)
      exact hm.write hord hb (update_eqOn
        (S := Set.Ico (payload b.addr) (payload b.addr + b.requested)) ⟨hle, hlt⟩ _ value)
    · have hsame : Set.EqOn (Function.update t.heap.mem address value) t.heap.mem
          (cover t.regions) := by
        simpa using update_eqOn (S := (cover t.regions)ᶜ) hout t.heap.mem value
      rw [← h.inv.cover_eq] at hsame
      exact hm.outside hord hsame

/-- **The run lemma.** -/
theorem Good.run_marked {calls : List Call} (h : Good grow t [])
    (hlegal : Runs.Legal Session.step (Legal grow) t calls) :
    ∃ bs, Good grow (final Session.step t calls) bs ∧
      Marked (final Session.step t calls).heap.mem bs
        (returned (trace Session.step t calls)) := by
  have hstart : Marked t.heap.mem [] (returned []) :=
    ⟨by simp, by simp [returned], by simp [returned]⟩
  exact legal_trace_induction Session.step
    (P := fun t g => ∃ bs, Good grow t bs ∧ Marked t.heap.mem bs (returned g))
    (fun _ _ _ ⟨_, hgood, hm⟩ hrule => hgood.step_marked hm hrule) ⟨[], h, hstart⟩ hlegal

end Session

/-! ### The result -/

/-- `kfree` refuses a pointer whose header does not carry the mark, and changes nothing. -/
lemma kfree_refused {ε : Type} {s : Heap ε} {p : ℕ} (hinit : s.initialised = true)
    (hx : heapAlignment ∣ x) (hp : p = payload x) (hlt : p < 2 ^ 64)
    (hne : read64 s.mem x ≠ heapAllocMagic) :
    ((kfree p s).1 = .doubleFree ∨ (kfree p s).1 = .invalidPointer) ∧ (kfree p s).2 = s := by
  have haligned : p % heapAlignment = 0 :=
    Nat.mod_eq_zero_of_dvd (hp ▸ Nat.dvd_add hx ⟨3, rfl⟩)
  have hblock : wrap64 (p + 2 ^ 64 - heapBlock.size) = x := by
    simp only [wrap64, hp, payload_eq, size_eq] at hlt ⊢
    omega
  have hmagic : heapBlock.get s.mem x .magic ≠ heapAllocMagic := by
    rw [RecordLayout.get]
    exact hne
  rw [kfree, if_neg (by simp [hinit]), if_neg (by simp [hp]), if_neg (not_not_intro haligned)]
  simp only [hblock]
  by_cases hdouble : heapBlock.get s.mem x .magic = heapFreeMagic ∧
      heapBlock.get s.mem x .isFree ≠ 0
  · rw [if_pos hdouble]
    exact ⟨.inl rfl, rfl⟩
  · rw [if_neg hdouble, if_pos (.inl hmagic)]
    exact ⟨.inr rfl, rfl⟩

/-- **Double frees are detected.**  In every state reached, a pointer that was handed out and
that no client holds any more is refused, and nothing changes, when no live allocation was
asked for with as many bytes as the mark of an allocation says and no client has stored the
mark at an aligned address of its own. -/
theorem double_free_detected {ε : Type} (grow : HeapGrowFn ε) (w : ε)
    (s : Heap (ε × List (ℕ × ℕ))) (calls : List Call)
    (hlegal : Runs.Legal Session.step (Session.Legal grow) (Session.start grow w s) calls)
    (p : UInt64) (hp : p ≠ 0) (c : Call)
    (hreturned : (c, Answer.pointer p.toNat) ∈
      Runs.trace Session.step (Session.start grow w s) calls) :
    let t := Runs.final Session.step (Session.start grow w s) calls
    (∀ size, (p.toNat, size) ∉ t.live) →
    (∀ q ∈ t.live, q.2 ≠ heapAllocMagic) →
    (∀ q ∈ t.live, ∀ x, heapAlignment ∣ x → q.1 ≤ x → x + 8 ≤ q.1 + q.2 →
      Memory.read64 t.heap.mem x ≠ heapAllocMagic) →
    ((t.heap.kfree p.toNat).1 = .doubleFree ∨ (t.heap.kfree p.toNat).1 = .invalidPointer) ∧
      (t.heap.kfree p.toNat).2 = t.heap := by
  intro t hdead hsize hdata
  obtain ⟨bs, hgood, hmarked⟩ := (Session.start_good w s).run_marked hlegal
  have hp0 : p.toNat ≠ 0 := fun h0 => hp (UInt64.toNat_inj.mp h0)
  have hever : p.toNat - heapBlock.size ∈
      Session.returned (Runs.trace Session.step (Session.start grow w s) calls) :=
    ⟨c, p.toNat, hreturned, hp0, rfl⟩
  obtain ⟨hdvd, hmem⟩ := hmarked.known _ hever
  have hptr : p.toNat = payload (p.toNat - heapBlock.size) := by
    obtain ⟨b, hb, hle, -⟩ := mem_cover_spans.mp hmem
    have := (hgood.inv.ordered.block b hb).addr_pos
    simp only [Block.payload_eq, Block.size_eq] at *
    omega
  refine kfree_refused hgood.inv.initialised hdvd hptr p.toNat_lt ?_
  by_cases hused : p.toNat - heapBlock.size ∈ cover (spans (used bs))
  · obtain ⟨r, hr, hin⟩ := hused
    obtain ⟨b, hb, rfl⟩ := List.mem_map.mp hr
    have hlive : b.allocation ∈ t.live := hgood.live.subset (List.mem_map_of_mem hb)
    refine word_ne_of_used hmarked hgood.inv.ordered hgood.inv.holds hb hdvd hin (fun heq => ?_)
      (hsize _ hlive) fun hlow hhigh => hdata _ hlive _ hdvd hlow hhigh
    rw [heq] at hptr
    exact hdead b.requested (hptr ▸ hlive)
  · exact hmarked.clean _ hever hused

theorem double_free_detected_shortRun :
    let t := Runs.final Session.step (Session.start oneRegion 0 blankHeap) shortRun
    (t.heap.kfree 65584).2 = t.heap := by
  have hlive : (Runs.final Session.step (Session.start oneRegion 0 blankHeap) shortRun).live =
      [(65680, 257)] := by decide +kernel
  have hbytes : ∀ x ∈ List.range' 65680 257, (Runs.final Session.step
      (Session.start oneRegion 0 blankHeap) shortRun).heap.mem x ≠ 0x43 := by decide +kernel
  refine (double_free_detected oneRegion 0 blankHeap shortRun shortRun_legal 65584 (by decide)
    (.kmalloc 37) (List.mem_cons.mpr (Or.inl (Prod.ext rfl ?_))) ?_ ?_ ?_).2
  · decide +kernel
  · intro size hmem
    rw [hlive] at hmem
    simp at hmem
  · rw [hlive]
    exact List.forall_mem_singleton.mpr (show 257 ≠ heapAllocMagic by decide)
  · rw [hlive]
    refine List.forall_mem_singleton.mpr fun x _ hle hlt => ?_
    refine read64_ne_of_byte (k := 0) (by decide) fun hbyte => ?_
    refine hbytes x (List.mem_range'_1.mpr ⟨hle, ?_⟩) (UInt8.toNat_inj.mp hbyte)
    omega

/-! ### A request of as many bytes as the mark says

The field `requested` lies sixteen bytes into a header, on an aligned address.  When two
small blocks are given back and a smaller one is taken in their place, the next header is
sixteen bytes below a stale one, and its `requested` is what `kfree` takes for the mark. -/

/-- What `kzalloc` hands out is cleared. -/
lemma kzalloc_zeroed {ε : Type} {s : Heap ε} {p size x : ℕ} (hptr : (kmalloc size s).1 = p)
    (hp : p ≠ 0) (hle : p ≤ x) (hlt : x < p + size) : (kzalloc size s).2.mem x = 0 := by
  rw [kzalloc]
  simp only [hptr, hp, if_false]
  exact fill_apply_of_mem hle hlt

namespace Session

variable {ε : Type} {grow : HeapGrowFn ε} {t : Session ε} {calls : List Call}

/-- Stores into one live allocation are legal. -/
lemma legal_stores {q : ℕ × ℕ} (hq : q ∈ t.live)
    (h : ∀ c ∈ calls, ∃ x v, c = .store x v ∧ q.1 ≤ x ∧ x < q.1 + q.2) :
    Runs.Legal step (Legal grow) t calls := by
  induction calls generalizing t with
  | nil => trivial
  | cons c calls ih =>
    obtain ⟨x, v, rfl, hle, hlt⟩ := h c mem_cons_self
    exact ⟨.inl ⟨q, hq, hle, hlt⟩,
      ih (t := (t.step (.store x v)).2) hq fun c hc => h c (mem_cons_of_mem _ hc)⟩

/-- After stores a byte is the old one or a stored one. -/
lemma final_stores (h : ∀ c ∈ calls, ∃ x v, c = Call.store x v) (x : ℕ) :
    (final step t calls).heap.mem x = t.heap.mem x ∨
      Call.store x ((final step t calls).heap.mem x) ∈ calls := by
  induction calls generalizing t with
  | nil => exact .inl rfl
  | cons c calls ih =>
    obtain ⟨y, v, rfl⟩ := h c mem_cons_self
    rw [final_cons]
    rcases ih (t := (t.step (.store y v)).2) fun c hc => h c (mem_cons_of_mem _ hc)
      with hold | hnew
    · by_cases hxy : x = y
      · subst hxy
        rw [hold]
        exact .inr (mem_cons.mpr (.inl (congrArg _ (Function.update_self ..))))
      · exact .inl (hold.trans (Function.update_of_ne hxy ..))
    · exact .inr (mem_cons_of_mem _ hnew)

end Session

/-- A callback with one region of half the address space to give. -/
def hugeRegion : HeapGrowFn ℕ :=
  fun _ e => if e = 0 then ((65536, 2 ^ 63), 1) else ((0, 0), e)

/-- Two small blocks are taken and given back; a smaller one and one of as many bytes as the
mark says follow. -/
def shiftedRun : List Call :=
  [.kmalloc 17, .kmalloc 1, .kfree 65664, .kfree 65584, .kmalloc 1, .kzalloc 0x4a4f5348414c4c43]

/-- The owner of the large block stores what `kfree` will take for a canary. -/
def forgedCanary : List Call :=
  [.store 131200 0x91, .store 131201 0x85, .store 131202 0xb2, .store 131203 0x63,
    .store 131204 0x7a, .store 131205 0x4e, .store 131206 0x9f, .store 131207 0xd1]

/-- The session after `shiftedRun`. -/
def shifted : Session ℕ :=
  Runs.final Session.step (Session.start hugeRegion 0 blankHeap) shiftedRun

lemma shifted_live : shifted.live = [(65648, 0x4a4f5348414c4c43), (65584, 1)] := by
  decide +kernel

lemma forgedCanary_live :
    (final step shifted forgedCanary).live =
      [(65648, 0x4a4f5348414c4c43), (65584, 1)] :=
  shifted_live

lemma forgedCanary_stores {c : Call} (h : c ∈ forgedCanary) :
    ∃ x v, c = .store x v ∧ v ≠ 0x43 ∧ 65648 ≤ x ∧ x < 65648 + 0x4a4f5348414c4c43 := by
  simp only [forgedCanary, mem_cons, not_mem_nil, or_false] at h
  rcases h with rfl | rfl | rfl | rfl | rfl | rfl | rfl | rfl
  all_goals exact ⟨_, _, rfl, by decide, by decide, by decide⟩

lemma shiftedRun_legal :
    Legal step (Session.Legal hugeRegion) (start hugeRegion 0 blankHeap)
      shiftedRun := by
  set t₀ := start hugeRegion 0 blankHeap with ht₀
  have hlater : ∀ calls, (final step t₀ calls).heap.world.1 = 1 →
      ∀ minimum, Fresh (final step t₀ calls).regions
        (hugeRegion minimum (final step t₀ calls).heap.world.1).1 := by
    intro calls hworld minimum
    rw [hworld]
    exact .inl rfl
  have hheld : ∀ calls p size, (p, size) ∈ (final step t₀ calls).live →
      ∃ size, (p, size) ∈ (final step t₀ calls).live :=
    fun _ _ size h => ⟨size, h⟩
  refine ⟨fun minimum => .inr ⟨show 65536 + 2 ^ 63 ≤ 2 ^ 64 by norm_num, ?_⟩,
    hlater [.kmalloc 17] (by decide +kernel),
    .inr (hheld [.kmalloc 17, .kmalloc 1] 65664 1 (by decide +kernel)),
    .inr (hheld [.kmalloc 17, .kmalloc 1, .kfree 65664] 65584 17 (by decide +kernel)),
    hlater [.kmalloc 17, .kmalloc 1, .kfree 65664, .kfree 65584] (by decide +kernel),
    hlater [.kmalloc 17, .kmalloc 1, .kfree 65664, .kfree 65584, .kmalloc 1]
      (by decide +kernel), trivial⟩
  have hregions : t₀.regions = [] := rfl
  simp [hregions]

/-- The session before the large block is taken. -/
def beforeLarge : Session ℕ :=
  Runs.final Session.step (Session.start hugeRegion 0 blankHeap)
    [.kmalloc 17, .kmalloc 1, .kfree 65664, .kfree 65584, .kmalloc 1]

lemma shifted_eq : shifted = (beforeLarge.step (.kzalloc 0x4a4f5348414c4c43)).2 :=
  final_append step (start hugeRegion 0 blankHeap)
    [.kmalloc 17, .kmalloc 1, .kfree 65664, .kfree 65584, .kmalloc 1] [_]

/-- No byte of the large block is the low byte of the mark. -/
lemma forgedCanary_byte {x : ℕ} (hle : 65648 ≤ x) (hlt : x < 65648 + 0x4a4f5348414c4c43) :
    (final step shifted forgedCanary).heap.mem x ≠ 0x43 := by
  have hstores : ∀ c ∈ forgedCanary, ∃ x v, c = .store x v := by
    intro c hc
    obtain ⟨x, v, rfl, -⟩ := forgedCanary_stores hc
    exact ⟨x, v, rfl⟩
  rcases final_stores hstores x with hold | hnew
  · rw [hold, shifted_eq]
    exact (kzalloc_zeroed (by decide +kernel) (by decide) hle hlt).trans_ne (by decide)
  · obtain ⟨y, v, heq, hne, -⟩ := forgedCanary_stores hnew
    obtain ⟨-, hv⟩ := Call.store.inj heq
    rw [hv]
    exact hne

/-- A stale pointer is accepted although no client has stored the mark: the size of the large
block is taken for it. -/
theorem stale_pointer_accepted :
    let calls := shiftedRun ++ forgedCanary
    let t := Runs.final Session.step (Session.start hugeRegion 0 blankHeap) calls
    Runs.Legal Session.step (Session.Legal hugeRegion) (Session.start hugeRegion 0 blankHeap)
        calls ∧
      (Call.kmalloc 1, Answer.pointer 65664) ∈
        Runs.trace Session.step (Session.start hugeRegion 0 blankHeap) calls ∧
      (∀ size, (65664, size) ∉ t.live) ∧
      (∀ q ∈ t.live, ∀ x, heapAlignment ∣ x → q.1 ≤ x → x + 8 ≤ q.1 + q.2 →
        Memory.read64 t.heap.mem x ≠ heapAllocMagic) ∧
      (t.heap.kfree 65664).1 = .ok := by
  intro calls t
  have ht : t = Runs.final Session.step shifted forgedCanary := Runs.final_append ..
  refine ⟨(Runs.legal_append ..).mpr ⟨shiftedRun_legal, ?_⟩, ?_, ?_, ?_, ?_⟩
  · refine Session.legal_stores (t := shifted) (q := (65648, 0x4a4f5348414c4c43))
      (shifted_live ▸ List.mem_cons_self) fun c hc => ?_
    obtain ⟨x, v, rfl, -, hle, hlt⟩ := forgedCanary_stores hc
    exact ⟨x, v, rfl, hle, hlt⟩
  · refine List.mem_cons.mpr (Or.inr (List.mem_cons.mpr (Or.inl (Prod.ext rfl ?_))))
    decide +kernel
  · intro size hmem
    rw [ht, forgedCanary_live] at hmem
    simp at hmem
  · rw [ht, forgedCanary_live]
    refine List.forall_mem_cons.mpr ⟨fun x _ hle hlt => ?_,
      List.forall_mem_singleton.mpr fun x _ hle hlt => ?_⟩
    · refine read64_ne_of_byte (k := 0) (by decide) fun hbyte => ?_
      refine forgedCanary_byte hle (lt_of_lt_of_le ?_ hlt) (UInt8.toNat_inj.mp hbyte)
      omega
    · dsimp only at hle hlt
      omega
  · rw [ht]
    decide +kernel

end JoshOS.Heap
