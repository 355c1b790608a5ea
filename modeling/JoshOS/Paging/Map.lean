import JoshOS.Paging.Walk

/-!
Mapping and querying pages.

* `map4kFlags_triple`, `map2mFlags_triple`: on success the translation of one page,
  or of 512 pages, is the wanted leaf and every other is unchanged; on failure none
  has changed, and the reason is one of those listed.
* `queryRoot_eq`: `query_root` is a walk through the tables and reads its answer off
  the entry where the walk stops.
* `queryRoot_spec`: it reports the leaf of the page, or nothing.
-/

namespace JoshOS

open Words Memory Radix Spans Hoare

namespace Paging

variable {c : Surroundings} {root f g i l p k virt phys flags : ℕ} {s s' : Machine}
  {R R' : ℕ → Leaf → Prop} {tabled tabled' : Set ℕ}

lemma writeEntry_triple {P : Machine → Prop} {Q : Unit → Machine → Prop}
    {E : PagingStatus → Machine → Prop} {table v : ℕ}
    (h : ∀ s, P s → Q () { s with mem := write64 s.mem (table + 8 * i) v }) :
    Triple P (writeEntry table i v) Q E := .modify h

/-! ### Small pages -/

/-- The entry that `map_4k_flags` writes. -/
def smallEntry (phys flags : ℕ) : ℕ := phys ||| pagePresent ||| flags

lemma smallEntry_present (phys flags : ℕ) : (smallEntry phys flags).testBit 0 = true := by
  rw [smallEntry, Nat.testBit_or, Nat.testBit_or, show pagePresent.testBit 0 = true by decide]
  simp

lemma smallEntry_lt (hphys : phys < 2 ^ 64) (hflags : flags < 2 ^ 64) :
    smallEntry phys flags < 2 ^ 64 :=
  Nat.or_lt_two_pow (Nat.or_lt_two_pow hphys (by decide)) hflags

/-- The translations where the walk stops at a given entry. -/
lemma Maps.leaf_iff {n e : ℕ} {leaf : Leaf} (h : Maps c root R tabled s) (hn : n < 2 ^ 36)
    (hk : l + k = 3) (he : pageShape.entryAt (entries c.boot s.mem) root l (n / 512 ^ k) = some e)
    (hstop : k = 0 ∨ pageShape.child l e = none) : R n leaf ↔ leaf.Ends (l, e) := by
  rw [← h.leaf n hn leaf, isLeaf_iff_ends, (Shape.walk_eq_iff hk).mpr ⟨he, hstop⟩]

/-- Below a page table the translation is its entry, if that is present. -/
lemma Walked.leaf_iff {leaf : Leaf} (h : Walked c root R tabled virt k 3 f s) :
    R (pageNumber virt) leaf ↔ leaf = ⟨entries c.boot s.mem f (tableIndex virt 12), false⟩ ∧
      (entries c.boot s.mem f (tableIndex virt 12)).testBit 0 = true := by
  have hentry := entryAt_way le_rfl h.table
  rw [h.toMaps.leaf_iff (l := 3) (k := 0) (pageNumber_lt virt) rfl hentry (.inl rfl),
    Leaf.ends_small]

/-- A small page stands in a page table. -/
lemma Maps.tabled_of_small {n e : ℕ} (h : Maps c root R tabled s) (hn : n < 2 ^ 36)
    (hR : R n ⟨e, false⟩) : pageShape.tableAt (entries c.boot s.mem) root 3 (n / 512) ≠ none := by
  intro hnone
  obtain ⟨-, hentry⟩ := (h.leaf n hn _).mpr hR
  rw [if_neg (by simp), Shape.entryAt_eq_none hnone] at hentry
  cases hentry

/-- **`map_4k_flags`.**  On success the page translates to the wanted entry, to
which it translated before or not at all unless `replace` is set.  On failure no
translation has changed; with aligned arguments and three frames to spare it fails only at a
translation in the way. -/
lemma map4kFlags_triple (virt : ℕ) (replace : Bool) (hphys : phys < 2 ^ 64)
    (hflags : flags < 2 ^ 64) (htab : pageNumber virt / 512 ∈ tabled) :
    Triple (fun s => Maps c root R tabled s ∧ k ≤ s.pmm.freeFrames)
      (map4kFlags c.boot root virt phys flags replace)
      (fun _ s => Maps c root (setLeaf R (pageNumber virt) (smallEntry phys flags)) tabled s ∧
        k - 3 ≤ s.pmm.freeFrames ∧ pageSize ∣ virt ∧ pageSize ∣ phys ∧
        (replace = false → ∀ leaf, R (pageNumber virt) leaf →
          leaf = ⟨smallEntry phys flags, false⟩))
      (fun status s => Maps c root R tabled s ∧
        (c.strict → pageSize ∣ virt → pageSize ∣ phys →
          (status = .noMemory ∧ k < 3) ∨ ∃ leaf,
          R (pageNumber virt) leaf ∧ (leaf.huge = true ∨
            leaf ≠ ⟨smallEntry phys flags, false⟩ ∧ replace = false))) := by
  rw [map4kFlags]
  refine .guard (fun hbad s hs => ⟨hs.1, fun _ hv hp => ?_⟩) fun hok => ?_
  · rcases hbad with h | h
    · exact absurd (Nat.mod_eq_zero_of_dvd hv) h
    · exact absurd (Nat.mod_eq_zero_of_dvd hp) h
  rw [not_or, not_not, not_not] at hok
  refine .bind ((pteForVirtual_triple htab).conseq (fun _ h => h) (fun _ _ h => h) ?_)
    fun pte => ?_
  · rintro _ s ⟨hm, hwhy⟩
    refine ⟨hm, fun hst _ _ => (hwhy hst).imp_right ?_⟩
    rintro ⟨e, he⟩
    exact ⟨_, he, .inl rfl⟩
  refine .bind readEntry_triple fun e => ?_
  have hread : ∀ {f} {s : Machine}, pte = c.boot.physicalMemoryOffset + f + 8 * tableIndex virt 12 →
      e = read64 s.mem (pte + 8 * 0) → e = entries c.boot s.mem f (tableIndex virt 12) := by
    rintro f s rfl he
    exact he
  refine .guard (fun hbad s hs => ?_) fun hgo => ?_
  · obtain ⟨⟨f, hw, hpte⟩, he⟩ := hs
    rw [ne_eq, land_pagePresent, Bool.not_eq_false] at hbad
    refine ⟨hw.toMaps, fun _ _ _ => .inr ⟨⟨e, false⟩, hw.leaf_iff.mpr ?_,
      .inr ⟨fun heq => hbad.2.1 (congrArg Leaf.entry heq), hbad.2.2⟩⟩⟩
    rw [← hread hpte he]
    exact ⟨rfl, hbad.1⟩
  · refine writeEntry_triple fun s hs => ?_
    obtain ⟨⟨f, hw, hpte⟩, he⟩ := hs
    rw [Nat.mul_zero, Nat.add_zero, hpte]
    refine ⟨hw.set4k (smallEntry_lt hphys hflags), hw.frames, Nat.dvd_of_mod_eq_zero hok.1,
      Nat.dvd_of_mod_eq_zero hok.2, fun hrep leaf hR => ?_⟩
    obtain ⟨hleaf, h0⟩ := hw.leaf_iff.mp hR
    rw [← hread hpte he] at hleaf h0
    rw [hleaf]
    by_contra hne
    refine hgo ⟨by rw [ne_eq, land_pagePresent, h0]; simp, fun heq => hne ?_, hrep⟩
    rw [heq]
    rfl

/-! ### Huge pages -/

/-- The entry that `map_2m_flags` writes. -/
def hugeEntry (phys flags : ℕ) : ℕ := phys ||| pagePresent ||| pagePs ||| flags

lemma hugeEntry_bits (phys flags : ℕ) :
    (hugeEntry phys flags).testBit 0 = true ∧ (hugeEntry phys flags).testBit 7 = true := by
  simp only [hugeEntry, Nat.testBit_or, show pagePresent.testBit 0 = true by decide,
    show pagePs.testBit 7 = true by decide]
  simp

lemma hugeEntry_lt (hphys : phys < 2 ^ 64) (hflags : flags < 2 ^ 64) :
    hugeEntry phys flags < 2 ^ 64 :=
  Nat.or_lt_two_pow (Nat.or_lt_two_pow (Nat.or_lt_two_pow hphys (by decide)) (by decide)) hflags

/-- **`map_2m_flags`.**  On success the 512 pages of the directory entry translate to
the wanted leaf, to which they translated before or not at all.  On failure no
translation has changed; with aligned arguments and two frames to spare it fails only
at a page table or another leaf in the way. -/
lemma map2mFlags_triple (virt : ℕ) (hphys : phys < 2 ^ 64) (hflags : flags < 2 ^ 64) :
    Triple (fun s => Maps c root R tabled s ∧ k ≤ s.pmm.freeFrames)
      (map2mFlags c.boot root virt phys flags)
      (fun _ s => Maps c root (setHuge R (pageNumber virt / 512) (hugeEntry phys flags)) tabled s ∧
        k - 2 ≤ s.pmm.freeFrames ∧ hugePageSize ∣ virt ∧ hugePageSize ∣ phys ∧
        ∀ n < 2 ^ 36, n / 512 = pageNumber virt / 512 → ∀ leaf, R n leaf →
          leaf = ⟨hugeEntry phys flags, true⟩)
      (fun _ s => Maps c root R tabled s ∧
        (c.strict → hugePageSize ∣ virt → hugePageSize ∣ phys → k < 2 ∨
          pageNumber virt / 512 ∈ tabled ∨
          ∃ e, R (pageNumber virt) ⟨e, true⟩ ∧ e ≠ hugeEntry phys flags)) := by
  have hn := pageNumber_lt virt
  have hfew : ∀ {l status} {s : Machine}, l < 2 → (Maps c root R tabled s ∧ (c.strict →
      status = PagingStatus.noMemory ∧ k ≤ l)) →
      Maps c root R tabled s ∧ (c.strict → hugePageSize ∣ virt → hugePageSize ∣ phys → k < 2 ∨
        pageNumber virt / 512 ∈ tabled ∨
        ∃ e, R (pageNumber virt) ⟨e, true⟩ ∧ e ≠ hugeEntry phys flags) := by
    rintro l _ s hl ⟨hm, hwhy⟩
    exact ⟨hm, fun hst _ _ => .inl (by have := (hwhy hst).2; omega)⟩
  rw [map2mFlags]
  refine .guard (fun hbad s hs => ⟨hs.1, fun _ hv hp => ?_⟩) fun hok => ?_
  · rcases hbad with h | h
    · exact absurd (Nat.mod_eq_zero_of_dvd hv) h
    · exact absurd (Nat.mod_eq_zero_of_dvd hp) h
  rw [not_or, not_not, not_not] at hok
  refine .bind ((ensureTable_triple_upper (l := 0) (by omega)).conseq
    (fun s hs => hs.1.walked virt hs.2) (fun _ _ h => h) fun _ _ => hfew (by omega)) fun pdpt => ?_
  refine .bind ((ensureTable_triple_upper (l := 1) (by omega)).conseq
    (fun _ h => h) (fun _ _ h => h) fun _ _ => hfew (by omega)) fun pd => ?_
  refine .guard (fun h0 s hs => absurd h0 (hs.physPtr_eq (by omega)).2) fun hpd => ?_
  refine .bind readEntry_triple fun e => ?_
  simp only [read_table hpd]
  refine .guard (fun hbad s hs => ?_) fun hgo => ?_
  · obtain ⟨hw, he⟩ := hs
    have hent := entryAt_way (by omega) hw.table
    rw [ne_eq, land_pagePresent, Bool.not_eq_false, he] at hbad
    refine ⟨hw.toMaps, fun _ _ _ => .inr ?_⟩
    cases h7 : (entries c.boot s.mem pd (tableIndex virt 21)).testBit 7 with
    | true => exact .inr ⟨_, hw.huge_leaf hn hent hbad.1 h7, hbad.2⟩
    | false => exact .inl (hw.split _ (by omega) _ (hw.table.next (by omega) hbad.1 h7))
  · refine writeEntry_triple fun s hs => ?_
    obtain ⟨hw, he⟩ := hs
    have hent := entryAt_way (by omega) hw.table
    have hbits := hugeEntry_bits phys flags
    -- the old entry is absent or already the wanted leaf
    have hold : e.testBit 0 = false ∨ e = hugeEntry phys flags := by
      rw [ne_eq, land_pagePresent, Bool.not_eq_false, not_and, not_not] at hgo
      cases h0 : e.testBit 0 with
      | true => exact .inr (hgo h0)
      | false => exact .inl rfl
    have hchild : pageShape.child 2 e = none :=
      child_eq_none (hold.imp_right fun h => ⟨rfl, by rw [h]; exact hbits.2⟩)
    rw [physPtr_of_ne_zero hpd]
    refine ⟨hw.set2m (he ▸ hchild) (hugeEntry_lt hphys hflags) hbits, hw.frames,
      Nat.dvd_of_mod_eq_zero hok.1, Nat.dvd_of_mod_eq_zero hok.2, fun n' hn' hdiv leaf hR => ?_⟩
    rw [← he, way_three, ← hdiv] at hent
    rw [hw.toMaps.leaf_iff (l := 2) (k := 1) hn' rfl hent (.inr hchild), Leaf.ends_huge] at hR
    rcases hold with h | h
    · rw [h] at hR
      exact absurd hR.2.1 (by simp)
    · rw [hR.1, h]

/-! ### Querying -/

variable {boot : BootContext} {m : Memory}

/-- The shape of the tables as the code follows them: an entry leads to a table that
the window reaches. -/
def reachShape (boot : BootContext) : Shape ℕ ℕ where
  fan := 512
  depth := 3
  child := fun l e =>
    if e.testBit 0 = true ∧ ¬ (l = 2 ∧ e.testBit 7 = true) ∧ physPtr boot (e &&& pageMask) ≠ 0 then
      some (e &&& pageMask)
    else none
  fan_pos := Nat.succ_pos 511

@[simp] lemma reachShape_fan : (reachShape boot).fan = 512 := rfl

lemma reachChild_eq_some_iff {e : ℕ} : (reachShape boot).child l e = some g ↔
    pageShape.child l e = some g ∧ physPtr boot g ≠ 0 := by
  simp only [reachShape, pageShape, Option.ite_none_right_eq_some, Option.some.injEq]
  constructor
  · rintro ⟨⟨h0, h7, hptr⟩, rfl⟩
    exact ⟨⟨⟨h0, h7⟩, rfl⟩, hptr⟩
  · rintro ⟨⟨⟨h0, h7⟩, rfl⟩, hptr⟩
    exact ⟨⟨h0, h7, hptr⟩, rfl⟩

lemma reachChild_eq_none {e : ℕ} (h : pageShape.child l e = none) :
    (reachShape boot).child l e = none := by
  refine Option.eq_none_iff_forall_ne_some.mpr fun g hg => ?_
  rw [(reachChild_eq_some_iff.mp hg).1] at h
  cases h

/-- What `query_root` reports for the level and the entry at which its walk stops. -/
def answer (virt : ℕ) (stop : ℕ × ℕ) : Option PagingMapping :=
  if stop.2.testBit 0 = false then some {}
  else if stop.1 = 3 then some (leafMapping stop.2 virt pageSize false)
  else if stop.1 = 2 ∧ stop.2.testBit 7 = true then
    some (leafMapping stop.2 virt hugePageSize true)
  else none

lemma answer_small {e : ℕ} (h0 : e.testBit 0 = true) :
    answer virt (3, e) = some (leafMapping e virt pageSize false) := by
  simp [answer, h0]

lemma answer_huge {e : ℕ} (h : e.testBit 0 = true ∧ e.testBit 7 = true) :
    answer virt (2, e) = some (leafMapping e virt hugePageSize true) := by
  simp [answer, h.1, h.2]

/-- The walk for `virt` from a table of level `l` with `k` levels below it. -/
def walkFrom (boot : BootContext) (m : Memory) (virt k l f : ℕ) : ℕ × ℕ :=
  (reachShape boot).walk (entries boot m) (pageNumber virt) k l f

/-- The indices of an address are the digits of its page number. -/
lemma tableIndex_digit (virt : ℕ) :
    tableIndex virt 12 = pageNumber virt % 512 ∧
      tableIndex virt 21 = pageNumber virt / 512 ^ (0 + 1) % 512 ∧
      tableIndex virt 30 = pageNumber virt / 512 ^ (1 + 1) % 512 ∧
      tableIndex virt 39 = pageNumber virt / 512 ^ (2 + 1) % 512 := by
  simp only [tableIndex_eq, pageNumber]
  norm_num
  omega

lemma queryPt_eq (hptr : physPtr boot f ≠ 0) :
    queryPt boot m f virt = answer virt (walkFrom boot m virt 0 3 f) := by
  simp only [queryPt, if_neg hptr, read_table hptr, (tableIndex_digit virt).1, land_pagePresent]
  rfl

/-- One step of `query_root`: an absent entry ends the walk, and so does a pointer to a
table out of reach. -/
lemma query_step {e : ℕ} (query : ℕ → Option PagingMapping) (hl : l < 3)
    (h7 : l = 2 → e.testBit 7 = false)
    (he : entries boot m f (pageNumber virt / 512 ^ (k + 1) % 512) = e)
    (hout : ∀ g, physPtr boot g = 0 → query g = none)
    (hin : ∀ g, physPtr boot g ≠ 0 → query g = answer virt (walkFrom boot m virt k (l + 1) g)) :
    (if e.testBit 0 = false then some {} else query (e &&& pageMask)) =
      answer virt (walkFrom boot m virt (k + 1) l f) := by
  rw [walkFrom, Shape.walk, reachShape_fan, he]
  cases h0 : e.testBit 0 with
  | false =>
    rw [if_pos rfl, reachChild_eq_none (child_eq_none (.inl h0))]
    exact (if_pos h0).symm
  | true =>
    have hchild := child_eq_some h0 h7
    rw [if_neg Bool.true_eq_false.mp]
    by_cases hptr : physPtr boot (e &&& pageMask) = 0
    · have hnone : (reachShape boot).child l e = none := by
        refine Option.eq_none_iff_forall_ne_some.mpr fun g hg => ?_
        obtain ⟨hg, hne⟩ := reachChild_eq_some_iff.mp hg
        rw [← Option.some.inj (hchild.symm.trans hg)] at hne
        exact hne hptr
      have hps : ¬ (l = 2 ∧ e.testBit 7 = true) := by
        rintro ⟨h2, hps⟩
        rw [h7 h2] at hps
        exact Bool.false_ne_true hps
      rw [hout _ hptr, hnone]
      simp only [answer, h0, hl.ne, hps, Bool.true_eq_false, if_false]
    · rw [hin _ hptr, reachChild_eq_some_iff.mpr ⟨hchild, hptr⟩]
      rfl

lemma queryPd_eq (hptr : physPtr boot f ≠ 0) :
    queryPd boot m f virt = answer virt (walkFrom boot m virt 1 2 f) := by
  simp only [queryPd, if_neg hptr, read_table hptr, (tableIndex_digit virt).2.1, land_pagePresent]
  generalize he : entries boot m f (pageNumber virt / 512 ^ (0 + 1) % 512) = e
  cases h7 : e.testBit 7 with
  | false =>
    rw [if_neg (not_not.mpr ((land_pagePs e).mpr h7))]
    exact query_step (fun g => queryPt boot m g virt) (by decide) (fun _ => h7) he
      (fun g hg => if_pos hg) fun g hg => queryPt_eq hg
  | true =>
    have hstop : walkFrom boot m virt 1 2 f = (2, e) := by
      rw [walkFrom, Shape.walk, reachShape_fan, he,
        reachChild_eq_none (child_eq_none (.inr ⟨rfl, h7⟩))]
    have hps : ¬ e &&& pagePs = 0 := by simp [land_pagePs, h7]
    simp [hstop, answer, hps, h7]

lemma queryPdpt_eq (hptr : physPtr boot f ≠ 0) :
    queryPdpt boot m f virt = answer virt (walkFrom boot m virt 2 1 f) := by
  simp only [queryPdpt, if_neg hptr, read_table hptr, (tableIndex_digit virt).2.2.1,
    land_pagePresent]
  exact query_step (fun g => queryPd boot m g virt) (by decide) (fun h => absurd h (by decide)) rfl
    (fun g hg => if_pos hg) fun g hg => queryPd_eq hg

/-- **`query_root` is a walk**: it reports the entry at which the walk from the root
stops. -/
lemma queryRoot_eq (hroot : root ≠ 0) (hptr : physPtr boot root ≠ 0) :
    queryRoot boot root m virt = answer virt (walkFrom boot m virt 3 0 root) := by
  simp only [queryRoot, if_neg hroot, if_neg hptr, read_table hptr,
    (tableIndex_digit virt).2.2.2, land_pagePresent]
  exact query_step (fun g => queryPdpt boot m g virt) (by decide) (fun h => absurd h (by decide))
    rfl (fun g hg => if_pos hg) fun g hg => queryPdpt_eq hg

/-- The table at path `p` on level `l` of the tree that the code can follow stands in
frame `f`. -/
def Stands (boot : BootContext) (root l p f : ℕ) (s : Machine) : Prop :=
  (reachShape boot).tableAt (entries boot s.mem) root l p = some f

/-- The tables that the code can follow are tables of the tree. -/
lemma tableAt_of_stands (h : Stands boot root l p f s) :
    pageShape.tableAt (entries boot s.mem) root l p = some f := by
  induction l generalizing p f with
  | zero => exact h
  | succ l ih =>
    obtain ⟨f', hf', hchild⟩ := Option.bind_eq_some_iff.mp h
    exact Option.bind_eq_some_iff.mpr ⟨f', ih hf', (reachChild_eq_some_iff.mp hchild).1⟩

/-- The bytes a leaf spans. -/
def Leaf.size (leaf : Leaf) : ℕ := if leaf.huge then hugePageSize else pageSize

/-- The answer `r` is the leaf that translates the page of `virt`, or that there is
none. -/
def Reports (c : Surroundings) (root : ℕ) (s : Machine) (virt : ℕ) (r : Option PagingMapping) :
    Prop :=
  (∃ leaf, IsLeaf (entries c.boot s.mem) root (pageNumber virt) leaf ∧
    r = some (leafMapping leaf.entry virt leaf.size leaf.huge)) ∨
  ((∀ leaf, ¬ IsLeaf (entries c.boot s.mem) root (pageNumber virt) leaf) ∧ r = some {})

/-- In the kernel's tree every table can be followed. -/
lemma TreeOk.walk_eq (h : TreeOk c root s) (virt : ℕ) :
    pageShape.walk (entries c.boot s.mem) (pageNumber virt) pageShape.depth 0 root =
      walkFrom c.boot s.mem virt 3 0 root := by
  obtain ⟨l, k, e, hsum, hwalk, hentry, hstop⟩ := Shape.walk_stops (S := reachShape c.boot)
    (t := entries c.boot s.mem) (n := pageNumber virt) (k := 3) (l := 0) (f := root) rfl
  have hk : l + k = pageShape.depth := by
    rw [hsum]
    rfl
  have hentry' : pageShape.entryAt (entries c.boot s.mem) root l (pageNumber virt / 512 ^ k) =
      some e := by
    obtain ⟨f, hf, rfl⟩ := Option.map_eq_some_iff.mp hentry
    exact Option.map_eq_some_iff.mpr ⟨f, tableAt_of_stands hf, rfl⟩
  refine ((Shape.walk_eq_iff hk).mpr ⟨hentry', ?_⟩).trans hwalk.symm
  rcases Nat.eq_zero_or_pos k with hzero | hpos
  · exact .inl hzero
  · refine .inr (Option.eq_none_iff_forall_ne_some.mpr fun g hg => ?_)
    have htable : TableAt c root (l + 1) (pageNumber virt / 512 ^ k) g s := by
      rw [TableAt, Shape.tableAt_succ, hentry']
      exact hg
    have hptr := (h.physPtr_eq (by omega) (Shape.path_lt hk (pageNumber_lt virt)) htable).2
    rw [reachChild_eq_some_iff.mpr ⟨hg, hptr⟩] at hstop
    simp [hpos.ne'] at hstop

/-- **`query_root`** reports the leaf that translates the page of the address, or
that there is none. -/
lemma queryRoot_spec (h : TreeOk c root s) (virt : ℕ) :
    Reports c root s virt (queryRoot c.boot root s.mem virt) := by
  have hroot := h.tableFrame (Nat.zero_le 3) (by norm_num : 0 < 512 ^ 0) rfl
  have hptr := (h.physPtr_eq (Nat.zero_le 3) (by norm_num : 0 < 512 ^ 0) rfl).2
  have hwalk := h.walk_eq virt
  rw [queryRoot_eq (c.window root hroot.managed).1.ne' hptr, Reports, ← hwalk]
  simp only [isLeaf_iff_ends]
  obtain ⟨l, k, e, hsum, hstop, -, hend⟩ := Shape.walk_stops (S := pageShape)
    (t := entries c.boot s.mem) (n := pageNumber virt) (k := 3) (l := 0) (f := root) rfl
  have hstop' : pageShape.walk (entries c.boot s.mem) (pageNumber virt) pageShape.depth 0 root =
      (l, e) := hstop
  rw [hstop']
  cases h0 : e.testBit 0 with
  | false =>
    refine .inr ⟨?_, if_pos h0⟩
    rintro leaf ⟨heq, hpres, -⟩
    rw [← (Prod.mk.inj heq).2, h0] at hpres
    cases hpres
  | true =>
    by_cases hsmall : l = 3
    · subst hsmall
      exact .inl ⟨⟨e, false⟩, Leaf.ends_small.mpr ⟨rfl, h0⟩, answer_small h0⟩
    · have hhuge : l = 2 ∧ e.testBit 7 = true := by
        by_contra hnot
        rw [child_eq_some h0 fun h2 => by simpa [h2] using hnot] at hend
        simp at hend
        omega
      obtain ⟨rfl, h7⟩ := hhuge
      exact .inl ⟨⟨e, true⟩, Leaf.ends_huge.mpr ⟨rfl, h0, h7⟩, answer_huge ⟨h0, h7⟩⟩

end Paging

end JoshOS
