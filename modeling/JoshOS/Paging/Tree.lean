import JoshOS.Lib.Radix
import JoshOS.Paging.Model

/-!
Page-table entries and the four-level tree.

The tables are a radix tree of fan 512 with tables on the levels 0 (PML4) to 3
(page table); a translation is a present entry of a page table, or a present entry
of a page directory with the page-size bit.

* `land_pageMask_of_dvd`, `testBit_of_dvd`: the address and the flags of an entry do
  not disturb each other.
* `IsLeaf`: the leaf entry that translates a page number; `isLeaf_iff_ends`: the walk
  along the page number ends there.
* `isLeaf_link`: a new empty table changes no translation.
-/

namespace JoshOS

open Words Memory Radix

namespace Paging

/-! ### Bits of an entry -/

lemma land_two_pow_eq_zero (e i : ℕ) : e &&& 2 ^ i = 0 ↔ e.testBit i = false := by
  rw [Nat.and_two_pow]
  cases e.testBit i <;> simp

lemma land_pagePresent (e : ℕ) : e &&& pagePresent = 0 ↔ e.testBit 0 = false :=
  land_two_pow_eq_zero e 0

lemma land_pageRw (e : ℕ) : e &&& pageRw = 0 ↔ e.testBit 1 = false := land_two_pow_eq_zero e 1

lemma land_pagePcd (e : ℕ) : e &&& pagePcd = 0 ↔ e.testBit 4 = false := land_two_pow_eq_zero e 4

lemma land_pagePs (e : ℕ) : e &&& pagePs = 0 ↔ e.testBit 7 = false := land_two_pow_eq_zero e 7

lemma land_pageNx (e : ℕ) : e &&& pageNx = 0 ↔ e.testBit 63 = false := land_two_pow_eq_zero e 63

lemma testBit_land_pageMask (e j : ℕ) :
    (e &&& pageMask).testBit j = (decide (12 ≤ j ∧ j < 52) && e.testBit j) := by
  have hmask : pageMask = (2 ^ 40 - 1) * 2 ^ 12 := by decide
  rw [hmask, Nat.testBit_and, Nat.testBit_mul_two_pow, Nat.testBit_two_pow_sub_one,
    Bool.and_comm, ← Bool.decide_and]
  congr 2
  exact propext ⟨fun h => by omega, fun h => by omega⟩

/-- The frame of an entry is page aligned. -/
lemma dvd_land_pageMask (e : ℕ) : pageSize ∣ e &&& pageMask := by
  refine Nat.dvd_of_mod_eq_zero (Nat.eq_of_testBit_eq fun j => ?_)
  rw [show pageSize = 2 ^ 12 from rfl, Nat.testBit_mod_two_pow, testBit_land_pageMask,
    Nat.zero_testBit]
  by_cases h : j < 12
  · simp [h]
  · simp [h]

/-- The low bits of a page-aligned address are clear. -/
lemma testBit_of_dvd {phys j : ℕ} (h : pageSize ∣ phys) (hj : j < 12) : phys.testBit j = false := by
  obtain ⟨k, rfl⟩ := h
  rw [show pageSize = 2 ^ 12 from rfl, Nat.mul_comm, Nat.testBit_mul_two_pow]
  simp [hj]

/-- The frame of a page-aligned address with flags that stay clear of it. -/
lemma land_pageMask_of_dvd {phys flags : ℕ} (h : pageSize ∣ phys)
    (hflags : flags &&& pageMask = 0) :
    (phys ||| flags) &&& pageMask = phys % 2 ^ 52 := by
  rw [Nat.and_or_distrib_right, hflags, Nat.or_zero]
  refine Nat.eq_of_testBit_eq fun j => ?_
  rw [testBit_land_pageMask, Nat.testBit_mod_two_pow]
  by_cases hj : j < 12
  · simp [testBit_of_dvd h hj]
  · simp [not_lt.mp hj]

/-! ### The tree -/

/-- The shape of the tables of x86-64.  An entry with the page-size bit in a page
directory is a leaf; higher up the code follows every present entry. -/
def pageShape : Shape ℕ ℕ where
  fan := 512
  depth := 3
  child := fun l e =>
    if e.testBit 0 = true ∧ ¬ (l = 2 ∧ e.testBit 7 = true) then some (e &&& pageMask) else none
  fan_pos := by decide

@[simp] lemma pageShape_fan : pageShape.fan = 512 := rfl

/-- A leaf entry, and whether it stands in a page directory. -/
structure Leaf where
  entry : ℕ
  huge : Bool
  deriving DecidableEq

/-- `leaf` translates page number `n`, the 36 bits of a virtual address above the
page offset. -/
def IsLeaf (t : ℕ → ℕ → ℕ) (root n : ℕ) (leaf : Leaf) : Prop :=
  leaf.entry.testBit 0 = true ∧
    if leaf.huge = true then
      pageShape.entryAt t root 2 (n / 512) = some leaf.entry ∧ leaf.entry.testBit 7 = true
    else pageShape.entryAt t root 3 n = some leaf.entry

/-- No page-size bit stands where the code would not have written one. -/
def Clean (t : ℕ → ℕ → ℕ) (root : ℕ) : Prop :=
  ∀ l ≤ 2, ∀ p < 512 ^ (l + 1), ∀ e, pageShape.entryAt t root l p = some e →
    e.testBit 7 = true → l = 2 ∧ e.testBit 0 = true

variable {t t' : ℕ → ℕ → ℕ} {root l₀ p₀ i f g n : ℕ} {leaf : Leaf}

lemma child_eq_some {l e : ℕ} (h : e.testBit 0 = true) (h' : l = 2 → e.testBit 7 = false) :
    pageShape.child l e = some (e &&& pageMask) := by
  refine if_pos ⟨h, ?_⟩
  rintro ⟨hl, hps⟩
  rw [h' hl] at hps
  exact Bool.false_ne_true hps

lemma child_eq_none {l e : ℕ} (h : e.testBit 0 = false ∨ l = 2 ∧ e.testBit 7 = true) :
    pageShape.child l e = none := by
  refine if_neg ?_
  rintro ⟨hp, hps⟩
  rcases h with h | h
  · rw [h] at hp
    exact Bool.false_ne_true hp
  · exact hps h

/-- The level of the table in which the leaf stands. -/
def Leaf.level (leaf : Leaf) : ℕ := if leaf.huge then 2 else 3

/-- An entry at which a walk may stop with the leaf. -/
def Leaf.Ends (leaf : Leaf) (stop : ℕ × ℕ) : Prop :=
  stop = (leaf.level, leaf.entry) ∧ leaf.entry.testBit 0 = true ∧
    (leaf.huge = true → leaf.entry.testBit 7 = true)

/-- **A translation is the end of a walk.** -/
lemma isLeaf_iff_ends :
    IsLeaf t root n leaf ↔ leaf.Ends (pageShape.walk t n pageShape.depth 0 root) := by
  obtain ⟨e, huge⟩ := leaf
  cases huge with
  | true =>
    rw [Leaf.Ends, Leaf.level, if_pos rfl, Shape.walk_eq_iff (l := 2) (k := 1) rfl, pow_one]
    constructor
    · rintro ⟨h0, hentry, h7⟩
      exact ⟨⟨hentry, .inr (child_eq_none (.inr ⟨rfl, h7⟩))⟩, h0, fun _ => h7⟩
    · rintro ⟨⟨hentry, -⟩, h0, h7⟩
      exact ⟨h0, hentry, h7 rfl⟩
  | false =>
    rw [Leaf.Ends, Leaf.level, if_neg Bool.false_ne_true,
      Shape.walk_eq_iff (l := 3) (k := 0) rfl, pow_zero, Nat.div_one]
    constructor
    · rintro ⟨h0, hentry⟩
      exact ⟨⟨hentry, .inl rfl⟩, h0, nofun⟩
    · rintro ⟨⟨hentry, -⟩, h0, -⟩
      exact ⟨h0, hentry⟩

/-- The leaf that a walk to a page table ends with. -/
lemma Leaf.ends_small {e : ℕ} : leaf.Ends (3, e) ↔ leaf = ⟨e, false⟩ ∧ e.testBit 0 = true := by
  obtain ⟨e', huge⟩ := leaf
  cases huge with
  | true => simp [Ends, level]
  | false =>
    simp only [Ends, level, Prod.mk.injEq, Leaf.mk.injEq, Bool.false_eq_true, if_false,
      true_and, and_true, false_implies]
    constructor
    · rintro ⟨rfl, h0⟩
      exact ⟨rfl, h0⟩
    · rintro ⟨rfl, h0⟩
      exact ⟨rfl, h0⟩

/-- The leaf that a walk to a page directory ends with. -/
lemma Leaf.ends_huge {e : ℕ} :
    leaf.Ends (2, e) ↔ leaf = ⟨e, true⟩ ∧ e.testBit 0 = true ∧ e.testBit 7 = true := by
  obtain ⟨e', huge⟩ := leaf
  cases huge with
  | true =>
    simp only [Ends, level, Prod.mk.injEq, Leaf.mk.injEq, if_true, true_and, and_true,
      forall_const]
    constructor
    · rintro ⟨rfl, h⟩
      exact ⟨rfl, h⟩
    · rintro ⟨rfl, h⟩
      exact ⟨rfl, h⟩
  | false => simp [Ends, level]

/-- A page has one translation at most. -/
lemma IsLeaf.unique {leaf' : Leaf} (h : IsLeaf t root n leaf) (h' : IsLeaf t root n leaf') :
    leaf = leaf' := by
  have heq := (isLeaf_iff_ends.mp h).1.symm.trans (isLeaf_iff_ends.mp h').1
  obtain ⟨e, huge⟩ := leaf
  obtain ⟨e', huge'⟩ := leaf'
  cases huge with
  | true | false => cases huge' <;> simp_all [Leaf.level]

/-! ### A new table -/

/-- The pointer written into an entry that was not present, and the empty table it
points to. -/
structure NewTable (t t' : ℕ → ℕ → ℕ) (root l₀ p₀ i f g : ℕ) : Prop extends
    Shape.Link pageShape t t' root l₀ p₀ i f g where
  absent : (t f i).testBit 0 = false
  pointer : (t' f i).testBit 0 = true ∧ (t' f i).testBit 7 = false
  zero : ∀ j < 512, t' g j = 0

/-- Where the tree has changed there was no present entry before, and there is no
leaf now. -/
lemma entryAt_newTable (hone : pageShape.OneParent t root)
    (h : NewTable t t' root l₀ p₀ i f g) {l p : ℕ} (hl : l ≤ 3) (hp : p < 512 ^ (l + 1)) :
    pageShape.entryAt t' root l p = pageShape.entryAt t root l p ∨
      (∀ e, pageShape.entryAt t root l p = some e → e.testBit 0 = false) ∧
        ∃ e, pageShape.entryAt t' root l p = some e ∧
          (l = l₀ ∧ e.testBit 0 = true ∧ e.testBit 7 = false ∨ e = 0) := by
  rw [Shape.entryAt_link hone h.toLink hl hp]
  split
  case isTrue heq =>
    obtain ⟨rfl, rfl⟩ := heq
    refine .inr ⟨fun e he => ?_, t' f i, rfl, .inl ⟨rfl, h.pointer⟩⟩
    rw [Shape.entryAt_append h.table h.index] at he
    rw [← Option.some.inj he]
    exact h.absent
  case isFalse =>
    split
    case isTrue heq =>
      obtain ⟨rfl, hdiv⟩ := heq
      refine .inr ⟨fun e he => ?_, 0,
        congrArg some (h.zero _ (Nat.mod_lt p pageShape.fan_pos)), .inr rfl⟩
      rw [Shape.entryAt, hdiv, Shape.tableAt_succ, Shape.entryAt_append h.table h.index,
        Option.bind_some, h.vacant] at he
      simp at he
    case isFalse => exact .inl rfl

/-- **A new empty table changes no translation.** -/
lemma isLeaf_link (hone : pageShape.OneParent t root) (h : NewTable t t' root l₀ p₀ i f g)
    (hn : n < 2 ^ 36) : IsLeaf t' root n leaf ↔ IsLeaf t root n leaf := by
  have hlevel : l₀ < 3 := h.level
  have habsent : ∀ {l e : ℕ}, e.testBit 0 = false → ¬ leaf.Ends (l, e) := by
    rintro l e h0 ⟨heq, hpres, -⟩
    obtain ⟨-, rfl⟩ := Prod.mk.inj heq
    exact Bool.false_ne_true (h0.symm.trans hpres)
  rw [isLeaf_iff_ends, isLeaf_iff_ends]
  rcases Shape.walk_link h.toLink hone (d := 2 - l₀) (by show l₀ + (2 - l₀) + 1 = 3; omega) hn with
    ⟨hold, j, hj, hnew⟩ | hsame
  · -- the walk stopped at the absent entry, and stops at an empty one now
    rw [hold, hnew, h.zero j hj]
    exact iff_of_false (habsent (Nat.zero_testBit 0)) (habsent h.absent)
  · rw [hsame]

lemma Clean.link (hc : Clean t root) (hone : pageShape.OneParent t root)
    (h : NewTable t t' root l₀ p₀ i f g) : Clean t' root := by
  intro l hl p hp e he hps
  rcases entryAt_newTable hone h (by omega : l ≤ 3) hp with heq | ⟨-, e', he', hnew⟩
  · rw [heq] at he
    exact hc l hl p hp e he hps
  · rw [he] at he'
    obtain rfl := Option.some.inj he'
    rcases hnew with ⟨-, -, h7⟩ | rfl
    · rw [hps] at h7
      exact absurd h7 (by simp)
    · simp at hps

/-! ### A new leaf -/

/-- A leaf written in a page table or, present, in a page directory leaves the tree
clean. -/
lemma Clean.set (hc : Clean t root) (hone : pageShape.OneParent t root)
    (hag : pageShape.AgreeExcept t t' root f i)
    (htab : ∀ {l p}, l ≤ pageShape.depth → p < pageShape.fan ^ l →
      pageShape.tableAt t' root l p = pageShape.tableAt t root l p)
    (hl₀ : l₀ ≤ 3) (hp₀ : p₀ < 512 ^ l₀) (hf : pageShape.tableAt t root l₀ p₀ = some f)
    (hi : i < 512) (hnew : l₀ < 2 → (t' f i).testBit 7 = false)
    (hpres : l₀ = 2 → (t' f i).testBit 0 = true) : Clean t' root := by
  intro l hl p hp e he hps
  rw [Shape.entryAt_set hone hag htab hl₀ hp₀ hf hi (by omega : l ≤ 3) hp] at he
  split at he
  case isTrue heq =>
    obtain rfl := Option.some.inj he
    obtain ⟨rfl, -⟩ := heq
    by_cases h2 : l = 2
    · exact ⟨h2, hpres h2⟩
    · rw [hnew (by omega)] at hps
      exact absurd hps (by simp)
  case isFalse => exact hc l hl p hp e he hps

end Paging

end JoshOS
