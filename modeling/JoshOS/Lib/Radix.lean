import Mathlib

/-!
Radix trees of tables.

A table is an array of `fan` entries; an entry of a table on level `l` may point to
a table on level `l + 1`.  A table on level `l` is named by its path from the root,
read as a number of `l` digits to the base `fan`, and an entry by the path of its
table with its index as one more digit.

* `tableAt`, `entryAt`: the table and the entry at a path.
* `OneParent`: no table is found at two paths.
* `tableAt_congr`: a change of entries that keeps every pointer keeps every table.
* `entryAt_set`: overwriting one entry that points nowhere changes this entry only.
* `tableAt_link`, `entryAt_link`, `OneParent.link`: hanging a fresh empty table into
  an entry.
* `walk`, `walk_eq_iff`: the entry at which a walk from the root stops; `walk_set`,
  `walk_link`: walks past an overwritten entry and into a fresh table.
-/

namespace Radix

variable {ι E : Type*}

/-- The shape of a tree: the number of entries of a table, the lowest level of
tables, and the table an entry of a level points to. -/
structure Shape (ι E : Type*) where
  fan : ℕ
  depth : ℕ
  child : ℕ → E → Option ι
  fan_pos : 0 < fan

namespace Shape

variable (S : Shape ι E) (t t' : ι → ℕ → E) (root : ι)

/-- The table at path `p` on level `l`. -/
def tableAt : ℕ → ℕ → Option ι
  | 0, _ => some root
  | l + 1, p => (tableAt l (p / S.fan)).bind fun f => S.child l (t f (p % S.fan))

/-- The entry at path `p` on level `l`. -/
def entryAt (l p : ℕ) : Option E := (S.tableAt t root l (p / S.fan)).map fun f => t f (p % S.fan)

/-- The tables of the tree. -/
def tables : Set ι := {f | ∃ l ≤ S.depth, ∃ p < S.fan ^ l, S.tableAt t root l p = some f}

/-- Every table is found at one path only. -/
def OneParent : Prop :=
  ∀ l ≤ S.depth, ∀ p < S.fan ^ l, ∀ l' ≤ S.depth, ∀ p' < S.fan ^ l', ∀ f,
    S.tableAt t root l p = some f → S.tableAt t root l' p' = some f → l = l' ∧ p = p'

/-- The tables of the tree keep their entries, except for entry `i` of `f`. -/
def AgreeExcept (f : ι) (i : ℕ) : Prop :=
  ∀ g ∈ S.tables t root, ∀ j < S.fan, g ≠ f ∨ j ≠ i → t' g j = t g j

variable {S t t' root} {l l₀ p p₀ i : ℕ} {f g : ι}

lemma tableAt_zero : S.tableAt t root 0 p = some root := rfl

lemma tableAt_succ : S.tableAt t root (l + 1) p = (S.entryAt t root l p).bind (S.child l) := by
  rw [tableAt, entryAt]
  cases S.tableAt t root l (p / S.fan) <;> rfl

/-- Below an absent table there is nothing. -/
lemma entryAt_eq_none (h : S.tableAt t root l (p / S.fan) = none) :
    S.entryAt t root l p = none := by
  rw [entryAt, h, Option.map_none]

lemma tableAt_succ_eq_none (h : S.tableAt t root l (p / S.fan) = none) :
    S.tableAt t root (l + 1) p = none := by
  rw [tableAt_succ, entryAt_eq_none h, Option.bind_none]

lemma mem_tables (hl : l ≤ S.depth) (hp : p < S.fan ^ l) (h : S.tableAt t root l p = some f) :
    f ∈ S.tables t root := ⟨l, hl, p, hp, h⟩

lemma root_mem_tables : root ∈ S.tables t root :=
  mem_tables (Nat.zero_le _) (by simp : 0 < S.fan ^ 0) rfl

lemma div_lt (hp : p < S.fan ^ (l + 1)) : p / S.fan < S.fan ^ l :=
  Nat.div_lt_of_lt_mul (by rwa [pow_succ, Nat.mul_comm] at hp)

/-- A path of one more digit. -/
lemma append_div_mod (p₀ : ℕ) (hi : i < S.fan) :
    (S.fan * p₀ + i) / S.fan = p₀ ∧ (S.fan * p₀ + i) % S.fan = i :=
  ⟨by rw [Nat.mul_add_div S.fan_pos, Nat.div_eq_of_lt hi, Nat.add_zero],
    by rw [Nat.mul_add_mod, Nat.mod_eq_of_lt hi]⟩

lemma append_lt (hp : p₀ < S.fan ^ l) (hi : i < S.fan) : S.fan * p₀ + i < S.fan ^ (l + 1) := by
  have : S.fan * (p₀ + 1) ≤ S.fan * S.fan ^ l := Nat.mul_le_mul_left _ hp
  rw [pow_succ, Nat.mul_comm (S.fan ^ l)]
  rw [Nat.mul_add, Nat.mul_one] at this
  omega

lemma eq_append_iff (hi : i < S.fan) : p = S.fan * p₀ + i ↔ p / S.fan = p₀ ∧ p % S.fan = i := by
  constructor
  · rintro rfl
    exact append_div_mod _ hi
  · rintro ⟨rfl, rfl⟩
    exact (Nat.div_add_mod p S.fan).symm

/-- The entry with index `i` of the table at `p₀`. -/
lemma entryAt_append (h : S.tableAt t root l p₀ = some f) (hi : i < S.fan) :
    S.entryAt t root l (S.fan * p₀ + i) = some (t f i) := by
  obtain ⟨h1, h2⟩ := append_div_mod p₀ hi
  rw [entryAt, h1, h2, h, Option.map_some]

/-! ### Changing entries -/

/-- **Pointers kept, tables kept.** -/
lemma tableAt_congr (h : ∀ l < S.depth, ∀ p < S.fan ^ l, ∀ f, S.tableAt t root l p = some f →
      ∀ i < S.fan, S.child l (t' f i) = S.child l (t f i)) :
    ∀ {l p}, l ≤ S.depth → p < S.fan ^ l → S.tableAt t' root l p = S.tableAt t root l p := by
  intro l
  induction l with
  | zero => intros; rfl
  | succ l ih =>
    intro p hl hp
    rw [tableAt, tableAt, ih (by omega) (div_lt hp)]
    rcases hf : S.tableAt t root l (p / S.fan) with _ | f
    · rfl
    · exact h l (by omega) _ (div_lt hp) f hf _ (Nat.mod_lt _ S.fan_pos)

/-- Equal tables have equal sets of tables. -/
lemma tables_congr (h : ∀ {l p}, l ≤ S.depth → p < S.fan ^ l →
      S.tableAt t' root l p = S.tableAt t root l p) :
    S.tables t' root = S.tables t root ∧ (S.OneParent t' root ↔ S.OneParent t root) := by
  constructor
  · ext f
    constructor
    · rintro ⟨l, hl, p, hp, hf⟩
      exact ⟨l, hl, p, hp, by rw [← h hl hp, hf]⟩
    · rintro ⟨l, hl, p, hp, hf⟩
      exact ⟨l, hl, p, hp, by rw [h hl hp, hf]⟩
  · refine forall₂_congr fun l hl => forall₂_congr fun p hp => forall₂_congr fun l' hl' =>
      forall₂_congr fun p' hp' => forall_congr' fun f => ?_
    rw [h hl hp, h hl' hp']

/-- Equal entries in every table: equal entries at every path. -/
lemma entryAt_congr (h : ∀ f ∈ S.tables t root, ∀ i < S.fan, t' f i = t f i)
    (hl : l ≤ S.depth) (hp : p < S.fan ^ (l + 1)) :
    S.entryAt t' root l p = S.entryAt t root l p := by
  have htab : S.tableAt t' root l (p / S.fan) = S.tableAt t root l (p / S.fan) :=
    tableAt_congr (fun l hl p hp f hf i hi =>
      congrArg (S.child l) (h f (mem_tables hl.le hp hf) i hi)) hl (div_lt hp)
  rw [entryAt, entryAt, htab]
  rcases hf : S.tableAt t root l (p / S.fan) with _ | f
  · rfl
  · rw [Option.map_some, Option.map_some,
      h f (mem_tables hl (div_lt hp) hf) _ (Nat.mod_lt _ S.fan_pos)]

/-- The table of another path than the changed one keeps its entry. -/
lemma AgreeExcept.entry_eq (hag : S.AgreeExcept t t' root f i) (hone : S.OneParent t root)
    (hl₀ : l₀ ≤ S.depth) (hp₀ : p₀ < S.fan ^ l₀) (hf : S.tableAt t root l₀ p₀ = some f)
    (hi : i < S.fan) (hl : l ≤ S.depth) (hp : p < S.fan ^ (l + 1))
    (hg : S.tableAt t root l (p / S.fan) = some g) (hne : ¬ (l = l₀ ∧ p = S.fan * p₀ + i)) :
    t' g (p % S.fan) = t g (p % S.fan) := by
  refine hag g (mem_tables hl (div_lt hp) hg) _ (Nat.mod_lt _ S.fan_pos) ?_
  by_contra hcon
  push Not at hcon
  obtain ⟨rfl, hmod⟩ := hcon
  obtain ⟨rfl, hdiv⟩ := hone l hl _ (div_lt hp) l₀ hl₀ p₀ hp₀ g hg hf
  exact hne ⟨rfl, (eq_append_iff hi).mpr ⟨hdiv, hmod⟩⟩

/-- An entry that points to the same table as before keeps every table. -/
lemma tableAt_set (hone : S.OneParent t root) (hag : S.AgreeExcept t t' root f i)
    (hl₀ : l₀ ≤ S.depth) (hp₀ : p₀ < S.fan ^ l₀) (hf : S.tableAt t root l₀ p₀ = some f)
    (hchild : l₀ < S.depth → S.child l₀ (t' f i) = S.child l₀ (t f i)) (hl : l ≤ S.depth)
    (hp : p < S.fan ^ l) : S.tableAt t' root l p = S.tableAt t root l p := by
  refine tableAt_congr (fun l hl p hp g hg j hj => ?_) hl hp
  by_cases heq : g = f ∧ j = i
  · obtain ⟨rfl, rfl⟩ := heq
    obtain ⟨rfl, -⟩ := hone l hl.le p hp l₀ hl₀ p₀ hp₀ g hg hf
    exact hchild hl
  · rw [hag g (mem_tables hl.le hp hg) j hj (by tauto)]

/-- **One entry overwritten.** -/
lemma entryAt_set (hone : S.OneParent t root) (hag : S.AgreeExcept t t' root f i)
    (htab : ∀ {l p}, l ≤ S.depth → p < S.fan ^ l → S.tableAt t' root l p = S.tableAt t root l p)
    (hl₀ : l₀ ≤ S.depth) (hp₀ : p₀ < S.fan ^ l₀) (hf : S.tableAt t root l₀ p₀ = some f)
    (hi : i < S.fan) (hl : l ≤ S.depth) (hp : p < S.fan ^ (l + 1)) :
    S.entryAt t' root l p =
      if l = l₀ ∧ p = S.fan * p₀ + i then some (t' f i) else S.entryAt t root l p := by
  split
  case isTrue heq =>
    obtain ⟨rfl, rfl⟩ := heq
    exact entryAt_append ((htab hl₀ hp₀).trans hf) hi
  case isFalse hne =>
    rw [entryAt, entryAt, htab hl (div_lt hp)]
    rcases hg : S.tableAt t root l (p / S.fan) with _ | g
    · rfl
    · rw [Option.map_some, Option.map_some, hag.entry_eq hone hl₀ hp₀ hf hi hl hp hg hne]

/-! ### Hanging in a table -/

/-- What hanging the fresh table `g` into entry `i` of the table `f` does to the
tables. -/
structure Link (S : Shape ι E) (t t' : ι → ℕ → E) (root : ι) (l₀ p₀ i : ℕ) (f g : ι) : Prop where
  level : l₀ < S.depth
  path : p₀ < S.fan ^ l₀
  index : i < S.fan
  table : S.tableAt t root l₀ p₀ = some f
  agree : S.AgreeExcept t t' root f i
  fresh : g ∉ S.tables t root
  vacant : S.child l₀ (t f i) = none
  points : S.child l₀ (t' f i) = some g
  empty : ∀ j < S.fan, S.child (l₀ + 1) (t' g j) = none

/-- **A table hung in is found at its path, the others where they were.** -/
lemma tableAt_link (hone : S.OneParent t root) (h : Link S t t' root l₀ p₀ i f g) :
    ∀ {l p}, l ≤ S.depth → p < S.fan ^ l →
      S.tableAt t' root l p =
        if l = l₀ + 1 ∧ p = S.fan * p₀ + i then some g else S.tableAt t root l p := by
  intro l
  induction l with
  | zero =>
    intro p _ _
    rw [if_neg (by omega)]
    rfl
  | succ l ih =>
    intro p hl hp
    rw [tableAt, tableAt, ih (by omega) (div_lt hp)]
    by_cases hbelow : l = l₀ + 1 ∧ p / S.fan = S.fan * p₀ + i
    · -- the path leads through the fresh table, which points nowhere
      obtain ⟨rfl, hdiv⟩ := hbelow
      rw [if_pos ⟨rfl, hdiv⟩, if_neg (by omega), hdiv, tableAt_succ,
        entryAt_append h.table h.index]
      simp [h.vacant, h.empty _ (Nat.mod_lt _ S.fan_pos)]
    · rw [if_neg hbelow]
      by_cases hhere : l + 1 = l₀ + 1 ∧ p = S.fan * p₀ + i
      · obtain ⟨hll, hpp⟩ := hhere
        obtain rfl : l = l₀ := by omega
        obtain ⟨h1, h2⟩ := (eq_append_iff h.index).mp hpp
        rw [if_pos ⟨rfl, hpp⟩, h1, h2, h.table]
        exact h.points
      · rw [if_neg hhere]
        rcases hg : S.tableAt t root l (p / S.fan) with _ | f'
        · rfl
        · rw [Option.bind_some, Option.bind_some, h.agree.entry_eq hone h.level.le h.path
            h.table h.index (by omega) hp hg fun heq => hhere ⟨by rw [heq.1], heq.2⟩]

/-- The tables after hanging one in. -/
lemma tables_link (hone : S.OneParent t root) (h : Link S t t' root l₀ p₀ i f g) :
    S.tables t' root ⊆ insert g (S.tables t root) := by
  rintro f' ⟨l, hl, p, hp, hf⟩
  rw [tableAt_link hone h hl hp] at hf
  split at hf
  · exact Set.mem_insert_iff.mpr (.inl (Option.some.inj hf).symm)
  · exact Set.mem_insert_of_mem _ (mem_tables hl hp hf)

/-- Hanging in a fresh table keeps every table at one path. -/
lemma OneParent.link (hone : S.OneParent t root) (h : Link S t t' root l₀ p₀ i f g) :
    S.OneParent t' root := by
  intro l hl p hp l' hl' p' hp' f' hf hf'
  rw [tableAt_link hone h hl hp] at hf
  rw [tableAt_link hone h hl' hp'] at hf'
  split at hf
  case isTrue heq =>
    obtain rfl := Option.some.inj hf
    split at hf'
    case isTrue heq' => exact ⟨heq.1.trans heq'.1.symm, heq.2.trans heq'.2.symm⟩
    case isFalse => exact absurd (mem_tables hl' hp' hf') h.fresh
  case isFalse =>
    split at hf'
    case isTrue =>
      obtain rfl := Option.some.inj hf'
      exact absurd (mem_tables hl hp hf) h.fresh
    case isFalse => exact hone l hl p hp l' hl' p' hp' f' hf hf'

/-- **The entries after hanging in a table**: the pointer, the entries of the fresh
table, and otherwise the old ones. -/
lemma entryAt_link (hone : S.OneParent t root) (h : Link S t t' root l₀ p₀ i f g)
    (hl : l ≤ S.depth) (hp : p < S.fan ^ (l + 1)) :
    S.entryAt t' root l p =
      if l = l₀ ∧ p = S.fan * p₀ + i then some (t' f i)
      else if l = l₀ + 1 ∧ p / S.fan = S.fan * p₀ + i then some (t' g (p % S.fan))
      else S.entryAt t root l p := by
  rw [entryAt, entryAt, tableAt_link hone h hl (div_lt hp)]
  by_cases hhere : l = l₀ ∧ p = S.fan * p₀ + i
  · obtain ⟨rfl, rfl⟩ := hhere
    obtain ⟨h1, h2⟩ := append_div_mod p₀ h.index
    rw [if_neg (by omega), if_pos ⟨rfl, rfl⟩, h1, h2, h.table, Option.map_some]
  · rw [if_neg hhere]
    split
    case isTrue => rfl
    case isFalse =>
      rcases hg : S.tableAt t root l (p / S.fan) with _ | f'
      · rfl
      · rw [Option.map_some, Option.map_some,
          h.agree.entry_eq hone h.level.le h.path h.table h.index hl hp hg hhere]

/-! ### Walks -/

variable (S t) in
/-- The walk along the path `n` from the table `f` of level `l`, with `k` levels below
it: the level and the entry it stops at, which is the first entry on its way that
points to no table, or an entry of the lowest table. -/
def walk (n : ℕ) : ℕ → ℕ → ι → ℕ × E
  | 0, l, f => (l, t f (n % S.fan))
  | k + 1, l, f =>
    match S.child l (t f (n / S.fan ^ (k + 1) % S.fan)) with
    | none => (l, t f (n / S.fan ^ (k + 1) % S.fan))
    | some g => walk n k (l + 1) g

/-- The entry of the table on the way along the path `n`. -/
lemma entryAt_of_tableAt {n k : ℕ} (h : S.tableAt t root l (n / S.fan ^ (k + 1)) = some f) :
    S.entryAt t root l (n / S.fan ^ k) = some (t f (n / S.fan ^ k % S.fan)) := by
  rw [entryAt, Nat.div_div_eq_div_mul, ← pow_succ, h, Option.map_some]

/-- A walk comes by the tables on its path. -/
lemma walk_of_tableAt {n : ℕ} : ∀ {l k f}, S.tableAt t root l (n / S.fan ^ (k + 1)) = some f →
    S.walk t n (l + k) 0 root = S.walk t n k l f := by
  intro l
  induction l with
  | zero =>
    intro k f h
    rw [Nat.zero_add, Option.some.inj h]
  | succ l ih =>
    intro k f h
    rw [tableAt, Nat.div_div_eq_div_mul, ← pow_succ] at h
    obtain ⟨f', hf', hchild⟩ := Option.bind_eq_some_iff.mp h
    rw [Nat.add_right_comm, Nat.add_assoc, ih hf', walk, hchild]

/-- A walk stops at an entry on its path: in the lowest table, or where it points nowhere. -/
lemma walk_stops {n : ℕ} : ∀ {k l f}, S.tableAt t root l (n / S.fan ^ (k + 1)) = some f →
    ∃ l' k' e, l' + k' = l + k ∧ S.walk t n k l f = (l', e) ∧
      S.entryAt t root l' (n / S.fan ^ k') = some e ∧ (k' = 0 ∨ S.child l' e = none) := by
  intro k
  induction k with
  | zero =>
    intro l f hf
    refine ⟨l, 0, _, rfl, ?_, entryAt_of_tableAt hf, .inl rfl⟩
    rw [walk, pow_zero, Nat.div_one]
  | succ k ih =>
    intro l f hf
    rw [walk]
    cases hchild : S.child l (t f (n / S.fan ^ (k + 1) % S.fan)) with
    | none => exact ⟨l, k + 1, _, rfl, rfl, entryAt_of_tableAt hf, .inr hchild⟩
    | some g =>
      obtain ⟨l', k', e, hsum, hstop⟩ := ih (l := l + 1) (f := g) (by
        rw [tableAt_succ, entryAt_of_tableAt hf, Option.bind_some, hchild])
      exact ⟨l', k', e, by omega, hstop⟩

/-- **Where a walk from the root stops.** -/
lemma walk_eq_iff {n k : ℕ} {e : E} (hk : l + k = S.depth) :
    S.walk t n S.depth 0 root = (l, e) ↔
      S.entryAt t root l (n / S.fan ^ k) = some e ∧ (k = 0 ∨ S.child l e = none) := by
  constructor
  · intro hwalk
    obtain ⟨l', k', e', hsum, hwalk', hstop⟩ := walk_stops (S := S) (t := t) (n := n)
      (k := S.depth) (l := 0) (f := root) rfl
    obtain ⟨rfl, rfl⟩ := Prod.mk.inj (hwalk.symm.trans hwalk')
    obtain rfl : k = k' := by omega
    exact hstop
  · rintro ⟨hentry, hstop⟩
    obtain ⟨f, hf, rfl⟩ := Option.map_eq_some_iff.mp hentry
    rw [Nat.div_div_eq_div_mul, ← pow_succ] at hf
    rw [← hk, walk_of_tableAt hf]
    cases k with
    | zero => rw [walk, pow_zero, Nat.div_one]
    | succ k => rw [walk, hstop.resolve_left k.succ_ne_zero]

/-- Walks over the same entries stop alike. -/
lemma walk_congr {n : ℕ} (h : ∀ l k, l + k = S.depth →
      S.entryAt t' root l (n / S.fan ^ k) = S.entryAt t root l (n / S.fan ^ k)) :
    S.walk t' n S.depth 0 root = S.walk t n S.depth 0 root := by
  obtain ⟨l, k, e, hsum, hwalk, hstop⟩ := walk_stops (S := S) (t := t) (n := n)
    (k := S.depth) (l := 0) (f := root) rfl
  rw [Nat.zero_add] at hsum
  rw [hwalk, walk_eq_iff hsum, h l k hsum]
  exact hstop

lemma path_lt {n k : ℕ} (hk : l + k = S.depth) (hn : n < S.fan ^ (S.depth + 1)) :
    n / S.fan ^ k < S.fan ^ (l + 1) := by
  rw [Nat.div_lt_iff_lt_mul (Nat.pow_pos S.fan_pos), ← pow_add, Nat.add_right_comm, hk]
  exact hn

/-- **A walk after one entry has been overwritten** that points nowhere: it stops
there if it comes by, and as before if not. -/
lemma walk_set {n k₀ : ℕ} (hone : S.OneParent t root) (hag : S.AgreeExcept t t' root f i)
    (htab : ∀ {l p}, l ≤ S.depth → p < S.fan ^ l → S.tableAt t' root l p = S.tableAt t root l p)
    (hl₀ : l₀ + k₀ = S.depth) (hp₀ : p₀ < S.fan ^ l₀) (hf : S.tableAt t root l₀ p₀ = some f)
    (hi : i < S.fan) (hstop : k₀ = 0 ∨ S.child l₀ (t' f i) = none)
    (hn : n < S.fan ^ (S.depth + 1)) :
    S.walk t' n S.depth 0 root =
      if n / S.fan ^ k₀ = S.fan * p₀ + i then (l₀, t' f i) else S.walk t n S.depth 0 root := by
  split
  case isTrue hthrough =>
    rw [walk_eq_iff hl₀, hthrough]
    exact ⟨entryAt_append ((htab (by omega) hp₀).trans hf) hi, hstop⟩
  case isFalse hne =>
    refine walk_congr fun l k hk => ?_
    rw [entryAt_set hone hag htab (by omega) hp₀ hf hi (by omega) (path_lt hk hn), if_neg]
    rintro ⟨rfl, hpath⟩
    obtain rfl : k = k₀ := by omega
    exact hne hpath

/-- **A walk after hanging in an empty table** stops at one of its entries if it
stopped at the pointer before. -/
lemma walk_link {n d : ℕ} (h : Link S t t' root l₀ p₀ i f g) (hone : S.OneParent t root)
    (hd : l₀ + d + 1 = S.depth) (hn : n < S.fan ^ (S.depth + 1)) :
    (S.walk t n S.depth 0 root = (l₀, t f i) ∧
      ∃ j < S.fan, S.walk t' n S.depth 0 root = (l₀ + 1, t' g j)) ∨
      S.walk t' n S.depth 0 root = S.walk t n S.depth 0 root := by
  by_cases hthrough : n / S.fan ^ (d + 1) = S.fan * p₀ + i
  · refine .inl ⟨?_, n / S.fan ^ d % S.fan, Nat.mod_lt _ S.fan_pos, ?_⟩
    · rw [walk_eq_iff (k := d + 1) (by omega), hthrough]
      exact ⟨entryAt_append h.table h.index, .inr h.vacant⟩
    · have hg := tableAt_link hone h (l := l₀ + 1) (p := S.fan * p₀ + i) (by omega)
        (append_lt h.path h.index)
      rw [if_pos ⟨rfl, rfl⟩, ← hthrough] at hg
      rw [walk_eq_iff (k := d) (by omega)]
      exact ⟨entryAt_of_tableAt hg, .inr (h.empty _ (Nat.mod_lt _ S.fan_pos))⟩
  · refine .inr (walk_congr fun l k hk => ?_)
    rw [entryAt_link hone h (by omega) (path_lt hk hn), if_neg, if_neg]
    · rintro ⟨rfl, hpath⟩
      obtain rfl : k = d := by omega
      rw [Nat.div_div_eq_div_mul, ← pow_succ] at hpath
      exact hthrough hpath
    · rintro ⟨rfl, hpath⟩
      obtain rfl : k = d + 1 := by omega
      exact hthrough hpath

end Shape

end Radix
