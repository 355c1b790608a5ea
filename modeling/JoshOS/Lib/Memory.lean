import Mathlib

/-!
A byte-addressed memory with little-endian words.

A memory is a total function from addresses to bytes; a word of `n` bytes is
read and written least significant byte first.  All that later proofs use is how
reads look through writes: `readLE_writeLE` at the same address,
`readLE_writeLE_of_disjoint` and `writeLE_apply_of_notMem` elsewhere, and the
same for `fill`, the effect of a loop that stores one byte over an interval.
-/

/-- A byte-addressed memory. -/
abbrev Memory := ℕ → UInt8

namespace Memory

open Function

/-- The little-endian word of `n` bytes at `a`. -/
def readLE (m : Memory) (a : ℕ) : ℕ → ℕ
  | 0 => 0
  | n + 1 => (m a).toNat + 256 * readLE m (a + 1) n

/-- Store the low `n` bytes of `v` at `a`, least significant first. -/
def writeLE (m : Memory) (a : ℕ) : ℕ → ℕ → Memory
  | 0, _ => m
  | n + 1, v => Function.update (writeLE m (a + 1) n (v / 256)) a (UInt8.ofNat v)

/-- Store the byte `b` at the `n` addresses from `a` on. -/
def fill (m : Memory) (a n : ℕ) (b : UInt8) : Memory :=
  fun x => if a ≤ x ∧ x < a + n then b else m x

/-- The 64-bit word at `a`. -/
def read64 (m : Memory) (a : ℕ) : ℕ := readLE m a 8

/-- Store a 64-bit word at `a`. -/
def write64 (m : Memory) (a v : ℕ) : Memory := writeLE m a 8 v

/-- The 32-bit word at `a`. -/
def read32 (m : Memory) (a : ℕ) : ℕ := readLE m a 4

/-- Store a 32-bit word at `a`. -/
def write32 (m : Memory) (a v : ℕ) : Memory := writeLE m a 4 v

variable {m m' : Memory} {a b n k v x : ℕ}

/-! ### Words -/

/-- A read depends only on the bytes it reads. -/
lemma readLE_congr (h : ∀ x, a ≤ x → x < a + n → m x = m' x) : readLE m a n = readLE m' a n := by
  induction n generalizing a with
  | zero => rfl
  | succ n ih =>
    rw [readLE, readLE, h a (le_refl a) (by omega),
      ih fun x hx hx' => h x (by omega) (by omega)]

lemma readLE_lt (m : Memory) (a n : ℕ) : readLE m a n < 256 ^ n := by
  induction n generalizing a with
  | zero => simp [readLE]
  | succ n ih =>
    have hbyte := (m a).toNat_lt
    have hrest := ih (a + 1)
    rw [readLE, pow_succ]
    omega

/-- The bytes of a word, least significant first. -/
lemma readLE_div_mod (m : Memory) (a : ℕ) (h : k < n) :
    readLE m a n / 256 ^ k % 256 = (m (a + k)).toNat := by
  induction n generalizing a k with
  | zero => omega
  | succ n ih =>
    have hbyte := (m a).toNat_lt
    cases k with
    | zero =>
      rw [readLE, pow_zero, Nat.div_one, Nat.add_zero a]
      omega
    | succ k =>
      rw [readLE, pow_succ', ← Nat.div_div_eq_div_mul,
        show ((m a).toNat + 256 * readLE m (a + 1) n) / 256 = readLE m (a + 1) n by omega,
        ih (a + 1) (by omega), Nat.add_right_comm, Nat.add_assoc a k 1]

/-- A write leaves the bytes outside its interval alone. -/
lemma writeLE_apply_of_notMem (h : x < a ∨ a + n ≤ x) : writeLE m a n v x = m x := by
  induction n generalizing a v with
  | zero => rfl
  | succ n ih =>
    rw [writeLE, update_of_ne (by omega), ih (by omega)]

/-- Reading back what was written. -/
lemma readLE_writeLE (m : Memory) (a n v : ℕ) : readLE (writeLE m a n v) a n = v % 256 ^ n := by
  induction n generalizing a v with
  | zero => simp [readLE, Nat.mod_one]
  | succ n ih =>
    have hrest : readLE (writeLE m a (n + 1) v) (a + 1) n = v / 256 % 256 ^ n := by
      rw [← ih (a + 1) (v / 256)]
      refine readLE_congr fun x hx _ => ?_
      rw [writeLE, update_of_ne (by omega)]
    rw [readLE, hrest, writeLE, update_self, pow_succ, Nat.mul_comm (256 ^ n) 256,
      Nat.mod_mul]
    simp

/-- Reading elsewhere than what was written. -/
lemma readLE_writeLE_of_disjoint (h : a + n ≤ b ∨ b + k ≤ a) :
    readLE (writeLE m a n v) b k = readLE m b k :=
  readLE_congr fun _ _ _ => writeLE_apply_of_notMem (by omega)

@[simp] lemma read64_write64 (m : Memory) (a v : ℕ) :
    read64 (write64 m a v) a = v % 2 ^ 64 := by
  rw [read64, write64, readLE_writeLE]
  norm_num

@[simp] lemma read32_write32 (m : Memory) (a v : ℕ) :
    read32 (write32 m a v) a = v % 2 ^ 32 := by
  rw [read32, write32, readLE_writeLE]
  norm_num

lemma read64_lt (m : Memory) (a : ℕ) : read64 m a < 2 ^ 64 := by
  have := readLE_lt m a 8
  norm_num at this ⊢
  exact this

lemma read64_congr (h : ∀ x, a ≤ x → x < a + 8 → m x = m' x) : read64 m a = read64 m' a :=
  readLE_congr h

lemma read64_write64_of_disjoint (h : a + 8 ≤ b ∨ b + 8 ≤ a) :
    read64 (write64 m a v) b = read64 m b := readLE_writeLE_of_disjoint h

lemma write64_apply_of_notMem (h : x < a ∨ a + 8 ≤ x) : write64 m a v x = m x :=
  writeLE_apply_of_notMem h

/-- Storing one byte leaves all others alone. -/
lemma update_eqOn {S : Set ℕ} (h : a ∈ S) (m : Memory) (c : UInt8) :
    Set.EqOn (update m a c) m Sᶜ := by
  intro x hx
  refine update_of_ne ?_ _ _
  rintro rfl
  exact hx h

/-! ### Filled intervals -/

lemma fill_apply_of_mem {b : UInt8} (h : a ≤ x) (h' : x < a + n) : fill m a n b x = b :=
  if_pos ⟨h, h'⟩

lemma fill_apply_of_notMem {b : UInt8} (h : x < a ∨ a + n ≤ x) : fill m a n b x = m x :=
  if_neg (by omega)

/-- Writing the word zero clears its bytes. -/
lemma writeLE_zero (m : Memory) (a n : ℕ) : writeLE m a n 0 = fill m a n 0 := by
  induction n generalizing a with
  | zero =>
    funext x
    rw [writeLE, fill_apply_of_notMem (by omega)]
  | succ n ih =>
    funext x
    rw [writeLE, Nat.zero_div, ih]
    by_cases hx : x = a
    · rw [hx, update_self, fill_apply_of_mem (le_refl a) (by omega)]
      rfl
    · rw [update_of_ne hx]
      simp only [fill]
      congr 1
      exact propext ⟨fun h => by omega, fun h => by omega⟩

/-- Two intervals filled one after the other. -/
lemma fill_fill (m : Memory) (a n k : ℕ) (b : UInt8) :
    fill (fill m a n b) (a + n) k b = fill m a (n + k) b := by
  funext x
  by_cases hx : a + n ≤ x ∧ x < a + n + k
  · rw [fill_apply_of_mem hx.1 hx.2, fill_apply_of_mem (by omega) (by omega)]
  · rw [fill_apply_of_notMem (by omega)]
    simp only [fill]
    congr 1
    exact propext ⟨fun h => by omega, fun h => by omega⟩

/-- A word inside an interval of zero bytes is zero. -/
lemma readLE_fill_zero (h : a ≤ b) (h' : b + k ≤ a + n) : readLE (fill m a n 0) b k = 0 := by
  induction k generalizing b with
  | zero => rfl
  | succ k ih =>
    rw [readLE, fill_apply_of_mem h (by omega), ih (by omega) (by omega)]
    rfl

lemma read64_fill_zero (h : a ≤ b) (h' : b + 8 ≤ a + n) : read64 (fill m a n 0) b = 0 :=
  readLE_fill_zero h h'

lemma read64_fill_of_disjoint {c : UInt8} (h : a + n ≤ b ∨ b + 8 ≤ a) :
    read64 (fill m a n c) b = read64 m b :=
  readLE_congr fun _ _ _ => fill_apply_of_notMem (by omega)

end Memory
