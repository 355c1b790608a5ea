import Mathlib

/-!
One's-complement sums of byte strings in 16-bit words.

A byte string is read as big-endian 16-bit words, an odd last byte being the high half
of a word; `wordSum` is the exact sum of the words.  A sum is brought back to 16 bits by
adding its carries to its low half, as often as it takes (`foldCarries`).

* `foldCarries_modEq`, `foldCarries_eq_zero_iff`, `foldCarries_lt`: the folded sum is the
  representative of the exact sum modulo `65535` that is zero only for the sum zero.
* `Represents`, `Represents.add`: the relation of a folded sum to the exact one, kept by
  adding more words.
* `folded`: the number that stands for a sum.
* `Represents.eq_iff`: when two numbers that stand for two sums are the same.
* `wordSum_set`: what storing one byte does to the sum.
* `wordSum_flipBit_not_modEq`: the sum modulo `65535` notices a flipped bit.
* `Complements.verify`: a sum together with its complement complements to zero.
-/

namespace OnesComplement

open List

/-- The exact sum of the 16-bit words of a byte string. -/
def wordSum : List UInt8 → ℕ
  | [] => 0
  | [a] => 256 * a.toNat
  | a :: b :: rest => 256 * a.toNat + b.toNat + wordSum rest

/-- At most `fuel` rounds of adding the carries above the low 16 bits to them. -/
def foldCarries : ℕ → ℕ → ℕ
  | 0, sum => sum
  | fuel + 1, sum => if sum / 65536 = 0 then sum else foldCarries fuel (sum % 65536 + sum / 65536)

variable {fuel sum r s t c d : ℕ}

@[simp] lemma wordSum_nil : wordSum [] = 0 := rfl

@[simp] lemma wordSum_cons_cons (a b : UInt8) (rest : List UInt8) :
    wordSum (a :: b :: rest) = 256 * a.toNat + b.toNat + wordSum rest := rfl

/-- No word exceeds 16 bits, and a string of `n` bytes has at most `(n + 1) / 2` of them. -/
lemma wordSum_le (bytes : List UInt8) : wordSum bytes ≤ 65535 * ((bytes.length + 1) / 2) := by
  induction bytes using wordSum.induct with
  | case1 => simp
  | case2 a =>
    have := a.toNat_lt
    simp only [wordSum, length_singleton]
    omega
  | case3 a b rest ih =>
    have ha := a.toNat_lt
    have hb := b.toNat_lt
    simp only [wordSum_cons_cons, length_cons]
    omega

/-- Strings are summed one after the other if the first has no odd byte. -/
lemma wordSum_append {xs : List UInt8} (heven : xs.length % 2 = 0) (ys : List UInt8) :
    wordSum (xs ++ ys) = wordSum xs + wordSum ys := by
  induction xs using wordSum.induct with
  | case1 => exact (Nat.zero_add _).symm
  | case2 a => simp at heven
  | case3 a b rest ih =>
    have hrest : rest.length % 2 = 0 := by
      simp only [length_cons] at heven
      omega
    rw [cons_append, cons_append, wordSum_cons_cons, wordSum_cons_cons, ih hrest]
    omega

/-- What a byte at position `i` counts for in the sum. -/
def weight (i : ℕ) : ℕ := if i % 2 = 0 then 256 else 1

@[simp] lemma weight_zero : weight 0 = 256 := rfl

@[simp] lemma weight_one : weight 1 = 1 := rfl

lemma weight_add_two (i : ℕ) : weight (i + 2) = weight i := by
  rw [weight, weight, Nat.add_mod_right]

/-- Storing a byte exchanges its share of the sum. -/
lemma wordSum_set (bytes : List UInt8) {i : ℕ} (hi : i < bytes.length) (b : UInt8) :
    wordSum (bytes.set i b) + weight i * (bytes.getD i 0).toNat =
      wordSum bytes + weight i * b.toNat := by
  induction bytes using wordSum.induct generalizing i with
  | case1 => simp at hi
  | case2 a =>
    obtain rfl : i = 0 := by simpa using hi
    simp [wordSum, weight, Nat.add_comm]
  | case3 a c rest ih =>
    match i, hi with
    | 0, _ =>
      simp only [set_cons_zero, wordSum_cons_cons, getD_cons_zero, weight_zero]
      omega
    | 1, _ =>
      simp only [set_cons_succ, set_cons_zero, wordSum_cons_cons,
        getD_cons_succ, getD_cons_zero, weight_one]
      omega
    | i + 2, hi =>
      have := ih (i := i) (by simpa using hi)
      simp only [set_cons_succ, wordSum_cons_cons, getD_cons_succ, weight_add_two]
      omega

/-! ### Flipped bits -/

/-- The string with bit `k` of its byte `i` inverted. -/
def flipBit (bytes : List UInt8) (i : ℕ) (k : Fin 8) : List UInt8 :=
  bytes.set i (bytes.getD i 0 ^^^ UInt8.ofNat (2 ^ k.val))

/-- Inverting a bit of a byte adds or takes away its value. -/
lemma xor_two_pow (b : UInt8) (k : Fin 8) :
    (b ^^^ UInt8.ofNat (2 ^ k.val)).toNat = b.toNat + 2 ^ k.val ∨
      (b ^^^ UInt8.ofNat (2 ^ k.val)).toNat + 2 ^ k.val = b.toNat := by
  have hall : ∀ n < 256, ∀ k : Fin 8,
      n ^^^ 2 ^ k.val = n + 2 ^ k.val ∨ (n ^^^ 2 ^ k.val) + 2 ^ k.val = n := by
    decide +kernel
  have hpow : 2 ^ k.val < 2 ^ 8 := Nat.pow_lt_pow_right (by norm_num) k.isLt
  rw [UInt8.toNat_xor, UInt8.toNat_ofNat', Nat.mod_eq_of_lt hpow]
  exact hall b.toNat b.toNat_lt k

/-- Two sums that differ by one bit of a word are not congruent. -/
lemma not_modEq_of_two_pow {j : ℕ} (hj : j < 16) (h : t = s + 2 ^ j ∨ t + 2 ^ j = s) :
    ¬ t ≡ s [MOD 65535] := by
  have hpos : 0 < 2 ^ j := Nat.two_pow_pos j
  have hle : 2 ^ j ≤ 2 ^ 15 := Nat.pow_le_pow_right (by norm_num) (by omega)
  rw [Nat.ModEq]
  rcases h with rfl | rfl
  · omega
  · omega

/-- A flipped bit changes the sum modulo `65535`. -/
lemma wordSum_flipBit_not_modEq (bytes : List UInt8) {i : ℕ} (hi : i < bytes.length)
    (k : Fin 8) : ¬ wordSum (flipBit bytes i k) ≡ wordSum bytes [MOD 65535] := by
  have hset := wordSum_set bytes hi (bytes.getD i 0 ^^^ UInt8.ofNat (2 ^ k.val))
  have hk := k.isLt
  have hshift : ∃ j < 16, weight i * 2 ^ k.val = 2 ^ j := by
    rw [weight]
    split_ifs
    · exact ⟨8 + k.val, by omega, (pow_add 2 8 k.val).symm⟩
    · exact ⟨k.val, by omega, one_mul _⟩
  obtain ⟨j, hj, hweight⟩ := hshift
  refine not_modEq_of_two_pow hj ?_
  rw [← hweight, flipBit]
  rcases xor_two_pow (bytes.getD i 0) k with hup | hdown
  · rw [hup, Nat.mul_add] at hset
    omega
  · rw [← hdown, Nat.mul_add] at hset
    omega

/-! ### Folding the carries -/

/-- A round of folding keeps the sum modulo `65535`. -/
lemma foldCarries_modEq (fuel sum : ℕ) : foldCarries fuel sum ≡ sum [MOD 65535] := by
  induction fuel generalizing sum with
  | zero => rfl
  | succ fuel ih =>
    rw [foldCarries]
    split_ifs with h
    · rfl
    · refine (ih _).trans ?_
      rw [Nat.ModEq]
      omega

lemma foldCarries_eq_zero_iff (fuel sum : ℕ) : foldCarries fuel sum = 0 ↔ sum = 0 := by
  induction fuel generalizing sum with
  | zero => rfl
  | succ fuel ih =>
    rw [foldCarries]
    split_ifs with h
    · rfl
    · rw [ih]
      omega

/-- Two rounds are enough for a 32-bit sum. -/
lemma foldCarries_lt (hfuel : 2 ≤ fuel) (hsum : sum < 2 ^ 32) :
    foldCarries fuel sum < 65536 := by
  obtain ⟨fuel, rfl⟩ := Nat.exists_eq_add_of_le hfuel
  have hstop : ∀ n s, s < 65536 → foldCarries n s = s := by
    intro n s hs
    cases n with
    | zero => rfl
    | succ n => rw [foldCarries, if_pos (by omega)]
  rw [Nat.add_comm, foldCarries]
  split_ifs with h
  · omega
  · rw [foldCarries]
    split_ifs with h'
    · omega
    · rw [hstop _ _ (by omega)]
      omega

/-! ### Folded sums and the exact ones -/

/-- The 16-bit number `r` stands for the exact sum `s`. -/
structure Represents (r s : ℕ) : Prop where
  lt : r < 65536
  modEq : r ≡ s [MOD 65535]
  zero_iff : r = 0 ↔ s = 0

/-- The 16-bit number that stands for a sum. -/
def folded (s : ℕ) : ℕ := if s = 0 then 0 else (s - 1) % 65535 + 1

lemma Represents.eq_folded (h : Represents r s) : r = folded s := by
  have hlt := h.lt
  have hzero := h.zero_iff
  have hmod : r % 65535 = s % 65535 := h.modEq
  rw [folded]
  split_ifs <;> omega

lemma Represents.zero : Represents 0 0 := ⟨by norm_num, rfl, Iff.rfl⟩

/-- Adding to a folded sum and folding again is adding to the exact one. -/
lemma Represents.add (h : Represents r s) (hfuel : 2 ≤ fuel) (hsum : r + t < 2 ^ 32) :
    Represents (foldCarries fuel (r + t)) (s + t) where
  lt := foldCarries_lt hfuel hsum
  modEq := (foldCarries_modEq _ _).trans (h.modEq.add_right t)
  zero_iff := by
    have := h.zero_iff
    rw [foldCarries_eq_zero_iff]
    omega

/-- A folded 32-bit sum stands for it. -/
lemma represents_foldCarries (hfuel : 2 ≤ fuel) (hsum : sum < 2 ^ 32) :
    Represents (foldCarries fuel sum) sum where
  lt := foldCarries_lt hfuel hsum
  modEq := foldCarries_modEq fuel sum
  zero_iff := foldCarries_eq_zero_iff fuel sum

/-- **Two numbers that stand for sums** are the same if the sums are congruent and are zero
together. -/
lemma Represents.eq_iff {r' : ℕ} (h : Represents r s) (h' : Represents r' t) :
    r = r' ↔ s ≡ t [MOD 65535] ∧ (s = 0 ↔ t = 0) := by
  have hlt := h.lt
  have hlt' := h'.lt
  have hzero := h.zero_iff
  have hzero' := h'.zero_iff
  constructor
  · rintro rfl
    exact ⟨h.modEq.symm.trans h'.modEq, hzero.symm.trans hzero'⟩
  · rintro ⟨hmod, hboth⟩
    have hrr : r ≡ r' [MOD 65535] := (h.modEq.trans hmod).trans h'.modEq.symm
    rw [Nat.ModEq] at hrr
    omega

/-- A number that stands for a sum stands for those that are congruent to it and are zero
with it. -/
lemma Represents.iff (h : Represents r s) :
    Represents r t ↔ s ≡ t [MOD 65535] ∧ (s = 0 ↔ t = 0) := by
  constructor
  · exact fun h' => (h.eq_iff h').mp rfl
  · rintro ⟨hmod, hboth⟩
    exact ⟨h.lt, h.modEq.trans hmod, h.zero_iff.trans hboth⟩

/-- A number that stands for a positive multiple of `65535` is `65535`. -/
lemma Represents.eq_max (h : Represents r s) (hpos : 0 < s) (hdvd : 65535 ∣ s) : r = 65535 := by
  have hr : 65535 ∣ r := (h.modEq.dvd_iff (dvd_refl _)).mpr hdvd
  have hne : r ≠ 0 := fun h0 => by
    have := h.zero_iff.mp h0
    omega
  have := h.lt
  omega

/-! ### Complemented sums -/

/-- The 16-bit number `c` is the complement of the sum `s`. -/
def Complements (c s : ℕ) : Prop := ∃ r, Represents r s ∧ c = 65535 - r

/-- A sum to which its complement is added, in either of its representations where that
is zero, complements to zero. -/
lemma Complements.verify (h : Complements c s) (hd : d ≡ c [MOD 65535]) (hpos : 0 < s + d)
    {c' : ℕ} (h' : Complements c' (s + d)) : c' = 0 := by
  obtain ⟨r, hr, rfl⟩ := h
  obtain ⟨r', hr', rfl⟩ := h'
  have hlt := hr.lt
  have hsum : s + d ≡ 0 [MOD 65535] :=
    calc s + d ≡ r + (65535 - r) [MOD 65535] := hr.modEq.symm.add hd
      _ = 65535 := by omega
      _ ≡ 0 [MOD 65535] := rfl
  rw [hr'.eq_max hpos (Nat.modEq_zero_iff_dvd.mp hsum)]

/-- Only a multiple of `65535` complements to zero. -/
lemma Complements.modEq_zero (h : Complements 0 s) : s ≡ 0 [MOD 65535] := by
  obtain ⟨r, hr, h0⟩ := h
  have hlt := hr.lt
  obtain rfl : r = 65535 := by omega
  exact hr.modEq.symm

/-- A sum and its complement are never both zero. -/
lemma Complements.add_pos (h : Complements c s) : 0 < s + c := by
  obtain ⟨r, hr, rfl⟩ := h
  have := hr.zero_iff
  omega

/-- A sum whose complement is zero is positive. -/
lemma Complements.pos (h : Complements 0 s) : 0 < s := by
  obtain ⟨r, hr, h0⟩ := h
  have hlt := hr.lt
  have hne : r ≠ 0 := by omega
  exact Nat.pos_of_ne_zero fun hs => hne (hr.zero_iff.mpr hs)

end OnesComplement
