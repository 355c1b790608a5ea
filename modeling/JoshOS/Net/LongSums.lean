import JoshOS.Net.Wire

/-!
The checksum of a buffer of any length.

`checksum_add` keeps a 32-bit sum and folds it at its end.  Every wrap of the sum loses a
carry, and a lost carry is one modulo `65535`, so the Internet checksum of a long buffer is
missed by the number of the wraps.

* `internet_checksum_iff`: exactly when the checksum is that of the exact sum, and when it
  does not depend on a split of the buffer (`long_buffer_checksum`).
* `internet_checksum_of_lt`: as long as the exact sum fits into 32 bits.
-/

open OnesComplement

namespace JoshOS.Net

variable {r : ℕ} {data : List UInt8}

/-! ### Folded sums modulo `2 ^ 32` -/

lemma represents_checksumAdd (hr : r < 2 ^ 32) (data : List UInt8) :
    Represents (checksumAdd r data) ((r + wordSum data) % 2 ^ 32) := by
  rw [checksumAdd, addWords_eq_mod hr]
  exact represents_foldCarries le_rfl (Nat.mod_lt _ (by norm_num))

lemma represents_checksumAdd_zero (data : List UInt8) :
    Represents (checksumAdd 0 data) (wordSum data % 2 ^ 32) := by
  have h := represents_checksumAdd (show 0 < 2 ^ 32 by norm_num) data
  rwa [Nat.zero_add] at h

/-- The end of a checksum complements the folded sum. -/
lemma toNat_not_checksumFinish (hr : r < 65536) : (~~~checksumFinish r).toNat = r := by
  have hfold : foldCarries foldRounds r = r := by
    rw [foldRounds, foldCarries, if_pos (by omega)]
  rw [UInt16.toNat_not, checksumFinish, hfold, UInt16.toNat_ofNat', UInt16.size]
  omega

lemma checksumFinish_inj {r' : ℕ} (hr : r < 65536) (hr' : r' < 65536) :
    checksumFinish r = checksumFinish r' ↔ r = r' := by
  constructor
  · intro h
    rw [← toNat_not_checksumFinish hr, ← toNat_not_checksumFinish hr', h]
  · rintro rfl
    rfl

/-- Each wrap of a 32-bit sum is one modulo `65535`. -/
lemma mod_modEq_iff (s : ℕ) : s % 2 ^ 32 ≡ s [MOD 65535] ↔ 65535 ∣ s / 2 ^ 32 := by
  rw [Nat.ModEq]
  omega

/-! ### Splits -/

/-- A part `p` of a sum is replaced by a smaller part congruent to it, and both sums are
taken modulo `2 ^ 32`: the second wraps once less often if its low half falls short. -/
lemma mod_agrees_iff {p q t : ℕ} (hp : p < 2 ^ 32) (hle : q ≤ p) (hmod : q ≡ p [MOD 65535]) :
    ((q + t) % 2 ^ 32 ≡ (p + t) % 2 ^ 32 [MOD 65535] ∧
        ((q + t) % 2 ^ 32 = 0 ↔ (p + t) % 2 ^ 32 = 0)) ↔
      p = q ∨ p < q + (p + t) % 2 ^ 32 := by
  obtain ⟨k, hk⟩ := (Nat.modEq_iff_dvd' hle).mp hmod
  have hwrap : (65535 * k ≤ (p + t) % 2 ^ 32 ∧
        (q + t) % 2 ^ 32 + 65535 * k = (p + t) % 2 ^ 32) ∨
      ((p + t) % 2 ^ 32 < 65535 * k ∧
        (q + t) % 2 ^ 32 + 65535 * k = (p + t) % 2 ^ 32 + 2 ^ 32) := by
    omega
  generalize (p + t) % 2 ^ 32 = x at hwrap ⊢
  generalize (q + t) % 2 ^ 32 = y at hwrap ⊢
  rw [Nat.ModEq]
  rcases hwrap with ⟨hkx, hyx⟩ | ⟨hkx, hyx⟩
  · have hsame : y % 65535 = x % 65535 := by omega
    rw [and_iff_right hsame]
    omega
  · have hother : y % 65535 ≠ x % 65535 := by omega
    refine iff_of_false (fun h => hother h.1) ?_
    omega

lemma wordSum_take_add_drop {n : ℕ} (hn : n ≤ data.length) (heven : n % 2 = 0) :
    wordSum (data.take n) + wordSum (data.drop n) = wordSum data := by
  have hlength : (data.take n).length % 2 = 0 := by rwa [List.length_take_of_le hn]
  rw [← wordSum_append hlength, List.take_append_drop]

/-- **Two parts of a buffer**, split at an even position, give the result of the whole
exactly if the first part is not folded, or the whole has wrapped to more than the folding
of the first part takes away. -/
lemma split_agrees_iff {n : ℕ} (hn : n ≤ data.length) (heven : n % 2 = 0) :
    checksumFinish (checksumAdd (checksumAdd 0 (data.take n)) (data.drop n)) =
        joshNetChecksum data ↔
      wordSum (data.take n) % 2 ^ 32 = folded (wordSum (data.take n) % 2 ^ 32) ∨
        wordSum (data.take n) % 2 ^ 32 <
          folded (wordSum (data.take n) % 2 ^ 32) + wordSum data % 2 ^ 32 := by
  have hfirst := represents_checksumAdd_zero (data.take n)
  rw [← hfirst.eq_folded]
  set p := wordSum (data.take n) % 2 ^ 32
  set q := checksumAdd 0 (data.take n)
  have hp : p < 2 ^ 32 := Nat.mod_lt _ (by norm_num)
  have hq : q < 2 ^ 32 := hfirst.lt.trans (by norm_num)
  have hle : q ≤ p := by
    have hlt := hfirst.lt
    have hzero := hfirst.zero_iff
    have hmod : q % 65535 = p % 65535 := hfirst.modEq
    omega
  have hwhole := represents_checksumAdd_zero data
  have hsplit := represents_checksumAdd hq (data.drop n)
  have hmod : wordSum data % 2 ^ 32 = (p + wordSum (data.drop n)) % 2 ^ 32 := by
    rw [← wordSum_take_add_drop hn heven, Nat.mod_add_mod]
  rw [hmod] at hwhole
  rw [joshNetChecksum, checksumFinish_inj hsplit.lt hwhole.lt, hsplit.eq_iff hwhole,
    mod_agrees_iff hp hle hfirst.modEq, hmod]

/-! ### The Internet checksum -/

/-- **When `josh_net_checksum` is the Internet checksum.**  For every buffer: the complement
of the result stands for the exact sum of the words exactly if the number of wraps of the
32-bit sum is a multiple of 65535 and no sum but zero has wrapped to zero; and for every
split at an even position, the parts one after the other give the result of the whole
exactly if the sum of the first part, as it is left by its wraps, is not changed by folding,
or is less than it is folded together with what the wraps leave of the whole sum. -/
theorem internet_checksum_iff (data : List UInt8) :
    (Represents (~~~joshNetChecksum data).toNat (wordSum data) ↔
      65535 ∣ wordSum data / 2 ^ 32 ∧ (wordSum data % 2 ^ 32 = 0 → wordSum data = 0)) ∧
    ∀ n ≤ data.length, n % 2 = 0 →
      (checksumFinish (checksumAdd (checksumAdd 0 (data.take n)) (data.drop n)) =
          joshNetChecksum data ↔
        wordSum (data.take n) % 2 ^ 32 = folded (wordSum (data.take n) % 2 ^ 32) ∨
          wordSum (data.take n) % 2 ^ 32 <
            folded (wordSum (data.take n) % 2 ^ 32) + wordSum data % 2 ^ 32) := by
  refine ⟨?_, fun n hn heven => split_agrees_iff hn heven⟩
  have hwhole := represents_checksumAdd_zero data
  have hzero : (wordSum data % 2 ^ 32 = 0 ↔ wordSum data = 0) ↔
      (wordSum data % 2 ^ 32 = 0 → wordSum data = 0) :=
    iff_iff_implies_and_implies.trans (and_iff_left fun h => by rw [h, Nat.zero_mod])
  rw [joshNetChecksum, toNat_not_checksumFinish hwhole.lt, hwhole.iff, mod_modEq_iff, hzero]

/-- Three bytes, split behind the first word. -/
theorem internet_checksum_iff_short :
    checksumFinish (checksumAdd (checksumAdd 0 [0x45, 0x00]) [0x7f]) =
      joshNetChecksum [0x45, 0x00, 0x7f] :=
  ((internet_checksum_iff [0x45, 0x00, 0x7f]).2 2 (by decide) (by decide)).mpr
    (Or.inl (by decide))

lemma wordSum_replicate_ones (n : ℕ) : wordSum (List.replicate (2 * n) 0xff) = 65535 * n := by
  induction n with
  | zero => rfl
  | succ n ih =>
    rw [Nat.mul_succ, List.replicate_succ, List.replicate_succ, wordSum_cons_cons, ih]
    have hbyte : (0xff : UInt8).toNat = 255 := rfl
    omega

/-- 131076 bytes of ones: the sum is a multiple of 65535, but the result is 1 instead of 0,
as the carry out of 32 bits is lost. -/
theorem long_buffer_checksum :
    let data : List UInt8 := List.replicate (2 * 65538) 0xff
    wordSum data = 65535 * 65538 ∧ joshNetChecksum data = 1 ∧
      ¬ Represents (~~~joshNetChecksum data).toNat (wordSum data) := by
  intro data
  have hsum : wordSum data = 65535 * 65538 := wordSum_replicate_ones 65538
  have hresult : joshNetChecksum data = 1 := by
    rw [joshNetChecksum, checksumAdd, addWords_eq_mod (by norm_num), hsum]
    decide
  refine ⟨hsum, hresult, fun h => ?_⟩
  have hmod := h.modEq
  rw [hsum, hresult] at hmod
  exact absurd hmod (by decide)

/-- **While the exact sum fits into 32 bits**, as that of any 131074 bytes does, the result
is the Internet checksum and does not depend on a split. -/
theorem internet_checksum_of_lt (hsum : wordSum data < 2 ^ 32) :
    Represents (~~~joshNetChecksum data).toNat (wordSum data) ∧
    ∀ n ≤ data.length, n % 2 = 0 →
      checksumFinish (checksumAdd (checksumAdd 0 (data.take n)) (data.drop n)) =
        joshNetChecksum data := by
  have hwhole := represents_checksumAdd_zero data
  rw [Nat.mod_eq_of_lt hsum] at hwhole
  refine ⟨?_, fun n hn heven => (split_agrees_iff hn heven).mpr ?_⟩
  · rw [joshNetChecksum, toNat_not_checksumFinish hwhole.lt]
    exact hwhole
  · have hle : wordSum (data.take n) ≤ wordSum data :=
      (Nat.le_add_right ..).trans_eq (wordSum_take_add_drop hn heven)
    rw [Nat.mod_eq_of_lt hsum, Nat.mod_eq_of_lt (hle.trans_lt hsum), folded]
    split_ifs <;> omega

end JoshOS.Net
