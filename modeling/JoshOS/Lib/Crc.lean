import JoshOS.Lib.Bytes

/-!
The cyclic redundancy check CRC-32, bit by bit and least significant bit first.

* `bitStep_xor`, `bitStep_injective`: a step is linear and loses nothing.
* `foldl_byteStep`: up to four bytes act as one word.
* `crc32_ne_of_burst`, `crc32_window_ne`: a change within four bytes in a row changes the CRC.
-/

namespace Crc

open List Function BitVec Bytes

/-- The generator polynomial, without its leading term, in reversed bit order. -/
def generator : BitVec 32 := 0xedb88320#32

/-- One bit: divide by `x` modulo the generator. -/
def bitStep (c : BitVec 32) : BitVec 32 :=
  if c.getLsbD 0 then (c >>> 1) ^^^ generator else c >>> 1

/-- One byte. -/
def byteStep (c : BitVec 32) (b : UInt8) : BitVec 32 :=
  bitStep^[8] (c ^^^ b.toBitVec.setWidth 32)

/-- The CRC-32 of a string of bytes. -/
def crc32 (bytes : List UInt8) : BitVec 32 := ~~~ bytes.foldl byteStep (~~~ 0#32)

/-- The bit step with a mask in the place of a branch. -/
lemma bitStep_eq_mask (c : BitVec 32) :
    bitStep c = (c >>> 1) ^^^ (generator &&& -(c &&& 1#32)) := by
  rw [bitStep, and_one_eq_setWidth_ofBool_getLsbD]
  cases c.getLsbD 0 with
  | true =>
    have hmask : generator &&& -(setWidth 32 (ofBool true)) = generator := by decide
    rw [if_pos rfl, hmask]
  | false =>
    have hmask : generator &&& -(setWidth 32 (ofBool false)) = 0#32 := by decide
    rw [if_neg Bool.false_ne_true, hmask, xor_zero]

/-! ### One bit -/

/-- **A step is linear.** -/
lemma bitStep_xor (a b : BitVec 32) : bitStep (a ^^^ b) = bitStep a ^^^ bitStep b := by
  have hcancel : ∀ x y g : BitVec 32, x ^^^ y = (x ^^^ g) ^^^ (y ^^^ g) := by
    intro x y g
    rw [BitVec.xor_comm y g, BitVec.xor_assoc, ← BitVec.xor_assoc g g y, BitVec.xor_self,
      zero_xor]
  simp only [bitStep, getLsbD_xor, ushiftRight_xor_distrib]
  cases a.getLsbD 0 with
  | false =>
    cases b.getLsbD 0 with
    | false => rfl
    | true => exact BitVec.xor_assoc ..
  | true =>
    cases b.getLsbD 0 with
    | false =>
      change (a >>> 1) ^^^ (b >>> 1) ^^^ generator = (a >>> 1) ^^^ generator ^^^ (b >>> 1)
      rw [BitVec.xor_assoc, BitVec.xor_comm (b >>> 1), ← BitVec.xor_assoc]
    | true => exact hcancel ..

/-- Only zero is taken to zero: the generator has its highest bit set, and a shift clears it. -/
lemma bitStep_eq_zero {c : BitVec 32} (h : bitStep c = 0#32) : c = 0#32 := by
  rw [bitStep] at h
  cases hlow : c.getLsbD 0 with
  | true =>
    rw [hlow, if_pos rfl, xor_eq_zero_iff] at h
    have htop := congrArg (getLsbD · 31) h
    simp only [getLsbD_ushiftRight] at htop
    rw [getLsbD_of_ge c (1 + 31) (by decide)] at htop
    exact absurd htop (by decide)
  | false =>
    rw [hlow, if_neg Bool.false_ne_true] at h
    refine eq_of_getLsbD_eq fun i _ => ?_
    cases i with
    | zero => rw [hlow, getLsbD_zero]
    | succ i =>
      have hbit := congrArg (getLsbD · i) h
      simp only [getLsbD_ushiftRight, getLsbD_zero] at hbit
      rw [Nat.add_comm, hbit, getLsbD_zero]

/-- **A step loses nothing.** -/
lemma bitStep_injective : Function.Injective bitStep := by
  intro a b h
  rw [← xor_eq_zero_iff]
  refine bitStep_eq_zero ?_
  rw [bitStep_xor, h, BitVec.xor_self]

lemma iterate_bitStep_xor (n : ℕ) (a b : BitVec 32) :
    bitStep^[n] (a ^^^ b) = bitStep^[n] a ^^^ bitStep^[n] b := by
  induction n generalizing a b with
  | zero => rfl
  | succ n ih => rw [iterate_succ_apply, bitStep_xor, ih]; rfl

/-- A step takes back a shift that has lost nothing. -/
lemma bitStep_shiftLeft {y : BitVec 32} (h : y.getLsbD 31 = false) : bitStep (y <<< 1) = y := by
  have hlow : (y <<< 1).getLsbD 0 = false := by simp
  rw [bitStep, hlow, if_neg Bool.false_ne_true]
  refine eq_of_getLsbD_eq fun i hi => ?_
  rw [getLsbD_ushiftRight, getLsbD_shiftLeft]
  by_cases htop : i = 31
  · rw [htop, h]
    rfl
  · simp [show 1 + i < 32 by omega]

lemma iterate_bitStep_shiftLeft {k : ℕ} {y : BitVec 32}
    (h : ∀ i, 32 ≤ i + k → y.getLsbD i = false) : bitStep^[k] (y <<< k) = y := by
  induction k with
  | zero => rw [shiftLeft_zero]; rfl
  | succ k ih =>
    have htop : (y <<< k).getLsbD 31 = false := by
      rw [getLsbD_shiftLeft]
      by_cases hk : 31 < k
      · simp [hk]
      · rw [h (31 - k) (by omega), Bool.and_false]
    rw [iterate_succ_apply, shiftLeft_add, bitStep_shiftLeft htop]
    exact ih fun i hi => h i (by omega)

/-! ### Bytes -/

/-- Bytes as one word, the first in its lowest bits. -/
def word : List UInt8 → BitVec 32
  | [] => 0#32
  | b :: bs => b.toBitVec.setWidth 32 ^^^ (word bs <<< 8)

lemma getLsbD_word {bs : List UInt8} {i : ℕ} (h : 8 * bs.length ≤ i) :
    (word bs).getLsbD i = false := by
  induction bs generalizing i with
  | nil => rw [word, getLsbD_zero]
  | cons b bs ih =>
    rw [length_cons] at h
    rw [word, getLsbD_xor, getLsbD_setWidth, getLsbD_of_ge _ _ (by omega),
      getLsbD_shiftLeft, ih (by omega), Bool.and_false, Bool.and_false]
    rfl

/-- A word of up to three bytes comes back from behind another byte. -/
lemma iterate_bitStep_word {bs : List UInt8} (h : bs.length ≤ 3) :
    bitStep^[8] (word bs <<< 8) = word bs :=
  iterate_bitStep_shiftLeft fun _ hi => getLsbD_word (by omega)

/-- **Up to four bytes act as one word.** -/
lemma foldl_byteStep {bs : List UInt8} (h : bs.length ≤ 4) (c : BitVec 32) :
    bs.foldl byteStep c = bitStep^[8 * bs.length] (c ^^^ word bs) := by
  induction bs generalizing c with
  | nil => rw [word, xor_zero]; rfl
  | cons b bs ih =>
    rw [length_cons] at h
    have hback := iterate_bitStep_word (show bs.length ≤ 3 by omega)
    calc (b :: bs).foldl byteStep c
        = bitStep^[8 * bs.length] (byteStep c b ^^^ word bs) := ih (by omega) _
      _ = bitStep^[8 * bs.length] (bitStep^[8] (c ^^^ b.toBitVec.setWidth 32) ^^^
            bitStep^[8] (word bs <<< 8)) := by rw [hback, byteStep]
      _ = bitStep^[8 * bs.length] (bitStep^[8] (c ^^^ word (b :: bs))) := by
            rw [← iterate_bitStep_xor, word, xor_assoc]
      _ = bitStep^[8 * (b :: bs).length] (c ^^^ word (b :: bs)) := by
            rw [length_cons, Nat.mul_succ, iterate_add_apply]

/-- The bytes of a word. -/
lemma word_injective {bs bs' : List UInt8} (hlen : bs.length = bs'.length) (h : bs.length ≤ 4)
    (heq : word bs = word bs') : bs = bs' := by
  induction bs generalizing bs' with
  | nil => exact (length_eq_zero_iff.mp hlen.symm).symm
  | cons b bs ih =>
    cases bs' with
    | nil => cases hlen
    | cons b' bs' =>
      rw [length_cons] at h
      rw [length_cons, length_cons, Nat.add_right_cancel_iff] at hlen
      have hbyte : b = b' := by
        refine UInt8.toBitVec_inj.mp (eq_of_getLsbD_eq fun i hi => ?_)
        have hbit := congrArg (getLsbD · i) heq
        simpa [word, getLsbD_shiftLeft, hi, show i < 32 by omega] using hbit
      have hrest : word bs <<< 8 = word bs' <<< 8 := by
        rw [word, word, hbyte] at heq
        exact (xor_right_inj _).mp heq
      have hback := congrArg (bitStep^[8] ·) hrest
      simp only [iterate_bitStep_word (show bs.length ≤ 3 by omega),
        iterate_bitStep_word (show bs'.length ≤ 3 by omega)] at hback
      rw [hbyte, ih hlen (by omega) hback]

lemma byteStep_injective (b : UInt8) : Function.Injective fun c => byteStep c b := by
  intro c c' h
  exact (xor_left_inj _).mp (bitStep_injective.iterate 8 h)

lemma foldl_byteStep_injective (bs : List UInt8) :
    Function.Injective fun c => bs.foldl byteStep c := by
  induction bs with
  | nil => exact injective_id
  | cons b bs ih => exact ih.comp (byteStep_injective b)

/-- **A burst is seen.**  A change within four bytes in a row changes the CRC. -/
theorem crc32_ne_of_burst {before bs bs' after : List UInt8} (hlen : bs.length = bs'.length)
    (h : bs.length ≤ 4) (hne : bs ≠ bs') :
    crc32 (before ++ bs ++ after) ≠ crc32 (before ++ bs' ++ after) := by
  intro heq
  have hfold := BitVec.not_inj.mp heq
  rw [foldl_append, foldl_append, foldl_append, foldl_append] at hfold
  have hburst := foldl_byteStep_injective after hfold
  have h' : bs'.length ≤ 4 := hlen.symm.trans_le h
  simp only [foldl_byteStep h, foldl_byteStep h', ← hlen] at hburst
  have hword := (xor_right_inj _).mp (bitStep_injective.iterate _ hburst)
  exact hne (word_injective hlen h hword)

/-- A burst in memory is seen by the CRC of every window around it. -/
theorem crc32_window_ne {m m' : ℕ → UInt8} {a n start : ℕ} (hle : a ≤ start)
    (hin : start + 4 ≤ a + n) (hsame : ∀ i, i < start ∨ start + 4 ≤ i → m' i = m i)
    (hdiffer : ∃ i, m' i ≠ m i) : crc32 (window m' a n) ≠ crc32 (window m a n) := by
  have hsplit : ∀ m : ℕ → UInt8, window m a n = window m a (start - a) ++ window m start 4 ++
      window m (start + 4) (a + n - (start + 4)) := by
    intro m
    have hn : n = start - a + 4 + (a + n - (start + 4)) := by omega
    have hstart : a + (start - a) = start := by omega
    have hend : a + (start - a + 4) = start + 4 := by omega
    conv_lhs => rw [hn, window_add, window_add, hstart, hend]
  have hbefore : window m' a (start - a) = window m a (start - a) :=
    window_congr fun i hi => hsame _ (.inl (by omega))
  have hafter : window m' (start + 4) (a + n - (start + 4)) =
      window m (start + 4) (a + n - (start + 4)) :=
    window_congr fun i hi => hsame _ (.inr (by omega))
  rw [hsplit m', hsplit m, hbefore, hafter]
  refine crc32_ne_of_burst (by simp) (by simp) fun hburst => ?_
  obtain ⟨i, hi⟩ := hdiffer
  have hrange : start ≤ i ∧ i < start + 4 := by
    by_contra hout
    exact hi (hsame i (by omega))
  refine hi ?_
  have hbyte := map_inj_left.mp hburst (i - start) (mem_range.mpr (by omega))
  rwa [Nat.add_sub_cancel' hrange.1] at hbyte

end Crc
