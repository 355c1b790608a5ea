import Mathlib

/-!
Registers of a device, whose bits do not all react to a write in the same way.

A bit takes the written value, or is cleared if a one is written to it, or stays as it is.
A part of such a register is changed by reading it, replacing the part and writing the whole
back, which is harmless to the rest only if no bit of the rest is cleared by its own value.

* `getElem_write`: a write, bit by bit.
* `write_keeps_iff`: when the bits that are written back as they were keep their values.
* `write_sets`: ones in writable bits are kept.
-/

namespace Registers

/-- A register with the bits that take the written value and those that a one clears. -/
structure Register (n : ℕ) where
  value : BitVec n
  writable : BitVec n
  clearing : BitVec n
  apart : writable &&& clearing = 0

variable {n : ℕ}

/-- The register after a write of `v`. -/
def Register.write (r : Register n) (v : BitVec n) : Register n :=
  { r with value := (v &&& r.writable) ||| (r.value &&& ~~~r.writable &&& ~~~(r.clearing &&& v)) }

/-- **A write**, bit by bit. -/
lemma Register.getElem_write (r : Register n) (v : BitVec n) {i : ℕ} (hi : i < n) :
    (r.write v).value[i] =
      if r.writable[i] then v[i] else r.value[i] && !(r.clearing[i] && v[i]) := by
  simp only [write, BitVec.getElem_or, BitVec.getElem_and, BitVec.getElem_not]
  cases r.writable[i] with
  | true | false => simp

lemma Register.apart_getElem (r : Register n) {i : ℕ} (hi : i < n) (h : r.clearing[i] = true) :
    r.writable[i] = false := by
  have hbit := BitVec.eq_of_getElem_eq_iff.mp r.apart i hi
  simpa [h] using hbit

/-- **Bits that are written back** as they were keep their values exactly if none of them is
a one that a one clears. -/
theorem Register.write_keeps_iff (r : Register n) {v mask : BitVec n}
    (hback : v &&& mask = r.value &&& mask) :
    (r.write v).value &&& mask = r.value &&& mask ↔ r.value &&& r.clearing &&& mask = 0 := by
  rw [BitVec.eq_of_getElem_eq_iff, BitVec.eq_of_getElem_eq_iff]
  refine forall_congr' fun i => forall_congr' fun hi => ?_
  have hbit := BitVec.eq_of_getElem_eq_iff.mp hback i hi
  have hapart := r.apart_getElem hi
  simp only [BitVec.getElem_and, r.getElem_write] at hbit ⊢
  cases hmask : mask[i] with
  | false => simp
  | true =>
    rw [hmask, Bool.and_true, Bool.and_true] at hbit
    cases hclear : r.clearing[i] with
    | false => simp [hbit]
    | true => simp [hbit, hapart hclear]

/-- Ones written to writable bits are there afterwards. -/
lemma Register.write_sets (r : Register n) {v bits : BitVec n}
    (hwritable : r.writable &&& bits = bits) (hones : v &&& bits = bits) :
    (r.write v).value &&& bits = bits := by
  ext i hi
  have hwbit := BitVec.eq_of_getElem_eq_iff.mp hwritable i hi
  have hvbit := BitVec.eq_of_getElem_eq_iff.mp hones i hi
  simp only [BitVec.getElem_and, r.getElem_write] at hwbit hvbit ⊢
  cases hbit : bits[i] with
  | false => simp
  | true =>
    rw [hbit, Bool.and_true] at hwbit hvbit
    simp [hwbit, hvbit]

end Registers
