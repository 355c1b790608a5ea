import Mathlib

/-!
Circular buffers with wrapping indices.

A ring of `N` slots is shared by a producer and a consumer that each keep an
index below `N`.  The proofs follow two counters that never wrap, the number
`m` of items taken out and the number `n` of items put in; an index is
its counter modulo `N`, and the item with number `i` lives in slot `i % N`.

* `slot_ne`: counters less than `N` apart have different slots.
* `distance_eq`: below `N` items, the indices determine their number.
* `Holds`: the slots from `m` on describe the items of a queue, in order.
* `Holds.tail`, `Holds.concat`, `Holds.of_ne`: taking an item out, putting one
  in, and changing a slot outside the queue.
-/

namespace Ring

variable {α : Type*} {N m n i : ℕ} {P Q : ℕ → α → Prop} {a : α} {q : List α}

/-! ### Indices -/

/-- Counters less than a lap apart have different slots. -/
lemma slot_ne (h : m < n) (hlap : n < m + N) : m % N ≠ n % N := by
  intro heq
  have hdvd : N ∣ n - m := (Nat.modEq_iff_dvd' h.le).1 heq
  exact absurd (Nat.le_of_dvd (by omega) hdvd) (by omega)

/-- Below a full lap, the indices determine how far the counters are apart. -/
lemma distance_eq (h : m ≤ n) (hlap : n < m + N) :
    (n % N + N - m % N) % N = n - m := by
  have hlt : m % N < N := Nat.mod_lt m (by omega)
  have hmod : n % N + N - m % N ≡ n - m [MOD N] := by
    refine Nat.ModEq.add_right_cancel' (m % N) ?_
    calc n % N + N - m % N + m % N
        = n % N + N := by omega
      _ ≡ n [MOD N] := by simp [Nat.ModEq]
      _ = n - m + m := by omega
      _ ≡ n - m + m % N [MOD N] := (Nat.mod_modEq m N).symm.add_left _
  rw [hmod, Nat.mod_eq_of_lt (by omega)]

/-- Equal indices mean equal counters, below a full lap. -/
lemma index_eq_iff (h : m ≤ n) (hlap : n < m + N) :
    m % N = n % N ↔ m = n := by
  refine ⟨fun heq => ?_, fun heq => by rw [heq]⟩
  by_contra hne
  exact slot_ne (by omega) hlap heq

/-! ### The queue in the slots -/

/-- The slots from counter `m` on describe the items of `q`, in order. -/
def Holds (N : ℕ) (P : ℕ → α → Prop) (m : ℕ) (q : List α) : Prop :=
  ∀ j (hj : j < q.length), P ((m + j) % N) q[j]

lemma holds_nil : Holds N P m [] :=
  fun _ hj => absurd hj (Nat.not_lt_zero _)

/-- An index below `N` serves as well as its counter. -/
lemma holds_mod_iff : Holds N P (m % N) q ↔ Holds N P m q := by
  simp only [Holds, Nat.mod_add_mod]

/-- The oldest item is in the slot of `m`. -/
lemma Holds.head (h : Holds N P m (a :: q)) : P (m % N) a :=
  h 0 (Nat.succ_pos _)

/-- Taking the oldest item out. -/
lemma Holds.tail (h : Holds N P m (a :: q)) : Holds N P (m + 1) q := by
  intro j hj
  have hslot := h (j + 1) (by simpa using hj)
  rw [show m + (j + 1) = m + 1 + j by omega] at hslot
  exact hslot

/-- Putting an item in at the end. -/
lemma Holds.concat (h : Holds N P m q) (ha : P ((m + q.length) % N) a) :
    Holds N P m (q ++ [a]) := by
  intro j hj
  by_cases hlt : j < q.length
  · rw [List.getElem_append_left hlt]
    exact h j hlt
  · obtain rfl : j = q.length := by
      rw [List.length_append, List.length_singleton] at hj
      omega
    simpa using ha

/-- What a change keeps outside one slot, it keeps of a queue that ends before
that slot's counter. -/
lemma Holds.of_ne (h : Holds N P m q) (hi : m + q.length ≤ i) (hlap : i < m + N)
    (hne : ∀ k b, k ≠ i % N → P k b → Q k b) : Holds N Q m q :=
  fun j hj => hne _ _ (slot_ne (by omega) (by omega)) (h j hj)

end Ring
