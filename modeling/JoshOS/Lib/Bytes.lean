import Mathlib

/-!
Strings of bytes as formats have them.

* `ofLE`, `toLE`: little-endian numbers; `ofLE_toLE` reads back what was written.
* `window`: the string at an address; `window_of_append` finds a part of it.
* `SelfDelimiting`: words that say where they end.  `prefix_of_flatten_prefix`: cutting a
  string into such words from the left can only go one way.
-/

namespace Bytes

open List

/-! ### Little-endian numbers -/

/-- The number whose little-endian digits are the bytes. -/
def ofLE : List UInt8 → ℕ
  | [] => 0
  | b :: bs => b.toNat + 256 * ofLE bs

/-- The low `n` bytes of a number, least significant first. -/
def toLE : ℕ → ℕ → List UInt8
  | 0, _ => []
  | n + 1, v => UInt8.ofNat v :: toLE n (v / 256)

@[simp] lemma length_toLE (n v : ℕ) : (toLE n v).length = n := by
  induction n generalizing v with
  | zero => rfl
  | succ n ih => rw [toLE, length_cons, ih]

/-- A number is read back from the bytes written. -/
lemma ofLE_toLE {n v : ℕ} (h : v < 256 ^ n) : ofLE (toLE n v) = v := by
  induction n generalizing v with
  | zero =>
    rw [pow_zero] at h
    rw [toLE, ofLE, Nat.lt_one_iff.mp h]
  | succ n ih =>
    have hdiv : v / 256 < 256 ^ n := by
      rw [Nat.div_lt_iff_lt_mul (by norm_num), ← pow_succ]
      exact h
    have hbyte : (UInt8.ofNat v).toNat = v % 256 := UInt8.toNat_ofNat'
    rw [toLE, ofLE, ih hdiv, hbyte, Nat.mod_add_div]

/-! ### Strings in a memory -/

/-- The `n` bytes from `a` on. -/
def window (m : ℕ → UInt8) (a n : ℕ) : List UInt8 := (List.range n).map fun i => m (a + i)

variable {m m' : ℕ → UInt8} {a n : ℕ}

@[simp] lemma length_window (m : ℕ → UInt8) (a n : ℕ) : (window m a n).length = n := by
  rw [window, length_map, length_range]

lemma window_congr {b : ℕ} (h : ∀ i < n, m (a + i) = m' (b + i)) : window m a n = window m' b n :=
  map_congr_left fun i hi => h i (mem_range.mp hi)

lemma window_add (m : ℕ → UInt8) (a i k : ℕ) :
    window m a (i + k) = window m a i ++ window m (a + i) k := by
  rw [window, range_add, map_append, map_map]
  refine congrArg (window m a i ++ ·) (map_congr_left fun j _ => ?_)
  rw [Function.comp_apply, Nat.add_assoc]

/-- A part of a string in the memory, where it is in the string. -/
lemma window_of_append {before part after : List UInt8}
    (h : window m a n = before ++ part ++ after) :
    window m (a + before.length) part.length = part := by
  have hn : n = before.length + part.length + after.length := by
    rw [← length_window m a n, h, length_append, length_append]
  rw [hn, window_add, window_add] at h
  have hsplit := (append_inj h (by simp)).1
  exact (append_inj hsplit (by simp)).2

/-- A part of a string of parts, where the lengths of the parts before put it. -/
lemma window_part {parts : List (List UInt8)} {part : List UInt8} {i k w : ℕ}
    (h : window m a n = parts.flatten) (hpart : parts[i]? = some part)
    (hk : (parts.take i).flatten.length = k) (hw : part.length = w) :
    window m (a + k) w = part := by
  obtain ⟨hi, rfl⟩ := List.getElem?_eq_some_iff.mp hpart
  have hsplit : parts.flatten =
      (parts.take i).flatten ++ parts[i] ++ (parts.drop (i + 1)).flatten := by
    rw [append_assoc, ← flatten_cons, ← drop_eq_getElem_cons hi,
      ← flatten_append, take_append_drop]
  subst hk hw
  exact window_of_append (h.trans hsplit)

/-- Parts of one length. -/
lemma length_flatten_of_forall {parts : List (List UInt8)} {k : ℕ}
    (h : ∀ part ∈ parts, part.length = k) : parts.flatten.length = parts.length * k := by
  induction parts with
  | nil => rw [flatten_nil, length_nil, length_nil, Nat.zero_mul]
  | cons part parts ih =>
    rw [flatten_cons, length_append, h part mem_cons_self,
      ih fun q hq => h q (mem_cons_of_mem part hq), length_cons, Nat.succ_mul,
      Nat.add_comm]

/-- The memory with a string written at `a`. -/
def put (m : ℕ → UInt8) (a : ℕ) (bytes : List UInt8) : ℕ → UInt8 :=
  fun i => if a ≤ i ∧ i < a + bytes.length then bytes.getD (i - a) 0 else m i

lemma window_put (m : ℕ → UInt8) (a : ℕ) (bytes : List UInt8) :
    window (put m a bytes) a bytes.length = bytes := by
  refine ext_getElem (length_window ..) fun i _ hi => ?_
  simp only [window, getElem_map, getElem_range]
  rw [put, if_pos (by omega), Nat.add_sub_cancel_left, getD_eq_getElem _ _ hi]

lemma put_of_lt {bytes : List UInt8} {i : ℕ} (h : i < a) : put m a bytes i = m i :=
  if_neg (by omega)

/-- A string written behind the window is not seen. -/
lemma window_put_of_le {b : ℕ} {bytes : List UInt8} (h : a + n ≤ b) :
    window (put m b bytes) a n = window m a n :=
  window_congr fun _ hi => put_of_lt (by omega)

/-! ### Words that say where they end -/

variable {β : Type*} {W : List β → Prop}

/-- No word goes on where another has ended. -/
def SelfDelimiting (W : List β → Prop) : Prop :=
  ∀ {e e' x y : List β}, W e → W e' → e ++ x = e' ++ y → e = e'

/-- **Unique cutting.**  Words that make up the beginning of a string of words are the
first of its words. -/
lemma prefix_of_flatten_prefix (hW : SelfDelimiting W) (hnil : ¬ W []) {ds es : List (List β)}
    (hds : ∀ d ∈ ds, W d) (hes : ∀ e ∈ es, W e) (h : ds.flatten <+: es.flatten) : ds <+: es := by
  induction ds generalizing es with
  | nil => exact nil_prefix
  | cons d ds ih =>
    obtain ⟨x, hx⟩ := h
    rw [flatten_cons, append_assoc] at hx
    have hd := hds d mem_cons_self
    cases es with
    | nil =>
      rw [flatten_nil, append_eq_nil_iff] at hx
      exact absurd (hx.1 ▸ hd) hnil
    | cons e es =>
      rw [flatten_cons] at hx
      obtain rfl := hW hd (hes e mem_cons_self) hx
      rw [prefix_cons_inj]
      exact ih (fun d' hd' => hds d' (mem_cons_of_mem d hd'))
        (fun e' he' => hes e' (mem_cons_of_mem d he')) ⟨x, append_cancel_left hx⟩

end Bytes
