import Mathlib

/-!
Keys in the order of their last use, and slots that hold the most recent of them.

* `touch`: the key moves to the front of the list of keys, most recent first.
* `Tracks`: slots with stamps hold the first keys of such a list.
* `Tracks.refresh`, `Tracks.replace`: a held key is stamped anew; another key takes a free
  slot or, when there is none, the slot with the least stamp.
-/

namespace Recency

open List Function

variable {κ : Type*} [DecidableEq κ] {n : ℕ} {k : κ} {l : List κ}

/-! ### Lists of keys -/

/-- The key is used: it moves to the front. -/
def touch (k : κ) (l : List κ) : List κ := k :: l.erase k

lemma nodup_touch (h : l.Nodup) : (touch k l).Nodup :=
  nodup_cons.mpr ⟨fun hmem => (h.mem_erase_iff.mp hmem).1 rfl, h.erase k⟩

/-- A key that is not among the first is not missed there. -/
lemma take_erase_of_notMem (h : k ∉ l.take n) : (l.erase k).take n = l.take n := by
  induction l generalizing n with
  | nil => rfl
  | cons x l ih =>
    cases n with
    | zero => rfl
    | succ n =>
      rw [take_succ_cons, mem_cons, not_or] at h
      rw [erase_cons_tail (by simpa using Ne.symm h.1), take_succ_cons,
        take_succ_cons, ih h.2]

/-- Without a key that is among the first, the key after them moves up. -/
lemma take_erase_of_mem (h : k ∈ l.take (n + 1)) :
    (l.erase k).take n = (l.take (n + 1)).erase k := by
  induction l generalizing n with
  | nil => simp at h
  | cons x l ih =>
    by_cases hx : x = k
    · rw [hx, take_succ_cons, erase_cons_head, erase_cons_head]
    · have hne : ¬ (x == k) = true := by simpa using hx
      rw [take_succ_cons, mem_cons] at h
      have hmem : k ∈ l.take n := h.resolve_left (Ne.symm hx)
      cases n with
      | zero => simp at hmem
      | succ n =>
        rw [take_succ_cons, erase_cons_tail hne, erase_cons_tail hne,
          take_succ_cons, ih hmem]

/-- Using a key that is among the first keeps the others. -/
lemma take_touch_of_mem (h : k ∈ l.take (n + 1)) :
    (touch k l).take (n + 1) = k :: (l.take (n + 1)).erase k := by
  rw [touch, take_succ_cons, take_erase_of_mem h]

/-- Using a key that is not among the first pushes the last of them out. -/
lemma take_touch_of_notMem (h : k ∉ l.take (n + 1)) :
    (touch k l).take (n + 1) = k :: l.take n := by
  have hn : k ∉ l.take n := fun hmem => h (take_subset_take_left l (Nat.le_succ n) hmem)
  rw [touch, take_succ_cons, take_erase_of_notMem hn]

/-! ### Slots -/

/-- The slots hold the first of the `recent` keys, each with a stamp; in the order of the
list, from the most recent on, the stamps fall. -/
structure Tracks (slots : Fin (n + 1) → Option (κ × ℕ)) (clock : ℕ) (recent : List κ)
    (order : List (Fin (n + 1))) : Prop where
  nodup : recent.Nodup
  order_nodup : order.Nodup
  mem_order : ∀ i, i ∈ order ↔ slots i ≠ none
  keys : order.map (fun i => (slots i).map Prod.fst) = (recent.take (n + 1)).map some
  sorted : order.Pairwise fun i j => ∀ a ∈ slots i, ∀ b ∈ slots j, b.2 < a.2
  le_clock : ∀ i, ∀ a ∈ slots i, a.2 ≤ clock

namespace Tracks

variable {slots : Fin (n + 1) → Option (κ × ℕ)} {clock : ℕ} {recent l : List κ}
  {order rest : List (Fin (n + 1))} {i j : Fin (n + 1)} {a : κ × ℕ}

omit [DecidableEq κ] in
/-- Nothing is held, and nothing has been used. -/
lemma empty (h : ∀ i, slots i = none) : Tracks slots clock [] [] where
  nodup := nodup_nil
  order_nodup := nodup_nil
  mem_order i := by simp [h i]
  keys := rfl
  sorted := List.Pairwise.nil
  le_clock i a ha := by simp [h i] at ha

omit [DecidableEq κ] in
/-- The keys held are the most recent ones. -/
lemma held_iff (h : Tracks slots clock recent order) :
    (∃ i, (slots i).map Prod.fst = some k) ↔ k ∈ recent.take (n + 1) := by
  have hkeys : some k ∈ order.map (fun i => (slots i).map Prod.fst) ↔ k ∈ recent.take (n + 1) := by
    rw [h.keys, mem_map_of_injective (Option.some_injective κ)]
  rw [← hkeys, mem_map]
  refine ⟨fun ⟨i, hi⟩ => ⟨i, (h.mem_order i).mpr fun hnone => ?_, hi⟩, fun ⟨i, _, hi⟩ => ⟨i, hi⟩⟩
  simp [hnone] at hi

omit [DecidableEq κ] in
/-- No key is held twice. -/
lemma unique (h : Tracks slots clock recent order) (hi : (slots i).map Prod.fst = some k)
    (hj : (slots j).map Prod.fst = some k) : i = j := by
  have hnodup : (order.map fun i => (slots i).map Prod.fst).Nodup := by
    rw [h.keys]
    exact List.Nodup.map (Option.some_injective κ) h.nodup.take
  refine inj_on_of_nodup_map hnodup ((h.mem_order i).mpr ?_) ((h.mem_order j).mpr ?_)
    (hi.trans hj.symm)
  · rintro hnone
    simp [hnone] at hi
  · rintro hnone
    simp [hnone] at hj

omit [DecidableEq κ] in
/-- As many slots are in use as there are recent keys, up to their number. -/
lemma length_order (h : Tracks slots clock recent order) :
    order.length = min (n + 1) recent.length := by
  have hlen := congrArg length h.keys
  rwa [length_map, length_map, length_take] at hlen

omit [DecidableEq κ] in
lemma card_held (h : Tracks slots clock recent order) :
    (Finset.univ.filter fun i => (slots i).isSome = true).card = min (n + 1) recent.length := by
  have horder : (Finset.univ.filter fun i => (slots i).isSome = true) = order.toFinset := by
    ext i
    rw [Finset.mem_filter, mem_toFinset, h.mem_order, Option.isSome_iff_ne_none]
    exact and_iff_right (Finset.mem_univ i)
  rw [horder, toFinset_card_of_nodup h.order_nodup, h.length_order]

/-- A key is put in slot `i` with the next stamp, before the `rest`. -/
lemma stamp (h : Tracks slots clock recent order) (hsub : rest.Sublist order) (hi : i ∉ rest)
    (hrest : ∀ j, j ≠ i → j ∈ order → j ∈ rest)
    (hkeys : rest.map (fun i => (slots i).map Prod.fst) = l.map some)
    (htake : (touch k recent).take (n + 1) = k :: l) :
    Tracks (update slots i (some (k, clock + 1))) (clock + 1) (touch k recent)
      (i :: rest) := by
  have hother : ∀ j ∈ rest, update slots i (some (k, clock + 1)) j = slots j := by
    intro j hj
    exact update_of_ne (ne_of_mem_of_not_mem hj hi) _ _
  refine ⟨nodup_touch h.nodup, nodup_cons.mpr ⟨hi, h.order_nodup.sublist hsub⟩, fun j => ?_,
    ?_, pairwise_cons.mpr ⟨fun j hj a ha b hb => ?_, ?_⟩, fun j a ha => ?_⟩
  · by_cases hj : j = i
    · simp [hj]
    · rw [update_of_ne hj, mem_cons, ← h.mem_order j]
      exact ⟨fun hmem => hsub.subset (hmem.resolve_left hj), fun hmem => .inr (hrest j hj hmem)⟩
  · rw [map_cons, update_self, htake, map_cons, ← hkeys]
    exact congrArg _ (map_congr_left fun j hj => by rw [hother j hj])
  · rw [update_self, Option.mem_some_iff] at ha
    rw [hother j hj] at hb
    have hle := h.le_clock j b hb
    rw [← ha]
    exact Nat.lt_succ_of_le hle
  · refine (h.sorted.sublist hsub).imp_of_mem fun {j j'} hj hj' hlt => ?_
    rw [hother j hj, hother j' hj']
    exact hlt
  · by_cases hj : j = i
    · rw [hj, update_self, Option.mem_some_iff] at ha
      rw [← ha]
    · rw [update_of_ne hj] at ha
      exact (h.le_clock j a ha).trans (Nat.le_succ clock)

/-- **A held key is used.** -/
lemma refresh (h : Tracks slots clock recent order) (hi : (slots i).map Prod.fst = some k) :
    ∃ order', Tracks (update slots i (some (k, clock + 1))) (clock + 1) (touch k recent)
      order' := by
  have hmem : i ∈ order := (h.mem_order i).mpr fun hnone => by simp [hnone] at hi
  obtain ⟨before, after, rfl⟩ := append_of_mem hmem
  have hkeys := h.keys
  rw [map_append, map_cons, hi] at hkeys
  obtain ⟨l₁, l₂, htake, hl₁, hl₂⟩ := map_eq_append_iff.mp hkeys.symm
  obtain ⟨k', l₃, rfl, hk', hl₃⟩ := map_eq_cons_iff.mp hl₂
  obtain rfl : k' = k := Option.some.inj hk'
  have hnodup : (l₁ ++ k' :: l₃).Nodup := htake ▸ h.nodup.take
  have hi' : i ∉ before ++ after := (nodup_middle.mp h.order_nodup).notMem
  have hk₁ : k' ∉ l₁ := fun hk => (nodup_middle.mp hnodup).notMem (mem_append_left _ hk)
  refine ⟨_, h.stamp (l := l₁ ++ l₃) ?_ hi' (fun j hj hmem => ?_) ?_ ?_⟩
  · exact List.Sublist.append_left (sublist_cons_self i after) before
  · rw [mem_append, mem_cons] at hmem
    rw [mem_append]
    exact hmem.imp_right fun hor => hor.resolve_left hj
  · rw [map_append, map_append, hl₁, hl₃]
  · rw [take_touch_of_mem (by rw [htake]; simp), htake, erase_append_right _ hk₁,
      erase_cons_head]

/-- **Another key is used.**  It takes a slot that is free or, when there is none, the slot
with the least stamp. -/
lemma replace (h : Tracks slots clock recent order) (hk : k ∉ recent.take (n + 1))
    (hi : slots i = none ∨ (∀ j, slots j ≠ none) ∧
      ∀ j, ∀ a ∈ slots i, ∀ b ∈ slots j, a.2 ≤ b.2) :
    ∃ order', Tracks (update slots i (some (k, clock + 1))) (clock + 1) (touch k recent)
      order' := by
  have hlen := h.length_order
  rcases hi with hfree | ⟨hfull, hleast⟩
  · have hi : i ∉ order := fun hmem => (h.mem_order i).mp hmem hfree
    have hlt : order.length < n + 1 := by
      have hnodup := nodup_cons.mpr ⟨hi, h.order_nodup⟩
      have hcard := hnodup.length_le_card
      rwa [length_cons, Fintype.card_fin, Nat.succ_le_iff] at hcard
    have hshort : recent.take n = recent.take (n + 1) := by
      rw [take_of_length_le (by omega), take_of_length_le (by omega)]
    refine ⟨_, h.stamp (List.Sublist.refl order) hi (fun j _ hmem => hmem) h.keys ?_⟩
    rw [take_touch_of_notMem hk, hshort]
  · have hmem : i ∈ order := (h.mem_order i).mpr (hfull i)
    obtain ⟨before, after, rfl⟩ := append_of_mem hmem
    -- Nothing comes after the slot with the least stamp.
    obtain rfl : after = [] := by
      refine eq_nil_iff_forall_not_mem.mpr fun j hj => ?_
      obtain ⟨a, ha⟩ := Option.ne_none_iff_exists'.mp (hfull i)
      obtain ⟨b, hb⟩ := Option.ne_none_iff_exists'.mp (hfull j)
      have hsorted := (pairwise_append.mp h.sorted).2.1
      have hlt := rel_of_pairwise_cons hsorted hj a ha b hb
      exact absurd (hleast j a ha b hb) (Nat.not_le.mpr hlt)
    have hall : n + 1 ≤ (before ++ [i]).length := by
      have hcover : (Finset.univ : Finset (Fin (n + 1))) ⊆ (before ++ [i]).toFinset :=
        fun j _ => mem_toFinset.mpr ((h.mem_order j).mpr (hfull j))
      have hcard := (Finset.card_le_card hcover).trans (toFinset_card_le _)
      rwa [Finset.card_fin] at hcard
    rw [length_append, length_singleton] at hall hlen
    have hi : i ∉ before := fun hmem' => (nodup_append.mp h.order_nodup).2.2 i hmem' i
      (mem_singleton_self i) rfl
    have hkeys : before.map (fun i => (slots i).map Prod.fst) = (recent.take n).map some := by
      have htake := congrArg (take n) h.keys
      rw [map_append, take_left' (by rw [length_map]; omega), ← map_take,
        take_take, min_eq_left (Nat.le_succ n)] at htake
      exact htake
    refine ⟨_, h.stamp (sublist_append_left before [i]) hi (fun j hj hmem' => ?_) hkeys
      (take_touch_of_notMem hk)⟩
    rw [mem_append, mem_singleton] at hmem'
    exact hmem'.resolve_right hj

end Tracks

end Recency
