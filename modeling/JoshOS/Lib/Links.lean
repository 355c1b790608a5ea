import Mathlib

/-!
Doubly linked lists, as far as their two link functions show them.

`Chain next prev before l after` says that walking `next` from the first node of
`l` visits exactly `l` and then `after`, and that `prev` walks back to `before`.
The two pointer edits of a doubly linked list are local in this view:

* `chain_append`: a chain over a concatenation is two chains that meet.
* `Chain.congr`: a chain reads only the links of its own nodes.
* `Chain.insert`: linking a node in between two parts.
* `Chain.remove`: unlinking the node after a given one.
-/

namespace Links

open List Function

variable {α : Type*}

/-- The first node of `l`, or `after` when there is none. -/
def first (l : List α) (after : α) : α := l.headD after

/-- The last node of `l`, or `before` when there is none. -/
def last (before : α) (l : List α) : α := l.getLastD before

@[simp] lemma first_nil (z : α) : first [] z = z := rfl

@[simp] lemma first_cons (a : α) (l : List α) (z : α) : first (a :: l) z = a := rfl

@[simp] lemma last_nil (z : α) : last z [] = z := rfl

@[simp] lemma last_cons (z a : α) (l : List α) : last z (a :: l) = last a l := by
  cases l <;> rfl

@[simp] lemma last_concat (z a : α) (l : List α) : last z (l ++ [a]) = a := by
  simp [last]

lemma first_append (l₁ l₂ : List α) (z : α) : first (l₁ ++ l₂) z = first l₁ (first l₂ z) := by
  cases l₁ <;> rfl

lemma last_mem {z : α} {l : List α} (h : l ≠ []) : last z l ∈ l := by
  cases l with
  | nil => exact absurd rfl h
  | cons a l =>
    rw [last, getLastD_eq_getLast?, getLast?_eq_some_getLast h, Option.getD_some]
    exact getLast_mem h

lemma last_mem_or (z : α) (l : List α) : last z l ∈ l ∨ last z l = z := by
  cases l with
  | nil => exact .inr rfl
  | cons a l => exact .inl (last_mem (by simp))

lemma first_mem_or (l : List α) (z : α) : first l z ∈ l ∨ first l z = z := by
  cases l with
  | nil => exact .inr rfl
  | cons a l => exact .inl (by simp)

/-- The nodes of `l` are linked both ways, between `before` and `after`. -/
def Chain (next prev : α → α) : α → List α → α → Prop
  | _, [], _ => True
  | before, a :: l, after =>
    prev a = before ∧ next a = first l after ∧ Chain next prev a l after

variable {next prev next' prev' : α → α} {before after a b : α} {l l₁ l₂ : List α}

@[simp] lemma chain_nil : Chain next prev before [] after := trivial

lemma chain_cons : Chain next prev before (a :: l) after ↔
    prev a = before ∧ next a = first l after ∧ Chain next prev a l after := Iff.rfl

/-- A chain over a concatenation is two chains that meet. -/
lemma chain_append : Chain next prev before (l₁ ++ l₂) after ↔
    Chain next prev before l₁ (first l₂ after) ∧ Chain next prev (last before l₁) l₂ after := by
  induction l₁ generalizing before with
  | nil => simp
  | cons a l₁ ih =>
    rw [cons_append, chain_cons, chain_cons, ih, first_append, last_cons]
    tauto

/-- A chain reads only the links of its own nodes. -/
lemma Chain.congr (h : Chain next prev before l after)
    (hl : ∀ x ∈ l, next' x = next x ∧ prev' x = prev x) :
    Chain next' prev' before l after := by
  induction l generalizing before with
  | nil => trivial
  | cons a l ih =>
    obtain ⟨hp, hn, hrest⟩ := h
    obtain ⟨hn', hp'⟩ := hl a (by simp)
    exact ⟨hp'.trans hp, hn'.trans hn, ih hrest fun x hx => hl x (by simp [hx])⟩

variable [DecidableEq α]

/-- Redirecting the `next` link of its last node makes a chain end elsewhere. -/
lemma Chain.relast (h : Chain next prev before l b) (hnodup : l.Nodup)
    (hnext : ∀ x ∈ l, next' x = update next (last before l) after x)
    (hprev : ∀ x ∈ l, prev' x = prev x) : Chain next' prev' before l after := by
  induction l generalizing before with
  | nil => trivial
  | cons a l ih =>
    obtain ⟨hp, hn, hrest⟩ := h
    rw [nodup_cons] at hnodup
    rw [last_cons] at hnext
    refine ⟨(hprev a (by simp)).trans hp, ?_, ih hrest hnodup.2 (fun x hx => hnext x (by simp [hx]))
      fun x hx => hprev x (by simp [hx])⟩
    rw [hnext a (by simp)]
    cases l with
    | nil => exact update_self ..
    | cons c l =>
      have hne : a ≠ last a (c :: l) := fun heq => hnodup.1 (heq ▸ last_mem (by simp))
      rw [update_of_ne hne]
      exact hn

/-- Redirecting the `prev` link of its first node makes a chain start elsewhere. -/
lemma Chain.refirst (h : Chain next prev b l after) (hnodup : l.Nodup)
    (hnext : ∀ x ∈ l, next' x = next x)
    (hprev : ∀ x ∈ l, prev' x = update prev (first l after) before x) :
    Chain next' prev' before l after := by
  cases l with
  | nil => trivial
  | cons a l =>
    obtain ⟨-, hn, hrest⟩ := h
    rw [nodup_cons] at hnodup
    rw [first_cons] at hprev
    refine ⟨?_, (hnext a (by simp)).trans hn, hrest.congr fun x hx => ?_⟩
    · rw [hprev a (by simp), update_self]
    · have hne : x ≠ a := fun heq => hnodup.1 (heq ▸ hx)
      rw [hnext x (by simp [hx]), hprev x (by simp [hx]), update_of_ne hne]
      exact ⟨rfl, rfl⟩

/-- Link the node `a` in between two parts of a chain.  The end markers are not
nodes, so that an update at a marker changes no link. -/
lemma Chain.insert (h : Chain next prev before (l₁ ++ l₂) after)
    (hnodup : (l₁ ++ l₂).Nodup) (hb : before ∉ l₁ ++ l₂) (ha : after ∉ l₁ ++ l₂)
    (hnext : ∀ x ∈ l₁ ++ l₂, next' x = update next (last before l₁) a x)
    (hprev : ∀ x ∈ l₁ ++ l₂, prev' x = update prev (first l₂ after) a x)
    (hna : next' a = first l₂ after) (hpa : prev' a = last before l₁) :
    Chain next' prev' before (l₁ ++ a :: l₂) after := by
  rw [chain_append] at h ⊢
  rw [chain_cons]
  obtain ⟨hdup₁, hdup₂, hdisj⟩ := nodup_append.mp hnodup
  refine ⟨h.1.relast hdup₁ (fun x hx => hnext x (by simp [hx])) fun x hx => ?_, hpa, hna,
    h.2.refirst hdup₂ (fun x hx => ?_) fun x hx => hprev x (by simp [hx])⟩
  · have hne : x ≠ first l₂ after := by
      rintro rfl
      rcases first_mem_or l₂ after with hf | hf
      · exact hdisj _ hx _ hf rfl
      · exact ha (by rw [← hf]; simp [hx])
    rw [hprev x (by simp [hx]), update_of_ne hne]
  · have hne : x ≠ last before l₁ := by
      rintro rfl
      rcases last_mem_or before l₁ with hl | hl
      · exact hdisj _ hl _ hx rfl
      · exact hb (by rw [← hl]; simp [hx])
    rw [hnext x (by simp [hx]), update_of_ne hne]

/-- Unlink the node `b` that follows `a`. -/
lemma Chain.remove (h : Chain next prev before (l₁ ++ a :: b :: l₂) after)
    (hnodup : (l₁ ++ a :: l₂).Nodup) (ha : after ∉ l₁ ++ a :: l₂)
    (hnext : ∀ x ∈ l₁ ++ a :: l₂, next' x = update next a (first l₂ after) x)
    (hprev : ∀ x ∈ l₁ ++ a :: l₂, prev' x = update prev (first l₂ after) a x) :
    Chain next' prev' before (l₁ ++ a :: l₂) after := by
  rw [chain_append] at h ⊢
  rw [chain_cons, chain_cons] at h
  rw [chain_cons]
  obtain ⟨h₁, hpa, -, -, -, h₂⟩ := h
  obtain ⟨-, hdup₂, hdisj⟩ := nodup_append.mp hnodup
  rw [nodup_cons] at hdup₂
  have hfirst : ∀ x ∈ l₁ ++ [a], x ≠ first l₂ after := by
    rintro x hx rfl
    rcases first_mem_or l₂ after with hf | hf
    · rcases mem_append.mp hx with hx | hx
      · exact hdisj _ hx _ (mem_cons_of_mem a hf) rfl
      · rw [mem_singleton] at hx
        exact hdup₂.1 (hx ▸ hf)
    · rw [hf] at hx
      exact ha (by simp at hx ⊢; tauto)
  refine ⟨h₁.congr fun x hx => ⟨?_, ?_⟩, ?_, ?_, h₂.refirst hdup₂.2 (fun x hx => ?_)
    fun x hx => hprev x (by simp [hx])⟩
  · rw [hnext x (by simp [hx]), update_of_ne fun heq => hdisj x hx a (by simp) heq]
  · rw [hprev x (by simp [hx]), update_of_ne (hfirst x (by simp [hx]))]
  · rw [hprev a (by simp), update_of_ne (hfirst a (by simp)), hpa]
  · rw [hnext a (by simp), update_self]
  · rw [hnext x (by simp [hx]), update_of_ne fun heq : x = a => hdup₂.1 (heq ▸ hx)]

end Links
