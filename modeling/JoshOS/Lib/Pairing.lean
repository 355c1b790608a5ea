import Mathlib

/-!
One-to-one correspondences between what two tables have in use.

`Pairing A B R`: the relation `R` pairs off the elements of `A` with those of `B`.

* `Pairing.empty`: nothing is in use.
* `Pairing.congr`: a pairing said in other terms.
* `Pairing.insert`: two elements that come into use together.
* `Pairing.erase`: two that go out of use together.
-/

section

variable {α β : Type*} {A A' : α → Prop} {B B' : β → Prop} {R R' : α → β → Prop} {a : α} {b : β}

/-- The relation `R` is a one-to-one correspondence between `A` and `B`. -/
structure Pairing (A : α → Prop) (B : β → Prop) (R : α → β → Prop) : Prop where
  left : ∀ a b, R a b → A a
  right : ∀ a b, R a b → B b
  total : ∀ a, A a → ∃ b, R a b
  onto : ∀ b, B b → ∃ a, R a b
  functional : ∀ a b b', R a b → R a b' → b = b'
  injective : ∀ a a' b, R a b → R a' b → a = a'

namespace Pairing

/-- With nothing in use there is nothing to pair. -/
lemma empty (hA : ∀ a, ¬ A a) (hB : ∀ b, ¬ B b) (hR : ∀ a b, R a b → A a) : Pairing A B R where
  left := hR
  right a b hab := absurd (hR a b hab) (hA a)
  total a ha := absurd ha (hA a)
  onto b hb := absurd hb (hB b)
  functional a b _ hab := absurd (hR a b hab) (hA a)
  injective a _ b hab := absurd (hR a b hab) (hA a)

lemma congr (h : Pairing A B R) (hA : ∀ x, A' x ↔ A x) (hB : ∀ y, B' y ↔ B y)
    (hR : ∀ x y, R' x y ↔ R x y) : Pairing A' B' R' := by
  obtain rfl : A' = A := funext fun x => propext (hA x)
  obtain rfl : B' = B := funext fun y => propext (hB y)
  obtain rfl : R' = R := funext fun x => funext fun y => propext (hR x y)
  exact h

/-- Two elements come into use and are paired with each other. -/
lemma insert (h : Pairing A B R) (ha : ¬ A a) (hb : ¬ B b) (hA : ∀ x, A' x ↔ x = a ∨ A x)
    (hB : ∀ y, B' y ↔ y = b ∨ B y) (hR : ∀ x y, R' x y ↔ x = a ∧ y = b ∨ R x y) :
    Pairing A' B' R' := by
  have hnew : R' a b := (hR a b).mpr (.inl ⟨rfl, rfl⟩)
  have hold (x : α) (y : β) (hxy : R x y) : x ≠ a ∧ y ≠ b :=
    ⟨fun hx => ha (hx ▸ h.left x y hxy), fun hy => hb (hy ▸ h.right x y hxy)⟩
  refine ⟨fun x y hxy => ?_, fun x y hxy => ?_, fun x hx => ?_, fun y hy => ?_,
    fun x y y' hxy hxy' => ?_, fun x x' y hxy hxy' => ?_⟩
  · rcases (hR x y).mp hxy with ⟨rfl, rfl⟩ | hxy
    · exact (hA x).mpr (.inl rfl)
    · exact (hA x).mpr (.inr (h.left x y hxy))
  · rcases (hR x y).mp hxy with ⟨rfl, rfl⟩ | hxy
    · exact (hB y).mpr (.inl rfl)
    · exact (hB y).mpr (.inr (h.right x y hxy))
  · rcases (hA x).mp hx with rfl | hx
    · exact ⟨b, hnew⟩
    · obtain ⟨y, hxy⟩ := h.total x hx
      exact ⟨y, (hR x y).mpr (.inr hxy)⟩
  · rcases (hB y).mp hy with rfl | hy
    · exact ⟨a, hnew⟩
    · obtain ⟨x, hxy⟩ := h.onto y hy
      exact ⟨x, (hR x y).mpr (.inr hxy)⟩
  · rcases (hR x y).mp hxy with ⟨rfl, rfl⟩ | hxy
    · rcases (hR x y').mp hxy' with ⟨-, rfl⟩ | hxy'
      · rfl
      · exact absurd rfl (hold x y' hxy').1
    · rcases (hR x y').mp hxy' with ⟨rfl, rfl⟩ | hxy'
      · exact absurd rfl (hold x y hxy).1
      · exact h.functional x y y' hxy hxy'
  · rcases (hR x y).mp hxy with ⟨rfl, rfl⟩ | hxy
    · rcases (hR x' y).mp hxy' with ⟨rfl, -⟩ | hxy'
      · rfl
      · exact absurd rfl (hold x' y hxy').2
    · rcases (hR x' y).mp hxy' with ⟨rfl, rfl⟩ | hxy'
      · exact absurd rfl (hold x y hxy).2
      · exact h.injective x x' y hxy hxy'

/-- Two elements that are paired with each other go out of use. -/
lemma erase (h : Pairing A B R) (hab : R a b) (hA : ∀ x, A' x ↔ x ≠ a ∧ A x)
    (hB : ∀ y, B' y ↔ y ≠ b ∧ B y) (hR : ∀ x y, R' x y ↔ x ≠ a ∧ R x y) :
    Pairing A' B' R' := by
  have hne (x : α) (y : β) (hxy : R x y) : x ≠ a ↔ y ≠ b := by
    constructor
    · rintro hx rfl
      exact hx (h.injective x a y hxy hab)
    · rintro hy rfl
      exact hy (h.functional x y b hxy hab)
  refine ⟨fun x y hxy => ?_, fun x y hxy => ?_, fun x hx => ?_, fun y hy => ?_,
    fun x y y' hxy hxy' => ?_, fun x x' y hxy hxy' => ?_⟩
  · obtain ⟨hx, hxy⟩ := (hR x y).mp hxy
    exact (hA x).mpr ⟨hx, h.left x y hxy⟩
  · obtain ⟨hx, hxy⟩ := (hR x y).mp hxy
    exact (hB y).mpr ⟨(hne x y hxy).mp hx, h.right x y hxy⟩
  · obtain ⟨hx, hA⟩ := (hA x).mp hx
    obtain ⟨y, hxy⟩ := h.total x hA
    exact ⟨y, (hR x y).mpr ⟨hx, hxy⟩⟩
  · obtain ⟨hy, hB⟩ := (hB y).mp hy
    obtain ⟨x, hxy⟩ := h.onto y hB
    exact ⟨x, (hR x y).mpr ⟨(hne x y hxy).mpr hy, hxy⟩⟩
  · exact h.functional x y y' ((hR x y).mp hxy).2 ((hR x y').mp hxy').2
  · exact h.injective x x' y ((hR x y).mp hxy).2 ((hR x' y).mp hxy').2

end Pairing

end
