import Mathlib

/-!
Runs of a deterministic machine that answers each input.

A machine is a function `step : σ → ι → ω × σ`.  `final` is the state after a
list of inputs and `trace` the list of inputs with their answers.  Whatever the
environment chooses, a driver outcome or the bytes of a buffer, is part of the
input, so a statement about all lists of inputs is one about all runs.

* `final_induction`: an invariant of the steps is one of the runs.
* `ghost_induction`: the same with a ghost value folded over the trace.
* `trace_split`: a split of the trace is a split of the run.
* `Legal`, `legal_induction`: runs whose inputs obey a rule that depends on the
  state they are given in.
* `legal_trace_induction`: an invariant of the state and of the answers so far.
* `forall_reached_iff_legal`, `forall_final_iff_legal`: an exact rule, whose first
  breach is the first state without the property.
-/

namespace Runs

variable {σ ι ω γ : Type*} (step : σ → ι → ω × σ)

/-- The state after a list of inputs. -/
def final (s : σ) : List ι → σ
  | [] => s
  | i :: is => final (step s i).2 is

/-- The inputs of a run with their answers. -/
def trace (s : σ) : List ι → List (ι × ω)
  | [] => []
  | i :: is => (i, (step s i).1) :: trace (step s i).2 is

@[simp] lemma final_nil (s : σ) : final step s [] = s := rfl

@[simp] lemma final_cons (s : σ) (i : ι) (is : List ι) :
    final step s (i :: is) = final step (step s i).2 is := rfl

@[simp] lemma trace_nil (s : σ) : trace step s [] = [] := rfl

@[simp] lemma trace_cons (s : σ) (i : ι) (is : List ι) :
    trace step s (i :: is) = (i, (step s i).1) :: trace step (step s i).2 is := rfl

lemma final_append (s : σ) (is js : List ι) :
    final step s (is ++ js) = final step (final step s is) js := by
  induction is generalizing s with
  | nil => rfl
  | cons i is ih => exact ih (step s i).2

lemma trace_append (s : σ) (is js : List ι) :
    trace step s (is ++ js) = trace step s is ++ trace step (final step s is) js := by
  induction is generalizing s with
  | nil => rfl
  | cons i is ih => exact congrArg _ (ih (step s i).2)

/-- A property that every step keeps holds after every run. -/
theorem final_induction {P : σ → Prop} (hstep : ∀ s i, P s → P (step s i).2) {s : σ} (h : P s)
    (is : List ι) : P (final step s is) := by
  induction is generalizing s with
  | nil => exact h
  | cons i is ih => exact ih (hstep s i h)

/-- A property of the state and of a ghost value that every step keeps, when the
ghost value is updated from the input and its answer, holds after every run. -/
theorem ghost_induction {P : σ → γ → Prop} {upd : γ → ι × ω → γ}
    (hstep : ∀ s g i, P s g → P (step s i).2 (upd g (i, (step s i).1))) {s : σ} {g : γ}
    (h : P s g) (is : List ι) : P (final step s is) ((trace step s is).foldl upd g) := by
  induction is generalizing s g with
  | nil => exact h
  | cons i is ih => exact ih (hstep s g i h)

/-- A split of the trace comes from a split of the inputs. -/
lemma trace_split {s : σ} {is : List ι} {t₁ t₂ : List (ι × ω)}
    (h : trace step s is = t₁ ++ t₂) :
    ∃ js ks, is = js ++ ks ∧ trace step s js = t₁ ∧ trace step (final step s js) ks = t₂ := by
  induction t₁ generalizing s is with
  | nil => exact ⟨[], is, rfl, rfl, h⟩
  | cons e t₁ ih =>
    cases is with
    | nil => simp at h
    | cons i is =>
      simp only [trace_cons, List.cons_append, List.cons.injEq] at h
      obtain ⟨js, ks, rfl, h₁, h₂⟩ := ih h.2
      exact ⟨i :: js, ks, rfl, by rw [trace_cons, h.1, h₁], h₂⟩

/-! ### Runs that obey a rule -/

variable (rule : σ → ι → Prop)

/-- Every input obeys the rule in the state in which it is given. -/
def Legal (s : σ) : List ι → Prop
  | [] => True
  | i :: is => rule s i ∧ Legal (step s i).2 is

@[simp] lemma legal_nil (s : σ) : Legal step rule s [] := trivial

@[simp] lemma legal_cons (s : σ) (i : ι) (is : List ι) :
    Legal step rule s (i :: is) ↔ rule s i ∧ Legal step rule (step s i).2 is := Iff.rfl

lemma legal_append (s : σ) (is js : List ι) :
    Legal step rule s (is ++ js) ↔
      Legal step rule s is ∧ Legal step rule (final step s is) js := by
  induction is generalizing s with
  | nil => simp
  | cons i is ih => simp [ih, and_assoc]

/-- Two rules are obeyed together when each of them is. -/
lemma legal_and {rule' : σ → ι → Prop} {s : σ} {is : List ι} (h : Legal step rule s is)
    (h' : Legal step rule' s is) : Legal step (fun s i => rule s i ∧ rule' s i) s is := by
  induction is generalizing s with
  | nil => trivial
  | cons i is ih => exact ⟨⟨h.1, h'.1⟩, ih h.2 h'.2⟩

variable {rule}

instance [∀ s i, Decidable (rule s i)] : (s : σ) → (is : List ι) → Decidable (Legal step rule s is)
  | _, [] => isTrue trivial
  | s, i :: is =>
    have : Decidable (Legal step rule (step s i).2 is) := instDecidableLegal (step s i).2 is
    inferInstanceAs (Decidable (rule s i ∧ Legal step rule (step s i).2 is))

/-- A property that every legal step keeps holds after every legal run. -/
theorem legal_induction {P : σ → Prop} (hstep : ∀ s i, P s → rule s i → P (step s i).2) {s : σ}
    (h : P s) {is : List ι} (hlegal : Legal step rule s is) : P (final step s is) := by
  induction is generalizing s with
  | nil => exact h
  | cons i is ih => exact ih (hstep s i h hlegal.1) hlegal.2

/-- The same for a property that also speaks of what was answered so far. -/
theorem legal_trace_induction {P : σ → List (ι × ω) → Prop}
    (hstep : ∀ s g i, P s g → rule s i → P (step s i).2 (g ++ [(i, (step s i).1)])) {s : σ}
    {g : List (ι × ω)} (h : P s g) {is : List ι} (hlegal : Legal step rule s is) :
    P (final step s is) (g ++ trace step s is) := by
  induction is generalizing s g with
  | nil => simpa using h
  | cons i is ih => simpa using ih (hstep s g i h hlegal.1) hlegal.2

/-- When a legal step keeps the invariant `P` and an illegal one breaks the
property `Q` that `P` implies, the legal runs are those that have `Q` in every
state they reach. -/
theorem forall_reached_iff_legal {P Q : σ → γ → Prop} {upd : γ → ι × ω → γ}
    (hsound : ∀ s g, P s g → Q s g)
    (hstep : ∀ s g i, P s g → rule s i → P (step s i).2 (upd g (i, (step s i).1)))
    (hbreach : ∀ s g i, P s g → ¬ rule s i → ¬ Q (step s i).2 (upd g (i, (step s i).1)))
    {s : σ} {g : γ} (h : P s g) (is : List ι) :
    (∀ js, js <+: is → Q (final step s js) ((trace step s js).foldl upd g)) ↔
      Legal step rule s is := by
  induction is generalizing s g with
  | nil =>
    refine ⟨fun _ => trivial, fun _ js hjs => ?_⟩
    rw [List.prefix_nil.1 hjs]
    exact hsound s g h
  | cons i is ih =>
    constructor
    · intro hall
      have hrule : rule s i := by
        by_contra hno
        exact hbreach s g i h hno (hall [i] (by simp))
      refine ⟨hrule, (ih (hstep s g i h hrule)).1 fun js hjs => ?_⟩
      exact hall (i :: js) (by simpa using hjs)
    · rintro ⟨hrule, hlegal⟩ js hjs
      cases js with
      | nil => exact hsound s g h
      | cons j js =>
        obtain ⟨rfl, htail⟩ := List.cons_prefix_cons.1 hjs
        exact (ih (hstep s g j h hrule)).2 hlegal js htail

/-- The same for a property of the state alone that a step keeps exactly when it is legal. -/
theorem forall_final_iff_legal {P : σ → Prop}
    (hstep : ∀ s i, P s → (P (step s i).2 ↔ rule s i)) {s : σ} (h : P s) (is : List ι) :
    (∀ js, js <+: is → P (final step s js)) ↔ Legal step rule s is :=
  @forall_reached_iff_legal σ ι ω Unit step rule (fun s _ => P s) (fun s _ => P s)
    (fun _ _ => ()) (fun _ _ hP => hP) (fun s _ i hP => (hstep s i hP).mpr)
    (fun s _ i hP hrule hnext => hrule ((hstep s i hP).mp hnext)) s () h is

end Runs
