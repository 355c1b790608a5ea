import Mathlib

/-!
Pre- and postconditions for computations that change a state and may stop with
an error, in the monad `ExceptT ε (StateM σ)`: the state reached by an error is
kept, as it is by a function that returns a status early.

`Triple P x Q E` says that `x`, started in a state with `P`, either returns a
value and a state with `Q` or stops with an error and a state with `E`; with
`E = fun _ _ => False` it is total correctness.  The rules are one for each way in
which such a computation is put together; `Triple.forUp` is the invariant rule of
a counting loop, `Triple.whileFrom` that of a loop with a measure;
`outcome_forUp_error` and `outcome_forUp_stop` say where a counting loop stops.
-/

namespace Hoare

variable {σ ε α β : Type}

/-- The outcome of a computation started in `s`. -/
def outcome (x : ExceptT ε (StateM σ) α) (s : σ) : Except ε α × σ := x.run.run s

/-- `x` takes `P` to `Q` when it returns and to `E` when it stops. -/
def Triple (P : σ → Prop) (x : ExceptT ε (StateM σ) α) (Q : α → σ → Prop) (E : ε → σ → Prop) :
    Prop :=
  ∀ s, P s → (∀ a s', outcome x s = (.ok a, s') → Q a s') ∧
    ∀ e s', outcome x s = (.error e, s') → E e s'

/-- The counting loop: `count` rounds of `body` at `i`, `i + step`, ... -/
def loop (step : ℕ) (body : ℕ → ExceptT ε (StateM σ) Unit) : ℕ → ℕ → ExceptT ε (StateM σ) Unit
  | 0, _ => pure ()
  | count + 1, i => do
      body i
      loop step body count (i + step)

/-- The loop `for (i = start; i < stop; i += step) body`. -/
def forUp (start stop step : ℕ) (body : ℕ → ExceptT ε (StateM σ) Unit) :
    ExceptT ε (StateM σ) Unit :=
  loop step body ((stop - start + (step - 1)) / step) start

/-- The loop `while (test a) a = body a`, for at most `fuel` rounds; it stops with `stuck`
when there would be more. -/
def whileFrom (test : α → Bool) (body : α → ExceptT ε (StateM σ) α) (stuck : ε) :
    ℕ → α → ExceptT ε (StateM σ) α
  | 0, a => if test a then throw stuck else pure a
  | fuel + 1, a =>
    if test a then do
      let b ← body a
      whileFrom test body stuck fuel b
    else pure a

variable {P P' : σ → Prop} {Q Q' : α → σ → Prop} {R : β → σ → Prop} {E E' : ε → σ → Prop}
  {x : ExceptT ε (StateM σ) α} {s : σ}

/-! ### Outcomes -/

@[simp] lemma outcome_pure (a : α) (s : σ) :
    outcome (pure a : ExceptT ε (StateM σ) α) s = (.ok a, s) := rfl

@[simp] lemma outcome_throw (e : ε) (s : σ) :
    outcome (throw e : ExceptT ε (StateM σ) α) s = (.error e, s) := rfl

@[simp] lemma outcome_get (s : σ) :
    outcome (get : ExceptT ε (StateM σ) σ) s = (.ok s, s) := rfl

@[simp] lemma outcome_set (s t : σ) :
    outcome (set t : ExceptT ε (StateM σ) PUnit) s = (.ok ⟨⟩, t) := rfl

@[simp] lemma outcome_modify (f : σ → σ) (s : σ) :
    outcome (modify f : ExceptT ε (StateM σ) PUnit) s = (.ok ⟨⟩, f s) := rfl

/-- A bind runs its second part from where its first part returned, and stops where
its first part stops. -/
lemma outcome_bind (x : ExceptT ε (StateM σ) α) (f : α → ExceptT ε (StateM σ) β) (s : σ) :
    outcome (x >>= f) s = match outcome x s with
      | (.ok a, s') => outcome (f a) s'
      | (.error e, s') => (.error e, s') := by
  simp only [outcome, ExceptT.run_bind, StateT.run_bind]
  cases x.run.run s with
  | mk r s' => cases r <;> rfl

section Stops

variable {step start stop count k i : ℕ} {body : ℕ → ExceptT ε (StateM σ) Unit} {m s' : σ} {e : ε}

/-- A loop that stops has run through some rounds and stops in the next one. -/
lemma outcome_loop_error (h : outcome (loop step body count start) s = (.error e, s')) :
    ∃ k < count, ∃ m, outcome (loop step body k start) s = (.ok (), m) ∧
      outcome (body (start + k * step)) m = (.error e, s') := by
  induction count generalizing start s with
  | zero => cases h
  | succ count ih =>
    rw [loop, outcome_bind] at h
    rcases hbody : outcome (body start) s with ⟨e' | _, m⟩
    · rw [hbody] at h
      obtain ⟨h1, rfl⟩ := Prod.mk.inj h
      obtain rfl := Except.error.inj h1
      exact ⟨0, Nat.succ_pos count, s, rfl, by simpa using hbody⟩
    · rw [hbody] at h
      obtain ⟨k, hk, m', hloop, hstop⟩ := ih h
      refine ⟨k + 1, Nat.succ_lt_succ hk, m', ?_, ?_⟩
      · rw [loop, outcome_bind, hbody]
        exact hloop
      · rwa [Nat.succ_mul, Nat.add_comm (k * step), ← Nat.add_assoc]

/-- A round that stops ends the loop. -/
lemma outcome_loop_stop (hk : k < count)
    (hloop : outcome (loop step body k start) s = (.ok (), m))
    (hstop : outcome (body (start + k * step)) m = (.error e, s')) :
    outcome (loop step body count start) s = (.error e, s') := by
  induction k generalizing start s count with
  | zero =>
    obtain ⟨count, rfl⟩ := Nat.exists_eq_add_of_lt hk
    obtain ⟨-, rfl⟩ := Prod.mk.inj hloop
    rw [Nat.zero_mul, Nat.add_zero] at hstop
    rw [loop, outcome_bind, hstop]
  | succ k ih =>
    obtain ⟨count, rfl⟩ : ∃ n, count = n + 1 := ⟨count - 1, by omega⟩
    rw [loop, outcome_bind] at hloop ⊢
    rcases hbody : outcome (body start) s with ⟨e' | _, m'⟩
    · rw [hbody] at hloop
      cases hloop
    · rw [hbody] at hloop
      refine ih (Nat.lt_of_succ_lt_succ hk) hloop ?_
      rwa [Nat.add_assoc, Nat.add_comm step, ← Nat.succ_mul]

/-- The number of rounds of a loop whose bounds are a whole number of steps apart. -/
lemma forUp_eq_loop (hstep : 0 < step) (hdvd : step ∣ stop - start) :
    forUp start stop step body = loop step body ((stop - start) / step) start := by
  obtain ⟨n, hn⟩ := hdvd
  rw [forUp, hn, Nat.mul_add_div hstep, Nat.div_eq_of_lt (by omega), Nat.add_zero,
    Nat.mul_div_cancel_left n hstep]

/-- **Where a counting loop stops.** -/
lemma outcome_forUp_error (hstep : 0 < step) (hdvd : step ∣ stop - start)
    (h : outcome (forUp start stop step body) s = (.error e, s')) :
    ∃ i, start ≤ i ∧ i < stop ∧ step ∣ i - start ∧
      ∃ m, outcome (forUp start i step body) s = (.ok (), m) ∧
        outcome (body i) m = (.error e, s') := by
  rw [forUp_eq_loop hstep hdvd] at h
  obtain ⟨k, hk, m, hloop, hstop⟩ := outcome_loop_error h
  have hlt : k * step < stop - start := (Nat.lt_div_iff_mul_lt_of_dvd hstep.ne' hdvd).mp hk
  have hback : start + k * step - start = k * step := Nat.add_sub_cancel_left ..
  refine ⟨start + k * step, Nat.le_add_right _ _, by omega, ?_, m, ?_, hstop⟩
  · rw [hback]
    exact Dvd.intro_left k rfl
  · rw [forUp_eq_loop hstep (by rw [hback]; exact Dvd.intro_left k rfl), hback,
      Nat.mul_div_cancel k hstep]
    exact hloop

/-- A round that stops ends the counting loop. -/
lemma outcome_forUp_stop (hstep : 0 < step) (hdvd : step ∣ stop - start) (hle : start ≤ i)
    (hlt : i < stop) (hi : step ∣ i - start)
    (hloop : outcome (forUp start i step body) s = (.ok (), m))
    (hstop : outcome (body i) m = (.error e, s')) :
    outcome (forUp start stop step body) s = (.error e, s') := by
  rw [forUp_eq_loop hstep hi] at hloop
  rw [forUp_eq_loop hstep hdvd]
  refine outcome_loop_stop (Nat.div_lt_div_of_lt_of_dvd hdvd (by omega)) hloop ?_
  rwa [Nat.div_mul_cancel hi, Nat.add_sub_cancel' hle]

end Stops

/-- An outcome that meets `Q` or `E`. -/
def Ends (Q : α → σ → Prop) (E : ε → σ → Prop) : Except ε α × σ → Prop
  | (.ok a, s) => Q a s
  | (.error e, s) => E e s

/-! ### The rules -/

namespace Triple

/-- A triple is about the outcomes. -/
lemma iff_ends : Triple P x Q E ↔ ∀ s, P s → Ends Q E (outcome x s) := by
  refine forall₂_congr fun s _ => ?_
  cases outcome x s with
  | mk r s' =>
    cases r with
    | ok | error => simp [Ends]

/-- What a triple says of every outcome. -/
lemma holds_outcome {O : Except ε α × σ → Prop}
    (h : Triple P x (fun a s => O (.ok a, s)) (fun e s => O (.error e, s))) (hs : P s) :
    O (outcome x s) := by
  have hends := iff_ends.mp h s hs
  cases hout : outcome x s with
  | mk r s' =>
    rw [hout] at hends
    cases r with
    | ok | error => exact hends

/-- A computation whose outcome is known to be a return. -/
lemma of_outcome (h : ∀ s, P s → ∃ a s', outcome x s = (.ok a, s') ∧ Q a s') :
    Triple P x Q E := by
  refine iff_ends.mpr fun s hs => ?_
  obtain ⟨a, s', hout, hQ⟩ := h s hs
  rw [hout]
  exact hQ

lemma pure {a : α} (h : ∀ s, P s → Q a s) :
    Triple P (Pure.pure a : ExceptT ε (StateM σ) α) Q E := by
  intro s hs
  simpa using h s hs

lemma throw {e : ε} (h : ∀ s, P s → E e s) :
    Triple P (MonadExcept.throw e : ExceptT ε (StateM σ) α) Q E := by
  intro s hs
  constructor
  · intro a s' hout
    cases hout
  · intro e' s' hout
    cases hout
    exact h s hs

lemma get {Q : σ → σ → Prop} (h : ∀ s, P s → Q s s) :
    Triple P (MonadState.get : ExceptT ε (StateM σ) σ) Q E := by
  intro s hs
  constructor
  · intro a s' hout
    cases hout
    exact h s hs
  · intro e' s' hout
    cases hout

lemma modify {f : σ → σ} {Q : Unit → σ → Prop} (h : ∀ s, P s → Q () (f s)) :
    Triple P (modify f : ExceptT ε (StateM σ) Unit) Q E := by
  intro s hs
  constructor
  · intro a s' hout
    cases hout
    exact h s hs
  · intro e' s' hout
    cases hout

lemma set {t : σ} {Q : Unit → σ → Prop} (h : ∀ s, P s → Q () t) :
    Triple P (set t : ExceptT ε (StateM σ) Unit) Q E := by
  intro s hs
  constructor
  · intro a s' hout
    cases hout
    exact h s hs
  · intro e' s' hout
    cases hout

/-- The rule of consequence. -/
lemma conseq (h : Triple P x Q E) (hP : ∀ s, P' s → P s) (hQ : ∀ a s, Q a s → Q' a s)
    (hE : ∀ e s, E e s → E' e s) : Triple P' x Q' E' := by
  intro s hs
  obtain ⟨hok, herr⟩ := h s (hP s hs)
  exact ⟨fun a s' hout => hQ a s' (hok a s' hout), fun e s' hout => hE e s' (herr e s' hout)⟩

/-- Two triples of one computation. -/
lemma and (h : Triple P x Q E) (h' : Triple P' x Q' E') :
    Triple (fun s => P s ∧ P' s) x (fun a s => Q a s ∧ Q' a s) fun e s => E e s ∧ E' e s :=
  fun s hs => ⟨fun a s' ha => ⟨(h s hs.1).1 a s' ha, (h' s hs.2).1 a s' ha⟩,
    fun e s' he => ⟨(h s hs.1).2 e s' he, (h' s hs.2).2 e s' he⟩⟩

/-- The rule of composition. -/
lemma bind {f : α → ExceptT ε (StateM σ) β} (hx : Triple P x Q E)
    (hf : ∀ a, Triple (Q a) (f a) R E) : Triple P (x >>= f) R E := by
  intro s hs
  obtain ⟨hok, herr⟩ := hx s hs
  rcases hout : outcome x s with ⟨e | a, s'⟩
  · rw [outcome_bind, hout]
    refine ⟨fun b t ht => by simp at ht, fun e' t ht => ?_⟩
    cases ht
    exact herr e s' hout
  · rw [outcome_bind, hout]
    exact hf a s' (hok a s' hout)

/-- The rule of composition after a part whose errors are understood differently. -/
lemma bind_conseq {f : α → ExceptT ε (StateM σ) β} (hx : Triple P x Q E')
    (hE : ∀ e s, E' e s → E e s) (hf : ∀ a, Triple (Q a) (f a) R E) : Triple P (x >>= f) R E :=
  bind (hx.conseq (fun _ h => h) (fun _ _ h => h) hE) hf

/-- The rule of composition after a part that keeps the precondition and returns a known
value. -/
lemma bind_value {f : α → ExceptT ε (StateM σ) β} {v : α}
    (hx : Triple P x (fun a s => P s ∧ a = v) E) (hf : Triple P (f v) R E) :
    Triple P (x >>= f) R E := by
  refine bind hx fun a s hs => ?_
  obtain ⟨hP, rfl⟩ := hs
  exact hf s hP

/-- A conditional is verified branch by branch. -/
lemma ite {c : Prop} [Decidable c] {y : ExceptT ε (StateM σ) α}
    (hx : c → Triple P x Q E) (hy : ¬ c → Triple P y Q E) : Triple P (if c then x else y) Q E := by
  split
  case isTrue hc => exact hx hc
  case isFalse hc => exact hy hc

/-- A guard that stops with `e`. -/
lemma guard {c : Prop} [Decidable c] {e : ε} {y : ExceptT ε (StateM σ) α}
    (he : c → ∀ s, P s → E e s) (hy : ¬ c → Triple P y Q E) :
    Triple P (if c then MonadExcept.throw e else y) Q E :=
  ite (fun hc => throw (he hc)) hy

/-- A fact about the starting state may be brought out of the precondition. -/
lemma of_pre (h : ∀ s₀, P s₀ → Triple (fun s => s = s₀) x Q E) : Triple P x Q E :=
  fun s hs => h s hs s rfl

/-- A loop keeps the invariant that each round takes from its index to the
next. -/
lemma loop {step start : ℕ} {body : ℕ → ExceptT ε (StateM σ) Unit} {I : ℕ → σ → Prop} :
    ∀ {count : ℕ}, (∀ k < count, Triple (I (start + k * step)) (body (start + k * step))
      (fun _ => I (start + (k + 1) * step)) E) →
      Triple (I start) (Hoare.loop step body count start)
        (fun _ => I (start + count * step)) E := by
  intro count
  induction count generalizing start with
  | zero =>
    intro _
    exact pure fun s hs => by simpa using hs
  | succ count ih =>
    intro hbody
    refine bind (by simpa using hbody 0 (Nat.succ_pos count)) fun _ => ?_
    have hnext : ∀ k, start + step + k * step = start + (k + 1) * step := fun k => by ring
    have hrest : ∀ k < count, Triple (I (start + step + k * step))
        (body (start + step + k * step)) (fun _ => I (start + step + (k + 1) * step)) E := by
      intro k hk
      rw [hnext, hnext]
      exact hbody (k + 1) (by omega)
    rw [← hnext]
    exact ih hrest

/-- **The invariant rule of a counting loop** whose bounds are a whole number of
steps apart. -/
lemma forUp {start stop step : ℕ} {body : ℕ → ExceptT ε (StateM σ) Unit} {I : ℕ → σ → Prop}
    (hstep : 0 < step) (hle : start ≤ stop) (hdvd : step ∣ stop - start)
    (hbody : ∀ i, start ≤ i → i < stop → step ∣ i - start →
      Triple (I i) (body i) (fun _ => I (i + step)) E) :
    Triple (I start) (Hoare.forUp start stop step body) (fun _ => I stop) E := by
  rw [forUp_eq_loop hstep hdvd]
  obtain ⟨n, hn⟩ := hdvd
  have hstop : start + n * step = stop := by
    rw [Nat.mul_comm n step]
    omega
  rw [hn, Nat.mul_div_cancel_left n hstep, ← hstop]
  refine loop fun k hk => ?_
  have hlt : k * step < n * step := Nat.mul_lt_mul_of_pos_right hk hstep
  have := hbody (start + k * step) (by omega) (by omega)
    (by rw [Nat.add_sub_cancel_left]; exact Dvd.intro_left k rfl)
  rwa [Nat.add_assoc, ← Nat.succ_mul] at this

/-- **The invariant rule of a loop with a measure.**  With as much fuel as the measure
says, the loop ends because its test fails. -/
lemma whileFrom {test : α → Bool} {body : α → ExceptT ε (StateM σ) α} {stuck : ε}
    {I : α → σ → Prop} {μ : α → ℕ} (hpos : ∀ a, test a = true → 0 < μ a)
    (hbody : ∀ a, test a = true → Triple (I a) (body a) (fun b s => μ b < μ a ∧ I b s) E) :
    ∀ {fuel : ℕ} {a : α}, μ a ≤ fuel →
      Triple (I a) (Hoare.whileFrom test body stuck fuel a)
        (fun b s => test b = false ∧ I b s) E := by
  intro fuel
  induction fuel with
  | zero =>
    intro a hfuel
    refine ite (fun htest => absurd (hpos a htest) (by omega)) fun htest => ?_
    exact pure fun s hs => ⟨Bool.eq_false_iff.mpr htest, hs⟩
  | succ fuel ih =>
    intro a hfuel
    refine ite (fun htest => bind (hbody a htest) fun b => ?_) fun htest => ?_
    · exact of_pre fun s₀ hs₀ => (ih (by omega)).conseq (fun s hs => hs ▸ hs₀.2)
        (fun _ _ h => h) fun _ _ h => h
    · exact pure fun s hs => ⟨Bool.eq_false_iff.mpr htest, hs⟩

end Triple

end Hoare
