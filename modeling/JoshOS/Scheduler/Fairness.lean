import JoshOS.Scheduler.Safety

/-!
No thread overtakes another that waits.

The scan of `next_runnable` starts behind the thread selected last and goes round all
slots.  `ahead` is how far a slot is from its start, and a ready thread is passed over only
for one that is nearer.

* `no_overtaking`: no thread is selected twice while another stays ready.
-/

namespace JoshOS.Scheduler

variable {s : State} {a b x : ℕ}

/-! ### The order of the scan -/

/-- How many slots `next_runnable` looks at before `slot`. -/
def ahead (s : State) (slot : ℕ) : ℕ := (slot + (slotCount - s.scanCursor)) % slotCount

/-- The thread that `next_runnable` returns inside `scheduler_yield`. -/
def selected (s : State) : Option ℕ :=
  (nextRunnable
    (if (s.slots s.current).state = .running then setState s s.current .ready else s)).1

lemma selected_eq (s : State) : selected s = (nextRunnable { s with slots := park s }).1 := by
  rw [selected, park]
  split_ifs <;> rfl

lemma Scheduled.cursor_lt (h : Scheduled s) : s.scanCursor < slotCount := by
  rw [h.cursor_eq]
  exact Nat.mod_lt _ (by decide)

/-- **No ready thread is nearer than the one selected.** -/
lemma selected_ahead_le (h : Scheduled s) (hselected : selected s = some x) (hb : b < slotCount)
    (hready : (park s b).state = .ready) : ahead s x ≤ ahead s b := by
  have hcursor := h.cursor_lt
  rw [selected_eq, nextRunnable] at hselected
  cases hfind : (List.range slotCount).find? fun offset =>
      decide ((park s ((s.scanCursor + offset) % slotCount)).state = .ready) with
  | none => simp [hfind] at hselected
  | some offset =>
    simp only [hfind, Option.some.injEq] at hselected
    obtain ⟨-, hmem, hfirst⟩ := List.find?_range_eq_some.mp hfind
    have hoffset := List.mem_range.mp hmem
    have hcount : slotCount = 17 := rfl
    have hx : ahead s x = offset := by
      rw [ahead, ← hselected, hcount]
      rw [hcount] at hcursor hoffset
      omega
    rw [hx]
    by_contra hnearer
    refine absurd (hfirst (ahead s b) (by omega)) ?_
    have hslot : (s.scanCursor + ahead s b) % slotCount = b := by
      rw [ahead, hcount]
      rw [hcount] at hcursor hb
      omega
    simp [hslot, hready]

/-- A yield moves the scan behind the thread it selects, which is then current. -/
lemma Scheduled.yield_selected (h : Scheduled s) :
    ∃ next < slotCount, selected s = some next ∧ (schedulerYield s).current = next ∧
      (schedulerYield s).scanCursor = (next + 1) % slotCount := by
  obtain ⟨slot, hslot, hstate⟩ := h.exists_ready
  obtain ⟨next, hlt, -, heq⟩ :=
    nextRunnable_of_ready (s := { s with slots := park s }) hslot hstate
  have hselected : selected s = some next := by rw [selected_eq, heq]
  refine ⟨next, hlt, hselected, ?_, ?_⟩
  · rw [schedulerYield_eq heq]
    split_ifs with hself
    · exact hself.symm
    · rfl
  · rw [schedulerYield_eq heq]
    split_ifs <;> rfl

/-- Only a yield moves the scan. -/
lemma step_scanCursor {i : Step} (hi : i ≠ .yield) : (step s i).2.scanCursor = s.scanCursor := by
  cases i with
  | create entry argument =>
    rw [step]
    split_ifs
    · rfl
    · rw [schedulerCreateKernelThread]
      split_ifs
      · rfl
      · split <;> rfl
  | yield => exact absurd rfl hi
  | exit =>
    rw [step]
    split_ifs <;> rfl

/-! ### Waiting -/

/-- A ready thread is not current, so parking leaves it alone. -/
lemma Scheduled.park_of_ready (h : Scheduled s) (hready : (s.slots b).state = .ready) :
    b ≠ s.current ∧ (park s b).state = .ready := by
  have hne : b ≠ s.current := by
    rintro rfl
    rcases h.current_state with hrunning | hexited
    · simp [hrunning] at hready
    · rw [State.exited] at hexited
      simp [hexited] at hready
  exact ⟨hne, by rw [park_of_ne hne]; exact hready⟩

/-- The scan comes to the thread `b` before it comes to `a`. -/
def Waits (s : State) (b a : ℕ) : Prop := ahead s b < ahead s a

/-- A thread that has been selected is behind all others. -/
lemma Scheduled.waits_of_selected (h : Scheduled s) (hselected : selected s = some a)
    (hb : b < slotCount) (hne : b ≠ a) : Waits (schedulerYield s) b a := by
  obtain ⟨next, hnext, hselected', -, hcursor⟩ := h.yield_selected
  obtain rfl := Option.some.inj (hselected.symm.trans hselected')
  have hcount : slotCount = 17 := rfl
  rw [Waits, ahead, ahead, hcursor, hcount]
  rw [hcount] at hb hnext
  omega

/-- **One step.**  While `b` stays ready, whatever it waits before stays behind it. -/
lemma Waits.step (h : Waits s b a) (hs : Scheduled s) (hb : b < slotCount)
    {i : Step} (hready : (s.slots b).state = .ready)
    (hready' : ((Scheduler.step s i).2.slots b).state = .ready) :
    Waits (Scheduler.step s i).2 b a := by
  by_cases hi : i = .yield
  · subst hi
    obtain ⟨next, hnext, hselected, hcurrent, hcursor⟩ := hs.yield_selected
    have hle := selected_ahead_le hs hselected hb (hs.park_of_ready hready).2
    -- What is selected runs, so it is not `b`.
    have hne : b ≠ next := by
      rw [← hcurrent]
      exact ((hs.step .yield).park_of_ready hready').1
    have hlt := hs.cursor_lt
    have hcount : slotCount = 17 := rfl
    change Waits (schedulerYield s) b a
    simp only [Waits, ahead, hcursor, hcount] at h hle hnext hb hlt ⊢
    omega
  · rw [Waits, ahead, ahead, step_scanCursor hi]
    exact h

/-- **Whole runs.** -/
lemma Waits.run {js : List Step} (h : Waits s b a) (hs : Scheduled s) (hb : b < slotCount)
    (hready : ∀ ks, ks <+: js → ((Runs.final Scheduler.step s ks).slots b).state = .ready) :
    Waits (Runs.final Scheduler.step s js) b a := by
  induction js generalizing s with
  | nil => exact h
  | cons i js ih =>
    have hnow := hready [] List.nil_prefix
    have hnext := hready [i] (by simp)
    exact ih (h.step hs hb hnow hnext) (hs.step i) fun ks hks =>
      hready (i :: ks) (by simpa using hks)

/-- **Round robin without overtaking.**  A thread that a yield selects is not selected again,
whatever threads yield, exit and are created in between, while another stays ready from the
first yield on. -/
theorem no_overtaking (is js : List Step) (a b : ℕ) (hb : b < slotCount)
    (hselected : selected (after is) = some a)
    (hready : ∀ ks, ks <+: js → ((after (is ++ .yield :: ks)).slots b).state = .ready) :
    selected (after (is ++ .yield :: js)) ≠ some a := by
  have hs := scheduled_after is
  have hsplit (ks : List Step) : after (is ++ .yield :: ks) =
      Runs.final step (schedulerYield (after is)) ks :=
    Runs.final_append ..
  simp only [hsplit] at hready ⊢
  have hyield : Scheduled (schedulerYield (after is)) := hs.step .yield
  obtain ⟨next, -, hselected', hcurrent, -⟩ := hs.yield_selected
  obtain rfl := Option.some.inj (hselected.symm.trans hselected')
  have hne : b ≠ a := by
    rw [← hcurrent]
    exact (hyield.park_of_ready (hready [] List.nil_prefix)).1
  have hwaits := (hs.waits_of_selected hselected hb hne).run hyield hb hready
  have hlast := Runs.final_induction step (fun _ i h => h.step i) hyield js
  intro hagain
  have hle := selected_ahead_le hlast hagain hb
    (hlast.park_of_ready (hready js List.prefix_rfl)).2
  exact absurd hle (not_le.mpr hwaits)

/-- A worker is selected; the bootstrap thread waits. -/
theorem no_overtaking_worker : selected (after [.create 1 0, .yield]) ≠ some 1 := by
  refine no_overtaking [.create 1 0] [] 1 0 (by decide) (by decide) fun ks hks => ?_
  rw [List.prefix_nil.mp hks]
  decide

end JoshOS.Scheduler
