import Mathlib.Tactic
import JoshOS.Scheduler.Model

/-!
Safety of the scheduler's state machine.

* `Effect`: everything that one step can do to the threads.
* `Scheduled`: the current thread is the only one that runs, the scan goes on
  after it, and the bootstrap thread is ready or runs.
* `Numbered`: ids increase and name one thread each, as long as `next_id` has
  not wrapped.
* `scheduler_safe`: what holds after every run.
* `scheduler_ids_wrap`: a thread with the id of the bootstrap thread, after
  `2 ^ 64 - 1` others.
-/

namespace JoshOS.Scheduler

open Scheduler Runs Function List

/-- The thread may be selected or runs. -/
def Thread.Live (t : Thread) : Prop := t.state = .ready ∨ t.state = .running

lemma Thread.Live.used {t : Thread} (h : t.Live) : t.state ≠ .unused := by
  cases h with
  | inl hready => simp [hready]
  | inr hrunning => simp [hrunning]

variable {s : State}

/-! ### The selection of a thread -/

/-- `next_runnable` returns a ready thread, if there is one in the slots, and
moves the cursor behind it. -/
lemma nextRunnable_of_ready {slot : ℕ} (hslot : slot < slotCount)
    (hready : (s.slots slot).state = .ready) :
    ∃ next < slotCount, (s.slots next).state = .ready ∧
      nextRunnable s = (some next, { s with scanCursor := (next + 1) % slotCount }) := by
  have hfound : ∃ offset < slotCount, (s.scanCursor + offset) % slotCount = slot := by
    have hcount : slotCount = 17 := rfl
    rw [hcount] at hslot ⊢
    exact ⟨(slot + (17 - s.scanCursor % 17)) % 17, Nat.mod_lt _ (by omega), by omega⟩
  obtain ⟨offset, hoffset, heq⟩ := hfound
  rw [nextRunnable]
  cases hfind : (range slotCount).find? fun offset =>
      decide ((s.slots ((s.scanCursor + offset) % slotCount)).state = .ready) with
  | none =>
    have hnone := find?_eq_none.1 hfind offset (mem_range.2 hoffset)
    exact absurd (by simpa [heq] using hready) hnone
  | some offset =>
    have hstate := find?_some hfind
    exact ⟨_, Nat.mod_lt _ (by decide), by simpa using hstate, rfl⟩

/-- A ready thread at the cursor is taken. -/
lemma nextRunnable_of_cursor (hlt : s.scanCursor < slotCount)
    (hready : (s.slots s.scanCursor).state = .ready) :
    nextRunnable s =
      (some s.scanCursor, { s with scanCursor := (s.scanCursor + 1) % slotCount }) := by
  have hrange : range slotCount = 0 :: (range 16).map (· + 1) := by decide
  rw [nextRunnable, hrange, find?_cons_of_pos]
  · simp [Nat.mod_eq_of_lt hlt]
  · simpa [Nat.mod_eq_of_lt hlt] using hready

/-! ### What a step can do -/

/-- The slots after the current thread, if it runs, is made ready again. -/
def park (s : State) : ℕ → Thread :=
  if (s.slots s.current).state = .running then
    Function.update s.slots s.current { s.slots s.current with state := .ready }
  else s.slots

/-- What a step does to the threads. -/
inductive Effect (s : State) : Option UInt64 → State → Prop
  /-- Nothing. -/
  | keep : Effect s none s
  /-- A running thread takes a slot that is free. -/
  | create (i : ℕ) (entry argument : UInt64) (hlive : ¬ s.exited) (hi : i < schedulerMaxThreads)
      (hfree : (s.slots (i + 1)).state = .unused ∨ (s.slots (i + 1)).state = .dead) :
      Effect s (some s.nextId) { s with
        slots := Function.update s.slots (i + 1) ⟨s.nextId, .ready, 0, entry, argument⟩
        nextId := s.nextId + 1 }
  /-- The current thread goes on. -/
  | resume : Effect s none { s with scanCursor := (s.current + 1) % slotCount }
  /-- Another thread, which was ready, runs. -/
  | switch (next : ℕ) (hlt : next < slotCount) (hne : next ≠ s.current)
      (hready : (s.slots next).state = .ready) :
      Effect s none { s with
        slots := Function.update (park s) next
          { s.slots next with state := .running, switches := (s.slots next).switches + 1 }
        current := next
        scanCursor := (next + 1) % slotCount }
  /-- The current thread exits. -/
  | exit (hrunning : (s.slots s.current).state = .running) (hne : s.current ≠ 0) :
      Effect s none (setState s s.current .dead)

/-- The current thread is the only one that runs, unless it has exited, the scan
goes on after it, and the bootstrap thread is ready or runs. -/
structure Scheduled (s : State) : Prop where
  current_lt : s.current < slotCount
  current_state : (s.slots s.current).state = .running ∨ s.exited
  running_eq : ∀ slot, (s.slots slot).state = .running → slot = s.current
  cursor_eq : s.scanCursor = (s.current + 1) % slotCount
  bootstrap : (s.slots 0).Live

/-- The bootstrap thread is ready while another is current. -/
lemma Scheduled.bootstrap_ready (h : Scheduled s) (hne : s.current ≠ 0) :
    (s.slots 0).state = .ready :=
  h.bootstrap.resolve_right fun hrunning => hne (h.running_eq 0 hrunning).symm

lemma Scheduled.current_ne_zero (h : Scheduled s) (hexited : s.exited) : s.current ≠ 0 := by
  intro hzero
  have hlive := h.bootstrap
  rw [State.exited, hzero] at hexited
  simp [Thread.Live, hexited] at hlive

lemma park_of_running (h : (s.slots s.current).state = .running) :
    park s = update s.slots s.current { s.slots s.current with state := .ready } :=
  if_pos h

lemma park_of_exited (h : s.exited) : park s = s.slots :=
  if_neg (by rw [State.exited] at h; simp [h])

lemma park_of_ne {slot : ℕ} (h : slot ≠ s.current) : park s slot = s.slots slot := by
  rw [park]
  split_ifs
  · exact update_of_ne h _ _
  · rfl

lemma park_id (s : State) (slot : ℕ) : (park s slot).id = (s.slots slot).id := by
  by_cases heq : slot = s.current
  · rw [park, heq]
    split_ifs <;> simp
  · rw [park_of_ne heq]

/-- A parked thread is as live as before. -/
lemma park_live_iff {slot : ℕ} : (park s slot).Live ↔ (s.slots slot).Live := by
  by_cases heq : slot = s.current
  · rw [park, heq]
    split_ifs with hrunning <;> simp [Thread.Live, hrunning]
  · rw [park_of_ne heq]

/-- No thread runs once the current one is parked. -/
lemma Scheduled.park_ne_running (h : Scheduled s) (slot : ℕ) :
    (park s slot).state ≠ .running := by
  by_cases heq : slot = s.current
  · rw [park, heq]
    split_ifs with hrunning <;> simp [hrunning]
  · rw [park_of_ne heq]
    exact fun hrunning => heq (h.running_eq slot hrunning)

/-- `scheduler_yield` parks the current thread before it looks for the next. -/
lemma schedulerYield_eq {next cursor : ℕ}
    (hnext : nextRunnable { s with slots := park s } =
      (some next, { s with slots := park s, scanCursor := cursor })) :
    schedulerYield s =
      if next = s.current then
        setState { s with slots := park s, scanCursor := cursor } s.current .running
      else { s with
        slots := update (park s) next
          { s.slots next with state := .running, switches := (s.slots next).switches + 1 }
        current := next
        scanCursor := cursor } := by
  have hpark : (if (s.slots s.current).state = .running then setState s s.current .ready else s) =
      { s with slots := park s } := by
    rw [park]
    split_ifs <;> rfl
  simp only [schedulerYield, hpark, hnext]
  split_ifs with hself
  · rfl
  · simp only [park_of_ne hself]

/-- Once the current thread is parked, there is a ready one. -/
lemma Scheduled.exists_ready (h : Scheduled s) :
    ∃ slot < slotCount, (park s slot).state = .ready := by
  rcases h.current_state with hrunning | hexited
  · exact ⟨s.current, h.current_lt, by rw [park_of_running hrunning, update_self]⟩
  · have hne := h.current_ne_zero hexited
    exact ⟨0, by decide, by rw [park_of_exited hexited]; exact h.bootstrap_ready hne⟩

/-- A yield resumes the current thread or switches to a ready one. -/
lemma Scheduled.yield (h : Scheduled s) : Effect s none (schedulerYield s) := by
  obtain ⟨slot, hslot, hstate⟩ := h.exists_ready
  obtain ⟨next, hlt, hnext, heq⟩ :=
    nextRunnable_of_ready (s := { s with slots := park s }) hslot hstate
  rw [schedulerYield_eq heq]
  dsimp only at hnext
  split_ifs with hself
  · subst hself
    have hrunning : (s.slots s.current).state = .running := by
      refine h.current_state.resolve_right fun hexited => ?_
      rw [park_of_exited hexited, hexited] at hnext
      exact absurd hnext (by decide)
    have hslots : update (park s) s.current
        { park s s.current with state := .running } = s.slots := by
      rw [park_of_running hrunning, update_self, update_idem, ← hrunning]
      exact update_eq_self _ _
    rw [setState, hslots]
    exact .resume
  · rw [park_of_ne hself] at hnext
    exact .switch next hlt hself hnext

/-- **What a step can do.** -/
lemma Scheduled.effect (h : Scheduled s) (i : Step) : Effect s (step s i).1 (step s i).2 := by
  cases i with
  | create entry argument =>
    rw [step]
    split_ifs with hexited
    · exact .keep
    rw [schedulerCreateKernelThread]
    split_ifs
    · exact .keep
    cases hfind : (range schedulerMaxThreads).find? fun i =>
        decide ((s.slots (i + 1)).state = .unused ∨ (s.slots (i + 1)).state = .dead) with
    | none => exact .keep
    | some i =>
      have hi := mem_range.1 (mem_of_find?_eq_some hfind)
      exact .create i entry argument hexited hi (by simpa using find?_some hfind)
  | yield => exact h.yield
  | exit =>
    rw [step]
    split_ifs with hno
    · exact .keep
    · push Not at hno
      exact .exit (h.current_state.resolve_right hno.1) hno.2

/-! ### The current thread -/

lemma scheduled_init : Scheduled schedulerInit where
  current_lt := by decide
  current_state := .inl rfl
  running_eq slot h := by
    by_contra hne
    have hzero : slot ≠ 0 := hne
    simp [schedulerInit, hzero] at h
  cursor_eq := rfl
  bootstrap := .inr rfl

/-- A step keeps the current thread the only one that runs. -/
lemma Scheduled.step (h : Scheduled s) (i : Step) : Scheduled (step s i).2 := by
  have heffect := h.effect i
  generalize Scheduler.step s i = r at heffect
  obtain ⟨answer, s'⟩ := r
  dsimp only at heffect ⊢
  cases heffect with
  | keep => exact h
  | create i entry argument hlive hi hfree =>
    have hrunning := h.current_state.resolve_right hlive
    have hne : s.current ≠ i + 1 := by
      intro heq
      rw [← heq, hrunning] at hfree
      simp at hfree
    refine ⟨h.current_lt, .inl ?_, ?_, h.cursor_eq, ?_⟩
    · simpa [update_of_ne hne] using hrunning
    · intro slot hslot
      by_cases heq : slot = i + 1
      · simp [heq] at hslot
      · exact h.running_eq slot (by simpa [update_of_ne heq] using hslot)
    · simpa using h.bootstrap
  | resume => exact ⟨h.current_lt, h.current_state, h.running_eq, rfl, h.bootstrap⟩
  | switch next hlt hne hready =>
    refine ⟨hlt, .inl (by simp), ?_, rfl, ?_⟩
    · intro slot hslot
      by_contra hother
      have hsame : slot ≠ next := hother
      exact h.park_ne_running slot (by simpa [update_of_ne hsame] using hslot)
    · by_cases hzero : 0 = next
      · exact .inr (by simp [hzero])
      · simpa [update_of_ne hzero] using park_live_iff.2 h.bootstrap
  | exit hrunning hne =>
    refine ⟨h.current_lt, .inr (by simp [State.exited, setState]), ?_, h.cursor_eq, ?_⟩
    · intro slot hslot
      by_contra hother
      have hsame : slot ≠ s.current := hother
      exact hother (h.running_eq slot (by
        simpa [setState, update_of_ne hsame] using hslot))
    · simpa [setState, update_of_ne hne.symm] using h.bootstrap

lemma scheduled_after (is : List Step) : Scheduled (after is) :=
  final_induction step (fun _ i h => h.step i) scheduled_init is

/-! ### Ids and the threads they name -/

/-- The slot holds the thread it held, which is live only if it was, and is as
it was if it was dead. -/
structure SameThread (t t' : Thread) : Prop where
  id_eq : t'.id = t.id
  unused_iff : t'.state = .unused ↔ t.state = .unused
  live : t'.Live → t.Live
  dead : t.state = .dead → t' = t

lemma SameThread.refl (t : Thread) : SameThread t t := ⟨rfl, Iff.rfl, id, fun _ => rfl⟩

lemma sameThread_park (s : State) (slot : ℕ) : SameThread (s.slots slot) (park s slot) := by
  refine ⟨park_id s slot, ?_, park_live_iff.1, ?_⟩
  all_goals
    by_cases heq : slot = s.current
    · rw [park, heq]
      split_ifs with hrunning <;> simp [hrunning]
    · simp [park_of_ne heq]

/-- Every slot holds the thread it held, or the step is a creation that puts a
thread with the next id into a slot that was unused or dead. -/
lemma Effect.threads {answer : Option UInt64} {s' : State} (h : Effect s answer s') :
    (answer = none ∧ s'.nextId = s.nextId ∧ ∀ slot, SameThread (s.slots slot) (s'.slots slot)) ∨
      ∃ i entry argument, i < schedulerMaxThreads ∧ answer = some s.nextId ∧
        s'.nextId = s.nextId + 1 ∧
        s'.slots = update s.slots (i + 1) ⟨s.nextId, .ready, 0, entry, argument⟩ := by
  cases h with
  | keep => exact .inl ⟨rfl, rfl, fun slot => .refl _⟩
  | create i entry argument hlive hi hfree =>
    exact .inr ⟨i, entry, argument, hi, rfl, rfl, rfl⟩
  | resume => exact .inl ⟨rfl, rfl, fun slot => .refl _⟩
  | switch next hlt hne hready =>
    refine .inl ⟨rfl, rfl, fun slot => ?_⟩
    by_cases heq : slot = next
    · subst heq
      simp only [update_self]
      exact ⟨rfl, by simp [hready], fun _ => .inl hready, by simp [hready]⟩
    · simp only [update_of_ne heq]
      exact sameThread_park s slot
  | exit hrunning hne =>
    refine .inl ⟨rfl, rfl, fun slot => ?_⟩
    by_cases heq : slot = s.current
    · subst heq
      simp only [setState, update_self]
      exact ⟨rfl, by simp [hrunning], fun _ => .inr hrunning, by simp [hrunning]⟩
    · simp only [setState, update_of_ne heq]
      exact .refl _

/-- The ids given are increasing, and each names at most one thread. -/
structure Numbered (s : State) (ids : List UInt64) : Prop where
  nextId_eq : s.nextId.toNat = (ids.length + 2) % 2 ^ 64
  increasing : (schedulerBootstrapId :: ids).Pairwise (· < ·)
  id_lt : ∀ id ∈ schedulerBootstrapId :: ids, id.toNat < ids.length + 2
  used_mem : ∀ slot, (s.slots slot).state ≠ .unused →
    (s.slots slot).id ∈ schedulerBootstrapId :: ids
  distinct : ∀ a b, (s.slots a).state ≠ .unused → (s.slots b).state ≠ .unused →
    (s.slots a).id = (s.slots b).id → a = b

lemma numbered_init : Numbered schedulerInit [] where
  nextId_eq := by simp [schedulerInit, schedulerBootstrapId]
  increasing := pairwise_singleton _ _
  id_lt id hmem := by
    rw [mem_singleton.1 hmem]
    exact Nat.one_lt_two
  used_mem slot h := by
    by_cases hzero : slot = 0
    · simp [schedulerInit, hzero]
    · simp [schedulerInit, hzero] at h
  distinct a b ha hb _ := by
    have hzero : ∀ slot, (schedulerInit.slots slot).state ≠ .unused → slot = 0 := by
      intro slot h
      by_contra hne
      simp [schedulerInit, hne] at h
    rw [hzero a ha, hzero b hb]

variable {ids : List UInt64}

lemma Numbered.same (h : Numbered s ids) {s' : State} (hnext : s'.nextId = s.nextId)
    (hslots : ∀ slot, SameThread (s.slots slot) (s'.slots slot)) : Numbered s' ids where
  nextId_eq := hnext ▸ h.nextId_eq
  increasing := h.increasing
  id_lt := h.id_lt
  used_mem slot hused := by
    rw [(hslots slot).id_eq]
    exact h.used_mem slot fun hunused => hused ((hslots slot).unused_iff.2 hunused)
  distinct a b ha hb heq := by
    rw [(hslots a).id_eq, (hslots b).id_eq] at heq
    exact h.distinct a b (fun hunused => ha ((hslots a).unused_iff.2 hunused))
      (fun hunused => hb ((hslots b).unused_iff.2 hunused)) heq

/-- Below the limit, the next id is larger than all before. -/
lemma Numbered.lt_nextId (h : Numbered s ids) (hlimit : ids.length < 2 ^ 64 - 2) {id : UInt64}
    (hid : id ∈ schedulerBootstrapId :: ids) : id < s.nextId := by
  have hlt := h.id_lt id hid
  rw [UInt64.lt_iff_toNat_lt, h.nextId_eq, Nat.mod_eq_of_lt (by omega)]
  exact hlt

lemma Numbered.create (h : Numbered s ids) (hlimit : ids.length < 2 ^ 64 - 2) {s' : State}
    {i : ℕ} {t : Thread} (hid : t.id = s.nextId) (hnext : s'.nextId = s.nextId + 1)
    (hslots : s'.slots = update s.slots (i + 1) t) :
    Numbered s' (ids ++ [s.nextId]) where
  nextId_eq := by
    rw [hnext, UInt64.toNat_add, h.nextId_eq, length_append, length_singleton]
    simp only [UInt64.toNat_one, Nat.mod_add_mod]
  increasing := by
    rw [← cons_append, pairwise_append]
    refine ⟨h.increasing, pairwise_singleton _ _, fun a ha b hb => ?_⟩
    rw [mem_singleton.1 hb]
    exact h.lt_nextId hlimit ha
  id_lt id hmem := by
    rw [← cons_append, mem_append, mem_singleton] at hmem
    rw [length_append, length_singleton]
    cases hmem with
    | inl hmem => exact (h.id_lt id hmem).trans (by omega)
    | inr heq => rw [heq, h.nextId_eq, Nat.mod_eq_of_lt (by omega)]; omega
  used_mem slot hused := by
    rw [hslots] at hused ⊢
    rw [← cons_append]
    by_cases heq : slot = i + 1
    · simp [heq, hid]
    · rw [update_of_ne heq] at hused ⊢
      exact mem_append_left _ (h.used_mem slot hused)
  distinct a b ha hb heq := by
    have hfresh : ∀ slot, (s.slots slot).state ≠ .unused → (s.slots slot).id ≠ t.id := by
      intro slot hused hsame
      have hlt := h.lt_nextId hlimit (h.used_mem slot hused)
      rw [hsame, hid] at hlt
      exact UInt64.lt_irrefl _ hlt
    rw [hslots] at ha hb heq
    by_cases hai : a = i + 1 <;> by_cases hbi : b = i + 1
    · rw [hai, hbi]
    · rw [update_of_ne hbi] at hb heq
      rw [hai, update_self] at heq
      exact absurd heq.symm (hfresh b hb)
    · rw [update_of_ne hai] at ha heq
      rw [hbi, update_self] at heq
      exact absurd heq (hfresh a ha)
    · rw [update_of_ne hai] at ha heq
      rw [update_of_ne hbi] at hb heq
      exact h.distinct a b ha hb heq

/-- No live thread has this id. -/
def Retired (s : State) (id : UInt64) : Prop :=
  ∀ slot, (s.slots slot).id = id → ¬ (s.slots slot).Live

/-- **A step keeps the numbering, and the threads that have retired.** -/
lemma Numbered.step (h : Numbered s ids) (hs : Scheduled s) (i : Step)
    (hlimit : (noteId ids (i, (step s i).1)).length ≤ 2 ^ 64 - 2) :
    Numbered (step s i).2 (noteId ids (i, (step s i).1)) ∧
      ∀ id ∈ schedulerBootstrapId :: ids, Retired s id → Retired (step s i).2 id := by
  have hthreads := (hs.effect i).threads
  generalize Scheduler.step s i = r at hthreads hlimit
  obtain ⟨answer, s'⟩ := r
  rcases hthreads with ⟨rfl, hnext, hslots⟩ | ⟨k, entry, argument, hk, rfl, hnext, hslots⟩
  · refine ⟨by simpa [noteId] using h.same hnext hslots, fun id _ hretired slot heq hlive => ?_⟩
    rw [(hslots slot).id_eq] at heq
    exact hretired slot heq ((hslots slot).live hlive)
  · have hroom : ids.length < 2 ^ 64 - 2 := by simpa [noteId] using hlimit
    refine ⟨h.create hroom rfl hnext hslots, fun id hid hretired slot heq => ?_⟩
    have hlt := h.lt_nextId hroom hid
    dsimp only at heq ⊢
    rw [hslots] at heq ⊢
    by_cases hslot : slot = k + 1
    · rw [hslot, update_self] at heq
      exact absurd heq.symm (UInt64.ne_of_lt hlt)
    · rw [update_of_ne hslot] at heq ⊢
      exact hretired slot heq

/-! ### Whole runs -/

/-- While `next_id` has not wrapped, the threads are numbered and these ids are
retired for good. -/
def Kept (retired : List UInt64) (s : State) (ids : List UInt64) : Prop :=
  Scheduled s ∧ (ids.length ≤ 2 ^ 64 - 2 → Numbered s ids ∧
    ∀ id ∈ retired, id ∈ schedulerBootstrapId :: ids ∧ Retired s id)

lemma Kept.step {retired : List UInt64} (h : Kept retired s ids) (i : Step) :
    Kept retired (step s i).2 (noteId ids (i, (step s i).1)) := by
  refine ⟨h.1.step i, fun hlimit => ?_⟩
  have hle : ids.length ≤ (noteId ids (i, (Scheduler.step s i).1)).length := by
    simp [noteId]
  obtain ⟨hnumbered, hretired⟩ := h.2 (hle.trans hlimit)
  obtain ⟨hnumbered', hkeep⟩ := hnumbered.step h.1 i hlimit
  refine ⟨hnumbered', fun id hid => ⟨?_, hkeep id (hretired id hid).1 (hretired id hid).2⟩⟩
  rw [noteId, ← cons_append]
  exact mem_append_left _ (hretired id hid).1

lemma Kept.run {retired : List UInt64} (h : Kept retired s ids) (js : List Step) :
    Kept retired (final Scheduler.step s js)
      ((trace Scheduler.step s js).foldl noteId ids) :=
  ghost_induction Scheduler.step (fun _ _ i h => h.step i) h js

lemma numbered_after {is : List Step} (hlimit : (created is).length ≤ 2 ^ 64 - 2) :
    Numbered (after is) (created is) := by
  have hinit : Kept [] schedulerInit [] :=
    ⟨scheduled_init, fun _ => ⟨numbered_init, by simp⟩⟩
  exact ((hinit.run is).2 hlimit).1

/-- The id of a dead thread is not that of a live one in any later state. -/
lemma Numbered.retired_of_dead (h : Numbered s ids) {slot : ℕ}
    (hdead : (s.slots slot).state = .dead) : Retired s (s.slots slot).id := by
  intro other heq hlive
  obtain rfl := h.distinct other slot hlive.used (by simp [hdead]) heq
  simp [Thread.Live, hdead] at hlive

/-- A thread that is dead after a run is not live after any longer one. -/
lemma retired_append {is js : List Step} {slot : ℕ}
    (hdead : ((after is).slots slot).state = .dead)
    (hlimit : (created (is ++ js)).length ≤ 2 ^ 64 - 2) :
    Retired (after (is ++ js)) ((after is).slots slot).id := by
  have hcreated : created (is ++ js) =
      (trace step (after is) js).foldl noteId (created is) := by
    simp [created, trace_append, after]
  have hafter : after (is ++ js) = final step (after is) js :=
    final_append step schedulerInit is js
  have hstart : Kept [((after is).slots slot).id] (after is) (created is) := by
    refine ⟨scheduled_after is, fun hle => ?_⟩
    have hnumbered := numbered_after hle
    refine ⟨hnumbered, fun id hid => ?_⟩
    rw [mem_singleton.1 hid]
    exact ⟨hnumbered.used_mem slot (by simp [hdead]), hnumbered.retired_of_dead hdead⟩
  have hkept := hstart.run js
  rw [← hcreated, ← hafter] at hkept
  exact ((hkept.2 hlimit).2 _ (mem_singleton_self _)).2

/-- **Safety of the scheduler.**  After any run from `scheduler_init` on:
* while control is in a thread that has not exited, it is the only one that
  runs, and the scan goes on after its slot;
* a thread that has exited finds a ready thread to yield to;
* a dead thread stays as it is until a creation takes its slot.

As long as at most `2 ^ 64 - 2` threads have been created, the ids given
increase, starting above that of the bootstrap thread, live threads have
different ids, and the id of a dead thread is never again that of a live one. -/
theorem scheduler_safe (is : List Step) :
    (¬ (after is).exited →
      (∀ slot < slotCount, ((after is).slots slot).state = .running ↔ slot = (after is).current) ∧
        (after is).scanCursor = ((after is).current + 1) % slotCount) ∧
    ((after is).exited → ∃ next, (nextRunnable (after is)).1 = some next ∧
      ((after is).slots next).state = .ready) ∧
    (∀ slot, ((after is).slots slot).state = .dead → ∀ i,
      (step (after is) i).2.slots slot = (after is).slots slot ∨
        ∃ entry argument, (step (after is) i).1 = some (after is).nextId ∧
          (step (after is) i).2.slots slot =
            ⟨(after is).nextId, .ready, 0, entry, argument⟩) ∧
    ((created is).length ≤ 2 ^ 64 - 2 →
      (schedulerBootstrapId :: created is).Pairwise (· < ·) ∧
      (∀ a b, ((after is).slots a).Live → ((after is).slots b).Live →
        ((after is).slots a).id = ((after is).slots b).id → a = b) ∧
      ∀ slot, ((after is).slots slot).state = .dead → ∀ js,
        (created (is ++ js)).length ≤ 2 ^ 64 - 2 →
          Retired (after (is ++ js)) ((after is).slots slot).id) := by
  have h := scheduled_after is
  refine ⟨fun hlive => ⟨fun slot _ => ⟨h.running_eq slot, ?_⟩, h.cursor_eq⟩, ?_, ?_, ?_⟩
  · rintro rfl
    exact h.current_state.resolve_right hlive
  · intro hexited
    obtain ⟨next, -, hready, heq⟩ := nextRunnable_of_ready (show 0 < slotCount by decide)
      (h.bootstrap_ready (h.current_ne_zero hexited))
    exact ⟨next, by rw [heq], hready⟩
  · intro slot hdead i
    rcases (h.effect i).threads with ⟨-, -, hslots⟩ | ⟨k, entry, argument, -, hanswer, -, hslots⟩
    · exact .inl ((hslots slot).dead hdead)
    · rw [hslots]
      by_cases hslot : slot = k + 1
      · exact .inr ⟨entry, argument, hanswer, by rw [hslot, Function.update_self]⟩
      · exact .inl (Function.update_of_ne hslot _ _)
  · intro hlimit
    have hnumbered := numbered_after hlimit
    refine ⟨hnumbered.increasing, fun a b ha hb heq => ?_, fun slot hdead js hjs =>
      retired_append hdead hjs⟩
    exact hnumbered.distinct a b ha.used hb.used heq

/-! ### The wrap of `next_id` -/

lemma schedulerCreateKernelThread_of_free {entry argument : UInt64} (hentry : entry ≠ 0)
    (hfree : (s.slots 1).state = .unused ∨ (s.slots 1).state = .dead) :
    schedulerCreateKernelThread s entry argument =
      (some s.nextId, { s with
        slots := update s.slots 1 ⟨s.nextId, .ready, 0, entry, argument⟩
        nextId := s.nextId + 1 }) := by
  have hrange : range schedulerMaxThreads = 0 :: (range 15).map (· + 1) := by decide
  rw [schedulerCreateKernelThread, if_neg hentry, hrange, find?_cons_of_pos]
  simpa using hfree

/-- The bootstrap thread creates a thread, which exits at once. -/
def brief : List Step := [.create 1 0, .yield, .exit, .yield]

/-- `k` threads have been created, all in the first slot; the states of the
bootstrap thread and of the last of them are given. -/
structure Phase (s : State) (k current : ℕ) (bootstrap first : ThreadState) : Prop where
  current_eq : s.current = current
  cursor_eq : s.scanCursor = current + 1
  nextId_eq : s.nextId = UInt64.ofNat (k + 2)
  bootstrap_id : (s.slots 0).id = schedulerBootstrapId
  bootstrap_state : (s.slots 0).state = bootstrap
  first_state : (s.slots 1).state = first
  rest : ∀ slot, 2 ≤ slot → (s.slots slot).state = .unused

variable {k : ℕ} {first : ThreadState}

lemma phase_init : Phase schedulerInit 0 0 .running .unused := by
  refine ⟨rfl, rfl, by decide, rfl, rfl, rfl, fun slot hslot => ?_⟩
  have hne : slot ≠ 0 := by omega
  simp [schedulerInit, hne]

lemma Phase.create (h : Phase s k 0 .running first) (hfree : first = .unused ∨ first = .dead) :
    step s (.create 1 0) = (some s.nextId, { s with
      slots := update s.slots 1 ⟨s.nextId, .ready, 0, 1, 0⟩
      nextId := s.nextId + 1 }) := by
  have hlive : ¬ s.exited := by simp [State.exited, h.current_eq, h.bootstrap_state]
  rw [step, if_neg hlive, schedulerCreateKernelThread_of_free (by decide)]
  rwa [h.first_state]

/-- The first slot is free, so the new thread takes it. -/
lemma Phase.spawn (h : Phase s k 0 .running first) (hfree : first = .unused ∨ first = .dead) :
    Phase (step s (.create 1 0)).2 (k + 1) 0 .running .ready := by
  rw [h.create hfree]
  refine ⟨h.current_eq, h.cursor_eq, ?_, h.bootstrap_id, h.bootstrap_state, rfl, ?_⟩
  · rw [h.nextId_eq, show k + 1 + 2 = k + 2 + 1 by omega, UInt64.ofNat_add (k + 2) 1]
    rfl
  · intro slot hslot
    have hne : slot ≠ 1 := by omega
    simpa [update_of_ne hne] using h.rest slot hslot

/-- The new thread is next in the scan. -/
lemma Phase.enter (h : Phase s k 0 .running .ready) :
    Phase (step s .yield).2 k 1 .ready .running := by
  have hpark : park s = update s.slots 0 { s.slots 0 with state := .ready } := by
    rw [park_of_running (by rw [h.current_eq, h.bootstrap_state]), h.current_eq]
  have hnext := nextRunnable_of_cursor (s := { s with slots := park s })
    (by rw [h.cursor_eq]; decide) (by simp [h.cursor_eq, hpark, h.first_state])
  rw [step, schedulerYield_eq hnext, if_neg (by simp [h.cursor_eq, h.current_eq])]
  refine ⟨h.cursor_eq, by simp [h.cursor_eq, slotCount, schedulerMaxThreads], h.nextId_eq, ?_, ?_,
    ?_, ?_⟩
  · simp [h.cursor_eq, hpark, h.bootstrap_id]
  · simp [h.cursor_eq, hpark]
  · simp [h.cursor_eq]
  · intro slot hslot
    have hne : slot ≠ 1 := by omega
    have hne' : slot ≠ 0 := by omega
    simpa [h.cursor_eq, hpark, update_of_ne hne, update_of_ne hne'] using
      h.rest slot hslot

lemma Phase.exit (h : Phase s k 1 .ready .running) :
    Phase (step s .exit).2 k 1 .ready .dead := by
  have hlive : ¬ (s.exited ∨ s.current = 0) := by
    simp [State.exited, h.current_eq, h.first_state]
  rw [step, if_neg hlive]
  refine ⟨h.current_eq, h.cursor_eq, h.nextId_eq, ?_, ?_, ?_, ?_⟩
  · simpa [setState, h.current_eq] using h.bootstrap_id
  · simpa [setState, h.current_eq] using h.bootstrap_state
  · simp [setState, h.current_eq]
  · intro slot hslot
    have hne : slot ≠ 1 := by omega
    simpa [setState, h.current_eq, update_of_ne hne] using h.rest slot hslot

/-- Only the bootstrap thread is ready. -/
lemma Phase.leave (h : Phase s k 1 .ready .dead) :
    Phase (step s .yield).2 k 0 .running .dead := by
  have hpark : park s = s.slots :=
    park_of_exited (by rw [State.exited, h.current_eq, h.first_state])
  obtain ⟨next, -, hready, hnext⟩ := nextRunnable_of_ready (s := { s with slots := park s })
    (show 0 < slotCount by decide) (by rw [hpark, h.bootstrap_state])
  obtain rfl : next = 0 := by
    by_contra hne
    rcases (by omega : next = 1 ∨ 2 ≤ next) with rfl | hge
    · simp [hpark, h.first_state] at hready
    · simp [hpark, h.rest next hge] at hready
  rw [step, schedulerYield_eq hnext, if_neg (by simp [h.current_eq])]
  refine ⟨rfl, rfl, h.nextId_eq, ?_, ?_, ?_, ?_⟩
  · simp [h.bootstrap_id]
  · simp
  · simp [hpark, h.first_state]
  · intro slot hslot
    have hne : slot ≠ 0 := by omega
    simpa [hpark, update_of_ne hne] using h.rest slot hslot

/-- Any number of threads can be created one after another. -/
lemma phase_brief (k : ℕ) :
    ∃ first, (first = .unused ∨ first = .dead) ∧
      Phase (after (replicate k brief).flatten) k 0 .running first := by
  induction k with
  | zero => exact ⟨.unused, .inl rfl, phase_init⟩
  | succ k ih =>
    obtain ⟨first, hfree, h⟩ := ih
    refine ⟨.dead, .inr rfl, ?_⟩
    rw [replicate_succ', flatten_append, flatten_singleton, after,
      final_append]
    exact (h.spawn hfree).enter.exit.leave

/-- The thread created after `n` others that have exited. -/
lemma phase_create (n : ℕ) :
    ∃ s, after ((replicate n brief).flatten ++ [.create 1 0]) = s ∧
      Phase s (n + 1) 0 .running .ready ∧ (s.slots 1).id = UInt64.ofNat (n + 2) := by
  obtain ⟨first, hfree, h⟩ := phase_brief n
  refine ⟨_, final_append _ _ _ _, h.spawn hfree, ?_⟩
  simp only [final_cons, final_nil]
  rw [← after, h.create hfree]
  exact h.nextId_eq

/-- After `2 ^ 64 - 1` short-lived threads the next one has the id of the
bootstrap thread, and both are live. -/
theorem scheduler_ids_wrap :
    ∃ s, after ((List.replicate (2 ^ 64 - 1) brief).flatten ++ [.create 1 0]) = s ∧
      (s.slots 0).Live ∧ (s.slots 1).Live ∧ (s.slots 0).id = 1 ∧ (s.slots 1).id = 1 := by
  obtain ⟨s, hs, h, hid⟩ := phase_create (2 ^ 64 - 1)
  refine ⟨s, hs, .inr h.bootstrap_state, .inl h.first_state, h.bootstrap_id, ?_⟩
  rw [hid]
  exact UInt64.toNat_inj.1 (by simp)

end JoshOS.Scheduler
