import Mathlib.Logic.Function.Basic
import JoshOS.Lib.Runs

/-!
The spin lock (`kernel/src/spinlock.h`) on any number of processors.

A call locks with `spin_lock_irqsave`, makes its accesses to what the lock protects and
unlocks with `spin_unlock_irqrestore`.  An interrupt leaves the place of the processor in its
call behind until its handler returns.  (One that arrives between `pushfq` and `cli` is one
that arrives before the call.)  Any processor may take the next step: one access to
memory, which is sequentially consistent, or one change of the interrupt flag.

* `spin_lock_excludes`: one holder at most, and no interrupt during a call.
* `spin_lock_serialises`: what the lock protects is what whole sections, one after another,
  make of it.
* `spin_lock_obtainable`: whoever waits for the lock can still get it.
-/

namespace JoshOS.SpinLock

open Function List Runs

/-- An access to what the lock protects, with its effect on the processor's registers. -/
abbrev Access (σ ρ : Type*) := σ → ρ → σ × ρ

variable {κ ι σ ρ : Type*}

/-- What a holder of the lock has still to do, and its registers. -/
structure Work (σ ρ : Type*) where
  regs : ρ
  todo : List (Access σ ρ)

/-- The rest of a section, with nobody in between. -/
def Work.finish (work : Work σ ρ) (s : σ) : σ :=
  (work.todo.foldl (fun now access => access now.1 now.2) (s, work.regs)).1

/-- The place in a call of `ι`, with the interrupt flag that `spin_lock_irqsave` saved. -/
inductive Place (ι σ ρ : Type*) where
  | idle
  /-- The outer loop of `spin_lock`: `spin_exchange` comes next. -/
  | locking (flags : Bool) (call : ι)
  /-- The inner loop of `spin_lock`, which reads until the lock looks free. -/
  | pausing (flags : Bool) (call : ι)
  | inside (flags : Bool) (work : Work σ ρ)
  /-- After `spin_unlock`, before the flag is restored. -/
  | unlocked (flags : Bool)

/-- A processor, with the places that interrupts have left, the last one first. -/
structure Cpu (ι σ ρ : Type*) where
  interrupts : Bool
  place : Place ι σ ρ := .idle
  interrupted : List (Place ι σ ρ) := []

/-- The `value` of the lock, what the lock protects, and the processors. -/
structure Machine (κ ι σ ρ : Type*) where
  value : ℕ
  shared : σ
  cpus : κ → Cpu ι σ ρ

/-- What happens on a processor: a call begins, the call goes on, other code switches
interrupts on or off, an interrupt arrives, or its handler returns. -/
inductive Event (ι : Type*) where
  | call (call : ι)
  | resume
  | setInterrupts (enabled : Bool)
  | interrupt
  | iret

variable (body : ι → Work σ ρ)

/-- `SPINLOCK_INIT`, with no call under way. -/
def start (flags : κ → Bool) (s : σ) : Machine κ ι σ ρ :=
  ⟨0, s, fun k => { interrupts := flags k }⟩

/-- The next instruction of a call. -/
def resume (value : ℕ) (s : σ) (cpu : Cpu ι σ ρ) : ℕ × σ × Cpu ι σ ρ :=
  match cpu.place with
  | .idle => (value, s, cpu)
  | .locking flags call =>
    -- the exchange stores 1 whatever it finds
    (1, s, { cpu with
      place := if value = 0 then .inside flags (body call) else .pausing flags call })
  | .pausing flags call =>
    (value, s, { cpu with
      place := if value = 0 then .locking flags call else .pausing flags call })
  | .inside flags ⟨regs, access :: todo⟩ =>
    (value, (access s regs).1, { cpu with place := .inside flags ⟨(access s regs).2, todo⟩ })
  | .inside flags ⟨_, []⟩ => (0, s, { cpu with place := .unlocked flags })
  | .unlocked flags =>
    (value, s, { cpu with interrupts := flags || cpu.interrupts, place := .idle })

/-- An event on a processor; one that cannot happen there changes nothing. -/
def act (value : ℕ) (s : σ) (cpu : Cpu ι σ ρ) : Event ι → ℕ × σ × Cpu ι σ ρ
  | .resume => resume body value s cpu
  | .call call => (value, s, match cpu.place with
    | .idle => { cpu with interrupts := false, place := .locking cpu.interrupts call }
    | _ => cpu)
  | .setInterrupts enabled => (value, s, match cpu.place with
    | .idle => { cpu with interrupts := enabled }
    | _ => cpu)
  | .interrupt => (value, s, if cpu.interrupts then
      { interrupts := false, interrupted := cpu.place :: cpu.interrupted } else cpu)
  | .iret => (value, s, match cpu.place, cpu.interrupted with
    | .idle, place :: rest => ⟨true, place, rest⟩
    | _, _ => cpu)

/-- The call to which an event gives the lock. -/
def taken (value : ℕ) (cpu : Cpu ι σ ρ) : Event ι → Option ι
  | .resume => match cpu.place with
    | .locking _ call => if value = 0 then some call else none
    | _ => none
  | _ => none

/-- An event on processor `e.1`; the answer is the call that takes the lock. -/
def step [DecidableEq κ] (m : Machine κ ι σ ρ) (e : κ × Event ι) :
    Option ι × Machine κ ι σ ρ :=
  let next := act body m.value m.shared (m.cpus e.1) e.2
  (taken m.value (m.cpus e.1) e.2, ⟨next.1, next.2.1, update m.cpus e.1 next.2.2⟩)

/-- Whole sections, one after another. -/
def serial (s : σ) (calls : List ι) : σ := calls.foldl (fun s call => (body call).finish s) s

/-! ### One event -/

/-- Interrupts are off during a call, so none is interrupted. -/
structure CpuOk (cpu : Cpu ι σ ρ) : Prop where
  off : cpu.interrupts = true → cpu.place = .idle
  under : ∀ p ∈ cpu.interrupted, p = .idle

/-- What a call that holds the lock has still to do. -/
def Place.held : Place ι σ ρ → Option (Work σ ρ)
  | .inside _ work => some work
  | _ => none

/-- Everything that an event can do to the lock, what it protects and the work of its
processor while that holds the lock. -/
inductive Turn (value : ℕ) (s : σ) :
    Option (Work σ ρ) → Option ι → ℕ × σ × Option (Work σ ρ) → Prop
  | other (held : Option (Work σ ρ)) : Turn value s held none (value, s, held)
  | enter (call : ι) (hfree : value = 0) :
      Turn value s none (some call) (1, s, some (body call))
  | access (access : Access σ ρ) (todo : List (Access σ ρ)) (regs : ρ) :
      Turn value s (some ⟨regs, access :: todo⟩) none
        (value, (access s regs).1, some ⟨(access s regs).2, todo⟩)
  | leave (regs : ρ) : Turn value s (some ⟨regs, []⟩) none (0, s, none)

/-- What an event does to its processor and to the lock. -/
lemma CpuOk.next {cpu : Cpu ι σ ρ} (h : CpuOk cpu) {value : ℕ} (hvalue : value = 0 ∨ value = 1)
    (s : σ) (event : Event ι) :
    let next := act body value s cpu event
    CpuOk next.2.2 ∧ Turn body value s cpu.place.held (taken value cpu event)
      (next.1, next.2.1, next.2.2.place.held) := by
  obtain ⟨interrupts, place, interrupted⟩ := cpu
  have hoff : place ≠ .idle → interrupts = false := fun hne =>
    Bool.eq_false_iff.mpr fun hon => hne (h.off hon)
  cases event with
  | resume =>
    rcases place with _ | ⟨flags, call⟩ | _ | ⟨flags, regs, _ | ⟨access, todo⟩⟩ | _
    case idle => exact ⟨h, .other none⟩
    case unlocked => exact ⟨⟨fun _ => rfl, h.under⟩, .other none⟩
    all_goals
      obtain rfl := hoff (by simp)
      refine ⟨⟨by simp [act, resume], h.under⟩, ?_⟩
    case locking =>
      rcases hvalue with rfl | rfl
      exacts [.enter call rfl, .other none]
    case pausing =>
      rcases hvalue with rfl | rfl
      exacts [.other none, .other none]
    case inside.nil => exact .leave regs
    case inside.cons => exact .access access todo regs
  | interrupt =>
    cases interrupts with
    | false => exact ⟨h, .other _⟩
    | true =>
      obtain rfl : place = .idle := h.off rfl
      exact ⟨⟨fun _ => rfl, List.forall_mem_cons.mpr ⟨rfl, h.under⟩⟩, .other none⟩
  | iret =>
    cases place
    case idle =>
      rcases interrupted with _ | ⟨place, rest⟩
      · exact ⟨h, .other none⟩
      · obtain ⟨rfl, hrest⟩ := List.forall_mem_cons.mp h.under
        exact ⟨⟨fun _ => rfl, hrest⟩, .other none⟩
    all_goals exact ⟨h, .other _⟩
  | call | setInterrupts =>
    cases place
    case idle => exact ⟨⟨by simp [act], h.under⟩, .other none⟩
    all_goals exact ⟨h, .other _⟩

/-! ### What the lock protects -/

variable [DecidableEq κ]

/-- The lock is free and `now` is what it protects, or one processor holds it and its section
will leave `now`. -/
def Kept (now : σ) (value : ℕ) (s : σ) (held : κ → Option (Work σ ρ)) : Prop :=
  value = 0 ∧ held = (fun _ => none) ∧ s = now ∨
    value = 1 ∧ ∃ k work, held = update (fun _ => none) k (some work) ∧ work.finish s = now

/-- The invariant of the machine. -/
structure Inv (now : σ) (m : Machine κ ι σ ρ) : Prop where
  cpu : ∀ k, CpuOk (m.cpus k)
  kept : Kept now m.value m.shared fun k => (m.cpus k).place.held

variable {now : σ} {m : Machine κ ι σ ρ}

lemma Kept.turn {value value' : ℕ} {s s' : σ} {held : κ → Option (Work σ ρ)} {k : κ}
    {call : Option ι} {work : Option (Work σ ρ)} (h : Kept now value s held)
    (hturn : Turn body value s (held k) call (value', s', work)) :
    Kept (serial body now call.toList) value' s' (update held k work) := by
  generalize hheld : held k = old at hturn
  rcases h with ⟨rfl, rfl, rfl⟩ | ⟨rfl, j, work', rfl, rfl⟩
  · subst hheld
    cases hturn with
    | other => exact .inl ⟨rfl, update_eq_self k _, rfl⟩
    | enter call => exact .inr ⟨rfl, k, body call, rfl, rfl⟩
  · rcases eq_or_ne k j with rfl | hne
    · rw [update_self] at hheld
      subst hheld
      rw [update_idem]
      cases hturn with
      | other => exact .inr ⟨rfl, k, work', rfl, rfl⟩
      | access => exact .inr ⟨rfl, k, _, rfl, rfl⟩
      | leave => exact .inl ⟨rfl, update_eq_self k _, rfl⟩
    · rw [update_of_ne hne] at hheld
      subst hheld
      cases hturn with
      | other =>
        refine .inr ⟨rfl, j, work', ?_, rfl⟩
        rw [update_comm hne.symm, update_eq_self k fun _ => none]
      | enter call hfree => exact absurd hfree one_ne_zero

lemma Inv.next (h : Inv now m) (e : κ × Event ι) :
    Inv (serial body now (step body m e).1.toList) (step body m e).2 := by
  obtain ⟨hcpu, hturn⟩ := (h.cpu e.1).next body (h.kept.imp And.left And.left) m.shared e.2
  refine ⟨(forall_update_iff m.cpus fun _ => CpuOk).mpr ⟨hcpu, fun j _ => h.cpu j⟩, ?_⟩
  have hkept := h.kept.turn body hturn
  rwa [← funext (apply_update (fun _ cpu => cpu.place.held) m.cpus e.1 _)] at hkept

lemma Inv.run (h : Inv now m) (events : List (κ × Event ι)) :
    Inv (serial body now ((trace (step body) m events).filterMap Prod.snd))
      (final (step body) m events) := by
  induction events generalizing now m with
  | nil => exact h
  | cons e events ih =>
    have hrest := ih (h.next body e)
    rw [trace_cons, filterMap_cons]
    cases hcall : (step body m e).1 <;> rwa [hcall] at hrest

variable (flags : κ → Bool) (s : σ)

lemma inv_start : Inv s (start flags s : Machine κ ι σ ρ) :=
  ⟨fun _ => ⟨fun _ => rfl, forall_mem_nil _⟩, .inl ⟨rfl, rfl, rfl⟩⟩

/-- **Mutual exclusion.**  In every run the lock is 0 and nobody holds it, or it is 1 and
exactly one processor does; and no processor is interrupted during a call, so that no
handler waits for a lock that its own processor holds. -/
theorem spin_lock_excludes (events : List (κ × Event ι)) :
    let m := final (step body) (start flags s) events
    (m.value = 0 ∧ (∀ k, (m.cpus k).place.held = none) ∨
      m.value = 1 ∧ ∃! k, (m.cpus k).place.held ≠ none) ∧
    ∀ k, ((m.cpus k).interrupts = true → (m.cpus k).place = .idle) ∧
      ∀ p ∈ (m.cpus k).interrupted, p = .idle := by
  intro m
  have h : Inv _ m := (inv_start flags s).run body events
  refine ⟨h.kept.imp (fun h0 => ⟨h0.1, congrFun h0.2.1⟩) ?_, fun k =>
    ⟨(h.cpu k).off, (h.cpu k).under⟩⟩
  rintro ⟨h1, k, work, hheld, -⟩
  refine ⟨h1, k, by simp [congrFun hheld k], fun j hj => ?_⟩
  by_contra hne
  exact hj (by rw [congrFun hheld j, update_of_ne hne])

/-- **Sections take effect whole and one at a time.**  However the processors are
interleaved, run the sections of the calls that have taken the lock one after another, in
that order: the result is what the lock protects while it is free, and while it is held
what the holder's section will leave. -/
theorem spin_lock_serialises (events : List (κ × Event ι)) :
    let m := final (step body) (start flags s) events
    let now := serial body s ((trace (step body) (start flags s) events).filterMap Prod.snd)
    m.value = 0 ∧ m.shared = now ∨
      m.value = 1 ∧ ∃ k work, (m.cpus k).place.held = some work ∧ work.finish m.shared = now := by
  intro m now
  rcases ((inv_start flags s).run body events).kept with ⟨h0, -, hnow⟩ | ⟨h1, k, work, hheld, hnow⟩
  · exact Or.inl ⟨h0, hnow⟩
  · exact Or.inr ⟨h1, k, work, by rw [congrFun hheld k, update_self], hnow⟩

/-! ### Waiting -/

/-- The call that has not got the lock yet. -/
def Place.wanted : Place ι σ ρ → Option ι
  | .locking _ call | .pausing _ call => some call
  | _ => none

variable {j k : κ}

lemma Place.eq_inside {p : Place ι σ ρ} {work : Work σ ρ} (h : p.held = some work) :
    ∃ flags, p = .inside flags work := by
  cases p <;> simp_all [held]

/-- The holder frees the lock by itself. -/
lemma resume_holder {flags : Bool} {work : Work σ ρ} (h : (m.cpus j).place = .inside flags work)
    (hk : k ≠ j) :
    let m' := final (step body) m (replicate (work.todo.length + 1) (j, .resume))
    m'.value = 0 ∧ m'.cpus k = m.cpus k := by
  obtain ⟨regs, todo⟩ := work
  induction todo generalizing m regs with
  | nil => exact ⟨by simp [step, act, resume, h], update_of_ne hk _ _⟩
  | cons access todo ih =>
    obtain ⟨hvalue, hcpu⟩ := ih (m := (step body m (j, .resume)).2) (access m.shared regs).2
      (by simp [step, act, resume, h])
    exact ⟨hvalue, hcpu.trans (update_of_ne hk _ _)⟩

/-- A free lock is there for whoever wants it. -/
lemma resume_waiter {call : ι} (hvalue : m.value = 0) (h : (m.cpus k).place.wanted = some call) :
    ∃ n, ((final (step body) m (replicate n (k, .resume))).cpus k).place.held =
      some (body call) := by
  cases hplace : (m.cpus k).place <;> simp [hplace, Place.wanted] at h
  case locking => exact ⟨1, by simp [step, act, resume, hplace, hvalue, Place.held, h]⟩
  case pausing => exact ⟨2, by simp [step, act, resume, hplace, hvalue, Place.held, h]⟩

/-- **No deadlock.**  In every run, whoever waits for the lock can get it, with no new call
and no interrupt: first the holder goes on, then the waiter. -/
theorem spin_lock_obtainable (events : List (κ × Event ι)) (k : κ) (call : ι) :
    let m := final (step body) (start flags s) events
    (m.cpus k).place.wanted = some call →
      ∃ ks : List κ, ((final (step body) m (ks.map (·, .resume))).cpus k).place.held =
        some (body call) := by
  intro m hwanted
  rcases ((inv_start flags s).run body events).kept with ⟨hvalue, -⟩ | ⟨-, j, work, hheld, -⟩
  · obtain ⟨n, hn⟩ := resume_waiter body hvalue hwanted
    exact ⟨replicate n k, by rwa [map_replicate]⟩
  · have hj : (m.cpus j).place.held = some work := by rw [congrFun hheld j, update_self]
    obtain ⟨flags, hplace⟩ := Place.eq_inside hj
    have hkj : k ≠ j := by
      rintro rfl
      simp [hplace, Place.wanted] at hwanted
    obtain ⟨hvalue, hcpu⟩ := resume_holder body hplace hkj
    obtain ⟨n, hn⟩ := resume_waiter body hvalue (hcpu ▸ hwanted)
    refine ⟨replicate (work.todo.length + 1) j ++ replicate n k, ?_⟩
    rwa [map_append, map_replicate, map_replicate, final_append]

theorem spin_lock_obtainable_contended :
    let body : Unit → Work ℕ Unit := fun _ => ⟨(), [fun n _ => (n + 1, ())]⟩
    let m := final (step body) (start (fun _ : Bool => true) 0)
      [(true, .call ()), (true, .resume), (false, .call ()), (false, .resume)]
    m.value = 1 ∧ ∃ ks : List Bool,
      ((final (step body) m (ks.map (·, .resume))).cpus false).place.held = some (body ()) :=
  ⟨rfl, spin_lock_obtainable (fun _ => ⟨(), [fun n _ => (n + 1, ())]⟩) _ _ _ false () rfl⟩

end JoshOS.SpinLock
