import Mathlib.Data.List.Basic
import Mathlib.Logic.Function.Basic
import JoshOS.Lib.Runs

/-!
The kernel thread scheduler (`kernel/src/scheduler.c`).

A thread is named by its slot, as `thread_for_slot` numbers them: slot 0 is the
bootstrap thread and slot `i + 1` is `threads[i]`.  Threads switch only inside
`scheduler_yield`, so the machine has one step for each call that the current
thread makes, and one for the return of its entry function.  Stacks and saved
stack pointers are left out: control is in the thread that `current` names.
-/

namespace JoshOS.Scheduler

/-- `SCHEDULER_MAX_THREADS`. -/
def schedulerMaxThreads : ℕ := 16

/-- The `slot_count` of `next_runnable`. -/
def slotCount : ℕ := schedulerMaxThreads + 1

/-- `SCHEDULER_BOOTSTRAP_ID`. -/
def schedulerBootstrapId : UInt64 := 1

/-- `thread_state_t`. -/
inductive ThreadState where
  | unused | ready | running | dead
deriving DecidableEq, Repr

/-- `thread_t`, without its stack.  An entry address of 0 is the null pointer. -/
structure Thread where
  id : UInt64
  state : ThreadState
  switches : UInt64
  entry : UInt64
  argument : UInt64

/-- The threads with `current`, `next_id` and `scan_cursor`. -/
structure State where
  slots : ℕ → Thread
  current : ℕ
  nextId : UInt64
  scanCursor : ℕ

/-- `scheduler_init`. -/
def schedulerInit : State where
  slots slot :=
    if slot = 0 then ⟨schedulerBootstrapId, .running, 0, 0, 0⟩ else ⟨0, .unused, 0, 0, 0⟩
  current := 0
  nextId := schedulerBootstrapId + 1
  scanCursor := 1

/-- The assignment of a thread's state. -/
def setState (s : State) (slot : ℕ) (state : ThreadState) : State :=
  { s with slots := Function.update s.slots slot { s.slots slot with state := state } }

/-- `next_runnable`. -/
def nextRunnable (s : State) : Option ℕ × State :=
  let slotAt offset := (s.scanCursor + offset) % slotCount
  match (List.range slotCount).find? fun offset => (s.slots (slotAt offset)).state = .ready with
  | some offset =>
    (some (slotAt offset), { s with scanCursor := (slotAt offset + 1) % slotCount })
  | none => (none, s)

/-- `scheduler_create_kernel_thread`, with the id of the new thread. -/
def schedulerCreateKernelThread (s : State) (entry argument : UInt64) : Option UInt64 × State :=
  if entry = 0 then (none, s)
  else
    match (List.range schedulerMaxThreads).find? fun i =>
        (s.slots (i + 1)).state = .unused ∨ (s.slots (i + 1)).state = .dead with
    | some i =>
      (some s.nextId, { s with
        slots := Function.update s.slots (i + 1) ⟨s.nextId, .ready, 0, entry, argument⟩
        nextId := s.nextId + 1 })
    | none => (none, s)

/-- `scheduler_yield`. -/
def schedulerYield (s : State) : State :=
  let previous := s.current
  let s₁ := if (s.slots previous).state = .running then setState s previous .ready else s
  match nextRunnable s₁ with
  | (none, s₂) => setState s₂ previous .running
  | (some next, s₂) =>
    if next = previous then setState s₂ previous .running
    else { s₂ with
      slots := Function.update s₂.slots next
        { s₂.slots next with state := .running, switches := (s₂.slots next).switches + 1 }
      current := next }

/-- What the current thread does. -/
inductive Step where
  /-- It calls `scheduler_create_kernel_thread`. -/
  | create (entry argument : UInt64)
  /-- It calls `scheduler_yield`. -/
  | yield
  /-- Its entry function returns, and `thread_trampoline` marks it dead. -/
  | exit

/-- The current thread has exited. -/
def State.exited (s : State) : Prop := (s.slots s.current).state = .dead

instance (s : State) : Decidable s.exited :=
  inferInstanceAs (Decidable ((s.slots s.current).state = .dead))

/-- One step of the current thread, with the id of a thread it creates.  A thread
that has exited only yields, and the bootstrap thread, which has no entry
function, does not exit. -/
def step (s : State) : Step → Option UInt64 × State
  | .create entry argument =>
    if s.exited then (none, s) else schedulerCreateKernelThread s entry argument
  | .yield => (none, schedulerYield s)
  | .exit =>
    if s.exited ∨ s.current = 0 then (none, s) else (none, setState s s.current .dead)

/-- The state after a run from `scheduler_init` on. -/
def after (is : List Step) : State := Runs.final step schedulerInit is

/-- The ids given so far, with those of one more step. -/
def noteId (ids : List UInt64) (e : Step × Option UInt64) : List UInt64 := ids ++ e.2.toList

/-- The ids of the threads created in a run, in order. -/
def created (is : List Step) : List UInt64 :=
  (Runs.trace step schedulerInit is).foldl noteId []

end JoshOS.Scheduler
