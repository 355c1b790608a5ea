import Mathlib.Tactic
import JoshOS.Lib.Ring
import JoshOS.Lib.Runs

/-!
The input event queue (`kernel/src/input.c`).

The keyboard and pointer interrupts push events with `input_push_isr`; the
desktop takes them out with `input_pop`.  A push may come in between any two of
the four accesses that `input_pop` makes to the queue, so the machine below has
one step for each of them: the load of `tail`, the load of `head`, the copy of
the event and the store to `tail`.

* `Queued`: the accepted events that are not yet released are in the slots from
  `tail` on, at most 127 of them.
* `input_queue_lossless`: popped events are the accepted ones in order, and an
  event is refused only when 127 are unreleased; the counter of refused events
  counts modulo `2 ^ 64`.
* `input_dropped_wraps`: after `2 ^ 64` refusals the counter reads zero.
-/

namespace JoshOS.Input

open List

/-- `input_event_type_t`. -/
inductive EventType where
  | none | key | pointer
deriving DecidableEq, Repr

/-- `input_event_t`. -/
structure Event where
  type : EventType
  code : UInt16
  modifiers : UInt16
  valueX : Int32
  valueY : Int32
  pressed : UInt8
  character : UInt8
deriving DecidableEq

/-- `INPUT_QUEUE_CAPACITY`. -/
def inputQueueCapacity : ℕ := 128

/-- `INPUT_QUEUE_MASK`. -/
def inputQueueMask : UInt32 := 128 - 1

/-- Where `input_pop` stands between two of its accesses to the queue. -/
inductive Stage where
  /-- No call is in progress, and the next access is the load of `tail`. -/
  | idle
  /-- Before the load of `head`. -/
  | loadHead (currentTail : UInt32)
  /-- Before the copy of the event. -/
  | copy (currentTail : UInt32)
  /-- Before the store to `tail`. -/
  | release (currentTail : UInt32) (event : Event)

/-- The queue and the call of `input_pop` in progress. -/
structure State where
  queue : ℕ → Event
  head : UInt32
  tail : UInt32
  dropped : UInt64
  stage : Stage

/-- `input_reset`, which leaves the slots as they are. -/
def inputReset (queue : ℕ → Event) : State := ⟨queue, 0, 0, 0, .idle⟩

/-- The steps of the interrupt and of the consumer. -/
inductive Step where
  /-- `input_push_isr` is called. -/
  | push (event : Event)
  /-- `input_pop` makes its next access. -/
  | pop

/-- What a step lets its side see. -/
inductive Answer where
  | silent
  /-- `input_push_isr` returns 0 for an event of type `INPUT_EVENT_NONE`. -/
  | invalid
  /-- `input_push_isr` returns 0 for a full queue. -/
  | rejected
  /-- `input_push_isr` returns 1. -/
  | accepted (event : Event)
  /-- `input_pop` returns 0. -/
  | empty
  /-- `input_pop` returns 1 with this event. -/
  | popped (event : Event)
deriving DecidableEq

/-- `(index + 1u) & INPUT_QUEUE_MASK`. -/
def nextIndex (index : UInt32) : UInt32 := (index + 1) &&& inputQueueMask

/-- `input_push_isr`. -/
def inputPushIsr (s : State) (event : Event) : Answer × State :=
  if event.type = .none then (.invalid, s)
  else if nextIndex s.head = s.tail then (.rejected, { s with dropped := s.dropped + 1 })
  else (.accepted event, { s with
    queue := Function.update s.queue s.head.toNat event
    head := nextIndex s.head })

/-- The next access of `input_pop`. -/
def inputPop (s : State) : Answer × State :=
  match s.stage with
  | .idle => (.silent, { s with stage := .loadHead s.tail })
  | .loadHead currentTail =>
    if currentTail = s.head then (.empty, { s with stage := .idle })
    else (.silent, { s with stage := .copy currentTail })
  | .copy currentTail =>
    (.silent, { s with stage := .release currentTail (s.queue currentTail.toNat) })
  | .release currentTail event =>
    (.popped event, { s with tail := nextIndex currentTail, stage := .idle })

/-- One step of the interrupt or of the consumer. -/
def step (s : State) : Step → Answer × State
  | .push event => inputPushIsr s event
  | .pop => inputPop s

/-- The events accepted and those popped, in order, and the number of valid
events rejected. -/
structure Ledger where
  accepted : List Event
  popped : List Event
  rejected : ℕ

/-- Nothing has happened yet. -/
def Ledger.empty : Ledger := ⟨[], [], 0⟩

/-- The ledger after one more step. -/
def Ledger.note (g : Ledger) (e : Step × Answer) : Ledger :=
  match e.2 with
  | .accepted event => { g with accepted := g.accepted ++ [event] }
  | .popped event => { g with popped := g.popped ++ [event] }
  | .rejected => { g with rejected := g.rejected + 1 }
  | .silent | .invalid | .empty => g

/-- The state after a run from `input_reset` on. -/
def after (queue : ℕ → Event) (is : List Step) : State :=
  Runs.final step (inputReset queue) is

/-- The ledger of a run from `input_reset` on. -/
def ledger (queue : ℕ → Event) (is : List Step) : Ledger :=
  (Runs.trace step (inputReset queue) is).foldl Ledger.note .empty

/-! ### The invariant -/

/-- Masking is counting modulo the capacity. -/
lemma toNat_nextIndex (index : UInt32) :
    (nextIndex index).toNat = (index.toNat + 1) % inputQueueCapacity := by
  have hmask : inputQueueMask.toNat = 2 ^ 7 - 1 := rfl
  have hcapacity : inputQueueCapacity = 2 ^ 7 := rfl
  rw [nextIndex, UInt32.toNat_and, hmask, Nat.and_two_pow_sub_one_eq_mod, UInt32.toNat_add,
    hcapacity, Nat.mod_mod_of_dvd _ (Nat.pow_dvd_pow 2 (by decide))]
  rfl

/-- What the call in progress knows of the unreleased events. -/
def Pending (s : State) (q : List Event) : Stage → Prop
  | .idle => True
  | .loadHead currentTail => currentTail = s.tail
  | .copy currentTail => currentTail = s.tail ∧ q ≠ []
  | .release currentTail event => currentTail = s.tail ∧ q.head? = some event

/-- The events of `q` are accepted and not yet released. -/
structure Queued (s : State) (g : Ledger) (q : List Event) : Prop where
  accepted_eq : g.accepted = g.popped ++ q
  length_le : q.length ≤ inputQueueCapacity - 1
  tail_eq : s.tail.toNat = g.popped.length % inputQueueCapacity
  head_eq : s.head.toNat = g.accepted.length % inputQueueCapacity
  slots : Ring.Holds inputQueueCapacity (fun k e => s.queue k = e) g.popped.length q
  pending : Pending s q s.stage
  dropped_eq : s.dropped.toNat = g.rejected % 2 ^ 64

/-- The invariant of the queue. -/
def Invariant (s : State) (g : Ledger) : Prop := ∃ q, Queued s g q

variable {s : State} {g : Ledger} {q : List Event}

lemma Queued.counts (h : Queued s g q) :
    g.accepted.length = g.popped.length + q.length ∧ q.length ≤ inputQueueCapacity - 1 ∧
      inputQueueCapacity = 128 :=
  ⟨by rw [h.accepted_eq, length_append], h.length_le, rfl⟩

/-- The queue after `input_reset`. -/
lemma invariant_reset (queue : ℕ → Event) : Invariant (inputReset queue) .empty :=
  ⟨[], rfl, Nat.zero_le _, rfl, rfl, Ring.holds_nil, trivial, rfl⟩

/-- `head` meets `tail` exactly when every accepted event is released. -/
lemma Queued.head_eq_tail_iff (h : Queued s g q) : s.tail = s.head ↔ q = [] := by
  obtain ⟨haccepted, hlen, hcapacity⟩ := h.counts
  rw [← UInt32.toNat_inj, h.tail_eq, h.head_eq, Ring.index_eq_iff (by omega) (by omega), haccepted]
  simp

/-- `input_push_isr` finds the queue full exactly when 127 events are
unreleased. -/
lemma Queued.full_iff (h : Queued s g q) :
    nextIndex s.head = s.tail ↔ q.length = inputQueueCapacity - 1 := by
  obtain ⟨haccepted, hlen, hcapacity⟩ := h.counts
  rw [← UInt32.toNat_inj, toNat_nextIndex, h.head_eq, h.tail_eq, Nat.mod_add_mod, hcapacity]
  omega

/-! ### The steps -/

/-- A push does not disturb the call in progress. -/
lemma Pending.push {queue : ℕ → Event} {head : UInt32} {event : Event} {stage : Stage}
    (h : Pending s q stage) :
    Pending { s with queue := queue, head := head } (q ++ [event]) stage := by
  cases stage with
  | idle => exact trivial
  | loadHead currentTail => exact h
  | copy currentTail => exact ⟨h.1, by simp⟩
  | release currentTail e => exact ⟨h.1, by simp [head?_append, h.2]⟩

lemma Pending.drop {dropped : UInt64} {stage : Stage} (h : Pending s q stage) :
    Pending { s with dropped := dropped } q stage := by
  cases stage <;> exact h

/-- `input_push_isr` writes the slot after the unreleased ones. -/
lemma Queued.push (h : Queued s g q) (event : Event) :
    Invariant (inputPushIsr s event).2 (g.note (.push event, (inputPushIsr s event).1)) := by
  obtain ⟨haccepted, hlen, hcapacity⟩ := h.counts
  rw [inputPushIsr]
  split_ifs with hnone hfull
  · exact ⟨q, h⟩
  · refine ⟨q, h.accepted_eq, hlen, h.tail_eq, h.head_eq, h.slots, h.pending.drop, ?_⟩
    simp only [Ledger.note, UInt64.toNat_add, h.dropped_eq, UInt64.toNat_one, Nat.mod_add_mod]
  · have hroom : q.length < inputQueueCapacity - 1 :=
      lt_of_le_of_ne hlen fun heq => hfull (h.full_iff.2 heq)
    refine ⟨q ++ [event], ?_, ?_, h.tail_eq, ?_, ?_, h.pending.push, h.dropped_eq⟩
    · simp [Ledger.note, h.accepted_eq]
    · rw [length_append, length_singleton]
      exact hroom
    · simp [Ledger.note, toNat_nextIndex, h.head_eq]
    · refine Ring.Holds.concat (h.slots.of_ne le_rfl (by omega) fun k b hk hslot => ?_) ?_
      · rw [← haccepted, ← h.head_eq] at hk
        simpa [Function.update_of_ne hk] using hslot
      · simp [Ledger.note, ← haccepted, ← h.head_eq]

/-- The store to `tail` releases the oldest event, and the others stay. -/
lemma Queued.release (h : Queued s g q) {event : Event} (hhead : q.head? = some event) :
    Invariant { s with tail := nextIndex s.tail, stage := .idle }
      { g with popped := g.popped ++ [event] } := by
  have hlen := h.length_le
  cases q with
  | nil => simp at hhead
  | cons e q =>
    obtain rfl : e = event := by simpa using hhead
    rw [length_cons] at hlen
    refine ⟨q, ?_, by omega, ?_, h.head_eq, ?_, trivial, h.dropped_eq⟩
    · simp [h.accepted_eq]
    · simp [toNat_nextIndex, h.tail_eq]
    · simpa using h.slots.tail

/-- The consumer's next access. -/
lemma Queued.pop (h : Queued s g q) :
    Invariant (inputPop s).2 (g.note (.pop, (inputPop s).1)) := by
  have hpending := h.pending
  have hstage : ∀ stage, Pending s q stage → Queued { s with stage := stage } g q := by
    intro stage hstage
    refine ⟨h.accepted_eq, h.length_le, h.tail_eq, h.head_eq, h.slots, ?_, h.dropped_eq⟩
    cases stage <;> exact hstage
  rw [inputPop]
  generalize s.stage = stage at hpending
  cases stage with
  | idle => exact ⟨q, hstage _ rfl⟩
  | loadHead currentTail =>
    obtain rfl : currentTail = s.tail := hpending
    dsimp only
    split_ifs with hempty
    · exact ⟨q, hstage _ trivial⟩
    · exact ⟨q, hstage _ ⟨rfl, fun hq => hempty (h.head_eq_tail_iff.2 hq)⟩⟩
  | copy currentTail =>
    obtain ⟨rfl, hne⟩ := hpending
    refine ⟨q, hstage _ ⟨rfl, ?_⟩⟩
    cases q with
    | nil => exact absurd rfl hne
    | cons e q =>
      rw [h.tail_eq, h.slots.head]
      rfl
  | release currentTail event =>
    obtain ⟨rfl, hhead⟩ := hpending
    exact h.release hhead

/-- **Pushes and accesses keep the invariant, in any order.** -/
lemma Invariant.step (h : Invariant s g) (i : Step) :
    Invariant (step s i).2 (g.note (i, (step s i).1)) := by
  obtain ⟨q, h⟩ := h
  cases i with
  | push event => exact h.push event
  | pop => exact h.pop

lemma invariant_after (queue : ℕ → Event) (is : List Step) :
    Invariant (after queue is) (ledger queue is) :=
  Runs.ghost_induction step (fun _ _ i h => h.step i) (invariant_reset queue) is

/-- A valid event is rejected exactly when 127 events are unreleased. -/
lemma Queued.rejected_iff (h : Queued s g q) {event : Event} (hvalid : event.type ≠ .none) :
    (Input.step s (.push event)).1 = .rejected ↔
      g.accepted.length = g.popped.length + (inputQueueCapacity - 1) := by
  rw [h.counts.1, Nat.add_left_cancel_iff, ← h.full_iff, Input.step, inputPushIsr,
    if_neg hvalid]
  split_ifs with hfull <;> simp [hfull]

/-! ### Whole runs -/

/-- **The queue loses nothing.**  After any run of pushes and accesses, the
popped events are the accepted ones in order, from the first one on.  A valid
event is rejected exactly when 127 accepted events are unreleased, a call of
`input_pop` finds the queue empty exactly when none is, and
`input_dropped_events` is the number of rejections modulo `2 ^ 64`. -/
theorem input_queue_lossless (queue : ℕ → Event) (is : List Step) :
    (ledger queue is).popped <+: (ledger queue is).accepted ∧
      (∀ event : Event, event.type ≠ .none →
        ((step (after queue is) (.push event)).1 = .rejected ↔
          (ledger queue is).accepted.length =
            (ledger queue is).popped.length + (inputQueueCapacity - 1))) ∧
      (∀ currentTail, (after queue is).stage = .loadHead currentTail →
        ((step (after queue is) .pop).1 = .empty ↔
          (ledger queue is).accepted = (ledger queue is).popped)) ∧
      (after queue is).dropped.toNat = (ledger queue is).rejected % 2 ^ 64 := by
  obtain ⟨q, h⟩ := invariant_after queue is
  refine ⟨⟨q, h.accepted_eq.symm⟩, fun event hvalid => h.rejected_iff hvalid, ?_, h.dropped_eq⟩
  intro currentTail hstage
  have htail : currentTail = (after queue is).tail := by
    have hpending := h.pending
    rwa [hstage] at hpending
  rw [h.accepted_eq, List.append_right_eq_self, ← h.head_eq_tail_iff, step, inputPop, hstage, htail]
  dsimp only
  split_ifs with hempty <;> simp [hempty]

/-! ### The counter of dropped events -/

lemma ledger_concat (queue : ℕ → Event) (is : List Step) (i : Step) :
    ledger queue (is ++ [i]) = (ledger queue is).note (i, (step (after queue is) i).1) := by
  simp [ledger, Runs.trace_append, after]

/-- Pushes alone fill the queue, and each one after that is rejected. -/
lemma ledger_replicate_push (queue : ℕ → Event) {event : Event} (hvalid : event.type ≠ .none)
    (n : ℕ) :
    (ledger queue (replicate n (.push event))).popped = [] ∧
      (ledger queue (replicate n (.push event))).accepted.length = min n 127 ∧
      (ledger queue (replicate n (.push event))).rejected = n - 127 := by
  induction n with
  | zero => exact ⟨rfl, rfl, rfl⟩
  | succ n ih =>
    obtain ⟨hpopped, haccepted, hrejected⟩ := ih
    obtain ⟨q, h⟩ := invariant_after queue (replicate n (.push event))
    have hlen : q.length = min n 127 := by
      rw [← haccepted, h.counts.1, hpopped, length_nil, Nat.zero_add]
    have hcapacity : inputQueueCapacity = 128 := rfl
    have hfull := h.full_iff
    rw [replicate_succ', ledger_concat, step, inputPushIsr, if_neg hvalid]
    by_cases hn : n < 127
    · rw [if_neg (by rw [hfull]; omega)]
      refine ⟨hpopped, ?_, ?_⟩
      · simp only [Ledger.note, length_append, length_singleton, haccepted]
        omega
      · simp only [Ledger.note, hrejected]
        omega
    · rw [if_pos (by rw [hfull]; omega)]
      refine ⟨hpopped, ?_, ?_⟩
      · simp only [Ledger.note, haccepted]
        omega
      · simp only [Ledger.note, hrejected]
        omega

/-- The press of a key. -/
def keyPress : Event := ⟨.key, 0x1e, 0, 0, 0, 1, 0x61⟩

/-- `2 ^ 64` rejections leave the counter of dropped events at zero. -/
theorem input_dropped_wraps :
    let is := List.replicate (127 + 2 ^ 64) (Step.push keyPress)
    (ledger (fun _ => keyPress) is).rejected = 2 ^ 64 ∧
      (after (fun _ => keyPress) is).dropped = 0 := by
  intro is
  have hrejected : (ledger (fun _ => keyPress) is).rejected = 2 ^ 64 := by
    rw [(ledger_replicate_push (fun _ => keyPress) (by decide) (127 + 2 ^ 64)).2.2]
    rfl
  obtain ⟨q, h⟩ := invariant_after (fun _ => keyPress) is
  refine ⟨hrejected, UInt64.toNat_inj.1 ?_⟩
  rw [h.dropped_eq, hrejected, Nat.mod_self]
  rfl

end JoshOS.Input
