import Mathlib.Tactic
import JoshOS.Lib.Ring
import JoshOS.E1000.Model

/-!
The transmit ring of the network card driver.

`e1000_transmit` takes a slot as soon as its descriptor is done, and returns
with an error, its frame still queued, when the card does not complete it in
time.  Nothing keeps it from handing over sixteen descriptors, and then `TDT`
is back at `TDH` and the card takes the ring for empty.

* `TxInvariant`: the queued frames are in the slots from `TDH` on, at most
  fifteen of them, and the call in progress works on the slot after them.
* `transmit_ring_sound_iff`: the ring is sound throughout a run exactly when no
  `TDT` store makes it equal to `TDH`.
* `transmit_ring_overrun`: a card that stalls for sixteen calls loses them all.
-/

namespace JoshOS.E1000

open List Function

/-- The frames handed to the card and not yet completed. -/
def Ledger.uncompleted (g : Ledger) : List (List UInt8) := g.handed.drop g.sent.length

/-- The slot is not done, and tells the card to send the frame. -/
def Carries (s : State) (index : ℕ) (frame : List UInt8) : Prop :=
  done (s.txRing index).status = false ∧ txFrame s index = frame

/-- What is expected of the transmit ring.  The card completes the frames in the
order in which it is handed them.  At most fifteen are uncompleted, as many as
the registers say.  They are in the slots from `TDH` on as they were handed
over, and the driver is not about to rewrite one of them. -/
structure TxSound (s : State) (g : Ledger) : Prop where
  in_order : g.sent ++ g.uncompleted = g.handed
  occupancy_le : g.uncompleted.length ≤ txCount - 1
  occupancy_eq : g.uncompleted.length = (s.tdt + txCount - s.tdh) % txCount
  intact : Ring.Holds txCount (Carries s) s.tdh g.uncompleted
  untouched : ∀ frame index, s.stage = .copy frame index ∨ s.stage = .describe frame index →
    ∀ j < g.uncompleted.length, (s.tdh + j) % txCount ≠ index

/-- The store to `TDT` does not make it equal to `TDH`: at most fourteen
descriptors are uncompleted before it. -/
def LeavesSlot (s : State) (i : Step) : Prop :=
  match i, s.stage with
  | .advance, .publish _ _ => (s.tdt + 1) % txCount ≠ s.tdh
  | _, _ => True

/-! ### The invariant -/

/-- What the call in progress has done to the slot after `n` descriptors. -/
def Prepared (s : State) (n : ℕ) : Stage → Prop
  | .idle | .awaitDone _ _ => True
  | .awaitSlot frame index _ | .copy frame index =>
    index = n % txCount ∧ frame.length ≤ dmaBufferSize
  | .describe frame index =>
    index = n % txCount ∧ frame.length ≤ dmaBufferSize ∧
      (s.txBuffer index).take frame.length = frame
  | .publish frame index => index = n % txCount ∧ Carries s index frame

/-- The frames of `q` are queued between `TDH` and `TDT`. -/
structure TxQueued (s : State) (g : Ledger) (q : List (List UInt8)) : Prop where
  handed_eq : g.handed = g.sent ++ q
  length_le : q.length ≤ txCount - 1
  tdh_eq : s.tdh = g.sent.length % txCount
  tdt_eq : s.tdt = g.handed.length % txCount
  txNext_eq : s.txNext = g.handed.length % txCount
  slots : Ring.Holds txCount (Carries s) g.sent.length q
  prepared : Prepared s g.handed.length s.stage

/-- The invariant of the transmit ring. -/
def TxInvariant (s : State) (g : Ledger) : Prop := ∃ q, TxQueued s g q

variable {s : State} {g : Ledger} {q : List (List UInt8)}

lemma TxQueued.counts (h : TxQueued s g q) :
    g.handed.length = g.sent.length + q.length ∧ q.length ≤ txCount - 1 ∧ txCount = 16 :=
  ⟨by rw [h.handed_eq, length_append], h.length_le, rfl⟩

lemma TxQueued.uncompleted_eq (h : TxQueued s g q) : g.uncompleted = q := by
  rw [Ledger.uncompleted, h.handed_eq, drop_left]

/-- The slot after the queued ones is none of them. -/
lemma TxQueued.slot_ne (h : TxQueued s g q) {j : ℕ} (hj : j < q.length) :
    (g.sent.length + j) % txCount ≠ g.handed.length % txCount := by
  obtain ⟨hhanded, hlen, htx⟩ := h.counts
  exact Ring.slot_ne (by omega) (by omega)

/-- A change of the slot after the queued ones keeps them. -/
lemma TxQueued.slots_of_ne (h : TxQueued s g q) {s' : State}
    (hne : ∀ k frame, k ≠ g.handed.length % txCount → Carries s k frame → Carries s' k frame) :
    Ring.Holds txCount (Carries s') g.sent.length q := by
  obtain ⟨hhanded, hlen, htx⟩ := h.counts
  exact h.slots.of_ne (by omega) (by omega) hne

/-- The invariant makes the ring sound. -/
lemma TxInvariant.sound (h : TxInvariant s g) : TxSound s g := by
  obtain ⟨q, h⟩ := h
  obtain ⟨hhanded, hlen, htx⟩ := h.counts
  constructor
  case in_order => rw [h.uncompleted_eq, h.handed_eq]
  case occupancy_le => rw [h.uncompleted_eq]; exact hlen
  case occupancy_eq =>
    rw [h.uncompleted_eq, h.tdt_eq, h.tdh_eq, Ring.distance_eq (by omega) (by omega)]
    omega
  case intact =>
    rw [h.uncompleted_eq, h.tdh_eq, Ring.holds_mod_iff]
    exact h.slots
  case untouched =>
    intro frame index hstage j hj
    rw [h.uncompleted_eq] at hj
    have hindex : index = g.handed.length % txCount := by
      have hprepared := h.prepared
      rcases hstage with hstage | hstage <;> rw [hstage] at hprepared <;> exact hprepared.1
    rw [hindex, h.tdh_eq, Nat.mod_add_mod]
    exact h.slot_ne hj

/-- The rings after `e1000_init`. -/
lemma txInvariant_init : TxInvariant e1000Init .empty :=
  ⟨[], rfl, Nat.zero_le _, rfl, rfl, rfl, Ring.holds_nil, trivial⟩

/-! ### The steps -/

/-- A step that only moves the driver on. -/
lemma TxQueued.stage (h : TxQueued s g q) {stage : Stage}
    (hprepared : Prepared s g.handed.length stage) : TxQueued { s with stage := stage } g q where
  handed_eq := h.handed_eq
  length_le := h.length_le
  tdh_eq := h.tdh_eq
  tdt_eq := h.tdt_eq
  txNext_eq := h.txNext_eq
  slots := h.slots
  prepared := by cases stage <;> exact hprepared

/-- A call that passes the checks aims at the slot after the queued ones. -/
lemma TxQueued.transmit (h : TxQueued s g q) (frame : List UInt8) :
    TxInvariant (transmit s frame).2 (g.note (.transmit frame, (transmit s frame).1)) := by
  rw [E1000.transmit]
  split_ifs with hbad
  · exact ⟨q, h⟩
  · push Not at hbad
    exact ⟨q, h.stage ⟨h.txNext_eq, hbad.2.2⟩⟩

/-- Rounds of a wait loop change nothing. -/
lemma TxQueued.spin (h : TxQueued s g q) (rounds : ℕ) : TxQueued (spin s rounds) g q := by
  have hprepared := h.prepared
  rw [E1000.spin]
  split
  case h_1 frame index spins hstage =>
    rw [hstage] at hprepared
    exact h.stage hprepared
  case h_2 => exact h.stage trivial
  case h_3 => exact h

/-- The copy goes to the slot after the queued ones. -/
lemma TxQueued.copy (h : TxQueued s g q) {frame : List UInt8} {index : ℕ}
    (hindex : index = g.handed.length % txCount) (hlen : frame.length ≤ dmaBufferSize) :
    TxQueued { s with
      txBuffer := update s.txBuffer index (copyBytes (s.txBuffer index) frame)
      stage := .describe frame index } g q where
  handed_eq := h.handed_eq
  length_le := h.length_le
  tdh_eq := h.tdh_eq
  tdt_eq := h.tdt_eq
  txNext_eq := h.txNext_eq
  slots := by
    refine h.slots_of_ne fun k b hk hcarries => ⟨hcarries.1, ?_⟩
    have hne : k ≠ index := hindex ▸ hk
    simpa [txFrame, update_of_ne hne] using hcarries.2
  prepared := by
    refine ⟨hindex, hlen, ?_⟩
    simp [copyBytes]

/-- The descriptor stores complete the slot after the queued ones. -/
lemma TxQueued.describe (h : TxQueued s g q) {frame : List UInt8} {index : ℕ}
    (hindex : index = g.handed.length % txCount) (hlen : frame.length ≤ dmaBufferSize)
    (hbuffer : (s.txBuffer index).take frame.length = frame) :
    TxQueued { s with
      txRing := update s.txRing index ⟨UInt16.ofNat frame.length, 0, txCommand, 0, 0, 0⟩
      stage := .publish frame index } g q where
  handed_eq := h.handed_eq
  length_le := h.length_le
  tdh_eq := h.tdh_eq
  tdt_eq := h.tdt_eq
  txNext_eq := h.txNext_eq
  slots := by
    refine h.slots_of_ne fun k b hk hcarries => ?_
    have hne : k ≠ index := hindex ▸ hk
    simpa [Carries, txFrame, update_of_ne hne] using hcarries
  prepared := by
    have hlength : (UInt16.ofNat frame.length).toNat = frame.length := by
      have hsize : dmaBufferSize = 2048 := rfl
      exact UInt16.toNat_ofNat_of_lt' (by rw [UInt16.size]; omega)
    refine ⟨hindex, ?_, ?_⟩
    · simp only [update_self]
      rfl
    · simp only [txFrame, update_self, hlength]
      exact hbuffer

/-- The store to `TDT` queues the frame, if it leaves a slot. -/
lemma TxQueued.publish (h : TxQueued s g q) {frame : List UInt8} {index : ℕ}
    (hindex : index = g.handed.length % txCount) (hcarries : Carries s index frame)
    (hroom : (s.tdt + 1) % txCount ≠ s.tdh) :
    TxQueued { s with
      txNext := (index + 1) % txCount
      tdt := (index + 1) % txCount
      stage := .awaitDone index txSpins } { g with handed := g.handed ++ [frame] }
      (q ++ [frame]) where
  handed_eq := by simp [h.handed_eq]
  length_le := by
    obtain ⟨hhanded, hlen, htx⟩ := h.counts
    rw [h.tdt_eq, h.tdh_eq, htx] at hroom
    rw [length_append, length_singleton]
    omega
  tdh_eq := h.tdh_eq
  tdt_eq := by simp [hindex]
  txNext_eq := by simp [hindex]
  slots := by
    refine Ring.Holds.concat h.slots ?_
    rw [← h.counts.1, ← hindex]
    exact hcarries
  prepared := trivial

/-- The card completes the oldest queued frame. -/
lemma TxQueued.send (h : TxQueued s g q) :
    TxInvariant (send s).2 (g.note (.send, (send s).1)) := by
  obtain ⟨hhanded, hlen, htx⟩ := h.counts
  rw [E1000.send]
  split_ifs with hempty
  · exact ⟨q, h⟩
  cases q with
  | nil => exact absurd (by rw [h.tdh_eq, h.tdt_eq, hhanded]; rfl) hempty
  | cons frame q =>
    rw [length_cons] at hlen hhanded
    have hframe : txFrame s s.tdh = frame := by rw [h.tdh_eq]; exact h.slots.head.2
    refine ⟨q, ?_, by omega, ?_, h.tdt_eq, h.txNext_eq, ?_, ?_⟩
    · simp [Ledger.note, h.handed_eq, hframe]
    · simp [Ledger.note, h.tdh_eq]
    · -- the completed slot is the one a lap after it, so outside the rest of the queue
      have hrest := h.slots.tail
      simp only [Ledger.note, length_append, length_singleton]
      refine hrest.of_ne (i := g.sent.length + txCount) (by omega) (by omega) ?_
      intro k b hk hcarries
      rw [Nat.add_mod_right, ← h.tdh_eq] at hk
      simpa [Carries, txFrame, update_of_ne hk] using hcarries
    · have hprepared := h.prepared
      simp only [Ledger.note]
      generalize hstage : s.stage = stage at hprepared
      cases stage with
      | publish b index =>
        obtain ⟨hindex, hcarries⟩ := hprepared
        have hne : index ≠ s.tdh := by
          rw [hindex, h.tdh_eq]
          exact (Ring.slot_ne (by omega) (by omega)).symm
        refine ⟨hindex, ?_⟩
        simpa [Carries, txFrame, update_of_ne hne] using hcarries
      | idle => exact trivial
      | awaitSlot | copy | describe => exact hprepared
      | awaitDone index spins => exact trivial

/-- The driver's next step, unless it fills the ring. -/
lemma TxQueued.advance (h : TxQueued s g q) (hroom : LeavesSlot s .advance) :
    TxInvariant (advance s).2 (g.note (.advance, (advance s).1)) := by
  have hprepared := h.prepared
  unfold LeavesSlot at hroom
  rw [E1000.advance]
  generalize s.stage = stage at hprepared hroom
  cases stage with
  | idle => exact ⟨q, h⟩
  | awaitSlot frame index spins =>
    dsimp only
    split_ifs
    · exact ⟨q, h.stage hprepared⟩
    · exact ⟨q, h.stage trivial⟩
    · exact ⟨q, h.stage hprepared⟩
  | copy frame index => exact ⟨q, h.copy hprepared.1 hprepared.2⟩
  | describe frame index => exact ⟨q, h.describe hprepared.1 hprepared.2.1 hprepared.2.2⟩
  | publish frame index => exact ⟨q ++ [frame], h.publish hprepared.1 hprepared.2 hroom⟩
  | awaitDone index spins =>
    dsimp only
    split_ifs <;> exact ⟨q, h.stage trivial⟩

/-- The steps of the receive ring leave the transmit ring alone. -/
lemma TxQueued.receive (h : TxQueued s g q) (rxRing : ℕ → RxDescriptor)
    (rxBuffer : ℕ → List UInt8) (rxNext rdh rdt : ℕ) (filled : List Packet)
    (received : List (List UInt8)) :
    TxQueued { s with rxRing := rxRing, rxBuffer := rxBuffer, rxNext := rxNext, rdh := rdh,
                      rdt := rdt }
      { g with filled := filled, received := received } q where
  handed_eq := h.handed_eq
  length_le := h.length_le
  tdh_eq := h.tdh_eq
  tdt_eq := h.tdt_eq
  txNext_eq := h.txNext_eq
  slots := h.slots
  prepared := by
    have hprepared := h.prepared
    dsimp only
    generalize s.stage = stage at hprepared
    cases stage <;> exact hprepared

/-- **Every step that does not fill the ring keeps the invariant.** -/
lemma TxInvariant.step (h : TxInvariant s g) (i : Step) (hroom : LeavesSlot s i) :
    TxInvariant (step s i).2 (g.note (i, (step s i).1)) := by
  obtain ⟨q, h⟩ := h
  cases i with
  | transmit frame =>
    rw [E1000.step]
    split
    · exact h.transmit frame
    · exact ⟨q, h⟩
  | spin rounds => exact ⟨q, h.spin rounds⟩
  | advance => exact h.advance hroom
  | send => exact h.send
  | fill p =>
    rw [E1000.step, fill]
    split_ifs
    · exact ⟨q, h⟩
    · exact ⟨q, h.receive _ _ _ _ _ _ _⟩
  | poll =>
    rw [E1000.step, poll]
    split_ifs
    · exact ⟨q, h⟩
    · exact ⟨q, h⟩
    · exact ⟨q, h.receive _ _ _ _ _ _ _⟩
    · exact ⟨q, h.receive _ _ _ _ _ _ _⟩

/-- A store to `TDT` that makes it equal to `TDH` leaves sixteen frames queued. -/
lemma TxInvariant.not_sound_step (h : TxInvariant s g) (i : Step) (hfull : ¬ LeavesSlot s i) :
    ¬ TxSound (E1000.step s i).2 (g.note (i, (E1000.step s i).1)) := by
  obtain ⟨q, h⟩ := h
  unfold LeavesSlot at hfull
  split at hfull
  case h_1 frame index hstage =>
    intro hsound
    have hocc := hsound.occupancy_le
    simp only [E1000.step, E1000.advance, hstage, Ledger.note, Ledger.uncompleted,
      length_drop, length_append, length_singleton] at hocc
    obtain ⟨hhanded, hlen, htx⟩ := h.counts
    rw [not_not, h.tdt_eq, h.tdh_eq, htx] at hfull
    omega
  case h_2 => exact absurd trivial hfull

/-! ### Whole runs -/

/-- **The transmit ring.**  Take any run of the driver and of the card, with any
frames and any number of calls that time out.  In every state it reaches the
card has been sent the frames in order, at most fifteen are uncompleted, the
registers tell their number, and each is intact in its slot, exactly when each
of its stores to `TDT` leaves one slot of the ring unused. -/
theorem transmit_ring_sound_iff (is : List Step) :
    (∀ js, js <+: is → TxSound (after js) (ledger js)) ↔
      Runs.Legal step LeavesSlot e1000Init is :=
  Runs.forall_reached_iff_legal step (fun _ _ h => h.sound)
    (fun _ _ i h hroom => h.step i hroom) (fun _ _ i h hfull => h.not_sound_step i hfull)
    txInvariant_init is

/-- A call of `e1000_transmit` whose second wait runs out. -/
def timedOut (frame : List UInt8) : List Step :=
  [.transmit frame, .advance, .advance, .advance, .advance, .spin txSpins, .advance]

/-- Sixteen calls while the card stalls hand over sixteen descriptors.  `TDT` is
back at `TDH`, so the card has nothing to send. -/
theorem transmit_ring_overrun :
    let is := (List.replicate 16 (timedOut [0x2a])).flatten
    (ledger is).handed = List.replicate 16 [0x2a] ∧ (ledger is).sent = [] ∧
      (after is).tdt = (after is).tdh ∧ (step (after is) .send).1 = .silent ∧
      ¬ TxSound (after is) (ledger is) := by
  intro is
  have htail : (after is).tdt = (after is).tdh := by decide +kernel
  refine ⟨by decide +kernel, by decide +kernel, htail, ?_, fun hsound => ?_⟩
  · rw [step, send, if_pos htail.symm]
  · exact absurd hsound.occupancy_le (by decide +kernel)

end JoshOS.E1000
