import Mathlib.Tactic
import JoshOS.Lib.Ring
import JoshOS.E1000.Model

/-!
The receive ring of the network card driver.

The card fills descriptors from `RDH` on and may run ahead of the driver until
it meets `RDT`; `e1000_poll` takes them from `rx_next` on and returns each to
the card by storing its index in `RDT`.  At most 31 descriptors wait to be
polled, so `RDH` and `rx_next` tell how many they are.

* `RxQueued`: the waiting packets are in the slots from `rx_next` on, and the
  other descriptors are not done.
* `receive_ring_sound`: the frames passed to `net_receive` are those of the
  packets filled in, in order, up to the ones still waiting, which the next
  polls pass on.
-/

namespace JoshOS.E1000

open List

/-- The packet has no errors and a length that `e1000_poll` passes on. -/
def Packet.deliverable (p : Packet) : Bool :=
  p.errors == 0 && decide (14 ≤ p.length.toNat) && decide (p.length.toNat ≤ dmaBufferSize)

/-- The frames that a list of packets has for `net_receive`. -/
def deliveries (ps : List Packet) : List (List UInt8) :=
  (ps.filter Packet.deliverable).map Packet.frame

/-- The slot is as the card left it with this packet. -/
def Stores (s : State) (index : ℕ) (p : Packet) : Prop :=
  s.rxBuffer index = p.contents ∧
    s.rxRing index = ⟨p.length, statusDd ||| rxStatusEop, p.errors⟩

/-! ### The invariant -/

/-- The packets of `polled` have been taken by `e1000_poll`, and those of `q`
wait in the slots from `rx_next` on. -/
structure RxQueued (s : State) (g : Ledger) (polled q : List Packet) : Prop where
  ready : s.ready = true
  filled_eq : g.filled = polled ++ q
  received_eq : g.received = deliveries polled
  length_le : q.length ≤ rxCount - 1
  rxNext_eq : s.rxNext = polled.length % rxCount
  rdh_eq : s.rdh = (polled.length + q.length) % rxCount
  rdt_eq : s.rdt = (polled.length + (rxCount - 1)) % rxCount
  slots : Ring.Holds rxCount (Stores s) polled.length q
  free : ∀ j, q.length ≤ j → j < rxCount →
    done (s.rxRing ((polled.length + j) % rxCount)).status = false

/-- The invariant of the receive ring. -/
def RxInvariant (s : State) (g : Ledger) : Prop := ∃ polled q, RxQueued s g polled q

variable {s : State} {g : Ledger} {polled q : List Packet}

lemma done_zero : done 0 = false := by decide

lemma done_filled : done (statusDd ||| rxStatusEop) = true := by decide

/-- The rings after `e1000_init`. -/
lemma rxInvariant_init : RxInvariant e1000Init .empty :=
  ⟨[], [], rfl, rfl, rfl, Nat.zero_le _, rfl, rfl, rfl, Ring.holds_nil,
    fun _ _ _ => done_zero⟩

/-! ### The steps -/

lemma Stores.done {index : ℕ} {p : Packet} (h : Stores s index p) :
    done (s.rxRing index).status = true := by
  rw [h.2]
  exact done_filled

/-- The test of `e1000_poll` is that of the packet. -/
lemma Stores.accepts {index : ℕ} {p : Packet} (h : Stores s index p) :
    accepts (s.rxRing index) = p.deliverable := by
  rw [h.2]
  simp only [E1000.accepts, Packet.deliverable]
  have heop : ((statusDd ||| rxStatusEop) &&& rxStatusEop != 0) = true := by decide
  rw [heop, Bool.true_and]

/-- A descriptor is done at `rx_next` exactly when a packet waits. -/
lemma RxQueued.done_iff (h : RxQueued s g polled q) :
    done (s.rxRing s.rxNext).status = false ↔ q = [] := by
  rw [h.rxNext_eq]
  cases q with
  | nil => exact iff_of_true (h.free 0 le_rfl (by decide)) rfl
  | cons p q => exact iff_of_false (by simp [h.slots.head.done]) (by simp)

/-- The card fills the slot after the waiting ones. -/
lemma RxQueued.fill (h : RxQueued s g polled q) (p : Packet) :
    RxInvariant (fill s p).2 (g.note (.fill p, (fill s p).1)) := by
  have hlen := h.length_le
  have hrx : rxCount = 32 := rfl
  rw [E1000.fill]
  split_ifs with hfull
  · exact ⟨polled, q, h⟩
  have hroom : q.length < rxCount - 1 := by
    refine lt_of_le_of_ne hlen fun heq => hfull ?_
    rw [h.rdh_eq, h.rdt_eq, heq]
  refine ⟨polled, q ++ [p], h.ready, ?_, h.received_eq, ?_, h.rxNext_eq, ?_, h.rdt_eq, ?_, ?_⟩
  · simp [Ledger.note, h.filled_eq]
  · rw [length_append, length_singleton]
    exact hroom
  · simp [h.rdh_eq, add_assoc]
  · refine Ring.Holds.concat (h.slots.of_ne le_rfl (by omega) fun k b hk hstores => ?_) ?_
    · rw [← h.rdh_eq] at hk
      simpa [Stores, Function.update_of_ne hk] using hstores
    · rw [← h.rdh_eq]
      simp [Stores]
  · intro j hj hlt
    rw [length_append, length_singleton] at hj
    have hne : (polled.length + j) % rxCount ≠ s.rdh := by
      rw [h.rdh_eq]
      exact (Ring.slot_ne (by omega) (by omega)).symm
    simpa [Function.update_of_ne hne] using h.free j (by omega) hlt

/-- `e1000_poll` does nothing when no packet waits. -/
lemma RxQueued.poll_nil (h : RxQueued s g polled []) : poll s = (.silent, s) := by
  rw [E1000.poll, if_neg (by simp [h.ready]), if_pos (h.done_iff.mpr rfl)]

/-- `e1000_poll` takes the oldest waiting packet, passes it on if it is in order, and returns
its slot. -/
lemma RxQueued.poll {p : Packet} (h : RxQueued s g polled (p :: q)) :
    (poll s).1 = (if p.deliverable then .received p.frame else .released) ∧
      RxQueued (poll s).2 (g.note (.poll, (poll s).1)) (polled ++ [p]) q := by
  have hlen := h.length_le
  have hrx : rxCount = 32 := rfl
  rw [length_cons] at hlen
  have hstores : Stores s s.rxNext p := by
    rw [h.rxNext_eq]
    exact h.slots.head
  have hframe : (s.rxBuffer s.rxNext).take (s.rxRing s.rxNext).length.toNat = p.frame := by
    rw [hstores.1, hstores.2]
    rfl
  rw [E1000.poll, if_neg (by simp [h.ready]), if_neg (by simp [hstores.done]), hstores.accepts,
    hframe]
  refine ⟨rfl, h.ready, ?_, ?_, by omega, ?_, ?_, ?_, ?_, ?_⟩
  · cases hp : p.deliverable <;> simp [Ledger.note, h.filled_eq]
  · cases hp : p.deliverable <;> simp [Ledger.note, h.received_eq, deliveries, hp]
  · simp [h.rxNext_eq]
  · rw [length_append, length_singleton]
    exact h.rdh_eq.trans (by rw [length_cons]; congr 1; omega)
  · rw [length_append, length_singleton]
    exact h.rxNext_eq.trans (by rw [hrx]; omega)
  · -- the released slot is the one a lap after it, so outside the rest of the queue
    rw [length_append, length_singleton]
    refine h.slots.tail.of_ne (i := polled.length + rxCount) (by omega) (by omega) ?_
    intro k b hk hstores'
    rw [Nat.add_mod_right, ← h.rxNext_eq] at hk
    simpa [Stores, Function.update_of_ne hk] using hstores'
  · intro j hj hlt
    rw [length_append, length_singleton]
    by_cases hlast : j + 1 = rxCount
    · have hslot : (polled.length + 1 + j) % rxCount = s.rxNext := by
        rw [h.rxNext_eq, add_assoc, add_comm 1 j, hlast, Nat.add_mod_right]
      simp only [hslot, Function.update_self]
      exact done_zero
    · have hne : (polled.length + 1 + j) % rxCount ≠ s.rxNext := by
        rw [h.rxNext_eq]
        exact (Ring.slot_ne (by omega) (by omega)).symm
      have hfree := h.free (j + 1) (by simpa using hj) (by omega)
      rw [show polled.length + (j + 1) = polled.length + 1 + j by omega] at hfree
      simpa [Function.update_of_ne hne] using hfree

/-- The steps of the transmit ring leave the receive ring alone. -/
lemma RxQueued.transmit (h : RxQueued s g polled q) (txRing : ℕ → TxDescriptor)
    (txBuffer : ℕ → List UInt8) (txNext tdh tdt : ℕ) (stage : Stage)
    (handed sent : List (List UInt8)) :
    RxQueued { s with txRing := txRing, txBuffer := txBuffer, txNext := txNext, tdh := tdh,
                      tdt := tdt, stage := stage }
      { g with handed := handed, sent := sent } polled q :=
  ⟨h.ready, h.filled_eq, h.received_eq, h.length_le, h.rxNext_eq, h.rdh_eq, h.rdt_eq, h.slots,
    h.free⟩

/-- **Every step of the driver and of the card keeps the invariant.** -/
lemma RxInvariant.step (h : RxInvariant s g) (i : Step) :
    RxInvariant (step s i).2 (g.note (i, (step s i).1)) := by
  obtain ⟨polled, q, h⟩ := h
  have htx := h.transmit
  cases i with
  | transmit frame =>
    rw [E1000.step]
    split
    · rw [E1000.transmit]
      split_ifs
      · exact ⟨polled, q, h⟩
      · exact ⟨polled, q, htx _ _ _ _ _ _ _ _⟩
    · exact ⟨polled, q, h⟩
  | spin rounds =>
    rw [E1000.step, spin]
    split
    · exact ⟨polled, q, htx _ _ _ _ _ _ _ _⟩
    · exact ⟨polled, q, htx _ _ _ _ _ _ _ _⟩
    · exact ⟨polled, q, h⟩
  | advance =>
    rw [E1000.step, advance]
    split
    · exact ⟨polled, q, h⟩
    · split_ifs <;> exact ⟨polled, q, htx _ _ _ _ _ _ _ _⟩
    · exact ⟨polled, q, htx _ _ _ _ _ _ _ _⟩
    · exact ⟨polled, q, htx _ _ _ _ _ _ _ _⟩
    · exact ⟨polled, q, htx _ _ _ _ _ _ _ _⟩
    · split_ifs <;> exact ⟨polled, q, htx _ _ _ _ _ _ _ _⟩
  | send =>
    rw [E1000.step, send]
    split_ifs
    · exact ⟨polled, q, h⟩
    · exact ⟨polled, q, htx _ _ _ _ _ _ _ _⟩
  | fill p => exact h.fill p
  | poll =>
    cases q with
    | nil =>
      rw [E1000.step, h.poll_nil]
      exact ⟨polled, [], h⟩
    | cons p q => exact ⟨polled ++ [p], q, h.poll.2⟩

/-! ### Whole runs -/

/-- After the run the packets of `polled` have been taken and those of `waiting` wait: the
packets filled in are the two together, and the frames passed to `net_receive` are those of
the packets taken that have no errors and a length from 14 to 2048, in order and each once.
None waits exactly when `e1000_poll` finds no descriptor done.  The waiting packets are in
the slots from `rx_next` on, where the card does not fill, and `RDT` is just behind
`rx_next`. -/
structure RxSound (is : List Step) (polled waiting : List Packet) : Prop where
  filled_eq : (ledger is).filled = polled ++ waiting
  received_eq : (ledger is).received = (polled.filter Packet.deliverable).map Packet.frame
  none_iff : waiting = [] ↔ done ((after is).rxRing (after is).rxNext).status = false
  length_eq : waiting.length = ((after is).rdh + rxCount - (after is).rxNext) % rxCount
  slots : Ring.Holds rxCount (Stores (after is)) (after is).rxNext waiting
  apart : ∀ j < waiting.length, ((after is).rxNext + j) % rxCount ≠ (after is).rdh
  rdt_eq : (after is).rdt = ((after is).rxNext + (rxCount - 1)) % rxCount

lemma RxQueued.sound {is : List Step} (h : RxQueued (after is) (ledger is) polled q) :
    RxSound is polled q := by
  have hlen := h.length_le
  have hrx : rxCount = 32 := rfl
  refine ⟨h.filled_eq, h.received_eq, h.done_iff.symm, ?_, ?_, ?_, ?_⟩
  · rw [h.rdh_eq, h.rxNext_eq, Ring.distance_eq (by omega) (by omega)]
    omega
  · rw [h.rxNext_eq, Ring.holds_mod_iff]
    exact h.slots
  · intro j hj
    rw [h.rxNext_eq, h.rdh_eq, Nat.mod_add_mod]
    exact Ring.slot_ne (by omega) (by omega)
  · rw [h.rdt_eq, h.rxNext_eq, Nat.mod_add_mod]

/-- **The receive ring.**  After any run of the driver and of the card, the packets filled in
are those that `e1000_poll` has taken, in order, followed by those that wait in their slots.
If none waits, the next `e1000_poll` does nothing.  Otherwise it takes the oldest one and
passes its frame to `net_receive` exactly when it has no errors and a length from 14 to 2048,
and the ring is again as described. -/
theorem receive_ring_sound (is : List Step) :
    ∃ polled waiting, RxSound is polled waiting ∧
      (waiting = [] → poll (after is) = (.silent, after is)) ∧
      ∀ p rest, waiting = p :: rest →
        (poll (after is)).1 = (if p.deliverable then .received p.frame else .released) ∧
        RxSound (is ++ [.poll]) (polled ++ [p]) rest := by
  have hinvariant : RxInvariant (after is) (ledger is) :=
    Runs.ghost_induction step (fun _ _ i h => h.step i) rxInvariant_init is
  obtain ⟨polled, q, h⟩ := hinvariant
  refine ⟨polled, q, h.sound, ?_, ?_⟩
  · rintro rfl
    exact h.poll_nil
  · rintro p rest rfl
    refine ⟨h.poll.1, RxQueued.sound ?_⟩
    have hnext := h.poll.2
    rw [after, ledger, Runs.final_append, Runs.trace_append, List.foldl_append]
    exact hnext

/-- A frame of fourteen bytes is passed on, and the ring is empty again. -/
theorem receive_ring_sound_frame :
    let p : Packet := ⟨List.replicate 14 0x2a, 14, 0⟩
    (poll (after [.fill p])).1 = .received (List.replicate 14 0x2a) ∧
      RxSound [.fill p, .poll] [p] [] := by
  intro p
  obtain ⟨polled, waiting, h, -, hpoll⟩ := receive_ring_sound [.fill p]
  have hfilled : [p] = polled ++ waiting := h.filled_eq
  have hone : waiting.length = 1 := h.length_eq.trans (by decide)
  cases polled with
  | nil => exact hpoll p [] hfilled.symm
  | cons a l =>
    have hlen := congrArg List.length hfilled
    simp only [List.cons_append, List.length_cons, List.length_append, List.length_nil] at hlen
    omega

end JoshOS.E1000
