import JoshOS.Lib.Runs
import JoshOS.Net.Device

/-!
The descriptor rings of the network card driver (`kernel/src/e1000.c`).

The driver and the card share two rings of descriptors.  The model is one
machine whose inputs are the steps of both sides, in any order: the driver's
steps through `e1000_transmit`, the iterations of `e1000_poll`, and the steps
by which the card sends or fills one descriptor.  Each descriptor's buffer is
that of the same index, as `setup_rings` fixes the addresses for good, so
addresses are left out, and so are the descriptor fields that neither side
reads.
-/

namespace JoshOS.E1000

open JoshOS.Net (NetStatus)

/-- `TX_COUNT`. -/
def txCount : ℕ := 16

/-- `RX_COUNT`. -/
def rxCount : ℕ := 32

/-- `DMA_BUFFER_SIZE`. -/
def dmaBufferSize : ℕ := 2048

/-- `TX_SPINS`. -/
def txSpins : ℕ := 1000000

/-- `PMM_PAGE_SIZE`, the size of the zeroed page behind each buffer. -/
def pageSize : ℕ := 4096

/-- `TX_STATUS_DD`, and `RX_STATUS_DD` of the same value. -/
def statusDd : UInt8 := 0x01

/-- `RX_STATUS_EOP`. -/
def rxStatusEop : UInt8 := 0x02

/-- `TX_CMD_EOP | TX_CMD_IFCS | TX_CMD_RS`. -/
def txCommand : UInt8 := 0x01 ||| 0x02 ||| 0x08

/-- `tx_descriptor_t`, without the address of its buffer. -/
structure TxDescriptor where
  length : UInt16
  checksumOffset : UInt8
  command : UInt8
  status : UInt8
  checksumStart : UInt8
  special : UInt16

/-- `rx_descriptor_t`: the fields that `e1000_poll` reads. -/
structure RxDescriptor where
  length : UInt16
  status : UInt8
  errors : UInt8

/-- `descriptor->status & DD` is not zero. -/
def done (status : UInt8) : Bool := status &&& statusDd != 0

/-- Where `e1000_transmit` stands between two of its accesses to what it shares
with the card.  `index` is its local copy of `tx_next`. -/
inductive Stage where
  /-- No call is in progress. -/
  | idle
  /-- The first wait loop, with this many rounds left. -/
  | awaitSlot (frame : List UInt8) (index spins : ℕ)
  /-- Before `copy_bytes`. -/
  | copy (frame : List UInt8) (index : ℕ)
  /-- Before the stores to the descriptor. -/
  | describe (frame : List UInt8) (index : ℕ)
  /-- Before the stores to `tx_next` and `TDT`. -/
  | publish (frame : List UInt8) (index : ℕ)
  /-- The second wait loop, with this many rounds left. -/
  | awaitDone (index spins : ℕ)

/-- `e1000_state_t` with the card's head and tail registers. -/
structure State where
  ready : Bool
  txRing : ℕ → TxDescriptor
  txBuffer : ℕ → List UInt8
  txNext : ℕ
  tdh : ℕ
  tdt : ℕ
  stage : Stage
  rxRing : ℕ → RxDescriptor
  rxBuffer : ℕ → List UInt8
  rxNext : ℕ
  rdh : ℕ
  rdt : ℕ

/-- A successful `setup_rings`. -/
def setupRings : State where
  ready := false
  txRing _ := ⟨0, 0, 0, statusDd, 0, 0⟩
  txBuffer _ := List.replicate pageSize 0
  txNext := 0
  tdh := 0
  tdt := 0
  stage := .idle
  rxRing _ := ⟨0, 0, 0⟩
  rxBuffer _ := List.replicate pageSize 0
  rxNext := 0
  rdh := 0
  rdt := rxCount - 1

/-- A successful `e1000_init`. -/
def e1000Init : State := { setupRings with ready := true }

/-- What the card leaves in a receive buffer and its descriptor. -/
structure Packet where
  contents : List UInt8
  length : UInt16
  errors : UInt8

/-- The frame a packet carries. -/
def Packet.frame (p : Packet) : List UInt8 := p.contents.take p.length.toNat

/-- The steps of the driver and of the card. -/
inductive Step where
  /-- `e1000_transmit` is called with a frame. -/
  | transmit (frame : List UInt8)
  /-- The wait loop that the driver is in makes up to this many rounds with no
  step of the card between them. -/
  | spin (rounds : ℕ)
  /-- The driver makes its next step. -/
  | advance
  /-- The card sends the descriptor at `TDH`. -/
  | send
  /-- The card fills the descriptor at `RDH`. -/
  | fill (packet : Packet)
  /-- `e1000_poll` makes one iteration. -/
  | poll

/-- What a step lets the outside see. -/
inductive Answer where
  | silent
  /-- `e1000_transmit` returns. -/
  | returned (status : NetStatus)
  /-- A descriptor with this frame is handed to the card. -/
  | handed (frame : List UInt8)
  /-- The card completes a descriptor with these bytes. -/
  | sent (frame : List UInt8)
  /-- The card fills a descriptor. -/
  | filled (packet : Packet)
  /-- `e1000_poll` passes a frame to `net_receive` and releases its descriptor. -/
  | received (frame : List UInt8)
  /-- `e1000_poll` releases a descriptor only. -/
  | released

/-! ### `e1000_transmit` -/

/-- The argument checks, up to the first wait loop. -/
def transmit (s : State) (frame : List UInt8) : Answer × State :=
  if s.ready = false ∨ frame.length = 0 ∨ dmaBufferSize < frame.length then
    (.returned .badArgument, s)
  else (.silent, { s with stage := .awaitSlot frame s.txNext txSpins })

/-- `copy_bytes` to the start of a buffer. -/
def copyBytes (buffer frame : List UInt8) : List UInt8 := frame ++ buffer.drop frame.length

/-- Up to `rounds` rounds of a wait loop, with `spins` left, on one descriptor. -/
def spinOn (s : State) (index spins rounds : ℕ) : ℕ :=
  if done (s.txRing index).status then spins else spins - rounds

/-- The driver's next step in `e1000_transmit`.  In a wait loop it is one more
round while the loop goes on, and otherwise what follows the loop. -/
def advance (s : State) : Answer × State :=
  match s.stage with
  | .idle => (.silent, s)
  | .awaitSlot frame index spins =>
    if 0 < spins ∧ done (s.txRing index).status = false then
      (.silent, { s with stage := .awaitSlot frame index (spins - 1) })
    else if done (s.txRing index).status = false then
      (.returned .driverError, { s with stage := .idle })
    else (.silent, { s with stage := .copy frame index })
  | .copy frame index =>
    (.silent, { s with
      txBuffer := Function.update s.txBuffer index (copyBytes (s.txBuffer index) frame)
      stage := .describe frame index })
  | .describe frame index =>
    (.silent, { s with
      txRing := Function.update s.txRing index
        ⟨UInt16.ofNat frame.length, 0, txCommand, 0, 0, 0⟩
      stage := .publish frame index })
  | .publish frame index =>
    (.handed frame, { s with
      txNext := (index + 1) % txCount
      tdt := (index + 1) % txCount
      stage := .awaitDone index txSpins })
  | .awaitDone index spins =>
    if 0 < spins ∧ done (s.txRing index).status = false then
      (.silent, { s with stage := .awaitDone index (spins - 1) })
    else if done (s.txRing index).status then
      (.returned .ok, { s with stage := .idle })
    else (.returned .driverError, { s with stage := .idle })

/-- Rounds of the wait loop that the driver is in, if it is in one. -/
def spin (s : State) (rounds : ℕ) : State :=
  match s.stage with
  | .awaitSlot frame index spins =>
    { s with stage := .awaitSlot frame index (spinOn s index spins rounds) }
  | .awaitDone index spins =>
    { s with stage := .awaitDone index (spinOn s index spins rounds) }
  | _ => s

/-- The bytes that a transmit descriptor tells the card to send. -/
def txFrame (s : State) (index : ℕ) : List UInt8 :=
  (s.txBuffer index).take (s.txRing index).length.toNat

/-- The card sends the descriptor at `TDH`, unless `TDH = TDT`. -/
def send (s : State) : Answer × State :=
  if s.tdh = s.tdt then (.silent, s)
  else
    let descriptor := s.txRing s.tdh
    (.sent (txFrame s s.tdh), { s with
      txRing := Function.update s.txRing s.tdh
        { descriptor with status := descriptor.status ||| statusDd }
      tdh := (s.tdh + 1) % txCount })

/-! ### `e1000_poll` -/

/-- The test before `net_receive`. -/
def accepts (d : RxDescriptor) : Bool :=
  d.status &&& rxStatusEop != 0 && d.errors == 0 &&
    decide (14 ≤ d.length.toNat) && decide (d.length.toNat ≤ dmaBufferSize)

/-- One iteration of the loop of `e1000_poll`. -/
def poll (s : State) : Answer × State :=
  let d := s.rxRing s.rxNext
  if s.ready = false then (.silent, s)
  else if done d.status = false then (.silent, s)
  else
    (if accepts d then .received ((s.rxBuffer s.rxNext).take d.length.toNat) else .released,
      { s with
        rxRing := Function.update s.rxRing s.rxNext { d with status := 0, errors := 0 }
        rdt := s.rxNext
        rxNext := (s.rxNext + 1) % rxCount })

/-- The card fills the descriptor at `RDH`, unless `RDH = RDT`. -/
def fill (s : State) (p : Packet) : Answer × State :=
  if s.rdh = s.rdt then (.silent, s)
  else
    (.filled p, { s with
      rxBuffer := Function.update s.rxBuffer s.rdh p.contents
      rxRing := Function.update s.rxRing s.rdh ⟨p.length, statusDd ||| rxStatusEop, p.errors⟩
      rdh := (s.rdh + 1) % rxCount })

/-- One step of the driver or of the card.  A call of `e1000_transmit` while one
is in progress does not occur, and is no step. -/
def step (s : State) : Step → Answer × State
  | .transmit frame =>
    match s.stage with
    | .idle => transmit s frame
    | _ => (.silent, s)
  | .spin rounds => (.silent, spin s rounds)
  | .advance => advance s
  | .send => send s
  | .fill p => fill s p
  | .poll => poll s

/-! ### What has passed through the rings -/

/-- The frames handed to the card and sent by it, the packets it has filled in
and the frames passed to `net_receive`, each in order. -/
structure Ledger where
  handed : List (List UInt8)
  sent : List (List UInt8)
  filled : List Packet
  received : List (List UInt8)

/-- Nothing has passed yet. -/
def Ledger.empty : Ledger := ⟨[], [], [], []⟩

/-- The ledger after one more step. -/
def Ledger.note (g : Ledger) (e : Step × Answer) : Ledger :=
  match e.2 with
  | .handed frame => { g with handed := g.handed ++ [frame] }
  | .sent frame => { g with sent := g.sent ++ [frame] }
  | .filled p => { g with filled := g.filled ++ [p] }
  | .received frame => { g with received := g.received ++ [frame] }
  | .silent | .returned _ | .released => g

/-- The ledger of a run from `e1000_init` on. -/
def ledger (is : List Step) : Ledger :=
  (Runs.trace step e1000Init is).foldl Ledger.note .empty

/-- The state after a run from `e1000_init` on. -/
def after (is : List Step) : State := Runs.final step e1000Init is

end JoshOS.E1000
