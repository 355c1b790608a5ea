import JoshOS.Lib.Runs
import JoshOS.Lib.Slots

/-!
The network devices and the loopback device (`kernel/src/net.c`).

A frame is the list of its bytes, and the name and hardware address of a device, which nothing
here reads, are left out.  Null pointers for the frame, the configuration and the identifier
to write are left out too.  The outcome of a driver other than the loopback is part of the
call that makes it transmit.

* `Loopbacks`: the loopback devices of a run, and the one context they share.
* `loopback_delivers_iff`: a frame sent to a loopback device comes back from it exactly when
  no receiver is set or no loopback device has been registered after it.
* `loopback_misdelivers`: two loopback devices.
-/

open Slots

namespace JoshOS.Net

/-- `net_status_t`. -/
inductive NetStatus where
  | ok | badArgument | noCapacity | notFound | frameTooLarge | driverError
deriving DecidableEq, Repr

/-- `JOSH_NET_MAX_DEVICES`. -/
def joshNetMaxDevices : ℕ := 8

/-- `JOSH_NET_MAX_FRAME`. -/
def joshNetMaxFrame : ℕ := 1600

/-- A `net_transmit_fn` with its context: none, one outside this file by its address and
that of its context, or `loopback_transmit` with `loopback_context`. -/
inductive TransmitFn where
  | null
  | driver (address context : UInt64)
  | loopback
deriving DecidableEq, Repr

/-- `net_device_config_t`. -/
structure NetDeviceConfig where
  mtu : UInt16
  transmit : TransmitFn
deriving DecidableEq

/-- `net_stats_t`. -/
structure NetStats where
  registeredDevices : UInt32 := 0
  transmittedFrames : UInt64 := 0
  transmittedBytes : UInt64 := 0
  receivedFrames : UInt64 := 0
  receivedBytes : UInt64 := 0
  droppedFrames : UInt64 := 0
deriving DecidableEq

/-- The variables of `net.c`.  A device that is not active is none; a receiver of address 0
is the null pointer. -/
structure NetState where
  devices : Fin joshNetMaxDevices → Option NetDeviceConfig
  upperReceiver : UInt64
  upperReceiverContext : UInt64
  stats : NetStats
  loopbackContext : UInt32

/-- A call of the upper receiver. -/
structure Upcall where
  receiver : UInt64
  deviceId : UInt32
  frame : List UInt8
  context : UInt64
deriving DecidableEq

/-- `net_init`, which leaves the context of the loopback devices as it is. -/
def netInit (s : NetState) : NetState :=
  { s with devices := fun _ => none, stats := {}, upperReceiver := 0, upperReceiverContext := 0 }

/-- The configuration of an active device. -/
def NetState.device (s : NetState) (deviceId : UInt32) : Option NetDeviceConfig :=
  if h : deviceId.toNat < joshNetMaxDevices then s.devices ⟨deviceId.toNat, h⟩ else none

/-- The identifier is that of the new device. -/
def netRegisterDevice (s : NetState) (config : NetDeviceConfig) :
    Except NetStatus UInt32 × NetState :=
  if config.transmit = .null ∨ config.mtu = 0 then (.error .badArgument, s)
  else
    match firstSlot fun i => (s.devices i).isNone with
    | some i =>
      (.ok (UInt32.ofNat i.val),
        { s with
          devices := Function.update s.devices i (some config)
          stats := { s.stats with registeredDevices := s.stats.registeredDevices + 1 } })
    | none => (.error .noCapacity, s)

/-- A frame counted as dropped. -/
def NetState.drop (s : NetState) : NetState :=
  { s with stats := { s.stats with droppedFrames := s.stats.droppedFrames + 1 } }

/-- A frame that is too long for a device. -/
def NetDeviceConfig.TooLong (config : NetDeviceConfig) (frame : List UInt8) : Prop :=
  config.mtu.toNat + 14 < frame.length ∨ joshNetMaxFrame < frame.length

instance (config : NetDeviceConfig) (frame : List UInt8) : Decidable (config.TooLong frame) :=
  inferInstanceAs (Decidable (_ ∨ _))

/-- The call that hands a frame up, if a receiver is set. -/
def NetState.upcalls (s : NetState) (deviceId : UInt32) (frame : List UInt8) : List Upcall :=
  if s.upperReceiver = 0 then []
  else [⟨s.upperReceiver, deviceId, frame, s.upperReceiverContext⟩]

/-- The status, the calls of the upper receiver and the state. -/
def netReceive (s : NetState) (deviceId : UInt32) (frame : List UInt8) :
    NetStatus × List Upcall × NetState :=
  if frame.length = 0 then (.badArgument, [], s)
  else
    match s.device deviceId with
    | none => (.notFound, [], s)
    | some config =>
      if config.TooLong frame then (.frameTooLarge, [], s.drop)
      else
        (.ok, s.upcalls deviceId frame, { s with stats := { s.stats with
          receivedFrames := s.stats.receivedFrames + 1
          receivedBytes := s.stats.receivedBytes + UInt64.ofNat frame.length } })

def loopbackTransmit (s : NetState) (frame : List UInt8) : NetStatus × List Upcall × NetState :=
  netReceive s s.loopbackContext frame

/-- A call of the function of a device.  A driver elsewhere answers with `outcome`. -/
def TransmitFn.call (transmit : TransmitFn) (s : NetState) (frame : List UInt8)
    (outcome : NetStatus) : NetStatus × List Upcall × NetState :=
  match transmit with
  | .loopback => loopbackTransmit s frame
  | _ => (outcome, [], s)

def netSend (s : NetState) (deviceId : UInt32) (frame : List UInt8) (outcome : NetStatus) :
    NetStatus × List Upcall × NetState :=
  if frame.length = 0 then (.badArgument, [], s)
  else
    match s.device deviceId with
    | none => (.notFound, [], s)
    | some config =>
      if config.TooLong frame then (.frameTooLarge, [], s.drop)
      else
        match config.transmit.call s frame outcome with
        | (.ok, upcalls, s) =>
          (.ok, upcalls, { s with stats := { s.stats with
            transmittedFrames := s.stats.transmittedFrames + 1
            transmittedBytes := s.stats.transmittedBytes + UInt64.ofNat frame.length } })
        | (_, upcalls, s) => (.driverError, upcalls, s.drop)

def netSetReceiver (s : NetState) (receiver context : UInt64) : NetState :=
  { s with upperReceiver := receiver, upperReceiverContext := context }

/-- The configuration that `net_loopback_register` registers. -/
def loopbackConfig : NetDeviceConfig := ⟨1500, .loopback⟩

def netLoopbackRegister (s : NetState) : Except NetStatus UInt32 × NetState :=
  match netRegisterDevice s loopbackConfig with
  | (.ok id, s) => (.ok id, { s with loopbackContext := id })
  | (.error status, s) => (.error status, s)

/-! ### Calls -/

/-- The calls of the layer.  No caller elsewhere can name `loopback_transmit`. -/
inductive NetCall where
  | register (mtu : UInt16) (transmit : Option (UInt64 × UInt64))
  | loopbackRegister
  | setReceiver (receiver context : UInt64)
  | send (deviceId : UInt32) (frame : List UInt8) (outcome : NetStatus)
  | receive (deviceId : UInt32) (frame : List UInt8)

/-- What a caller sees. -/
inductive NetAnswer where
  | registered (result : Except NetStatus UInt32)
  | moved (status : NetStatus) (upcalls : List Upcall)
  | done

namespace NetState

/-- One call. -/
def step (s : NetState) : NetCall → NetAnswer × NetState
  | .register mtu transmit =>
    let r := netRegisterDevice s
      ⟨mtu, transmit.elim .null fun pointers => .driver pointers.1 pointers.2⟩
    (.registered r.1, r.2)
  | .loopbackRegister =>
    let r := netLoopbackRegister s
    (.registered r.1, r.2)
  | .setReceiver receiver context => (.done, netSetReceiver s receiver context)
  | .send deviceId frame outcome =>
    let r := netSend s deviceId frame outcome
    (.moved r.1 r.2.1, r.2.2)
  | .receive deviceId frame =>
    let r := netReceive s deviceId frame
    (.moved r.1 r.2.1, r.2.2)

/-- The state after a list of calls, from `net_init` on. -/
def after (s : NetState) (calls : List NetCall) : NetState := Runs.final step (netInit s) calls

/-- The identifiers of the loopback devices, with that of one more call. -/
def noteLoopback (ids : List UInt32) : NetCall × NetAnswer → List UInt32
  | (.loopbackRegister, .registered (.ok id)) => ids ++ [id]
  | _ => ids

/-- The identifiers that `net_loopback_register` gave in a run, in order. -/
def loopbackIds (s : NetState) (calls : List NetCall) : List UInt32 :=
  (Runs.trace step (netInit s) calls).foldl noteLoopback []

end NetState

/-! ### A frame sent to a loopback device -/

variable {s : NetState} {d : UInt32} {frame : List UInt8} {ids : List UInt32}

/-- The counters after one frame was sent and received. -/
def NetStats.looped (stats : NetStats) (frame : List UInt8) : NetStats :=
  { stats with
    transmittedFrames := stats.transmittedFrames + 1
    transmittedBytes := stats.transmittedBytes + UInt64.ofNat frame.length
    receivedFrames := stats.receivedFrames + 1
    receivedBytes := stats.receivedBytes + UInt64.ofNat frame.length }

/-- A frame that a loopback device takes comes back from the device that the context
names. -/
lemma netSend_loopback (hdevice : s.device d = some loopbackConfig)
    (hcontext : s.device s.loopbackContext = some loopbackConfig) (hne : frame.length ≠ 0)
    (hfits : ¬ loopbackConfig.TooLong frame) (outcome : NetStatus) :
    netSend s d frame outcome =
      (.ok, s.upcalls s.loopbackContext frame, { s with stats := s.stats.looped frame }) := by
  have hcall : loopbackConfig.transmit.call s frame outcome =
      netReceive s s.loopbackContext frame := rfl
  rw [netSend, if_neg hne, hdevice]
  simp only [if_neg hfits, hcall, netReceive, if_neg hne, hcontext, NetStats.looped]

/-- Only a frame of a proper size is taken. -/
lemma fits_of_netSend_ok {config : NetDeviceConfig} {outcome : NetStatus}
    (hdevice : s.device d = some config) (h : (netSend s d frame outcome).1 = .ok) :
    frame.length ≠ 0 ∧ ¬ config.TooLong frame := by
  rw [netSend] at h
  split_ifs at h with hempty
  rw [hdevice] at h
  refine ⟨hempty, fun hlong => ?_⟩
  simp [hlong] at h

/-! ### The loopback devices of a run -/

/-- The loopback devices with these identifiers are there, and the context names the one
registered last. -/
structure Loopbacks (s : NetState) (ids : List UInt32) : Prop where
  device : ∀ id ∈ ids, s.device id = some loopbackConfig
  context : ∀ id, ids.getLast? = some id → s.loopbackContext = id

lemma loopbacks_init (s : NetState) : Loopbacks (netInit s) [] := by
  refine ⟨fun id h => ?_, fun id h => ?_⟩
  · cases h
  · cases h

/-- Frames that come and go leave the devices and the context alone. -/
lemma Loopbacks.same {s' : NetState} (h : Loopbacks s ids) (hdevices : s'.devices = s.devices)
    (hcontext : s'.loopbackContext = s.loopbackContext) : Loopbacks s' ids := by
  refine ⟨fun id hid => ?_, fun id hid => hcontext.trans (h.context id hid)⟩
  rw [NetState.device, hdevices]
  exact h.device id hid

lemma netReceive_same (s : NetState) (d : UInt32) (frame : List UInt8) :
    (netReceive s d frame).2.2.devices = s.devices ∧
      (netReceive s d frame).2.2.loopbackContext = s.loopbackContext := by
  rw [netReceive]
  split_ifs
  · exact ⟨rfl, rfl⟩
  · split
    · exact ⟨rfl, rfl⟩
    · split_ifs
      · exact ⟨rfl, rfl⟩
      · exact ⟨rfl, rfl⟩

lemma netSend_same (s : NetState) (d : UInt32) (frame : List UInt8) (outcome : NetStatus) :
    (netSend s d frame outcome).2.2.devices = s.devices ∧
      (netSend s d frame outcome).2.2.loopbackContext = s.loopbackContext := by
  have hcall (transmit : TransmitFn) :
      (transmit.call s frame outcome).2.2.devices = s.devices ∧
        (transmit.call s frame outcome).2.2.loopbackContext = s.loopbackContext := by
    cases transmit with
    | null | driver => exact ⟨rfl, rfl⟩
    | loopback => exact netReceive_same s s.loopbackContext frame
  rw [netSend]
  split_ifs
  · exact ⟨rfl, rfl⟩
  · split
    · exact ⟨rfl, rfl⟩
    next config hdevice =>
      split_ifs
      · exact ⟨rfl, rfl⟩
      · have hsame := hcall config.transmit
        generalize config.transmit.call s frame outcome = r at hsame ⊢
        obtain ⟨status, upcalls, s'⟩ := r
        cases status <;> exact hsame

/-- A new device takes a slot of its own: none that is there changes, and its identifier is
that of its slot. -/
lemma netRegisterDevice_ok {config : NetDeviceConfig} {id : UInt32} {s' : NetState}
    (h : netRegisterDevice s config = (.ok id, s')) :
    s'.device id = some config ∧ s'.loopbackContext = s.loopbackContext ∧
      ∀ d c, s.device d = some c → s'.device d = some c := by
  rw [netRegisterDevice] at h
  split_ifs at h with hbad
  · cases h
  · cases hfree : firstSlot fun i => (s.devices i).isNone with
    | none =>
      rw [hfree] at h
      cases h
    | some i =>
      rw [hfree] at h
      obtain ⟨hid, rfl⟩ := Prod.mk.inj h
      have hi : (UInt32.ofNat i.val).toNat = i.val := by
        have := i.isLt
        have : joshNetMaxDevices = 8 := rfl
        rw [UInt32.toNat_ofNat']
        omega
      obtain rfl := Except.ok.inj hid
      refine ⟨?_, rfl, fun d c hd => ?_⟩
      · simp [NetState.device, hi]
      · rw [NetState.device] at hd ⊢
        split_ifs at hd ⊢ with hlt
        have hother : (⟨d.toNat, hlt⟩ : Fin joshNetMaxDevices) ≠ i := by
          rintro rfl
          simpa [hd] using firstSlot_some hfree
        exact (Function.update_of_ne hother _ _).trans hd

lemma netRegisterDevice_error {config : NetDeviceConfig} {status : NetStatus} {s' : NetState}
    (h : netRegisterDevice s config = (.error status, s')) : s' = s := by
  rw [netRegisterDevice] at h
  split_ifs at h with hbad
  · exact (Prod.mk.inj h).2.symm
  · split at h
    · cases h
    · exact (Prod.mk.inj h).2.symm

/-- **One call** keeps the devices that are there and moves the context with each new
loopback device. -/
lemma Loopbacks.step (h : Loopbacks s ids) (call : NetCall) :
    Loopbacks (s.step call).2 (NetState.noteLoopback ids (call, (s.step call).1)) := by
  cases call with
  | register mtu transmit =>
    rw [NetState.step]
    generalize hr : netRegisterDevice s
      ⟨mtu, transmit.elim .null fun pointers => .driver pointers.1 pointers.2⟩ = r
    obtain ⟨result, s'⟩ := r
    cases result with
    | error status =>
      rw [netRegisterDevice_error hr]
      exact h
    | ok id =>
      obtain ⟨-, hcontext, hkept⟩ := netRegisterDevice_ok hr
      exact ⟨fun id hid => hkept id _ (h.device id hid),
        fun id hid => hcontext.trans (h.context id hid)⟩
  | loopbackRegister =>
    rw [NetState.step, netLoopbackRegister]
    generalize hr : netRegisterDevice s loopbackConfig = r
    obtain ⟨result, s'⟩ := r
    cases result with
    | error status =>
      rw [netRegisterDevice_error hr]
      exact h
    | ok id =>
      obtain ⟨hnew, -, hkept⟩ := netRegisterDevice_ok hr
      refine ⟨fun d hd => ?_, fun d hd => ?_⟩
      · rcases List.mem_append.mp hd with hold | hlast
        · exact hkept d _ (h.device d hold)
        · rw [List.mem_singleton.mp hlast]
          exact hnew
      · rw [NetState.noteLoopback, List.getLast?_concat] at hd
        exact Option.some.inj hd
  | setReceiver receiver context => exact h.same rfl rfl
  | send deviceId frame outcome =>
    obtain ⟨hdevices, hcontext⟩ := netSend_same s deviceId frame outcome
    exact h.same hdevices hcontext
  | receive deviceId frame =>
    obtain ⟨hdevices, hcontext⟩ := netReceive_same s deviceId frame
    exact h.same hdevices hcontext

/-- What a frame sent to the loopback device `d` is to do: one call of the receiver, if there
is one, for `d` with these bytes, and one more frame sent and received. -/
structure Delivers (s : NetState) (d : UInt32) (frame : List UInt8)
    (r : NetStatus × List Upcall × NetState) : Prop where
  upcalls : r.2.1 = s.upcalls d frame
  stats : r.2.2.stats = s.stats.looped frame

/-- **Loopback.**  After any run, a frame that a loopback device takes is delivered from that
device exactly when no receiver is set or it is the loopback device registered last: the
devices share one context. -/
theorem loopback_delivers_iff (s : NetState) (calls : List NetCall) (d : UInt32)
    (frame : List UInt8) (outcome : NetStatus) (hd : d ∈ s.loopbackIds calls)
    (hok : (netSend (s.after calls) d frame outcome).1 = .ok) :
    Delivers (s.after calls) d frame (netSend (s.after calls) d frame outcome) ↔
      (s.after calls).upperReceiver = 0 ∨ (s.loopbackIds calls).getLast? = some d := by
  have hloop : Loopbacks (s.after calls) (s.loopbackIds calls) :=
    Runs.ghost_induction NetState.step (fun _ _ call h => h.step call) (loopbacks_init s) calls
  obtain ⟨last, hlast⟩ := Option.isSome_iff_exists.mp (List.getLast?_isSome.mpr
    (List.ne_nil_of_mem hd))
  have hcontext := hloop.context last hlast
  have hdevice := hloop.device d hd
  obtain ⟨hne, hfits⟩ := fits_of_netSend_ok hdevice hok
  have hlastDevice := hloop.device last (List.mem_of_getLast? hlast)
  rw [netSend_loopback hdevice (hcontext.symm ▸ hlastDevice) hne hfits, hcontext, hlast]
  have hupcalls : (s.after calls).upcalls last frame = (s.after calls).upcalls d frame ↔
      (s.after calls).upperReceiver = 0 ∨ some last = some d := by
    rw [NetState.upcalls, NetState.upcalls]
    split_ifs with hnull
    · exact iff_of_true rfl (Or.inl hnull)
    · simp [hnull]
  rw [← hupcalls]
  exact ⟨fun h => h.upcalls, fun h => ⟨h, rfl⟩⟩

/-- Everything null. -/
def blankNet : NetState := ⟨fun _ => none, 0, 0, {}, 0⟩

/-- Of two loopback devices the second one delivers its frames, and the first one does not. -/
theorem loopback_delivers_iff_two :
    let s := blankNet.after [.loopbackRegister, .loopbackRegister, .setReceiver 0x1000 0]
    Delivers s 1 [1, 2, 3] (netSend s 1 [1, 2, 3] .ok) ∧
      ¬ Delivers s 0 [1, 2, 3] (netSend s 0 [1, 2, 3] .ok) := by
  have hiff (d : UInt32) := loopback_delivers_iff blankNet
    [.loopbackRegister, .loopbackRegister, .setReceiver 0x1000 0] d [1, 2, 3] .ok
  exact ⟨(hiff 1 (by decide) (by decide)).mpr (by decide),
    (hiff 0 (by decide) (by decide)).not.mpr (by decide)⟩

/-- A frame sent to the first of two loopback devices comes back from the second. -/
theorem loopback_misdelivers :
    let calls := [.loopbackRegister, .loopbackRegister, .setReceiver 0x1000 0]
    let r := netSend (blankNet.after calls) 0 [1, 2, 3] .ok
    blankNet.loopbackIds calls = [0, 1] ∧ r.1 = .ok ∧ r.2.1 = [⟨0x1000, 1, [1, 2, 3], 0⟩] ∧
      ¬ Delivers (blankNet.after calls) 0 [1, 2, 3] r := by
  intro calls r
  have hupcalls : r.2.1 = [⟨0x1000, 1, [1, 2, 3], 0⟩] := by decide
  refine ⟨by decide, by decide, hupcalls, fun h => ?_⟩
  have hclaimed := hupcalls.symm.trans h.upcalls
  revert hclaimed
  decide

end JoshOS.Net
