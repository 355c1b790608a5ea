import JoshOS.Lib.Registers

/-!
Access to the PCI configuration space (`kernel/src/pci.c`).

The host bridge has two ports of 32 bits: an address is written to the first, and the second
is then the dword at that address.  A dword is a register whose bits may be read and written,
read only, or cleared by writing a one.  A write of 16 bits reads the dword, replaces a half
and writes the whole back.

* `busmaster_keeps_status_iff`: the other half of a dword keeps its value exactly if it holds
  no one that a one clears; in the dword of Command and Status, if no error is pending
  (`busmaster_clears_status`).
* `pciEnableMemoryBusmaster_ok`: in that dword, both bits are set afterwards.
-/

open BitVec Registers

namespace JoshOS.Pci

/-! ### The model -/

/-- `PCI_CONFIG_ADDRESS` and `PCI_CONFIG_DATA`. -/
inductive Port where
  | configAddress | configData
  deriving DecidableEq, Repr

/-- The address register of the host bridge, and the dwords of the configuration space by
their addresses. -/
structure HostBridge where
  address : BitVec 32
  space : BitVec 32 → Register 32

def outl (port : Port) (value : BitVec 32) : StateM HostBridge Unit :=
  modify fun host =>
    match port with
    | .configAddress => { host with address := value }
    | .configData =>
      { host with
        space := Function.update host.space host.address ((host.space host.address).write value) }

def inl (port : Port) : StateM HostBridge (BitVec 32) := do
  let host ← get
  match port with
  | .configAddress => return host.address
  | .configData => return (host.space host.address).value

def pciCommandMemory : BitVec 16 := 0x0002

def pciCommandBusMaster : BitVec 16 := 0x0004

/-- `pci_status_t`. -/
inductive PciStatus where
  | ok | badArgument | notFound | tableFull | unsupportedBar
  deriving DecidableEq, Repr

/-- The fields of `pci_device_t` that locate a function. -/
structure PciDevice where
  bus : BitVec 8
  device : BitVec 8
  function : BitVec 8
  deriving DecidableEq, Repr

def pciConfigAddress (bus device function offset : BitVec 8) : BitVec 32 :=
  0x80000000#32 ||| (bus.setWidth 32 <<< 16) ||| ((device &&& 0x1f#8).setWidth 32 <<< 11) |||
    ((function &&& 0x07#8).setWidth 32 <<< 8) ||| (offset.setWidth 32 &&& 0xfc#32)

def pciConfigRead32 (bus device function offset : BitVec 8) : StateM HostBridge (BitVec 32) := do
  outl .configAddress (pciConfigAddress bus device function offset)
  inl .configData

/-- The position of the half of a dword that an offset names. -/
def halfShift (offset : BitVec 8) : BitVec 32 := (offset &&& 2#8).setWidth 32 * 8#32

def pciConfigRead16 (bus device function offset : BitVec 8) : StateM HostBridge (BitVec 16) := do
  let value ← pciConfigRead32 bus device function offset
  return (value >>> halfShift offset).setWidth 16

/-- The dword with one half replaced. -/
def replaceHalf (current : BitVec 32) (offset : BitVec 8) (value : BitVec 16) : BitVec 32 :=
  (current &&& ~~~(0xffff#32 <<< halfShift offset)) ||| (value.setWidth 32 <<< halfShift offset)

def pciConfigWrite16 (bus device function offset : BitVec 8) (value : BitVec 16) :
    StateM HostBridge Unit := do
  let aligned := offset &&& 0xfc#8
  let current ← pciConfigRead32 bus device function aligned
  let current := replaceHalf current offset value
  outl .configAddress (pciConfigAddress bus device function aligned)
  outl .configData current

def pciEnableMemoryBusmaster : Option PciDevice → StateM HostBridge PciStatus
  | none => return .badArgument
  | some device => do
      let command ← pciConfigRead16 device.bus device.device device.function 0x04
      let command := command ||| (pciCommandMemory ||| pciCommandBusMaster)
      pciConfigWrite16 device.bus device.device device.function 0x04 command
      let verify ← pciConfigRead16 device.bus device.device device.function 0x04
      return if verify &&& (pciCommandMemory ||| pciCommandBusMaster) ≠
          pciCommandMemory ||| pciCommandBusMaster then .notFound
        else .ok

/-! ### What a write does to the configuration space -/

/-- The configuration space after a dword is written. -/
def HostBridge.writeDword (host : HostBridge) (address value : BitVec 32) : HostBridge where
  address := address
  space := Function.update host.space address ((host.space address).write value)

@[simp] lemma HostBridge.writeDword_self (host : HostBridge) (address value : BitVec 32) :
    (host.writeDword address value).space address = (host.space address).write value :=
  Function.update_self ..

lemma HostBridge.writeDword_of_ne (host : HostBridge) {address other : BitVec 32}
    (h : other ≠ address) (value : BitVec 32) :
    (host.writeDword address value).space other = host.space other :=
  Function.update_of_ne h ..

/-- The two low bits of an offset do not count. -/
lemma pciConfigAddress_aligned (bus device function offset : BitVec 8) :
    pciConfigAddress bus device function (offset &&& 0xfc#8) =
      pciConfigAddress bus device function offset := by
  have hlow : (offset &&& 0xfc#8).setWidth 32 &&& 0xfc#32 = offset.setWidth 32 &&& 0xfc#32 := by
    revert offset
    decide
  rw [pciConfigAddress, hlow, pciConfigAddress]

lemma pciConfigWrite16_run (bus device function offset : BitVec 8) (value : BitVec 16)
    (host : HostBridge) :
    (pciConfigWrite16 bus device function offset value).run host =
      ((), host.writeDword (pciConfigAddress bus device function offset)
        (replaceHalf (host.space (pciConfigAddress bus device function offset)).value
          offset value)) := by
  rw [← pciConfigAddress_aligned bus device function offset]
  rfl

/-- Nothing but the given bits of the dword at an address has changed. -/
def ChangesOnly (host after : HostBridge) (address bits : BitVec 32) : Prop :=
  (∀ other, other ≠ address → after.space other = host.space other) ∧
    (after.space address).value &&& ~~~bits = (host.space address).value &&& ~~~bits

/-- **A dword that is written back** changes in the given bits only, exactly if the others
hold no one that a one clears. -/
lemma changesOnly_writeDword_iff (host : HostBridge) {address value bits : BitVec 32}
    (hback : value &&& ~~~bits = (host.space address).value &&& ~~~bits) :
    ChangesOnly host (host.writeDword address value) address bits ↔
      (host.space address).value &&& (host.space address).clearing &&& ~~~bits = 0 := by
  rw [← (host.space address).write_keeps_iff hback, ChangesOnly, HostBridge.writeDword_self]
  exact and_iff_right fun other hother => host.writeDword_of_ne hother value

/-! ### The halves of a dword -/

/-- The bits of a dword in the half that an offset names. -/
def half (offset : BitVec 8) : BitVec 32 := if offset &&& 2 = 0 then 0x0000ffff else 0xffff0000

lemma half_eq (offset : BitVec 8) : half offset = 0xffff#32 <<< halfShift offset := by
  revert offset
  decide

lemma getElem_half_iff (offset : BitVec 8) {i : ℕ} (hi : i < 32) :
    (half offset)[i] = true ↔
      (halfShift offset).toNat ≤ i ∧ i < (halfShift offset).toNat + 16 := by
  have hones : ∀ (i : ℕ) (hi : i < 32), (0xffff#32)[i] = decide (i < 16) := by decide
  simp only [half_eq, shiftLeft_eq', getElem_shiftLeft, hones]
  grind

/-- The bits of a value of 16 bits that has been moved to its half. -/
lemma getElem_moved (value : BitVec 16) (offset : BitVec 8) {i : ℕ} (hi : i < 32) :
    (value.setWidth 32 <<< halfShift offset)[i] =
      ((half offset)[i] && value.getLsbD (i - (halfShift offset).toNat)) := by
  have hhalf := getElem_half_iff offset hi
  rw [shiftLeft_eq', getElem_shiftLeft, getElem_setWidth]
  by_cases hin : (half offset)[i] = true
  · simp [hin, (hhalf.mp hin).1]
  · rw [Bool.eq_false_of_not_eq_true hin]
    rw [hhalf] at hin
    by_cases hlow : i < (halfShift offset).toNat
    · simp [hlow]
    · simp [value.getLsbD_of_ge (i - (halfShift offset).toNat) (by omega)]

/-- The other half is written back. -/
lemma replaceHalf_and (current : BitVec 32) (offset : BitVec 8) (value : BitVec 16) :
    replaceHalf current offset value &&& ~~~half offset = current &&& ~~~half offset := by
  ext i hi
  rw [replaceHalf, ← half_eq]
  simp only [getElem_and, getElem_or, getElem_not, getElem_moved]
  cases (half offset)[i] <;> simp

/-- Bits set in a half are bits set in the dword. -/
lemma replaceHalf_or (current : BitVec 32) (offset : BitVec 8) (value : BitVec 16) :
    replaceHalf current offset ((current >>> halfShift offset).setWidth 16 ||| value) =
      current ||| (value.setWidth 32 <<< halfShift offset) := by
  ext i hi
  rw [replaceHalf, ← half_eq]
  simp only [getElem_and, getElem_or, getElem_not, getElem_moved,
    getLsbD_or]
  cases hin : (half offset)[i] with
  | false => simp
  | true =>
    obtain ⟨hle, hlt⟩ := (getElem_half_iff offset hi).mp hin
    have hread : ((current >>> halfShift offset).setWidth 16).getLsbD
        (i - (halfShift offset).toNat) = current[i] := by
      rw [getLsbD_setWidth, ushiftRight_eq', getLsbD_ushiftRight,
        Nat.add_sub_cancel' hle, getLsbD_eq_getElem hi, decide_eq_true (by omega),
        Bool.true_and]
    rw [hread]
    simp

/-! ### Command and Status -/

/-- The dword of Command and Status of a function. -/
def commandAddress (device : PciDevice) : BitVec 32 :=
  pciConfigAddress device.bus device.device device.function 0x04

/-- The errors of Status, each of which a one clears: the parity, abort and system errors. -/
def statusErrors : BitVec 32 := 0xf9000000

/-- The bits of Command that `pci_enable_memory_busmaster` sets. -/
def enabledBits : BitVec 32 := 0x00000006

/-- A Command that may be read and written, below a Status whose errors a one clears. -/
structure IsCommandStatus (r : Register 32) : Prop where
  command : r.writable = 0x0000ffff
  status : r.clearing = statusErrors

lemma pciEnableMemoryBusmaster_run (host : HostBridge) (device : PciDevice) :
    ((pciEnableMemoryBusmaster (some device)).run host).2 =
      host.writeDword (commandAddress device)
        ((host.space (commandAddress device)).value ||| enabledBits) := by
  have hrun : ((pciEnableMemoryBusmaster (some device)).run host).2 =
      host.writeDword (commandAddress device)
        (replaceHalf (host.space (commandAddress device)).value 0x04
          (((host.space (commandAddress device)).value >>> halfShift 0x04).setWidth 16 |||
            (pciCommandMemory ||| pciCommandBusMaster))) := rfl
  have hbits : (pciCommandMemory ||| pciCommandBusMaster).setWidth 32 <<< halfShift 0x04 =
      enabledBits := rfl
  rw [hrun, replaceHalf_or, hbits]

/-- **When a write of 16 bits keeps to its half.**  In any configuration space, enabling bus
mastering changes nothing but the two bits of Command exactly if Status has no pending error;
and a write of 16 bits at any offset changes nothing but its half of the dword exactly if the
other half holds no one that a one clears. -/
theorem busmaster_keeps_status_iff (host : HostBridge) (device : PciDevice)
    (hdword : IsCommandStatus (host.space (commandAddress device))) :
    (ChangesOnly host ((pciEnableMemoryBusmaster (some device)).run host).2
        (commandAddress device) enabledBits ↔
      (host.space (commandAddress device)).value &&& statusErrors = 0) ∧
    ∀ (offset : BitVec 8) (value : BitVec 16),
      let address := pciConfigAddress device.bus device.device device.function offset
      ChangesOnly host
          ((pciConfigWrite16 device.bus device.device device.function offset value).run host).2
          address (half offset) ↔
        (host.space address).value &&& (host.space address).clearing &&& ~~~half offset = 0 := by
  refine ⟨?_, fun offset value => ?_⟩
  · have hback : ((host.space (commandAddress device)).value ||| enabledBits) &&& ~~~enabledBits =
        (host.space (commandAddress device)).value &&& ~~~enabledBits := by
      rw [BitVec.and_comm, BitVec.and_or_distrib_left, BitVec.and_comm (~~~enabledBits)]
      simp
    have hapart : statusErrors &&& ~~~enabledBits = statusErrors := by decide
    rw [pciEnableMemoryBusmaster_run, changesOnly_writeDword_iff host hback, hdword.status,
      BitVec.and_assoc, hapart]
  · rw [pciConfigWrite16_run]
    exact changesOnly_writeDword_iff host (replaceHalf_and ..)

/-- A configuration space in which every dword is one of Command and Status. -/
def statusSpace (value : BitVec 32) : HostBridge where
  address := 0
  space := fun _ => ⟨value, 0x0000ffff, statusErrors, rfl⟩

/-- The first device of a machine, with decoding of I/O ports on and no pending error. -/
theorem busmaster_keeps_status_iff_quiet :
    ChangesOnly (statusSpace 0x00100001)
      ((pciEnableMemoryBusmaster (some ⟨0, 3, 0⟩)).run (statusSpace 0x00100001)).2
      (commandAddress ⟨0, 3, 0⟩) enabledBits :=
  (busmaster_keeps_status_iff (statusSpace 0x00100001) ⟨0, 3, 0⟩ ⟨rfl, rfl⟩).1.mpr (by decide)

/-- A device that has received a master abort: enabling bus mastering clears the error. -/
theorem busmaster_clears_status :
    let host := statusSpace 0x20100001
    let after := ((pciEnableMemoryBusmaster (some ⟨0, 3, 0⟩)).run host).2
    (host.space (commandAddress ⟨0, 3, 0⟩)).value = 0x20100001 ∧
      (after.space (commandAddress ⟨0, 3, 0⟩)).value = 0x00100007 ∧
      ¬ ChangesOnly host after (commandAddress ⟨0, 3, 0⟩) enabledBits := by
  refine ⟨by decide, by decide, fun h => ?_⟩
  exact absurd h.2 (by decide)

/-- **Bus mastering is enabled**: both bits of Command are set afterwards, whatever they
were, and the function says so. -/
theorem pciEnableMemoryBusmaster_ok (host : HostBridge) (device : PciDevice)
    (hdword : IsCommandStatus (host.space (commandAddress device))) :
    ((pciEnableMemoryBusmaster (some device)).run host).1 = .ok ∧
      (((pciEnableMemoryBusmaster (some device)).run host).2.space
        (commandAddress device)).value &&& enabledBits = enabledBits := by
  have hset : (((pciEnableMemoryBusmaster (some device)).run host).2.space
      (commandAddress device)).value &&& enabledBits = enabledBits := by
    rw [pciEnableMemoryBusmaster_run, HostBridge.writeDword_self]
    refine Register.write_sets _ (by rw [hdword.command]; decide) ?_
    rw [BitVec.and_comm, BitVec.and_or_distrib_left, BitVec.and_self]
    ext i hi
    simp only [getElem_or, getElem_and]
    cases enabledBits[i] <;> simp
  refine ⟨if_neg (not_not.mpr ?_), hset⟩
  -- the verifying read sees the low half of the dword
  have hhalf := congrArg (setWidth 16) hset
  rwa [setWidth_and] at hhalf

end JoshOS.Pci
