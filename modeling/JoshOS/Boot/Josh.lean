import JoshOS.Boot
import JoshOS.Lib.Memory

/-!
The boot adapter for the loader's own protocol (`kernel/src/boot_josh.c`).

`boot_josh_context_init` checks what the loader has left in memory and fills the boot context
from it.  Memory is read where the loader's structure points; the fields of that structure
that nothing reads, and null pointers for the two arguments, are left out.

* `FramebufferOk`, `validateFramebuffer_ok`: what a framebuffer that is accepted satisfies.
* `bootJoshContextInit_ok`: an accepted boot has such a framebuffer, and the context holds its
  extents unchanged.
-/

open Words

namespace JoshOS

/-- The errors of `boot_status_t`. -/
inductive BootStatus where
  | unsupportedProtocol | invalidBootInfo | noMemoryMap | noFramebuffer | unsupportedFramebuffer
  | noPhysicalMap
  deriving DecidableEq, Repr

/-- `FOUR_GIB`. -/
def fourGib : ℕ := 0x100000000

/-- `BOOT_COMMAND_LINE_MAX`. -/
def bootCommandLineMax : ℕ := 127

/-- `JOSH_BOOT_MAX_MEMORY_ENTRIES`. -/
def joshBootMaxMemoryEntries : ℕ := 128

/-- `JOSH_BOOT_INFO_MAGIC`. -/
def joshBootInfoMagic : UInt64 := 0x30494248534f4a4a

/-- `JOSH_BOOT_ABI_MAJOR`. -/
def joshBootAbiMajor : UInt32 := 0

/-- `JOSH_BOOT_ABI_MINOR`. -/
def joshBootAbiMinor : UInt32 := 1

/-- `sizeof(JoshBootInfo)`. -/
def sizeofJoshBootInfo : UInt32 := 224

/-- `sizeof(JoshMemoryMapEntry)`. -/
def sizeofJoshMemoryMapEntry : UInt32 := 24

/-- `JOSH_BOOT_FLAG_MEMORY_MAP`. -/
def flagMemoryMap : UInt32 := 1

/-- `JOSH_BOOT_FLAG_FRAMEBUFFER`. -/
def flagFramebuffer : UInt32 := 2

/-- `JOSH_BOOT_FLAG_RSDP`. -/
def flagRsdp : UInt32 := 4

/-- `JOSH_BOOT_FLAG_SMBIOS`. -/
def flagSmbios : UInt32 := 8

/-- `JOSH_BOOT_FLAG_CMDLINE`. -/
def flagCmdline : UInt32 := 16

structure JoshFramebufferInfo where
  address : UInt64
  width : UInt32
  height : UInt32
  pitch : UInt32
  bpp : UInt32
  redMaskSize : UInt32
  redMaskShift : UInt32
  greenMaskSize : UInt32
  greenMaskShift : UInt32
  blueMaskSize : UInt32
  blueMaskShift : UInt32

structure JoshBootInfo where
  magic : UInt64
  abiMajor : UInt32
  abiMinor : UInt32
  totalSize : UInt32
  flags : UInt32
  memoryMapAddress : UInt64
  memoryMapEntries : UInt32
  memoryMapEntrySize : UInt32
  framebuffer : JoshFramebufferInfo
  kernelPhysStart : UInt64
  kernelPhysEnd : UInt64
  kernelVirtStart : UInt64
  kernelVirtEnd : UInt64
  rsdpPhys : UInt64
  smbiosPhys : UInt64
  commandLineAddress : UInt64
  commandLineLength : UInt32
  kernelEntry : UInt64

/-- `boot_framebuffer_t`. -/
structure BootFramebuffer where
  address : UInt64
  width : UInt64
  height : UInt64
  pitch : UInt64
  bpp : UInt16
  redMaskSize : UInt8
  redMaskShift : UInt8
  greenMaskSize : UInt8
  greenMaskShift : UInt8
  blueMaskSize : UInt8
  blueMaskShift : UInt8

/-- The whole of `boot_context_t`: the part that the memory subsystems read, and the rest. -/
structure JoshContext where
  boot : BootContext
  framebuffer : BootFramebuffer
  usableMemoryMib : ℕ
  rsdpPhys : UInt64
  smbiosPhys : UInt64
  commandLine : List UInt8

/-! ### The checks -/

def addOverflowsU64 (a b : ℕ) : Prop := uint64Max - a < b

instance (a b : ℕ) : Decidable (addOverflowsU64 a b) :=
  inferInstanceAs (Decidable (uint64Max - a < b))

def maskValid (size shift : UInt32) : Bool :=
  if size = 0 ∨ 32 < size ∨ 32 ≤ shift then false else size + shift ≤ 32

def validateFramebuffer (fb : JoshFramebufferInfo) : Except BootStatus Unit :=
  if fb.address = 0 then .error .noFramebuffer
  else if fb.bpp ≠ 32 ∨ fb.width = 0 ∨ fb.height = 0 ∨ fb.pitch = 0 then
    .error .unsupportedFramebuffer
  else if uint32Max / 4 < fb.width.toNat ∨ fb.pitch < fb.width * 4 ∨ fb.pitch &&& 3 ≠ 0 then
    .error .unsupportedFramebuffer
  else
    let framebufferBytes := fb.pitch.toNat * fb.height.toNat
    if fourGib ≤ fb.address.toNat ∨ fourGib - fb.address.toNat < framebufferBytes then
      .error .unsupportedFramebuffer
    else if maskValid fb.redMaskSize fb.redMaskShift = false ∨
        maskValid fb.greenMaskSize fb.greenMaskShift = false ∨
        maskValid fb.blueMaskSize fb.blueMaskShift = false then
      .error .unsupportedFramebuffer
    else .ok ()

def mapMemoryType (type : ℕ) : BootMemoryType :=
  if type = 1 then .usable
  else if type = 3 then .acpiReclaimable
  else if type = 4 then .acpiNvs
  else if type = 5 then .bad
  else .reserved

/-- One round of the loop of `copy_memory_map`, on the entry at `entry` with the regions and
the usable bytes so far. -/
def copyEntry (mem : Memory) (entry : ℕ) (done : List BootMemoryRegion × ℕ) :
    Except BootStatus (List BootMemoryRegion × ℕ) :=
  let base := Memory.read64 mem entry
  let length := Memory.read64 mem (entry + 8)
  let type := mapMemoryType (Memory.read32 mem (entry + 16))
  if length = 0 then .ok done
  else if addOverflowsU64 base length then .error .invalidBootInfo
  else if bootMemoryMaxEntries ≤ done.1.length then .error .noMemoryMap
  else
    let region : BootMemoryRegion :=
      ⟨base, length, type, Memory.read64_lt .., Memory.read64_lt ..⟩
    let usableBytes :=
      if type = .usable then
        if addOverflowsU64 done.2 length then uint64Max else done.2 + length
      else done.2
    .ok (done.1 ++ [region], usableBytes)

def copyMemoryMap (mem : Memory) (info : JoshBootInfo) :
    Except BootStatus (List BootMemoryRegion × ℕ) :=
  if info.memoryMapAddress = 0 ∨ info.memoryMapEntries = 0 ∨
      joshBootMaxMemoryEntries < info.memoryMapEntries.toNat ∨
      bootMemoryMaxEntries < info.memoryMapEntries.toNat ∨
      info.memoryMapEntrySize < sizeofJoshMemoryMapEntry ∨ 4096 < info.memoryMapEntrySize then
    .error .noMemoryMap
  else do
    let entryAt i := wrap64 (info.memoryMapAddress.toNat + i * info.memoryMapEntrySize.toNat)
    let done ← (List.range info.memoryMapEntries.toNat).foldlM
      (fun done i => copyEntry mem (entryAt i) done) ([], 0)
    if done.1 = [] then .error .noMemoryMap
    else .ok done

def copyCommandLine (mem : Memory) (info : JoshBootInfo) : Except BootStatus (List UInt8) :=
  if info.flags &&& flagCmdline = 0 then .ok []
  else if info.commandLineAddress = 0 ∨ info.commandLineLength = 0 ∨
      bootCommandLineMax < info.commandLineLength.toNat then
    .error .invalidBootInfo
  else
    let source := (List.range info.commandLineLength.toNat).map fun i =>
      mem (wrap64 (info.commandLineAddress.toNat + i))
    if ∃ c ∈ source, c < 0x20 ∨ 0x7e < c then .error .invalidBootInfo
    else .ok source

/-! ### The context -/

/-- The framebuffer as the context keeps it, in narrower fields for the masks. -/
def contextFramebuffer (fb : JoshFramebufferInfo) : BootFramebuffer where
  address := fb.address
  width := fb.width.toUInt64
  height := fb.height.toUInt64
  pitch := fb.pitch.toUInt64
  bpp := fb.bpp.toUInt16
  redMaskSize := fb.redMaskSize.toUInt8
  redMaskShift := fb.redMaskShift.toUInt8
  greenMaskSize := fb.greenMaskSize.toUInt8
  greenMaskShift := fb.greenMaskShift.toUInt8
  blueMaskSize := fb.blueMaskSize.toUInt8
  blueMaskShift := fb.blueMaskShift.toUInt8

lemma joshBoot_words (info : JoshBootInfo) (size : ℕ) :
    ∀ v ∈ [0, fourGib, info.framebuffer.address.toNat,
      wrap64 (info.framebuffer.address.toNat + size), info.kernelPhysStart.toNat,
      info.kernelPhysEnd.toNat, info.kernelVirtStart.toNat, info.kernelVirtEnd.toNat],
      v < 2 ^ 64 := by
  intro v hv
  simp only [List.mem_cons, List.not_mem_nil, or_false] at hv
  rcases hv with rfl | rfl | rfl | rfl | rfl | rfl | rfl | rfl
  · norm_num
  · norm_num [fourGib]
  · exact UInt64.toNat_lt _
  · exact wrap64_lt _
  · exact UInt64.toNat_lt _
  · exact UInt64.toNat_lt _
  · exact UInt64.toNat_lt _
  · exact UInt64.toNat_lt _

/-- The assignments at the end of `boot_josh_context_init`. -/
def fillContext (info : JoshBootInfo) (memoryMap : List BootMemoryRegion) (usableBytes : ℕ)
    (commandLine : List UInt8) : JoshContext :=
  let size := info.framebuffer.pitch.toNat * info.framebuffer.height.toNat
  { boot :=
      { memoryMap := memoryMap
        physicalMemoryOffset := 0
        physicalMemoryLimit := fourGib
        framebufferPhysStart := info.framebuffer.address.toNat
        framebufferPhysEnd := wrap64 (info.framebuffer.address.toNat + size)
        kernelPhysStart := info.kernelPhysStart.toNat
        kernelPhysEnd := info.kernelPhysEnd.toNat
        kernelVirtStart := info.kernelVirtStart.toNat
        kernelVirtEnd := info.kernelVirtEnd.toNat
        words := joshBoot_words info size }
    framebuffer := contextFramebuffer info.framebuffer
    usableMemoryMib := usableBytes / (1024 * 1024)
    rsdpPhys := if info.flags &&& flagRsdp ≠ 0 then info.rsdpPhys else 0
    smbiosPhys := if info.flags &&& flagSmbios ≠ 0 then info.smbiosPhys else 0
    commandLine := commandLine }

/-- An early return with `status` when `bad` holds. -/
def refuse (bad : Prop) [Decidable bad] (status : BootStatus) : Except BootStatus Unit :=
  if bad then .error status else .ok ()

def bootJoshContextInit (mem : Memory) (info : JoshBootInfo) : Except BootStatus JoshContext := do
  refuse (info.magic ≠ joshBootInfoMagic ∨ info.abiMajor ≠ joshBootAbiMajor ∨
    info.abiMinor < joshBootAbiMinor ∨ info.totalSize < sizeofJoshBootInfo) .invalidBootInfo
  let required := flagMemoryMap ||| flagFramebuffer
  refuse (info.flags &&& required ≠ required) .invalidBootInfo
  refuse (info.kernelPhysEnd ≤ info.kernelPhysStart ∨ info.kernelVirtEnd ≤ info.kernelVirtStart ∨
    info.kernelEntry = 0) .invalidBootInfo
  let (memoryMap, usableBytes) ← copyMemoryMap mem info
  validateFramebuffer info.framebuffer
  refuse (info.flags &&& flagRsdp ≠ 0 ∧ info.rsdpPhys = 0) .invalidBootInfo
  refuse (info.flags &&& flagSmbios ≠ 0 ∧ info.smbiosPhys = 0) .invalidBootInfo
  let commandLine ← copyCommandLine mem info
  return fillContext info memoryMap usableBytes commandLine

/-! ### Accepted framebuffers -/

/-- A channel of a pixel: its bits lie within the pixel. -/
structure MaskOk (size shift : UInt32) : Prop where
  pos : 0 < size.toNat
  fits : size.toNat + shift.toNat ≤ 32

/-- What the checks establish. -/
structure FramebufferOk (fb : JoshFramebufferInfo) : Prop where
  address_pos : 0 < fb.address.toNat
  width_le : 4 * fb.width.toNat ≤ fb.pitch.toNat
  aligned : fb.pitch.toNat % 4 = 0
  inside : fb.address.toNat + fb.pitch.toNat * fb.height.toNat ≤ fourGib
  red : MaskOk fb.redMaskSize fb.redMaskShift
  green : MaskOk fb.greenMaskSize fb.greenMaskShift
  blue : MaskOk fb.blueMaskSize fb.blueMaskShift

lemma maskOk_of_maskValid {size shift : UInt32} (h : maskValid size shift = true) :
    MaskOk size shift := by
  rw [maskValid] at h
  split_ifs at h with hbad
  push Not at hbad
  obtain ⟨hzero, hsize, hshift⟩ := hbad
  have hpos : size.toNat ≠ 0 := fun h0 => hzero (UInt32.toNat_inj.mp h0)
  have hsize' : size.toNat ≤ 32 := UInt32.le_iff_toNat_le.mp (UInt32.not_lt.mp hsize)
  have hshift' : shift.toNat < 32 := UInt32.lt_iff_toNat_lt.mp (UInt32.not_le.mp hshift)
  have hsum := UInt32.le_iff_toNat_le.mp (of_decide_eq_true h)
  rw [UInt32.toNat_add, Nat.mod_eq_of_lt (by omega)] at hsum
  exact ⟨Nat.pos_of_ne_zero hpos, hsum⟩

/-- **A framebuffer that passes the checks.** -/
lemma validateFramebuffer_ok {fb : JoshFramebufferInfo} (h : validateFramebuffer fb = .ok ()) :
    FramebufferOk fb := by
  simp only [validateFramebuffer] at h
  split_ifs at h with haddress hempty hpitch hrange hmask
  push Not at hempty hpitch hrange
  obtain ⟨hwide, hpitch, haligned⟩ := hpitch
  obtain ⟨hbelow, hbytes⟩ := hrange
  have hmasks : maskValid fb.redMaskSize fb.redMaskShift = true ∧
      maskValid fb.greenMaskSize fb.greenMaskShift = true ∧
      maskValid fb.blueMaskSize fb.blueMaskShift = true := by
    simpa using hmask
  have hwidth : 4 * fb.width.toNat ≤ fb.pitch.toNat := by
    have hmul := UInt32.le_iff_toNat_le.mp (UInt32.not_lt.mp hpitch)
    have hfour : (4 : UInt32).toNat = 4 := rfl
    rw [uint32Max] at hwide
    rw [UInt32.toNat_mul, hfour, Nat.mod_eq_of_lt (by omega)] at hmul
    omega
  have hmod : fb.pitch.toNat % 4 = 0 := by
    have hand := congrArg UInt32.toNat haligned
    rwa [UInt32.toNat_and, show (3 : UInt32).toNat = 2 ^ 2 - 1 from rfl,
      Nat.and_two_pow_sub_one_eq_mod] at hand
  exact
    { address_pos := Nat.pos_of_ne_zero fun h0 => haddress (UInt64.toNat_inj.mp h0)
      width_le := hwidth
      aligned := hmod
      inside := by omega
      red := maskOk_of_maskValid hmasks.1
      green := maskOk_of_maskValid hmasks.2.1
      blue := maskOk_of_maskValid hmasks.2.2 }

/-- What comes first has succeeded when the whole has. -/
lemma exists_of_bind {α β : Type} {x : Except BootStatus α} {f : α → Except BootStatus β} {r : β}
    (h : (x >>= f) = .ok r) : ∃ a, x = .ok a ∧ f a = .ok r := by
  cases x with
  | error status => cases h
  | ok a => exact ⟨a, rfl, h⟩

/-- **An accepted boot** has a framebuffer that passes the checks; the context has its extents
and its fields. -/
lemma bootJoshContextInit_ok {mem : Memory} {info : JoshBootInfo} {context : JoshContext}
    (h : bootJoshContextInit mem info = .ok context) :
    FramebufferOk info.framebuffer ∧
      context.framebuffer = contextFramebuffer info.framebuffer ∧
      context.boot.framebufferPhysStart = info.framebuffer.address.toNat ∧
      context.boot.framebufferPhysEnd = info.framebuffer.address.toNat +
        info.framebuffer.pitch.toNat * info.framebuffer.height.toNat := by
  rw [bootJoshContextInit] at h
  obtain ⟨-, -, h⟩ := exists_of_bind h
  obtain ⟨-, -, h⟩ := exists_of_bind h
  obtain ⟨-, -, h⟩ := exists_of_bind h
  obtain ⟨⟨memoryMap, usableBytes⟩, -, h⟩ := exists_of_bind h
  obtain ⟨⟨⟩, hvalid, h⟩ := exists_of_bind h
  obtain ⟨-, -, h⟩ := exists_of_bind h
  obtain ⟨-, -, h⟩ := exists_of_bind h
  obtain ⟨commandLine, -, h⟩ := exists_of_bind h
  obtain rfl := Except.ok.inj h
  have hfb := validateFramebuffer_ok hvalid
  have hinside := hfb.inside
  have hbelow : fourGib < 2 ^ 64 := by norm_num [fourGib]
  exact ⟨hfb, rfl, rfl, wrap64_of_lt (by omega)⟩

end JoshOS
