import JoshOS.Lib.Bytes
import JoshOS.Lib.Counted
import JoshOS.Lib.Hoare
import JoshOS.Lib.Words

/-!
Discovery of processors and interrupt controllers: `acpi.c`.

A reader is a memory image together with the requests that it refuses.  A buffer is the
list of the bytes that were read into it, so that a use of any other byte shows as
`outOfBounds`, as does an entry stored past the end of an array.  The pointers to the
reader and to the result are there.
-/

namespace JoshOS

open Hoare Bytes Words

/-! ### `acpi.h` -/

/-- `ACPI_MAX_CPUS`. -/
def acpiMaxCpus : ℕ := 64

/-- `ACPI_MAX_IOAPICS`. -/
def acpiMaxIoapics : ℕ := 8

/-- `ACPI_MAX_ISO`. -/
def acpiMaxIso : ℕ := 16

/-- `acpi_status_t`, without `ACPI_OK`. -/
inductive AcpiStatus where
  | badArgument | readError | badSignature | badChecksum | badLength | notFound | tooManyEntries
  deriving DecidableEq, Repr

/-- How discovery ends when not with `ACPI_OK`: with a status, at an access outside of an
array or buffer, or in a loop that goes on forever. -/
inductive AcpiStop where
  | status (status : AcpiStatus)
  | outOfBounds
  | endless
  deriving DecidableEq, Repr

/-- `acpi_cpu_info_t`. -/
structure AcpiCpuInfo where
  acpiProcessorId : ℕ := 0
  apicId : ℕ := 0
  flags : ℕ := 0
  x2apic : ℕ := 0
  deriving DecidableEq, Inhabited

/-- `acpi_ioapic_info_t`. -/
structure AcpiIoapicInfo where
  id : ℕ := 0
  physicalAddress : ℕ := 0
  gsiBase : ℕ := 0
  deriving DecidableEq, Inhabited

/-- `acpi_irq_override_t`. -/
structure AcpiIrqOverride where
  sourceIrq : ℕ := 0
  gsi : ℕ := 0
  flags : ℕ := 0
  deriving DecidableEq, Inhabited

/-- `acpi_platform_info_t`. -/
structure AcpiPlatformInfo where
  localApicAddress : ℕ
  madtFlags : ℕ
  cpus : Counted AcpiCpuInfo acpiMaxCpus
  ioapics : Counted AcpiIoapicInfo acpiMaxIoapics
  overrides : Counted AcpiIrqOverride acpiMaxIso

/-- `acpi_reader_fn`: the byte at an address, and the requests that fail. -/
structure AcpiReader where
  byteAt : UInt64 → UInt8
  fails : UInt64 → ℕ → Bool

/-- The bytes at `physical`; addresses wrap around as they do in `uint64_t`. -/
def AcpiReader.bytes (reader : AcpiReader) (physical : UInt64) (length : ℕ) : List UInt8 :=
  (List.range length).map fun i => reader.byteAt (physical + UInt64.ofNat i)

namespace Acpi

/-- A function of `acpi.c`, with the result it fills in. -/
abbrev Discovery (α : Type) := ExceptT AcpiStop (StateM AcpiPlatformInfo) α

/-- `ACPI_SDT_HEADER_SIZE`. -/
def acpiSdtHeaderSize : ℕ := 36

/-- `ACPI_MADT_HEADER_SIZE`. -/
def acpiMadtHeaderSize : ℕ := 44

/-- `ACPI_MAX_TABLE_BYTES`. -/
def acpiMaxTableBytes : ℕ := 1024 * 1024

/-- Return with a status. -/
def fail {α : Type} (status : AcpiStatus) : Discovery α := throw (.status status)

/-! ### Buffers -/

/-- The byte `buffer[i]`. -/
def byteOf (buffer : List UInt8) (i : ℕ) : Discovery ℕ :=
  match buffer[i]? with
  | none => throw .outOfBounds
  | some b => pure b.toNat

/-- The little-endian number of `width` bytes at `buffer + offset`. -/
def readLe (width : ℕ) (buffer : List UInt8) (offset : ℕ) : Discovery ℕ :=
  if buffer.length < offset + width then throw .outOfBounds
  else pure (ofLE ((buffer.drop offset).take width))

/-- `read_le16`. -/
def readLe16 : List UInt8 → ℕ → Discovery ℕ := readLe 2

/-- `read_le32`. -/
def readLe32 : List UInt8 → ℕ → Discovery ℕ := readLe 4

/-- `read_le64`. -/
def readLe64 : List UInt8 → ℕ → Discovery ℕ := readLe 8

/-- `bytes_equal`. -/
def bytesEqual (left right : List UInt8) : Discovery Bool :=
  if left.length < right.length then throw .outOfBounds
  else pure (left.take right.length = right)

/-- `read_exact` into a buffer of `capacity` bytes; its callers all answer a failure with
`ACPI_READ_ERROR`. -/
def readExact (reader : AcpiReader) (physical : UInt64) (capacity length : ℕ) :
    Discovery (List UInt8) :=
  if length ≠ 0 ∧ uint64Max - physical.toNat < length - 1 then fail .readError
  else if capacity < length then throw .outOfBounds
  else if reader.fails physical length then fail .readError
  else pure (reader.bytes physical length)

/-! ### Tables -/

/-- The body of the loop of `checksum_region`, on `offset` and `sum`. -/
def checksumRound (reader : AcpiReader) (physical : UInt64) (length : ℕ) (progress : ℕ × UInt8) :
    Discovery (ℕ × UInt8) := do
  let remaining := length - progress.1
  let chunk := if remaining < 256 then remaining else 256
  let buffer ← readExact reader (physical + UInt64.ofNat progress.1) 256 chunk
  pure (progress.1 + chunk, buffer.foldl (· + ·) progress.2)

/-- `checksum_region`. -/
def checksumRegion (reader : AcpiReader) (physical : UInt64) (length : ℕ) : Discovery Unit := do
  let last ← whileFrom (fun progress => progress.1 < length)
    (checksumRound reader physical length) .endless length (0, 0)
  if last.2 = 0 then pure () else fail .badChecksum

/-- `read_sdt_header`. -/
def readSdtHeader (reader : AcpiReader) (physical : UInt64) : Discovery (List UInt8) := do
  let header ← readExact reader physical acpiSdtHeaderSize acpiSdtHeaderSize
  let length ← readLe32 header 4
  if length < acpiSdtHeaderSize ∨ acpiMaxTableBytes < length then fail .badLength
  else do
    checksumRegion reader physical length
    pure header

/-! ### The MADT -/

/-- An entry appended to one of the arrays of the result. -/
def append {α : Type} {n : ℕ} (field : AcpiPlatformInfo → Counted α n)
    (setField : AcpiPlatformInfo → Counted α n → AcpiPlatformInfo) (entry : α) :
    Discovery Unit := do
  let info ← get
  if n ≤ (field info).count then fail .tooManyEntries
  else
    match Counted.store (field info) entry with
    | none => throw .outOfBounds
    | some table => modify fun info => setField info table

/-- `append_cpu`. -/
def appendCpu (processorId apicId flags x2apic : ℕ) : Discovery Unit :=
  if flags &&& 3 = 0 then pure ()
  else append (·.cpus) (fun info cpus => { info with cpus := cpus })
    ⟨processorId, apicId, flags, x2apic⟩

/-- `parse_madt_entry`. -/
def parseMadtEntry (type : ℕ) (entry : List UInt8) (entryLength : ℕ) : Discovery Unit :=
  if type = 0 ∧ 8 ≤ entryLength then do
    let processorId ← byteOf entry 2
    let apicId ← byteOf entry 3
    let flags ← readLe32 entry 4
    appendCpu processorId apicId flags 0
  else if type = 1 ∧ 12 ≤ entryLength then do
    let id ← byteOf entry 2
    let physicalAddress ← readLe32 entry 4
    let gsiBase ← readLe32 entry 8
    append (·.ioapics) (fun info ioapics => { info with ioapics := ioapics })
      ⟨id, physicalAddress, gsiBase⟩
  else if type = 2 ∧ 10 ≤ entryLength then do
    let bus ← byteOf entry 2
    if bus ≠ 0 then pure ()
    else do
      let sourceIrq ← byteOf entry 3
      let gsi ← readLe32 entry 4
      let flags ← readLe16 entry 8
      append (·.overrides) (fun info overrides => { info with overrides := overrides })
        ⟨sourceIrq, gsi, flags⟩
  else if type = 5 ∧ 12 ≤ entryLength then do
    let address ← readLe64 entry 4
    modify fun info => { info with localApicAddress := address }
  else if type = 9 ∧ 16 ≤ entryLength then do
    let processorId ← readLe32 entry 12
    let apicId ← readLe32 entry 4
    let flags ← readLe32 entry 8
    appendCpu processorId apicId flags 1
  else pure ()

/-- The body of the loop of `parse_madt`: the offset of the next entry. -/
def parseMadtRound (reader : AcpiReader) (physical : UInt64) (length offset : ℕ) :
    Discovery ℕ := do
  let entryHeader ← readExact reader (physical + UInt64.ofNat offset) 2 2
  let type ← byteOf entryHeader 0
  let entryLength ← byteOf entryHeader 1
  if entryLength < 2 ∨ length - offset < entryLength then fail .badLength
  else if 32 < entryLength then pure (offset + entryLength)
  else do
    let entry ← readExact reader (physical + UInt64.ofNat offset) 32 entryLength
    parseMadtEntry type entry entryLength
    pure (offset + entryLength)

/-- The signature of the MADT, `"APIC"`. -/
def apicSignature : List UInt8 := [65, 80, 73, 67]

/-- `parse_madt`. -/
def parseMadt (reader : AcpiReader) (physical : UInt64) : Discovery Unit := do
  let header ← readExact reader physical acpiMadtHeaderSize acpiMadtHeaderSize
  let signed ← bytesEqual header apicSignature
  if signed = false then fail .badSignature
  else do
    let length ← readLe32 header 4
    if length < acpiMadtHeaderSize ∨ acpiMaxTableBytes < length then fail .badLength
    else do
      checksumRegion reader physical length
      let address ← readLe32 header 36
      let flags ← readLe32 header 40
      modify fun info => { info with localApicAddress := address, madtFlags := flags }
      let _ ← whileFrom (fun offset => offset < length) (parseMadtRound reader physical length)
        .endless length acpiMadtHeaderSize
      pure ()

/-! ### The root table -/

/-- `table_physical`, from the bytes of an entry of the root table. -/
def tablePhysical (entrySize : ℕ) (addressBytes : List UInt8) : Discovery ℕ :=
  if entrySize = 8 then readLe64 addressBytes 0 else readLe32 addressBytes 0

/-- The loop of `find_madt_in_root` over the entries with the numbers `is`. -/
def findMadtFrom (reader : AcpiReader) (root : UInt64) (entrySize : ℕ) : List ℕ → Discovery Unit
  | [] => fail .notFound
  | i :: is => do
      let addressBytes ← readExact reader
        (root + UInt64.ofNat acpiSdtHeaderSize + UInt64.ofNat (i * entrySize)) 8 entrySize
      let table ← tablePhysical entrySize addressBytes
      if table = 0 then findMadtFrom reader root entrySize is
      else do
        let header ← readExact reader (UInt64.ofNat table) acpiSdtHeaderSize acpiSdtHeaderSize
        let signed ← bytesEqual header apicSignature
        if signed = false then findMadtFrom reader root entrySize is
        else parseMadt reader (UInt64.ofNat table)

/-- `find_madt_in_root`. -/
def findMadtInRoot (reader : AcpiReader) (root : UInt64) (entrySize : ℕ)
    (expectedSignature : List UInt8) : Discovery Unit := do
  let header ← readSdtHeader reader root
  let signed ← bytesEqual header expectedSignature
  if signed = false then fail .badSignature
  else do
    let length ← readLe32 header 4
    let payload := length - acpiSdtHeaderSize
    if entrySize = 0 ∨ payload % entrySize ≠ 0 then fail .badLength
    else findMadtFrom reader root entrySize (List.range (payload / entrySize))

/-- A result with all its bytes zero. -/
def cleared : AcpiPlatformInfo where
  localApicAddress := 0
  madtFlags := 0
  cpus := ⟨fun _ => {}, 0⟩
  ioapics := ⟨fun _ => {}, 0⟩
  overrides := ⟨fun _ => {}, 0⟩

/-- The signature `"RSD PTR "`. -/
def rsdpSignature : List UInt8 := [82, 83, 68, 32, 80, 84, 82, 32]

/-- The signature `"XSDT"`. -/
def xsdtSignature : List UInt8 := [88, 83, 68, 84]

/-- The signature `"RSDT"`. -/
def rsdtSignature : List UInt8 := [82, 83, 68, 84]

/-- The end of `acpi_discover`, by the 32-bit address in the RSDP. -/
def discoverRsdt (reader : AcpiReader) (rsdp : List UInt8) : Discovery Unit := do
  let rsdt ← readLe32 rsdp 16
  if rsdt = 0 then fail .notFound
  else findMadtInRoot reader (UInt64.ofNat rsdt) 4 rsdtSignature

/-- `acpi_discover`. -/
def acpiDiscover (reader : AcpiReader) (rsdpPhysical : UInt64) : Discovery Unit :=
  if rsdpPhysical = 0 then fail .badArgument
  else do
    set cleared
    let rsdp ← readExact reader rsdpPhysical 36 20
    let signed ← bytesEqual rsdp rsdpSignature
    if signed = false then fail .badSignature
    else do
      checksumRegion reader rsdpPhysical 20
      let revision ← byteOf rsdp 15
      if 2 ≤ revision then do
        let rsdp ← readExact reader rsdpPhysical 36 36
        let length ← readLe32 rsdp 20
        if length < 36 ∨ 4096 < length then fail .badLength
        else do
          checksumRegion reader rsdpPhysical length
          let xsdt ← readLe64 rsdp 24
          if xsdt ≠ 0 then findMadtInRoot reader (UInt64.ofNat xsdt) 8 xsdtSignature
          else discoverRsdt reader rsdp
      else discoverRsdt reader rsdp

end Acpi

end JoshOS
