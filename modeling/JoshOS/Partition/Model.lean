import JoshOS.Block.Model
import JoshOS.Lib.Bytes
import JoshOS.Lib.Counted
import JoshOS.Lib.Hoare

/-!
Partition tables: `partition.c`.

The two static buffers are part of the state of a scan.  A use of a byte past the end of
one of them, or of an entry past the end of the table, shows as `outOfBounds`.
-/

namespace JoshOS

open Hoare Bytes Words

/-! ### `partition.h` -/

/-- `PARTITION_MAX`. -/
def partitionMax : ℕ := 16

/-- `partition_scheme_t`. -/
inductive PartitionScheme where
  | none | mbr | gpt
  deriving DecidableEq, Repr

/-- `partition_t`; the default has all bytes zero. -/
structure Partition where
  firstLba : ℕ := 0
  sectorCount : ℕ := 0
  mbrType : ℕ := 0
  bootable : Bool := false
  typeGuid : List UInt8 := List.replicate 16 0
  uniqueGuid : List UInt8 := List.replicate 16 0
  deriving DecidableEq

instance : Inhabited Partition := ⟨{}⟩

/-- `partition_table_t`. -/
structure PartitionTable where
  scheme : PartitionScheme
  entries : Counted Partition partitionMax

/-- `partition_status_t`, without `PARTITION_OK`. -/
inductive PartitionStatus where
  | badArgument | ioError | badSignature | badGpt | tooMany
  deriving DecidableEq, Repr

/-- How a scan ends when not with `PARTITION_OK`: with a status, or at an access outside of
a buffer or the table. -/
inductive PartitionStop where
  | status (status : PartitionStatus)
  | outOfBounds
  deriving DecidableEq, Repr

/-- The state of a scan: the buffers, the table, and the world behind the device. -/
structure Scan (ω : Type) where
  sectorBuffer : Buffer
  gptEntries : Buffer
  table : PartitionTable
  world : ω

namespace Partition

/-- A function of `partition.c`. -/
abbrev Scanning (ω α : Type) := ExceptT PartitionStop (StateM (Scan ω)) α

variable {ω α : Type}

/-- `PARTITION_MAX_SECTOR`. -/
def partitionMaxSector : ℕ := 4096

/-- `GPT_ENTRY_MAX_SIZE`. -/
def gptEntryMaxSize : ℕ := 512

/-- `GPT_ENTRY_MAX_COUNT`. -/
def gptEntryMaxCount : ℕ := 128

/-- `GPT_TABLE_MAX_BYTES`. -/
def gptTableMaxBytes : ℕ := gptEntryMaxSize * gptEntryMaxCount

/-- Return with a status. -/
def fail (status : PartitionStatus) : Scanning ω α := throw (.status status)

/-! ### Bytes -/

/-- The `width` bytes at `buffer + offset`, in a buffer of `capacity` bytes. -/
def bytesAt (buffer : Buffer) (capacity offset width : ℕ) : Scanning ω (List UInt8) :=
  if capacity < offset + width then throw .outOfBounds
  else pure (window buffer offset width)

/-- Bytes of `sector_buffer`. -/
def sectorBytes (offset width : ℕ) : Scanning ω (List UInt8) := do
  let s ← get
  bytesAt s.sectorBuffer partitionMaxSector offset width

/-- Bytes of `gpt_entries`. -/
def entryBytes (offset width : ℕ) : Scanning ω (List UInt8) := do
  let s ← get
  bytesAt s.gptEntries gptTableMaxBytes offset width

/-- `le16`, `le32` and `le64` of bytes of `sector_buffer`. -/
def sectorLe (width offset : ℕ) : Scanning ω ℕ := do
  let bytes ← sectorBytes offset width
  pure (ofLE bytes)

/-- `le64` of bytes of `gpt_entries`. -/
def entryLe64 (offset : ℕ) : Scanning ω ℕ := do
  let bytes ← entryBytes offset 8
  pure (ofLE bytes)

/-- `guid_is_zero`. -/
def guidIsZero (guid : List UInt8) : Bool := guid.foldl (· ||| ·) 0 = 0

/-- The inner loop of `crc32_update`. -/
def crc32Bit (crc : BitVec 32) : BitVec 32 :=
  let mask := -(crc &&& 1#32)
  (crc >>> 1) ^^^ (0xedb88320#32 &&& mask)

/-- `crc32_update`. -/
def crc32Update (crc : BitVec 32) (data : List UInt8) : BitVec 32 :=
  ~~~ data.foldl (fun crc b => crc32Bit^[8] (crc ^^^ b.toBitVec.setWidth 32)) (~~~ crc)

/-- `read_sector` into `sector_buffer`. -/
def readSector (device : BlockDevice ω) (lba : ℕ) : Scanning ω Unit := do
  let s ← get
  let (status, buffer, world) := Block.blockRead (some device) lba 1 (some s.sectorBuffer) s.world
  set { s with sectorBuffer := buffer.getD s.sectorBuffer, world := world }
  if status ≠ .ok then fail .ioError else pure ()

/-! ### The GUID partition table -/

/-- The signature `"EFI PART"`. -/
def gptSignature : List UInt8 := [69, 70, 73, 32, 80, 65, 82, 84]

/-- What `validate_gpt_header` reads from the header. -/
structure GptFields where
  firstUsable : ℕ
  lastUsable : ℕ
  entriesLba : ℕ
  entryCount : ℕ
  entrySize : ℕ
  entriesCrc : ℕ

/-- `header_copy`, the first bytes of the header with the checksum cleared. -/
def headerCopy (headerSize : ℕ) : Scanning ω (List UInt8) := do
  let bytes ← sectorBytes 0 headerSize
  pure (bytes.take 16 ++ [0, 0, 0, 0] ++ bytes.drop 20)

/-- The fields of the header, and the checks of them. -/
def readGptFields : Scanning ω GptFields := do
  let firstUsable ← sectorLe 8 40
  let lastUsable ← sectorLe 8 48
  let entriesLba ← sectorLe 8 72
  let entryCount ← sectorLe 4 80
  let entrySize ← sectorLe 4 84
  let entriesCrc ← sectorLe 4 88
  if lastUsable < firstUsable then fail .badGpt
  else if entryCount = 0 ∨ gptEntryMaxCount < entryCount then fail .badGpt
  else if entrySize < 128 ∨ gptEntryMaxSize < entrySize then fail .badGpt
  else if entrySize &&& 7 ≠ 0 then fail .badGpt
  else pure ⟨firstUsable, lastUsable, entriesLba, entryCount, entrySize, entriesCrc⟩

/-- `gpt_signature_valid`. -/
def gptSignatureValid : Scanning ω Bool := do
  let bytes ← sectorBytes 0 8
  pure (bytes = gptSignature)

/-- `validate_gpt_header`. -/
def validateGptHeader (device : BlockDevice ω) : Scanning ω GptFields := do
  let valid ← gptSignatureValid
  if valid = false then fail .badGpt
  else do
    let headerSize ← sectorLe 4 12
    let storedCrc ← sectorLe 4 16
    if headerSize < 92 then fail .badGpt
    else if device.sectorSize < headerSize then fail .badGpt
    else if partitionMaxSector < headerSize then fail .badGpt
    else do
      let copy ← headerCopy headerSize
      if (crc32Update 0 copy).toNat ≠ storedCrc then fail .badGpt
      else do
        let myLba ← sectorLe 8 24
        if myLba ≠ 1 then fail .badGpt else readGptFields

/-- The inner loop of `load_gpt_entries`: `take` bytes from `sector_buffer` to
`gpt_entries + copied`. -/
def copyEntries (copied take : ℕ) : Scanning ω Unit :=
  if partitionMaxSector < take ∨ gptTableMaxBytes < copied + take then throw .outOfBounds
  else modify fun s => { s with gptEntries := fun i =>
    if copied ≤ i ∧ i < copied + take then s.sectorBuffer (i - copied) else s.gptEntries i }

/-- The loop of `load_gpt_entries` from the sector `s` on, with `count` sectors to go. -/
def loadSectors (device : BlockDevice ω) (entriesLba tableBytes : ℕ) :
    ℕ → ℕ → ℕ → Scanning ω Unit
  | 0, _, _ => pure ()
  | count + 1, s, copied => do
      readSector device (wrap64 (entriesLba + s))
      let remaining := tableBytes - copied
      let take := if remaining < device.sectorSize then remaining else device.sectorSize
      copyEntries copied take
      loadSectors device entriesLba tableBytes count (s + 1) (copied + take)

/-- `load_gpt_entries`. -/
def loadGptEntries (device : BlockDevice ω) (fields : GptFields) : Scanning ω Unit :=
  let tableBytes := fields.entryCount * fields.entrySize
  if gptTableMaxBytes < tableBytes then fail .badGpt
  else
    let sectors := (tableBytes + device.sectorSize - 1) / device.sectorSize
    if device.sectorCount ≤ fields.entriesLba then fail .badGpt
    else if sectors = 0 then fail .badGpt
    else if device.sectorCount - fields.entriesLba < sectors then fail .badGpt
    else do
      loadSectors device fields.entriesLba tableBytes sectors 0 0
      let table ← entryBytes 0 tableBytes
      if (crc32Update 0 table).toNat ≠ fields.entriesCrc then fail .badGpt else pure ()

/-- The check of `table->count` before an entry is taken. -/
def checkRoom : Scanning ω Unit := do
  let s ← get
  if partitionMax ≤ s.table.entries.count then fail .tooMany else pure ()

/-- `table->entries[table->count++]`, filled with `entry`. -/
def storeEntry (entry : Partition) : Scanning ω Unit := do
  let s ← get
  match s.table.entries.store entry with
  | none => throw .outOfBounds
  | some entries => set { s with table := { s.table with entries := entries } }

/-- The body of the loop of `populate_gpt_table`. -/
def populateEntry (device : BlockDevice ω) (fields : GptFields) (i : ℕ) : Scanning ω Unit := do
  let entry := i * fields.entrySize
  let typeGuid ← entryBytes entry 16
  if guidIsZero typeGuid then pure ()
  else do
    let first ← entryLe64 (entry + 32)
    let last ← entryLe64 (entry + 40)
    if last < first then fail .badGpt
    else if first < fields.firstUsable ∨ fields.lastUsable < last then fail .badGpt
    else if device.sectorCount ≤ last then fail .badGpt
    else do
      checkRoom
      let uniqueGuid ← entryBytes (entry + 16) 16
      storeEntry
        { firstLba := first, sectorCount := wrap64 (last - first + 1), typeGuid := typeGuid
          uniqueGuid := uniqueGuid }

/-- `populate_gpt_table`. -/
def populateGptTable (device : BlockDevice ω) (fields : GptFields) : Scanning ω Unit := do
  modify fun s => { s with table := ⟨.gpt, { s.table.entries with count := 0 }⟩ }
  forUp 0 fields.entryCount 1 (populateEntry device fields)

/-- `parse_gpt`. -/
def parseGpt (device : BlockDevice ω) : Scanning ω Unit := do
  readSector device 1
  let fields ← validateGptHeader device
  loadGptEntries device fields
  populateGptTable device fields

/-! ### The master boot record -/

/-- The offset of an entry of the MBR. -/
def mbrEntry (i : ℕ) : ℕ := 446 + i * 16

/-- The loop that looks for a protective entry. -/
def findProtective : List ℕ → Bool → Scanning ω Bool
  | [], protective => pure protective
  | i :: is, protective => do
      let type ← sectorLe 1 (mbrEntry i + 4)
      if type = 0 then findProtective is protective
      else findProtective is (if type = 0xee then true else protective)

/-- The body of the loop over the entries of the MBR. -/
def parseMbrEntry (device : BlockDevice ω) (i : ℕ) : Scanning ω Unit := do
  let type ← sectorLe 1 (mbrEntry i + 4)
  let first ← sectorLe 4 (mbrEntry i + 8)
  let count ← sectorLe 4 (mbrEntry i + 12)
  if type = 0 ∨ count = 0 then pure ()
  else if device.sectorCount ≤ first ∨ device.sectorCount - first < count then fail .badSignature
  else do
    checkRoom
    let boot ← sectorLe 1 (mbrEntry i)
    storeEntry { firstLba := first, sectorCount := count, mbrType := type, bootable := boot = 0x80 }

/-- A table with all its bytes zero. -/
def clearedTable : PartitionTable := ⟨.none, ⟨fun _ => {}, 0⟩⟩

/-- `partition_scan`; the pointer to the table is there. -/
def partitionScan (device : Option (BlockDevice ω)) : Scanning ω Unit :=
  match device with
  | none => fail .badArgument
  | some device =>
    if device.sectorSize < 512 ∨ partitionMaxSector < device.sectorSize ∨
        device.sectorCount < 2 then fail .badArgument
    else do
      modify fun s => { s with table := clearedTable }
      readSector device 0
      let signature ← sectorLe 2 510
      if signature ≠ 0xaa55 then fail .badSignature
      else do
        let protective ← findProtective (List.range 4) false
        if protective then parseGpt device
        else do
          modify fun s => { s with table := { s.table with scheme := .mbr } }
          forUp 0 4 1 (parseMbrEntry device)

end Partition

end JoshOS
