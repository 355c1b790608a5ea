import JoshOS.Lib.Crc
import JoshOS.Partition.Model

/-!
The GUID partition table as it stands on a disk.

* `Gpt`: a header and its entry slots, with the lengths that make them a table; `Gpt.table`
  is what a scan should find.
* `Gpt.Fits`: the sizes and positions a device has room for.
* `Gpt.OnDisk`: the disk shows a protective MBR, the header at LBA 1 and the entry array,
  both with their CRC-32.
* `Gpt.image`, `Gpt.onDisk_image`: a disk that does.
-/

namespace JoshOS

open List Bytes

namespace Partition

/-! ### Entries -/

/-- A partition to be stored in an entry. -/
structure GptPartition where
  typeGuid : List UInt8
  uniqueGuid : List UInt8
  first : UInt64
  last : UInt64
  length_typeGuid : typeGuid.length = 16
  length_uniqueGuid : uniqueGuid.length = 16
  typeGuid_ne_zero : typeGuid ≠ List.replicate 16 0

/-- The partition as a scan reports it. -/
def GptPartition.toPartition (p : GptPartition) : Partition where
  firstLba := p.first.toNat
  sectorCount := p.last.toNat - p.first.toNat + 1
  typeGuid := p.typeGuid
  uniqueGuid := p.uniqueGuid

/-- An entry slot: one without a type and one with a partition, and the bytes after what is
read. -/
inductive GptSlot where
  | empty (rest : List UInt8)
  | used (p : GptPartition) (rest : List UInt8)

namespace GptSlot

/-- The fields of a slot. -/
def fields : GptSlot → List (List UInt8)
  | empty rest => [List.replicate 16 0, rest]
  | used p rest => [p.typeGuid, p.uniqueGuid, toLE 8 p.first.toNat, toLE 8 p.last.toNat, rest]

/-- The bytes of a slot. -/
def encode (slot : GptSlot) : List UInt8 := slot.fields.flatten

/-- The partition in a slot. -/
def partition : GptSlot → Option GptPartition
  | empty _ => none
  | used p _ => some p

end GptSlot

/-! ### The header -/

/-- What a header says, without the numbers that follow from the entries.  The fields that
are not read are bytes. -/
structure GptHeader where
  revision : List UInt8
  reserved : List UInt8
  alternateLba : List UInt8
  firstUsable : UInt64
  lastUsable : UInt64
  diskGuid : List UInt8
  entriesLba : UInt64
  entrySize : ℕ
  rest : List UInt8
  length_revision : revision.length = 4
  length_reserved : reserved.length = 4
  length_alternateLba : alternateLba.length = 8
  length_diskGuid : diskGuid.length = 16

namespace GptHeader

attribute [simp] length_revision length_reserved length_alternateLba length_diskGuid

/-- The size of the header. -/
def headerSize (h : GptHeader) : ℕ := 92 + h.rest.length

/-- The fields of the header before the checksum. -/
def before (h : GptHeader) : List (List UInt8) := [gptSignature, h.revision, toLE 4 h.headerSize]

/-- The fields of the header after the checksum. -/
def after (h : GptHeader) (entryCount entriesCrc : ℕ) : List (List UInt8) :=
  [h.reserved, toLE 8 1, h.alternateLba, toLE 8 h.firstUsable.toNat, toLE 8 h.lastUsable.toNat,
    h.diskGuid, toLE 8 h.entriesLba.toNat, toLE 4 entryCount, toLE 4 h.entrySize,
    toLE 4 entriesCrc, h.rest]

/-- The fields of the header. -/
def fields (h : GptHeader) (entryCount entriesCrc crc : ℕ) : List (List UInt8) :=
  h.before ++ toLE 4 crc :: h.after entryCount entriesCrc

/-- The bytes of the header. -/
def encode (h : GptHeader) (entryCount entriesCrc crc : ℕ) : List UInt8 :=
  (h.fields entryCount entriesCrc crc).flatten

variable (h : GptHeader) (entryCount entriesCrc crc : ℕ)

lemma length_before : h.before.flatten.length = 16 := by simp [before, gptSignature]

lemma length_encode : (h.encode entryCount entriesCrc crc).length = h.headerSize := by
  simp [encode, fields, before, after, gptSignature, headerSize]
  omega

/-- The header with its checksum cleared. -/
lemma clear_encode :
    (h.encode entryCount entriesCrc crc).take 16 ++ [0, 0, 0, 0] ++
      (h.encode entryCount entriesCrc crc).drop 20 = h.encode entryCount entriesCrc 0 := by
  have hsplit : ∀ c, h.encode entryCount entriesCrc c =
      h.before.flatten ++ (toLE 4 c ++ (h.after entryCount entriesCrc).flatten) := by
    intro c
    rw [encode, fields, flatten_append, flatten_cons]
  have hdrop : (h.encode entryCount entriesCrc crc).drop 20 =
      (h.after entryCount entriesCrc).flatten := by
    rw [hsplit, ← append_assoc, drop_left']
    rw [length_append, length_before, length_toLE]
  rw [hdrop, hsplit crc, take_left' h.length_before, hsplit 0, append_assoc]
  rfl

end GptHeader

/-! ### The table -/

/-- A header and its slots, all of the size the header gives. -/
structure Gpt where
  header : GptHeader
  slots : List GptSlot
  length_slot : ∀ slot ∈ slots, slot.encode.length = header.entrySize

namespace Gpt

/-- The bytes of the entry array. -/
def entries (gpt : Gpt) : List UInt8 := (gpt.slots.map GptSlot.encode).flatten

/-- The CRC-32 of the entry array. -/
def entriesCrc (gpt : Gpt) : ℕ := (Crc.crc32 gpt.entries).toNat

/-- The CRC-32 of the header, with the field of the checksum zero. -/
def headerCrc (gpt : Gpt) : ℕ :=
  (Crc.crc32 (gpt.header.encode gpt.slots.length gpt.entriesCrc 0)).toNat

/-- The bytes of the header. -/
def headerBytes (gpt : Gpt) : List UInt8 :=
  gpt.header.encode gpt.slots.length gpt.entriesCrc gpt.headerCrc

/-- The partitions, in the order of their slots. -/
def partitions (gpt : Gpt) : List GptPartition := gpt.slots.filterMap GptSlot.partition

/-- The table that a scan should find. -/
def table (gpt : Gpt) : PartitionTable :=
  ⟨.gpt, .ofList (gpt.partitions.map GptPartition.toPartition)⟩

/-- There is a slot, and a sector for partitions. -/
def Usable (gpt : Gpt) : Prop :=
  0 < gpt.slots.length ∧ gpt.header.firstUsable ≤ gpt.header.lastUsable

/-- A partition is where the header and the device let it be. -/
structure Inside {ω : Type} (gpt : Gpt) (device : BlockDevice ω) (p : GptPartition) : Prop where
  first_le_last : p.first ≤ p.last
  le_first : gpt.header.firstUsable ≤ p.first
  last_le : p.last ≤ gpt.header.lastUsable
  last_lt : p.last.toNat < device.sectorCount

/-- The sizes and positions are those the device and the format allow. -/
structure Fits {ω : Type} (gpt : Gpt) (device : BlockDevice ω) : Prop where
  le_sectorSize : 512 ≤ device.sectorSize
  sectorSize_le : device.sectorSize ≤ 4096
  sectorCount_lt : device.sectorCount < 2 ^ 64
  headerSize_le : gpt.header.headerSize ≤ device.sectorSize
  le_entrySize : 128 ≤ gpt.header.entrySize
  entrySize_le : gpt.header.entrySize ≤ 512
  dvd_entrySize : 8 ∣ gpt.header.entrySize
  slots_le : gpt.slots.length ≤ 128
  partitions_le : gpt.partitions.length ≤ 16
  inside : ∀ p ∈ gpt.partitions, gpt.Inside device p
  le_entriesLba : 2 ≤ gpt.header.entriesLba.toNat
  entries_inside : gpt.header.entriesLba.toNat * device.sectorSize + gpt.entries.length ≤
    device.sectorCount * device.sectorSize

/-- A disk with sectors of `size` bytes shows the table. -/
structure OnDisk (gpt : Gpt) (size : ℕ) (disk : Buffer) : Prop where
  signature : window disk 510 2 = [0x55, 0xaa]
  protective : ∃ i < 4, disk (mbrEntry i + 4) = 0xee
  header : window disk size gpt.header.headerSize = gpt.headerBytes
  entries : window disk (gpt.header.entriesLba.toNat * size) gpt.entries.length = gpt.entries

lemma length_headerBytes (gpt : Gpt) : gpt.headerBytes.length = gpt.header.headerSize :=
  gpt.header.length_encode ..

lemma length_entries (gpt : Gpt) :
    gpt.entries.length = gpt.slots.length * gpt.header.entrySize := by
  rw [entries, length_flatten_of_forall (forall_mem_map.mpr gpt.length_slot),
    length_map]

/-! ### An image -/

/-- A disk with the table and zeros elsewhere. -/
def image (gpt : Gpt) (size : ℕ) : Buffer :=
  put (put (put (put (fun _ => 0) (mbrEntry 0 + 4) [0xee]) 510 [0x55, 0xaa]) size gpt.headerBytes)
    (gpt.header.entriesLba.toNat * size) gpt.entries

/-- The image of a table that fits shows the table. -/
lemma onDisk_image {ω : Type} {gpt : Gpt} {device : BlockDevice ω} (h : gpt.Fits device) :
    gpt.OnDisk device.sectorSize (gpt.image device.sectorSize) := by
  have hsize := h.le_sectorSize
  have hheader := h.headerSize_le
  have hentries : 2 * device.sectorSize ≤ gpt.header.entriesLba.toNat * device.sectorSize :=
    Nat.mul_le_mul_right _ h.le_entriesLba
  refine ⟨?_, ⟨0, by norm_num, ?_⟩, ?_, window_put ..⟩
  · rw [image, window_put_of_le (by omega), window_put_of_le (by omega)]
    exact window_put _ 510 [0x55, 0xaa]
  · have hentry : mbrEntry 0 + 4 = 450 := rfl
    rw [image, put_of_lt (by omega), put_of_lt (by omega), put_of_lt (by omega)]
    rfl
  · rw [image, window_put_of_le (by omega), ← length_headerBytes, window_put]

end Gpt

end Partition

end JoshOS
