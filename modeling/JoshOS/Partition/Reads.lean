import JoshOS.Lib.Crc
import JoshOS.Partition.Model

/-!
What the small functions of `partition.c` return.

* `crc32Update_zero`: `crc32_update` computes the CRC-32.
* `guidIsZero_iff`: `guid_is_zero` finds exactly the zero GUID.
* `sectorLe_bind`, `entryBytes_bind`, ...: a read inside of a buffer returns its bytes.
* `readSector_spec`: a sector is what the driver serves, or the driver fails.
* `Faithful`, `readSector_triple`: a sector read from a device that has a disk is the
  sector of the disk.
-/

namespace JoshOS

open Hoare Bytes

namespace Partition

variable {ω α : Type} {P : Scan ω → Prop} {Q : α → Scan ω → Prop}
  {E : PartitionStop → Scan ω → Prop} {offset width : ℕ} {bytes : List UInt8}

/-! ### Checksums and GUIDs -/

lemma crc32Bit_eq : crc32Bit = Crc.bitStep := by
  funext c
  exact (Crc.bitStep_eq_mask c).symm

/-- **`crc32_update`** from zero computes the CRC-32. -/
lemma crc32Update_zero (data : List UInt8) : crc32Update 0 data = Crc.crc32 data := by
  rw [crc32Update, crc32Bit_eq]
  rfl

lemma foldl_or_eq_zero_iff (l : List UInt8) (acc : UInt8) :
    l.foldl (· ||| ·) acc = 0 ↔ acc = 0 ∧ ∀ b ∈ l, b = 0 := by
  induction l generalizing acc with
  | nil => simp
  | cons b l ih =>
    rw [List.foldl_cons, ih, UInt8.or_eq_zero_iff, List.forall_mem_cons, and_assoc]

/-- **`guid_is_zero`** finds exactly the GUID of sixteen zeros. -/
lemma guidIsZero_iff {guid : List UInt8} (h : guid.length = 16) :
    guidIsZero guid = true ↔ guid = List.replicate 16 0 := by
  rw [guidIsZero, decide_eq_true_iff, foldl_or_eq_zero_iff, List.eq_replicate_iff]
  simp [h]

/-! ### Reads of the buffers -/

/-- A check that passes. -/
lemma check_triple {c : Prop} [Decidable c] {status : PartitionStatus} {x : Scanning ω α}
    (hc : ¬ c) (hx : Triple P x Q E) : Triple P (if c then fail status else x) Q E :=
  .ite (fun h => absurd h hc) fun _ => hx

/-- A read inside of `sector_buffer`. -/
lemma sectorBytes_triple (hin : offset + width ≤ partitionMaxSector)
    (h : ∀ s, P s → window s.sectorBuffer offset width = bytes) :
    Triple P (sectorBytes offset width) (fun b s => P s ∧ b = bytes) E := by
  refine .of_outcome fun s hs => ⟨bytes, s, ?_, hs, rfl⟩
  rw [sectorBytes, outcome_bind, outcome_get]
  simp only [bytesAt, if_neg (Nat.not_lt.mpr hin), h s hs, outcome_pure]

/-- A read inside of `gpt_entries`. -/
lemma entryBytes_triple (hin : offset + width ≤ gptTableMaxBytes)
    (h : ∀ s, P s → window s.gptEntries offset width = bytes) :
    Triple P (entryBytes offset width) (fun b s => P s ∧ b = bytes) E := by
  refine .of_outcome fun s hs => ⟨bytes, s, ?_, hs, rfl⟩
  rw [entryBytes, outcome_bind, outcome_get]
  simp only [bytesAt, if_neg (Nat.not_lt.mpr hin), h s hs, outcome_pure]

lemma sectorBytes_bind {f : List UInt8 → Scanning ω α}
    (hin : offset + width ≤ partitionMaxSector)
    (h : ∀ s, P s → window s.sectorBuffer offset width = bytes) (hf : Triple P (f bytes) Q E) :
    Triple P (sectorBytes offset width >>= f) Q E :=
  .bind_value (sectorBytes_triple hin h) hf

lemma entryBytes_bind {f : List UInt8 → Scanning ω α} (hin : offset + width ≤ gptTableMaxBytes)
    (h : ∀ s, P s → window s.gptEntries offset width = bytes) (hf : Triple P (f bytes) Q E) :
    Triple P (entryBytes offset width >>= f) Q E :=
  .bind_value (entryBytes_triple hin h) hf

/-- A number in `sector_buffer`. -/
lemma sectorLe_bind {f : ℕ → Scanning ω α} (hin : offset + width ≤ partitionMaxSector)
    (h : ∀ s, P s → window s.sectorBuffer offset width = bytes)
    (hf : Triple P (f (ofLE bytes)) Q E) : Triple P (sectorLe width offset >>= f) Q E := by
  rw [sectorLe, bind_assoc]
  exact sectorBytes_bind hin h (by rwa [pure_bind])

/-- A number in `gpt_entries`. -/
lemma entryLe64_bind {f : ℕ → Scanning ω α} (hin : offset + 8 ≤ gptTableMaxBytes)
    (h : ∀ s, P s → window s.gptEntries offset 8 = bytes)
    (hf : Triple P (f (ofLE bytes)) Q E) : Triple P (entryLe64 offset >>= f) Q E := by
  rw [entryLe64, bind_assoc]
  exact entryBytes_bind hin h (by rwa [pure_bind])

/-- A read inside of `sector_buffer`, whatever the bytes are. -/
lemma sectorLe_any {f : ℕ → Scanning ω α} (hin : offset + width ≤ partitionMaxSector)
    (hf : ∀ v, Triple P (f v) Q E) : Triple P (sectorLe width offset >>= f) Q E :=
  .of_pre fun _ hs₀ => sectorLe_bind hin (fun s hs => by rw [hs])
    ((hf _).conseq (fun _ hs => hs ▸ hs₀) (fun _ _ h => h) fun _ _ h => h)

/-- A read inside of `gpt_entries`, whatever the bytes are. -/
lemma entryBytes_any {f : List UInt8 → Scanning ω α} (hin : offset + width ≤ gptTableMaxBytes)
    (hf : ∀ b, Triple P (f b) Q E) : Triple P (entryBytes offset width >>= f) Q E :=
  .of_pre fun _ hs₀ => entryBytes_bind hin (fun s hs => by rw [hs])
    ((hf _).conseq (fun _ hs => hs ▸ hs₀) (fun _ _ h => h) fun _ _ h => h)

lemma entryLe64_any {f : ℕ → Scanning ω α} (hin : offset + 8 ≤ gptTableMaxBytes)
    (hf : ∀ v, Triple P (f v) Q E) : Triple P (entryLe64 offset >>= f) Q E := by
  rw [entryLe64, bind_assoc]
  exact entryBytes_any hin fun b => by rw [pure_bind]; exact hf _

/-! ### Reads of the device -/

variable {device : BlockDevice ω} {disk sector : Buffer} {lba : ℕ} {w₀ : ω}

/-- A read of one sector that the driver has served with these bytes. -/
def ReadAt (device : BlockDevice ω) (lba : ℕ) (sector : Buffer) : Prop :=
  ∃ read w buffer w', device.read = some read ∧ read w lba 1 buffer = (.ok, sector, w')

/-- The driver is asked for one sector of the device. -/
def ReadStep (device : BlockDevice ω) (w w' : ω) : Prop :=
  ∃ read lba buffer, device.read = some read ∧ lba < device.sectorCount ∧
    w' = (read w lba 1 buffer).2.2

/-- The driver has only been asked for single sectors of the device. -/
def Reached (device : BlockDevice ω) : ω → ω → Prop := Relation.ReflTransGen (ReadStep device)

/-- There is no driver, or it fails on a sector of the device. -/
def DriverFails (device : BlockDevice ω) : Prop :=
  ∀ read, device.read = some read → ∃ w lba buffer, lba < device.sectorCount ∧
    (read w lba 1 buffer).1 ≠ .ok

/-- A scan that stops because the driver fails. -/
structure IoStop (device : BlockDevice ω) (w₀ : ω) (stop : PartitionStop) (s : Scan ω) : Prop where
  stop_eq : stop = .status .ioError
  fails : DriverFails device
  reached : Reached device w₀ s.world

/-- **`read_sector`** of a sector of the device puts what the driver serves in the buffer, and
changes neither the entries nor the table. -/
lemma readSector_spec {K : Buffer → PartitionTable → Prop} (hlba : lba < device.sectorCount) :
    Triple (fun s => K s.gptEntries s.table ∧ Reached device w₀ s.world) (readSector device lba)
      (fun _ s => K s.gptEntries s.table ∧ Reached device w₀ s.world ∧
        ReadAt device lba s.sectorBuffer) (IoStop device w₀) := by
  refine Triple.iff_ends.mpr fun s hs => ?_
  have hrange : Block.requestInRange device lba 1 = true := by
    rw [Block.requestInRange, if_neg one_ne_zero, if_neg (by omega), decide_eq_true_iff]
    omega
  rw [readSector, outcome_bind, outcome_get]
  cases hread : device.read with
  | none =>
    simp only [Block.blockRead, hread]
    exact ⟨rfl, fun read hsome => by simp [hread] at hsome, hs.2⟩
  | some read =>
    have hreached := hs.2.tail ⟨read, lba, s.sectorBuffer, hread, hlba, rfl⟩
    simp only [Block.blockRead, hread, hrange]
    rcases hrun : read s.world lba 1 s.sectorBuffer with ⟨status, sector, w'⟩
    rw [hrun] at hreached
    by_cases hok : status = .ok
    · subst hok
      exact ⟨hs.1, hreached, read, s.world, s.sectorBuffer, w', hread, hrun⟩
    · have hfails : DriverFails device := by
        intro read' hread'
        obtain rfl : read = read' := Option.some.inj (hread.symm.trans hread')
        exact ⟨s.world, lba, s.sectorBuffer, hlba, by rw [hrun]; exact hok⟩
      simp only [Bool.true_eq_false, if_false, outcome_bind, outcome_set]
      rw [if_pos hok]
      exact ⟨rfl, hfails, hreached⟩

/-! ### A device with a disk -/

/-- Reads of one sector of the device succeed and show the disk. -/
def Faithful (device : BlockDevice ω) (disk : Buffer) : Prop :=
  ∃ read, device.read = some read ∧ ∀ w lba buffer, lba < device.sectorCount →
    ∃ out w', read w lba 1 buffer = (.ok, out, w') ∧
      ∀ i < device.sectorSize, out i = disk (lba * device.sectorSize + i)

/-- The buffer has the sector. -/
def Shows (device : BlockDevice ω) (disk : Buffer) (lba : ℕ) (s : Scan ω) : Prop :=
  ∀ i < device.sectorSize, s.sectorBuffer i = disk (lba * device.sectorSize + i)

lemma Shows.window_eq {s : Scan ω} (h : Shows device disk lba s)
    (hin : offset + width ≤ device.sectorSize) :
    window s.sectorBuffer offset width =
      window disk (lba * device.sectorSize + offset) width := by
  refine window_congr fun i hi => ?_
  rw [h _ (by omega), Nat.add_assoc]

/-- What the driver serves is on the disk. -/
lemma Faithful.readAt (h : Faithful device disk) (hlba : lba < device.sectorCount)
    (hread : ReadAt device lba sector) :
    ∀ i < device.sectorSize, sector i = disk (lba * device.sectorSize + i) := by
  obtain ⟨read, hsome, hdisk⟩ := h
  obtain ⟨read', w, buffer, w', hsome', hrun⟩ := hread
  obtain rfl : read = read' := Option.some.inj (hsome.symm.trans hsome')
  obtain ⟨out, w'', hrun', hout⟩ := hdisk w lba buffer hlba
  rw [hrun, Prod.mk.injEq, Prod.mk.injEq] at hrun'
  rw [hrun'.2.1]
  exact hout

lemma Faithful.not_driverFails (h : Faithful device disk) : ¬ DriverFails device := by
  obtain ⟨read, hsome, hdisk⟩ := h
  intro hfails
  obtain ⟨w, lba, buffer, hlba, hne⟩ := hfails read hsome
  obtain ⟨out, w', hrun, -⟩ := hdisk w lba buffer hlba
  exact hne (by rw [hrun])

/-- A sector of the disk is put in the buffer. -/
lemma readSector_triple {K : Buffer → PartitionTable → Prop} (hdisk : Faithful device disk)
    (hlba : lba < device.sectorCount) :
    Triple (fun s => K s.gptEntries s.table) (readSector device lba)
      (fun _ s => K s.gptEntries s.table ∧ Shows device disk lba s) E := by
  refine .of_pre fun s₀ hs₀ => ?_
  have hspec : Triple (fun s => K s.gptEntries s.table ∧ Reached device s₀.world s.world)
      (readSector device lba) _ (IoStop device s₀.world) := readSector_spec hlba
  refine hspec.conseq (fun s hs => ?_) (fun _ s hs => ⟨hs.1, hdisk.readAt hlba hs.2.2⟩)
    fun stop s hs => absurd hs.fails hdisk.not_driverFails
  subst hs
  exact ⟨hs₀, .refl⟩

end Partition

end JoshOS
