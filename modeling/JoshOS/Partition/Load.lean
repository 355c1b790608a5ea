import JoshOS.Partition.Reads

/-!
The header and the entry array as `partition.c` takes them from any device.

* `GoodHeader`, `validateGptHeader_spec`: a header is accepted just when it is a good one.
* `Served`, `loadSectors_spec`: the entry array is put together from the sectors the driver
  serves.
-/

namespace JoshOS

open Hoare Bytes Words

namespace Partition

variable {ω α : Type} {Q : α → Scan ω → Prop} {E : PartitionStop → Scan ω → Prop}
  {device : BlockDevice ω} {w₀ : ω} {s₀ : Scan ω} {offset width : ℕ}

/-! ### The header -/

/-- A little-endian number in a buffer. -/
def fieldAt (b : Buffer) (width offset : ℕ) : ℕ := ofLE (window b offset width)

/-- The fields of the header in a buffer. -/
def headerFieldsAt (b : Buffer) : GptFields where
  firstUsable := fieldAt b 8 40
  lastUsable := fieldAt b 8 48
  entriesLba := fieldAt b 8 72
  entryCount := fieldAt b 4 80
  entrySize := fieldAt b 4 84
  entriesCrc := fieldAt b 4 88

/-- The header with its checksum cleared. -/
def clearCrc (header : List UInt8) : List UInt8 := header.take 16 ++ [0, 0, 0, 0] ++ header.drop 20

/-- The buffer has a header for the device, with the right CRC-32. -/
structure GoodHeader (device : BlockDevice ω) (b : Buffer) : Prop where
  signature : window b 0 8 = gptSignature
  le_size : 92 ≤ fieldAt b 4 12
  size_le : fieldAt b 4 12 ≤ device.sectorSize
  crc : (Crc.crc32 (clearCrc (window b 0 (fieldAt b 4 12)))).toNat = fieldAt b 4 16
  myLba : fieldAt b 8 24 = 1
  usable : (headerFieldsAt b).firstUsable ≤ (headerFieldsAt b).lastUsable
  count_pos : (headerFieldsAt b).entryCount ≠ 0
  count_le : (headerFieldsAt b).entryCount ≤ gptEntryMaxCount
  le_entrySize : 128 ≤ (headerFieldsAt b).entrySize
  entrySize_le : (headerFieldsAt b).entrySize ≤ gptEntryMaxSize
  aligned : (headerFieldsAt b).entrySize &&& 7 = 0

/-- A number in the `sector_buffer` of a known state. -/
lemma sectorLe_at {f : ℕ → Scanning ω α} (hin : offset + width ≤ partitionMaxSector)
    (hf : Triple (fun s => s = s₀) (f (fieldAt s₀.sectorBuffer width offset)) Q E) :
    Triple (fun s => s = s₀) (sectorLe width offset >>= f) Q E :=
  sectorLe_bind hin (fun _ hs => by rw [hs]) hf

/-- The header is refused. -/
structure BadHeader (device : BlockDevice ω) (s₀ : Scan ω) (stop : PartitionStop) (s : Scan ω) :
    Prop where
  stop_eq : stop = .status .badGpt
  same : s = s₀
  bad : ¬ GoodHeader device s₀.sectorBuffer

/-- A check of the header that every good header passes. -/
lemma headerCheck {c : Prop} [Decidable c] {x : Scanning ω α}
    (hgood : GoodHeader device s₀.sectorBuffer → ¬ c)
    (hx : ¬ c → Triple (fun s => s = s₀) x Q (BadHeader device s₀)) :
    Triple (fun s => s = s₀) (if c then fail .badGpt else x) Q (BadHeader device s₀) :=
  .guard (fun hc _ hs => ⟨rfl, hs, fun h => hgood h hc⟩) hx

/-- **`validate_gpt_header`** accepts just the good headers. -/
lemma validateGptHeader_spec (hsize : device.sectorSize ≤ partitionMaxSector) :
    Triple (fun s => s = s₀) (validateGptHeader device)
      (fun fields s => s = s₀ ∧ GoodHeader device s₀.sectorBuffer ∧
        fields = headerFieldsAt s₀.sectorBuffer) (BadHeader device s₀) := by
  rw [validateGptHeader, gptSignatureValid, bind_assoc]
  refine sectorBytes_bind (by decide) (fun s hs => by rw [hs]) ?_
  rw [pure_bind]
  refine headerCheck (fun h => by simp [h.signature]) fun hsignature => ?_
  refine sectorLe_at (by decide) (sectorLe_at (by decide) ?_)
  refine headerCheck (fun h => Nat.not_lt.mpr h.le_size) fun hmin => ?_
  refine headerCheck (fun h => Nat.not_lt.mpr h.size_le) fun hmax => ?_
  refine headerCheck (fun h => Nat.not_lt.mpr (h.size_le.trans hsize)) fun hroom => ?_
  rw [headerCopy, bind_assoc]
  refine sectorBytes_bind (by rw [Nat.zero_add]; exact Nat.not_lt.mp hroom)
    (fun s hs => by rw [hs]) ?_
  rw [pure_bind, crc32Update_zero]
  refine headerCheck (fun h => not_not.mpr h.crc) fun hcrc => ?_
  refine sectorLe_at (by decide) (headerCheck (fun h => not_not.mpr h.myLba) fun hlba => ?_)
  rw [readGptFields]
  refine sectorLe_at (by decide) (sectorLe_at (by decide) (sectorLe_at (by decide)
    (sectorLe_at (by decide) (sectorLe_at (by decide) (sectorLe_at (by decide) ?_)))))
  refine headerCheck (fun h => Nat.not_lt.mpr h.usable) fun husable => ?_
  refine headerCheck (fun h => not_or.mpr ⟨h.count_pos, Nat.not_lt.mpr h.count_le⟩)
    fun hcount => ?_
  refine headerCheck
    (fun h => not_or.mpr ⟨Nat.not_lt.mpr h.le_entrySize, Nat.not_lt.mpr h.entrySize_le⟩)
    fun hentry => ?_
  refine headerCheck (fun h => not_not.mpr h.aligned) fun haligned => ?_
  rw [not_or] at hcount hentry
  refine .pure fun s hs => ⟨hs, ⟨?_, Nat.not_lt.mp hmin, Nat.not_lt.mp hmax, not_not.mp hcrc,
    not_not.mp hlba, Nat.not_lt.mp husable, hcount.1, Nat.not_lt.mp hcount.2,
    Nat.not_lt.mp hentry.1, Nat.not_lt.mp hentry.2, not_not.mp haligned⟩, rfl⟩
  simpa using hsignature

/-! ### The entry array -/

/-- The first `copied` bytes of the array at `lba` are those of sectors that the driver has
served. -/
def Served (device : BlockDevice ω) (lba copied : ℕ) (entries : Buffer) : Prop :=
  ∀ i < copied, ∃ sector, ReadAt device (lba + i / device.sectorSize) sector ∧
    entries i = sector (i % device.sectorSize)

variable {T : PartitionTable → Prop}

/-- The state while the array is loaded. -/
structure Loading (T : PartitionTable → Prop) (device : BlockDevice ω) (w₀ : ω) (lba copied : ℕ)
    (s : Scan ω) : Prop where
  table : T s.table
  reached : Reached device w₀ s.world
  served : Served device lba copied s.gptEntries

/-- Bytes of the next sector are copied behind those of the sectors before. -/
lemma copyEntries_spec {lba k copied take : ℕ} (htake : take ≤ device.sectorSize)
    (hsector : device.sectorSize ≤ partitionMaxSector)
    (hroom : copied + take ≤ gptTableMaxBytes)
    (hstart : take = 0 ∨ copied = k * device.sectorSize) :
    Triple (fun s => Loading T device w₀ lba copied s ∧ ReadAt device (lba + k) s.sectorBuffer)
      (copyEntries copied take) (fun _ => Loading T device w₀ lba (copied + take)) E := by
  rw [copyEntries, if_neg (by omega)]
  refine .modify fun s ⟨hloading, hread⟩ => ⟨hloading.table, hloading.reached, fun i hi => ?_⟩
  dsimp only
  by_cases hnew : copied ≤ i
  · have hcopied : copied = k * device.sectorSize := by omega
    have hi' : i - copied < device.sectorSize := by omega
    have hsplit : i = i - copied + device.sectorSize * k := by
      rw [Nat.mul_comm, ← hcopied]
      omega
    have hdiv : i / device.sectorSize = k := by
      rw [hsplit, Nat.add_mul_div_left _ _ (by omega), Nat.div_eq_of_lt hi', Nat.zero_add]
    have hmod : i % device.sectorSize = i - copied := by
      conv_lhs => rw [hsplit]
      rw [Nat.add_mul_mod_self_left, Nat.mod_eq_of_lt hi']
    rw [if_pos ⟨hnew, hi⟩, hdiv, hmod]
    exact ⟨s.sectorBuffer, hread, rfl⟩
  · rw [if_neg fun h => hnew h.1]
    exact hloading.served i (by omega)

/-- **The loop of `load_gpt_entries`** puts the array together, with a partial last sector. -/
lemma loadSectors_spec {lba tableBytes : ℕ} (hword : device.sectorCount < 2 ^ 64)
    (hsector : device.sectorSize ≤ partitionMaxSector) (hbytes : tableBytes ≤ gptTableMaxBytes) :
    ∀ {count k copied : ℕ}, copied = min (k * device.sectorSize) tableBytes →
      tableBytes ≤ (k + count) * device.sectorSize → lba + (k + count) ≤ device.sectorCount →
      Triple (Loading T device w₀ lba copied) (loadSectors device lba tableBytes count k copied)
        (fun _ => Loading T device w₀ lba tableBytes) (IoStop device w₀) := by
  intro count
  induction count with
  | zero =>
    intro k copied hcopied hcover _
    rw [Nat.add_zero] at hcover
    rw [min_eq_right hcover] at hcopied
    exact .pure fun s hs => hcopied ▸ hs
  | succ count ih =>
    intro k copied hcopied hcover hin
    have hnext : (k + 1) * device.sectorSize = k * device.sectorSize + device.sectorSize :=
      Nat.succ_mul ..
    have hlba : lba + k < device.sectorCount := by omega
    have hsum : k + 1 + count = k + (count + 1) := by omega
    rw [loadSectors, wrap64_of_lt (hlba.trans hword)]
    have hload : Triple (Loading T device w₀ lba copied) (readSector device (lba + k))
        (fun _ s => Loading T device w₀ lba copied s ∧ ReadAt device (lba + k) s.sectorBuffer)
        (IoStop device w₀) :=
      (readSector_spec (K := fun entries table => T table ∧ Served device lba copied entries)
        hlba).conseq (fun s hs => ⟨⟨hs.table, hs.served⟩, hs.reached⟩)
        (fun _ s hs => ⟨⟨hs.1.1, hs.2.1, hs.1.2⟩, hs.2.2⟩) fun _ _ h => h
    refine hload.bind fun _ => ?_
    -- Only the last sector can be taken in part, so the bytes before it are whole sectors.
    refine (copyEntries_spec (by split <;> omega) hsector (by split <;> omega)
      (by split <;> omega)).bind fun _ => ?_
    refine ih ?_ (hsum ▸ hcover) (hsum ▸ hin)
    rw [hnext, hcopied]
    split <;> omega

/-- The number of bytes of the entry array. -/
def GptFields.tableBytes (f : GptFields) : ℕ := f.entryCount * f.entrySize

/-- There is an entry array, and it fits the buffer and the device. -/
structure ArrayFits (device : BlockDevice ω) (f : GptFields) : Prop where
  pos : 0 < f.tableBytes
  le_max : f.tableBytes ≤ gptTableMaxBytes
  inside : f.entriesLba * device.sectorSize + f.tableBytes ≤
    device.sectorCount * device.sectorSize

/-- The entry array comes from the device, and its CRC-32 is right. -/
structure GoodArray (device : BlockDevice ω) (f : GptFields) (entries : Buffer) : Prop where
  fits : ArrayFits device f
  served : Served device f.entriesLba f.tableBytes entries
  crc : (Crc.crc32 (window entries 0 f.tableBytes)).toNat = f.entriesCrc

/-- The array is refused: it does not fit, or its CRC-32 is wrong. -/
structure BadArray (device : BlockDevice ω) (w₀ : ω) (f : GptFields) (stop : PartitionStop)
    (s : Scan ω) : Prop where
  stop_eq : stop = .status .badGpt
  reached : Reached device w₀ s.world
  bad : ArrayFits device f → Served device f.entriesLba f.tableBytes s.gptEntries ∧
    (Crc.crc32 (window s.gptEntries 0 f.tableBytes)).toNat ≠ f.entriesCrc

/-- An array with all its sectors on the device is inside of the device. -/
lemma inside_of_sectors {f : GptFields} {sectors : ℕ}
    (hcover : f.tableBytes ≤ sectors * device.sectorSize)
    (hend : f.entriesLba + sectors ≤ device.sectorCount) :
    f.entriesLba * device.sectorSize + f.tableBytes ≤ device.sectorCount * device.sectorSize :=
  calc f.entriesLba * device.sectorSize + f.tableBytes
      ≤ f.entriesLba * device.sectorSize + sectors * device.sectorSize :=
        Nat.add_le_add_left hcover _
    _ = (f.entriesLba + sectors) * device.sectorSize := (Nat.add_mul ..).symm
    _ ≤ device.sectorCount * device.sectorSize := Nat.mul_le_mul_right _ hend

/-- The sectors after the first of an array that fits cover it. -/
lemma ArrayFits.room {f : GptFields} (h : ArrayFits device f) :
    f.entriesLba < device.sectorCount ∧
      f.tableBytes ≤ (device.sectorCount - f.entriesLba) * device.sectorSize := by
  have hpos := h.pos
  have hinside := h.inside
  have hlt : f.entriesLba < device.sectorCount :=
    Nat.lt_of_mul_lt_mul_right ((Nat.lt_add_of_pos_right hpos).trans_le hinside)
  refine ⟨hlt, ?_⟩
  rw [Nat.sub_mul]
  omega

/-- **`load_gpt_entries`** accepts just an array that fits and whose CRC-32 is right. -/
lemma loadGptEntries_spec {f : GptFields} (hword : device.sectorCount < 2 ^ 64)
    (hpos : 0 < device.sectorSize) (hsector : device.sectorSize ≤ partitionMaxSector) :
    Triple (fun s => T s.table ∧ Reached device w₀ s.world) (loadGptEntries device f)
      (fun _ s => T s.table ∧ Reached device w₀ s.world ∧ GoodArray device f s.gptEntries)
      (fun stop s => BadArray device w₀ f stop s ∨ IoStop device w₀ stop s) := by
  -- The number of sectors is the least that covers the array.
  have hleast : ∀ n, (f.tableBytes + device.sectorSize - 1) / device.sectorSize ≤ n ↔
      f.tableBytes ≤ n * device.sectorSize := by
    intro n
    rw [← Nat.ceilDiv_eq_add_pred_div, ceilDiv_le_iff_le_mul hpos, Nat.mul_comm]
  have hrefuse : ¬ ArrayFits device f → ∀ s, T s.table ∧ Reached device w₀ s.world →
      BadArray device w₀ f (.status .badGpt) s ∨ IoStop device w₀ (.status .badGpt) s :=
    fun hno s hs => .inl ⟨rfl, hs.2, fun h => absurd h hno⟩
  have htable : f.entryCount * f.entrySize = f.tableBytes := rfl
  rw [loadGptEntries]
  simp only [htable]
  generalize (f.tableBytes + device.sectorSize - 1) / device.sectorSize = sectors at hleast ⊢
  have hcover : f.tableBytes ≤ sectors * device.sectorSize := (hleast sectors).mp le_rfl
  refine .guard (fun hmax => hrefuse fun h => Nat.not_lt.mpr h.le_max hmax) fun hmax => ?_
  refine .guard (fun hlba => hrefuse fun h => Nat.not_le.mpr h.room.1 hlba) fun hlba => ?_
  refine .guard (fun hzero => hrefuse fun h => ?_) fun hsome => ?_
  · rw [hzero, Nat.zero_mul] at hcover
    exact absurd h.pos (Nat.not_lt.mpr hcover)
  refine .guard (fun hfew => hrefuse fun h => ?_) fun hfew => ?_
  · exact absurd ((hleast _).mpr h.room.2) (Nat.not_le.mpr hfew)
  have hend : f.entriesLba + sectors ≤ device.sectorCount := by omega
  have hload : Triple (Loading T device w₀ f.entriesLba 0)
      (loadSectors device f.entriesLba f.tableBytes sectors 0 0)
      (fun _ => Loading T device w₀ f.entriesLba f.tableBytes) (IoStop device w₀) :=
    loadSectors_spec hword hsector (Nat.not_lt.mp hmax) (by rw [Nat.zero_mul, Nat.zero_min])
      (by rwa [Nat.zero_add]) (by rwa [Nat.zero_add])
  refine .bind (hload.conseq (fun s hs => ⟨hs.1, hs.2, fun i hi => absurd hi (by omega)⟩)
    (fun _ _ h => h) fun _ _ h => .inr h) fun _ => ?_
  refine .of_pre fun s₁ hs₁ => ?_
  refine entryBytes_bind (by rw [Nat.zero_add]; exact Nat.not_lt.mp hmax)
    (fun s hs => by rw [hs]) ?_
  rw [crc32Update_zero]
  refine .guard (fun hcrc s hs => ?_) fun hcrc => .pure fun s hs => ?_
  · rw [hs]
    exact .inl ⟨rfl, hs₁.reached, fun _ => ⟨hs₁.served, hcrc⟩⟩
  · have hpos : 0 < f.tableBytes := Nat.pos_of_ne_zero fun hzero =>
      hsome (Nat.le_zero.mp ((hleast 0).mpr (by rw [hzero, Nat.zero_mul])))
    rw [hs]
    exact ⟨hs₁.table, hs₁.reached, ⟨hpos, Nat.not_lt.mp hmax, inside_of_sectors hcover hend⟩,
      hs₁.served, not_not.mp hcrc⟩

/-- An array from a device with a disk is that of the disk. -/
lemma Served.window_eq {disk entries : Buffer} {f : GptFields} (hdisk : Faithful device disk)
    (hpos : 0 < device.sectorSize) (hfits : ArrayFits device f)
    (h : Served device f.entriesLba f.tableBytes entries) :
    window entries 0 f.tableBytes =
      window disk (f.entriesLba * device.sectorSize) f.tableBytes := by
  refine window_congr fun i hi => ?_
  have hlba : f.entriesLba + i / device.sectorSize < device.sectorCount := by
    have hlt : i / device.sectorSize < device.sectorCount - f.entriesLba := by
      rw [Nat.div_lt_iff_lt_mul hpos]
      exact hi.trans_le hfits.room.2
    exact Nat.add_lt_of_lt_sub' hlt
  obtain ⟨sector, hread, hentry⟩ := h i hi
  have haddr : (f.entriesLba + i / device.sectorSize) * device.sectorSize +
      i % device.sectorSize = f.entriesLba * device.sectorSize + i := by
    rw [Nat.add_mul, Nat.add_assoc, Nat.mul_comm (i / device.sectorSize), Nat.div_add_mod]
  rw [Nat.zero_add, hentry, hdisk.readAt hlba hread _ (Nat.mod_lt _ hpos), haddr]

end Partition

end JoshOS
