import JoshOS.Partition.Format
import JoshOS.Partition.Load

/-!
A scan of a disk with a GUID partition table.

* `partition_scan_gpt`: the scan undoes the encoding.
-/

namespace JoshOS

open List Hoare Bytes Words

namespace Partition

variable {ω α : Type} {P : Scan ω → Prop} {Q : α → Scan ω → Prop}
  {E : PartitionStop → Scan ω → Prop} {gpt : Gpt} {device : BlockDevice ω} {disk : Buffer}

/-! ### The header -/

namespace Gpt

/-- What `validate_gpt_header` should read. -/
def gptFields (gpt : Gpt) : GptFields where
  firstUsable := gpt.header.firstUsable.toNat
  lastUsable := gpt.header.lastUsable.toNat
  entriesLba := gpt.header.entriesLba.toNat
  entryCount := gpt.slots.length
  entrySize := gpt.header.entrySize
  entriesCrc := gpt.entriesCrc

/-- The fields of the header as they are encoded. -/
def headerFields (gpt : Gpt) : List (List UInt8) :=
  gpt.header.fields gpt.slots.length gpt.entriesCrc gpt.headerCrc

/-- The lengths of these fields, which give their offsets. -/
def headerLengths (gpt : Gpt) : List ℕ :=
  [8, 4, 4, 4, 4, 8, 8, 8, 8, 16, 8, 4, 4, 4, gpt.header.rest.length]

lemma length_take_headerFields (gpt : Gpt) (i : ℕ) :
    (gpt.headerFields.take i).flatten.length = (gpt.headerLengths.take i).sum := by
  have hlengths : gpt.headerFields.map length = gpt.headerLengths := by
    simp [headerFields, GptHeader.fields, GptHeader.before, GptHeader.after, gptSignature,
      headerLengths]
  rw [length_flatten, map_take, hlengths]

end Gpt

section Header

variable (hfits : gpt.Fits device) (hdisk : gpt.OnDisk device.sectorSize disk) {s : Scan ω}
  (hs : Shows device disk 1 s)

include hfits hdisk hs

/-- The header in the buffer. -/
lemma window_header :
    window s.sectorBuffer 0 gpt.header.headerSize = gpt.headerBytes := by
  have hle : 0 + gpt.header.headerSize ≤ device.sectorSize := by
    rw [Nat.zero_add]
    exact hfits.headerSize_le
  rw [hs.window_eq hle, Nat.one_mul, Nat.add_zero]
  exact hdisk.header

/-- A field of the header in the buffer. -/
lemma window_headerField {part : List UInt8} {k w : ℕ} (i : ℕ)
    (hpart : gpt.headerFields[i]? = some part) (hk : (gpt.headerLengths.take i).sum = k)
    (hw : part.length = w) : window s.sectorBuffer k w = part := by
  have h := window_part (window_header hfits hdisk hs) hpart
    ((gpt.length_take_headerFields i).trans hk) hw
  rwa [Nat.zero_add] at h

/-- A number of the header is read back. -/
lemma fieldAt_header {width offset v : ℕ} (i : ℕ)
    (hpart : gpt.headerFields[i]? = some (toLE width v))
    (hk : (gpt.headerLengths.take i).sum = offset) (hv : v < 256 ^ width) :
    fieldAt s.sectorBuffer width offset = v := by
  rw [fieldAt, window_headerField hfits hdisk hs i hpart hk (length_toLE ..), ofLE_toLE hv]

/-- **The fields of the header** are read back. -/
lemma headerFieldsAt_eq : headerFieldsAt s.sectorBuffer = gpt.gptFields := by
  have hslots := hfits.slots_le
  have hentry := hfits.entrySize_le
  have hfirst : fieldAt s.sectorBuffer 8 40 = gpt.header.firstUsable.toNat :=
    fieldAt_header hfits hdisk hs 7 rfl rfl (UInt64.toNat_lt _)
  have hlast : fieldAt s.sectorBuffer 8 48 = gpt.header.lastUsable.toNat :=
    fieldAt_header hfits hdisk hs 8 rfl rfl (UInt64.toNat_lt _)
  have hlba : fieldAt s.sectorBuffer 8 72 = gpt.header.entriesLba.toNat :=
    fieldAt_header hfits hdisk hs 10 rfl rfl (UInt64.toNat_lt _)
  have hcount : fieldAt s.sectorBuffer 4 80 = gpt.slots.length :=
    fieldAt_header hfits hdisk hs 11 rfl rfl (by omega)
  have hsize : fieldAt s.sectorBuffer 4 84 = gpt.header.entrySize :=
    fieldAt_header hfits hdisk hs 12 rfl rfl (by omega)
  have hcrc : fieldAt s.sectorBuffer 4 88 = gpt.entriesCrc :=
    fieldAt_header hfits hdisk hs 13 rfl rfl (Crc.crc32 gpt.entries).isLt
  rw [headerFieldsAt, hfirst, hlast, hlba, hcount, hsize, hcrc, Gpt.gptFields]

/-- **The header is a good one** when there is a slot and a usable sector. -/
lemma goodHeader_iff : GoodHeader device s.sectorBuffer ↔ gpt.Usable := by
  have hfields := headerFieldsAt_eq hfits hdisk hs
  have hsector := hfits.sectorSize_le
  have hheader := hfits.headerSize_le
  have hsize : fieldAt s.sectorBuffer 4 12 = gpt.header.headerSize :=
    fieldAt_header hfits hdisk hs 2 rfl rfl (by omega)
  constructor
  · intro h
    have hcount := h.count_pos
    have husable := h.usable
    rw [hfields] at hcount husable
    exact ⟨Nat.pos_of_ne_zero hcount, UInt64.le_iff_toNat_le.mpr husable⟩
  · intro husable
    have hmask : gpt.header.entrySize &&& 7 = 0 := by
      rw [Nat.and_two_pow_sub_one_eq_mod _ 3]
      exact Nat.mod_eq_zero_of_dvd hfits.dvd_entrySize
    refine ⟨window_headerField hfits hdisk hs 0 rfl rfl rfl, ?_, ?_, ?_,
      fieldAt_header hfits hdisk hs 5 rfl rfl (by norm_num), ?_, ?_, ?_, ?_, ?_, ?_⟩
    · rw [hsize, GptHeader.headerSize]
      omega
    · rwa [hsize]
    · have hcrc : fieldAt s.sectorBuffer 4 16 = gpt.headerCrc :=
        fieldAt_header hfits hdisk hs 3 rfl rfl (Crc.crc32 _).isLt
      rw [hsize, hcrc, window_header hfits hdisk hs, clearCrc, Gpt.headerBytes,
        GptHeader.clear_encode, Gpt.headerCrc]
    all_goals rw [hfields]
    · exact UInt64.le_iff_toNat_le.mp husable.2
    · exact husable.1.ne'
    · exact hfits.slots_le
    · exact hfits.le_entrySize
    · exact hfits.entrySize_le
    · exact hmask

end Header

/-! ### The entry array -/

lemma Gpt.tableBytes_gptFields (gpt : Gpt) : gpt.gptFields.tableBytes = gpt.entries.length :=
  gpt.length_entries.symm

/-- The entry array of a table with a slot fits. -/
lemma Gpt.Fits.arrayFits (hfits : gpt.Fits device) (husable : gpt.Usable) :
    ArrayFits device gpt.gptFields := by
  refine ⟨?_, ?_, ?_⟩
  · exact Nat.mul_pos husable.1 (Nat.lt_of_lt_of_le (by norm_num) hfits.le_entrySize)
  · rw [GptFields.tableBytes, gptTableMaxBytes, Nat.mul_comm]
    exact Nat.mul_le_mul hfits.entrySize_le hfits.slots_le
  · rw [Gpt.tableBytes_gptFields]
    exact hfits.entries_inside

/-- **`load_gpt_entries`** finds the entry array and its CRC-32. -/
lemma loadGptEntries_triple (hfits : gpt.Fits device) (hread : Faithful device disk)
    (hdisk : gpt.OnDisk device.sectorSize disk) (husable : gpt.Usable) :
    Triple (fun s => s.table = clearedTable) (loadGptEntries device gpt.gptFields)
      (fun _ s => s.table = clearedTable ∧ window s.gptEntries 0 gpt.entries.length = gpt.entries)
      E := by
  have hpos : 0 < device.sectorSize := by have := hfits.le_sectorSize; omega
  have hentries : ∀ entries : Buffer,
      Served device gpt.gptFields.entriesLba gpt.gptFields.tableBytes entries →
      window entries 0 gpt.gptFields.tableBytes = gpt.entries := by
    intro entries h
    rw [h.window_eq hread hpos (hfits.arrayFits husable), gpt.tableBytes_gptFields]
    exact hdisk.entries
  refine .of_pre fun s₀ hs₀ => ?_
  have hspec : Triple (fun s => s.table = clearedTable ∧ Reached device s₀.world s.world)
      (loadGptEntries device gpt.gptFields) _ _ :=
    loadGptEntries_spec (T := fun table => table = clearedTable) hfits.sectorCount_lt hpos
      hfits.sectorSize_le
  refine hspec.conseq (fun s hs => ?_) (fun _ s hs => ⟨hs.1, ?_⟩) fun stop s hs => ?_
  · rw [hs]
    exact ⟨hs₀, .refl⟩
  · rw [← gpt.tableBytes_gptFields]
    exact hentries _ hs.2.2.served
  · rcases hs with hbad | hio
    · obtain ⟨hserved, hcrc⟩ := hbad.bad (hfits.arrayFits husable)
      rw [hentries _ hserved] at hcrc
      exact absurd rfl hcrc
    · exact absurd hio.fails hread.not_driverFails

/-! ### The partitions -/

/-- The partitions in the slots before `i`. -/
def Gpt.partitionsBefore (gpt : Gpt) (i : ℕ) : List GptPartition :=
  (gpt.slots.take i).filterMap GptSlot.partition

/-- The slots before `i` have been gone through. -/
structure Populated (gpt : Gpt) (i : ℕ) (s : Scan ω) : Prop where
  table : s.table = ⟨.gpt, .ofList ((gpt.partitionsBefore i).map GptPartition.toPartition)⟩
  entries : window s.gptEntries 0 gpt.entries.length = gpt.entries

variable {i : ℕ} {slot : GptSlot} {s : Scan ω}

lemma Gpt.partitionsBefore_succ (hslot : gpt.slots[i]? = some slot) :
    gpt.partitionsBefore (i + 1) = gpt.partitionsBefore i ++ slot.partition.toList := by
  rw [partitionsBefore, take_add_one, hslot, Option.toList_some, filterMap_append]
  cases slot with
  | empty | used => rfl

/-- A slot in the buffer. -/
lemma Populated.window_slot (h : Populated gpt i s) (hslot : gpt.slots[i]? = some slot) :
    window s.gptEntries (i * gpt.header.entrySize) gpt.header.entrySize = slot.encode := by
  obtain ⟨hi, -⟩ := List.getElem?_eq_some_iff.mp hslot
  have hpart : (gpt.slots.map GptSlot.encode)[i]? = some slot.encode := by
    rw [getElem?_map, hslot, Option.map_some]
  have hk : ((gpt.slots.map GptSlot.encode).take i).flatten.length =
      i * gpt.header.entrySize := by
    rw [length_flatten_of_forall (k := gpt.header.entrySize), length_take, length_map,
      min_eq_left hi.le]
    intro part hmem
    obtain ⟨slot', hslot', rfl⟩ := mem_map.mp (mem_of_mem_take hmem)
    exact gpt.length_slot slot' hslot'
  have hw := window_part h.entries hpart hk (gpt.length_slot slot (mem_of_getElem? hslot))
  rwa [Nat.zero_add] at hw

/-- A field of a slot in the buffer. -/
lemma Populated.window_slotField (h : Populated gpt i s) (hslot : gpt.slots[i]? = some slot)
    {part : List UInt8} {j k w : ℕ} (hpart : slot.fields[j]? = some part)
    (hk : (slot.fields.take j).flatten.length = k) (hw : part.length = w) :
    window s.gptEntries (i * gpt.header.entrySize + k) w = part :=
  window_part (h.window_slot hslot) hpart hk hw

/-- There is room for a partition. -/
lemma checkRoom_triple (h : ∀ s, P s → s.table.entries.count < partitionMax) :
    Triple P checkRoom (fun _ => P) E := by
  refine .of_outcome fun s hs => ⟨(), s, ?_, hs⟩
  rw [checkRoom, outcome_bind, outcome_get]
  simp only [if_neg (Nat.not_le.mpr (h s hs)), outcome_pure]

/-- A partition is stored behind those before. -/
lemma storeEntry_triple {p : GptPartition} (hslot : gpt.slots[i]? = some slot)
    (hp : slot.partition = some p) (hroom : (gpt.partitionsBefore i).length < partitionMax) :
    Triple (Populated gpt i) (storeEntry p.toPartition : Scanning ω Unit)
      (fun _ => Populated gpt (i + 1)) E := by
  refine .of_outcome fun s hs => ⟨(), { s with table := ⟨.gpt, .ofList
    ((gpt.partitionsBefore (i + 1)).map GptPartition.toPartition)⟩ }, ?_, rfl, hs.entries⟩
  rw [storeEntry, outcome_bind, outcome_get]
  simp only [hs.table]
  rw [Counted.store_ofList _ (by rwa [length_map]), Gpt.partitionsBefore_succ hslot, hp,
    Option.toList_some, map_append, map_singleton]
  rfl

/-- A slot with a partition leaves room for it in the table. -/
lemma Gpt.Fits.length_partitionsBefore_lt {p : GptPartition} (hfits : gpt.Fits device)
    (hslot : gpt.slots[i]? = some slot) (hp : slot.partition = some p) :
    (gpt.partitionsBefore i).length < partitionMax := by
  have hsub : (gpt.partitionsBefore (i + 1)).Sublist gpt.partitions :=
    (take_sublist ..).filterMap _
  have hlen := hsub.length_le.trans hfits.partitions_le
  rw [Gpt.partitionsBefore_succ hslot, hp, length_append] at hlen
  exact hlen

/-- A slot is inside of the buffer. -/
lemma Gpt.Fits.slot_inside (hfits : gpt.Fits device) (hslot : gpt.slots[i]? = some slot) :
    i * gpt.header.entrySize + gpt.header.entrySize ≤ gptTableMaxBytes := by
  obtain ⟨hi, -⟩ := List.getElem?_eq_some_iff.mp hslot
  rw [← Nat.succ_mul, gptTableMaxBytes, Nat.mul_comm gptEntryMaxSize]
  exact Nat.mul_le_mul (hi.trans_le hfits.slots_le) hfits.entrySize_le

/-- A slot without a type is passed over. -/
lemma populateEntry_empty {rest : List UInt8} (hfits : gpt.Fits device)
    (hslot : gpt.slots[i]? = some (.empty rest)) :
    Triple (Populated gpt i) (populateEntry device gpt.gptFields i)
      (fun _ => Populated gpt (i + 1)) E := by
  have hmin := hfits.le_entrySize
  have hin := hfits.slot_inside hslot
  have hentry : gpt.gptFields.entrySize = gpt.header.entrySize := rfl
  simp only [populateEntry, hentry]
  refine entryBytes_bind (by omega) (fun s hs => hs.window_slotField hslot (j := 0) rfl rfl
    (length_replicate ..)) ?_
  rw [if_pos ((guidIsZero_iff (length_replicate ..)).mpr rfl)]
  refine .pure fun s hs => ⟨?_, hs.entries⟩
  rw [hs.table, Gpt.partitionsBefore_succ hslot, GptSlot.partition, Option.toList_none,
    append_nil]

/-- A partition passes the checks and is stored. -/
lemma populateEntry_used {p : GptPartition} {rest : List UInt8} (hfits : gpt.Fits device)
    (hslot : gpt.slots[i]? = some (.used p rest)) :
    Triple (Populated gpt i) (populateEntry device gpt.gptFields i)
      (fun _ => Populated gpt (i + 1)) E := by
  have hmin := hfits.le_entrySize
  have hin := hfits.slot_inside hslot
  have hroom := hfits.length_partitionsBefore_lt hslot rfl
  have hinside := hfits.inside p (mem_filterMap.mpr ⟨_, mem_of_getElem? hslot, rfl⟩)
  have hfirst := UInt64.le_iff_toNat_le.mp hinside.first_le_last
  have hlow := UInt64.le_iff_toNat_le.mp hinside.le_first
  have hhigh := UInt64.le_iff_toNat_le.mp hinside.last_le
  have hlast := hinside.last_lt
  have hword := hfits.sectorCount_lt
  have hentry : gpt.gptFields.entrySize = gpt.header.entrySize := rfl
  simp only [populateEntry, hentry]
  refine entryBytes_bind (by omega) (fun s hs => hs.window_slotField hslot (j := 0) rfl rfl
    p.length_typeGuid) ?_
  rw [if_neg fun h => p.typeGuid_ne_zero ((guidIsZero_iff p.length_typeGuid).mp h)]
  refine entryLe64_bind (by omega) (fun s hs => hs.window_slotField hslot (j := 2) rfl
    (by simp [GptSlot.fields, p.length_typeGuid, p.length_uniqueGuid]) (length_toLE ..)) ?_
  refine entryLe64_bind (by omega) (fun s hs => hs.window_slotField hslot (j := 3) rfl
    (by simp [GptSlot.fields, p.length_typeGuid, p.length_uniqueGuid]) (length_toLE ..)) ?_
  rw [ofLE_toLE (UInt64.toNat_lt _), ofLE_toLE (UInt64.toNat_lt _)]
  refine check_triple (by omega) (check_triple ?_ (check_triple (by omega) ?_))
  · rintro (h | h)
    · exact absurd h (Nat.not_lt.mpr hlow)
    · exact absurd h (Nat.not_lt.mpr hhigh)
  refine (checkRoom_triple fun s hs => ?_).bind fun _ => ?_
  · rw [hs.table]
    change (map _ _).length < partitionMax
    rwa [length_map]
  refine entryBytes_bind (by omega) (fun s hs => hs.window_slotField hslot (j := 1) rfl
    (by simp [GptSlot.fields, p.length_typeGuid]) p.length_uniqueGuid) ?_
  rw [wrap64_of_lt (by omega)]
  exact storeEntry_triple hslot rfl hroom

/-- **A round of `populate_gpt_table`** goes through one slot. -/
lemma populateEntry_triple (hfits : gpt.Fits device) (hslot : gpt.slots[i]? = some slot) :
    Triple (Populated gpt i) (populateEntry device gpt.gptFields i)
      (fun _ => Populated gpt (i + 1)) E := by
  cases slot with
  | empty rest => exact populateEntry_empty hfits hslot
  | used p rest => exact populateEntry_used hfits hslot

/-- **`populate_gpt_table`** finds the partitions in the order of their slots. -/
lemma populateGptTable_triple (hfits : gpt.Fits device) :
    Triple (fun s => s.table = clearedTable ∧
        window s.gptEntries 0 gpt.entries.length = gpt.entries)
      (populateGptTable device gpt.gptFields) (fun _ s => s.table = gpt.table) E := by
  rw [populateGptTable]
  refine .bind (Q := fun _ => Populated gpt 0)
    (.modify fun s hs => ⟨?_, hs.2⟩) fun _ => ?_
  · rw [hs.1]
    rfl
  · refine (Triple.forUp (I := Populated gpt) one_pos (Nat.zero_le _) (one_dvd _)
      fun i _ hi _ => populateEntry_triple hfits (getElem?_eq_getElem hi)).conseq
      (fun s hs => hs) (fun _ s hs => ?_) fun _ _ h => h
    rw [hs.table, Gpt.partitionsBefore]
    rw [take_length]
    rfl

/-! ### The scan -/

/-- The types of the entries of the MBR are looked at one after the other. -/
lemma findProtective_triple (hsize : 512 ≤ device.sectorSize)
    (hP : ∀ s, P s → Shows device disk 0 s) {is : List ℕ} {protective : Bool}
    (his : ∀ i ∈ is, i < 4) :
    Triple P (findProtective is protective)
      (fun b s => P s ∧ b = (protective || is.any fun i => disk (mbrEntry i + 4) = 0xee)) E := by
  induction is generalizing protective with
  | nil => exact .pure fun s hs => ⟨hs, by simp⟩
  | cons i is ih =>
    rw [forall_mem_cons] at his
    have hin : mbrEntry i + 4 + 1 ≤ 512 := by
      rw [mbrEntry]
      omega
    have htype : ∀ s, P s →
        window s.sectorBuffer (mbrEntry i + 4) 1 = [disk (mbrEntry i + 4)] := by
      intro s hs
      rw [(hP s hs).window_eq (hin.trans hsize), Nat.zero_mul, Nat.zero_add]
      rfl
    have hvalue : ofLE [disk (mbrEntry i + 4)] = (disk (mbrEntry i + 4)).toNat := by
      rw [ofLE, ofLE, Nat.mul_zero, Nat.add_zero]
    have hee : (disk (mbrEntry i + 4)).toNat = 0xee ↔ disk (mbrEntry i + 4) = 0xee :=
      UInt8.toNat_inj (b := 0xee)
    rw [findProtective]
    refine sectorLe_bind (hin.trans (by decide)) htype ?_
    rw [hvalue]
    refine .ite (fun hzero => ?_) fun _ => ?_
    · have hne : disk (mbrEntry i + 4) ≠ 0xee := fun h => by
        rw [← hee, hzero] at h
        exact absurd h (by decide)
      rw [any_cons, decide_eq_false hne, Bool.false_or]
      exact ih his.2
    · have hstep : (if (disk (mbrEntry i + 4)).toNat = 0xee then true else protective) =
          (protective || decide (disk (mbrEntry i + 4) = 0xee)) := by
        by_cases h : disk (mbrEntry i + 4) = 0xee
        · rw [if_pos (hee.mpr h), decide_eq_true h, Bool.or_true]
        · rw [if_neg (mt hee.mp h), decide_eq_false h, Bool.or_false]
      rw [hstep, any_cons, ← Bool.or_assoc]
      exact ih his.2

/-- The first sector of the disk leads to a GPT. -/
structure Protective (disk : Buffer) : Prop where
  signature : fieldAt disk 2 510 = 0xaa55
  protective : ∃ i < 4, disk (mbrEntry i + 4) = 0xee

lemma Protective.any (h : Protective disk) :
    ((range 4).any fun i => disk (mbrEntry i + 4) = 0xee) = true := by
  obtain ⟨i, hi, hee⟩ := h.protective
  exact any_eq_true.mpr ⟨i, mem_range.mpr hi, decide_eq_true hee⟩

/-- The number at the end of the first sector. -/
lemma Shows.fieldAt_signature (h : Shows device disk 0 s) (hsize : 512 ≤ device.sectorSize) :
    fieldAt s.sectorBuffer 2 510 = fieldAt disk 2 510 := by
  rw [fieldAt, h.window_eq (by omega), Nat.zero_mul, Nat.zero_add]
  rfl

/-- Such a scan goes on with `parse_gpt`. -/
lemma partitionScan_of_protective {Q : Unit → Scan ω → Prop} (hread : Faithful device disk)
    (hsize : 512 ≤ device.sectorSize) (hmax : device.sectorSize ≤ partitionMaxSector)
    (htwo : 2 ≤ device.sectorCount) (hprotective : Protective disk)
    (h : Triple (fun s => s.table = clearedTable) (parseGpt device) Q E) :
    Triple (fun _ => True) (partitionScan (some device)) Q E := by
  rw [partitionScan]
  refine check_triple (by omega) ?_
  refine .bind (Q := fun _ s => s.table = clearedTable) (.modify fun s _ => rfl)
    fun _ => ?_
  refine (readSector_triple (K := fun _ table => table = clearedTable) hread (by omega)).bind
    fun _ => .of_pre fun s₁ hs₁ => sectorLe_at (by decide) (check_triple ?_ ?_)
  · rw [hs₁.2.fieldAt_signature hsize]
    exact not_not.mpr hprotective.signature
  refine .bind_value (findProtective_triple hsize (fun s hs => hs ▸ hs₁.2)
    fun i hi => mem_range.mp hi) ?_
  rw [hprotective.any, Bool.false_or, if_pos rfl]
  exact h.conseq (fun s hs => hs ▸ hs₁.1) (fun _ _ h => h) fun _ _ h => h

section Scan

variable (hfits : gpt.Fits device) (hread : Faithful device disk)
  (hdisk : gpt.OnDisk device.sectorSize disk)

include hfits

lemma Gpt.Fits.two_le_sectorCount : 2 ≤ device.sectorCount := by
  have hsize := hfits.le_sectorSize
  have hinside := (Nat.le_add_right _ _).trans hfits.entries_inside
  exact hfits.le_entriesLba.trans (Nat.le_of_mul_le_mul_right hinside (by omega))

include hread hdisk

/-- **`parse_gpt`** finds the partitions, or there is no slot or no usable sector. -/
lemma parseGpt_triple :
    Triple (fun s => s.table = clearedTable) (parseGpt device)
      (fun _ s => gpt.Usable ∧ s.table = gpt.table)
      (fun stop _ => stop = .status .badGpt ∧ ¬ gpt.Usable) := by
  have htwo := hfits.two_le_sectorCount
  rw [parseGpt]
  refine (readSector_triple (K := fun _ table => table = clearedTable) hread (by omega)).bind
    fun _ => .of_pre fun s₁ hs₁ => ?_
  refine ((validateGptHeader_spec hfits.sectorSize_le).conseq (fun _ h => h) (fun _ _ h => h)
    fun stop s hs => ⟨hs.stop_eq, mt (goodHeader_iff hfits hdisk hs₁.2).mpr hs.bad⟩).bind
    fun fields => .of_pre fun s₂ hs₂ => ?_
  obtain ⟨rfl, hgood, rfl⟩ := hs₂
  have husable := (goodHeader_iff hfits hdisk hs₁.2).mp hgood
  rw [headerFieldsAt_eq hfits hdisk hs₁.2]
  refine .bind ((loadGptEntries_triple hfits hread hdisk husable).conseq
    (fun s hs => hs ▸ hs₁.1) (fun _ _ h => h) fun _ _ h => h) fun _ => ?_
  exact (populateGptTable_triple hfits).conseq (fun _ h => h) (fun _ _ h => ⟨husable, h⟩)
    fun _ _ h => h

/-- **`partition_scan`** finds the partitions, or there is no slot or no usable sector. -/
lemma partitionScan_triple :
    Triple (fun _ => True) (partitionScan (some device))
      (fun _ s => gpt.Usable ∧ s.table = gpt.table)
      (fun stop _ => stop = .status .badGpt ∧ ¬ gpt.Usable) := by
  have hsignature : fieldAt disk 2 510 = 0xaa55 := by
    rw [fieldAt, hdisk.signature]
    rfl
  exact partitionScan_of_protective hread hfits.le_sectorSize hfits.sectorSize_le
    hfits.two_le_sectorCount ⟨hsignature, hdisk.protective⟩ (parseGpt_triple hfits hread hdisk)

/-- How a scan ends. -/
lemma partitionScan_cases (s : Scan ω) :
    (gpt.Usable ∧ ∃ s', outcome (partitionScan (some device)) s = (.ok (), s') ∧
      s'.table = gpt.table) ∨
    (¬ gpt.Usable ∧ ∃ s', outcome (partitionScan (some device)) s =
      (.error (.status .badGpt), s')) := by
  have hends := Triple.iff_ends.mp (partitionScan_triple hfits hread hdisk) s trivial
  cases hout : outcome (partitionScan (some device)) s with
  | mk r s' =>
    rw [hout] at hends
    cases r with
    | ok a => exact .inl ⟨hends.1, s', rfl, hends.2⟩
    | error e => exact .inr ⟨hends.2, s', by rw [hends.1]⟩

end Scan

/-- **Decoding undoes encoding.**  On a disk that shows a table with at least one slot and
one usable sector, a scan finds the partitions of its slots in their order; without a slot
or a usable sector it returns `PARTITION_BAD_GPT`. -/
theorem partition_scan_decodes (gpt : Gpt) (device : BlockDevice ω) (disk : Buffer) (s : Scan ω)
    (hfits : gpt.Fits device) (hread : Faithful device disk)
    (hdisk : gpt.OnDisk device.sectorSize disk) :
    (gpt.Usable → ∃ s', outcome (partitionScan (some device)) s = (.ok (), s') ∧
      s'.table = gpt.table) ∧
    (¬ gpt.Usable → ∃ s', outcome (partitionScan (some device)) s =
      (.error (.status .badGpt), s')) := by
  rcases partitionScan_cases hfits hread hdisk s with ⟨husable, hok⟩ | ⟨hunusable, hbad⟩
  · exact ⟨fun _ => hok, fun h => absurd husable h⟩
  · exact ⟨fun h => absurd h hunusable, fun _ => hbad⟩

/-! ### A disk -/

/-- A device that reads a disk with sectors of `size` bytes. -/
def diskDevice (disk : Buffer) (size count : ℕ) : BlockDevice Unit where
  sectorSize := size
  sectorCount := count
  writable := false
  read := some fun w lba _ _ => (.ok, fun i => disk (lba * size + i), w)
  write := none
  flush := none

lemma faithful_diskDevice (disk : Buffer) (size count : ℕ) :
    Faithful (diskDevice disk size count) disk :=
  ⟨_, rfl, fun w _ _ _ => ⟨_, w, rfl, fun _ _ => rfl⟩⟩

/-- A header of 92 bytes for a disk with 128 sectors. -/
def sampleHeader : GptHeader where
  revision := [0, 0, 1, 0]
  reserved := List.replicate 4 0
  alternateLba := toLE 8 127
  firstUsable := 34
  lastUsable := 94
  diskGuid := List.replicate 16 0
  entriesLba := 2
  entrySize := 128
  rest := []
  length_revision := rfl
  length_reserved := rfl
  length_alternateLba := rfl
  length_diskGuid := rfl

/-- A partition of 40 sectors. -/
def samplePartition : GptPartition where
  typeGuid := (List.range 16).map fun i => UInt8.ofNat (i + 1)
  uniqueGuid := (List.range 16).map fun i => UInt8.ofNat (0xa0 + i)
  first := 40
  last := 79
  length_typeGuid := rfl
  length_uniqueGuid := rfl
  typeGuid_ne_zero := by decide

/-- The table with this header and these slots. -/
def sampleTable (slots : List GptSlot) (h : ∀ slot ∈ slots, slot.encode.length = 128) : Gpt where
  header := sampleHeader
  slots := slots
  length_slot := h

/-- The device with a disk that shows a table. -/
def imageDevice (gpt : Gpt) : BlockDevice Unit := diskDevice (gpt.image 512) 512 128

/-- With up to four slots, and only this partition in them, the table fits. -/
lemma sampleTable_fits {slots : List GptSlot} {h : ∀ slot ∈ slots, slot.encode.length = 128}
    (hslots : slots.length ≤ 4)
    (hpartitions : ∀ p ∈ slots.filterMap GptSlot.partition, p = samplePartition) :
    (sampleTable slots h).Fits (imageDevice (sampleTable slots h)) where
  le_sectorSize := le_rfl
  sectorSize_le := by change 512 ≤ 4096; norm_num
  sectorCount_lt := by change 128 < 2 ^ 64; norm_num
  headerSize_le := by change 92 ≤ 512; norm_num
  le_entrySize := le_rfl
  entrySize_le := by change 128 ≤ 512; norm_num
  dvd_entrySize := ⟨16, rfl⟩
  slots_le := hslots.trans (by norm_num)
  partitions_le := (length_filterMap_le ..).trans (hslots.trans (by norm_num))
  inside := by
    intro p hp
    obtain rfl := hpartitions p hp
    have hfirst : sampleHeader.firstUsable ≤ samplePartition.first := by decide
    have hlast : samplePartition.last ≤ sampleHeader.lastUsable := by decide
    exact ⟨by decide, hfirst, hlast, by change 79 < 128; norm_num⟩
  le_entriesLba := le_rfl
  entries_inside := by
    rw [Gpt.length_entries]
    change 2 * 512 + slots.length * 128 ≤ 128 * 512
    omega

/-- An empty slot before one with the partition. -/
def sampleGpt : Gpt :=
  sampleTable [.empty (List.replicate 112 0), .used samplePartition (List.replicate 80 0)] <| by
    intro slot hslot
    rcases List.mem_pair.mp hslot with rfl | rfl
    · rfl
    · rfl

/-- A table without slots. -/
def emptyGpt : Gpt := sampleTable [] fun _ h => absurd h List.not_mem_nil

lemma sampleGpt_fits : sampleGpt.Fits (imageDevice sampleGpt) :=
  sampleTable_fits (by decide) fun _ hp => mem_singleton.mp hp

lemma emptyGpt_fits : emptyGpt.Fits (imageDevice emptyGpt) :=
  sampleTable_fits (Nat.zero_le 4) fun _ hp => absurd hp not_mem_nil

/-- A scan that has not started. -/
def scanStart : Scan Unit := ⟨fun _ => 0, fun _ => 0, clearedTable, ()⟩

/-- The partition of the sample is found behind its empty slot. -/
theorem partition_scan_decodes_sample :
    ∃ s', outcome (partitionScan (some (imageDevice sampleGpt))) scanStart = (.ok (), s') ∧
      s'.table = ⟨.gpt, .ofList [samplePartition.toPartition]⟩ :=
  (partition_scan_decodes sampleGpt (imageDevice sampleGpt) (sampleGpt.image 512) scanStart
    sampleGpt_fits (faithful_diskDevice ..) (Gpt.onDisk_image sampleGpt_fits)).1
    ⟨by decide, by decide⟩

/-- A table without slots is refused, though its checksums are right. -/
theorem partition_scan_no_slots :
    emptyGpt.Fits (imageDevice emptyGpt) ∧
      Faithful (imageDevice emptyGpt) (emptyGpt.image 512) ∧
      emptyGpt.OnDisk (imageDevice emptyGpt).sectorSize (emptyGpt.image 512) ∧
      ∃ s', outcome (partitionScan (some (imageDevice emptyGpt))) scanStart =
        (.error (.status .badGpt), s') := by
  have hread : Faithful (imageDevice emptyGpt) (emptyGpt.image 512) := faithful_diskDevice ..
  have hdisk : emptyGpt.OnDisk (imageDevice emptyGpt).sectorSize (emptyGpt.image 512) :=
    Gpt.onDisk_image emptyGpt_fits
  refine ⟨emptyGpt_fits, hread, hdisk, ?_⟩
  rcases partitionScan_cases emptyGpt_fits hread hdisk scanStart with ⟨husable, -⟩ | ⟨-, hbad⟩
  · exact absurd husable.1 (Nat.lt_irrefl 0)
  · exact hbad

end Partition

end JoshOS
