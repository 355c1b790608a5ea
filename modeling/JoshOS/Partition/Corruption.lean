import JoshOS.Partition.Safety

/-!
Changes of a disk with a GPT that a scan sees.

* `ScannedGpt`, `scannedGpt_of_ok`: what a disk has when a scan of it finds a GPT.
* `partition_scan_sees_burst`: a change within four bytes in a row of the header or of the
  entry array is seen.
-/

namespace JoshOS

open Hoare Bytes Words

namespace Partition

variable {ω ω' : Type} {device : BlockDevice ω} {disk disk' : Buffer} {s : Scan ω}
  {sectorSize start : ℕ}

/-! ### What a scan finds on a disk -/

/-- The sector of the disk with the header. -/
def gptHeader (sectorSize : ℕ) (disk : Buffer) : Buffer := fun i => disk (sectorSize + i)

/-- The header and the entry array on the disk are good ones. -/
structure ScannedGpt (device : BlockDevice ω) (disk : Buffer) : Prop where
  header : GoodHeader device (gptHeader device.sectorSize disk)
  fits : ArrayFits device (headerFieldsAt (gptHeader device.sectorSize disk))
  crc : (Crc.crc32 (window disk
      ((headerFieldsAt (gptHeader device.sectorSize disk)).entriesLba * device.sectorSize)
      (headerFieldsAt (gptHeader device.sectorSize disk)).tableBytes)).toNat =
    (headerFieldsAt (gptHeader device.sectorSize disk)).entriesCrc

lemma fieldAt_congr {b b' : Buffer} {n width offset : ℕ} (h : ∀ i < n, b' i = b i)
    (hin : offset + width ≤ n) : fieldAt b' width offset = fieldAt b width offset :=
  congrArg ofLE (window_congr fun i hi => h _ (by omega))

/-- The fields of a header are in its first sector. -/
lemma headerFieldsAt_congr {b b' : Buffer} (h : ∀ i < 512, b' i = b i) :
    headerFieldsAt b' = headerFieldsAt b := by
  simp only [headerFieldsAt, GptFields.mk.injEq]
  exact ⟨fieldAt_congr h (by decide), fieldAt_congr h (by decide), fieldAt_congr h (by decide),
    fieldAt_congr h (by decide), fieldAt_congr h (by decide), fieldAt_congr h (by decide)⟩

lemma GoodHeader.congr {b b' : Buffer} (hgood : GoodHeader device b)
    (hsize : 512 ≤ device.sectorSize) (h : ∀ i < device.sectorSize, b' i = b i) :
    GoodHeader device b' := by
  have hfields : headerFieldsAt b' = headerFieldsAt b :=
    headerFieldsAt_congr fun i hi => h i (hi.trans_le hsize)
  have hat : ∀ {width offset}, offset + width ≤ 512 →
      fieldAt b' width offset = fieldAt b width offset :=
    fun hin => fieldAt_congr h (hin.trans hsize)
  have hwindow : ∀ n ≤ device.sectorSize, window b' 0 n = window b 0 n :=
    fun n hn => window_congr fun i hi => h _ (by omega)
  have hsizeAt : fieldAt b' 4 12 = fieldAt b 4 12 := hat (by decide)
  refine ⟨?_, ?_, ?_, ?_, ?_, ?_, ?_, ?_, ?_, ?_, ?_⟩
  · rw [hwindow 8 (by omega)]
    exact hgood.signature
  · rw [hsizeAt]
    exact hgood.le_size
  · rw [hsizeAt]
    exact hgood.size_le
  · rw [hsizeAt, hwindow _ hgood.size_le, hat (by decide)]
    exact hgood.crc
  · rw [hat (by decide)]
    exact hgood.myLba
  all_goals rw [hfields]
  · exact hgood.usable
  · exact hgood.count_pos
  · exact hgood.count_le
  · exact hgood.le_entrySize
  · exact hgood.entrySize_le
  · exact hgood.aligned

/-- The header and the array that a scan has taken are those of the disk. -/
lemma ScannedGpt.of_read {header entries : Buffer} (hdisk : Faithful device disk)
    (hsize : 512 ≤ device.sectorSize)
    (hheader : ∀ i < device.sectorSize, header i = disk (1 * device.sectorSize + i))
    (hgood : GoodHeader device header)
    (harray : GoodArray device (headerFieldsAt header) entries) : ScannedGpt device disk := by
  rw [Nat.one_mul] at hheader
  have hfields : headerFieldsAt (gptHeader device.sectorSize disk) = headerFieldsAt header :=
    headerFieldsAt_congr fun i hi => (hheader i (hi.trans_le hsize)).symm
  refine ⟨hgood.congr hsize fun i hi => (hheader i hi).symm, ?_, ?_⟩
  · rw [hfields]
    exact harray.fits
  · rw [hfields, ← harray.served.window_eq hdisk (by omega) harray.fits]
    exact harray.crc

/-! ### Scans that find a GPT -/

/-- **Only a disk that leads to a GPT** is scanned as one. -/
lemma partitionScan_protective (hdisk : Faithful device disk) :
    Triple (fun _ => True) (partitionScan (some device))
      (fun _ s => s.table.scheme = .gpt → Protective disk) fun _ _ => True := by
  rw [partitionScan]
  refine .guard (fun _ _ _ => trivial) fun hargument => ?_
  have hsize : 512 ≤ device.sectorSize := by omega
  refine .bind (Q := fun _ s => s.table = clearedTable) (.modify fun s _ => rfl)
    fun _ => ?_
  refine (readSector_triple (K := fun _ table => table = clearedTable) hdisk (by omega)).bind
    fun _ => .of_pre fun s₁ hs₁ => sectorLe_at (by decide) ?_
  rw [hs₁.2.fieldAt_signature hsize]
  refine .guard (fun _ _ _ => trivial) fun hsignature => ?_
  refine .bind_value (findProtective_triple hsize (fun s hs => hs ▸ hs₁.2)
    fun i hi => List.mem_range.mp hi) ?_
  rw [Bool.false_or]
  refine .ite (fun hany => ?_) fun _ => ?_
  · obtain ⟨i, hi, hee⟩ := List.any_eq_true.mp hany
    exact fun s _ => ⟨fun _ _ _ _ => ⟨not_not.mp hsignature, i, List.mem_range.mp hi,
      of_decide_eq_true hee⟩, fun _ _ _ => trivial⟩
  · refine .bind (Q := fun _ => Filling device s₁.world .mbr (Inside device) fun _ => True)
      (.modify fun s hs => ?_) fun _ => ?_
    · refine ⟨rfl, ?_, trivial, hs ▸ .refl⟩
      rw [hs, hs₁.1]
      exact ⟨Nat.zero_le _, fun _ hi => absurd hi (Nat.not_lt_zero _)⟩
    · refine (Triple.forUp one_pos (Nat.zero_le _) (one_dvd _) fun i _ hi _ =>
        parseMbrEntry_spec hi).conseq (fun _ h => h) (fun _ s hs hgpt => ?_) fun _ _ _ => trivial
      rw [hs.scheme_eq] at hgpt
      cases hgpt

/-- The device is one that a scan looks at. -/
structure Scannable (device : BlockDevice ω) : Prop where
  le_sectorSize : 512 ≤ device.sectorSize
  sectorSize_le : device.sectorSize ≤ partitionMaxSector
  two_le : 2 ≤ device.sectorCount

lemma scannable_of_ok (hok : (outcome (partitionScan (some device)) s).1 = .ok ()) :
    Scannable device := by
  by_contra hno
  have hargument : device.sectorSize < 512 ∨ partitionMaxSector < device.sectorSize ∨
      device.sectorCount < 2 := by
    by_contra hall
    exact hno ⟨by omega, by omega, by omega⟩
  rw [partitionScan, if_pos hargument] at hok
  cases hok

/-- **What a scan finds** when it finds a GPT. -/
lemma scannedGpt_of_ok (hword : device.sectorCount < 2 ^ 64) (hdisk : Faithful device disk)
    (hok : (outcome (partitionScan (some device)) s).1 = .ok ())
    (hgpt : (outcome (partitionScan (some device)) s).2.table.scheme = .gpt) :
    Scannable device ∧ Protective disk ∧ ScannedGpt device disk := by
  have hscannable := scannable_of_ok hok
  have hspec := Triple.iff_ends.mp (partitionScan_spec hword) s rfl
  have hprotective := Triple.iff_ends.mp (partitionScan_protective hdisk) s trivial
  generalize outcome (partitionScan (some device)) s = r at hok hgpt hspec hprotective
  obtain ⟨result, s'⟩ := r
  obtain rfl : result = .ok () := hok
  obtain ⟨header, hread, hgood, harray, -⟩ := (hspec.1.gpt hgpt).source
  exact ⟨hscannable, hprotective hgpt, .of_read hdisk hscannable.le_sectorSize
    (hdisk.readAt (by have := hscannable.two_le; omega) hread) hgood harray⟩

/-- **`parse_gpt`** finds a good header and a good array, or returns `PARTITION_BAD_GPT`. -/
lemma parseGpt_badGpt (hword : device.sectorCount < 2 ^ 64) (hdisk : Faithful device disk)
    (hscannable : Scannable device) (hbad : ¬ ScannedGpt device disk) :
    Triple (fun s => s.table = clearedTable) (parseGpt device) (fun _ _ => False)
      fun stop _ => stop = .status .badGpt := by
  have hsize := hscannable.le_sectorSize
  have htwo := hscannable.two_le
  rw [parseGpt]
  refine (readSector_triple (K := fun _ table => table = clearedTable) hdisk (by omega)).bind
    fun _ => .of_pre fun s₁ hs₁ => ?_
  refine .bind_conseq (validateGptHeader_spec hscannable.sectorSize_le)
    (fun stop s hs => hs.stop_eq) fun fields => .of_pre fun s₂ hs₂ => ?_
  obtain ⟨rfl, hgood, rfl⟩ := hs₂
  have hload : Triple (fun s => s.table = clearedTable ∧ Reached device s₂.world s.world)
      (loadGptEntries device (headerFieldsAt s₂.sectorBuffer)) _ _ :=
    loadGptEntries_spec (T := fun table => table = clearedTable) hword (by omega)
      hscannable.sectorSize_le
  have hstart : s₂.table = clearedTable ∧ Reached device s₂.world s₂.world := ⟨hs₁.1, .refl⟩
  refine .bind (hload.conseq (fun s hs => hs ▸ hstart) (fun _ _ h => h)
    fun stop s h => ?_) fun _ => .of_pre fun s₃ hs₃ => ?_
  · rcases h with harray | hio
    · exact harray.stop_eq
    · exact absurd hio.fails hdisk.not_driverFails
  · exact absurd (.of_read hdisk hsize hs₁.2 hgood hs₃.2.2) hbad

/-- **A disk that leads to a GPT without a good one** is refused. -/
lemma partitionScan_badGpt (hword : device.sectorCount < 2 ^ 64) (hdisk : Faithful device disk)
    (hscannable : Scannable device) (hprotective : Protective disk)
    (hbad : ¬ ScannedGpt device disk) (s : Scan ω) :
    (outcome (partitionScan (some device)) s).1 = .error (.status .badGpt) := by
  have hends := Triple.iff_ends.mp (partitionScan_of_protective hdisk hscannable.le_sectorSize
    hscannable.sectorSize_le hscannable.two_le hprotective
    (parseGpt_badGpt hword hdisk hscannable hbad)) s trivial
  generalize outcome (partitionScan (some device)) s = r at hends
  obtain ⟨result, s'⟩ := r
  cases result with
  | ok a => exact hends.elim
  | error stop => exact congrArg _ hends

/-! ### Bursts -/

/-- The disks differ, and only within four bytes in a row. -/
structure Burst (disk disk' : Buffer) (start : ℕ) : Prop where
  same : ∀ i, i < start ∨ start + 4 ≤ i → disk' i = disk i
  differ : ∃ i, disk' i ≠ disk i

/-- The four bytes are in the entry array. -/
structure InArray (sectorSize : ℕ) (disk : Buffer) (start : ℕ) : Prop where
  le_start : (headerFieldsAt (gptHeader sectorSize disk)).entriesLba * sectorSize ≤ start
  end_le : start + 4 ≤ (headerFieldsAt (gptHeader sectorSize disk)).entriesLba * sectorSize +
    (headerFieldsAt (gptHeader sectorSize disk)).tableBytes

/-- The four bytes are in the header, and neither in its size nor in its CRC-32. -/
structure InHeader (sectorSize : ℕ) (disk : Buffer) (start : ℕ) : Prop where
  le_start : sectorSize ≤ start
  end_le : start + 4 ≤ sectorSize + fieldAt (gptHeader sectorSize disk) 4 12
  apart : start + 4 ≤ sectorSize + 12 ∨ sectorSize + 20 ≤ start

/-- A disk with the same bytes in its first sector leads to a GPT as well. -/
lemma Protective.congr (h : Protective disk) (hsame : ∀ i < 512, disk' i = disk i) :
    Protective disk' := by
  obtain ⟨i, hi, hee⟩ := h.protective
  have htype : mbrEntry i + 4 < 512 := by
    rw [mbrEntry]
    omega
  refine ⟨?_, i, hi, (hsame _ htype).trans hee⟩
  rw [fieldAt_congr hsame (by decide)]
  exact h.signature

/-- The header with its checksum cleared, byte by byte. -/
lemma clearCrc_window (b : Buffer) {n : ℕ} (hn : 20 ≤ n) :
    clearCrc (window b 0 n) = window (fun i => if 16 ≤ i ∧ i < 20 then 0 else b i) 0 n := by
  obtain ⟨k, rfl⟩ := Nat.exists_eq_add_of_le hn
  have hcleared : window (fun i => if 16 ≤ i ∧ i < 20 then 0 else b i) 16 4 = [0, 0, 0, 0] := rfl
  have hbefore : window (fun i => if 16 ≤ i ∧ i < 20 then 0 else b i) 0 16 = window b 0 16 :=
    window_congr fun i hi => if_neg (by omega)
  have hafter : window (fun i => if 16 ≤ i ∧ i < 20 then 0 else b i) 20 k = window b 20 k :=
    window_congr fun i hi => if_neg (by omega)
  have hsplit : ∀ c : Buffer, window c 0 (20 + k) = window c 0 16 ++ window c 16 4 ++
      window c 20 k := by
    intro c
    rw [window_add c 0 20 k, window_add c 0 16 4]
  have htake : (window b 0 16 ++ window b 16 4 ++ window b 20 k).take 16 = window b 0 16 := by
    rw [List.append_assoc, List.take_left' (length_window ..)]
  rw [hsplit, hsplit, hbefore, hcleared, hafter, clearCrc, htake, List.drop_left' (by simp)]

/-- **A burst in the header** is seen by its CRC-32. -/
lemma Burst.header_ne (hburst : Burst disk disk' start) (hin : InHeader sectorSize disk start)
    (hmin : 92 ≤ fieldAt (gptHeader sectorSize disk) 4 12) :
    Crc.crc32 (clearCrc (window (gptHeader sectorSize disk') 0
        (fieldAt (gptHeader sectorSize disk) 4 12))) ≠
      Crc.crc32 (clearCrc (window (gptHeader sectorSize disk) 0
        (fieldAt (gptHeader sectorSize disk) 4 12))) := by
  have hle := hin.le_start
  have hend := hin.end_le
  have hapart := hin.apart
  rw [clearCrc_window _ (by omega), clearCrc_window _ (by omega)]
  refine Crc.crc32_window_ne (Nat.zero_le (start - sectorSize)) (by omega) (fun i hi => ?_) ?_
  · have hbyte : gptHeader sectorSize disk' i = gptHeader sectorSize disk i :=
      hburst.same _ (by omega)
    rw [hbyte]
  · obtain ⟨i, hi⟩ := hburst.differ
    have hrange : start ≤ i ∧ i < start + 4 := by
      by_contra hout
      exact hi (hburst.same i (by omega))
    refine ⟨i - sectorSize, ?_⟩
    rw [if_neg (by omega), if_neg (by omega), gptHeader, gptHeader,
      Nat.add_sub_cancel' (by omega)]
    exact hi

/-- **A burst leaves no good GPT.** -/
lemma Burst.not_scannedGpt {device' : BlockDevice ω'} (hburst : Burst disk disk' start)
    (hsize : device'.sectorSize = device.sectorSize) (hmin : 512 ≤ device.sectorSize)
    (hgpt : ScannedGpt device disk)
    (hlba : 2 ≤ (headerFieldsAt (gptHeader device.sectorSize disk)).entriesLba)
    (hin : InArray device.sectorSize disk start ∨ InHeader device.sectorSize disk start) :
    ¬ ScannedGpt device' disk' := by
  intro hgpt'
  rcases hin with hin | hin
  · have hstart : 2 * device.sectorSize ≤ start :=
      (Nat.mul_le_mul_right _ hlba).trans hin.le_start
    have hfields : headerFieldsAt (gptHeader device.sectorSize disk') =
        headerFieldsAt (gptHeader device.sectorSize disk) :=
      headerFieldsAt_congr fun i hi => hburst.same _ (.inl (by omega))
    have hcrc := hgpt'.crc
    rw [hsize, hfields, ← hgpt.crc] at hcrc
    exact Crc.crc32_window_ne hin.le_start hin.end_le hburst.same hburst.differ
      (BitVec.eq_of_toNat_eq hcrc)
  · have hle := hin.le_start
    have hapart := hin.apart
    have hfield : ∀ {offset}, offset = 12 ∨ offset = 16 →
        fieldAt (gptHeader device.sectorSize disk') 4 offset =
          fieldAt (gptHeader device.sectorSize disk) 4 offset :=
      fun hoffset => congrArg ofLE (window_congr fun i hi => hburst.same _ (by omega))
    have hcrc := hgpt'.header.crc
    rw [hsize, hfield (.inl rfl), hfield (.inr rfl), ← hgpt.header.crc] at hcrc
    exact hburst.header_ne hin hgpt.header.le_size (BitVec.eq_of_toNat_eq hcrc)

/-- **Corruption is seen.**  When a scan of a disk finds a GPT whose entry array starts at the
third sector or later, a scan of a disk that differs from it only within four bytes in a row
of the entry array, or of the header outside of its size and its CRC-32, returns
`PARTITION_BAD_GPT`. -/
theorem partition_scan_sees_burst (device : BlockDevice ω) (device' : BlockDevice ω')
    (disk disk' : Buffer) (s : Scan ω) (s' : Scan ω') (start : ℕ)
    (hword : device.sectorCount < 2 ^ 64) (hsize : device'.sectorSize = device.sectorSize)
    (hcount : device'.sectorCount = device.sectorCount)
    (hdisk : Faithful device disk) (hdisk' : Faithful device' disk')
    (hok : (outcome (partitionScan (some device)) s).1 = .ok ())
    (hgpt : (outcome (partitionScan (some device)) s).2.table.scheme = .gpt)
    (hlba : 2 ≤ (headerFieldsAt (gptHeader device.sectorSize disk)).entriesLba)
    (hburst : Burst disk disk' start)
    (hin : InArray device.sectorSize disk start ∨ InHeader device.sectorSize disk start) :
    (outcome (partitionScan (some device')) s').1 = .error (.status .badGpt) := by
  obtain ⟨hscannable, hprotective, hscanned⟩ := scannedGpt_of_ok hword hdisk hok hgpt
  have hmin := hscannable.le_sectorSize
  have hstart : device.sectorSize ≤ start := by
    rcases hin with hin | hin
    · have hle := (Nat.mul_le_mul_right _ hlba).trans hin.le_start
      omega
    · exact hin.le_start
  have hscannable' : Scannable device' :=
    ⟨hsize ▸ hmin, hsize ▸ hscannable.sectorSize_le, hcount ▸ hscannable.two_le⟩
  refine partitionScan_badGpt (hcount ▸ hword) hdisk' hscannable'
    (hprotective.congr fun i hi => hburst.same i (.inl (by omega)))
    (hburst.not_scannedGpt hsize hmin hscanned hlba hin) s'

/-- The image of the sample with the first byte of its entry array changed. -/
def changedImage : Buffer :=
  Function.update (sampleGpt.image 512) 1024 (sampleGpt.image 512 1024 + 1)

lemma headerFieldsAt_sample (disk : Buffer) (h : sampleGpt.OnDisk 512 disk) :
    headerFieldsAt (gptHeader 512 disk) = sampleGpt.gptFields := by
  have hshows : Shows (imageDevice sampleGpt) disk 1
      { scanStart with sectorBuffer := gptHeader 512 disk } := by
    intro i _
    change disk (512 + i) = disk (1 * 512 + i)
    rw [Nat.one_mul]
  have hfields := headerFieldsAt_eq sampleGpt_fits h hshows
  exact hfields

/-- The change of the sample is seen. -/
theorem partition_scan_sees_sample :
    (outcome (partitionScan (some (diskDevice changedImage 512 128))) scanStart).1 =
      .error (.status .badGpt) := by
  have hdisk : Faithful (imageDevice sampleGpt) (sampleGpt.image 512) := faithful_diskDevice ..
  have hshown : sampleGpt.OnDisk 512 (sampleGpt.image 512) := Gpt.onDisk_image sampleGpt_fits
  have hfields := headerFieldsAt_sample _ hshown
  obtain ⟨s', hscan, htable⟩ : ∃ s', outcome (partitionScan (some (imageDevice sampleGpt)))
      scanStart = (.ok (), s') ∧ s'.table = sampleGpt.table := by
    rcases partitionScan_cases sampleGpt_fits hdisk hshown scanStart with ⟨-, hok⟩ | ⟨hno, -⟩
    · exact hok
    · exact absurd ⟨by decide, by decide⟩ hno
  have hburst : Burst (sampleGpt.image 512) changedImage 1024 := by
    refine ⟨fun i hi => Function.update_of_ne (by omega) .., 1024, ?_⟩
    rw [changedImage, Function.update_self]
    simp
  have hin : InArray 512 (sampleGpt.image 512) 1024 := by
    constructor
    · rw [hfields]
      exact le_rfl
    · rw [hfields]
      change 1024 + 4 ≤ 2 * 512 + 2 * 128
      norm_num
  refine partition_scan_sees_burst (imageDevice sampleGpt) (diskDevice changedImage 512 128)
    (sampleGpt.image 512) changedImage scanStart scanStart 1024 (by change 128 < 2 ^ 64; norm_num)
    (Eq.trans (b := 512) rfl rfl) (Eq.trans (b := 128) rfl rfl) hdisk (faithful_diskDevice ..)
    (by rw [hscan]) ?_ ?_ hburst (.inl hin)
  · rw [hscan]
    exact congrArg PartitionTable.scheme htable
  · change 2 ≤ (headerFieldsAt (gptHeader 512 (sampleGpt.image 512))).entriesLba
    rw [hfields]
    exact le_rfl

end Partition

end JoshOS
