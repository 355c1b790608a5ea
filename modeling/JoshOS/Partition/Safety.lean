import JoshOS.Partition.Gpt

/-!
What a scan of any device can find, and what it asks of the driver.

* `Stopped`: a scan that ends early does so with a status, and with `PARTITION_IO_ERROR` only
  when the driver has failed.
* `partition_scan_safe`: no access outside of the buffers or the device, and only partitions
  inside of the device.
-/

namespace JoshOS

open Hoare Bytes Words

namespace Partition

variable {ω α : Type} {Q : α → Scan ω → Prop} {device : BlockDevice ω} {w₀ : ω} {s₀ : Scan ω}
  {Good : Partition → Prop} {G : Buffer → Prop} {scheme : PartitionScheme} {f : GptFields}

/-! ### Ends of a scan -/

/-- A scan that ends without `PARTITION_OK`. -/
structure Stopped (device : BlockDevice ω) (w₀ : ω) (stop : PartitionStop) (s : Scan ω) :
    Prop where
  status : ∃ status, stop = .status status
  io : stop = .status .ioError → DriverFails device
  reached : Reached device w₀ s.world

lemma IoStop.stopped {stop : PartitionStop} {s : Scan ω} (h : IoStop device w₀ stop s) :
    Stopped device w₀ stop s :=
  ⟨⟨_, h.stop_eq⟩, fun _ => h.fails, h.reached⟩

/-- The scan ends with a status that does not blame the driver. -/
lemma Stopped.of_status {stop : PartitionStop} {status : PartitionStatus} {s : Scan ω}
    (hstop : stop = .status status) (hne : status ≠ .ioError)
    (hreached : Reached device w₀ s.world) : Stopped device w₀ stop s := by
  refine ⟨⟨status, hstop⟩, fun hio => ?_, hreached⟩
  rw [hstop, PartitionStop.status.injEq] at hio
  exact absurd hio hne

/-- A check that ends the scan. -/
lemma stopCheck {c : Prop} [Decidable c] {P : Scan ω → Prop} {status : PartitionStatus}
    {x : Scanning ω α} (hstatus : status ≠ .ioError) (hP : ∀ s, P s → Reached device w₀ s.world)
    (hx : ¬ c → Triple P x Q (Stopped device w₀)) :
    Triple P (if c then fail status else x) Q (Stopped device w₀) :=
  .guard (fun _ s hs => .of_status rfl hstatus (hP s hs)) hx

/-! ### Entries of the table -/

/-- The state while the table is filled. -/
structure Filling (device : BlockDevice ω) (w₀ : ω) (scheme : PartitionScheme)
    (Good : Partition → Prop) (G : Buffer → Prop) (s : Scan ω) : Prop where
  scheme_eq : s.table.scheme = scheme
  all : s.table.entries.All Good
  entries : G s.gptEntries
  reached : Reached device w₀ s.world

/-- There is room for an entry, or the scan ends. -/
lemma checkRoom_spec : Triple (Filling device w₀ scheme Good G) checkRoom
    (fun _ s => Filling device w₀ scheme Good G s ∧ s.table.entries.count < partitionMax)
    (Stopped device w₀) := by
  rw [checkRoom]
  refine .of_pre fun s₀ hs₀ => ?_
  refine .bind (.get (Q := fun t s => t = s₀ ∧ s = s₀) fun s hs => ⟨hs, hs⟩)
    fun t => .of_pre fun s₁ hs₁ => ?_
  obtain ⟨rfl, rfl⟩ := hs₁
  refine stopCheck (by simp) (fun s hs => hs ▸ hs₀.reached) fun hroom => .pure fun s hs => ?_
  rw [hs]
  exact ⟨hs₀, Nat.not_le.mp hroom⟩

/-- A good entry is stored. -/
lemma storeEntry_spec {E : PartitionStop → Scan ω → Prop} {p : Partition} (hp : Good p) :
    Triple (fun s => Filling device w₀ scheme Good G s ∧ s.table.entries.count < partitionMax)
      (storeEntry p) (fun _ => Filling device w₀ scheme Good G) E := by
  refine .of_outcome fun s hs => ?_
  obtain ⟨entries, hstore, hall⟩ := hs.1.all.store hp hs.2
  refine ⟨(), { s with table := { s.table with entries := entries } }, ?_, hs.1.scheme_eq, hall,
    hs.1.entries, hs.1.reached⟩
  rw [storeEntry, outcome_bind, outcome_get]
  simp only [hstore, outcome_set]

/-! ### The two schemes -/

/-- The partition is inside of the device. -/
structure Inside (device : BlockDevice ω) (p : Partition) : Prop where
  pos : 1 ≤ p.sectorCount
  le : p.firstLba + p.sectorCount ≤ device.sectorCount

/-- The partition is also inside of what the header says is usable. -/
structure InsideUsable (device : BlockDevice ω) (f : GptFields) (p : Partition) : Prop
    extends Inside device p where
  le_first : f.firstUsable ≤ p.firstLba
  last_le : p.firstLba + p.sectorCount - 1 ≤ f.lastUsable

/-- **A round of `populate_gpt_table`** stores only what is usable. -/
lemma populateEntry_spec {i : ℕ} (hword : device.sectorCount < 2 ^ 64) (hi : i < f.entryCount)
    (hmin : 128 ≤ f.entrySize) (hmax : f.tableBytes ≤ gptTableMaxBytes) :
    Triple (Filling device w₀ .gpt (InsideUsable device f) G) (populateEntry device f i)
      (fun _ => Filling device w₀ .gpt (InsideUsable device f) G) (Stopped device w₀) := by
  have hin : i * f.entrySize + f.entrySize ≤ gptTableMaxBytes := by
    rw [← Nat.succ_mul]
    exact (Nat.mul_le_mul_right _ hi).trans hmax
  rw [populateEntry]
  refine entryBytes_any (by omega) fun typeGuid => ?_
  refine .ite (fun _ => .pure fun s hs => hs) fun _ => ?_
  refine entryLe64_any (by omega) fun first => entryLe64_any (by omega) fun last => ?_
  refine stopCheck (by simp) (fun s hs => hs.reached) fun horder => ?_
  refine stopCheck (by simp) (fun s hs => hs.reached) fun husable => ?_
  refine stopCheck (by simp) (fun s hs => hs.reached) fun hlast => ?_
  refine checkRoom_spec.bind fun _ => entryBytes_any (by omega) fun uniqueGuid => ?_
  rw [not_or, Nat.not_lt, Nat.not_lt] at husable
  refine storeEntry_spec ⟨⟨?_, ?_⟩, husable.1, ?_⟩
  all_goals
    dsimp only
    rw [wrap64_of_lt (by omega)]
    omega

/-- **A round of the loop over the MBR** stores only what is inside of the device. -/
lemma parseMbrEntry_spec {i : ℕ} (hi : i < 4) :
    Triple (Filling device w₀ .mbr (Inside device) G) (parseMbrEntry device i)
      (fun _ => Filling device w₀ .mbr (Inside device) G) (Stopped device w₀) := by
  have hin : mbrEntry i + 16 ≤ partitionMaxSector := by
    rw [mbrEntry, partitionMaxSector]
    omega
  rw [parseMbrEntry]
  refine sectorLe_any (by omega) fun type => sectorLe_any (by omega) fun first =>
    sectorLe_any (by omega) fun count => ?_
  refine .ite (fun _ => .pure fun s hs => hs) fun hused => ?_
  refine stopCheck (by simp) (fun s hs => hs.reached) fun hinside => ?_
  refine checkRoom_spec.bind fun _ => sectorLe_any (by omega) fun boot => ?_
  rw [not_or] at hused hinside
  refine storeEntry_spec ⟨Nat.one_le_iff_ne_zero.mpr hused.2, ?_⟩
  dsimp only
  omega

/-! ### The scan -/

/-- The table of a GPT, with the header and the entry array it comes from. -/
structure GptScan (device : BlockDevice ω) (s : Scan ω) : Prop where
  source : ∃ header, ReadAt device 1 header ∧ GoodHeader device header ∧
    GoodArray device (headerFieldsAt header) s.gptEntries ∧
    s.table.entries.All (InsideUsable device (headerFieldsAt header))

/-- **`parse_gpt`** finds usable partitions of a good header with a good array. -/
lemma parseGpt_spec (hword : device.sectorCount < 2 ^ 64) (hpos : 0 < device.sectorSize)
    (hsize : device.sectorSize ≤ partitionMaxSector) (hcount : 1 < device.sectorCount) :
    Triple (fun s => s.table = clearedTable ∧ Reached device w₀ s.world) (parseGpt device)
      (fun _ s => s.table.scheme = .gpt ∧ GptScan device s ∧ Reached device w₀ s.world)
      (Stopped device w₀) := by
  rw [parseGpt]
  refine .bind_conseq (readSector_spec (K := fun _ table => table = clearedTable) hcount)
    (fun _ _ h => h.stopped) fun _ => .of_pre fun s₁ hs₁ => ?_
  obtain ⟨htable, hreached, hread⟩ := hs₁
  refine .bind_conseq (validateGptHeader_spec hsize)
    (fun stop s h => .of_status h.stop_eq (by simp) (h.same ▸ hreached))
    fun fields => .of_pre fun s₂ hs₂ => ?_
  obtain ⟨rfl, hgood, rfl⟩ := hs₂
  have hload : Triple (fun s => s.table = clearedTable ∧ Reached device w₀ s.world)
      (loadGptEntries device (headerFieldsAt s₂.sectorBuffer)) _ _ :=
    loadGptEntries_spec (T := fun table => table = clearedTable) hword hpos hsize
  refine .bind (hload.conseq (fun s hs => hs ▸ ⟨htable, hreached⟩) (fun _ _ h => h)
    fun stop s h => ?_) fun _ => ?_
  · rcases h with hbad | hio
    · exact .of_status hbad.stop_eq (by simp) hbad.reached
    · exact hio.stopped
  refine .of_pre fun s₃ hs₃ => ?_
  obtain ⟨htable₃, hreached₃, harray⟩ := hs₃
  rw [populateGptTable]
  refine .bind (Q := fun _ => Filling device w₀ .gpt
    (InsideUsable device (headerFieldsAt s₂.sectorBuffer))
    (GoodArray device (headerFieldsAt s₂.sectorBuffer))) (.modify fun s hs => ?_) fun _ => ?_
  · rw [hs]
    exact ⟨rfl, ⟨Nat.zero_le _, fun _ hi => absurd hi (Nat.not_lt_zero _)⟩, harray, hreached₃⟩
  · refine (Triple.forUp one_pos (Nat.zero_le _) (one_dvd _) fun i _ hi _ =>
      populateEntry_spec hword hi hgood.le_entrySize harray.fits.le_max).conseq
      (fun _ h => h) (fun _ s hs => ?_) fun _ _ h => h
    exact ⟨hs.scheme_eq, ⟨⟨s₂.sectorBuffer, hread, hgood, hs.entries, hs.all⟩⟩, hs.reached⟩

/-- The look for a protective entry stays inside of the buffer. -/
lemma findProtective_spec {P : Scan ω → Prop} {E : PartitionStop → Scan ω → Prop} {is : List ℕ}
    {protective : Bool} (his : ∀ i ∈ is, i < 4) :
    Triple P (findProtective is protective) (fun _ => P) E := by
  induction is generalizing protective with
  | nil => exact .pure fun s hs => hs
  | cons i is ih =>
    rw [List.forall_mem_cons] at his
    have hin : mbrEntry i + 4 + 1 ≤ partitionMaxSector := by
      rw [mbrEntry, partitionMaxSector]
      omega
    rw [findProtective]
    exact sectorLe_any hin fun type => .ite (fun _ => ih his.2) fun _ => ih his.2

/-- The table is one that a scan may return. -/
structure Accepted (device : BlockDevice ω) (s : Scan ω) : Prop where
  all : s.table.entries.All (Inside device)
  gpt : s.table.scheme = .gpt → GptScan device s

lemma GptScan.accepted {s : Scan ω} (h : GptScan device s) : Accepted device s := by
  obtain ⟨header, hread, hgood, harray, hall⟩ := h.source
  exact ⟨⟨hall.count_le, fun i hi => (hall.holds i hi).toInside⟩, fun _ => h⟩

/-- **`partition_scan`** on any device. -/
lemma partitionScan_spec (hword : device.sectorCount < 2 ^ 64) :
    Triple (fun s => s.world = w₀) (partitionScan (some device))
      (fun _ s => Accepted device s ∧ Reached device w₀ s.world) (Stopped device w₀) := by
  rw [partitionScan]
  refine stopCheck (by simp) (fun s hs => hs ▸ .refl) fun hargument => ?_
  have hpos : 0 < device.sectorSize := by omega
  have hsize : device.sectorSize ≤ partitionMaxSector := by omega
  refine .bind (Q := fun _ s => s.table = clearedTable ∧ Reached device w₀ s.world)
    (.modify fun s hs => ⟨rfl, hs ▸ .refl⟩) fun _ => ?_
  refine .bind_conseq (readSector_spec (K := fun _ table => table = clearedTable) (by omega))
    (fun _ _ h => h.stopped) fun _ => sectorLe_any (by decide) fun signature => ?_
  refine stopCheck (by simp) (fun s hs => hs.2.1) fun _ => ?_
  refine (findProtective_spec fun i hi => List.mem_range.mp hi).bind fun protective => ?_
  refine .ite (fun _ => ?_) fun _ => ?_
  · exact (parseGpt_spec hword hpos hsize (by omega)).conseq (fun s hs => ⟨hs.1, hs.2.1⟩)
      (fun _ s hs => ⟨hs.2.1.accepted, hs.2.2⟩) fun _ _ h => h
  · refine .bind (Q := fun _ => Filling device w₀ .mbr (Inside device) fun _ => True)
      (.modify fun s hs => ?_) fun _ => ?_
    · refine ⟨rfl, ?_, trivial, hs.2.1⟩
      rw [hs.1]
      exact ⟨Nat.zero_le _, fun _ hi => absurd hi (Nat.not_lt_zero _)⟩
    · refine (Triple.forUp one_pos (Nat.zero_le _) (one_dvd _) fun i _ hi _ =>
        parseMbrEntry_spec hi).conseq (fun _ h => h) (fun _ s hs => ?_) fun _ _ h => h
      refine ⟨⟨hs.all, fun hgpt => ?_⟩, hs.reached⟩
      rw [hs.scheme_eq] at hgpt
      cases hgpt

/-- **A scan is safe on every device.**  Whatever the driver serves or refuses, it is asked
only for single sectors of the device, and blamed only when it has failed; no buffer is
indexed out of bounds; and a scan that succeeds has at most sixteen partitions, each with
sectors, and all of them on the device.  With a GPT these are sectors that the header says
are usable, the header is one that the driver has served with a right CRC-32, and so is the
entry array. -/
theorem partition_scan_safe (device : BlockDevice ω) (hword : device.sectorCount < 2 ^ 64)
    (s : Scan ω) :
    let r := outcome (partitionScan (some device)) s
    Reached device s.world r.2.world ∧ r.1 ≠ .error .outOfBounds ∧
    (r.1 = .error (.status .ioError) → DriverFails device) ∧
    (r.1 = .ok () → r.2.table.entries.count ≤ 16 ∧
      (∀ i : Fin 16, i.val < r.2.table.entries.count →
        1 ≤ (r.2.table.entries.entries i).sectorCount ∧
        (r.2.table.entries.entries i).firstLba + (r.2.table.entries.entries i).sectorCount ≤
          device.sectorCount) ∧
      (r.2.table.scheme = .gpt → ∃ header, ReadAt device 1 header ∧
        GoodHeader device header ∧ GoodArray device (headerFieldsAt header) r.2.gptEntries ∧
        ∀ i : Fin 16, i.val < r.2.table.entries.count →
          (headerFieldsAt header).firstUsable ≤ (r.2.table.entries.entries i).firstLba ∧
          (r.2.table.entries.entries i).firstLba + (r.2.table.entries.entries i).sectorCount - 1 ≤
            (headerFieldsAt header).lastUsable)) := by
  intro r
  have hends := Triple.iff_ends.mp (partitionScan_spec hword) s rfl
  change Ends _ _ r at hends
  obtain ⟨result, s'⟩ := r
  cases result with
  | error stop =>
    obtain ⟨status, hstatus⟩ := hends.status
    refine ⟨hends.reached, ?_, fun hio => hends.io (Except.error.inj hio), fun h => by cases h⟩
    rw [hstatus]
    simp
  | ok a =>
    obtain ⟨haccepted, hreached⟩ := hends
    refine ⟨hreached, by simp, by simp, fun _ => ⟨haccepted.all.count_le, fun i hi => ?_,
      fun hgpt => ?_⟩⟩
    · exact ⟨(haccepted.all.holds i hi).pos, (haccepted.all.holds i hi).le⟩
    · obtain ⟨header, hread, hgood, harray, hall⟩ := (haccepted.gpt hgpt).source
      exact ⟨header, hread, hgood, harray, fun i hi =>
        ⟨(hall.holds i hi).le_first, (hall.holds i hi).last_le⟩⟩

/-- The scan of the sample stays inside of the device and of the buffers. -/
theorem partition_scan_safe_sample :
    Reached (imageDevice sampleGpt) ()
        (outcome (partitionScan (some (imageDevice sampleGpt))) scanStart).2.world ∧
      (outcome (partitionScan (some (imageDevice sampleGpt))) scanStart).1 ≠
        .error .outOfBounds := by
  have hword : (imageDevice sampleGpt).sectorCount < 2 ^ 64 := by
    change 128 < 2 ^ 64
    norm_num
  have hsafe := partition_scan_safe (imageDevice sampleGpt) hword scanStart
  exact ⟨hsafe.1, hsafe.2.1⟩

end Partition

end JoshOS
