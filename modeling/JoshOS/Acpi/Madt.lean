import JoshOS.Acpi.Tables

/-!
The entries of the MADT.

* `Entry`, `selfDelimiting_entry`: an entry says how long it is.
* `kindOf`, `decoded`: what the entries of a MADT say about the platform.
* `parseMadtEntry_triple`, `parseMadtRound_triple`: one entry more is decoded, unless an
  array is full.
-/

namespace JoshOS

open List Hoare Hoare.Triple Bytes Words

namespace Acpi

variable {r : AcpiReader} {p : UInt64} {n : ℕ} {e : List UInt8} {es ds : List (List UInt8)}

/-! ### Entries -/

/-- An entry of the MADT: its second byte is its length. -/
structure Entry (e : List UInt8) : Prop where
  two_le : 2 ≤ e.length
  length : ∃ b, e[1]? = some b ∧ b.toNat = e.length

lemma selfDelimiting_entry : SelfDelimiting Entry := by
  intro e e' x y he he' heq
  obtain ⟨b, hb, hlen⟩ := he.length
  obtain ⟨b', hb', hlen'⟩ := he'.length
  have hfirst : (e ++ x)[1]? = e[1]? := getElem?_append_left he.two_le
  have hfirst' : (e' ++ y)[1]? = e'[1]? := getElem?_append_left he'.two_le
  have hbyte : some b = some b' := by rw [← hb, ← hb', ← hfirst, ← hfirst', heq]
  refine (append_inj heq ?_).1
  rw [← hlen, ← hlen', Option.some.inj hbyte]

lemma not_entry_nil : ¬ Entry [] := fun h => absurd h.two_le (by decide)

/-! ### What entries say -/

/-- What an entry is about. -/
inductive Kind where
  | cpu (cpu : AcpiCpuInfo)
  | ioapic (ioapic : AcpiIoapicInfo)
  | override (override : AcpiIrqOverride)
  | localApic (address : ℕ)
  | other

/-- A byte of an entry, as a number. -/
def byteIn (e : List UInt8) (i : ℕ) : ℕ := (e.getD i 0).toNat

/-- A little-endian number in an entry. -/
def wordIn (e : List UInt8) (offset width : ℕ) : ℕ := ofLE ((e.drop offset).take width)

/-- A processor that is enabled or can be. -/
def enabled (cpu : AcpiCpuInfo) : Kind := if cpu.flags &&& 3 = 0 then .other else .cpu cpu

/-- What an entry says, by its type and length. -/
def kindOf (e : List UInt8) : Kind :=
  if 32 < e.length then .other
  else if byteIn e 0 = 0 ∧ 8 ≤ e.length then enabled ⟨byteIn e 2, byteIn e 3, wordIn e 4 4, 0⟩
  else if byteIn e 0 = 1 ∧ 12 ≤ e.length then
    .ioapic ⟨byteIn e 2, wordIn e 4 4, wordIn e 8 4⟩
  else if byteIn e 0 = 2 ∧ 10 ≤ e.length then
    if byteIn e 2 ≠ 0 then .other else .override ⟨byteIn e 3, wordIn e 4 4, wordIn e 8 2⟩
  else if byteIn e 0 = 5 ∧ 12 ≤ e.length then .localApic (wordIn e 4 8)
  else if byteIn e 0 = 9 ∧ 16 ≤ e.length then
    enabled ⟨wordIn e 12 4, wordIn e 4 4, wordIn e 8 4, 1⟩
  else .other

/-- The processor of an entry. -/
def cpuOf (e : List UInt8) : Option AcpiCpuInfo :=
  match kindOf e with
  | .cpu cpu => some cpu
  | _ => none

/-- The interrupt controller of an entry. -/
def ioapicOf (e : List UInt8) : Option AcpiIoapicInfo :=
  match kindOf e with
  | .ioapic ioapic => some ioapic
  | _ => none

/-- The interrupt override of an entry. -/
def overrideOf (e : List UInt8) : Option AcpiIrqOverride :=
  match kindOf e with
  | .override override => some override
  | _ => none

/-- The address of the local controllers that an entry gives. -/
def localApicOf (e : List UInt8) : Option ℕ :=
  match kindOf e with
  | .localApic address => some address
  | _ => none

/-- What the header and the entries of a MADT say. -/
def decoded (r : AcpiReader) (p : UInt64) (es : List (List UInt8)) : AcpiPlatformInfo where
  localApicAddress := (es.filterMap localApicOf).getLast?.getD (field r p 36 4)
  madtFlags := field r p 40 4
  cpus := Counted.ofList (es.filterMap cpuOf)
  ioapics := Counted.ofList (es.filterMap ioapicOf)
  overrides := Counted.ofList (es.filterMap overrideOf)

/-- What the entries say fits into the arrays. -/
@[mk_iff]
structure Fits (es : List (List UInt8)) : Prop where
  cpus : (es.filterMap cpuOf).length ≤ acpiMaxCpus
  ioapics : (es.filterMap ioapicOf).length ≤ acpiMaxIoapics
  overrides : (es.filterMap overrideOf).length ≤ acpiMaxIso

lemma Fits.of_prefix (h : Fits es) (hinit : ds <+: es) : Fits ds :=
  ⟨(hinit.filterMap _).length_le.trans h.cpus, (hinit.filterMap _).length_le.trans h.ioapics,
    (hinit.filterMap _).length_le.trans h.overrides⟩

/-- Appending to one of the arrays: `l` is what is in it before, and what else there is to
the result is in `base`. -/
lemma append_triple {α : Type} [Inhabited α] {field : AcpiPlatformInfo → Counted α n}
    {setField : AcpiPlatformInfo → Counted α n → AcpiPlatformInfo} {base : AcpiPlatformInfo}
    {l : List α} (a : α) (hfield : field base = Counted.ofList l) :
    Triple (fun s => s = base) (append field setField a)
      (fun _ s => (l ++ [a]).length ≤ n ∧ s = setField base (Counted.ofList (l ++ [a])))
      (fun e _ => e = .status .tooManyEntries ∧ n < (l ++ [a]).length) := by
  rw [append]
  refine .bind (.get (Q := fun info s => info = base ∧ s = base) fun s hs => ⟨hs, hs⟩)
    fun info => ?_
  refine .of_pre fun s₀ ⟨hinfo, hs₀⟩ => ?_
  subst hinfo hs₀
  rw [hfield]
  refine .ite (fun hfull => ?_) fun hroom => ?_
  · refine fail_triple fun s hs => ⟨rfl, ?_⟩
    rw [length_append, length_singleton]
    exact Nat.lt_succ_of_le hfull
  · have hlt : l.length < n := Nat.lt_of_not_le hroom
    rw [Counted.store_ofList a hlt]
    refine .modify fun s hs => ⟨?_, by rw [hs]⟩
    rw [length_append, length_singleton]
    exact hlt

/-! ### One entry -/

lemma byteOf_eq {i : ℕ} (h : i < e.length) : byteOf e i = pure (byteIn e i) := by
  rw [byteOf, getElem?_eq_getElem h, byteIn, getD_eq_getElem e 0 h]

lemma readLe_eq {offset width : ℕ} (h : offset + width ≤ e.length) :
    readLe width e offset = pure (wordIn e offset width) := by
  rw [readLe, if_neg (Nat.not_lt.mpr h), wordIn]

/-- What an entry says, put into the result. -/
def record : Kind → Discovery Unit
  | .cpu cpu => append (·.cpus) (fun info cpus => { info with cpus := cpus }) cpu
  | .ioapic ioapic =>
    append (·.ioapics) (fun info ioapics => { info with ioapics := ioapics }) ioapic
  | .override override =>
    append (·.overrides) (fun info overrides => { info with overrides := overrides }) override
  | .localApic address => modify fun info => { info with localApicAddress := address }
  | .other => pure ()

lemma appendCpu_eq (cpu : AcpiCpuInfo) :
    appendCpu cpu.acpiProcessorId cpu.apicId cpu.flags cpu.x2apic = record (enabled cpu) := by
  rw [appendCpu, enabled]
  split_ifs
  · rfl
  · rfl

/-- `parse_madt_entry` uses no byte outside of the entry, and records what it says. -/
lemma parseMadtEntry_eq (hle : e.length ≤ 32) :
    parseMadtEntry (byteIn e 0) e e.length = record (kindOf e) := by
  rw [parseMadtEntry, kindOf, if_neg (Nat.not_lt.mpr hle)]
  split_ifs with h₀ h₁ h₂ hbus h₅ h₉
  · rw [byteOf_eq (by omega), byteOf_eq (by omega), readLe32, readLe_eq (by omega)]
    simp only [pure_bind]
    exact appendCpu_eq ⟨_, _, _, _⟩
  · rw [byteOf_eq (by omega), readLe32, readLe_eq (by omega), readLe_eq (by omega)]
    simp only [pure_bind]
    rfl
  · rw [byteOf_eq (by omega)]
    simp only [pure_bind, if_pos hbus]
    rfl
  · rw [byteOf_eq (by omega), byteOf_eq (by omega), readLe32, readLe_eq (by omega), readLe16,
      readLe_eq (by omega)]
    simp only [pure_bind, if_neg hbus]
    rfl
  · rw [readLe64, readLe_eq (by omega)]
    simp only [pure_bind]
    rfl
  · rw [readLe32, readLe_eq (by omega), readLe_eq (by omega), readLe_eq (by omega)]
    simp only [pure_bind]
    exact appendCpu_eq ⟨_, _, _, _⟩
  · rfl

/-- The result after the entries `ds`, in a run that has not stopped. -/
def Parsed (r : AcpiReader) (p : UInt64) (ds : List (List UInt8)) (s : AcpiPlatformInfo) : Prop :=
  s = decoded r p ds ∧ Fits ds

/-- An entry that says nothing. -/
lemma Parsed.skip {s : AcpiPlatformInfo} (h : Parsed r p ds s) (hk : kindOf e = .other) :
    Parsed r p (ds ++ [e]) s := by
  refine ⟨?_, ?_⟩
  · simp [h.1, decoded, localApicOf, cpuOf, ioapicOf, overrideOf, hk]
  · simpa [fits_iff, cpuOf, ioapicOf, overrideOf, hk] using (fits_iff ds).mp h.2

/-- An entry that goes into one of the arrays. -/
lemma append_parsed {α : Type} [Inhabited α] {field : AcpiPlatformInfo → Counted α n}
    {setField : AcpiPlatformInfo → Counted α n → AcpiPlatformInfo} {l : List α} {a : α}
    (hfield : field (decoded r p ds) = Counted.ofList l)
    (hset : setField (decoded r p ds) (Counted.ofList (l ++ [a])) = decoded r p (ds ++ [e]))
    (hfits : Fits ds → (Fits (ds ++ [e]) ↔ (l ++ [a]).length ≤ n)) :
    Triple (Parsed r p ds) (append field setField a) (fun _ => Parsed r p (ds ++ [e]))
      (fun stop _ => stop = .status .tooManyEntries ∧ ¬ Fits (ds ++ [e])) := by
  refine .of_pre fun s₀ ⟨hs₀, hf⟩ => ?_
  refine (append_triple a hfield).conseq (fun s hs => hs.trans hs₀) (fun _ s h => ?_)
    fun stop s h => ⟨h.1, fun hall => ?_⟩
  · exact ⟨h.2.trans hset, (hfits hf).mpr h.1⟩
  · exact absurd ((hfits hf).mp hall) (Nat.not_le_of_lt h.2)

/-- **One entry more** is recorded, unless the array it belongs to is full. -/
lemma record_triple :
    Triple (Parsed r p ds) (record (kindOf e)) (fun _ => Parsed r p (ds ++ [e]))
      (fun stop _ => stop = .status .tooManyEntries ∧ ¬ Fits (ds ++ [e])) := by
  cases hk : kindOf e with
  | cpu cpu =>
    refine append_parsed (l := ds.filterMap cpuOf) rfl ?_ fun hf => ?_
    · simp [decoded, localApicOf, cpuOf, ioapicOf, overrideOf, hk]
    · simp [fits_iff, cpuOf, ioapicOf, overrideOf, hk, hf.ioapics, hf.overrides]
  | ioapic ioapic =>
    refine append_parsed (l := ds.filterMap ioapicOf) rfl ?_ fun hf => ?_
    · simp [decoded, localApicOf, cpuOf, ioapicOf, overrideOf, hk]
    · simp [fits_iff, cpuOf, ioapicOf, overrideOf, hk, hf.cpus, hf.overrides]
  | override override =>
    refine append_parsed (l := ds.filterMap overrideOf) rfl ?_ fun hf => ?_
    · simp [decoded, localApicOf, cpuOf, ioapicOf, overrideOf, hk]
    · simp [fits_iff, cpuOf, ioapicOf, overrideOf, hk, hf.cpus, hf.ioapics]
  | localApic address =>
    refine .modify fun s ⟨hs, hf⟩ => ⟨?_, ?_⟩
    · simp [hs, decoded, localApicOf, cpuOf, ioapicOf, overrideOf, hk]
    · simpa [fits_iff, cpuOf, ioapicOf, overrideOf, hk] using (fits_iff ds).mp hf
  | other => exact .pure fun s hs => hs.skip hk

/-! ### The sequence of entries -/

/-- The bytes behind the header of the table at `p` begin with the entries `ds`. -/
structure Cut (r : AcpiReader) (p : UInt64) (ds : List (List UInt8)) : Prop where
  entry : ∀ d ∈ ds, Entry d
  bytes : r.bytes (p + UInt64.ofNat acpiMadtHeaderSize) ds.flatten.length = ds.flatten

/-- The offset behind the entries `ds`. -/
def behind (ds : List (List UInt8)) : ℕ := acpiMadtHeaderSize + ds.flatten.length

/-- Nothing is wrong with the body of the table at `p`: it can be read, and is the sequence
of the entries `es`. -/
structure Body (r : AcpiReader) (p : UInt64) (n : ℕ) (es : List (List UInt8)) : Prop
    extends Cut r p es where
  readable : Readable r p n
  length : n = behind es

lemma behind_snoc (ds : List (List UInt8)) (e : List UInt8) :
    behind (ds ++ [e]) = behind ds + e.length := by
  rw [behind, behind, flatten_append, flatten_singleton, length_append,
    Nat.add_assoc]

/-- The bytes behind the entries `ds`. -/
lemma bytes_behind (r : AcpiReader) (p : UInt64) (ds : List (List UInt8)) (k : ℕ) :
    r.bytes (p + UInt64.ofNat acpiMadtHeaderSize) (ds.flatten.length + k) =
      r.bytes (p + UInt64.ofNat acpiMadtHeaderSize) ds.flatten.length ++
        r.bytes (p + UInt64.ofNat (behind ds)) k := by
  rw [bytes_add, behind, add_ofNat_add]

/-- One entry more. -/
lemma Cut.snoc (hc : Cut r p ds) (he : Entry e)
    (hbytes : r.bytes (p + UInt64.ofNat (behind ds)) e.length = e) : Cut r p (ds ++ [e]) := by
  refine ⟨fun d hd => ?_, ?_⟩
  · rcases mem_append.mp hd with hd | hd
    · exact hc.entry d hd
    · exact mem_singleton.mp hd ▸ he
  · rw [flatten_append, flatten_singleton, length_append, bytes_behind, hc.bytes,
      hbytes]

/-- The entries found so far are the first ones, and the next one is where they end. -/
lemma Body.next (hb : Body r p n es) (hc : Cut r p ds) (hlt : behind ds < n) :
    ∃ e rest, es = ds ++ e :: rest ∧ Entry e ∧ behind ds + e.length ≤ n ∧
      r.bytes (p + UInt64.ofNat (behind ds)) e.length = e := by
  have hle : ds.flatten.length ≤ es.flatten.length := by
    rw [hb.length, behind, behind] at hlt
    omega
  have hflatten : ds.flatten <+: es.flatten := by
    rw [← hc.bytes, ← hb.bytes]
    obtain ⟨k, hk⟩ := Nat.exists_eq_add_of_le hle
    rw [hk, bytes_add]
    exact prefix_append _ _
  obtain ⟨rest, rfl⟩ := prefix_of_flatten_prefix selfDelimiting_entry not_entry_nil hc.entry
    hb.entry hflatten
  cases rest with
  | nil =>
    rw [hb.length, append_nil] at hlt
    exact absurd hlt (Nat.lt_irrefl _)
  | cons e rest =>
    have hlen : behind (ds ++ e :: rest) = behind ds + e.length + rest.flatten.length := by
      rw [behind, behind, flatten_append, flatten_cons, length_append,
        length_append]
      omega
    refine ⟨e, rest, rfl, hb.entry e (by simp), by rw [hb.length, hlen]; omega, ?_⟩
    have hbytes := hb.bytes
    rw [flatten_append, flatten_cons, length_append, bytes_behind, hc.bytes,
      length_append, bytes_add] at hbytes
    exact (append_inj (append_cancel_left hbytes) (length_bytes ..)).1

/-- What holds at the head of the loop of `parse_madt`. -/
def AtEntry (r : AcpiReader) (p : UInt64) (n offset : ℕ) (s : AcpiPlatformInfo) : Prop :=
  offset ≤ n ∧ ∃ ds, Cut r p ds ∧ offset = behind ds ∧ Parsed r p ds s

/-- Why `parse_madt` stops on a body: something is wrong with it, or it has more entries
than there is room for. -/
def Stops (r : AcpiReader) (p : UInt64) (n : ℕ) (stop : AcpiStop) : Prop :=
  IsStatus stop ∧ ∀ es, Body r p n es → stop = .status .tooManyEntries ∧ ¬ Fits es

lemma Entry.length_eq (he : Entry e) (hbytes : r.bytes p e.length = e) :
    (r.byteAt (p + UInt64.ofNat 1)).toNat = e.length := by
  obtain ⟨b, hb, hlen⟩ := he.length
  have hat : e[1]? = some (r.byteAt (p + UInt64.ofNat 1)) := by
    rw [← hbytes, getElem?_bytes he.two_le]
  rw [← hlen, Option.some.inj (hb.symm.trans hat)]

lemma byteIn_bytes {i : ℕ} (h : i < n) :
    byteIn (r.bytes p n) i = (r.byteAt (p + UInt64.ofNat i)).toNat := by
  rw [byteIn, getD_eq_getElem?_getD, getElem?_bytes h, Option.getD_some]

/-- The loop goes on behind the entry `e`. -/
lemma AtEntry.of_parsed {s : AcpiPlatformInfo} (hc : Cut r p ds) (he : Entry e)
    (hbytes : r.bytes (p + UInt64.ofNat (behind ds)) e.length = e)
    (hle : behind ds + e.length ≤ n) (hparsed : Parsed r p (ds ++ [e]) s) :
    n - (behind ds + e.length) < n - behind ds ∧ AtEntry r p n (behind ds + e.length) s := by
  refine ⟨?_, hle, ds ++ [e], hc.snoc he hbytes, (behind_snoc ds e).symm, hparsed⟩
  have := he.two_le
  omega

/-- **One round** takes the loop from one entry to the next. -/
lemma parseMadtRound_triple {offset : ℕ} (hlt : offset < n) :
    Triple (AtEntry r p n offset) (parseMadtRound r p n offset)
      (fun next s => n - next < n - offset ∧ AtEntry r p n next s)
      (fun stop _ => Stops r p n stop) := by
  refine .of_pre fun s₀ ⟨_, ds, hc, ho, hparsed⟩ => ?_
  subst ho
  rw [parseMadtRound]
  generalize hq : p + UInt64.ofNat (behind ds) = q
  -- the two bytes of the header
  refine readExact_bind le_rfl (fun stop s h hno => ⟨h, fun es hb => ?_⟩) ?_
  · obtain ⟨e, rest, -, he, hle, -⟩ := hb.next hc hlt
    have := he.two_le
    exact absurd (hq ▸ hb.readable.answered_at (by omega)) hno
  rw [byteOf_bytes (by decide), byteOf_bytes (by decide), pure_bind, pure_bind]
  refine check_triple (fun hbad s _ => ⟨⟨_, rfl⟩, fun es hb => ?_⟩) fun hgood => ?_
  · obtain ⟨e, rest, -, he, hle, hbytes⟩ := hb.next hc hlt
    rw [hq] at hbytes
    rw [he.length_eq hbytes] at hbad
    have := he.two_le
    omega
  rw [not_or, Nat.not_lt, Nat.not_lt] at hgood
  have he : Entry (r.bytes q (r.byteAt (q + UInt64.ofNat 1)).toNat) :=
    ⟨by rw [length_bytes]; exact hgood.1, _, getElem?_bytes (by omega), (length_bytes ..).symm⟩
  generalize hlen : (r.byteAt (q + UInt64.ofNat 1)).toNat = length at he hgood
  have hgo {s : AcpiPlatformInfo} (hs : Parsed r p (ds ++ [r.bytes q length]) s) :
      n - (behind ds + length) < n - behind ds ∧ AtEntry r p n (behind ds + length) s := by
    have hle : behind ds + (r.bytes q length).length ≤ n := by
      rw [length_bytes]
      omega
    have hnext := AtEntry.of_parsed hc he (by rw [hq, length_bytes]) hle hs
    rwa [length_bytes] at hnext
  refine .ite (fun hlong => ?_) fun hshort => ?_
  · -- too long for the buffer
    refine .pure fun s hs => hgo (Parsed.skip (hs ▸ hparsed) ?_)
    rw [kindOf, length_bytes, if_pos hlong]
  · have hshort : length ≤ 32 := Nat.le_of_not_lt hshort
    have hsame {es : List (List UInt8)} (hb : Body r p n es) :
        ds ++ [r.bytes q length] <+: es := by
      obtain ⟨e, rest, rfl, he', -, hbytes⟩ := hb.next hc hlt
      rw [hq] at hbytes
      rw [← hlen, he'.length_eq hbytes, hbytes]
      exact ⟨rest, by simp⟩
    refine readExact_bind hshort (fun stop s h hno => ⟨h, fun es hb => ?_⟩) ?_
    · exact absurd (hq ▸ hb.readable.answered_at (by omega)) hno
    · have hparse := parseMadtEntry_eq (e := r.bytes q length) (by rwa [length_bytes])
      rw [length_bytes, byteIn_bytes (by omega)] at hparse
      rw [hparse]
      have hrecord : Triple (Parsed r p ds) (record (kindOf (r.bytes q length)))
          (fun _ => Parsed r p (ds ++ [r.bytes q length])) (fun stop _ => Stops r p n stop) :=
        record_triple.conseq (fun _ hs => hs) (fun _ _ hs => hs) fun stop s h =>
          ⟨⟨_, h.1⟩, fun es hb => ⟨h.1, fun hf => h.2 (hf.of_prefix (hsame hb))⟩⟩
      exact .bind (hrecord.conseq (fun s hs => hs ▸ hparsed) (fun _ _ hs => hs)
        fun _ _ hs => hs) fun _ => .pure fun s hs => hgo hs

/-! ### The table -/

/-- A MADT with the entries `es` that nothing is wrong with. -/
structure IsMadt (r : AcpiReader) (p : UInt64) (es : List (List UInt8)) : Prop where
  signature : r.bytes p 4 = apicSignature
  checksummed : Checksummed r p acpiMadtHeaderSize acpiMaxTableBytes (tableLength r p)
  body : Body r p (tableLength r p) es

/-- What is known of the table at `p` when it was parsed to the end: it is checksummed,
and behind its header there are the entries `es` up to its end. -/
structure ParsedMadt (r : AcpiReader) (p : UInt64) (es : List (List UInt8)) : Prop where
  checksummed : Checksummed r p acpiMadtHeaderSize acpiMaxTableBytes (tableLength r p)
  cut : Cut r p es
  length : tableLength r p = behind es

/-- A table is a sequence of entries in one way only. -/
lemma Cut.unique (hd : Cut r p ds) (he : Cut r p es) (hlen : behind ds = behind es) : ds = es := by
  have hflatten : ds.flatten = es.flatten := by
    have hlen' : ds.flatten.length = es.flatten.length := Nat.add_left_cancel hlen
    rw [← hd.bytes, ← he.bytes, hlen']
  have hle := prefix_of_flatten_prefix selfDelimiting_entry not_entry_nil hd.entry he.entry
    (hflatten ▸ prefix_refl _)
  have hge := prefix_of_flatten_prefix selfDelimiting_entry not_entry_nil he.entry hd.entry
    (hflatten ▸ prefix_refl _)
  exact hle.eq_of_length (Nat.le_antisymm hle.length_le hge.length_le)

lemma decoded_nil (r : AcpiReader) (p : UInt64) :
    { cleared with localApicAddress := field r p 36 4, madtFlags := field r p 40 4 } =
      decoded r p [] := rfl

/-- The loop of `parse_madt` ends at the end of the table. -/
lemma parseMadtLoop_triple (hn : acpiMadtHeaderSize ≤ n) :
    Triple (fun s => s = decoded r p [])
      (Hoare.whileFrom (fun offset => offset < n) (parseMadtRound r p n) .endless n
        acpiMadtHeaderSize)
      (fun _ s => ∃ es, Cut r p es ∧ n = behind es ∧ Parsed r p es s)
      (fun stop _ => Stops r p n stop) := by
  have hloop : Triple (AtEntry r p n acpiMadtHeaderSize)
      (Hoare.whileFrom (fun offset => offset < n) (parseMadtRound r p n) .endless n
        acpiMadtHeaderSize)
      (fun last s => decide (last < n) = false ∧ AtEntry r p n last s)
      (fun stop _ => Stops r p n stop) :=
    .whileFrom (μ := fun offset => n - offset)
      (fun offset htest => Nat.sub_pos_of_lt (of_decide_eq_true htest))
      (fun offset htest => parseMadtRound_triple (of_decide_eq_true htest)) (Nat.sub_le n _)
  refine hloop.conseq (fun s hs => ⟨hn, [], ⟨fun d hd => absurd hd not_mem_nil, rfl⟩, rfl, hs,
    ⟨by simp, by simp, by simp⟩⟩) (fun last s ⟨hend, hle, es, hcut, hlast, hparsed⟩ => ?_)
    fun _ _ h => h
  rw [decide_eq_false_iff_not] at hend
  exact ⟨es, hcut, by omega, hparsed⟩

/-- **`parse_madt`** decodes the table. -/
lemma parseMadt_triple :
    Triple (fun s => s = cleared) (parseMadt r p)
      (fun _ s => ∃ es, ParsedMadt r p es ∧ Parsed r p es s)
      (fun stop _ => IsStatus stop ∧
        ∀ es, IsMadt r p es → stop = .status .tooManyEntries ∧ ¬ Fits es) := by
  rw [parseMadt]
  refine readExact_bind le_rfl (fun stop s h hno => ⟨h, fun es hm => ?_⟩) ?_
  · exact absurd (hm.body.readable.answered_head hm.checksummed.header_le) hno
  rw [bytesEqual_bytes (by decide), pure_bind]
  refine check_triple (fun hbad s _ => ⟨⟨_, rfl⟩, fun es hm => ?_⟩) fun _ => ?_
  · exact absurd hm.signature (of_decide_eq_false hbad)
  rw [readLe32, readLe_bytes (by decide), pure_bind, ← tableLength]
  refine check_triple (fun hbad s _ => ⟨⟨_, rfl⟩, fun es hm => ?_⟩) fun hgood => ?_
  · rcases hbad with hbad | hbad
    · exact absurd hm.checksummed.header_le (Nat.not_le_of_lt hbad)
    · exact absurd hm.checksummed.le_limit (Nat.not_le_of_lt hbad)
  rw [not_or, Nat.not_lt, Nat.not_lt] at hgood
  refine checksumRegion_bind (fun stop s h hno => ⟨h, fun es hm => ?_⟩) fun hsum => ?_
  · exact absurd ⟨hm.body.readable, hm.checksummed.sum⟩ hno
  rw [readLe_bytes (by decide), readLe_bytes (by decide), pure_bind, pure_bind]
  have hstops : ∀ stop, Stops r p (tableLength r p) stop → IsStatus stop ∧
      ∀ es, IsMadt r p es → stop = .status .tooManyEntries ∧ ¬ Fits es :=
    fun stop h => ⟨h.1, fun es hm => h.2 es hm.body⟩
  refine .bind (.modify (Q := fun _ s => s = decoded r p [])
    fun s hs => hs ▸ decoded_nil r p) fun _ => ?_
  refine .bind_conseq (parseMadtLoop_triple hgood.1) (fun stop _ h => hstops stop h)
    fun _ => .pure fun s hs => ?_
  obtain ⟨es, hcut, hlen, hparsed⟩ := hs
  exact ⟨es, ⟨⟨hgood.1, hgood.2, hsum⟩, hcut, hlen⟩, hparsed⟩

end Acpi

end JoshOS
