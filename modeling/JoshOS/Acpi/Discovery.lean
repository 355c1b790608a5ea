import JoshOS.Acpi.Madt

/-!
Discovery as a whole.

* `Leads`: the first table of the root table that is a MADT.
* `acpi_discover_decodes`: what the MADT says is what is found.
* `acpi_discover_robust`: whatever the memory holds, discovery ends with a status, stays
  inside of its arrays, and succeeds only on tables that add up.
-/

namespace JoshOS

open List Hoare Hoare.Triple Bytes Words

namespace Acpi

variable {r : AcpiReader} {p root madt rsdp : UInt64} {n size : ℕ} {is : List ℕ}
  {es : List (List UInt8)}

/-! ### The root table -/

/-- Entry `i` of the root table. -/
def tableAddress (r : AcpiReader) (root : UInt64) (size i : ℕ) : ℕ :=
  field r (root + UInt64.ofNat acpiSdtHeaderSize) (i * size) size

/-- The first table with the signature of the MADT, among the entries `is` of the root
table, is the one at `madt`. -/
inductive Leads (r : AcpiReader) (root : UInt64) (size : ℕ) (madt : UInt64) : List ℕ → Prop where
  | here {i : ℕ} {is : List ℕ} (hne : tableAddress r root size i ≠ 0)
      (haddress : UInt64.ofNat (tableAddress r root size i) = madt)
      (hsignature : r.bytes madt 4 = apicSignature) : Leads r root size madt (i :: is)
  | skip {i : ℕ} {is : List ℕ} (hno : tableAddress r root size i = 0 ∨
        r.bytes (UInt64.ofNat (tableAddress r root size i)) 4 ≠ apicSignature)
      (hrest : Leads r root size madt is) : Leads r root size madt (i :: is)

/-- The entries `is` of the root table and the headers of the tables there can be read. -/
structure Listing (r : AcpiReader) (root : UInt64) (size : ℕ) (is : List ℕ) : Prop where
  entries : ∀ i ∈ is, Answered r
    (root + UInt64.ofNat acpiSdtHeaderSize + UInt64.ofNat (i * size)) size
  tables : ∀ i ∈ is, tableAddress r root size i ≠ 0 →
    Readable r (UInt64.ofNat (tableAddress r root size i)) acpiSdtHeaderSize

lemma Listing.tail {i : ℕ} (h : Listing r root size (i :: is)) : Listing r root size is :=
  ⟨fun j hj => h.entries j (mem_cons_of_mem i hj),
    fun j hj => h.tables j (mem_cons_of_mem i hj)⟩

/-- A number that is as wide as the entries of the root table. -/
lemma tablePhysical_bytes (hsize : size = 4 ∨ size = 8) (q : UInt64) :
    tablePhysical size (r.bytes q size) = pure (ofLE (r.bytes q size)) := by
  rw [tablePhysical]
  have hzero : ∀ width, field r q 0 width = ofLE (r.bytes q width) := fun width => by
    rw [field]
    simp
  rcases hsize with rfl | rfl
  · rw [if_neg (by decide), readLe32, readLe_bytes (by decide), hzero]
  · rw [if_pos rfl, readLe64, readLe_bytes (by decide), hzero]

/-- What the search in the root table finds: the first MADT, parsed. -/
def Finds (r : AcpiReader) (root : UInt64) (size : ℕ) (is : List ℕ) (s : AcpiPlatformInfo) : Prop :=
  ∃ madt es, Leads r root size madt is ∧ ParsedMadt r madt es ∧ Parsed r madt es s

/-- Why the search stops: what it is to find is not in order, or too large. -/
def Misses (r : AcpiReader) (root : UInt64) (size : ℕ) (is : List ℕ) (stop : AcpiStop) : Prop :=
  IsStatus stop ∧ ∀ madt es, Listing r root size is → Leads r root size madt is →
    IsMadt r madt es → stop = .status .tooManyEntries ∧ ¬ Fits es

/-- An entry that the search passes over. -/
lemma Finds.skip {i : ℕ} {s : AcpiPlatformInfo} (hno : tableAddress r root size i = 0 ∨
    r.bytes (UInt64.ofNat (tableAddress r root size i)) 4 ≠ apicSignature)
    (h : Finds r root size is s) : Finds r root size (i :: is) s := by
  obtain ⟨madt, es, hleads, hparsed⟩ := h
  exact ⟨madt, es, .skip hno hleads, hparsed⟩

lemma Misses.skip {i : ℕ} {stop : AcpiStop} (hno : tableAddress r root size i = 0 ∨
    r.bytes (UInt64.ofNat (tableAddress r root size i)) 4 ≠ apicSignature)
    (h : Misses r root size is stop) : Misses r root size (i :: is) stop := by
  refine ⟨h.1, fun madt es hl hleads hm => ?_⟩
  cases hleads with
  | here hne haddress hsignature =>
    subst haddress
    exact absurd hsignature (hno.resolve_left hne)
  | skip _ hrest => exact h.2 madt es hl.tail hrest hm

/-- **The search** goes through the entries in their order. -/
lemma findMadtFrom_triple (hsize : size = 4 ∨ size = 8) :
    Triple (fun s => s = cleared) (findMadtFrom r root size is) (fun _ => Finds r root size is)
      (fun stop _ => Misses r root size is stop) := by
  induction is with
  | nil =>
    rw [findMadtFrom]
    exact fail_triple fun s _ => ⟨⟨_, rfl⟩, fun madt es _ hleads => nomatch hleads⟩
  | cons i is ih =>
    have hskip (hno : tableAddress r root size i = 0 ∨
        r.bytes (UInt64.ofNat (tableAddress r root size i)) 4 ≠ apicSignature) :=
      ih.conseq (fun _ hs => hs) (fun _ _ h => Finds.skip hno h) fun _ _ h => Misses.skip hno h
    rw [findMadtFrom]
    refine readExact_bind (by omega) (fun stop s h hno => ⟨h, fun madt es hl _ _ => ?_⟩) ?_
    · exact absurd (hl.entries i mem_cons_self) hno
    rw [tablePhysical_bytes hsize, pure_bind]
    change Triple _ (if tableAddress r root size i = 0 then _ else _) _ _
    refine .ite (fun hnull => hskip (.inl hnull)) fun hne => ?_
    refine readExact_bind le_rfl (fun stop s h hno => ⟨h, fun madt es hl _ _ => ?_⟩) ?_
    · exact absurd ((hl.tables i mem_cons_self hne).answered_head le_rfl) hno
    rw [bytesEqual_bytes (by decide), pure_bind]
    refine .ite (fun hother => hskip (.inr (of_decide_eq_false hother))) fun hsigned => ?_
    have hsigned := of_decide_eq_true (Bool.eq_true_of_not_eq_false hsigned)
    refine parseMadt_triple.conseq (fun _ hs => hs) (fun _ s ⟨es, hm, hparsed⟩ => ?_)
      fun stop s h => ⟨h.1, fun madt es _ hleads hm => ?_⟩
    · exact ⟨_, es, .here hne rfl hsigned, hm, hparsed⟩
    · cases hleads with
      | here _ haddress _ => exact h.2 es (haddress ▸ hm)
      | skip hno _ => exact absurd hsigned (hno.resolve_left hne)

/-- The number of entries of a root table. -/
def entryCount (r : AcpiReader) (root : UInt64) (size : ℕ) : ℕ :=
  (tableLength r root - acpiSdtHeaderSize) / size

/-- A root table that nothing is wrong with, and whose first MADT is at `madt`. -/
structure IsRoot (r : AcpiReader) (root : UInt64) (size : ℕ) (signature : List UInt8)
    (madt : UInt64) : Prop where
  sound : Sound r root acpiSdtHeaderSize acpiMaxTableBytes (tableLength r root)
  signature : r.bytes root 4 = signature
  whole : (tableLength r root - acpiSdtHeaderSize) % size = 0
  tables : ∀ i < entryCount r root size, tableAddress r root size i ≠ 0 →
    Readable r (UInt64.ofNat (tableAddress r root size i)) acpiSdtHeaderSize
  leads : Leads r root size madt (List.range (entryCount r root size))

lemma IsRoot.listing {signature : List UInt8} (h : IsRoot r root size signature madt) :
    Listing r root size (range (entryCount r root size)) := by
  refine ⟨fun i hi => ?_, fun i hi => h.tables i (mem_range.mp hi)⟩
  have hi : (i + 1) * size ≤ tableLength r root - acpiSdtHeaderSize :=
    (Nat.mul_le_mul_right size (mem_range.mp hi)).trans (Nat.div_mul_le_self _ _)
  have hle := h.sound.header_le
  rw [← add_ofNat_add]
  rw [Nat.succ_mul] at hi
  exact h.sound.readable.answered_at (by omega)

/-- **`find_madt_in_root`.** -/
lemma findMadtInRoot_triple {signature : List UInt8} (hsize : size = 4 ∨ size = 8)
    (hlength : signature.length = 4) :
    Triple (fun s => s = cleared) (findMadtInRoot r root size signature)
      (fun _ s => Checksummed r root acpiSdtHeaderSize acpiMaxTableBytes (tableLength r root) ∧
        Finds r root size (range (entryCount r root size)) s)
      (fun stop _ => IsStatus stop ∧ ∀ madt es, IsRoot r root size signature madt →
        IsMadt r madt es → stop = .status .tooManyEntries ∧ ¬ Fits es) := by
  rw [findMadtInRoot]
  refine readSdtHeader_bind (fun stop s h hno => ⟨h, fun madt es hroot _ => ?_⟩) fun hsum => ?_
  · exact absurd hroot.sound hno
  rw [bytesEqual_bytes (by rw [hlength]; decide), pure_bind, hlength]
  refine check_triple (fun hbad s _ => ⟨⟨_, rfl⟩, fun madt es hroot _ => ?_⟩) fun _ => ?_
  · exact absurd hroot.signature (of_decide_eq_false hbad)
  rw [readLe32, readLe_bytes (by decide), pure_bind, ← tableLength]
  refine check_triple (fun hbad s _ => ⟨⟨_, rfl⟩, fun madt es hroot _ => ?_⟩) fun _ => ?_
  · rcases hbad with hzero | hrest
    · omega
    · exact absurd hroot.whole hrest
  refine (findMadtFrom_triple hsize).conseq (fun _ hs => hs) (fun _ s h => ⟨hsum, h⟩)
    fun stop s h => ⟨h.1, fun madt es hroot hm => h.2 madt es hroot.listing hroot.leads hm⟩

/-! ### The RSDP -/

/-- The revision of the RSDP. -/
def revision (r : AcpiReader) (rsdp : UInt64) : ℕ := (r.byteAt (rsdp + UInt64.ofNat 15)).toNat

/-- The RSDP leads to an XSDT, not to an RSDT. -/
def Extended (r : AcpiReader) (rsdp : UInt64) : Prop := 2 ≤ revision r rsdp ∧ field r rsdp 24 8 ≠ 0

instance : Decidable (Extended r rsdp) := inferInstanceAs (Decidable (_ ∧ _))

/-- The address of the root table. -/
def rootAddress (r : AcpiReader) (rsdp : UInt64) : ℕ :=
  if Extended r rsdp then field r rsdp 24 8 else field r rsdp 16 4

/-- The size of the entries of the root table. -/
def entrySize (r : AcpiReader) (rsdp : UInt64) : ℕ := if Extended r rsdp then 8 else 4

/-- The signature of the root table. -/
def rootSignature (r : AcpiReader) (rsdp : UInt64) : List UInt8 :=
  if Extended r rsdp then xsdtSignature else rsdtSignature

/-- An RSDP that nothing is wrong with. -/
structure IsRsdp (r : AcpiReader) (rsdp : UInt64) : Prop where
  ne_zero : rsdp ≠ 0
  readable : Readable r rsdp 20
  signature : r.bytes rsdp 8 = rsdpSignature
  sum : (r.bytes rsdp 20).sum = 0
  extended : 2 ≤ revision r rsdp → Sound r rsdp 36 4096 (field r rsdp 20 4)
  root_ne_zero : rootAddress r rsdp ≠ 0

/-- What discovery relies on when it succeeds: the checksums of the RSDP, of the root
table and of the MADT at `madt`, whose body is the sequence of the entries `es`. -/
structure Trusted (r : AcpiReader) (rsdp madt : UInt64) (es : List (List UInt8)) : Prop where
  rsdp_sum : (r.bytes rsdp 20).sum = 0
  rsdp_extended : 2 ≤ revision r rsdp → Checksummed r rsdp 36 4096 (field r rsdp 20 4)
  root : Checksummed r (UInt64.ofNat (rootAddress r rsdp)) acpiSdtHeaderSize acpiMaxTableBytes
    (tableLength r (UInt64.ofNat (rootAddress r rsdp)))
  leads : Leads r (UInt64.ofNat (rootAddress r rsdp)) (entrySize r rsdp) madt
    (List.range (entryCount r (UInt64.ofNat (rootAddress r rsdp)) (entrySize r rsdp)))
  madt : ParsedMadt r madt es

/-- The root table that the RSDP leads to nothing is wrong with. -/
abbrev IsRootOf (r : AcpiReader) (rsdp madt : UInt64) : Prop :=
  IsRoot r (UInt64.ofNat (rootAddress r rsdp)) (entrySize r rsdp) (rootSignature r rsdp) madt

/-- What holds when discovery succeeds. -/
def Succeeds (r : AcpiReader) (rsdp : UInt64) (s : AcpiPlatformInfo) : Prop :=
  ∃ madt es, Trusted r rsdp madt es ∧ Parsed r madt es s

/-- Why discovery fails. -/
def Fails (r : AcpiReader) (rsdp : UInt64) (stop : AcpiStop) : Prop :=
  IsStatus stop ∧ ∀ madt es, IsRsdp r rsdp → IsRootOf r rsdp madt → IsMadt r madt es →
    stop = .status .tooManyEntries ∧ ¬ Fits es

/-- A failure that an RSDP in order excludes. -/
lemma fails_of_not {stop : AcpiStop} (h : IsStatus stop) (hno : ¬ IsRsdp r rsdp) :
    Fails r rsdp stop := ⟨h, fun _ _ hrsdp => absurd hrsdp hno⟩

/-- The search in the root table that the RSDP leads to. -/
lemma findMadt_triple (hsum : (r.bytes rsdp 20).sum = 0)
    (hext : 2 ≤ revision r rsdp → Checksummed r rsdp 36 4096 (field r rsdp 20 4)) :
    Triple (fun s => s = cleared) (findMadtInRoot r (UInt64.ofNat (rootAddress r rsdp))
        (entrySize r rsdp) (rootSignature r rsdp))
      (fun _ => Succeeds r rsdp) (fun stop _ => Fails r rsdp stop) := by
  have hsize : entrySize r rsdp = 4 ∨ entrySize r rsdp = 8 := by
    rw [entrySize]
    split_ifs
    · exact .inr rfl
    · exact .inl rfl
  have hlength : (rootSignature r rsdp).length = 4 := by
    rw [rootSignature]
    split_ifs <;> rfl
  refine (findMadtInRoot_triple hsize hlength).conseq (fun _ hs => hs) (fun _ s h => ?_)
    fun stop s h => ⟨h.1, fun madt es _ hroot hm => h.2 madt es hroot hm⟩
  obtain ⟨hroot, madt, es, hleads, hmadt, hparsed⟩ := h
  exact ⟨madt, es, ⟨hsum, hext, hroot, hleads, hmadt⟩, hparsed⟩

/-- The way by the RSDT. -/
lemma discoverRsdt_triple (hn : 20 ≤ n) (hnot : ¬ Extended r rsdp)
    (hsum : (r.bytes rsdp 20).sum = 0)
    (hext : 2 ≤ revision r rsdp → Checksummed r rsdp 36 4096 (field r rsdp 20 4)) :
    Triple (fun s => s = cleared) (discoverRsdt r (r.bytes rsdp n))
      (fun _ => Succeeds r rsdp) (fun stop _ => Fails r rsdp stop) := by
  have hroot : rootAddress r rsdp = field r rsdp 16 4 := if_neg hnot
  have hsearch := findMadt_triple hsum hext
  rw [hroot, entrySize, if_neg hnot, rootSignature, if_neg hnot] at hsearch
  rw [discoverRsdt, readLe32, readLe_bytes (by omega), pure_bind]
  refine check_triple (fun hzero s _ => fails_of_not ⟨_, rfl⟩ fun h => ?_) fun _ => hsearch
  exact h.root_ne_zero (hroot.trans hzero)

/-- **`acpi_discover`.** -/
lemma acpiDiscover_triple (r : AcpiReader) (rsdp : UInt64) :
    Triple (fun _ => True) (acpiDiscover r rsdp) (fun _ => Succeeds r rsdp)
      (fun stop _ => Fails r rsdp stop) := by
  rw [acpiDiscover]
  refine check_triple (fun hzero s _ => fails_of_not ⟨_, rfl⟩ fun h => h.ne_zero hzero)
    fun _ => ?_
  refine .bind (.set (Q := fun _ s => s = cleared) fun _ _ => rfl) fun _ => ?_
  refine readExact_bind (by decide) (fun stop s h hno => fails_of_not h fun hrsdp =>
    hno (hrsdp.readable.answered_head le_rfl)) ?_
  rw [bytesEqual_bytes (by decide), pure_bind]
  refine check_triple (fun hbad s _ => fails_of_not ⟨_, rfl⟩ fun hrsdp =>
    of_decide_eq_false hbad hrsdp.signature) fun _ => ?_
  refine checksumRegion_bind (fun stop s h hno => fails_of_not h fun hrsdp =>
    hno ⟨hrsdp.readable, hrsdp.sum⟩) fun hsum => ?_
  rw [byteOf_bytes (by decide), pure_bind, ← revision]
  refine .ite (fun hrev => ?_) fun hrev => ?_
  · refine readExact_bind le_rfl (fun stop s h hno => fails_of_not h fun hrsdp =>
      hno ((hrsdp.extended hrev).readable.answered_head (hrsdp.extended hrev).header_le)) ?_
    rw [readLe32, readLe_bytes (by decide), pure_bind]
    refine check_triple (fun hbad s _ => fails_of_not ⟨_, rfl⟩ fun hrsdp => ?_) fun hgood => ?_
    · rcases hbad with hbad | hbad
      · exact absurd (hrsdp.extended hrev).header_le (Nat.not_le_of_lt hbad)
      · exact absurd (hrsdp.extended hrev).le_limit (Nat.not_le_of_lt hbad)
    rw [not_or, Nat.not_lt, Nat.not_lt] at hgood
    refine checksumRegion_bind (fun stop s h hno => fails_of_not h fun hrsdp =>
      hno ⟨(hrsdp.extended hrev).readable, (hrsdp.extended hrev).sum⟩) fun hlong => ?_
    have hext : Checksummed r rsdp 36 4096 (field r rsdp 20 4) := ⟨hgood.1, hgood.2, hlong⟩
    rw [readLe64, readLe_bytes (by decide), pure_bind]
    refine .ite (fun hxsdt => ?_) fun hxsdt => ?_
    · have hextended : Extended r rsdp := ⟨hrev, hxsdt⟩
      have hsearch := findMadt_triple hsum fun _ => hext
      rwa [rootAddress, if_pos hextended, entrySize, if_pos hextended, rootSignature,
        if_pos hextended] at hsearch
    · exact discoverRsdt_triple (by decide) (fun h => hxsdt h.2) hsum fun _ => hext
  · exact discoverRsdt_triple le_rfl (fun h => hrev h.1) hsum fun h => absurd h hrev

/-! ### Decoding -/

/-- There is only one first MADT. -/
lemma Leads.unique {madt' : UInt64} (h : Leads r root size madt is)
    (h' : Leads r root size madt' is) : madt = madt' := by
  induction h with
  | @here i is hne haddress hsignature =>
    cases h' with
    | here _ haddress' _ => exact haddress.symm.trans haddress'
    | skip hno _ =>
      subst haddress
      exact absurd hsignature (hno.resolve_left hne)
  | @skip i is hno _ ih =>
    cases h' with
    | here hne haddress hsignature =>
      subst haddress
      exact absurd hsignature (hno.resolve_left hne)
    | skip _ hrest => exact ih hrest

/-- **Discovery decodes the MADT.**  From an RSDP, a root table and a MADT that nothing is
wrong with, `acpi_discover` finds what the entries of the MADT say, in their order, unless
one of the arrays is too small for it, when it returns `ACPI_TOO_MANY_ENTRIES`. -/
theorem acpi_discover_decodes (r : AcpiReader) (rsdp madt : UInt64) (es : List (List UInt8))
    (info : AcpiPlatformInfo) (hrsdp : IsRsdp r rsdp) (hroot : IsRootOf r rsdp madt)
    (hmadt : IsMadt r madt es) :
    (Fits es → outcome (acpiDiscover r rsdp) info = (.ok (), decoded r madt es)) ∧
    (¬ Fits es →
      (outcome (acpiDiscover r rsdp) info).1 = .error (.status .tooManyEntries)) := by
  have hends := Triple.iff_ends.mp (acpiDiscover_triple r rsdp) info trivial
  generalize outcome (acpiDiscover r rsdp) info = out at hends
  obtain ⟨answer, s⟩ := out
  cases answer with
  | ok u =>
    obtain ⟨madt', es', htrusted, hparsed, hfits⟩ := hends
    obtain rfl := htrusted.leads.unique hroot.leads
    obtain rfl := htrusted.madt.cut.unique hmadt.body.toCut
      (htrusted.madt.length.symm.trans hmadt.body.length)
    exact ⟨fun _ => by rw [hparsed], fun hno => absurd hfits hno⟩
  | error stop =>
    obtain ⟨hstop, hno⟩ := hends.2 madt es hrsdp hroot hmadt
    exact ⟨fun hfits => absurd hfits hno, fun _ => by rw [hstop]⟩

/-- A memory image with a MADT at 16, an XSDT at 80 and an RSDP of the given length
at 128. -/
def sampleImage (length : ℕ) : AcpiReader where
  byteAt a :=
    if 164 ≤ a.toNat then 0
    else (List.replicate 16 0 ++ apicSignature ++ [52, 0, 0, 0, 0, 196] ++ List.replicate 26 0 ++
      [0, 0, 0xe0, 0xfe, 1, 0, 0, 0] ++ [0, 8, 1, 2, 1, 0, 0, 0] ++ List.replicate 12 0 ++
      xsdtSignature ++ [44, 0, 0, 0, 0, 129] ++ List.replicate 26 0 ++ toLE 8 16 ++
      List.replicate 4 0 ++ rsdpSignature ++ [223] ++ List.replicate 6 0 ++ [2, 0, 0, 0, 0] ++
      toLE 4 length ++ toLE 8 80 ++ [0 - (toLE 4 length).sum - 80, 0, 0, 0]).getD a.toNat 0
  fails _ _ := false

lemma sampleImage_readable {length : ℕ} (h : p.toNat + n ≤ 2 ^ 64) :
    Readable (sampleImage length) p n := ⟨h, fun _ _ _ => rfl⟩

/-- The root table and the MADT of the image. -/
lemma sampleImage_tables {length : ℕ} (h : length = 36 ∨ length = 4097) :
    IsRootOf (sampleImage length) 128 16 ∧
      IsMadt (sampleImage length) 16 [[0, 8, 1, 2, 1, 0, 0, 0]] := by
  have hroot : UInt64.ofNat (rootAddress (sampleImage length) 128) = 80 ∧
      entrySize (sampleImage length) 128 = 8 ∧ tableLength (sampleImage length) 80 = 44 ∧
      rootSignature (sampleImage length) 128 = xsdtSignature ∧
      tableAddress (sampleImage length) 80 8 0 = 16 := by
    rcases h with rfl | rfl <;> decide +kernel
  have hbytes : (sampleImage length).bytes 80 4 = xsdtSignature ∧
      ((sampleImage length).bytes 80 44).sum = 0 ∧
      (sampleImage length).bytes 16 4 = apicSignature ∧ tableLength (sampleImage length) 16 = 52 ∧
      ((sampleImage length).bytes 16 52).sum = 0 ∧
      (sampleImage length).bytes 60 8 = [0, 8, 1, 2, 1, 0, 0, 0] := by
    rcases h with rfl | rfl <;> decide +kernel
  obtain ⟨haddress, hsize, hlength, hsignature, htable⟩ := hroot
  obtain ⟨hxsdt, hsum, hapic, hlength', hsum', hentry⟩ := hbytes
  have hcount : entryCount (sampleImage length) 80 8 = 1 := by
    rw [entryCount, hlength]
    rfl
  have hreadable (n : ℕ) (hn : n ≤ 64) (p : UInt64) (hp : p.toNat ≤ 80) :
      Readable (sampleImage length) p n := sampleImage_readable (by omega)
  constructor
  · rw [IsRootOf, haddress, hsize, hsignature]
    refine ⟨⟨⟨?_, ?_, ?_⟩, ?_⟩, hxsdt, ?_, fun i hi _ => ?_, ?_⟩
    · rw [hlength]; decide
    · rw [hlength]; decide
    · rw [hlength, hsum]
    · rw [hlength]; exact hreadable 44 (by decide) 80 (by decide)
    · rw [hlength]; decide
    · obtain rfl : i = 0 := by omega
      rw [htable]
      exact hreadable 36 (by decide) 16 (by decide)
    · rw [hcount]
      exact .here (by rw [htable]; decide) (by rw [htable]; rfl) hapic
  · refine ⟨hapic, ⟨?_, ?_, ?_⟩, ⟨⟨fun d hd => ?_, hentry⟩, ?_, ?_⟩⟩
    · rw [hlength']; decide
    · rw [hlength']; decide
    · rw [hlength', hsum']
    · rw [mem_singleton.mp hd]
      exact ⟨by decide, 8, rfl, rfl⟩
    · rw [hlength']; exact hreadable 52 (by decide) 16 (by decide)
    · rw [hlength']; rfl

/-- The MADT of the image says that there is one processor, with local APIC 2. -/
theorem acpi_discover_decodes_sample :
    outcome (acpiDiscover (sampleImage 36) 128) cleared =
      (.ok (), decoded (sampleImage 36) 16 [[0, 8, 1, 2, 1, 0, 0, 0]]) := by
  have hlength : field (sampleImage 36) 128 20 4 = 36 := by decide +kernel
  have hsound : Sound (sampleImage 36) 128 36 4096 (field (sampleImage 36) 128 20 4) := by
    rw [hlength]
    exact ⟨⟨le_rfl, by decide, by decide +kernel⟩, sampleImage_readable (by decide)⟩
  have hrsdp : IsRsdp (sampleImage 36) 128 :=
    ⟨by decide, sampleImage_readable (by decide), by decide +kernel, by decide +kernel,
      fun _ => hsound, by decide +kernel⟩
  obtain ⟨hroot, hmadt⟩ := sampleImage_tables (Or.inl rfl)
  exact (acpi_discover_decodes (sampleImage 36) 128 16 _ cleared hrsdp hroot hmadt).1
    ⟨by decide, by decide, by decide⟩

/-- An RSDP of 4097 bytes whose checksums are right, with a root table and a MADT that
nothing is wrong with, is refused for its length. -/
theorem acpi_discover_long_rsdp :
    let r := sampleImage 4097
    Readable r 128 4097 ∧ r.bytes 128 8 = rsdpSignature ∧ (r.bytes 128 20).sum = 0 ∧
    revision r 128 = 2 ∧ field r 128 20 4 = 4097 ∧ (r.bytes 128 4097).sum = 0 ∧
    field r 128 24 8 = 80 ∧ IsRootOf r 128 16 ∧ IsMadt r 16 [[0, 8, 1, 2, 1, 0, 0, 0]] ∧
    Fits [[0, 8, 1, 2, 1, 0, 0, 0]] ∧
    (outcome (acpiDiscover r 128) cleared).1 = .error (.status .badLength) := by
  intro r
  obtain ⟨hroot, hmadt⟩ := sampleImage_tables (Or.inr rfl)
  exact ⟨sampleImage_readable (by decide), by decide +kernel, by decide +kernel, by decide +kernel,
    by decide +kernel, by decide +kernel, by decide +kernel, hroot, hmadt,
    ⟨by decide, by decide, by decide⟩, by decide +kernel⟩

/-! ### Robustness -/

/-- The next entry is behind the last one and not past the end of the table. -/
lemma parseMadtRound_advances {offset : ℕ} (hlt : offset < n) :
    Triple (fun _ => True) (parseMadtRound r p n offset)
      (fun next _ => offset + 2 ≤ next ∧ next ≤ n) (fun _ _ => True) := by
  rw [parseMadtRound]
  refine readExact_bind le_rfl (fun _ _ _ _ => trivial) ?_
  rw [byteOf_bytes (by decide), byteOf_bytes (by decide), pure_bind, pure_bind]
  refine check_triple (fun _ _ _ => trivial) fun hgood => ?_
  have hnext : ∀ s : AcpiPlatformInfo, True →
      offset + 2 ≤ offset + (r.byteAt (p + UInt64.ofNat offset + UInt64.ofNat 1)).toNat ∧
        offset + (r.byteAt (p + UInt64.ofNat offset + UInt64.ofNat 1)).toNat ≤ n :=
    fun _ _ => by omega
  refine .ite (fun _ => .pure hnext) fun _ => ?_
  refine readExact_bind (by omega) (fun _ _ _ _ => trivial) ?_
  refine .bind (Q := fun _ _ => True) ?_ fun _ => .pure hnext
  exact Triple.iff_ends.mpr fun s _ => by
    cases outcome (parseMadtEntry _ _ _) s with
    | mk answer t => cases answer <;> trivial

/-- **Discovery is robust.**  Whatever the memory holds and whichever requests fail,
discovery returns, with `ACPI_OK` or another status, and uses no byte and no entry outside
of its buffers and arrays; the walk over the entries of a MADT goes on by two bytes at
least and not past the declared length; and on success the RSDP, the root table and the
MADT have lengths within their limits and add up to zero, and the body of the MADT is a
sequence of entries up to the declared length. -/
theorem acpi_discover_robust (r : AcpiReader) (rsdp : UInt64) (info : AcpiPlatformInfo) :
    (∀ stop info', outcome (acpiDiscover r rsdp) info = (.error stop, info') → IsStatus stop) ∧
    (∀ (p : UInt64) (n offset next : ℕ) (s s' : AcpiPlatformInfo), offset < n →
      outcome (parseMadtRound r p n offset) s = (.ok next, s') → offset + 2 ≤ next ∧ next ≤ n) ∧
    (∀ info', outcome (acpiDiscover r rsdp) info = (.ok (), info') →
      ∃ madt es, Trusted r rsdp madt es) := by
  have hdiscover := acpiDiscover_triple r rsdp info trivial
  refine ⟨fun stop info' hout => (hdiscover.2 stop info' hout).1,
    fun p n offset next s s' hlt hout => (parseMadtRound_advances hlt s trivial).1 next s' hout,
    fun info' hout => ?_⟩
  obtain ⟨madt, es, htrusted, -⟩ := hdiscover.1 () info' hout
  exact ⟨madt, es, htrusted⟩

end Acpi

end JoshOS
