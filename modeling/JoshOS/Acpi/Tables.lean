import JoshOS.Acpi.Model

/-!
What the readers of `acpi.c` return, and why they stop.

* `Readable`: a region of the memory image that every request can be answered in.
* `readExact_triple`, `checksumRegion_triple`, `readSdtHeader_triple`: a value is what the
  image says, and an error is a status with a reason.
-/

namespace JoshOS

open List Hoare Hoare.Triple Bytes Words

namespace Acpi

variable {r : AcpiReader} {p : UInt64} {n i k offset width capacity : ℕ} {α : Type}
  {P : AcpiPlatformInfo → Prop} {Q : α → AcpiPlatformInfo → Prop}
  {E : AcpiStop → AcpiPlatformInfo → Prop}

/-! ### The memory image -/

@[simp] lemma length_bytes (r : AcpiReader) (p : UInt64) (n : ℕ) : (r.bytes p n).length = n := by
  rw [AcpiReader.bytes, length_map, length_range]

lemma add_ofNat_add (p : UInt64) (i k : ℕ) :
    p + UInt64.ofNat (i + k) = p + UInt64.ofNat i + UInt64.ofNat k := by
  rw [UInt64.ofNat_add, UInt64.add_assoc]

/-- A region is one part after the other. -/
lemma bytes_add (r : AcpiReader) (p : UInt64) (i k : ℕ) :
    r.bytes p (i + k) = r.bytes p i ++ r.bytes (p + UInt64.ofNat i) k := by
  rw [AcpiReader.bytes, range_add, map_append, map_map]
  refine congrArg (r.bytes p i ++ ·) (map_congr_left fun j _ => ?_)
  rw [Function.comp_apply, add_ofNat_add]

/-- A part of a region. -/
lemma take_drop_bytes (h : offset + width ≤ n) :
    ((r.bytes p n).drop offset).take width = r.bytes (p + UInt64.ofNat offset) width := by
  obtain ⟨rest, rfl⟩ := Nat.exists_eq_add_of_le h
  rw [bytes_add, bytes_add, append_assoc, drop_left' (length_bytes ..),
    take_left' (length_bytes ..)]

lemma take_bytes (h : k ≤ n) : (r.bytes p n).take k = r.bytes p k := by
  obtain ⟨rest, rfl⟩ := Nat.exists_eq_add_of_le h
  rw [bytes_add, take_left' (length_bytes ..)]

lemma getElem?_bytes (h : i < n) :
    (r.bytes p n)[i]? = some (r.byteAt (p + UInt64.ofNat i)) := by
  rw [AcpiReader.bytes, getElem?_map, getElem?_range h, Option.map_some]

/-- The little-endian number of `width` bytes at `offset` in a table. -/
def field (r : AcpiReader) (p : UInt64) (offset width : ℕ) : ℕ :=
  ofLE (r.bytes (p + UInt64.ofNat offset) width)

/-- Every request inside of the region, which does not wrap around, is answered. -/
structure Readable (r : AcpiReader) (p : UInt64) (n : ℕ) : Prop where
  no_wrap : p.toNat + n ≤ 2 ^ 64
  answered : ∀ i k, i + k ≤ n → r.fails (p + UInt64.ofNat i) k = false

/-- `read_exact` returns what it was asked for. -/
structure Answered (r : AcpiReader) (p : UInt64) (n : ℕ) : Prop where
  no_wrap : ¬ (n ≠ 0 ∧ uint64Max - p.toNat < n - 1)
  answered : r.fails p n = false

lemma Readable.answered_at (h : Readable r p n) (hle : i + k ≤ n) :
    Answered r (p + UInt64.ofNat i) k := by
  refine ⟨fun ⟨hk, hwrap⟩ => ?_, h.answered i k hle⟩
  have hbound := h.no_wrap
  have hadd : (p + UInt64.ofNat i).toNat = p.toNat + i := by
    rw [UInt64.toNat_add, UInt64.toNat_ofNat', Nat.add_mod_mod, Nat.mod_eq_of_lt (by omega)]
  rw [hadd, uint64Max] at hwrap
  omega

/-! ### Buffers -/

/-- The error is a status. -/
def IsStatus (e : AcpiStop) : Prop := ∃ status, e = .status status

lemma byteOf_bytes (h : i < n) :
    byteOf (r.bytes p n) i = pure (r.byteAt (p + UInt64.ofNat i)).toNat := by
  rw [byteOf, getElem?_bytes h]

lemma readLe_bytes (h : offset + width ≤ n) :
    readLe width (r.bytes p n) offset = pure (field r p offset width) := by
  rw [readLe, if_neg (by rw [length_bytes]; omega), take_drop_bytes h, field]

lemma bytesEqual_bytes {right : List UInt8} (h : right.length ≤ n) :
    bytesEqual (r.bytes p n) right = pure (decide (r.bytes p right.length = right)) := by
  rw [bytesEqual, if_neg (by rw [length_bytes]; omega), take_bytes h]

lemma fail_triple {status : AcpiStatus} (h : ∀ s, P s → E (.status status) s) :
    Triple P (fail status : Discovery α) Q E := .throw h

/-- A check that returns with a status. -/
lemma check_triple {c : Prop} [Decidable c] {status : AcpiStatus} {x : Discovery α}
    (hbad : c → ∀ s, P s → E (.status status) s) (hgood : ¬ c → Triple P x Q E) :
    Triple P (if c then fail status else x) Q E := .guard hbad hgood

/-- **`read_exact`** returns the bytes of the image, or fails because it was not
answered. -/
lemma readExact_triple (hcap : n ≤ capacity) :
    Triple P (readExact r p capacity n) (fun b s => P s ∧ b = r.bytes p n)
      (fun stop _ => IsStatus stop ∧ ¬ Answered r p n) := by
  rw [readExact]
  refine check_triple (fun hwrap s _ => ⟨⟨_, rfl⟩, fun h => h.no_wrap hwrap⟩) fun hwrap => ?_
  rw [if_neg (Nat.not_lt.mpr hcap)]
  refine check_triple (fun hfail s _ => ⟨⟨_, rfl⟩, fun h => ?_⟩) fun hfail => ?_
  · rw [h.answered] at hfail
    cases hfail
  · exact .pure fun s hs => ⟨hs, rfl⟩

lemma readExact_bind {f : List UInt8 → Discovery α} (hcap : n ≤ capacity)
    (hE : ∀ stop s, IsStatus stop → ¬ Answered r p n → E stop s)
    (hf : Triple P (f (r.bytes p n)) Q E) : Triple P (readExact r p capacity n >>= f) Q E := by
  refine .bind_conseq (readExact_triple hcap) (fun stop s h => hE stop s h.1 h.2) fun b =>
    .of_pre fun s₀ ⟨hs₀, hb⟩ => ?_
  subst hb
  exact hf.conseq (fun s hs => hs ▸ hs₀) (fun _ _ h => h) fun _ _ h => h

/-! ### Checksums -/

lemma foldl_add_eq (bytes : List UInt8) (sum : UInt8) :
    bytes.foldl (· + ·) sum = sum + bytes.sum := by
  induction bytes generalizing sum with
  | nil => rw [foldl_nil, sum_nil, add_zero]
  | cons b bytes ih => rw [foldl_cons, ih, sum_cons, add_assoc]

/-- What holds after the bytes up to an offset: the offset is inside of the region, and
the sum is theirs. -/
def Summed (P : AcpiPlatformInfo → Prop) (r : AcpiReader) (p : UInt64) (n : ℕ)
    (progress : ℕ × UInt8) (s : AcpiPlatformInfo) : Prop :=
  P s ∧ progress.1 ≤ n ∧ progress.2 = (r.bytes p progress.1).sum

/-- A round adds one chunk. -/
lemma checksumRound_triple {progress : ℕ × UInt8} (hlt : progress.1 < n) :
    Triple (Summed P r p n progress) (checksumRound r p n progress)
      (fun next s => n - next.1 < n - progress.1 ∧ Summed P r p n next s)
      (fun e _ => IsStatus e ∧ ¬ Readable r p n) := by
  obtain ⟨offset, sum⟩ := progress
  dsimp only at hlt ⊢
  rw [checksumRound]
  generalize hchunk : (if n - offset < 256 then n - offset else 256) = chunk
  have hbounds : 0 < chunk ∧ chunk ≤ 256 ∧ offset + chunk ≤ n := by
    rw [← hchunk]
    split_ifs <;> omega
  obtain ⟨hpos, hcap, hle⟩ := hbounds
  refine readExact_bind hcap (fun stop s h hno => ⟨h, fun hr => hno (hr.answered_at hle)⟩) ?_
  refine .pure fun s ⟨hs, _, hsum⟩ => ⟨?_, hs, hle, ?_⟩
  · dsimp only
    omega
  · dsimp only at hsum ⊢
    rw [foldl_add_eq, hsum, bytes_add, sum_append]

/-- **`checksum_region`** adds up the region. -/
lemma checksumRegion_triple :
    Triple P (checksumRegion r p n) (fun _ s => P s ∧ (r.bytes p n).sum = 0)
      (fun e _ => IsStatus e ∧ ¬ (Readable r p n ∧ (r.bytes p n).sum = 0)) := by
  have hloop : Triple (Summed P r p n (0, 0))
      (Hoare.whileFrom (fun progress : ℕ × UInt8 => progress.1 < n) (checksumRound r p n) .endless
        n (0, 0))
      (fun (last : ℕ × UInt8) s => decide (last.1 < n) = false ∧ Summed P r p n last s)
      (fun e _ => IsStatus e ∧ ¬ Readable r p n) :=
    .whileFrom (μ := fun progress : ℕ × UInt8 => n - progress.1)
      (fun progress htest => Nat.sub_pos_of_lt (of_decide_eq_true htest))
      (fun progress htest => checksumRound_triple (of_decide_eq_true htest)) (Nat.sub_le n 0)
  have hstart : ∀ s, P s → Summed P r p n (0, 0) s := fun s hs => ⟨hs, Nat.zero_le n, rfl⟩
  rw [checksumRegion]
  refine .bind (hloop.conseq hstart (fun _ _ h => h)
    fun e s h => ⟨h.1, fun hr => h.2 hr.1⟩) fun last => ?_
  have hsum : ∀ s, decide (last.1 < n) = false ∧ Summed P r p n last s →
      P s ∧ last.2 = (r.bytes p n).sum := by
    rintro s ⟨hend, hs, hle, hlast⟩
    have hn : last.1 = n := by
      rw [decide_eq_false_iff_not] at hend
      omega
    exact ⟨hs, hn ▸ hlast⟩
  refine .ite (fun hzero => ?_) fun hzero => ?_
  · exact .pure fun s hs => ⟨(hsum s hs).1, (hsum s hs).2 ▸ hzero⟩
  · exact fail_triple fun s hs => ⟨⟨_, rfl⟩, fun h => hzero ((hsum s hs).2.trans h.2)⟩

lemma checksumRegion_bind {f : Unit → Discovery α}
    (hE : ∀ stop s, IsStatus stop → ¬ (Readable r p n ∧ (r.bytes p n).sum = 0) → E stop s)
    (hf : (r.bytes p n).sum = 0 → Triple P (f ()) Q E) :
    Triple P (checksumRegion r p n >>= f) Q E := by
  refine .bind_conseq checksumRegion_triple (fun stop s h => hE stop s h.1 h.2) fun _ =>
    .of_pre fun s₀ ⟨hs₀, hsum⟩ => ?_
  exact (hf hsum).conseq (fun s hs => hs ▸ hs₀) (fun _ _ h => h) fun _ _ h => h

/-! ### System description tables -/

/-- The `n` bytes at `p` are within the limits of a table and add up to zero. -/
structure Checksummed (r : AcpiReader) (p : UInt64) (header limit n : ℕ) : Prop where
  header_le : header ≤ n
  le_limit : n ≤ limit
  sum : (r.bytes p n).sum = 0

/-- The length that a table declares. -/
def tableLength (r : AcpiReader) (p : UInt64) : ℕ := field r p 4 4

/-- A table that nothing is wrong with. -/
structure Sound (r : AcpiReader) (p : UInt64) (header limit n : ℕ) : Prop
    extends Checksummed r p header limit n where
  readable : Readable r p n

lemma Readable.answered_head (h : Readable r p n) (hle : k ≤ n) : Answered r p k := by
  have hanswer : Answered r (p + UInt64.ofNat 0) k := h.answered_at (by omega)
  simpa using hanswer

/-- **`read_sdt_header`** returns the header of a table in order. -/
lemma readSdtHeader_triple :
    Triple P (readSdtHeader r p)
      (fun b s => (P s ∧ b = r.bytes p acpiSdtHeaderSize) ∧
        Checksummed r p acpiSdtHeaderSize acpiMaxTableBytes (tableLength r p))
      (fun stop _ => IsStatus stop ∧
        ¬ Sound r p acpiSdtHeaderSize acpiMaxTableBytes (tableLength r p)) := by
  rw [readSdtHeader]
  refine readExact_bind le_rfl (fun stop s h hno => ⟨h, fun hs =>
    hno (hs.readable.answered_head hs.header_le)⟩) ?_
  rw [readLe32, readLe_bytes (by decide), pure_bind, ← tableLength]
  refine check_triple (fun hbad s _ => ⟨⟨_, rfl⟩, fun hs => ?_⟩) fun hgood => ?_
  · rcases hbad with hbad | hbad
    · exact absurd hs.header_le (Nat.not_le_of_lt hbad)
    · exact absurd hs.le_limit (Nat.not_le_of_lt hbad)
  · rw [not_or, Nat.not_lt, Nat.not_lt] at hgood
    refine checksumRegion_bind (fun stop s h hno => ⟨h, fun hs =>
      hno ⟨hs.readable, hs.sum⟩⟩) fun hsum => ?_
    exact .pure fun s hs => ⟨⟨hs, rfl⟩, hgood.1, hgood.2, hsum⟩

lemma readSdtHeader_bind {f : List UInt8 → Discovery α}
    (hE : ∀ stop s, IsStatus stop →
      ¬ Sound r p acpiSdtHeaderSize acpiMaxTableBytes (tableLength r p) → E stop s)
    (hf : Checksummed r p acpiSdtHeaderSize acpiMaxTableBytes (tableLength r p) →
      Triple P (f (r.bytes p acpiSdtHeaderSize)) Q E) :
    Triple P (readSdtHeader r p >>= f) Q E := by
  refine .bind_conseq readSdtHeader_triple (fun stop s h => hE stop s h.1 h.2) fun b =>
    .of_pre fun s₀ ⟨⟨hs₀, hb⟩, hsum⟩ => ?_
  subst hb
  exact (hf hsum).conseq (fun s hs => hs ▸ hs₀) (fun _ _ h => h) fun _ _ h => h

end Acpi

end JoshOS
