import JoshOS.Block.Model
import JoshOS.Lib.Runs

/-!
The block cache shows the devices as they are.

* `Media`: what drivers keep to, in terms of the contents of their devices.
* `Coherent`: every valid entry holds the sector it is for, and no sector has two
  entries.
* `Coherent.step`, `Coherent.run`: kept by every call, as long as no driver read that
  fails has scribbled over a valid entry.
* `block_cache_transparent`: a read that succeeds yields what the device holds.
-/

namespace JoshOS

open Words

namespace Block

variable {ω δ : Type} [DecidableEq δ]

/-! ### Runs -/

/-- A call of `block_cache.h`. -/
inductive CacheCall (δ : Type) where
  | read (device : Option δ) (lba : UInt64) (sectorOut : Option Buffer)
  | write (device : Option δ) (lba : UInt64) (sector : Option Buffer)
  | flush (device : Option δ)
  | invalidate (device : Option δ)

/-- What a call answers: its status, and the buffer that a read was given. -/
abbrev CacheAnswer := BlockStatus × Option Buffer

/-- One call. -/
def step (devices : δ → BlockDevice ω) (s : Storage δ ω) :
    CacheCall δ → CacheAnswer × Storage δ ω
  | .read device lba sectorOut =>
    let r := blockCacheRead devices device lba.toNat sectorOut s
    ((r.1, r.2.1), r.2.2)
  | .write device lba sector =>
    let r := blockCacheWrite devices device lba.toNat sector s
    ((r.1, none), r.2)
  | .flush device =>
    let r := blockCacheFlush devices device s
    ((r.1, none), r.2)
  | .invalidate device => ((.ok, none), blockCacheInvalidate device s)

/-- The world `w'` has the same sectors as `w`. -/
def SameContent (devices : δ → BlockDevice ω) (content : ω → δ → ℕ → Buffer) (w w' : ω) : Prop :=
  ∀ d lba, ∀ j < (devices d).sectorSize, content w' d lba j = content w d lba j

/-- What drivers keep to.  Reading and flushing change no sector; a read that succeeds
fills the buffer with the sector.  A write that succeeds changes its sector and no
other, one that fails changes none. -/
structure Media (devices : δ → BlockDevice ω) (content : ω → δ → ℕ → Buffer) : Prop where
  read : ∀ d f, (devices d).read = some f → ∀ w lba buffer, lba < (devices d).sectorCount →
    SameContent devices content w (f w lba 1 buffer).2.2 ∧
      ((f w lba 1 buffer).1 = .ok → ∀ j < (devices d).sectorSize,
        (f w lba 1 buffer).2.1 j = content w d lba j)
  write : ∀ d f, (devices d).write = some f → ∀ w lba buffer, lba < (devices d).sectorCount →
    ((f w lba 1 buffer).1 ≠ .ok → SameContent devices content w (f w lba 1 buffer).2) ∧
      ((f w lba 1 buffer).1 = .ok → ∀ d' lba', ∀ j < (devices d').sectorSize,
        content (f w lba 1 buffer).2 d' lba' j =
          if d' = d ∧ lba' = lba then buffer j else content w d' lba' j)
  flush : ∀ d f, (devices d).flush = some f → ∀ w, SameContent devices content w (f w).2

/-- The condition on a call: a read that misses while the cache is full, and that comes as far
as the driver, either succeeds on the device or leaves the sector that the entry to be replaced
holds. -/
def Intact (devices : δ → BlockDevice ω) (s : Storage δ ω) : CacheCall δ → Prop
  | .read (some d) lba (some _) =>
    (∀ i, (s.cache.entries i).valid = true) → findEntry s.cache d lba.toNat = none →
      (devices d).sectorSize ≠ 0 → (devices d).sectorSize ≤ blockCacheMaxSector →
      lba.toNat < (devices d).sectorCount → ∀ f, (devices d).read = some f →
        let entry := s.cache.entries (victimEntry s.cache)
        let r := f s.world lba.toNat 1 entry.data
        r.1 = .ok ∨ ∀ j < (devices entry.device).sectorSize, r.2.1 j = entry.data j
  | _ => True

/-- Every valid entry holds its sector, and no sector has two entries. -/
structure Coherent (devices : δ → BlockDevice ω) (content : ω → δ → ℕ → Buffer)
    (s : Storage δ ω) : Prop where
  holds : ∀ i, (s.cache.entries i).valid = true →
    ∀ j < (devices (s.cache.entries i).device).sectorSize, (s.cache.entries i).data j =
      content s.world (s.cache.entries i).device (s.cache.entries i).lba j
  unique : ∀ i j, (s.cache.entries i).valid = true → (s.cache.entries j).valid = true →
    (s.cache.entries i).device = (s.cache.entries j).device →
    (s.cache.entries i).lba = (s.cache.entries j).lba → i = j

variable {devices : δ → BlockDevice ω} {content : ω → δ → ℕ → Buffer} {s : Storage δ ω}
  {cache : BlockCache δ} {w w' : ω} {d : δ} {lba : ℕ} {i : Fin blockCacheEntries} {data : Buffer}

/-! ### Searching -/

lemma findEntry_eq_some (h : findEntry cache d lba = some i) :
    (cache.entries i).valid = true ∧ (cache.entries i).device = d ∧
      (cache.entries i).lba = lba := by
  simpa using List.find?_some h

lemma findEntry_eq_none (h : findEntry cache d lba = none) (i : Fin blockCacheEntries) :
    ¬ ((cache.entries i).valid = true ∧ (cache.entries i).device = d ∧
      (cache.entries i).lba = lba) := by
  simpa using List.find?_eq_none.mp h i (List.mem_finRange i)

omit [DecidableEq δ] in
/-- The loop of `victim_entry` stops at the first entry that is not valid. -/
lemma valid_of_victimFrom {victim : Fin blockCacheEntries} {oldest : ℕ}
    {is : List (Fin blockCacheEntries)}
    (h : (cache.entries (victimFrom cache victim oldest is)).valid = true) :
    ∀ i ∈ is, (cache.entries i).valid = true := by
  induction is generalizing victim oldest with
  | nil => simp
  | cons i is ih =>
    rw [victimFrom] at h
    split at h
    case isTrue hinvalid =>
      rw [hinvalid] at h
      exact absurd h (by simp)
    case isFalse hvalid =>
      have hrest : ∀ j ∈ is, (cache.entries j).valid = true := by
        split at h
        · exact ih h
        · exact ih h
      exact List.forall_mem_cons.mpr ⟨by simpa using hvalid, hrest⟩

omit [DecidableEq δ] in
/-- A valid entry is replaced only when the cache is full. -/
lemma full_of_victim_valid (h : (cache.entries (victimEntry cache)).valid = true)
    (i : Fin blockCacheEntries) : (cache.entries i).valid = true :=
  valid_of_victimFrom h i (List.mem_finRange i)

/-! ### Requests -/

lemma requestInRange_one (device : BlockDevice ω) (lba : ℕ) :
    requestInRange device lba 1 = true ↔ lba < device.sectorCount := by
  rw [requestInRange, if_neg Nat.one_ne_zero]
  split
  · simp
    omega
  · simp
    omega

/-- What `block_read` does to one sector. -/
lemma blockRead_cases (device : BlockDevice ω) (lba : ℕ) (buffer : Buffer) (w : ω) :
    (∃ status, status ≠ .ok ∧
      blockRead (some device) lba 1 (some buffer) w = (status, some buffer, w)) ∨
    ∃ f, device.read = some f ∧ lba < device.sectorCount ∧
      blockRead (some device) lba 1 (some buffer) w =
        ((f w lba 1 buffer).1, some (f w lba 1 buffer).2.1, (f w lba 1 buffer).2.2) := by
  rw [blockRead]
  cases hread : device.read with
  | none => exact .inl ⟨.badArgument, by simp, rfl⟩
  | some f =>
    simp only
    split
    case isTrue => exact .inl ⟨.outOfRange, by simp, rfl⟩
    case isFalse hrange =>
      exact .inr ⟨f, rfl, (requestInRange_one device lba).mp (by simpa using hrange), rfl⟩

/-- What `block_write` does to one sector. -/
lemma blockWrite_cases (device : BlockDevice ω) (lba : ℕ) (buffer : Buffer) (w : ω) :
    (∃ status, status ≠ .ok ∧
      blockWrite (some device) lba 1 (some buffer) w = (status, w)) ∨
    ∃ f, device.write = some f ∧ lba < device.sectorCount ∧
      blockWrite (some device) lba 1 (some buffer) w = f w lba 1 buffer := by
  rw [blockWrite]
  cases hwritable : device.writable with
  | false => exact .inl ⟨.readOnly, by simp, by simp⟩
  | true =>
    cases hwrite : device.write with
    | none => exact .inl ⟨.readOnly, by simp, rfl⟩
    | some f =>
      simp only
      split
      case isTrue => exact .inl ⟨.outOfRange, by simp, rfl⟩
      case isFalse hrange =>
        exact .inr ⟨f, rfl, (requestInRange_one device lba).mp (by simpa using hrange), rfl⟩

/-! ### One entry changes -/

omit [DecidableEq δ] in
/-- Only entry `i` changes, to `e`; the other valid entries keep their sectors. -/
lemma Coherent.update {s' : Storage δ ω} {e : BlockCacheEntry δ} (h : Coherent devices content s)
    (hs : s'.cache.entries = Function.update s.cache.entries i e)
    (hothers : ∀ j, j ≠ i → (s.cache.entries j).valid = true →
      ∀ k < (devices (s.cache.entries j).device).sectorSize,
        content s'.world (s.cache.entries j).device (s.cache.entries j).lba k =
          content s.world (s.cache.entries j).device (s.cache.entries j).lba k)
    (hself : e.valid = true → ∀ k < (devices e.device).sectorSize,
      e.data k = content s'.world e.device e.lba k)
    (hfresh : e.valid = true → ∀ j, j ≠ i → (s.cache.entries j).valid = true →
      (s.cache.entries j).device = e.device → (s.cache.entries j).lba ≠ e.lba) :
    Coherent devices content s' := by
  have hi : s'.cache.entries i = e := by rw [hs, Function.update_self]
  have hj : ∀ j, j ≠ i → s'.cache.entries j = s.cache.entries j := fun j hne => by
    rw [hs, Function.update_of_ne hne]
  refine ⟨fun j hvalid k hk => ?_, fun j k hvj hvk hdev hlba => ?_⟩
  · by_cases hji : j = i
    · rw [hji, hi] at hvalid hk ⊢
      exact hself hvalid k hk
    · rw [hj j hji] at hvalid hk ⊢
      rw [hothers j hji hvalid k hk]
      exact h.holds j hvalid k hk
  · by_cases hji : j = i <;> by_cases hki : k = i
    · rw [hji, hki]
    · rw [hji, hi, hj k hki] at hdev hlba
      rw [hji, hi] at hvj
      rw [hj k hki] at hvk
      exact absurd hlba.symm (hfresh hvj k hki hvk hdev.symm)
    · rw [hki, hi, hj j hji] at hdev hlba
      rw [hki, hi] at hvk
      rw [hj j hji] at hvj
      exact absurd hlba (hfresh hvk j hji hvj hdev)
    · rw [hj j hji] at hvj hdev hlba
      rw [hj k hki] at hvk hdev hlba
      exact h.unique j k hvj hvk hdev hlba

omit [DecidableEq δ] in
/-- The world moves on without touching a sector. -/
lemma Coherent.sameContent (h : Coherent devices content s)
    (hw : SameContent devices content s.world w) :
    Coherent devices content { s with world := w } :=
  ⟨fun i hvalid k hk => (h.holds i hvalid k hk).trans (hw _ _ k hk).symm, h.unique⟩

/-! ### The calls -/

/-- How `block_cache_read` ends: refused, with a hit, with a miss that the driver
serves, or with a miss on which the driver fails. -/
inductive ReadOutcome (devices : δ → BlockDevice ω) (d : δ) (lba : ℕ) (out : Buffer)
    (s : Storage δ ω) : BlockStatus × Option Buffer × Storage δ ω → Prop
  | refused (status : BlockStatus) (h : status ≠ .ok) :
      ReadOutcome devices d lba out s (status, some out, s)
  | hit (i : Fin blockCacheEntries) (hfind : findEntry s.cache d lba = some i)
      (s' : Storage δ ω) (hworld : s'.world = s.world)
      (hs : s'.cache.entries = Function.update s.cache.entries i
        { s.cache.entries i with age := wrap64 (s.cache.clock + 1) }) :
      ReadOutcome devices d lba out s
        (.ok, some (copyBytes out (s.cache.entries i).data (devices d).sectorSize), s')
  | served (f : BlockReadFn ω) (data : Buffer) (s' : Storage δ ω)
      (hfind : findEntry s.cache d lba = none) (hf : (devices d).read = some f)
      (hrange : lba < (devices d).sectorCount)
      (hrun : f s.world lba 1 (s.cache.entries (victimEntry s.cache)).data =
        (.ok, data, s'.world))
      (hs : s'.cache.entries = Function.update s.cache.entries (victimEntry s.cache)
        ⟨true, d, lba, wrap64 (s.cache.clock + 1), data⟩) :
      ReadOutcome devices d lba out s
        (.ok, some (copyBytes out data (devices d).sectorSize), s')
  | failed (f : BlockReadFn ω) (status : BlockStatus) (data : Buffer) (s' : Storage δ ω)
      (hsize : (devices d).sectorSize ≠ 0 ∧ (devices d).sectorSize ≤ blockCacheMaxSector)
      (hfind : findEntry s.cache d lba = none) (hf : (devices d).read = some f)
      (hrange : lba < (devices d).sectorCount) (hstatus : status ≠ .ok)
      (hrun : f s.world lba 1 (s.cache.entries (victimEntry s.cache)).data =
        (status, data, s'.world))
      (hs : s'.cache.entries = Function.update s.cache.entries (victimEntry s.cache)
        { s.cache.entries (victimEntry s.cache) with data := data }) :
      ReadOutcome devices d lba out s (status, some out, s')

lemma blockCacheRead_outcome (devices : δ → BlockDevice ω) (d : δ) (lba : ℕ) (out : Buffer)
    (s : Storage δ ω) :
    ReadOutcome devices d lba out s (blockCacheRead devices (some d) lba (some out) s) := by
  rw [blockCacheRead]
  simp only
  split
  case isTrue => exact .refused .badArgument (by simp)
  case isFalse hsize =>
    rw [not_or, not_lt] at hsize
    split
    case h_1 i hfind => exact .hit i hfind _ rfl rfl
    case h_2 hfind =>
      rcases blockRead_cases (devices d) lba (s.cache.entries (victimEntry s.cache)).data
        s.world with ⟨status, hstatus, heq⟩ | ⟨f, hf, hrange, heq⟩
      · rw [heq]
        cases status with
        | ok => exact absurd rfl hstatus
        | _ =>
          simp only [Option.getD_some, Function.update_eq_self]
          exact .refused _ hstatus
      · rw [heq]
        rcases hrun : f s.world lba 1 (s.cache.entries (victimEntry s.cache)).data with
          ⟨status, data, world⟩
        cases status with
        | ok => exact .served f data _ hfind hf hrange hrun rfl
        | _ => exact .failed f _ data _ hsize hfind hf hrange (by simp) hrun rfl

/-- `block_cache_read` keeps the cache coherent. -/
lemma Coherent.read (hm : Media devices content) (h : Coherent devices content s) (d : δ)
    (lba : UInt64) (out : Buffer) (hintact : Intact devices s (.read (some d) lba (some out))) :
    Coherent devices content (blockCacheRead devices (some d) lba.toNat (some out) s).2.2 := by
  generalize hr : blockCacheRead devices (some d) lba.toNat (some out) s = r
  have hcases := blockCacheRead_outcome devices d lba.toNat out s
  rw [hr] at hcases
  cases hcases with
  | refused status hstatus => exact h
  | hit i hfind s' hworld hs =>
    refine h.update hs (fun _ _ _ _ _ => by rw [hworld]) (fun hvalid k hk => ?_)
      fun hvalid j hne hj hdev hlba => hne (h.unique j i hj hvalid hdev hlba)
    rw [hworld]
    exact h.holds i hvalid k hk
  | served f data s' hfind hf hrange hrun hs =>
    obtain ⟨hsame, hok⟩ := hm.read d f hf s.world lba.toNat
      (s.cache.entries (victimEntry s.cache)).data hrange
    rw [hrun] at hsame hok
    refine h.update hs (fun j _ _ k hk => hsame _ _ k hk) (fun _ k hk => ?_)
      fun _ j _ hj hdev hlba => findEntry_eq_none hfind j ⟨hj, hdev, hlba⟩
    exact (hok rfl k hk).trans (hsame d lba.toNat k hk).symm
  | failed f status data s' hsize hfind hf hrange hstatus hrun hs =>
    obtain ⟨hsame, -⟩ := hm.read d f hf s.world lba.toNat
      (s.cache.entries (victimEntry s.cache)).data hrange
    rw [hrun] at hsame
    refine h.update hs (fun j _ _ k hk => hsame _ _ k hk) (fun hvalid k hk => ?_)
      fun hvalid j hne hj hdev hlba => hne (h.unique j _ hj hvalid hdev hlba)
    -- the entry was valid, so that the cache was full and the condition applies
    have hkept := hintact (full_of_victim_valid hvalid) hfind hsize.1 hsize.2 hrange f hf
    simp only [hrun] at hkept
    calc data k
        = (s.cache.entries (victimEntry s.cache)).data k := hkept.resolve_left hstatus k hk
      _ = content s.world _ _ k := h.holds _ hvalid k hk
      _ = content s'.world _ _ k := (hsame _ _ k hk).symm

/-- `block_cache_write` keeps the cache coherent. -/
lemma Coherent.write (hm : Media devices content) (h : Coherent devices content s) (d : δ)
    (lba : ℕ) (data : Buffer) :
    Coherent devices content (blockCacheWrite devices (some d) lba (some data) s).2 := by
  rw [blockCacheWrite]
  simp only
  split
  case isTrue => exact h
  case isFalse =>
    rcases blockWrite_cases (devices d) lba data s.world with ⟨status, hstatus, heq⟩ |
      ⟨f, hf, hrange, heq⟩
    · rw [heq]
      cases status with
      | ok => exact absurd rfl hstatus
      | _ => exact h
    · obtain ⟨hfail, hok⟩ := hm.write d f hf s.world lba data hrange
      rw [heq]
      rcases hrun : f s.world lba 1 data with ⟨status, world⟩
      rw [hrun] at hfail hok
      cases status with
      | ok =>
        have hnew := hok rfl
        -- every other entry is for another sector, whether this one was cached or not
        have hfresh : ∀ j, j ≠ (findEntry s.cache d lba).getD (victimEntry s.cache) →
            (s.cache.entries j).valid = true → (s.cache.entries j).device = d →
            (s.cache.entries j).lba ≠ lba := by
          intro j hne hj hdev hlba
          cases hfind : findEntry s.cache d lba with
          | none => exact findEntry_eq_none hfind j ⟨hj, hdev, hlba⟩
          | some i =>
            obtain ⟨hvalid, hd, hl⟩ := findEntry_eq_some hfind
            rw [hfind, Option.getD_some] at hne
            exact hne (h.unique j i hj hvalid (hdev.trans hd.symm) (hlba.trans hl.symm))
        refine h.update rfl (fun j hne hj k hk => ?_) (fun _ k hk => ?_) fun _ => hfresh
        · refine (hnew _ _ k hk).trans (if_neg ?_)
          rintro ⟨hdev, hlba⟩
          exact hfresh j hne hj hdev hlba
        · have hcopy : k < (devices d).sectorSize := hk
          show copyBytes _ data _ k = _
          rw [copyBytes, if_pos hcopy]
          exact ((hnew d lba k hk).trans (if_pos ⟨rfl, rfl⟩)).symm
      | _ => exact h.sameContent (hfail (by simp))

omit [DecidableEq δ] in
/-- Entries that are no longer valid do no harm. -/
lemma Coherent.forget {s' : Storage δ ω} (h : Coherent devices content s)
    (hworld : s'.world = s.world)
    (hs : ∀ i, (s'.cache.entries i).valid = true → s'.cache.entries i = s.cache.entries i) :
    Coherent devices content s' := by
  refine ⟨fun i hvalid k hk => ?_, fun i j hi hj hdev hlba => ?_⟩
  · have hei := hs i hvalid
    rw [hei] at hvalid hk ⊢
    rw [hworld]
    exact h.holds i hvalid k hk
  · have hei := hs i hi
    have hej := hs j hj
    rw [hei] at hi hdev hlba
    rw [hej] at hj hdev hlba
    exact h.unique i j hi hj hdev hlba

/-- `block_flush` changes no sector. -/
lemma blockFlush_same (hm : Media devices content) (d : δ) (w : ω) :
    SameContent devices content w (blockFlush (some (devices d)) w).2 := by
  cases hflush : (devices d).flush with
  | none =>
    simp only [blockFlush, hflush]
    exact fun _ _ _ _ => rfl
  | some f =>
    simp only [blockFlush, hflush]
    exact hm.flush d f hflush w

/-- **The step lemma.** -/
theorem Coherent.step (hm : Media devices content) (h : Coherent devices content s)
    {call : CacheCall δ} (hintact : Intact devices s call) :
    Coherent devices content (step devices s call).2 := by
  cases call with
  | read device lba out =>
    cases device with
    | none => exact h
    | some d =>
      cases out with
      | none => exact h
      | some out => exact h.read hm d lba out hintact
  | write device lba data =>
    cases device with
    | none => exact h
    | some d =>
      cases data with
      | none => exact h
      | some data => exact h.write hm d lba.toNat data
  | flush device =>
    cases device with
    | none => exact h
    | some d =>
      exact h.sameContent (blockFlush_same hm d s.world)
  | invalidate device =>
    refine h.forget rfl fun i hvalid => ?_
    simp only [Block.step, blockCacheInvalidate] at hvalid ⊢
    split at hvalid
    case isTrue => simp at hvalid
    case isFalse hother => exact if_neg hother

omit [DecidableEq δ] in
/-- An empty cache is coherent. -/
lemma coherent_init (cache : BlockCache δ) (w : ω) :
    Coherent devices content ⟨blockCacheInit cache, w⟩ :=
  ⟨fun _ hvalid => by simp [blockCacheInit] at hvalid,
    fun _ _ hvalid => by simp [blockCacheInit] at hvalid⟩

/-- **The run lemma.** -/
theorem Coherent.run (hm : Media devices content) (h : Coherent devices content s)
    {calls : List (CacheCall δ)}
    (hlegal : Runs.Legal (Block.step devices) (Intact devices) s calls) :
    Coherent devices content (Runs.final (Block.step devices) s calls) :=
  Runs.legal_induction (Block.step devices) (fun _ _ ht hrule => ht.step hm hrule) h hlegal

/-! ### The result -/

/-- **The cache is transparent.**  After every run from an empty cache in which no
driver read fails on a full cache with a valid entry overwritten, a read that succeeds
yields the sector as it is on the device. -/
theorem block_cache_transparent {ω δ : Type} [DecidableEq δ] {devices : δ → BlockDevice ω}
    {content : ω → δ → ℕ → Buffer} (hm : Media devices content) (cache : BlockCache δ) (w : ω)
    (calls : List (CacheCall δ))
    (hintact : Runs.Legal (step devices) (Intact devices) ⟨blockCacheInit cache, w⟩ calls)
    (d : δ) (lba : UInt64) (out : Buffer) :
    let s := Runs.final (step devices) ⟨blockCacheInit cache, w⟩ calls
    let r := blockCacheRead devices (some d) lba.toNat (some out) s
    r.1 = .ok → ∃ sector, r.2.1 = some sector ∧
      ∀ j < (devices d).sectorSize, sector j = content r.2.2.world d lba.toNat j := by
  intro s r hr
  have hco : Coherent devices content s := (coherent_init cache w).run hm hintact
  have hcases := blockCacheRead_outcome devices d lba.toNat out s
  change ReadOutcome devices d lba.toNat out s r at hcases
  generalize r = r' at hcases hr
  cases hcases with
  | refused status hstatus => exact absurd hr hstatus
  | hit i hfind s' hworld hs =>
    obtain ⟨hvalid, hdev, hlba⟩ := findEntry_eq_some hfind
    refine ⟨_, rfl, fun j hj => ?_⟩
    have hholds := hco.holds i hvalid j (by rwa [hdev])
    rw [hdev, hlba] at hholds
    rw [hworld, ← hholds]
    exact if_pos hj
  | served f data s' hfind hf hrange hrun hs =>
    obtain ⟨hsame, hok⟩ := hm.read d f hf s.world lba.toNat
      (s.cache.entries (victimEntry s.cache)).data hrange
    rw [hrun] at hsame hok
    refine ⟨_, rfl, fun j hj => ?_⟩
    rw [hsame d lba.toNat j hj, ← hok rfl j hj]
    exact if_pos hj
  | failed f status data s' hsize hfind hf hrange hstatus hrun hs => exact absurd hr hstatus

/-! ### A device with a bad sector -/

/-- A driver that fails on sector 8 after it has written to the buffer; every byte of
another sector is the number of the sector. -/
def flakyRead : BlockReadFn Unit := fun w lba _ buffer =>
  if lba = 8 then (.ioError, fun _ => 0xff, w)
  else (.ok, fun j => if j < 512 then UInt8.ofNat lba else buffer j, w)

/-- The device of this driver, with sixteen sectors. -/
def flakyDevices (_ : Unit) : BlockDevice Unit where
  sectorSize := 512
  sectorCount := 16
  writable := false
  read := some flakyRead
  write := none
  flush := none

/-- What its sectors hold. -/
def flakyContent (_ _ : Unit) (lba : ℕ) : Buffer := fun _ => UInt8.ofNat lba

/-- A cache before `block_cache_init`. -/
def blankCache : BlockCache Unit := ⟨0, 0, 0, fun _ => ⟨false, (), 0, 0, fun _ => 0⟩⟩

lemma flaky_media : Media flakyDevices flakyContent := by
  refine ⟨fun d f hf w lba buffer hlba => ?_, fun d f hf => by simp [flakyDevices] at hf,
    fun d f hf => by simp [flakyDevices] at hf⟩
  obtain rfl : flakyRead = f := by simpa [flakyDevices] using hf
  rw [flakyRead]
  split
  · exact ⟨fun _ _ _ _ => rfl, by simp⟩
  · exact ⟨fun _ _ _ _ => rfl, fun _ j hj => if_pos hj⟩

/-- A sector that has replaced another one in a full cache is read again from the cache and
agrees with the device. -/
theorem block_cache_transparent_hit :
    let s := Runs.final (step flakyDevices) ⟨blockCacheInit blankCache, ()⟩
      ([0, 1, 2, 3, 4, 5, 6, 7, 9].map fun lba => .read (some ()) lba (some fun _ => 0))
    let r := blockCacheRead flakyDevices (some ()) 9 (some fun _ => 0) s
    s.cache.misses = 9 ∧ r.1 = .ok ∧ r.2.2.cache.hits = 1 ∧
      ∃ sector, r.2.1 = some sector ∧ sector 7 = flakyContent () () 9 7 := by
  intro s r
  have hgood {s} (lba : UInt64) (hne : lba.toNat ≠ 8) :
      Intact flakyDevices s (.read (some ()) lba (some fun _ => 0)) := by
    intro _ _ _ _ _ f hf
    obtain rfl : flakyRead = f := by simpa [flakyDevices] using hf
    simp [flakyRead, hne]
  have hlegal : Runs.Legal (step flakyDevices) (Intact flakyDevices)
      ⟨blockCacheInit blankCache, ()⟩
      ([0, 1, 2, 3, 4, 5, 6, 7, 9].map fun lba => .read (some ()) lba (some fun _ => 0)) := by
    repeat' apply And.intro
    all_goals first | trivial | exact hgood _ (by decide)
  obtain ⟨sector, hout, hsector⟩ := block_cache_transparent flaky_media blankCache () _ hlegal () 9
    (fun _ => 0) (by decide +kernel)
  exact ⟨by decide +kernel, by decide +kernel, by decide +kernel, sector, hout,
    hsector 7 (by decide)⟩

/-- Eight sectors fill the cache; the read of the bad sector fails and leaves its bytes
in the entry of sector 0, which stays valid: the next read of sector 0 succeeds with
the wrong bytes. -/
theorem block_cache_stale_victim :
    let s := Runs.final (step flakyDevices) ⟨blockCacheInit blankCache, ()⟩
      ([0, 1, 2, 3, 4, 5, 6, 7, 8].map fun lba => .read (some ()) lba (some fun _ => 0))
    let r := blockCacheRead flakyDevices (some ()) 0 (some fun _ => 0) s
    Media flakyDevices flakyContent ∧ r.1 = .ok ∧ r.2.1.map (· 0) = some 0xff ∧
      flakyContent r.2.2.world () 0 0 = 0 :=
  ⟨flaky_media, by decide +kernel, by decide +kernel, rfl⟩

end Block

end JoshOS
