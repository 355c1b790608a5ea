import JoshOS.Block.Cache
import JoshOS.Lib.Recency

/-!
The block cache keeps the sectors used last.

* `recent`: the sectors in the order of their last successful use, from the trace of a run.
* `Effect`, `step_effect`: what a read or a write does to the keys, the stamps and the
  counters.
* `block_cache_lru`: the cache is an exact LRU set, and a read is a hit just when its sector
  is in it.
-/

namespace JoshOS

open List Function Words Recency

namespace Block

variable {ω δ : Type} [DecidableEq δ]

/-! ### What a run has used -/

/-- The call is a read or a write. -/
def IsAccess : CacheCall δ → Prop
  | .read .. | .write .. => True
  | .flush _ | .invalidate _ => False

/-- The sector that a call has used with success. -/
def accessed : CacheCall δ × CacheAnswer → Option (δ × ℕ)
  | (.read (some d) lba _, (.ok, _)) => some (d, lba.toNat)
  | (.write (some d) lba _, (.ok, _)) => some (d, lba.toNat)
  | _ => none

/-- The call is a read that has succeeded. -/
def isServed : CacheCall δ × CacheAnswer → Bool
  | (.read _ _ _, (.ok, _)) => true
  | _ => false

/-- The sectors used, most recent first, after one more call. -/
def use (l : List (δ × ℕ)) (e : CacheCall δ × CacheAnswer) : List (δ × ℕ) :=
  match accessed e with
  | some k => touch k l
  | none => l

/-- The sectors used in a run, most recent first, each once. -/
def recent (trace : List (CacheCall δ × CacheAnswer)) : List (δ × ℕ) := trace.foldl use []

/-! ### The scan for a victim -/

variable {devices : δ → BlockDevice ω} {s : Storage δ ω} {cache : BlockCache δ}

omit [DecidableEq δ] in
/-- Over entries that are all valid, the scan ends with the least age below `oldest`, or there
is none. -/
lemma victimFrom_least {victim : Fin blockCacheEntries} {oldest : ℕ}
    {is : List (Fin blockCacheEntries)} (hvalid : ∀ i ∈ is, (cache.entries i).valid = true) :
    (∀ i ∈ is, oldest ≤ (cache.entries i).age) ∧ victimFrom cache victim oldest is = victim ∨
      (cache.entries (victimFrom cache victim oldest is)).age < oldest ∧
        ∀ i ∈ is, (cache.entries (victimFrom cache victim oldest is)).age ≤
          (cache.entries i).age := by
  induction is generalizing victim oldest with
  | nil => exact .inl ⟨fun i hi => absurd hi not_mem_nil, rfl⟩
  | cons i is ih =>
    rw [forall_mem_cons] at hvalid
    rw [victimFrom, if_neg (by simp [hvalid.1])]
    by_cases hlt : (cache.entries i).age < oldest
    · rw [if_pos hlt]
      rcases @ih i (cache.entries i).age hvalid.2 with ⟨hle, heq⟩ | ⟨hyounger, hle⟩
      · rw [heq]
        exact .inr ⟨hlt, forall_mem_cons.mpr ⟨le_rfl, hle⟩⟩
      · exact .inr ⟨hyounger.trans hlt, forall_mem_cons.mpr ⟨hyounger.le, hle⟩⟩
    · rw [if_neg hlt]
      rcases @ih victim oldest hvalid.2 with ⟨hle, heq⟩ | ⟨hyounger, hle⟩
      · exact .inl ⟨forall_mem_cons.mpr ⟨Nat.not_lt.mp hlt, hle⟩, heq⟩
      · refine .inr ⟨hyounger, forall_mem_cons.mpr ⟨?_, hle⟩⟩
        exact hyounger.le.trans (Nat.not_lt.mp hlt)

/-- The keys and stamps of the valid entries. -/
def view (cache : BlockCache δ) (i : Fin blockCacheEntries) : Option ((δ × ℕ) × ℕ) :=
  if (cache.entries i).valid = true then
    some (((cache.entries i).device, (cache.entries i).lba), (cache.entries i).age)
  else none

omit [DecidableEq δ] in
lemma view_eq_none_iff {i : Fin blockCacheEntries} :
    view cache i = none ↔ (cache.entries i).valid = false := by
  rw [view]
  split <;> simp_all

omit [DecidableEq δ] in
lemma view_of_valid {i : Fin blockCacheEntries} (h : (cache.entries i).valid = true) :
    view cache i =
      some (((cache.entries i).device, (cache.entries i).lba), (cache.entries i).age) :=
  if_pos h

omit [DecidableEq δ] in
lemma view_key_iff {i : Fin blockCacheEntries} {d : δ} {lba : ℕ} :
    (view cache i).map Prod.fst = some (d, lba) ↔ (cache.entries i).valid = true ∧
      (cache.entries i).device = d ∧ (cache.entries i).lba = lba := by
  rw [view]
  split <;> simp_all

omit [DecidableEq δ] in
/-- **`victim_entry`** finds an entry that is not in use or, when there is none, the one with
the least age. -/
lemma victimEntry_spec (hage : ∀ i, ∀ a ∈ view cache i, a.2 < uint64Max) :
    view cache (victimEntry cache) = none ∨ (∀ j, view cache j ≠ none) ∧
      ∀ j, ∀ a ∈ view cache (victimEntry cache), ∀ b ∈ view cache j, a.2 ≤ b.2 := by
  cases hvictim : (cache.entries (victimEntry cache)).valid with
  | false => exact .inl (view_eq_none_iff.mpr hvictim)
  | true =>
    have hfull := full_of_victim_valid hvictim
    refine .inr ⟨fun j hnone => ?_, fun j a ha b hb => ?_⟩
    · rw [view_eq_none_iff, hfull j] at hnone
      cases hnone
    · rw [view_of_valid hvictim, Option.mem_some_iff] at ha
      have hb' := hb
      rw [view_of_valid (hfull j), Option.mem_some_iff] at hb'
      subst ha hb'
      rcases @victimFrom_least δ cache ⟨0, by decide⟩ uint64Max (finRange blockCacheEntries)
        fun i _ => hfull i with ⟨hle, -⟩ | ⟨-, hle⟩
      · exact absurd (hle j (mem_finRange j)) (Nat.not_le.mpr (hage j _ hb))
      · exact hle j (mem_finRange j)

/-! ### What a call does -/

/-- The sector size is one the cache takes. -/
def Sized (devices : δ → BlockDevice ω) (d : δ) : Prop :=
  ¬ ((devices d).sectorSize = 0 ∨ blockCacheMaxSector < (devices d).sectorSize)

/-- The counters are as before. -/
def SameCounters (cache cache' : BlockCache δ) : Prop :=
  cache'.clock = cache.clock ∧ cache'.hits = cache.hits ∧ cache'.misses = cache.misses

/-- The sector is put in entry `i` with the next tick of the clock. -/
structure Stamped (cache cache' : BlockCache δ) (i : Fin blockCacheEntries) (k : δ × ℕ) :
    Prop where
  view : view cache' = Function.update (view cache) i (some (k, wrap64 (cache.clock + 1)))
  clock : cache'.clock = wrap64 (cache.clock + 1)

/-- How a read or a write ends: without success, as a read that hits, as a read that misses,
or as a write. -/
inductive Effect (devices : δ → BlockDevice ω) (s : Storage δ ω) :
    CacheCall δ → CacheAnswer × Storage δ ω → Prop
  | idle (call : CacheCall δ) (answer : CacheAnswer) (s' : Storage δ ω)
      (hstatus : answer.1 ≠ .ok) (hview : view s'.cache = view s.cache)
      (hcounters : SameCounters s.cache s'.cache) : Effect devices s call (answer, s')
  | hit (d : δ) (lba : UInt64) (out : Option Buffer) (bytes : Option Buffer)
      (i : Fin blockCacheEntries) (s' : Storage δ ω) (hsize : Sized devices d)
      (hfind : findEntry s.cache d lba.toNat = some i)
      (hstamped : Stamped s.cache s'.cache i (d, lba.toNat))
      (hhits : s'.cache.hits = wrap64 (s.cache.hits + 1))
      (hmisses : s'.cache.misses = s.cache.misses) :
      Effect devices s (.read (some d) lba out) ((.ok, bytes), s')
  | miss (d : δ) (lba : UInt64) (out : Option Buffer) (bytes : Option Buffer)
      (s' : Storage δ ω) (hsize : Sized devices d)
      (hfind : findEntry s.cache d lba.toNat = none)
      (hstamped : Stamped s.cache s'.cache (victimEntry s.cache) (d, lba.toNat))
      (hhits : s'.cache.hits = s.cache.hits)
      (hmisses : s'.cache.misses = wrap64 (s.cache.misses + 1)) :
      Effect devices s (.read (some d) lba out) ((.ok, bytes), s')
  | write (d : δ) (lba : UInt64) (data : Option Buffer) (s' : Storage δ ω)
      (hsize : Sized devices d)
      (hstamped : Stamped s.cache s'.cache
        ((findEntry s.cache d lba.toNat).getD (victimEntry s.cache)) (d, lba.toNat))
      (hhits : s'.cache.hits = s.cache.hits) (hmisses : s'.cache.misses = s.cache.misses) :
      Effect devices s (.write (some d) lba data) ((.ok, none), s')

omit [DecidableEq δ] in
/-- What is seen of one entry that changes. -/
lemma view_update {cache' : BlockCache δ} {i : Fin blockCacheEntries} {e : BlockCacheEntry δ}
    (h : cache'.entries = update cache.entries i e) :
    view cache' = update (view cache) i
      (if e.valid = true then some ((e.device, e.lba), e.age) else none) := by
  funext j
  by_cases hj : j = i
  · subst hj
    rw [view, h, update_self, update_self]
  · rw [view, h, update_of_ne hj, update_of_ne hj, view]

omit [DecidableEq δ] in
/-- New bytes in an entry are not seen. -/
lemma view_data {cache' : BlockCache δ} {i : Fin blockCacheEntries} {data : Buffer}
    (h : cache'.entries = update cache.entries i { cache.entries i with data := data }) :
    view cache' = view cache := by
  rw [view_update h]
  exact update_eq_self i (view cache)

omit [DecidableEq δ] in
/-- An entry that is filled with a sector. -/
lemma Stamped.of_entries {cache' : BlockCache δ} {i : Fin blockCacheEntries} {d : δ} {lba : ℕ}
    {data : Buffer} (hentries : cache'.entries = update cache.entries i
      ⟨true, d, lba, wrap64 (cache.clock + 1), data⟩)
    (hclock : cache'.clock = wrap64 (cache.clock + 1)) : Stamped cache cache' i (d, lba) := by
  refine ⟨?_, hclock⟩
  rw [view_update hentries]
  rfl

/-- The read. -/
lemma read_effect (devices : δ → BlockDevice ω) (s : Storage δ ω) (d : δ) (lba : UInt64)
    (out : Buffer) : Effect devices s (.read (some d) lba (some out))
      (step devices s (.read (some d) lba (some out))) := by
  simp only [step, blockCacheRead]
  split
  case isTrue => exact .idle _ _ _ (by simp) rfl ⟨rfl, rfl, rfl⟩
  case isFalse hsize =>
    split
    case h_1 i hfind =>
      obtain ⟨hvalid, hd, hlba⟩ := findEntry_eq_some hfind
      refine .hit d lba _ _ i _ hsize hfind ⟨?_, rfl⟩ rfl rfl
      rw [view_update rfl, if_pos hvalid, hd, hlba]
    case h_2 hfind =>
      rcases hread : blockRead (some (devices d)) lba.toNat 1
        (some (s.cache.entries (victimEntry s.cache)).data) s.world with ⟨status, data, world⟩
      cases status with
      | ok => exact .miss d lba _ _ _ hsize hfind (.of_entries rfl rfl) rfl rfl
      | _ => exact .idle _ _ _ (by simp) (view_data rfl) ⟨rfl, rfl, rfl⟩

/-- The write. -/
lemma write_effect (devices : δ → BlockDevice ω) (s : Storage δ ω) (d : δ) (lba : UInt64)
    (data : Buffer) : Effect devices s (.write (some d) lba (some data))
      (step devices s (.write (some d) lba (some data))) := by
  simp only [step, blockCacheWrite]
  split
  case isTrue => exact .idle _ _ _ (by simp) rfl ⟨rfl, rfl, rfl⟩
  case isFalse hsize =>
    rcases hwrite : blockWrite (some (devices d)) lba.toNat 1 (some data) s.world with
      ⟨status, world⟩
    cases status with
    | ok => exact .write d lba _ _ hsize (.of_entries rfl rfl) rfl rfl
    | _ => exact .idle _ _ _ (by simp) rfl ⟨rfl, rfl, rfl⟩

/-- **What a read or a write does.** -/
lemma step_effect (devices : δ → BlockDevice ω) (s : Storage δ ω) {call : CacheCall δ}
    (h : IsAccess call) : Effect devices s call (step devices s call) := by
  cases call with
  | read device lba out =>
    cases device with
    | none => exact .idle _ (.badArgument, out) s (by simp) rfl ⟨rfl, rfl, rfl⟩
    | some d =>
      cases out with
      | none => exact .idle _ (.badArgument, none) s (by simp) rfl ⟨rfl, rfl, rfl⟩
      | some out => exact read_effect devices s d lba out
  | write device lba data =>
    cases device with
    | none =>
      cases data with
      | none | some => exact .idle _ (.badArgument, none) s (by simp) rfl ⟨rfl, rfl, rfl⟩
    | some d =>
      cases data with
      | none => exact .idle _ (.badArgument, none) s (by simp) rfl ⟨rfl, rfl, rfl⟩
      | some data => exact write_effect devices s d lba data
  | flush | invalidate => exact absurd h id

/-- A read that is counted as a hit has found its entry. -/
lemma findEntry_of_hit {d : δ} {lba : UInt64} {out : Buffer}
    (h : (step devices s (.read (some d) lba (some out))).2.cache.hits = s.cache.hits + 1) :
    (findEntry s.cache d lba.toNat).isSome = true := by
  have heffect := read_effect devices s d lba out
  generalize step devices s (.read (some d) lba (some out)) = r at heffect h
  cases heffect with
  | idle call answer s' hstatus hview hcounters => exact absurd (hcounters.2.1 ▸ h) (by simp)
  | hit d lba out bytes i s' hsize hfind hstamped hhits hmisses => rw [hfind, Option.isSome_some]
  | miss d lba out bytes s' hsize hfind hstamped hhits hmisses => exact absurd (hhits ▸ h) (by simp)

/-- A read that finds its entry is counted as a hit. -/
lemma hits_of_found {d : δ} {lba : UInt64} {out : Buffer} (hsize : Sized devices d)
    (hfound : (findEntry s.cache d lba.toNat).isSome = true) :
    (step devices s (.read (some d) lba (some out))).2.cache.hits = wrap64 (s.cache.hits + 1) := by
  obtain ⟨i, hfind⟩ := Option.isSome_iff_exists.mp hfound
  simp only [step, blockCacheRead, hfind]
  rw [if_neg hsize]

/-! ### The invariant -/

/-- The entries hold the first of the recent sectors, and the counters count the reads. -/
structure Lru (devices : δ → BlockDevice ω) (s : Storage δ ω) (recent : List (δ × ℕ))
    (reads : ℕ) : Prop where
  tracks : ∃ order, Tracks (n := 7) (view s.cache) s.cache.clock recent order
  counted : s.cache.hits + s.cache.misses = reads
  reads_le : reads ≤ s.cache.clock
  sized : ∀ k ∈ recent, Sized devices k.1

variable {l : List (δ × ℕ)} {reads : ℕ}

omit [DecidableEq δ] in
lemma mem_touch_sized [DecidableEq (δ × ℕ)] {k : δ × ℕ} (hk : Sized devices k.1)
    (h : ∀ k ∈ l, Sized devices k.1) : ∀ k' ∈ touch k l, Sized devices k'.1 :=
  forall_mem_cons.mpr ⟨hk, fun k' hk' => h k' (mem_of_mem_erase hk')⟩

lemma findEntry_held {i : Fin blockCacheEntries} {d : δ} {lba : ℕ}
    (h : findEntry cache d lba = some i) : (view cache i).map Prod.fst = some (d, lba) :=
  view_key_iff.mpr (findEntry_eq_some h)

lemma Lru.findEntry_isSome_iff (h : Lru devices s l reads) {d : δ} {lba : ℕ} :
    (findEntry s.cache d lba).isSome = true ↔ (d, lba) ∈ l.take 8 := by
  obtain ⟨order, htracks⟩ := h.tracks
  rw [← htracks.held_iff]
  cases hfind : findEntry s.cache d lba with
  | none =>
    refine ⟨fun hsome => absurd hsome Bool.false_ne_true, fun ⟨i, hi⟩ => ?_⟩
    exact absurd (view_key_iff.mp hi) (findEntry_eq_none hfind i)
  | some i => exact ⟨fun _ => ⟨i, findEntry_held hfind⟩, fun _ => rfl⟩

/-- A use of a sector that has an entry, or else in the victim's. -/
lemma Lru.stamped {s' : Storage δ ω} {d : δ} {lba : ℕ} (h : Lru devices s l reads)
    (hclock : s.cache.clock + 1 < uint64Max)
    (hstamped : Stamped s.cache s'.cache
      ((findEntry s.cache d lba).getD (victimEntry s.cache)) (d, lba)) :
    s'.cache.clock = s.cache.clock + 1 ∧
      ∃ order, Tracks (n := 7) (view s'.cache) s'.cache.clock (touch (d, lba) l) order := by
  obtain ⟨order, htracks⟩ := h.tracks
  have hwrap : wrap64 (s.cache.clock + 1) = s.cache.clock + 1 :=
    wrap64_of_lt (hclock.trans (by decide))
  have hage : ∀ i, ∀ a ∈ view s.cache i, a.2 < uint64Max := fun i a ha =>
    (Nat.lt_succ_of_le (htracks.le_clock i a ha)).trans hclock
  rw [hstamped.view, hstamped.clock, hwrap]
  refine ⟨rfl, ?_⟩
  cases hfind : findEntry s.cache d lba with
  | some i => exact htracks.refresh (findEntry_held hfind)
  | none =>
    have hnot : (d, lba) ∉ l.take 8 := by
      rw [← h.findEntry_isSome_iff, hfind]
      exact Bool.false_ne_true
    exact htracks.replace hnot (victimEntry_spec hage)

/-- A call without success is not in the list. -/
lemma use_of_ne_ok {call : CacheCall δ} {answer : CacheAnswer} (h : answer.1 ≠ .ok) :
    use l (call, answer) = l ∧ isServed (call, answer) = false := by
  obtain ⟨status, bytes⟩ := answer
  cases status with
  | ok => exact absurd rfl h
  | _ =>
    cases call with
    | read device lba out => cases device <;> exact ⟨rfl, rfl⟩
    | write device lba data => cases device <;> exact ⟨rfl, rfl⟩
    | flush | invalidate => exact ⟨rfl, rfl⟩

/-- **The step lemma.** -/
lemma Lru.step (h : Lru devices s l reads) (hclock : s.cache.clock + 1 < uint64Max)
    {call : CacheCall δ} (hcall : IsAccess call) :
    let r := Block.step devices s call
    Lru devices r.2 (use l (call, r.1)) (reads + (isServed (call, r.1)).toNat) ∧
      r.2.cache.clock ≤ s.cache.clock + 1 := by
  intro r
  have hreads := h.reads_le
  have hcounted := h.counted
  have hmax : uint64Max < 2 ^ 64 := by decide
  have heffect := step_effect devices s hcall
  change Effect devices s call r at heffect
  generalize r = r' at heffect
  cases heffect with
  | idle call answer s' hstatus hview hcounters =>
    have hnone : use l (call, answer) = l ∧ isServed (call, answer) = false :=
      use_of_ne_ok hstatus
    obtain ⟨hclk, hhits, hmisses⟩ := hcounters
    simp only [hnone.1, hnone.2, Bool.toNat_false, Nat.add_zero]
    refine ⟨⟨?_, by rw [hhits, hmisses, hcounted], by rw [hclk]; exact hreads, h.sized⟩,
      by omega⟩
    rw [hview, hclk]
    exact h.tracks
  | hit d lba out bytes i s' hsize hfind hstamped hhits hmisses =>
    rw [← Option.getD_some (a := i) (b := victimEntry s.cache), ← hfind] at hstamped
    obtain ⟨hclk, htracks⟩ := h.stamped hclock hstamped
    rw [wrap64_of_lt (by omega)] at hhits
    refine ⟨⟨htracks, ?_, ?_, mem_touch_sized hsize h.sized⟩, hclk.le⟩
    · rw [hhits, hmisses]
      change _ = reads + 1
      omega
    · change reads + 1 ≤ s'.cache.clock
      omega
  | miss d lba out bytes s' hsize hfind hstamped hhits hmisses =>
    rw [← Option.getD_none (a := victimEntry s.cache), ← hfind] at hstamped
    obtain ⟨hclk, htracks⟩ := h.stamped hclock hstamped
    rw [wrap64_of_lt (by omega)] at hmisses
    refine ⟨⟨htracks, ?_, ?_, mem_touch_sized hsize h.sized⟩, hclk.le⟩
    · rw [hhits, hmisses]
      change _ = reads + 1
      omega
    · change reads + 1 ≤ s'.cache.clock
      omega
  | write d lba data s' hsize hstamped hhits hmisses =>
    obtain ⟨hclk, htracks⟩ := h.stamped hclock hstamped
    refine ⟨⟨htracks, ?_, ?_, mem_touch_sized hsize h.sized⟩, hclk.le⟩
    · rw [hhits, hmisses]
      exact hcounted
    · change reads ≤ s'.cache.clock
      omega

/-- **The run lemma.** -/
lemma Lru.run {calls : List (CacheCall δ)} (h : Lru devices s l reads)
    (hcalls : ∀ call ∈ calls, IsAccess call)
    (hclock : s.cache.clock + calls.length < uint64Max) :
    Lru devices (Runs.final (Block.step devices) s calls)
        ((Runs.trace (Block.step devices) s calls).foldl use l)
        (reads + (Runs.trace (Block.step devices) s calls).countP isServed) ∧
      (Runs.final (Block.step devices) s calls).cache.clock ≤ s.cache.clock + calls.length := by
  induction calls generalizing s l reads with
  | nil => exact ⟨h, le_rfl⟩
  | cons call calls ih =>
    rw [forall_mem_cons] at hcalls
    rw [length_cons] at hclock
    obtain ⟨hstep, hle⟩ := h.step (by omega) hcalls.1
    obtain ⟨hrun, hle'⟩ := ih hstep hcalls.2 (by omega)
    rw [Runs.final_cons, Runs.trace_cons, foldl_cons, countP_cons, length_cons]
    have hcount : ∀ (b : Bool) (c : ℕ),
        reads + (c + if b = true then 1 else 0) = reads + b.toNat + c := by
      intro b c
      cases b with
      | false => simp
      | true => simp only [if_true, Bool.toNat_true]; omega
    refine ⟨?_, by omega⟩
    rw [hcount]
    exact hrun

omit [DecidableEq δ] in
/-- An empty cache. -/
lemma lru_init (devices : δ → BlockDevice ω) (cache : BlockCache δ) (w : ω) :
    Lru devices ⟨blockCacheInit cache, w⟩ [] 0 where
  tracks := ⟨[], Tracks.empty fun _ => rfl⟩
  counted := rfl
  reads_le := Nat.zero_le _
  sized := fun _ hk => absurd hk not_mem_nil

/-! ### The result -/

/-- **The cache is an exact LRU set.**  After every run of fewer than `2 ^ 64 - 1` reads and
writes from an empty cache, the valid entries are for different sectors, and these are the
eight used last, or all that have been used; the counters add up to the reads that succeeded;
and a read is a hit just when its sector is one of them. -/
theorem block_cache_lru {ω δ : Type} [DecidableEq δ] (devices : δ → BlockDevice ω)
    (cache : BlockCache δ) (w : ω) (calls : List (CacheCall δ))
    (hcalls : ∀ call ∈ calls, IsAccess call) (hlen : calls.length < 2 ^ 64 - 1) :
    let start : Storage δ ω := ⟨blockCacheInit cache, w⟩
    let s := Runs.final (step devices) start calls
    let used := recent (Runs.trace (step devices) start calls)
    used.Nodup ∧
    (∀ i j, (s.cache.entries i).valid = true → (s.cache.entries j).valid = true →
      (s.cache.entries i).device = (s.cache.entries j).device →
      (s.cache.entries i).lba = (s.cache.entries j).lba → i = j) ∧
    (∀ d lba, (∃ i, (s.cache.entries i).valid = true ∧ (s.cache.entries i).device = d ∧
      (s.cache.entries i).lba = lba) ↔ (d, lba) ∈ used.take 8) ∧
    (Finset.univ.filter fun i => (s.cache.entries i).valid = true).card = min 8 used.length ∧
    s.cache.hits + s.cache.misses = (Runs.trace (step devices) start calls).countP isServed ∧
    ∀ d (lba : UInt64) out,
      (step devices s (.read (some d) lba (some out))).2.cache.hits = s.cache.hits + 1 ↔
        (d, lba.toNat) ∈ used.take 8 := by
  intro start s used
  obtain ⟨hlru, hclock⟩ := (lru_init devices cache w).run hcalls
    (by rw [uint64Max]; exact (Nat.zero_add _).trans_lt hlen)
  change Lru devices s used _ at hlru
  change s.cache.clock ≤ 0 + calls.length at hclock
  obtain ⟨order, htracks⟩ := hlru.tracks
  have hcounted := hlru.counted
  have hreads := hlru.reads_le
  rw [Nat.zero_add] at hcounted hreads
  refine ⟨htracks.nodup, fun i j hi hj hd hl => ?_, fun d lba => ?_, ?_, hcounted,
    fun d lba out => ?_⟩
  · exact htracks.unique (view_key_iff.mpr ⟨hi, hd, hl⟩) (view_key_iff.mpr ⟨hj, rfl, rfl⟩)
  · rw [← htracks.held_iff]
    exact exists_congr fun i => view_key_iff.symm
  · have hheld : ∀ i, (view s.cache i).isSome = true ↔ (s.cache.entries i).valid = true := by
      intro i
      rw [Option.isSome_iff_ne_none, Ne, view_eq_none_iff, Bool.not_eq_false]
    have hcard : (Finset.univ.filter fun i => (view s.cache i).isSome = true).card =
        min 8 used.length := htracks.card_held
    rw [← hcard]
    exact congrArg Finset.card (Finset.filter_congr fun i _ => (hheld i).symm)
  · rw [← hlru.findEntry_isSome_iff]
    refine ⟨fun hhit => findEntry_of_hit hhit, fun hfound => ?_⟩
    have hmem := List.mem_of_mem_take (hlru.findEntry_isSome_iff.mp hfound)
    rw [hits_of_found (hlru.sized _ hmem) hfound, wrap64_of_lt (by omega)]

/-- Sectors 0 to 7 fill the cache, 0 is read again, and 9 replaces 1, which was used the
longest time ago. -/
theorem block_cache_lru_evicts :
    let start : Storage Unit Unit := ⟨blockCacheInit blankCache, ()⟩
    let s := Runs.final (step flakyDevices) start
      ([0, 1, 2, 3, 4, 5, 6, 7, 0, 9].map fun lba => .read (some ()) lba (some fun _ => 0))
    (step flakyDevices s (.read (some ()) 0 (some fun _ => 0))).2.cache.hits =
        s.cache.hits + 1 ∧
      (step flakyDevices s (.read (some ()) 1 (some fun _ => 0))).2.cache.hits ≠
        s.cache.hits + 1 := by
  have hlru := block_cache_lru flakyDevices blankCache ()
    ([0, 1, 2, 3, 4, 5, 6, 7, 0, 9].map fun lba => .read (some ()) lba (some fun _ => 0))
    (List.forall_mem_map.mpr fun _ _ => trivial) (by decide)
  have hhit := hlru.2.2.2.2.2 ()
  exact ⟨(hhit 0 fun _ => 0).mpr (by decide +kernel),
    fun h => absurd ((hhit 1 fun _ => 0).mp h) (by decide +kernel)⟩

end Block

end JoshOS
