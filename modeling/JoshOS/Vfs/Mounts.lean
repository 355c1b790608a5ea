import JoshOS.Vfs.Files

/-!
Routing and isolation of mounts.

* `Table`, `table_run`: the mount table along a run holds the mounts in their order.
* `OpenedOn`, `openedOn_run`: a handle in use belongs to the mount it was opened on,
  whatever has been mounted since.
* `vfs_routing_isolated`: longest-prefix routing, and a call changes no file system but
  that of the mount its path resolves to or its handle was opened on.
-/

namespace JoshOS

open Function List Slots Tmpfs

namespace Vfs

variable {κ : Type} {t t' : Vfs κ} {c d : κ} {h : Fin vfsMaxHandles} {i j : Fin vfsMaxMounts}
  {m path relative : List UInt8} {ms : List (Mount κ)}

/-! ### Matching -/

/-- The mount path `m` covers `path`: it is the root, the path itself, or a directory
above it. -/
def Covers (m path : List UInt8) : Prop := m = [slash] ∨ path = m ∨ m ++ [slash] <+: path

/-- A mount path matches up to the end of a component. -/
lemma mountMatches_iff (hpath : (0 : UInt8) ∉ path) (habs : path.head? = some slash) :
    mountMatches m path = true ↔ Covers m path := by
  by_cases hroot : m = [slash]
  · have hfirst : path.getD 0 0 = slash := by
      rw [getD_eq_getElem?_getD, ← head?_eq_getElem?, habs, Option.getD_some]
    rw [mountMatches, if_pos hroot, decide_eq_true_iff]
    exact ⟨fun _ => .inl hroot, fun _ => hfirst⟩
  · rw [mountMatches, if_neg hroot, Covers, or_iff_right hroot, decide_eq_true_iff,
      isPrefixOf_iff_prefix]
    constructor
    · rintro ⟨⟨rest, rfl⟩, hnext⟩
      cases rest with
      | nil => exact .inl (append_nil m)
      | cons x rest =>
        have hx : x = 0 ∨ x = slash := by simpa using hnext
        rcases hx with rfl | rfl
        · exact absurd (mem_append_right m mem_cons_self) hpath
        · exact .inr ⟨rest, by simp⟩
    · rintro (rfl | ⟨rest, rfl⟩)
      · exact ⟨prefix_refl path, .inl (by simp)⟩
      · exact ⟨⟨slash :: rest, by simp⟩, .inr (by simp)⟩

/-- What is left of `path` below the mount path `m`: all of it below the root, and the
root of the mount when nothing is left. -/
def Rest (m path relative : List UInt8) : Prop :=
  if m = [slash] then relative = path
  else ∃ rest, path = m ++ rest ∧ relative = if rest = [] then [slash] else rest

/-- The path that `resolve_mount` hands on. -/
def below (m path : List UInt8) : List UInt8 :=
  let relative := if m = [slash] then path else path.drop m.length
  if relative = [] then [slash] else relative

lemma rest_iff (hcov : Covers m path) (hne : path ≠ []) :
    Rest m path relative ↔ relative = below m path := by
  unfold Rest below
  by_cases hroot : m = [slash]
  · simp only [if_pos hroot, if_neg hne]
  · simp only [if_neg hroot]
    have hrest : ∃ rest, path = m ++ rest := by
      rcases hcov with h | rfl | ⟨rest, rfl⟩
      · exact absurd h hroot
      · exact ⟨[], (append_nil path).symm⟩
      · exact ⟨slash :: rest, by simp⟩
    obtain ⟨rest, rfl⟩ := hrest
    rw [drop_left]
    constructor
    · rintro ⟨rest', heq, rfl⟩
      rw [append_cancel_left heq]
    · exact fun heq => ⟨rest, rfl, heq⟩

/-! ### The search -/

/-- Mount `i` is in use and its path matches. -/
def Candidate (t : Vfs κ) (path : List UInt8) (i : Fin vfsMaxMounts) : Prop :=
  (t.mounts i).used = true ∧ mountMatches (t.mounts i).path path = true

/-- Mount `i` comes before mount `j`: its path is longer, or as long and the mount is not
later. -/
def Precedes (t : Vfs κ) (i j : Fin vfsMaxMounts) : Prop :=
  (t.mounts j).path.length < (t.mounts i).path.length ∨
    (t.mounts j).path.length = (t.mounts i).path.length ∧ i ≤ j

lemma Precedes.antisymm (hij : Precedes t i j) (hji : Precedes t j i) : i = j := by
  rcases hij with hlt | ⟨heq, hle⟩
  · rcases hji with hlt' | ⟨heq', -⟩
    · exact absurd hlt (Nat.lt_asymm hlt')
    · exact absurd heq'.symm (Nat.ne_of_gt hlt).symm
  · rcases hji with hlt' | ⟨-, hle'⟩
    · exact absurd heq (Nat.ne_of_gt hlt')
    · exact le_antisymm hle hle'

/-- What the loop of `resolve_mount` knows after the mounts `seen`: none of them is a
candidate, or the one kept comes before all the others. -/
inductive BestSoFar (t : Vfs κ) (path : List UInt8) (seen : List (Fin vfsMaxMounts)) :
    Option (Fin vfsMaxMounts) → ℕ → Prop where
  | nothing (best : ℕ) (hnone : ∀ j ∈ seen, ¬ Candidate t path j) : BestSoFar t path seen none best
  | found (i : Fin vfsMaxMounts) (hmem : i ∈ seen) (hcand : Candidate t path i)
      (hfirst : ∀ j ∈ seen, Candidate t path j → Precedes t i j) :
      BestSoFar t path seen (some i) (t.mounts i).path.length

variable {seen : List (Fin vfsMaxMounts)} {found : Option (Fin vfsMaxMounts)} {best : ℕ}

/-- A mount that is passed over. -/
lemma BestSoFar.skip (hk : BestSoFar t path seen found best) (hnot : ¬ Candidate t path j) :
    BestSoFar t path (seen ++ [j]) found best := by
  cases hk with
  | nothing best hnone =>
    refine .nothing best fun k hmem => ?_
    rcases mem_append.mp hmem with hmem | hmem
    · exact hnone k hmem
    · exact mem_singleton.mp hmem ▸ hnot
  | found i hmem hcand hfirst =>
    refine .found i (mem_append_left _ hmem) hcand fun k hmem hk => ?_
    rcases mem_append.mp hmem with hmem | hmem
    · exact hfirst k hmem hk
    · exact absurd (mem_singleton.mp hmem ▸ hk) hnot

/-- A mount that is taken. -/
lemma BestSoFar.take (hk : BestSoFar t path seen found best) (hcand : Candidate t path j)
    (hbest : found = none ∨ best < (t.mounts j).path.length) :
    BestSoFar t path (seen ++ [j]) (some j) (t.mounts j).path.length := by
  refine .found j (by simp) hcand fun k hmem hk' => ?_
  rcases mem_append.mp hmem with hmem | hmem
  · cases hk with
    | nothing best hnone => exact absurd hk' (hnone k hmem)
    | found i hmem' hcand' hfirst =>
      rcases hfirst k hmem hk' with hlt | ⟨heq, -⟩
      · exact .inl (hlt.trans (hbest.resolve_left (Option.some_ne_none i)))
      · exact .inl (heq ▸ hbest.resolve_left (Option.some_ne_none i))
  · exact .inr (mem_singleton.mp hmem ▸ ⟨rfl, le_rfl⟩)

/-- A candidate that is no longer than the one kept. -/
lemma BestSoFar.leave (hk : BestSoFar t path seen found best) (hlate : ∀ k ∈ seen, k < j)
    (hbest : ¬ (found = none ∨ best < (t.mounts j).path.length)) :
    BestSoFar t path (seen ++ [j]) found best := by
  cases hk with
  | nothing best hnone => exact absurd (.inl rfl) hbest
  | found i hmem hcand hfirst =>
    refine .found i (mem_append_left _ hmem) hcand fun k hmem' hk' => ?_
    rcases mem_append.mp hmem' with hmem' | hmem'
    · exact hfirst k hmem' hk'
    · rw [mem_singleton.mp hmem']
      have hle := Nat.le_of_not_lt fun hlt => hbest (.inr hlt)
      exact (Nat.lt_or_eq_of_le hle).imp_right fun heq => ⟨heq, (hlate i hmem).le⟩

/-- The loop of `resolve_mount` goes through the mounts in their order. -/
lemma resolveMountFrom_bestSoFar (hk : BestSoFar t path seen found best)
    (is : List (Fin vfsMaxMounts)) (hsorted : (seen ++ is).Pairwise (· < ·)) :
    ∃ best', BestSoFar t path (seen ++ is) (t.resolveMountFrom path found best is) best' := by
  induction is generalizing seen found best with
  | nil =>
    rw [append_nil]
    exact ⟨best, hk⟩
  | cons j is ih =>
    have hlate : ∀ k ∈ seen, k < j := fun k hmem =>
      (pairwise_append.mp hsorted).2.2 k hmem j mem_cons_self
    rw [append_cons] at hsorted ⊢
    rw [resolveMountFrom]
    split_ifs with hskip hbest
    · refine ih (hk.skip fun hcand => ?_) hsorted
      rcases hskip with hused | hmatch
      · exact Bool.false_ne_true (hused.symm.trans hcand.1)
      · exact Bool.false_ne_true (hmatch.symm.trans hcand.2)
    · rw [not_or, Bool.not_eq_false, Bool.not_eq_false] at hskip
      exact ih (hk.take hskip hbest) hsorted
    · exact ih (hk.leave hlate hbest) hsorted

/-- **`resolve_mount`** finds the mount that comes before all the others that match, or
none if none matches. -/
lemma resolveMount_cases (t : Vfs κ) (path : List UInt8) :
    (t.resolveMount path = none ∧ ∀ j, ¬ Candidate t path j) ∨
      ∃ i, Candidate t path i ∧ (∀ j, Candidate t path j → Precedes t i j) ∧
        t.resolveMount path = some (i, below (t.mounts i).path path) := by
  have hstart : BestSoFar t path [] none 0 := .nothing 0 fun j hj => absurd hj not_mem_nil
  obtain ⟨best, hk⟩ := resolveMountFrom_bestSoFar hstart (finRange vfsMaxMounts)
    (pairwise_lt_finRange vfsMaxMounts)
  rw [nil_append] at hk
  rw [resolveMount]
  generalize t.resolveMountFrom path none 0 (finRange vfsMaxMounts) = r at hk
  cases hk with
  | nothing best hnone => exact .inl ⟨rfl, fun j => hnone j (mem_finRange j)⟩
  | found i hmem hcand hfirst =>
    exact .inr ⟨i, hcand, fun j => hfirst j (mem_finRange j), rfl⟩

/-! ### The mount table -/

/-- The mounts made, with one call more. -/
def noteMount (ms : List (Mount κ)) : Call κ × Answer → List (Mount κ)
  | (.mount (some path) context _, .ok _) => ms ++ [⟨true, path, context⟩]
  | _ => ms

/-- The mounts that the calls of a run have made, in their order. -/
def mountsOf (trace : List (Call κ × Answer)) : List (Mount κ) := trace.foldl noteMount []

/-- The table holds the mounts `ms` in their order. -/
structure Table (t : Vfs κ) (ms : List (Mount κ)) : Prop where
  length_le : ms.length ≤ vfsMaxMounts
  used : ∀ m ∈ ms, m.used = true
  taken : ∀ i m, ms[i.val]? = some m → t.mounts i = m
  free : ∀ i : Fin vfsMaxMounts, ms.length ≤ i.val → (t.mounts i).used = false

lemma table_start (t : Vfs κ) : Table (start t) [] :=
  ⟨Nat.zero_le _, fun _ hm => absurd hm not_mem_nil, fun _ _ hm => (by cases hm),
    fun _ _ => rfl⟩

lemma Table.used_iff (ht : Table t ms) : (t.mounts i).used = true ↔ i.val < ms.length := by
  constructor
  · intro hu
    by_contra hge
    rw [ht.free i (Nat.le_of_not_lt hge)] at hu
    cases hu
  · intro hlt
    rw [ht.taken i _ (getElem?_eq_getElem hlt)]
    exact ht.used _ (getElem_mem hlt)

/-- A mount goes behind the others. -/
lemma Table.mount (ht : Table t ms) {entry : Mount κ} (hused : entry.used = true)
    (hi : firstSlot (fun i => (t.mounts i).used = false) = some i) :
    Table { t with mounts := update t.mounts i entry } (ms ++ [entry]) := by
  have hfree : (t.mounts i).used = false := by simpa using firstSlot_some hi
  have hlen : i.val = ms.length := by
    refine Nat.le_antisymm (Nat.le_of_not_lt fun hlt => ?_) (Nat.le_of_not_lt fun hlt => ?_)
    · have hbefore := firstSlot_min hi (j := ⟨ms.length, hlt.trans i.isLt⟩) hlt
      rw [ht.free ⟨ms.length, _⟩ le_rfl] at hbefore
      exact absurd hbefore (by decide)
    · rw [ht.used_iff.mpr hlt] at hfree
      cases hfree
  refine ⟨?_, fun m hm => ?_, fun j m hj => ?_, fun j hj => ?_⟩
  · rw [length_append, length_singleton, ← hlen]
    exact i.isLt
  · rcases mem_append.mp hm with hm | hm
    · exact ht.used m hm
    · exact mem_singleton.mp hm ▸ hused
  · dsimp only
    by_cases hji : j = i
    · rw [hji, hlen, getElem?_concat_length] at hj
      rw [hji, update_self, Option.some.inj hj]
    · have hlt : j.val < ms.length := by
        have hne : j.val ≠ i.val := fun heq => hji (Fin.ext heq)
        have hbound := (List.getElem?_eq_some_iff.mp hj).1
        rw [length_append, length_singleton] at hbound
        omega
      rw [getElem?_append_left hlt] at hj
      rw [update_of_ne hji, ht.taken j m hj]
  · rw [length_append, length_singleton] at hj
    have hji : j ≠ i := fun heq => by
      rw [heq] at hj
      omega
    dsimp only
    rw [update_of_ne hji]
    exact ht.free j (by omega)

lemma Table.congr (ht : Table t ms) (hmounts : t'.mounts = t.mounts) : Table t' ms :=
  ⟨ht.length_le, ht.used, fun i m hi => hmounts ▸ ht.taken i m hi,
    fun i hi => hmounts ▸ ht.free i hi⟩

/-- What routing does, in terms of the mounts made. -/
structure Routed (ms : List (Mount κ)) (path : List UInt8) (i : ℕ) (relative : List UInt8) :
    Prop where
  lt : i < ms.length
  covers : Covers ms[i].path path
  longest : ∀ j (hj : j < ms.length), Covers ms[j].path path →
    ms[j].path.length < ms[i].path.length ∨ ms[j].path.length = ms[i].path.length ∧ i ≤ j
  rest : Rest ms[i].path path relative

/-- In a table with the mounts `ms`, a mount is a candidate when its path covers. -/
lemma Table.candidate_iff (ht : Table t ms) (hpath : (0 : UInt8) ∉ path)
    (habs : path.head? = some slash) :
    Candidate t path i ↔ ∃ hlt : i.val < ms.length, Covers ms[i.val].path path := by
  rw [Candidate, mountMatches_iff hpath habs, ht.used_iff]
  constructor
  · rintro ⟨hlt, hcov⟩
    exact ⟨hlt, ht.taken i _ (getElem?_eq_getElem hlt) ▸ hcov⟩
  · rintro ⟨hlt, hcov⟩
    exact ⟨hlt, (ht.taken i _ (getElem?_eq_getElem hlt)).symm ▸ hcov⟩

/-- **Routing.**  `resolve_mount` answers with the mount and the rest of the path that the
mounts made so far ask for. -/
lemma Table.resolveMount_iff (ht : Table t ms) (hpath : (0 : UInt8) ∉ path)
    (habs : path.head? = some slash) :
    t.resolveMount path = some (i, relative) ↔ Routed ms path i relative := by
  have hne : path ≠ [] := by
    rintro rfl
    cases habs
  have hat (k : Fin vfsMaxMounts) (hk : k.val < ms.length) : t.mounts k = ms[k.val] :=
    ht.taken k _ (getElem?_eq_getElem hk)
  rcases resolveMount_cases t path with ⟨hnone, hno⟩ | ⟨k, hcand, hfirst, heq⟩
  · rw [hnone]
    refine ⟨fun h => (by cases h), fun hr => ?_⟩
    exact absurd ((ht.candidate_iff hpath habs).mpr ⟨hr.lt, hr.covers⟩) (hno i)
  · obtain ⟨hk, hcov⟩ := (ht.candidate_iff hpath habs).mp hcand
    have hrouted : Routed ms path k (below (t.mounts k).path path) := by
      refine ⟨hk, hcov, fun j hj hcovj => ?_, (rest_iff hcov hne).mpr (by rw [hat k hk])⟩
      have hj' : j < vfsMaxMounts := hj.trans_le ht.length_le
      have hprec := hfirst ⟨j, hj'⟩ ((ht.candidate_iff hpath habs).mpr ⟨hj, hcovj⟩)
      rw [Precedes, hat k hk, hat ⟨j, hj'⟩ hj] at hprec
      exact hprec
    rw [heq, Option.some.injEq, Prod.mk.injEq]
    constructor
    · rintro ⟨rfl, rfl⟩
      exact hrouted
    · intro hr
      have hik : Precedes t i k := by
        rw [Precedes, hat k hk, hat i hr.lt]
        exact hr.longest k hk hcov
      have hki := hfirst i ((ht.candidate_iff hpath habs).mpr ⟨hr.lt, hr.covers⟩)
      obtain rfl := hik.antisymm hki
      exact ⟨rfl, ((rest_iff hcov hne).mp hr.rest).symm ▸ by rw [hat i hk]⟩

/-- **No route.**  `resolve_mount` fails when none of the mounts covers the path. -/
lemma Table.resolveMount_none_iff (ht : Table t ms) (hpath : (0 : UInt8) ∉ path)
    (habs : path.head? = some slash) :
    t.resolveMount path = none ↔ ∀ m ∈ ms, ¬ Covers m.path path := by
  rcases resolveMount_cases t path with ⟨hnone, hno⟩ | ⟨k, hcand, -, heq⟩
  · refine ⟨fun _ m hm hcov => ?_, fun _ => hnone⟩
    obtain ⟨j, hj, rfl⟩ := getElem_of_mem hm
    exact hno ⟨j, hj.trans_le ht.length_le⟩ ((ht.candidate_iff hpath habs).mpr ⟨hj, hcov⟩)
  · obtain ⟨hk, hcov⟩ := (ht.candidate_iff hpath habs).mp hcand
    rw [heq]
    exact ⟨fun h => (by cases h), fun hno => absurd hcov (hno _ (getElem_mem hk))⟩

/-! ### Calls and mounts -/

variable [DecidableEq κ]

omit [DecidableEq κ] in
lemma vfsMount_cases (path : Option (List UInt8)) (context : Option κ) (ops : Option VfsFsOps) :
    (∃ status, t.vfsMount path context ops = (.error status, t)) ∨
      ∃ p i, path = some p ∧ firstSlot (fun i => (t.mounts i).used = false) = some i ∧
        t.vfsMount path context ops =
          (.ok (), { t with mounts := update t.mounts i ⟨true, p, context⟩ }) := by
  cases path with
  | none => exact .inl ⟨_, rfl⟩
  | some p =>
    cases ops with
    | none => exact .inl ⟨_, rfl⟩
    | some ops =>
      rw [vfsMount]
      split_ifs with hops
      · exact .inl ⟨_, rfl⟩
      · cases hi : firstSlot fun i => (t.mounts i).used = false with
        | none => exact .inl ⟨_, rfl⟩
        | some i =>
          unfold copyPath
          by_cases hbad : p.length = 0 ∨ vfsPathMax < p.length ∨ p.getD 0 0 ≠ slash
          · rw [if_pos hbad]
            exact .inl ⟨_, rfl⟩
          · rw [if_neg hbad]
            exact .inr ⟨p, i, rfl, rfl, rfl⟩

/-- Only mounting changes the table. -/
lemma Linked.step_mounts (hl : Linked t) {call : Call κ}
    (hne : ∀ path context ops, call ≠ .mount path context ops) :
    (Vfs.step t call).2.mounts = t.mounts := by
  have heffect := step_effect hl call
  generalize Vfs.step t call = r at heffect
  obtain ⟨answer, t'⟩ := r
  dsimp only at heffect ⊢
  cases heffect with
  | mounted => exact absurd rfl (hne _ _ _)
  | refused | madeDirectory | opened | closed | read | wrote | sought | listed => rfl

lemma Table.step (hl : Linked t) (ht : Table t ms) (call : Call κ) :
    Table (Vfs.step t call).2 (noteMount ms (call, (Vfs.step t call).1)) := by
  cases call with
  | mount path context ops =>
    rw [Vfs.step]
    rcases vfsMount_cases (t := t) (path.map (·.val)) context ops with
      ⟨status, heq⟩ | ⟨p, i, hp, hi, heq⟩
    · rw [heq]
      cases path <;> exact ht
    · rw [heq]
      obtain ⟨path, rfl, rfl⟩ := Option.map_eq_some_iff.mp hp
      exact ht.mount rfl hi
  | mkdir | open_ | close | read | write | seek | list =>
    exact ht.congr (hl.step_mounts fun _ _ _ h => by cases h)

/-- Along every run the table holds the mounts made, in their order. -/
lemma table_run (t : Vfs κ) (calls : List (Call κ)) :
    Table (Runs.final step (start t) calls) (mountsOf (Runs.trace step (start t) calls)) :=
  (Runs.ghost_induction step (P := fun t ms => Linked t ∧ Table t ms)
    (fun _ _ call hP => ⟨hP.1.step call, hP.2.step hP.1 call⟩)
    ⟨linked_start t, table_start t⟩ calls).2

/-! ### Handles and their mounts -/

/-- In the run `calls` from `t₀`, the handle `h` was last opened on the mount `mount`: the
path of the call resolved to it at the time, and `h` has not been closed since. -/
def OpenedOn (t₀ : Vfs κ) (calls : List (Call κ)) (h : Fin vfsMaxHandles) (mount : Mount κ) :
    Prop :=
  ∃ before path flags handleOut after i relative,
    calls = before ++ .open_ (some path) flags handleOut :: after ∧
    (step (Runs.final step t₀ before) (.open_ (some path) flags handleOut)).1 =
      .ok (.handle h) ∧
    (∀ call ∈ after, call ≠ .close h) ∧
    (Runs.final step t₀ before).resolveMount path = some (i, relative) ∧
    (Runs.final step t₀ before).mounts i = mount

lemma OpenedOn.snoc {t₀ : Vfs κ} {calls : List (Call κ)} {mount : Mount κ} {call : Call κ}
    (ho : OpenedOn t₀ calls h mount) (hne : call ≠ .close h) :
    OpenedOn t₀ (calls ++ [call]) h mount := by
  obtain ⟨before, path, flags, handleOut, after, i, relative, rfl, hok, hafter, hr, hm⟩ := ho
  refine ⟨before, path, flags, handleOut, after ++ [call], i, relative, by simp, hok,
    fun other hmem => ?_, hr, hm⟩
  rcases mem_append.mp hmem with hmem | hmem
  · exact hafter other hmem
  · exact mem_singleton.mp hmem ▸ hne

/-- How a handle comes to be in use after a call: it was, and is as it was, or the call
opened it. -/
inductive HandleStep (t : Vfs κ) (h : Fin vfsMaxHandles) : Call κ → Answer → Vfs κ → Prop where
  | kept {call : Call κ} {answer : Answer} {t' : Vfs κ} (hne : call ≠ .close h)
      (hused : (t.handles h).used = true) (hsame : t'.handles h = t.handles h)
      (hmount : t'.mounts (t.handles h).mountIndex = t.mounts (t.handles h).mountIndex) :
      HandleStep t h call answer t'
  | opened {path : CString} {flags : UInt32} {handleOut : Bool} {t' : Vfs κ}
      {i : Fin vfsMaxMounts} {relative : List UInt8}
      (hr : t.resolveMount path = some (i, relative)) (hi : (t'.handles h).mountIndex = i)
      (hmounts : t'.mounts = t.mounts) :
      HandleStep t h (.open_ (some path) flags handleOut) (.ok (.handle h)) t'

lemma Linked.handleStep_open (hl : Linked t) {path : Option CString} {flags : UInt32}
    {handleOut : Bool}
    (hu : ((Vfs.step t (.open_ path flags handleOut)).2.handles h).used = true) :
    HandleStep t h (.open_ path flags handleOut) (Vfs.step t (.open_ path flags handleOut)).1
      (Vfs.step t (.open_ path flags handleOut)).2 := by
  cases path with
  | none => exact .kept (fun heq => by cases heq) hu rfl rfl
  | some path =>
    rw [Vfs.step, Option.map_some] at hu ⊢
    rcases vfsOpen_cases hl path flags handleOut with
      ⟨status, heq⟩ | ⟨mount, relative, c, h', s, fs, ho, heq⟩
    · rw [heq] at hu ⊢
      exact .kept (fun heq => by cases heq) hu rfl rfl
    · rw [heq] at hu ⊢
      by_cases hh : h = h'
      · subst hh
        have hself : (((t.setContext c fs).setHandle h ⟨true, mount, s⟩).handles h) =
          ⟨true, mount, s⟩ := setHandle_same
        exact .opened ho.resolved (congrArg Handle.mountIndex hself) rfl
      · have hother : (((t.setContext c fs).setHandle h' ⟨true, mount, s⟩).handles h) =
          t.handles h := setHandle_of_ne hh
        exact .kept (fun heq => by cases heq) (by rw [← hother]; exact hu) hother rfl

/-- A handle is not in use after it is closed. -/
lemma Linked.close_unused (hl : Linked t) (h : Fin vfsMaxHandles) :
    ((Vfs.step t (.close h)).2.handles h).used = false := by
  rw [Vfs.step]
  cases hu : t.usedHandle h with
  | none =>
    rw [vfsClose, hu]
    refine Bool.eq_false_iff.mpr fun (hused : (t.handles h).used = true) => ?_
    rw [usedHandle_eq_some.mpr ⟨rfl, hused⟩] at hu
    cases hu
  | some h' =>
    obtain ⟨hh, hused⟩ := usedHandle_eq_some.mp hu
    obtain rfl := Fin.ext hh
    obtain ⟨c, s, ht⟩ := hl.target hused
    rw [vfsClose_eq ht (hl.open_ ht)]
    exact congrArg Handle.used setHandle_same

lemma Linked.handleStep (hl : Linked t) (call : Call κ)
    (hu : ((Vfs.step t call).2.handles h).used = true) :
    HandleStep t h call (Vfs.step t call).1 (Vfs.step t call).2 := by
  have hne : call ≠ .close h := by
    rintro rfl
    rw [hl.close_unused h] at hu
    cases hu
  have hopen : ∀ path flags handleOut, call = .open_ path flags handleOut →
      HandleStep t h call (Vfs.step t call).1 (Vfs.step t call).2 := by
    rintro path flags handleOut rfl
    exact hl.handleStep_open hu
  have heffect := step_effect hl call
  generalize Vfs.step t call = r at heffect hu hopen
  obtain ⟨answer, t'⟩ := r
  dsimp only at heffect hu hopen ⊢
  cases heffect with
  | refused => exact .kept hne hu rfl rfl
  | @mounted path context ops i mount hfree hused =>
    refine .kept hne hu rfl (update_of_ne (fun heq => ?_) _ _)
    have hmount := hl.mounted h hu
    rw [heq, hfree] at hmount
    cases hmount
  | madeDirectory => exact .kept hne hu rfl rfl
  | opened => exact hopen _ _ _ rfl
  | @closed c h' s ht =>
    have hh : h ≠ h' := fun heq => hne (by rw [heq])
    have hother : (t.closed h' c s).handles h = t.handles h := setHandle_of_ne hh
    exact .kept hne (by rw [← hother]; exact hu) hother rfl
  | read | wrote | sought | listed => exact .kept hne hu rfl rfl

/-- A handle in use belongs to the mount it was opened on. -/
lemma openedOn_run (t : Vfs κ) (calls : List (Call κ)) :
    let t' := Runs.final step (start t) calls
    (t'.handles h).used = true →
      OpenedOn (start t) calls h (t'.mounts (t'.handles h).mountIndex) := by
  induction calls using reverseRecOn with
  | nil =>
    intro t' hu
    cases hu
  | append_singleton calls call ih =>
    have hl := linked_run t calls
    intro t' hu
    have ht' : t' = (step (Runs.final step (start t) calls) call).2 :=
      Runs.final_append step (start t) calls [call]
    clear_value t'
    subst ht'
    have hstep := hl.handleStep call hu
    generalize hr : step (Runs.final step (start t) calls) call = r at hstep hu
    obtain ⟨answer, t'⟩ := r
    dsimp only at hstep hu ih ⊢
    cases hstep with
    | kept hne hused hsame hmount =>
      rw [hsame, hmount]
      exact (ih hused).snoc hne
    | @opened path flags handleOut _ i relative hres hi hmounts =>
      rw [hi, hmounts]
      exact ⟨calls, path, flags, handleOut, [], i, relative, rfl, by rw [hr],
        fun _ hmem => absurd hmem not_mem_nil, hres, rfl⟩

/-! ### Isolation -/

/-- The path that a call is given. -/
def pathArg : Call κ → Option CString
  | .mkdir path _ => path
  | .open_ path _ _ => path
  | .list path _ _ => path
  | _ => none

/-- The path of the call resolves to a mount of the file system `d`. -/
def ResolvesTo (t : Vfs κ) (call : Call κ) (d : κ) : Prop :=
  ∃ path i relative, pathArg call = some path ∧ t.resolveMount path = some (i, relative) ∧
    (t.mounts i).context = some d

lemma eq_of_setContext_ne {fs : Tmpfs} (hd : (t.setContext c fs).contexts d ≠ t.contexts d) :
    d = c := by
  by_contra hne
  exact hd (setContext_of_ne hne)

lemma mkdir_resolvesTo {path : Option CString} {permissions : UInt32}
    (hd : (step t (.mkdir path permissions)).2.contexts d ≠ t.contexts d) :
    ResolvesTo t (.mkdir path permissions) d := by
  rw [step, vfsMkdir] at hd
  cases path with
  | none => exact absurd rfl hd
  | some path =>
    cases hr : t.resolveMount path with
    | none =>
      simp only [Option.map_some, Option.bind_some, hr] at hd
      exact absurd rfl hd
    | some found =>
      obtain ⟨mount, relative⟩ := found
      simp only [Option.map_some, Option.bind_some, hr] at hd
      cases hcontext : (t.mounts mount).context with
      | none =>
        rw [onMount, hcontext] at hd
        exact absurd rfl hd
      | some c =>
        rw [onMount_eq hcontext] at hd
        exact ⟨path, mount, relative, rfl, hr, eq_of_setContext_ne hd ▸ hcontext⟩

lemma Linked.open_resolvesTo (hl : Linked t) {path : Option CString} {flags : UInt32}
    {handleOut : Bool}
    (hd : (Vfs.step t (.open_ path flags handleOut)).2.contexts d ≠ t.contexts d) :
    ResolvesTo t (.open_ path flags handleOut) d := by
  cases path with
  | none => exact absurd rfl hd
  | some path =>
    rw [Vfs.step, Option.map_some] at hd
    rcases vfsOpen_cases hl path flags handleOut with
      ⟨status, heq⟩ | ⟨mount, relative, c, h, s, fs, ho, heq⟩
    · rw [heq] at hd
      exact absurd rfl hd
    · rw [heq] at hd
      exact ⟨path, mount, relative, rfl, ho.resolved, eq_of_setContext_ne hd ▸ ho.context⟩

/-- A call changes no file system but the one its path resolves to or its handle stands
for. -/
lemma Linked.changed (hl : Linked t) {call : Call κ}
    (hd : (Vfs.step t call).2.contexts d ≠ t.contexts d) :
    ResolvesTo t call d ∨ ∃ (h : Fin vfsMaxHandles) (s : Fin tmpfsMaxOpen),
      handleArg call = some h.val ∧ Targets t h d s := by
  have hmkdir : ∀ path permissions, call = .mkdir path permissions → ResolvesTo t call d := by
    rintro path permissions rfl
    exact mkdir_resolvesTo hd
  have hopen : ∀ path flags handleOut, call = .open_ path flags handleOut →
      ResolvesTo t call d := by
    rintro path flags handleOut rfl
    exact hl.open_resolvesTo hd
  have heffect := step_effect hl call
  generalize Vfs.step t call = r at heffect hd
  obtain ⟨answer, t'⟩ := r
  dsimp only at heffect hd
  cases heffect with
  | refused | mounted => exact absurd rfl hd
  | madeDirectory => exact .inl (hmkdir _ _ rfl)
  | opened => exact .inl (hopen _ _ _ rfl)
  | @closed c h s ht => exact .inr ⟨h, s, rfl, eq_of_setContext_ne hd ▸ ht⟩
  | @read buffer readOut length c h s ht =>
    exact .inr ⟨h, s, rfl, eq_of_setContext_ne hd ▸ ht⟩
  | @wrote buffer writtenOut bytes c h s ht hbytes hfits =>
    exact .inr ⟨h, s, rfl, eq_of_setContext_ne hd ▸ ht⟩
  | @sought offset c h s ht hfits => exact .inr ⟨h, s, rfl, eq_of_setContext_ne hd ▸ ht⟩
  | listed => exact absurd rfl hd

/-- **Routing by the longest mount, and isolation of mounts.**  After every run from
`vfs_init` with file systems fresh from `tmpfs_init`, an absolute path resolves to the
mount with the longest path among those that cover it, the earliest of these, with the
rest of the path, and to nothing if no mount covers it.  The next call changes no file
system but that of the mount its path resolves to, or of the mount its handle was opened
on, whatever has been mounted since. -/
theorem vfs_routing_isolated (t₀ : Vfs κ) (calls : List (Call κ)) :
    let t := Runs.final step (start t₀) calls
    let ms := mountsOf (Runs.trace step (start t₀) calls)
    (∀ path : CString, path.val.head? = some slash →
      (∀ (i : Fin vfsMaxMounts) (relative : List UInt8),
        t.resolveMount path = some (i, relative) ↔ Routed ms path i relative) ∧
      (t.resolveMount path = none ↔ ∀ m ∈ ms, ¬ Covers m.path path)) ∧
    (∀ (i : Fin vfsMaxMounts) (m : Mount κ), ms[i.val]? = some m → t.mounts i = m) ∧
    ∀ (call : Call κ) (d : κ), (step t call).2.contexts d ≠ t.contexts d →
      ResolvesTo t call d ∨ ∃ h mount, handleArg call = some h.val ∧
        OpenedOn (start t₀) calls h mount ∧ mount.context = some d := by
  have ht := table_run t₀ calls
  have hl := linked_run t₀ calls
  intro t ms
  refine ⟨fun path habs => ⟨fun i relative => ht.resolveMount_iff path.2 habs,
    ht.resolveMount_none_iff path.2 habs⟩, ht.taken, fun call d hd => ?_⟩
  rcases hl.changed hd with hres | ⟨h, s, harg, htarget⟩
  · exact Or.inl hres
  · exact Or.inr ⟨h, _, harg, openedOn_run t₀ calls htarget.used, htarget.context⟩

end Vfs

end JoshOS
