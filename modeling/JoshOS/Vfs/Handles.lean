import JoshOS.Lib.Pairing
import JoshOS.Lib.Runs
import JoshOS.Tmpfs.Tree
import JoshOS.Vfs.Model

/-!
Handles of the switch and open slots of the file systems.

* `Effect`, `step_effect`: what a call can do, said once.
* `Linked`: the handles in use correspond one to one to the open slots in use.
* `vfs_atomic`: a call that fails changes nothing.
-/

namespace JoshOS

open Function Slots Tmpfs

namespace Vfs

variable {κ : Type} [DecidableEq κ] {t t' : Vfs κ} {c d : κ} {h h' : Fin vfsMaxHandles}
  {s s' : Fin tmpfsMaxOpen} {mount : Fin vfsMaxMounts} {α : Type}

/-! ### Calls -/

/-- A call of `vfs.h`. -/
inductive Call (κ : Type) where
  | mount (path : Option CString) (context : Option κ) (ops : Option VfsFsOps)
  | mkdir (path : Option CString) (permissions : UInt32)
  | open_ (path : Option CString) (flags : UInt32) (handleOut : Bool)
  | close (handle : ℕ)
  | read (handle : ℕ) (buffer readOut : Bool) (length : ℕ)
  | write (handle : ℕ) (buffer : Source) (writtenOut : Bool)
  | seek (handle offset : ℕ)
  | list (path : Option CString) (index : ℕ) (entryOut : Bool)

/-- What a call that succeeds hands out. -/
inductive Value where
  | unit
  | handle (handle : Fin vfsMaxHandles)
  | bytes (bytes : List UInt8)
  | count (count : ℕ)
  | entry (entry : VfsDirent)
  deriving DecidableEq

/-- The answer of a call. -/
abbrev Answer := Except VfsStatus Value

/-- One call. -/
def step (t : Vfs κ) : Call κ → Answer × Vfs κ
  | .mount path context ops =>
    (t.vfsMount (path.map (·.val)) context ops).map (·.map fun _ => .unit) id
  | .mkdir path permissions =>
    (t.vfsMkdir (path.map (·.val)) permissions).map (·.map fun _ => .unit) id
  | .open_ path flags handleOut =>
    (t.vfsOpen (path.map (·.val)) flags handleOut).map (·.map .handle) id
  | .close handle => (t.vfsClose handle).map (·.map fun _ => .unit) id
  | .read handle buffer readOut length =>
    (t.vfsRead handle buffer readOut length).map (·.map .bytes) id
  | .write handle buffer writtenOut =>
    (t.vfsWrite handle buffer writtenOut).map (·.map .count) id
  | .seek handle offset => (t.vfsSeek handle offset).map (·.map fun _ => .unit) id
  | .list path index entryOut =>
    (t.vfsList (path.map (·.val)) index entryOut).map (·.map .entry) id

/-- The first place of the mount table. -/
def firstMount : Fin vfsMaxMounts := ⟨0, by decide⟩

/-- The state after `vfs_init`, with file systems fresh from `tmpfs_init`. -/
def start (t : Vfs κ) : Vfs κ := vfsInit { t with contexts := fun _ => tmpfsInit }

/-! ### The correspondence -/

/-- The handle `h` in use stands for slot `s` of the file system `c`. -/
structure Targets (t : Vfs κ) (h : Fin vfsMaxHandles) (c : κ) (s : Fin tmpfsMaxOpen) : Prop where
  used : (t.handles h).used = true
  context : (t.mounts (t.handles h).mountIndex).context = some c
  backend : (t.handles h).backendHandle = s.val

/-- Handles in use correspond one to one to open slots in use. -/
structure Linked (t : Vfs κ) : Prop where
  mounted : ∀ h, (t.handles h).used = true → (t.mounts (t.handles h).mountIndex).used = true
  paired : Pairing (fun h => (t.handles h).used = true)
    (fun p : κ × Fin tmpfsMaxOpen => ((t.contexts p.1).opens p.2).used = true)
    fun h p => Targets t h p.1 p.2

omit [DecidableEq κ] in
lemma Linked.target (hl : Linked t) (hu : (t.handles h).used = true) : ∃ c s, Targets t h c s := by
  obtain ⟨⟨c, s⟩, ht⟩ := hl.paired.total h hu
  exact ⟨c, s, ht⟩

omit [DecidableEq κ] in
lemma Linked.open_ (hl : Linked t) (ht : Targets t h c s) :
    ((t.contexts c).opens s).used = true := hl.paired.right h (c, s) ht

omit [DecidableEq κ] in
lemma Targets.unique (h₁ : Targets t h c s) (h₂ : Targets t h d s') : (c, s) = (d, s') :=
  Prod.ext (Option.some.inj (h₁.context.symm.trans h₂.context))
    (Fin.ext (h₁.backend.symm.trans h₂.backend))

omit [DecidableEq κ] in
/-- While there is a free handle, every file system has a free slot: otherwise each of
its slots has a handle of its own, and these are all the handles there are. -/
lemma Linked.free_slot (hl : Linked t) (hfree : (t.handles h).used = false) (c : κ) :
    ∃ s, ((t.contexts c).opens s).used = false := by
  by_contra hall
  simp only [not_exists, Bool.not_eq_false] at hall
  choose f hf using fun s => hl.paired.onto (c, s) (hall s)
  have hinj : Function.Injective (show Fin vfsMaxHandles → Fin vfsMaxHandles from f) :=
    fun s s' heq => (Prod.mk.inj ((hf s).unique (heq ▸ hf s'))).2
  obtain ⟨s, rfl⟩ := Finite.injective_iff_surjective.mp hinj h
  exact absurd (hf s).used (by simp [hfree])

/-! ### What calls do -/

/-- The file system `c` replaced. -/
def setContext (t : Vfs κ) (c : κ) (fs : Tmpfs) : Vfs κ :=
  { t with contexts := Function.update t.contexts c fs }

/-- Handle `h` replaced. -/
def setHandle (t : Vfs κ) (h : Fin vfsMaxHandles) (handle : Handle) : Vfs κ :=
  { t with handles := Function.update t.handles h handle }

@[simp] lemma setContext_self : t.setContext c (t.contexts c) = t := by
  simp [setContext]

@[simp] lemma setContext_same {fs : Tmpfs} : (t.setContext c fs).contexts c = fs := by
  simp [setContext]

lemma setContext_of_ne {fs : Tmpfs} (hne : d ≠ c) :
    (t.setContext c fs).contexts d = t.contexts d := by
  simp [setContext, hne]

/-- The state after a handle is closed. -/
def closed (t : Vfs κ) (h : Fin vfsMaxHandles) (c : κ) (s : Fin tmpfsMaxOpen) : Vfs κ :=
  (t.setContext c
    ((t.contexts c).setOpen s { (t.contexts c).opens s with used := false })).setHandle
      h { t.handles h with used := false }

/-- What a call can do: fail and leave everything as it is, or one of the following. -/
inductive Effect (t : Vfs κ) : Call κ → Answer → Vfs κ → Prop
  | refused (call : Call κ) (status : VfsStatus) : Effect t call (.error status) t
  | mounted {path : Option CString} {context : Option κ} {ops : Option VfsFsOps}
      {i : Fin vfsMaxMounts} {mount : Mount κ} (hfree : (t.mounts i).used = false)
      (hused : mount.used = true) :
      Effect t (.mount path context ops) (.ok .unit)
        { t with mounts := Function.update t.mounts i mount }
  | madeDirectory {path : Option CString} {permissions : UInt32} {c : κ} {parent : NodeIndex}
      {name : List UInt8} {index : NodeIndex} (relative : CString)
      (hc : Creation (t.contexts c) relative parent name index) :
      Effect t (.mkdir path permissions) (.ok .unit) (t.setContext c
        ((t.contexts c).setNode index (newNode parent name .directory permissions)))
  | opened {path : Option CString} {flags : UInt32} {handleOut : Bool} {mount : Fin vfsMaxMounts}
      {c : κ} {h : Fin vfsMaxHandles} {s : Fin tmpfsMaxOpen} {fs : Tmpfs} (relative : CString)
      (hfree : (t.handles h).used = false) (hmount : (t.mounts mount).used = true)
      (hcontext : (t.mounts mount).context = some c)
      (hopen : OpenOutcome (t.contexts c) relative flags (.ok s, fs)) :
      Effect t (.open_ path flags handleOut) (.ok (.handle h))
        ((t.setContext c fs).setHandle h ⟨true, mount, s⟩)
  | closed {c : κ} {h : Fin vfsMaxHandles} {s : Fin tmpfsMaxOpen} (ht : Targets t h c s) :
      Effect t (.close h) (.ok .unit) (t.closed h c s)
  | read {buffer readOut : Bool} {length : ℕ} {c : κ} {h : Fin vfsMaxHandles}
      {s : Fin tmpfsMaxOpen} (ht : Targets t h c s) :
      Effect t (.read h buffer readOut length) (.ok (.bytes ((t.contexts c).readBytes s length)))
        (t.setContext c ((t.contexts c).setOpen s { (t.contexts c).opens s with
          offset := ((t.contexts c).opens s).offset + (t.contexts c).readCount s length }))
  | wrote {buffer : Source} {writtenOut : Bool} {bytes : List UInt8} {c : κ}
      {h : Fin vfsMaxHandles} {s : Fin tmpfsMaxOpen} (ht : Targets t h c s)
      (hbytes : Source.toList? buffer = some bytes)
      (hfits : writtenOut = true ∧ ((t.contexts c).opens s).flags &&& vfsOpenWrite ≠ 0 ∧
        ((t.contexts c).opens s).offset + bytes.length ≤ tmpfsFileCapacity) :
      Effect t (.write h buffer writtenOut) (.ok (.count bytes.length))
        (t.setContext c ((t.contexts c).written s bytes))
  | sought {offset : ℕ} {c : κ} {h : Fin vfsMaxHandles} {s : Fin tmpfsMaxOpen}
      (ht : Targets t h c s) (hfits : offset ≤ tmpfsFileCapacity) :
      Effect t (.seek h offset) (.ok .unit) (t.setContext c ((t.contexts c).setOpen s
        { (t.contexts c).opens s with offset := offset }))
  | listed {path : Option CString} {index : ℕ} {entryOut : Bool} {entry : VfsDirent} :
      Effect t (.list path index entryOut) (.ok (.entry entry)) t

omit [DecidableEq κ] in
lemma usedHandle_eq_some {handle : ℕ} :
    t.usedHandle handle = some h ↔ handle = h.val ∧ (t.handles h).used = true := by
  rw [usedHandle]
  constructor
  · intro hu
    split_ifs at hu with hlt hused
    obtain rfl := Option.some.inj hu
    exact ⟨rfl, hused⟩
  · rintro ⟨rfl, hused⟩
    rw [dif_pos h.isLt, if_pos hused]

lemma onMount_eq {null : VfsStatus} {op : Tmpfs → Except VfsStatus α × Tmpfs}
    (hcontext : (t.mounts mount).context = some c) :
    t.onMount mount null op = ((op (t.contexts c)).1, t.setContext c (op (t.contexts c)).2) := by
  rw [onMount, hcontext]
  rfl

lemma onHandle_eq (ht : Targets t h c s) {op : Tmpfs → ℕ → Except VfsStatus α × Tmpfs} :
    t.onHandle h op = ((op (t.contexts c) s).1, t.setContext c (op (t.contexts c) s).2) := by
  rw [onHandle, usedHandle_eq_some.mpr ⟨rfl, ht.used⟩]
  dsimp only
  rw [onMount_eq ht.context, ht.backend]

/-- An operation on a handle that fails, or acts on an open slot, does the same from the
outside. -/
lemma onHandle_cases (hl : Linked t) (handle : ℕ) {op : Tmpfs → ℕ → Except VfsStatus α × Tmpfs}
    {Q : Tmpfs → Fin tmpfsMaxOpen → Except VfsStatus α × Tmpfs → Prop}
    (hop : ∀ fs k, (∃ status, op fs k = (.error status, fs)) ∨
      ∃ s : Fin tmpfsMaxOpen, k = s.val ∧ Q fs s (op fs k)) :
    (∃ status, t.onHandle handle op = (.error status, t)) ∨
      ∃ h c s r, handle = (h : Fin vfsMaxHandles).val ∧ Targets t h c s ∧ Q (t.contexts c) s r ∧
        t.onHandle handle op = (r.1, t.setContext c r.2) := by
  cases hu : t.usedHandle handle with
  | none =>
    rw [onHandle, hu]
    exact .inl ⟨_, rfl⟩
  | some h =>
    obtain ⟨hh, hused⟩ := usedHandle_eq_some.mp hu
    obtain ⟨c, s, ht⟩ := hl.target hused
    subst hh
    rw [onHandle_eq ht]
    rcases hop (t.contexts c) s with ⟨status, heq⟩ | ⟨s', hs', hQ⟩
    · rw [heq]
      exact .inl ⟨status, by rw [setContext_self]⟩
    · obtain rfl : s = s' := Fin.ext hs'
      exact .inr ⟨h, c, s, _, rfl, ht, hQ, rfl⟩

omit [DecidableEq κ] in
/-- A mount that a path resolves to is in use. -/
lemma resolveMount_used {path : List UInt8} {relative : List UInt8}
    (hr : t.resolveMount path = some (mount, relative)) : (t.mounts mount).used = true := by
  have hloop (is : List (Fin vfsMaxMounts)) (found : Option (Fin vfsMaxMounts)) (best : ℕ)
      (hfound : ∀ i, found = some i → (t.mounts i).used = true) (i : Fin vfsMaxMounts)
      (hi : t.resolveMountFrom path found best is = some i) : (t.mounts i).used = true := by
    induction is generalizing found best with
    | nil => exact hfound i hi
    | cons j is ih =>
      rw [resolveMountFrom] at hi
      split_ifs at hi with hskip hbest
      · exact ih _ _ hfound hi
      · rw [not_or, Bool.not_eq_false] at hskip
        exact ih _ _ (fun k hk => Option.some.inj hk ▸ hskip.1) hi
      · exact ih _ _ hfound hi
  rw [resolveMount] at hr
  split at hr
  · cases hr
  · rename_i i hi
    obtain rfl := (Prod.mk.inj (Option.some.inj hr)).1
    exact hloop _ none 0 (fun i hi => by cases hi) _ hi

omit [DecidableEq κ] in
/-- The path below a mount is a string again. -/
lemma resolveMount_string {path : CString} {relative : List UInt8}
    (hr : t.resolveMount path = some (mount, relative)) : (0 : UInt8) ∉ relative := by
  rw [resolveMount] at hr
  split at hr
  · cases hr
  · rename_i i hi
    obtain ⟨-, rfl⟩ := Prod.mk.inj (Option.some.inj hr)
    split_ifs
    · decide
    · exact path.2
    · decide
    · exact fun hmem => path.2 (List.mem_of_mem_drop hmem)

/-- The call has one of the effects. -/
abbrev Effective (t : Vfs κ) (call : Call κ) : Prop := Effect t call (step t call).1 (step t call).2

lemma mount_effect (path : Option CString) (context : Option κ) (ops : Option VfsFsOps) :
    Effective t (.mount path context ops) := by
  cases path with
  | none => exact .refused _ _
  | some path =>
    cases ops with
    | none => exact .refused _ _
    | some ops =>
      rw [Effective, step, Option.map_some, vfsMount]
      split
      · exact .refused _ _
      · split
        · exact .refused _ _
        · rename_i i hi
          split
          · exact .refused _ _
          · exact .mounted (by simpa using firstSlot_some hi) rfl

lemma mkdir_effect (path : Option CString) (permissions : UInt32) :
    Effective t (.mkdir path permissions) := by
  rw [Effective, step, vfsMkdir]
  cases path with
  | none => exact .refused _ _
  | some path =>
    cases hr : t.resolveMount path with
    | none =>
      simp only [Option.map_some, Option.bind_some, hr]
      exact .refused _ _
    | some found =>
      obtain ⟨mount, relative⟩ := found
      simp only [Option.map_some, Option.bind_some, hr]
      cases hcontext : (t.mounts mount).context with
      | none =>
        rw [onMount, hcontext]
        exact .refused _ _
      | some c =>
        rw [onMount_eq hcontext]
        rcases opMkdir_cases (t.contexts c) relative permissions with
          ⟨status, heq⟩ | ⟨parent, name, index, hc, heq⟩
        · rw [heq, setContext_self]
          exact .refused _ _
        · rw [heq]
          exact .madeDirectory ⟨relative, resolveMount_string hr⟩ hc

/-- The details of an open that succeeds. -/
structure Opening (t : Vfs κ) (path : List UInt8) (flags : UInt32) (mount : Fin vfsMaxMounts)
    (relative : List UInt8) (c : κ) (h : Fin vfsMaxHandles) (s : Fin tmpfsMaxOpen) (fs : Tmpfs) :
    Prop where
  resolved : t.resolveMount path = some (mount, relative)
  free : (t.handles h).used = false
  context : (t.mounts mount).context = some c
  outcome : OpenOutcome (t.contexts c) relative flags (.ok s, fs)

lemma vfsOpen_cases (hl : Linked t) (path : List UInt8) (flags : UInt32) (handleOut : Bool) :
    (∃ status, t.vfsOpen (some path) flags handleOut = (.error status, t)) ∨
      ∃ mount relative c h s fs, Opening t path flags mount relative c h s fs ∧
        t.vfsOpen (some path) flags handleOut =
          (.ok h, (t.setContext c fs).setHandle h ⟨true, mount, s⟩) := by
  rw [vfsOpen]
  split
  · exact .inl ⟨_, rfl⟩
  · cases hr : t.resolveMount path with
    | none => exact .inl ⟨_, rfl⟩
    | some found =>
      obtain ⟨mount, relative⟩ := found
      cases hh : firstSlot fun i => (t.handles i).used = false with
      | none => exact .inl ⟨_, rfl⟩
      | some h =>
        have hfree : (t.handles h).used = false := by simpa using firstSlot_some hh
        dsimp only
        cases hcontext : (t.mounts mount).context with
        | none =>
          rw [onMount, hcontext]
          exact .inl ⟨_, rfl⟩
        | some c =>
          rw [onMount_eq hcontext]
          have hopen := opOpen_outcome (t.contexts c) relative flags
          cases hop : (t.contexts c).opOpen relative flags with
          | mk answer fs =>
            rw [hop] at hopen
            cases answer with
            | ok s =>
              exact .inr ⟨mount, relative, c, h, s, fs, ⟨hr, hfree, hcontext, hopen⟩, rfl⟩
            | error status =>
              cases hopen with
              | refused =>
                dsimp only
                rw [setContext_self]
                exact .inl ⟨status, rfl⟩
              | stranded hc hfull =>
                obtain ⟨s, hs⟩ := hl.free_slot hfree c
                rw [hfull s] at hs
                cases hs

/-- An open that nothing stands in the way of. -/
lemma vfsOpen_ok {path relative : List UInt8} {flags : UInt32} {fs : Tmpfs}
    (hflags : flags &&& (vfsOpenRead ||| vfsOpenWrite) ≠ 0)
    (hr : t.resolveMount path = some (mount, relative)) (hfree : ∃ h, (t.handles h).used = false)
    (hcontext : (t.mounts mount).context = some c)
    (hop : (t.contexts c).opOpen relative flags = (.ok s, fs)) :
    ∃ h, Opening t path flags mount relative c h s fs ∧
      t.vfsOpen (some path) flags true =
        (.ok h, (t.setContext c fs).setHandle h ⟨true, mount, s⟩) := by
  cases hh : firstSlot fun i => (t.handles i).used = false with
  | none =>
    obtain ⟨h, hfree⟩ := hfree
    have := firstSlot_eq_none.mp hh h
    simp [hfree] at this
  | some h =>
    have hfree : (t.handles h).used = false := by simpa using firstSlot_some hh
    have hout := opOpen_outcome (t.contexts c) relative flags
    rw [hop] at hout
    refine ⟨h, ⟨hr, hfree, hcontext, hout⟩, ?_⟩
    rw [vfsOpen, if_neg (by simp [hflags]), hr]
    simp only [hh]
    rw [onMount_eq hcontext, hop]
    rfl

lemma open_effect (hl : Linked t) (path : Option CString) (flags : UInt32) (handleOut : Bool) :
    Effective t (.open_ path flags handleOut) := by
  cases path with
  | none => exact .refused _ _
  | some path =>
    rw [Effective, step, Option.map_some]
    rcases vfsOpen_cases hl path flags handleOut with
      ⟨status, heq⟩ | ⟨mount, relative, c, h, s, fs, ho, heq⟩
    · rw [heq]
      exact .refused _ _
    · rw [heq]
      exact .opened ⟨relative, resolveMount_string ho.resolved⟩ ho.free
        (resolveMount_used ho.resolved) ho.context ho.outcome

lemma vfsClose_eq (ht : Targets t h c s) (hu : ((t.contexts c).opens s).used = true) :
    t.vfsClose h = (.ok (), t.closed h c s) := by
  have hclose : (t.contexts c).opClose (t.handles h).backendHandle = (.ok (),
      (t.contexts c).setOpen s { (t.contexts c).opens s with used := false }) := by
    rw [ht.backend, opClose, openSlot_eq_some.mpr ⟨rfl, hu⟩]
  rw [vfsClose, usedHandle_eq_some.mpr ⟨rfl, ht.used⟩]
  dsimp only
  rw [onMount_eq ht.context, hclose]
  rfl

lemma close_effect (hl : Linked t) (handle : ℕ) : Effective t (.close handle) := by
  rw [Effective, step]
  cases hu : t.usedHandle handle with
  | none =>
    rw [vfsClose, hu]
    exact .refused _ _
  | some h =>
    obtain ⟨rfl, hused⟩ := usedHandle_eq_some.mp hu
    obtain ⟨c, s, ht⟩ := hl.target hused
    rw [vfsClose_eq ht (hl.open_ ht)]
    exact .closed ht

lemma read_effect (hl : Linked t) (handle : ℕ) (buffer readOut : Bool) (length : ℕ) :
    Effective t (.read handle buffer readOut length) := by
  rw [Effective, step, vfsRead]
  rcases onHandle_cases (Q := fun fs s r => r = (.ok (fs.readBytes s length), fs.setOpen s
      { fs.opens s with offset := (fs.opens s).offset + fs.readCount s length })) hl handle
      fun fs k => (opRead_cases fs k buffer readOut length).imp_right
        fun ⟨s, hk, _, heq⟩ => ⟨s, hk, heq⟩ with
    ⟨status, heq⟩ | ⟨h, c, s, r, rfl, ht, rfl, heq⟩
  · rw [heq]
    exact .refused _ _
  · rw [heq]
    exact .read ht

lemma write_effect (hl : Linked t) (handle : ℕ) (buffer : Source) (writtenOut : Bool) :
    Effective t (.write handle buffer writtenOut) := by
  rw [Effective, step, vfsWrite]
  rcases onHandle_cases (Q := fun fs s r => ∃ bytes, Source.toList? buffer = some bytes ∧
      (writtenOut = true ∧ (fs.opens s).flags &&& vfsOpenWrite ≠ 0 ∧
        (fs.opens s).offset + bytes.length ≤ tmpfsFileCapacity) ∧
      r = (.ok bytes.length, fs.written s bytes)) hl handle
      fun fs k => (opWrite_cases fs k buffer writtenOut).imp_right
        fun ⟨s, bytes, hk, _, hr⟩ => ⟨s, hk, bytes, hr⟩ with
    ⟨status, heq⟩ | ⟨h, c, s, r, rfl, ht, ⟨bytes, hbytes, hfits, rfl⟩, heq⟩
  · rw [heq]
    exact .refused _ _
  · rw [heq]
    exact .wrote ht hbytes hfits

lemma seek_effect (hl : Linked t) (handle offset : ℕ) : Effective t (.seek handle offset) := by
  rw [Effective, step, vfsSeek]
  rcases onHandle_cases (Q := fun fs s r => offset ≤ tmpfsFileCapacity ∧
      r = (.ok (), fs.setOpen s { fs.opens s with offset := offset })) hl handle
      fun fs k => (opSeek_cases fs k offset).imp_right
        fun ⟨s, hk, _, hr⟩ => ⟨s, hk, hr⟩ with
    ⟨status, heq⟩ | ⟨h, c, s, r, rfl, ht, ⟨hfits, rfl⟩, heq⟩
  · rw [heq]
    exact .refused _ _
  · rw [heq]
    exact .sought ht hfits

lemma list_effect (path : Option CString) (index : ℕ) (entryOut : Bool) :
    Effective t (.list path index entryOut) := by
  rw [Effective, step, vfsList]
  split
  · exact .refused _ _
  · rename_i mount relative hr
    split
    · exact .refused _ _
    · cases hcontext : (t.mounts mount).context with
      | none =>
        rw [onMount, hcontext]
        exact .refused _ _
      | some c =>
        rw [onMount_eq hcontext]
        dsimp only
        rw [setContext_self]
        cases (t.contexts c).opList relative index with
        | error status => exact .refused _ _
        | ok entry => exact .listed

/-- Every call has one of the effects. -/
theorem step_effect (hl : Linked t) (call : Call κ) :
    Effect t call (step t call).1 (step t call).2 := by
  cases call with
  | mount path context ops => exact mount_effect path context ops
  | mkdir path permissions => exact mkdir_effect path permissions
  | open_ path flags handleOut => exact open_effect hl path flags handleOut
  | close handle => exact close_effect hl handle
  | read handle buffer readOut length => exact read_effect hl handle buffer readOut length
  | write handle buffer writtenOut => exact write_effect hl handle buffer writtenOut
  | seek handle offset => exact seek_effect hl handle offset
  | list path index entryOut => exact list_effect path index entryOut

/-! ### The correspondence is kept -/

omit [DecidableEq κ] in
/-- A change that concerns neither handles in use nor slots in use. -/
lemma Linked.congr (hl : Linked t) (hhandles : ∀ h, t'.handles h = t.handles h)
    (hmounts : ∀ h, (t.handles h).used = true →
      t'.mounts (t.handles h).mountIndex = t.mounts (t.handles h).mountIndex)
    (hopens : ∀ c s, ((t'.contexts c).opens s).used = ((t.contexts c).opens s).used) :
    Linked t' := by
  refine ⟨fun h hu => ?_, hl.paired.congr (fun h => by rw [hhandles])
    (fun p => by rw [hopens]) fun h p => ?_⟩
  · rw [hhandles] at hu ⊢
    exact hmounts h hu ▸ hl.mounted h hu
  · constructor
    · rintro ⟨hused, hcontext, hbackend⟩
      rw [hhandles] at hused hcontext hbackend
      exact ⟨hused, hmounts h hused ▸ hcontext, hbackend⟩
    · rintro ⟨hused, hcontext, hbackend⟩
      exact ⟨by rwa [hhandles], by rwa [hhandles, hmounts h hused], by rwa [hhandles]⟩

/-- Operations on a file system that leave its slots in use alone keep the
correspondence. -/
lemma Linked.setContext (hl : Linked t) {fs : Tmpfs}
    (hused : ∀ s, (fs.opens s).used = ((t.contexts c).opens s).used) :
    Linked (t.setContext c fs) := by
  refine hl.congr (fun _ => rfl) (fun _ _ => rfl) fun d s => ?_
  by_cases hd : d = c
  · rw [hd, setContext_same, hused]
  · rw [setContext_of_ne hd]

omit [DecidableEq κ] in
/-- A mount put into a free place does not concern the handles. -/
lemma Linked.setMount (hl : Linked t) {i : Fin vfsMaxMounts} {entry : Mount κ}
    (hfree : (t.mounts i).used = false) :
    Linked { t with mounts := update t.mounts i entry } := by
  refine hl.congr (fun _ => rfl) (fun h hu => update_of_ne (fun heq => ?_) _ _)
    fun _ _ => rfl
  have := hl.mounted h hu
  rw [heq, hfree] at this
  cases this

/-- The targets of the other handles, when one is replaced. -/
lemma targets_setHandle_of_ne {fs : Tmpfs} {entry : Handle} (hne : h' ≠ h) :
    Targets ((t.setContext c fs).setHandle h entry) h' d s ↔ Targets t h' d s := by
  have hother : ((t.setContext c fs).setHandle h entry).handles h' = t.handles h' :=
    update_of_ne hne _ _
  constructor
  · rintro ⟨hu, hc, hb⟩
    rw [hother] at hu hc hb
    exact ⟨hu, hc, hb⟩
  · rintro ⟨hu, hc, hb⟩
    exact ⟨by rwa [hother], by rwa [hother], by rwa [hother]⟩

omit [DecidableEq κ] in
lemma setHandle_same {entry : Handle} : (t.setHandle h entry).handles h = entry :=
  update_self _ _ _

omit [DecidableEq κ] in
lemma setHandle_of_ne {entry : Handle} (hne : h' ≠ h) :
    (t.setHandle h entry).handles h' = t.handles h' := update_of_ne hne _ _

/-- A new handle stands for what it was set to. -/
lemma targets_setHandle_self (fs : Tmpfs) (hcontext : (t.mounts mount).context = some c) :
    Targets ((t.setContext c fs).setHandle h ⟨true, mount, s⟩) h c s :=
  ⟨by rw [setHandle_same], by rw [setHandle_same]; exact hcontext, by rw [setHandle_same]⟩

/-- A handle and a slot that go into use together correspond to each other. -/
lemma Linked.openHandle (hl : Linked t) {fs : Tmpfs} (hfree : (t.handles h).used = false)
    (hmount : (t.mounts mount).used = true) (hcontext : (t.mounts mount).context = some c)
    (hslot : ((t.contexts c).opens s).used = false) (hnew : (fs.opens s).used = true)
    (hold : ∀ s' ≠ s, (fs.opens s').used = ((t.contexts c).opens s').used) :
    Linked ((t.setContext c fs).setHandle h ⟨true, mount, s⟩) := by
  have htarget := targets_setHandle_self (h := h) (s := s) fs hcontext
  refine ⟨fun h' hu => ?_, hl.paired.insert (a := h) (b := (c, s)) (by simp [hfree])
    (by simp [hslot]) (fun h' => ?_) (fun ⟨d, s'⟩ => ?_) fun h' ⟨d, s'⟩ => ?_⟩
  · by_cases hne : h' = h
    · rw [hne, setHandle_same]
      exact hmount
    · rw [setHandle_of_ne hne] at hu ⊢
      exact hl.mounted h' hu
  · by_cases hne : h' = h
    · simp [hne, setHandle_same]
    · rw [setHandle_of_ne hne]
      simp [hne, Vfs.setContext]
  · change (((t.setContext c fs).contexts d).opens s').used = true ↔ _
    by_cases hd : d = c
    · subst hd
      by_cases hs : s' = s
      · simp [hs, hnew]
      · simp [hs, hold s' hs]
    · simp [setContext_of_ne hd, hd]
  · by_cases hne : h' = h
    · subst hne
      constructor
      · exact fun ht => .inl ⟨rfl, ht.unique htarget⟩
      · rintro (⟨-, heq⟩ | ht)
        · rw [heq]
          exact htarget
        · exact absurd ht.used (by simp [hfree])
    · rw [targets_setHandle_of_ne hne]
      simp [hne]

/-- A handle and the slot it stands for go out of use together. -/
lemma Linked.closeHandle (hl : Linked t) (ht : Targets t h c s) : Linked (t.closed h c s) := by
  rw [closed]
  refine ⟨fun h' hu => ?_, hl.paired.erase (a := h) (b := (c, s)) ht (fun h' => ?_)
    (fun ⟨d, s'⟩ => ?_) fun h' ⟨d, s'⟩ => ?_⟩
  · by_cases hne : h' = h
    · rw [hne, setHandle_same] at hu
      cases hu
    · rw [setHandle_of_ne hne] at hu ⊢
      exact hl.mounted h' hu
  · by_cases hne : h' = h
    · simp [hne, setHandle_same]
    · rw [setHandle_of_ne hne]
      simp [hne, Vfs.setContext]
  · change (((t.setContext c _).contexts d).opens s').used = true ↔ _
    by_cases hd : d = c
    · subst hd
      by_cases hs : s' = s
      · simp [hs]
      · simp [hs, setOpen_of_ne hs]
    · simp [setContext_of_ne hd, hd]
  · by_cases hne : h' = h
    · subst hne
      constructor
      · intro ht'
        have := ht'.used
        rw [setHandle_same] at this
        cases this
      · exact fun hn => absurd rfl hn.1
    · rw [targets_setHandle_of_ne hne]
      simp [hne]

omit [DecidableEq κ] in
/-- Opening in a file system takes one slot into use. -/
lemma openOutcome_opens {fs : Tmpfs} {relative : List UInt8} {flags : UInt32}
    (hopen : OpenOutcome (t.contexts c) relative flags (.ok s, fs)) :
    ((t.contexts c).opens s).used = false ∧ (fs.opens s).used = true ∧
      ∀ s' ≠ s, fs.opens s' = (t.contexts c).opens s' := by
  have hopened (fs₀ : Tmpfs) (index : NodeIndex) (s' : Fin tmpfsMaxOpen) (hne : s' ≠ s) :
      (fs₀.opened index flags s).opens s' = fs₀.opens s' := by
    rw [opened, setOpen_of_ne hne]
    split_ifs <;> rfl
  cases hopen with
  | found hnode hfile hslot => exact ⟨hslot, by rw [opened, setOpen_same], hopened _ _⟩
  | created hnode hc hslot => exact ⟨hslot, by rw [opened, setOpen_same], hopened _ _⟩

/-- Every call keeps the correspondence. -/
lemma Linked.step (hl : Linked t) (call : Call κ) : Linked (step t call).2 := by
  have heffect := step_effect hl call
  generalize Vfs.step t call = r at heffect
  obtain ⟨answer, t'⟩ := r
  dsimp only at heffect ⊢
  cases heffect with
  | refused => exact hl
  | mounted hfree hused => exact hl.setMount hfree
  | madeDirectory relative hc => exact hl.setContext fun _ => rfl
  | opened relative hfree hmount hcontext hopen =>
    obtain ⟨hslot, hnew, hold⟩ := openOutcome_opens hopen
    exact hl.openHandle hfree hmount hcontext hslot hnew fun s' hne => by rw [hold s' hne]
  | closed ht => exact hl.closeHandle ht
  | read | sought => exact hl.setContext fun _ => moved_opens_used
  | wrote => exact hl.setContext fun _ => written_opens_used
  | listed => exact hl

omit [DecidableEq κ] in
lemma linked_start (t : Vfs κ) : Linked (start t) := by
  have hfree (h : Fin vfsMaxHandles) : ¬ ((start t).handles h).used = true := Bool.false_ne_true
  exact ⟨fun h hu => absurd hu (hfree h),
    .empty hfree (fun _ => Bool.false_ne_true) fun _ _ ht => ht.used⟩

/-- Every run from `vfs_init` keeps the correspondence. -/
theorem linked_run (t : Vfs κ) (calls : List (Call κ)) :
    Linked (Runs.final step (start t) calls) :=
  Runs.final_induction step (fun _ call hl => hl.step call) (linked_start t) calls

/-- A call that fails changes nothing. -/
lemma Linked.refused (hl : Linked t) {call : Call κ} {status : VfsStatus}
    (hfail : (Vfs.step t call).1 = .error status) : (Vfs.step t call).2 = t := by
  have heffect := step_effect hl call
  rw [hfail] at heffect
  generalize (Vfs.step t call).2 = t' at heffect
  cases heffect with
  | refused => rfl

/-- **Calls are atomic on failure.**  In every state reached from `vfs_init` with file
systems fresh from `tmpfs_init`, the handles in use and the open slots in use of the file
systems stand in one-to-one correspondence, and a call that does not return `VFS_OK`
leaves the mounts, the handles, and every node and open slot as they are. -/
theorem vfs_atomic (t₀ : Vfs κ) (calls : List (Call κ)) :
    let t := Runs.final step (start t₀) calls
    (∀ h, (t.handles h).used = true →
      ∃! p : κ × Fin tmpfsMaxOpen, Targets t h p.1 p.2 ∧
        ((t.contexts p.1).opens p.2).used = true) ∧
    (∀ c s, ((t.contexts c).opens s).used = true → ∃! h, Targets t h c s) ∧
    ∀ (call : Call κ) (status : VfsStatus), (step t call).1 = .error status →
      (step t call).2 = t := by
  have hl := linked_run t₀ calls
  intro t
  refine ⟨fun h hu => ?_, fun c s hs => ?_, fun call status hfail => hl.refused hfail⟩
  · obtain ⟨p, ht⟩ := hl.paired.total h hu
    exact ⟨p, ⟨ht, hl.paired.right h p ht⟩, fun q hq => hl.paired.functional h q p hq.1 ht⟩
  · obtain ⟨h, ht⟩ := hl.paired.onto (c, s) hs
    exact ⟨h, ht, fun h' ht' => hl.paired.injective h' h (c, s) ht' ht⟩

end Vfs

end JoshOS
