import JoshOS.Tmpfs.Contents
import JoshOS.Vfs.Handles

/-!
Files behind handles.

* `record`: the history of every file, kept along a run.
* `Kept`: the file systems are as the histories say.
* `last_writer_wins`: reads see the latest writes, and calls on one file leave the others
  and their handles alone.
* `truncated_data_gone`: while no write leaves old bytes in a gap, what a read returns is
  determined by what was written since the file was created or cut.
-/

namespace JoshOS

open Function Slots Tmpfs Writes

namespace Vfs

variable {κ : Type} [DecidableEq κ] {t t' : Vfs κ} {c d : κ} {h h' : Fin vfsMaxHandles}
  {s s' : Fin tmpfsMaxOpen} {handle : ℕ}

/-! ### Handles and files -/

/-- The file system and the open slot that a handle stands for. -/
def slotOf (t : Vfs κ) (handle : ℕ) : Option (κ × Fin tmpfsMaxOpen) :=
  match t.usedHandle handle with
  | none => none
  | some h =>
    match (t.mounts (t.handles h).mountIndex).context with
    | none => none
    | some c =>
      if hb : (t.handles h).backendHandle < tmpfsMaxOpen then
        some (c, ⟨(t.handles h).backendHandle, hb⟩)
      else none

/-- The file a handle is open on. -/
def fileOf (t : Vfs κ) (handle : ℕ) : Option (κ × NodeIndex) :=
  (t.slotOf handle).map fun p => (p.1, ((t.contexts p.1).opens p.2).node)

/-- The offset of a handle. -/
def offsetOf (t : Vfs κ) (handle : ℕ) : Option ℕ :=
  (t.slotOf handle).map fun p => ((t.contexts p.1).opens p.2).offset

/-- The node that a file is. -/
def nodeOf (t : Vfs κ) (f : κ × NodeIndex) : TmpfsNode := (t.contexts f.1).nodes f.2

omit [DecidableEq κ] in
lemma slotOf_eq_some : t.slotOf handle = some (c, s) ↔ ∃ h, handle = h.val ∧ Targets t h c s := by
  constructor
  · intro heq
    rw [slotOf] at heq
    cases hu : t.usedHandle handle with
    | none => simp [hu] at heq
    | some h =>
      obtain ⟨hh, hused⟩ := usedHandle_eq_some.mp hu
      cases hc : (t.mounts (t.handles h).mountIndex).context with
      | none => simp [hu, hc] at heq
      | some c' =>
        simp only [hu, hc] at heq
        split_ifs at heq with hb
        obtain ⟨rfl, rfl⟩ := Prod.mk.inj (Option.some.inj heq)
        exact ⟨h, hh, hused, hc, rfl⟩
  · rintro ⟨h, rfl, ht⟩
    have hlt : (t.handles h).backendHandle < tmpfsMaxOpen := ht.backend ▸ s.isLt
    rw [slotOf, usedHandle_eq_some.mpr ⟨rfl, ht.used⟩]
    simp only [ht.context]
    rw [dif_pos hlt, Option.some_inj, Prod.mk.injEq]
    exact ⟨rfl, Fin.ext ht.backend⟩

omit [DecidableEq κ] in
lemma Targets.slotOf (ht : Targets t h c s) : t.slotOf h = some (c, s) :=
  slotOf_eq_some.mpr ⟨h, rfl, ht⟩

omit [DecidableEq κ] in
lemma Targets.fileOf (ht : Targets t h c s) :
    t.fileOf h = some (c, ((t.contexts c).opens s).node) := by
  rw [Vfs.fileOf, ht.slotOf, Option.map_some]

omit [DecidableEq κ] in
lemma Targets.offsetOf (ht : Targets t h c s) :
    t.offsetOf h = some ((t.contexts c).opens s).offset := by
  rw [Vfs.offsetOf, ht.slotOf, Option.map_some]

/-! ### Histories -/

/-- What was written to each file since it was created or last cut. -/
abbrev History (κ : Type) := κ × NodeIndex → FileHistory

/-- The histories after a call: a file that is created or cut by an open starts anew, and
a write that succeeds is added. -/
def record (t : Vfs κ) (log : History κ) (call : Call κ) (answer : Answer) (t' : Vfs κ) :
    History κ :=
  match call, answer with
  | .open_ _ flags _, .ok (.handle h) =>
    match t'.fileOf h with
    | none => log
    | some f =>
      if Truncates flags ∨ (t.nodeOf f).used = false then Function.update log f [] else log
  | .write handle buffer _, .ok _ =>
    match t.fileOf handle, t.offsetOf handle, Source.toList? buffer with
    | some f, some offset, some bytes => Function.update log f ((offset, bytes) :: log f)
    | _, _, _ => log
  | _, _ => log

/-- A call together with the histories. -/
def logged (x : Vfs κ × History κ) (call : Call κ) : Answer × Vfs κ × History κ :=
  let r := step x.1 call
  (r.1, r.2, record x.1 x.2 call r.1 r.2)

variable {D : (ℕ → UInt8) → FileHistory → Prop} {log : History κ}

/-- Handles are linked to slots, and the file systems are as the histories say. -/
structure Kept (D : (ℕ → UInt8) → FileHistory → Prop) (t : Vfs κ) (log : History κ) : Prop where
  linked : Linked t
  contents : ∀ c, Contents D (t.contexts c) fun n => log (c, n)

/-- A change of one file system and of the histories of its files. -/
lemma contents_setContext (hk : ∀ d, Contents D (t.contexts d) fun n => log (d, n)) {fs : Tmpfs}
    {log' : History κ} (hlog : ∀ d ≠ c, ∀ n, log' (d, n) = log (d, n))
    (hfs : Contents D fs fun n => log' (c, n)) (d : κ) :
    Contents D ((t.setContext c fs).contexts d) fun n => log' (d, n) := by
  by_cases hd : d = c
  · subst hd
    rwa [setContext_same]
  · rw [setContext_of_ne hd]
    simpa only [hlog d hd] using hk d

omit [DecidableEq κ] in
/-- The histories of one file system, when that of one of its files changes. -/
lemma update_curry [DecidableEq κ] {n : NodeIndex} {entries : FileHistory} :
    (fun m => update log (c, n) entries (c, m)) =
      update (fun m => log (c, m)) n entries := by
  funext m
  by_cases hm : m = n
  · simp [hm]
  · rw [update_of_ne hm, update_of_ne (by simp [hm])]

/-- The condition under which a call keeps `D`: a write that goes through puts its bytes
over the file in a way that `D` allows. -/
def WriteKeeps (D : (ℕ → UInt8) → FileHistory → Prop) (t : Vfs κ) (log : History κ)
    (call : Call κ) : Prop :=
  ∀ (h : Fin vfsMaxHandles) (buffer : Source) (writtenOut : Bool) (bytes : List UInt8) (c : κ)
    (s : Fin tmpfsMaxOpen), call = .write h buffer writtenOut → Targets t h c s →
    let entry := (t.contexts c).opens s
    Source.toList? buffer = some bytes →
    (writtenOut = true ∧ entry.flags &&& vfsOpenWrite ≠ 0 ∧
      entry.offset + bytes.length ≤ tmpfsFileCapacity) →
    D ((t.contexts c).nodes entry.node).data (log (c, entry.node)) →
    D (overlay ((t.contexts c).nodes entry.node).data entry.offset bytes)
      ((entry.offset, bytes) :: log (c, entry.node))

@[simp] lemma record_error {call : Call κ} {status : VfsStatus} :
    record t log call (.error status) t' = log := by
  cases call <;> rfl

/-- Every call keeps the files as the histories say. -/
lemma Kept.step (hk : Kept D t log) (hnil : ∀ data, D data []) (call : Call κ)
    (hwrite : WriteKeeps D t log call) :
    Kept D (step t call).2 (record t log call (step t call).1 (step t call).2) := by
  have hlinked := hk.linked.step call
  have heffect := step_effect hk.linked call
  generalize Vfs.step t call = r at hlinked heffect
  obtain ⟨answer, t'⟩ := r
  dsimp only at heffect hlinked ⊢
  refine ⟨hlinked, ?_⟩
  -- a slot in use stays on its file when its offset changes
  have hmove (c : κ) (s : Fin tmpfsMaxOpen) (hu : ((t.contexts c).opens s).used = true)
      (offset : ℕ) (hle : offset ≤ tmpfsFileCapacity) :
      Contents D ((t.contexts c).setOpen s { (t.contexts c).opens s with offset := offset })
        fun n => log (c, n) :=
    (hk.contents c).setOpen
      (fun _ => ⟨(hk.contents c).open_used s hu, (hk.contents c).open_file s hu⟩) fun _ => hle
  cases heffect with
  | refused =>
    rw [record_error]
    exact hk.contents
  | mounted hfree hused => exact hk.contents
  | madeDirectory relative hc =>
    exact contents_setContext hk.contents (fun _ _ _ => rfl)
      ((hk.contents _).create hnil hc (fun _ _ => rfl) fun htype => by cases htype)
  | @opened path flags handleOut mount c h s fs relative hfree hmount hcontext hopen =>
    have ht' := targets_setHandle_self (h := h) (s := s) fs hcontext
    have hfile : ((t.setContext c fs).setHandle h ⟨true, mount, s⟩).fileOf h =
        some (c, (fs.opens s).node) := by
      rw [ht'.fileOf]
      change some (c, (((t.setContext c fs).contexts c).opens s).node) = _
      rw [setContext_same]
    simp only [record, hfile]
    refine contents_setContext hk.contents (fun d hd n => ?_) ?_
    · split_ifs
      · rw [update_of_ne (by simp [hd])]
      · rfl
    · have := (hk.contents c).openOutcome hnil hopen
      split_ifs at this ⊢ with h₁ h₂ h₂
      · rwa [update_curry]
      · exact absurd h₁ h₂
      · exact absurd h₂ h₁
      · exact this
  | closed ht =>
    exact contents_setContext hk.contents (fun _ _ _ => rfl)
      ((hk.contents _).setOpen (fun hu => by cases hu) fun hu => by cases hu)
  | @read buffer readOut length c h s ht =>
    have hu := hk.linked.open_ ht
    refine contents_setContext hk.contents (fun _ _ _ => rfl) (hmove c s hu _ ?_)
    have := (hk.contents c).size_le _ ((hk.contents c).open_used s hu)
    have := (hk.contents c).offset_le s hu
    rw [readCount]
    omega
  | @wrote buffer writtenOut bytes c h s ht hbytes hfits =>
    have hu := hk.linked.open_ ht
    have hc := hk.contents c
    simp only [record, ht.fileOf, ht.offsetOf, hbytes]
    refine contents_setContext hk.contents (fun d hd n => ?_) ?_
    · rw [update_of_ne (by simp [hd])]
    · rw [update_curry]
      exact hc.written hu hfits.2.2 (hwrite h buffer writtenOut bytes c s rfl ht hbytes hfits
        (hc.data _ (hc.open_used s hu) (hc.open_file s hu)))
  | @sought offset c h s ht hfits =>
    exact contents_setContext hk.contents (fun _ _ _ => rfl)
      (hmove c s (hk.linked.open_ ht) _ hfits)
  | listed => exact hk.contents

/-! ### Other files and other handles -/

/-- The handle that a call is given. -/
def handleArg : Call κ → Option ℕ
  | .close handle => some handle
  | .read handle _ _ _ => some handle
  | .write handle _ _ => some handle
  | .seek handle _ => some handle
  | _ => none

/-- The file that a call is on: that of its handle, or the one it opens. -/
def touched (t : Vfs κ) (call : Call κ) (answer : Answer) (t' : Vfs κ) : Option (κ × NodeIndex) :=
  match call, answer with
  | .open_ _ _ _, .ok (.handle h) => t'.fileOf h
  | call, _ => (handleArg call).bind t.fileOf

omit [DecidableEq κ] in
/-- Opening leaves the other nodes alone. -/
lemma openOutcome_nodes {fs : Tmpfs} {relative : List UInt8} {flags : UInt32}
    (hopen : OpenOutcome (t.contexts c) relative flags (.ok s, fs)) {n : NodeIndex}
    (hn : n ≠ (fs.opens s).node) : fs.nodes n = (t.contexts c).nodes n := by
  have hopened (fs₀ : Tmpfs) (index : NodeIndex)
      (hn : n ≠ ((fs₀.opened index flags s).opens s).node) :
      n ≠ index ∧ (fs₀.opened index flags s).nodes n = fs₀.nodes n := by
    rw [opened, setOpen_same] at hn
    refine ⟨hn, ?_⟩
    rw [opened, setOpen_nodes]
    split_ifs
    · exact setNode_of_ne hn
    · rfl
  cases hopen with
  | found hnode hfile hslot => exact (hopened _ _ hn).2
  | created hnode hc hslot =>
    obtain ⟨hne, heq⟩ := hopened _ _ hn
    rw [heq, withFile, setNode_of_ne hne]

/-- The nodes after a change of one file system. -/
lemma nodeOf_setContext {fs : Tmpfs} {f : κ × NodeIndex}
    (hfs : ∀ n, f = (c, n) → fs.nodes n = (t.contexts c).nodes n) :
    (t.setContext c fs).nodeOf f = t.nodeOf f := by
  obtain ⟨d, n⟩ := f
  by_cases hd : d = c
  · subst hd
    rw [nodeOf, setContext_same, hfs n rfl, nodeOf]
  · rw [nodeOf, setContext_of_ne hd, nodeOf]

/-- A call leaves every file in use but its own alone. -/
lemma Linked.nodeOf_step (hl : Linked t) {call : Call κ} {f : κ × NodeIndex}
    (hf : (t.nodeOf f).used = true)
    (hne : touched t call (Vfs.step t call).1 (Vfs.step t call).2 ≠ some f) :
    (Vfs.step t call).2.nodeOf f = t.nodeOf f := by
  have heffect := step_effect hl call
  generalize Vfs.step t call = r at heffect hne
  obtain ⟨answer, t'⟩ := r
  dsimp only at heffect hne ⊢
  cases heffect with
  | refused | mounted => rfl
  | @madeDirectory path permissions c parent name index relative hc =>
    refine nodeOf_setContext fun n hn => setNode_of_ne ?_
    rintro rfl
    rw [hn, nodeOf, hc.unused] at hf
    cases hf
  | @opened path flags handleOut mount c h s fs relative hfree hmount hcontext hopen =>
    have ht' := targets_setHandle_self (h := h) (s := s) fs hcontext
    refine nodeOf_setContext fun n hn => openOutcome_nodes hopen ?_
    rintro rfl
    refine hne ?_
    rw [touched, ht'.fileOf, hn]
    change some (c, (((t.setContext c fs).contexts c).opens s).node) = _
    rw [setContext_same]
  | closed | read => exact nodeOf_setContext fun n hn => rfl
  | @wrote buffer writtenOut bytes c h s ht hbytes hfits =>
    refine nodeOf_setContext fun n hn => setNode_of_ne ?_
    rintro rfl
    exact hne (hn ▸ ht.fileOf)
  | sought ht hfits => exact nodeOf_setContext fun n hn => rfl
  | listed => rfl

omit [DecidableEq κ] in
/-- A handle that stands for the same unchanged slot has the same offset. -/
lemma Targets.offsetOf_eq (ht : Targets t h c s) (ht' : Targets t' h c s)
    (heq : (t'.contexts c).opens s = (t.contexts c).opens s) : t'.offsetOf h = t.offsetOf h := by
  rw [ht'.offsetOf, ht.offsetOf, heq]

/-- Slots after a change of one file system. -/
lemma opens_setContext {fs : Tmpfs} (hfs : c = d → fs.opens s = (t.contexts d).opens s) :
    ((t.setContext d fs).contexts c).opens s = (t.contexts c).opens s := by
  by_cases hd : c = d
  · subst hd
    rw [setContext_same, hfs rfl]
  · rw [setContext_of_ne hd]

/-- A call leaves the offsets of other handles alone. -/
lemma Linked.offsetOf_step (hl : Linked t) {call : Call κ} (hh : handleArg call ≠ some handle)
    (hslot : t.slotOf handle ≠ none) : (Vfs.step t call).2.offsetOf handle = t.offsetOf handle := by
  obtain ⟨⟨c, s⟩, hcs⟩ := Option.ne_none_iff_exists'.mp hslot
  obtain ⟨h, rfl, ht⟩ := slotOf_eq_some.mp hcs
  have heffect := step_effect hl call
  generalize Vfs.step t call = r at heffect
  obtain ⟨answer, t'⟩ := r
  dsimp only at heffect ⊢
  -- the slot of another handle is another slot
  have hother (h₀ : Fin vfsMaxHandles) (d : κ) (s₀ : Fin tmpfsMaxOpen) (ht₀ : Targets t h₀ d s₀)
      (hne : some h₀.val ≠ some h.val) (hd : c = d) : s ≠ s₀ := by
    rintro rfl
    subst hd
    exact hne (by rw [hl.paired.injective h₀ h (c, s) ht₀ ht])
  cases heffect with
  | refused => rfl
  | @mounted path context ops i mount hfree hused =>
    have hne : (t.handles h).mountIndex ≠ i := by
      rintro rfl
      rw [hl.mounted h ht.used] at hfree
      cases hfree
    exact ht.offsetOf_eq
      ⟨ht.used, (congrArg _ (update_of_ne hne _ _)).trans ht.context, ht.backend⟩ rfl
  | madeDirectory relative hc =>
    exact ht.offsetOf_eq ⟨ht.used, ht.context, ht.backend⟩ (opens_setContext fun _ => rfl)
  | @opened path flags handleOut mount d h₀ s₀ fs relative hfree hmount hcontext hopen =>
    obtain ⟨hfreeSlot, -, hold⟩ := openOutcome_opens hopen
    have hne : h ≠ h₀ := by
      rintro rfl
      rw [ht.used] at hfree
      cases hfree
    refine ht.offsetOf_eq ((targets_setHandle_of_ne hne).mpr ht) (opens_setContext fun hd => ?_)
    refine hold s ?_
    rintro rfl
    rw [← hd, hl.open_ ht] at hfreeSlot
    cases hfreeSlot
  | @closed d h₀ s₀ ht₀ =>
    have hne : h ≠ h₀ := fun heq => hh (by rw [handleArg, heq])
    exact ht.offsetOf_eq ((targets_setHandle_of_ne hne).mpr ht)
      (opens_setContext fun hd => setOpen_of_ne (hother h₀ d s₀ ht₀ hh hd))
  | @read buffer readOut length d h₀ s₀ ht₀ =>
    exact ht.offsetOf_eq ⟨ht.used, ht.context, ht.backend⟩
      (opens_setContext fun hd => setOpen_of_ne (hother h₀ d s₀ ht₀ hh hd))
  | @wrote buffer writtenOut bytes d h₀ s₀ ht₀ hbytes hfits =>
    refine ht.offsetOf_eq ⟨ht.used, ht.context, ht.backend⟩ (opens_setContext fun hd => ?_)
    rw [written, setNode_opens]
    exact setOpen_of_ne (hother h₀ d s₀ ht₀ hh hd)
  | @sought offset d h₀ s₀ ht₀ hfits =>
    exact ht.offsetOf_eq ⟨ht.used, ht.context, ht.backend⟩
      (opens_setContext fun hd => setOpen_of_ne (hother h₀ d s₀ ht₀ hh hd))
  | listed => rfl

/-! ### Runs -/

omit [DecidableEq κ] in
lemma kept_start (t : Vfs κ) : Kept D (start t) log :=
  ⟨linked_start t, fun _ => .init⟩

omit [DecidableEq κ] in
lemma writeKeeps_agrees (call : Call κ) : WriteKeeps Agrees t log call :=
  fun _ _ _ bytes _ _ _ _ _ _ hdata => hdata.write _ bytes

/-- Along every run the files carry the latest writes. -/
theorem kept_run (t₀ : Vfs κ) (calls : List (Call κ)) :
    Kept Agrees (Runs.final logged (start t₀, fun _ => []) calls).1
      (Runs.final logged (start t₀, fun _ => []) calls).2 :=
  Runs.final_induction logged (P := fun x => Kept Agrees x.1 x.2)
    (fun _ call hk => hk.step (fun _ => agrees_nil) call (writeKeeps_agrees call))
    (kept_start t₀) calls

/-- What a read that succeeds returns, and where it leaves the handle. -/
lemma Linked.read_ok (hl : Linked t) {buffer readOut : Bool} {length : ℕ} {bytes : List UInt8}
    (hok : (Vfs.step t (.read handle buffer readOut length)).1 = .ok (.bytes bytes)) :
    ∃ c s, t.slotOf handle = some (c, s) ∧ bytes = (t.contexts c).readBytes s length ∧
      (Vfs.step t (.read handle buffer readOut length)).2.offsetOf handle =
        some (((t.contexts c).opens s).offset + (t.contexts c).readCount s length) := by
  have heffect := step_effect hl (.read handle buffer readOut length)
  rw [hok] at heffect
  generalize (Vfs.step t (.read handle buffer readOut length)).2 = t' at heffect
  cases heffect with
  | @read _ _ _ c h s ht =>
    refine ⟨c, s, ht.slotOf, rfl, ?_⟩
    have ht' : Targets (t.setContext c ((t.contexts c).setOpen s { (t.contexts c).opens s with
        offset := ((t.contexts c).opens s).offset + (t.contexts c).readCount s length })) h c s :=
      ⟨ht.used, ht.context, ht.backend⟩
    rw [ht'.offsetOf, setContext_same, setOpen_same]

lemma length_readBytes (fs : Tmpfs) (s : Fin tmpfsMaxOpen) (length : ℕ) :
    (fs.readBytes s length).length = fs.readCount s length := by
  simp [readBytes]

/-- **The last writer wins.**  In every state of a run, with the histories of what was
written to each file since it was created or last cut: a read of `n` bytes that succeeds
returns as many of them as the file has past the handle's offset, each with the value of
the latest write that covers it, and moves the offset by that number.  The size of a
file is the largest end of a write in its history.  A write that is rejected changes
nothing.  Sizes and offsets stay within the capacity.  A call changes neither the bytes
nor the size of a file other than its own, nor the offset of a handle other than its
own. -/
theorem last_writer_wins (t₀ : Vfs κ) (calls : List (Call κ)) :
    let x := Runs.final logged (start t₀, fun _ => []) calls
    (∀ handle buffer readOut n bytes,
      (step x.1 (.read handle buffer readOut n)).1 = .ok (.bytes bytes) →
      ∃ f o, x.1.fileOf handle = some f ∧ x.1.offsetOf handle = some o ∧
        bytes.length = min n ((x.1.nodeOf f).size - o) ∧
        (∀ k < bytes.length, ∀ b, latest (x.2 f) (o + k) = some b → bytes[k]? = some b) ∧
        (step x.1 (.read handle buffer readOut n)).2.offsetOf handle = some (o + bytes.length)) ∧
    (∀ f, (x.1.nodeOf f).used = true → (x.1.nodeOf f).type = .file →
      (x.1.nodeOf f).size = extent (x.2 f)) ∧
    (∀ handle buffer writtenOut status,
      (step x.1 (.write handle buffer writtenOut)).1 = .error status →
      (step x.1 (.write handle buffer writtenOut)).2 = x.1) ∧
    (∀ f, (x.1.nodeOf f).used = true → (x.1.nodeOf f).size ≤ tmpfsFileCapacity) ∧
    (∀ handle o, x.1.offsetOf handle = some o → o ≤ tmpfsFileCapacity) ∧
    (∀ call f, (x.1.nodeOf f).used = true →
      touched x.1 call (step x.1 call).1 (step x.1 call).2 ≠ some f →
      ((step x.1 call).2.nodeOf f).data = (x.1.nodeOf f).data ∧
      ((step x.1 call).2.nodeOf f).size = (x.1.nodeOf f).size) ∧
    (∀ call handle o, handleArg call ≠ some handle → x.1.offsetOf handle = some o →
      (step x.1 call).2.offsetOf handle = some o) := by
  have hk := kept_run t₀ calls
  intro x
  refine ⟨fun handle buffer readOut n bytes hok => ?_, fun f hu hfile => ?_,
    fun handle buffer writtenOut status hfail => hk.linked.refused hfail, fun f hu => ?_,
    fun handle o ho => ?_, fun call f hu hne => ?_, fun call handle o hh ho => ?_⟩
  · obtain ⟨c, s, hslot, rfl, hoffset⟩ := hk.linked.read_ok hok
    obtain ⟨h, rfl, ht⟩ := slotOf_eq_some.mp hslot
    have hu := hk.linked.open_ ht
    have hc := hk.contents c
    refine ⟨_, _, ht.fileOf, ht.offsetOf, length_readBytes _ _ _, fun k hk' b hb => ?_, ?_⟩
    · rw [length_readBytes] at hk'
      rw [readBytes, List.getElem?_map, List.getElem?_range hk', Option.map_some,
        hc.data _ (hc.open_used s hu) (hc.open_file s hu) _ b hb]
    · rw [hoffset, length_readBytes]
  · exact (hk.contents f.1).size_eq f.2 hu hfile
  · exact (hk.contents f.1).size_le f.2 hu
  · rw [offsetOf, Option.map_eq_some_iff] at ho
    obtain ⟨⟨c, s⟩, hslot, rfl⟩ := ho
    obtain ⟨h, rfl, ht⟩ := slotOf_eq_some.mp hslot
    exact (hk.contents c).offset_le s (hk.linked.open_ ht)
  · rw [hk.linked.nodeOf_step hu hne]
    exact ⟨rfl, rfl⟩
  · have hslot : x.1.slotOf handle ≠ none := fun hnone => by simp [offsetOf, hnone] at ho
    rw [hk.linked.offsetOf_step hh hslot, ho]

/-- The calls that mount a file system and create a file with four bytes. -/
def createCalls : List (Call Unit) :=
  [.mount (some ⟨[47], by decide⟩) (some ()) (some tmpfsOps),
    .open_ (some ⟨[47, 102], by decide⟩) (vfsOpenWrite ||| vfsOpenCreate) true,
    .write 0 (.bytes [65, 65, 65, 65]) true]

/-- A state to start from. -/
def blankVfs : Vfs Unit where
  mounts _ := ⟨false, [], none⟩
  handles _ := ⟨false, firstMount, 0⟩
  contexts _ := tmpfsInit

/-- Two of the four bytes are written again, and the file is read. -/
theorem last_writer_wins_overwritten :
    let calls := createCalls ++ [.close 0, .open_ (some ⟨[47, 102], by decide⟩)
      (vfsOpenRead ||| vfsOpenWrite) true, .seek 0 1, .write 0 (.bytes [66, 66]) true, .seek 0 0]
    let x := Runs.final logged (start blankVfs, fun _ => []) calls
    (step x.1 (.read 0 true true 8)).1 = .ok (.bytes [65, 66, 66, 65]) ∧
      ∃ f o, x.1.fileOf 0 = some f ∧ x.1.offsetOf 0 = some o ∧
        4 = min 8 ((x.1.nodeOf f).size - o) ∧
        (∀ k < 4, ∀ b, latest (x.2 f) (o + k) = some b → [65, 66, 66, 65][k]? = some b) ∧
        (step x.1 (.read 0 true true 8)).2.offsetOf 0 = some (o + 4) := by
  intro calls x
  have hread : (step x.1 (.read 0 true true 8)).1 = .ok (.bytes [65, 66, 66, 65]) := by
    decide +kernel
  exact ⟨hread, (last_writer_wins blankVfs calls).1 0 true true 8 _ hread⟩

/-! ### Gaps -/

/-- The condition on a call: if it is a write that goes through, at an offset past the end of
its file, the bytes that are stored in between are zero. -/
def GapBlank (x : Vfs κ × History κ) : Call κ → Prop
  | .write handle buffer writtenOut => ∀ q ∈ x.1.slotOf handle, ∀ bytes ∈ Source.toList? buffer,
      let entry := (x.1.contexts q.1).opens q.2
      let node := (x.1.contexts q.1).nodes entry.node
      writtenOut = true ∧ entry.flags &&& vfsOpenWrite ≠ 0 ∧
        entry.offset + bytes.length ≤ tmpfsFileCapacity →
      ∀ p < entry.offset, node.size ≤ p → node.data p = 0
  | _ => True

instance (x : Vfs κ × History κ) (call : Call κ) : Decidable (GapBlank x call) := by
  cases call <;> dsimp only [GapBlank] <;> infer_instance

/-- The files carry the latest writes, and are zero where nothing was written. -/
def ZeroExtended (data : ℕ → UInt8) (log : FileHistory) : Prop :=
  Agrees data log ∧ Padded 0 data log

omit [DecidableEq κ] in
lemma writeKeeps_zeroExtended (hk : Kept ZeroExtended t log) {call : Call κ}
    (hgap : GapBlank (t, log) call) : WriteKeeps ZeroExtended t log call := by
  rintro h buffer writtenOut bytes c s rfl ht entry hbytes hfits ⟨hagrees, hpadded⟩
  have hu := hk.linked.open_ ht
  have hc := hk.contents c
  refine ⟨hagrees.write _ _, hpadded.write fun p hle hlt =>
    hgap _ ht.slotOf _ hbytes hfits p hlt ?_⟩
  rw [← hc.size_eq _ (hc.open_used s hu) (hc.open_file s hu)] at hle
  exact hle

/-- Along a run without old bytes in gaps the files are zero where nothing was written. -/
theorem zeroExtended_run (t₀ : Vfs κ) {calls : List (Call κ)}
    (hlegal : Runs.Legal logged GapBlank (start t₀, fun _ => []) calls) :
    Kept ZeroExtended (Runs.final logged (start t₀, fun _ => []) calls).1
      (Runs.final logged (start t₀, fun _ => []) calls).2 :=
  Runs.legal_induction logged (P := fun x => Kept ZeroExtended x.1 x.2)
    (fun _ call hk hgap => hk.step (fun _ => ⟨agrees_nil, padded_nil⟩) call
      (writeKeeps_zeroExtended hk hgap)) (kept_start t₀) hlegal

/-- **Truncated data never comes back**, in runs whose writes leave no old bytes in a gap:
a read that succeeds returns, for every position below the size, the byte of the latest
write since the file was created or cut, and zero where there is none.  So what it
returns is determined by what was written since then. -/
theorem truncated_data_gone (t₀ : Vfs κ) (calls : List (Call κ))
    (hlegal : Runs.Legal logged GapBlank (start t₀, fun _ => []) calls) :
    let x := Runs.final logged (start t₀, fun _ => []) calls
    ∀ handle buffer readOut n bytes,
      (step x.1 (.read handle buffer readOut n)).1 = .ok (.bytes bytes) →
      ∃ f o, x.1.fileOf handle = some f ∧ x.1.offsetOf handle = some o ∧
        (x.1.nodeOf f).size = extent (x.2 f) ∧
        bytes = (List.range (min n (extent (x.2 f) - o))).map fun k =>
          (latest (x.2 f) (o + k)).getD 0 := by
  have hk := zeroExtended_run t₀ hlegal
  intro x handle buffer readOut n bytes hok
  obtain ⟨c, s, hslot, rfl, -⟩ := hk.linked.read_ok hok
  obtain ⟨h, rfl, ht⟩ := slotOf_eq_some.mp hslot
  have hu := hk.linked.open_ ht
  have hc := hk.contents c
  have hsize := hc.size_eq _ (hc.open_used s hu) (hc.open_file s hu)
  obtain ⟨hagrees, hpadded⟩ := hc.data _ (hc.open_used s hu) (hc.open_file s hu)
  refine ⟨_, _, ht.fileOf, ht.offsetOf, hsize, ?_⟩
  rw [readBytes, readCount, hsize]
  refine List.map_congr_left fun k hk' => hpadded.eq_latest hagrees ?_
  rw [List.mem_range] at hk'
  omega

/-- The calls that cut the file and write one byte at position 3. -/
def cutCalls : List (Call Unit) :=
  [.close 0, .open_ (some ⟨[47, 102], by decide⟩) (vfsOpenRead ||| vfsOpenWrite ||| vfsOpenTrunc)
    true, .seek 0 3, .write 0 (.bytes [66]) true, .seek 0 0]

/-- A run that meets the condition: the file is cut, and written again from the start. -/
theorem truncated_data_gone_rewritten :
    let calls := createCalls ++ [.close 0, .open_ (some ⟨[47, 102], by decide⟩)
      (vfsOpenRead ||| vfsOpenWrite ||| vfsOpenTrunc) true, .write 0 (.bytes [66]) true, .seek 0 0]
    let x := Runs.final logged (start blankVfs, fun _ => []) calls
    (step x.1 (.read 0 true true 4)).1 = .ok (.bytes [66]) ∧
      ∃ f o, x.1.fileOf 0 = some f ∧ x.1.offsetOf 0 = some o ∧
        (x.1.nodeOf f).size = extent (x.2 f) ∧
        [66] = (List.range (min 4 (extent (x.2 f) - o))).map fun k =>
          (latest (x.2 f) (o + k)).getD 0 := by
  intro calls x
  have hread : (step x.1 (.read 0 true true 4)).1 = .ok (.bytes [66]) := by decide +kernel
  exact ⟨hread, truncated_data_gone blankVfs calls (by decide +kernel) 0 true true 4 [66] hread⟩

/-- After a file with the bytes `AAAA` is cut and the byte `B` written at position 3, a
read of the whole file returns `AAAB`, although only position 3 was written since. -/
theorem truncated_data_back :
    let x := Runs.final logged (start blankVfs, fun _ => []) (createCalls ++ cutCalls)
    (step x.1 (.read 0 true true 4)).1 = .ok (.bytes [65, 65, 65, 66]) ∧
      ∃ f, x.1.fileOf 0 = some f ∧ x.1.offsetOf 0 = some 0 ∧ (x.1.nodeOf f).size = 4 ∧
        latest (x.2 f) 0 = none ∧ latest (x.2 f) 1 = none ∧ latest (x.2 f) 2 = none :=
  ⟨by decide +kernel, ((), ⟨1, by decide⟩), by decide +kernel⟩

end Vfs

end JoshOS
