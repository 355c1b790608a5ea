import JoshOS.Services.Store
import JoshOS.Tmpfs.Listing
import JoshOS.Vfs.Access
import JoshOS.Vfs.Mounts

/-!
The file behind the kernel log.

* `LogNode`: the log of a file system holds a text, and no slot is open on it for writing.
* `LogNode.openOutcome`, `LogNode.madeDirectory`, `LogNode.written`: operations on other files, and
  opens for reading, leave the log alone.
* `LogNode.appended`: what an append does to it.
-/

namespace JoshOS

open List Slots Tmpfs Vfs

namespace Services

variable {fs fs' : Tmpfs} {text bytes : List UInt8} {n index parent : NodeIndex} {q : CString}
  {name : List UInt8} {flags permissions : UInt32} {s : Fin tmpfsMaxOpen} {made : Prop}

/-! ### The log of a file system -/

/-- The name `kernel.log`. -/
def kernelLog : List UInt8 := [107, 101, 114, 110, 101, 108, 46, 108, 111, 103]

/-- The path of the log below `/var`. -/
def logName : CString := ⟨slash :: kernelLog, by decide⟩

/-- The flags of `log_service_append`. -/
def appendFlags : UInt32 := vfsOpenWrite ||| vfsOpenCreate

/-- Node `n` is a file that holds the text, with no slot open on it for writing. -/
structure IsLog (fs : Tmpfs) (n : NodeIndex) (text : List UInt8) : Prop where
  type_eq : (fs.nodes n).type = .file
  permissions_eq : (fs.nodes n).permissions = vfsPermRead ||| vfsPermWrite
  bytes_eq : fileBytes (fs.nodes n) = text
  shut : Shut .write fs n

/-- The log of the file system holds the text, if it is there; otherwise the text is empty.
It is there when it has been `made`. -/
structure LogNode (made : Prop) (fs : Tmpfs) (text : List UInt8) : Prop where
  tree : Tree fs
  open_used : ∀ s, (fs.opens s).used = true → (fs.nodes (fs.opens s).node).used = true
  file : ∀ n, fs.resolveNode logName = some n → IsLog fs n text
  absent : fs.resolveNode logName = none → text = []
  present : made → fs.resolveNode logName ≠ none

lemma logName_eq_pathOf : logName.val = pathOf [kernelLog] := by simp [logName]

/-- The log is the child of the root with its name. -/
lemma isChild_of_log (h : Tree fs) (hn : fs.resolveNode logName = some n) :
    IsChild fs rootNode kernelLog n := by
  obtain ⟨cs, hcs, hw⟩ := (resolveNode_eq_some h logName.2).mp hn
  have hcomponent : ∀ c ∈ [kernelLog], Component c := by
    intro c hc
    rw [mem_singleton.mp hc]
    exact ⟨by decide, by decide, by decide, by decide⟩
  rw [logName_eq_pathOf] at hcs
  obtain rfl := pathOf_injective hcomponent (hw.components h) hcs
  obtain ⟨m, hm, hw⟩ := walk_cons.mp hw
  rwa [walk_nil.mp hw]

/-- What has not been made need not be there. -/
lemma LogNode.mono {made' : Prop} (h : LogNode made fs text) (himp : made' → made) :
    LogNode made' fs text :=
  ⟨h.tree, h.open_used, h.file, h.absent, fun hmade => h.present (himp hmade)⟩

/-- Only a change of the log itself, or a new log, matters. -/
lemma LogNode.grow (h : LogNode made fs text) (hg : Grown fs fs') (ht : Tree fs')
    (hopen : ∀ s, (fs'.opens s).used = true → (fs'.nodes (fs'.opens s).node).used = true)
    (hold : ∀ n, fs.resolveNode logName = some n → IsLog fs n text → IsLog fs' n text)
    (hnew : ∀ n, fs.resolveNode logName = none → fs'.resolveNode logName = some n →
      IsLog fs' n []) : LogNode made fs' text := by
  have hkeep : ∀ n, fs.resolveNode logName = some n → fs'.resolveNode logName = some n :=
    fun n hn => hg.resolveNode h.tree ht hn
  refine ⟨ht, hopen, fun n hn => ?_, fun hnone => ?_, fun hmade hnone => ?_⟩
  · cases hlog : fs.resolveNode logName with
    | none =>
      rw [h.absent hlog]
      exact hnew n hlog hn
    | some m =>
      obtain rfl : m = n := Option.some.inj ((hkeep m hlog).symm.trans hn)
      exact hold m hlog (h.file m hlog)
  · refine h.absent (Option.eq_none_iff_forall_ne_some.mpr fun m hm => ?_)
    cases (hkeep m hm).symm.trans hnone
  · obtain ⟨m, hm⟩ := Option.ne_none_iff_exists'.mp (h.present hmade)
    cases (hkeep m hm).symm.trans hnone

/-! ### What leaves the log alone -/

lemma IsLog.congr (h : IsLog fs n text) (hnode : fs'.nodes n = fs.nodes n)
    (hshut : Shut .write fs' n) : IsLog fs' n text :=
  ⟨hnode ▸ h.type_eq, hnode ▸ h.permissions_eq, hnode ▸ h.bytes_eq, hshut⟩

/-- No file is new where the shape is the same. -/
lemma LogNode.reshape (h : LogNode made fs text) (hshape : SameShape fs fs')
    (hopen : ∀ s, (fs'.opens s).used = true → (fs'.nodes (fs'.opens s).node).used = true)
    (hold : ∀ n, fs.resolveNode logName = some n → IsLog fs n text → IsLog fs' n text) :
    LogNode made fs' text := by
  refine h.grow (.of_sameShape hshape) (hshape.tree h.tree) hopen hold fun n hnone hn => ?_
  rw [hshape.resolveNode h.tree logName.2, hnone] at hn
  cases hn

/-- Other data in another file. -/
lemma LogNode.setNode (h : LogNode made fs text) {node : TmpfsNode}
    (hshape : SameShape fs (fs.setNode n node)) (hne : fs.resolveNode logName ≠ some n) :
    LogNode made (fs.setNode n node) text := by
  refine h.reshape hshape (fun s hs => (hshape.used _).trans (h.open_used s hs)) fun m hm hlog =>
    hlog.congr (setNode_of_ne ?_) hlog.shut
  rintro rfl
  exact hne hm

/-- A slot that is not open on the log for writing. -/
lemma LogNode.setOpen (h : LogNode made fs text) {entry : TmpfsOpen}
    (hused : entry.used = true → (fs.nodes entry.node).used = true)
    (hentry : entry.used = true → ∀ n, fs.resolveNode logName = some n → entry.node = n →
      entry.flags &&& vfsOpenWrite = 0) : LogNode made (fs.setOpen s entry) text := by
  refine h.reshape ((SameShape.refl fs).setOpen entry) (fun s' hs' => ?_) fun n hn hlog =>
    hlog.congr rfl (hlog.shut.setOpen fun hu => hentry hu n hn)
  by_cases heq : s' = s
  · rw [heq, setOpen_same] at hs' ⊢
    exact hused hs'
  · rw [setOpen_of_ne heq] at hs' ⊢
    exact h.open_used s' hs'

/-- A slot that is closed. -/
lemma LogNode.close (h : LogNode made fs text) :
    LogNode made (fs.setOpen s { fs.opens s with used := false }) text :=
  h.setOpen (fun hu => by cases hu) fun hu => by cases hu

/-- A slot that is moved. -/
lemma LogNode.move (h : LogNode made fs text) (offset : ℕ) :
    LogNode made (fs.setOpen s { fs.opens s with offset := offset }) text :=
  h.setOpen (h.open_used s) fun hu n hn hnode => (h.file n hn).shut s hu hnode

/-- A write to another file. -/
lemma LogNode.written (h : LogNode made fs text)
    (hne : ∀ n, fs.resolveNode logName = some n → n ≠ (fs.opens s).node) :
    LogNode made (fs.written s bytes) text := by
  refine (h.move (s := s) ((fs.opens s).offset + bytes.length)).setNode (.setNode rfl rfl rfl rfl)
    fun hlog => ?_
  rw [((SameShape.refl fs).setOpen _).resolveNode h.tree logName.2] at hlog
  exact hne _ hlog rfl

/-- A file or directory is made, and the log only as a file. -/
lemma LogNode.created (h : LogNode made fs text) (hc : Creation fs q parent name index)
    {type : VfsNodeType}
    (hnew : (fs.setNode index (newNode parent name type permissions)).resolveNode logName =
        some index → type = .file ∧
      permissions &&& (vfsPermRead ||| vfsPermWrite) = vfsPermRead ||| vfsPermWrite) :
    LogNode made (fs.setNode index (newNode parent name type permissions)) text := by
  have hfresh := hc.fresh h.tree q.2
  refine h.grow (.setNode hc.unused) (hfresh.tree h.tree) (fun s hs => ?_)
    (fun n hn hlog => hlog.congr ?_ hlog.shut) fun n hnone hn => ?_
  · have hused := h.open_used s hs
    exact (congrArg TmpfsNode.used (setNode_of_ne (ne_of_unused hused hc.unused))).trans hused
  · exact setNode_of_ne (ne_of_unused (h.tree.used_of_resolveNode hn) hc.unused)
  · obtain rfl := hfresh.eq_of_new h.tree hnone hn
    obtain ⟨htype, hpermissions⟩ := hnew hn
    refine ⟨?_, ?_, ?_, fun s' hs' heq => ?_⟩
    · rw [setNode_same]
      exact htype
    · rw [setNode_same]
      exact hpermissions
    · rw [setNode_same]
      rfl
    -- No slot is open on a node that was not in use.
    · exact absurd heq (ne_of_unused (h.open_used s' hs') hc.unused)

/-- A directory is made, and not in the place of the log. -/
lemma LogNode.madeDirectory (h : LogNode made fs text) (hc : Creation fs q parent name index)
    (htype : ∀ n, (fs.setNode index (newNode parent name .directory permissions)).resolveNode
      logName = some n → ((fs.setNode index (newNode parent name .directory permissions)).nodes
        n).type = .file) :
    LogNode made (fs.setNode index (newNode parent name .directory permissions)) text := by
  refine h.created hc fun hn => ?_
  have hfile := htype index hn
  rw [setNode_same] at hfile
  cases hfile

/-- A new file. -/
lemma LogNode.withFile (h : LogNode made fs text) (hc : Creation fs q parent name index) :
    LogNode made (fs.withFile index parent name) text := h.created hc fun _ => ⟨rfl, rfl⟩

/-- A file is opened, and not the log for writing. -/
lemma LogNode.opened (h : LogNode made fs text) (hused : (fs.nodes index).used = true)
    (hspare : flags &&& vfsOpenWrite ≠ 0 → fs.resolveNode logName ≠ some index) :
    LogNode made (fs.opened index flags s) text := by
  obtain ⟨base, hshape, hbase, heq⟩ : ∃ base, SameShape fs base ∧ LogNode made base text ∧
      fs.opened index flags s = base.setOpen s ⟨true, index, flags, 0⟩ := by
    by_cases hcut : Truncates flags
    · have hcutShape : SameShape fs (fs.setNode index { fs.nodes index with size := 0 }) :=
        .setNode rfl rfl rfl rfl
      exact ⟨_, hcutShape, h.setNode hcutShape (hspare hcut.2), by rw [Tmpfs.opened, if_pos hcut]⟩
    · exact ⟨fs, .refl fs, h, by rw [Tmpfs.opened, if_neg hcut]⟩
  rw [heq]
  refine hbase.setOpen (fun _ => (hshape.used index).trans hused) fun _ n hn hnode => ?_
  rw [hshape.resolveNode h.tree logName.2, ← show index = n from hnode] at hn
  by_contra hwrite
  exact hspare hwrite hn

/-- **An open leaves the log alone**, unless it opens the log for writing. -/
lemma LogNode.openOutcome (h : LogNode made fs text) (ho : OpenOutcome fs q flags (.ok s, fs'))
    (hspare : flags &&& vfsOpenWrite ≠ 0 → fs'.resolveNode logName ≠ some (fs'.opens s).node) :
    LogNode made fs' text := by
  cases ho with
  | @found index s hnode hfile hslot =>
    refine h.opened (h.tree.used_of_resolveNode hnode) fun hwrite hlog => hspare hwrite ?_
    rw [sameShape_opened.resolveNode h.tree logName.2, Tmpfs.opened, setOpen_same]
    exact hlog
  | @created parent name index s hnode hc hslot hcreate =>
    have hfile := h.withFile hc
    refine hfile.opened ?_ fun hwrite hlog => hspare hwrite ?_
    · rw [Tmpfs.withFile, setNode_same]
      rfl
    · rw [sameShape_opened.resolveNode hfile.tree logName.2, Tmpfs.opened, setOpen_same]
      exact hlog

/-! ### Appending -/

/-- Bytes written at the end of a file. -/
lemma fileBytes_overwrite_end {node : TmpfsNode} (hbytes : fileBytes node = text) :
    fileBytes { node with
      data := overwrite node.data text.length bytes
      size := max node.size (text.length + bytes.length) } = text ++ bytes := by
  have hsize : node.size = text.length := by rw [← hbytes, fileBytes, length_map,
    length_range]
  refine ext_getElem (by simp [fileBytes, hsize]) fun k hk hk' => ?_
  simp only [fileBytes, getElem_map, getElem_range, overwrite]
  by_cases hold : k < text.length
  · rw [if_neg (by omega), getElem_append_left hold]
    subst hbytes
    simp only [fileBytes, getElem_map, getElem_range]
  · rw [length_append] at hk'
    rw [if_pos (by omega), getElem_append_right (by omega), getD_eq_getElem _ _ (by omega)]

/-- A log with a new text. -/
lemma LogNode.setText (h : LogNode made fs text) {made' : Prop} {text' : List UInt8}
    (hn : fs.resolveNode logName = some n)
    {node : TmpfsNode} (hused : node.used = (fs.nodes n).used)
    (hparent : node.parent = (fs.nodes n).parent) (htype : node.type = (fs.nodes n).type)
    (hname : node.name = (fs.nodes n).name)
    (hpermissions : node.permissions = (fs.nodes n).permissions)
    (hbytes : fileBytes node = text') : LogNode made' (fs.setNode n node) text' := by
  have hshape : SameShape fs (fs.setNode n node) := .setNode hused hparent htype hname
  have hlog := h.file n hn
  have hresolve : (fs.setNode n node).resolveNode logName = some n := by
    rw [hshape.resolveNode h.tree logName.2, hn]
  refine ⟨hshape.tree h.tree, fun s hs => (hshape.used _).trans (h.open_used s hs), fun m hm => ?_,
    fun hnone => ?_, fun _ hnone => ?_⟩
  · obtain rfl : n = m := Option.some.inj (hresolve.symm.trans hm)
    refine ⟨?_, ?_, ?_, hlog.shut⟩
    · rw [setNode_same, htype, hlog.type_eq]
    · rw [setNode_same, hpermissions, hlog.permissions_eq]
    · rw [setNode_same, hbytes]
  · rw [hresolve] at hnone
    cases hnone
  · rw [hresolve] at hnone
    cases hnone

/-- The log is opened as it is, or created empty. -/
lemma LogNode.opened_log (h : LogNode made fs text)
    (ho : OpenOutcome fs logName appendFlags (.ok s, fs')) :
    ∃ base n, LogNode made base text ∧ base.resolveNode logName = some n ∧
      fs' = base.setOpen s ⟨true, n, appendFlags, 0⟩ := by
  have hcut : ¬ Truncates appendFlags := by decide
  cases ho with
  | @found n s hnode hfile hslot => exact ⟨fs, n, h, hnode, by rw [Tmpfs.opened, if_neg hcut]⟩
  | @created parent name index s hnode hc hslot hcreate =>
    have hfresh := hc.fresh h.tree logName.2
    have hslash : ¬ DoubleSlash logName.val := by
      change ¬ [slash, slash] <+: slash :: kernelLog
      decide
    have hnamed : Named fs (fs.withFile index parent name) logName :=
      (hfresh.named_iff h.tree).mpr hslash
    obtain ⟨n, -, hn, -⟩ := hnamed
    refine ⟨_, n, h.withFile hc, hn, ?_⟩
    rw [hfresh.eq_of_new h.tree hnode hn, Tmpfs.opened, if_neg hcut]

/-- The slot of an append is closed without a write. -/
lemma LogNode.closed (h : LogNode made fs text)
    (ho : OpenOutcome fs logName appendFlags (.ok s, fs')) (offset : ℕ) :
    LogNode made (fs'.setOpen s { fs'.opens s with used := false, offset := offset }) text := by
  obtain ⟨base, n, hbase, -, rfl⟩ := h.opened_log ho
  have hfs : (base.setOpen s ⟨true, n, appendFlags, 0⟩).setOpen s
      { (base.setOpen s ⟨true, n, appendFlags, 0⟩).opens s with used := false, offset := offset } =
        base.setOpen s ⟨false, n, appendFlags, offset⟩ := by
    simp [Tmpfs.setOpen]
  rw [hfs]
  exact hbase.setOpen (fun hu => by cases hu) fun hu => by cases hu

/-- **What an append does**: the text is put behind that of the log, and the slot is closed. -/
lemma LogNode.appended {made' : Prop} (h : LogNode made fs text)
    (ho : OpenOutcome fs logName appendFlags (.ok s, fs')) :
    let fs₁ := fs'.setOpen s { fs'.opens s with offset := text.length }
    LogNode made' ((fs₁.written s bytes).setOpen s
      { (fs₁.written s bytes).opens s with used := false }) (text ++ bytes) := by
  intro fs₁
  obtain ⟨base, n, hbase, hn, rfl⟩ := h.opened_log ho
  set closed : Tmpfs := base.setOpen s ⟨false, n, appendFlags, text.length + bytes.length⟩
  have hclosed : LogNode made closed text :=
    hbase.setOpen (fun hu => by cases hu) fun hu => by cases hu
  have hresolve : closed.resolveNode logName = some n := by
    rw [((SameShape.refl base).setOpen _).resolveNode hbase.tree logName.2, hn]
  have hfs : (fs₁.written s bytes).setOpen s
      { (fs₁.written s bytes).opens s with used := false } =
        closed.setNode n
          { base.nodes n with
            data := overwrite (base.nodes n).data text.length bytes
            size := max (base.nodes n).size (text.length + bytes.length) } := by
    simp [fs₁, closed, Tmpfs.written, Tmpfs.setOpen, Tmpfs.setNode]
  rw [hfs]
  exact hclosed.setText hresolve rfl rfl rfl rfl rfl
    (fileBytes_overwrite_end (hbase.file n hn).bytes_eq)

lemma resolveParent_log (fs : Tmpfs) : fs.resolveParent logName = some (rootNode, kernelLog) := rfl

/-- **The log opens for an append** while there is a free slot, unless it is not there and
there is no node for it. -/
lemma LogNode.opOpen_append (h : LogNode made fs text)
    (hslot : ∃ slot, (fs.opens slot).used = false) :
    fs.opOpen logName appendFlags = (.error .noSpace, fs) ∨
      ∃ s fs', fs.opOpen logName appendFlags = (.ok s, fs') := by
  rw [opOpen]
  cases hlog : fs.resolveNode logName with
  | some n =>
    obtain ⟨s, -, hopen⟩ := openNode_ok appendFlags (h.file n hlog).type_eq
      (h.file n hlog).permissions_eq hslot
    exact .inr ⟨s, _, hopen⟩
  | none =>
    have hchild : fs.childNamed rootNode kernelLog kernelLog.length = none := by
      rw [childNamed_eq_none h.tree (by decide) le_rfl, take_length]
      intro i hi
      have hwalk : Walk fs rootNode [kernelLog] i := walk_cons.mpr ⟨i, hi, .nil⟩
      rw [(resolveNode_eq_some h.tree logName.2).mpr ⟨_, logName_eq_pathOf, hwalk⟩] at hlog
      cases hlog
    have hcopy : copyName kernelLog kernelLog.length = some kernelLog := rfl
    simp only [createNode, resolveParent_log, hchild, Option.isSome_none, Bool.false_eq_true,
      if_false, hcopy]
    rw [if_pos (by decide)]
    cases fs.allocateNode with
    | none => exact .inl rfl
    | some index =>
      have hnode : (fs.withFile index rootNode kernelLog).nodes index =
          newNode rootNode kernelLog .file (vfsPermRead ||| vfsPermWrite) := setNode_same ..
      obtain ⟨s, -, hopen⟩ := openNode_ok appendFlags (congrArg TmpfsNode.type hnode)
        (congrArg TmpfsNode.permissions hnode) hslot
      exact .inr ⟨s, _, hopen⟩

end Services

end JoshOS
