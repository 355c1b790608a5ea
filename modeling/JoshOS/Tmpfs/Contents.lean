import JoshOS.Lib.Writes
import JoshOS.Tmpfs.Tree

/-!
File contents against the history of writes.

`Contents D fs log`: every file of `fs` has the size that its history `log` gives, and its
bytes are related to the history by `D`; open slots are on files, and offsets and sizes
stay within `TMPFS_FILE_CAPACITY`.

* `Contents.setOpen`: changes of an open slot.
* `Contents.create`, `Contents.opened`: a new file starts with an empty history, and a
  truncating open empties it.
* `Contents.written`: a write adds to the history.
-/

namespace JoshOS

open Function Slots Writes

namespace Tmpfs

/-- What was written to a file since it was created or last cut, newest first. -/
abbrev FileHistory := List (ℕ × List UInt8)

variable {D : (ℕ → UInt8) → FileHistory → Prop} {fs : Tmpfs} {log : NodeIndex → FileHistory}
  {index parent : NodeIndex} {name : List UInt8} {flags : UInt32} {s : Fin tmpfsMaxOpen}
  {bytes : List UInt8} {type : VfsNodeType} {permissions : UInt32} {q : CString}

/-- The files of `fs` are as their histories say. -/
structure Contents (D : (ℕ → UInt8) → FileHistory → Prop) (fs : Tmpfs)
    (log : NodeIndex → FileHistory) : Prop where
  tree : Tree fs
  open_used : ∀ s, (fs.opens s).used = true → (fs.nodes (fs.opens s).node).used = true
  open_file : ∀ s, (fs.opens s).used = true → (fs.nodes (fs.opens s).node).type = .file
  offset_le : ∀ s, (fs.opens s).used = true → (fs.opens s).offset ≤ tmpfsFileCapacity
  size_le : ∀ n, (fs.nodes n).used = true → (fs.nodes n).size ≤ tmpfsFileCapacity
  size_eq : ∀ n, (fs.nodes n).used = true → (fs.nodes n).type = .file →
    (fs.nodes n).size = extent (log n)
  data : ∀ n, (fs.nodes n).used = true → (fs.nodes n).type = .file →
    D (fs.nodes n).data (log n)

lemma overwrite_eq_overlay (data : ℕ → UInt8) (offset : ℕ) (bytes : List UInt8) :
    overwrite data offset bytes = overlay data offset bytes := by
  funext p
  rw [overwrite]
  split_ifs with hcov
  · rw [overlay, if_pos hcov.1, List.getElem?_eq_getElem (by omega), Option.getD_some,
      List.getD_eq_getElem]
  · rw [overlay_of_not_covered hcov]

lemma Contents.init : Contents D tmpfsInit log := by
  have hroot (n : NodeIndex) (hu : (tmpfsInit.nodes n).used = true) : n = rootNode := by
    by_contra hne
    simp [tmpfsInit, hne] at hu
  have hopen (s : Fin tmpfsMaxOpen) : ¬ (tmpfsInit.opens s).used = true := Bool.false_ne_true
  refine ⟨tree_tmpfsInit, fun s hu => absurd hu (hopen s), fun s hu => absurd hu (hopen s),
    fun s hu => absurd hu (hopen s), fun n hu => ?_, fun n hu hf => ?_, fun n hu hf => ?_⟩
  · rw [hroot n hu]
    exact Nat.zero_le _
  all_goals
    rw [hroot n hu] at hf
    cases hf

/-- A slot may change as long as it is on a file. -/
lemma Contents.setOpen (h : Contents D fs log) {entry : TmpfsOpen}
    (hnode : entry.used = true → (fs.nodes entry.node).used = true ∧
      (fs.nodes entry.node).type = .file)
    (hoffset : entry.used = true → entry.offset ≤ tmpfsFileCapacity) :
    Contents D (fs.setOpen s entry) log := by
  have hopens (s' : Fin tmpfsMaxOpen) : (fs.setOpen s entry).opens s' = entry ∨
      (fs.setOpen s entry).opens s' = fs.opens s' := by
    by_cases hs : s' = s
    · exact .inl (hs ▸ setOpen_same entry)
    · exact .inr (setOpen_of_ne hs)
  refine ⟨((SameShape.refl fs).setOpen entry).tree h.tree, fun s' hu => ?_, fun s' hu => ?_,
    fun s' hu => ?_, h.size_le, h.size_eq, h.data⟩
  · rcases hopens s' with heq | heq
    · rw [heq] at hu ⊢
      exact (hnode hu).1
    · rw [heq] at hu ⊢
      exact h.open_used s' hu
  · rcases hopens s' with heq | heq
    · rw [heq] at hu ⊢
      exact (hnode hu).2
    · rw [heq] at hu ⊢
      exact h.open_file s' hu
  · rcases hopens s' with heq | heq
    · rw [heq] at hu ⊢
      exact hoffset hu
    · rw [heq] at hu ⊢
      exact h.offset_le s' hu

/-- A file may change as long as its history changes with it. -/
lemma Contents.setFile (h : Contents D fs log) {node : TmpfsNode} {entries : FileHistory}
    (hused : node.used = (fs.nodes index).used) (hparent : node.parent = (fs.nodes index).parent)
    (htype : node.type = (fs.nodes index).type) (hname : node.name = (fs.nodes index).name)
    (hle : node.size ≤ tmpfsFileCapacity) (hsize : node.size = extent entries)
    (hdata : D node.data entries) :
    Contents D (fs.setNode index node) (update log index entries) := by
  have hs := SameShape.setNode hused hparent htype hname
  refine ⟨hs.tree h.tree, fun s hu => ?_, fun s hu => ?_, h.offset_le, fun n hu => ?_,
    fun n hu hf => ?_, fun n hu hf => ?_⟩
  · exact (hs.used _).trans (h.open_used s hu)
  · exact (hs.type _).trans (h.open_file s hu)
  · by_cases hn : n = index
    · rwa [hn, setNode_same]
    · rw [setNode_of_ne hn] at hu ⊢
      exact h.size_le n hu
  · by_cases hn : n = index
    · rwa [hn, setNode_same, update_self]
    · rw [setNode_of_ne hn] at hu hf ⊢
      rw [update_of_ne hn]
      exact h.size_eq n hu hf
  · by_cases hn : n = index
    · rwa [hn, setNode_same, update_self]
    · rw [setNode_of_ne hn] at hu hf ⊢
      rw [update_of_ne hn]
      exact h.data n hu hf

/-- A write through a slot in use. -/
lemma Contents.written (h : Contents D fs log) (hu : (fs.opens s).used = true)
    (hfits : (fs.opens s).offset + bytes.length ≤ tmpfsFileCapacity)
    (hdata : D (overlay (fs.nodes (fs.opens s).node).data (fs.opens s).offset bytes)
      (((fs.opens s).offset, bytes) :: log (fs.opens s).node)) :
    Contents D (fs.written s bytes) (update log (fs.opens s).node
      (((fs.opens s).offset, bytes) :: log (fs.opens s).node)) := by
  have hused := h.open_used s hu
  have hfile := h.open_file s hu
  have hopen : Contents D (fs.setOpen s { fs.opens s with
      offset := (fs.opens s).offset + bytes.length }) log :=
    h.setOpen (fun _ => ⟨hused, hfile⟩) fun _ => hfits
  refine hopen.setFile rfl rfl rfl rfl ?_ ?_ ?_
  · exact max_le (h.size_le _ hused) hfits
  · rw [extent_cons, ← h.size_eq _ hused hfile]
  · rw [overwrite_eq_overlay]
    exact hdata

/-- A file that is there is opened. -/
lemma Contents.opened (h : Contents D fs log) (hnil : ∀ data, D data [])
    (hused : (fs.nodes index).used = true) (hfile : (fs.nodes index).type = .file) :
    Contents D (fs.opened index flags s)
      (if Truncates flags then update log index [] else log) := by
  rw [Tmpfs.opened]
  split_ifs with htrunc
  · have hcut : Contents D (fs.setNode index { fs.nodes index with size := 0 })
        (update log index []) :=
      h.setFile rfl rfl rfl rfl (Nat.zero_le _) rfl (hnil _)
    refine hcut.setOpen (fun _ => ?_) fun _ => Nat.zero_le _
    rw [setNode_same]
    exact ⟨hused, hfile⟩
  · exact h.setOpen (fun _ => ⟨hused, hfile⟩) fun _ => Nat.zero_le _

/-- A new node; a new file has nothing in its history. -/
lemma Contents.create (h : Contents D fs log) (hnil : ∀ data, D data [])
    (hc : Creation fs q parent name index) {log' : NodeIndex → FileHistory}
    (hlog : ∀ n ≠ index, log' n = log n) (hnew : type = .file → log' index = []) :
    Contents D (fs.setNode index (newNode parent name type permissions)) log' := by
  have hf := hc.fresh h.tree q.2
  have hused (n : NodeIndex) (hu : (fs.nodes n).used = true) : n ≠ index := by
    rintro rfl
    rw [hf.unused] at hu
    cases hu
  refine ⟨hf.tree h.tree, fun s hu => ?_, fun s hu => ?_, h.offset_le, fun n hu => ?_,
    fun n hu hfile => ?_, fun n hu hfile => ?_⟩
  · have := h.open_used s hu
    rwa [setNode_opens, setNode_of_ne (hused _ this)]
  · have := h.open_used s hu
    rw [setNode_opens, setNode_of_ne (hused _ this)]
    exact h.open_file s hu
  · by_cases hn : n = index
    · rw [hn, setNode_same]
      exact Nat.zero_le _
    · rw [setNode_of_ne hn] at hu ⊢
      exact h.size_le n hu
  · by_cases hn : n = index
    · rw [hn, setNode_same] at hfile ⊢
      rw [hnew hfile]
      rfl
    · rw [setNode_of_ne hn] at hu hfile ⊢
      rw [hlog n hn]
      exact h.size_eq n hu hfile
  · by_cases hn : n = index
    · rw [hn, setNode_same] at hfile ⊢
      rw [hnew hfile]
      exact hnil _
    · rw [setNode_of_ne hn] at hu hfile ⊢
      rw [hlog n hn]
      exact h.data n hu hfile

/-- What `op_open` does to histories when it succeeds: a file that was not in use before
or is cut by the flags starts anew. -/
lemma Contents.openOutcome (h : Contents D fs log) (hnil : ∀ data, D data []) {fs' : Tmpfs}
    (hopen : OpenOutcome fs q flags (.ok s, fs')) :
    Contents D fs' (if Truncates flags ∨ (fs.nodes (fs'.opens s).node).used = false then
      update log (fs'.opens s).node [] else log) := by
  cases hopen with
  | @found index s hnode hfile hslot =>
    obtain ⟨cs, -, hw⟩ := (resolveNode_eq_some h.tree q.2).mp hnode
    have hused := hw.used h.tree
    have hentry : ((fs.opened index flags s).opens s).node = index := by
      rw [Tmpfs.opened, setOpen_same]
    simp only [hentry, hused, Bool.true_eq_false, or_false]
    exact h.opened hnil hused hfile
  | @created parent name index s hnode hc hslot =>
    have hentry : (((fs.withFile index parent name).opened index flags s).opens s).node =
        index := by
      rw [Tmpfs.opened, setOpen_same]
    rw [hentry, if_pos (.inr hc.unused)]
    have hnew : Contents D (fs.withFile index parent name) (update log index []) :=
      h.create hnil hc (fun n hn => update_of_ne hn _ _)
        fun _ => update_self _ _ _
    have hopened : Contents D ((fs.withFile index parent name).opened index flags s)
        (if Truncates flags then update (update log index []) index []
          else update log index []) :=
      hnew.opened hnil (by rw [withFile, setNode_same]; rfl) (by rw [withFile, setNode_same]; rfl)
    rwa [update_idem, ite_self] at hopened

end Tmpfs

end JoshOS
