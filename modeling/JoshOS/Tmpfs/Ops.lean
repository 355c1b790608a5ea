import JoshOS.Tmpfs.Model

/-!
What the operations of `tmpfs.c` can do, one lemma for each.

* `createNode_cases`: a creation fails and changes nothing, or fills the first free node.
* `openNode_cases`, `opOpen_cases`: opening a node that is there, or one just created.
* `opClose_cases`, `opRead_cases`, `opWrite_cases`, `opSeek_cases`: operations on an open
  slot fail and change nothing, or change that slot and its file.
-/

namespace JoshOS

open Slots

namespace Tmpfs

variable {fs fs' : Tmpfs} {path name : List UInt8} {type : VfsNodeType} {permissions : UInt32}
  {flags : UInt32} {i j index parent : NodeIndex} {slot other : Fin tmpfsMaxOpen}

@[simp] lemma setNode_opens (node : TmpfsNode) : (fs.setNode i node).opens = fs.opens := rfl

@[simp] lemma setOpen_nodes (entry : TmpfsOpen) : (fs.setOpen slot entry).nodes = fs.nodes := rfl

@[simp] lemma setNode_same (node : TmpfsNode) : (fs.setNode i node).nodes i = node := by
  simp [setNode]

lemma setNode_of_ne {node : TmpfsNode} (h : j ≠ i) : (fs.setNode i node).nodes j = fs.nodes j := by
  simp [setNode, h]

@[simp] lemma setOpen_same (entry : TmpfsOpen) : (fs.setOpen slot entry).opens slot = entry := by
  simp [setOpen]

lemma setOpen_of_ne {entry : TmpfsOpen} (h : other ≠ slot) :
    (fs.setOpen slot entry).opens other = fs.opens other := by
  simp [setOpen, h]

/-! ### Creation -/

/-- The node that `create_node` fills in. -/
def newNode (parent : NodeIndex) (name : List UInt8) (type : VfsNodeType)
    (permissions : UInt32) : TmpfsNode where
  used := true
  parent := parent
  type := type
  permissions := permissions &&& (vfsPermRead ||| vfsPermWrite)
  name := name

/-- The last component that `resolve_parent` returns can be copied into a node. -/
lemma copyName_of_resolveParent (h : fs.resolveParent path = some (parent, name)) :
    copyName name name.length = some name := by
  rw [resolveParent] at h
  split_ifs at h with hstart hend
  dsimp only at h
  split_ifs at h with hlength hzero hmax
  all_goals
    have hname : name = path.drop (lastSlash path (path.length - 1) + 1) := by grind
    have hlen : name.length = path.length - lastSlash path (path.length - 1) - 1 := by
      rw [hname, List.length_drop]
      omega
    rw [copyName, hlen, if_neg hlength, ← hlen, List.take_length]

/-- The details of a creation that succeeds. -/
structure Creation (fs : Tmpfs) (path : List UInt8) (parent : NodeIndex) (name : List UInt8)
    (index : NodeIndex) : Prop where
  resolved : fs.resolveParent path = some (parent, name)
  absent : fs.childNamed parent name name.length = none
  allocated : fs.allocateNode = some index

lemma Creation.unused (h : Creation fs path parent name index) :
    (fs.nodes index).used = false := by
  have := firstSlot_some h.allocated
  rw [decide_eq_true_eq] at this
  exact this.2

lemma createNode_cases (fs : Tmpfs) (path : List UInt8) (type : VfsNodeType)
    (permissions : UInt32) :
    (∃ status, fs.createNode path type permissions = (.error status, fs)) ∨
      ∃ parent name index, Creation fs path parent name index ∧
        fs.createNode path type permissions =
          (.ok index, fs.setNode index (newNode parent name type permissions)) := by
  rw [createNode]
  cases hparent : fs.resolveParent path with
  | none => exact .inl ⟨_, rfl⟩
  | some found =>
    obtain ⟨parent, name⟩ := found
    dsimp only
    split_ifs with hchild
    · exact .inl ⟨_, rfl⟩
    · cases halloc : fs.allocateNode with
      | none => exact .inl ⟨_, rfl⟩
      | some index =>
        dsimp only
        rw [copyName_of_resolveParent hparent]
        refine .inr ⟨parent, name, index, ⟨hparent, ?_, halloc⟩, rfl⟩
        simpa using hchild

lemma opMkdir_cases (fs : Tmpfs) (path : List UInt8) (permissions : UInt32) :
    (∃ status, fs.opMkdir path permissions = (.error status, fs)) ∨
      ∃ parent name index, Creation fs path parent name index ∧
        fs.opMkdir path permissions =
          (.ok (), fs.setNode index (newNode parent name .directory permissions)) := by
  rw [opMkdir]
  rcases createNode_cases fs path .directory permissions with
    ⟨status, h⟩ | ⟨parent, name, index, hc, h⟩
  · rw [h]
    exact .inl ⟨status, rfl⟩
  · rw [h]
    exact .inr ⟨parent, name, index, hc, rfl⟩

/-! ### Opening -/

/-- The flags that make an open cut the file. -/
def Truncates (flags : UInt32) : Prop :=
  flags &&& vfsOpenTrunc ≠ 0 ∧ flags &&& vfsOpenWrite ≠ 0

instance : Decidable (Truncates flags) := inferInstanceAs (Decidable (_ ∧ _))

/-- The file system with the file `index` opened in a slot. -/
def opened (fs : Tmpfs) (index : NodeIndex) (flags : UInt32) (slot : Fin tmpfsMaxOpen) : Tmpfs :=
  (if Truncates flags then fs.setNode index { fs.nodes index with size := 0 } else fs).setOpen
    slot { used := true, node := index, flags := flags, offset := 0 }

lemma openNode_cases (fs : Tmpfs) (index : NodeIndex) (flags : UInt32) :
    (∃ status, fs.openNode index flags = (.error status, fs)) ∨
      ∃ slot, (fs.opens slot).used = false ∧ (fs.nodes index).type = .file ∧
        fs.openNode index flags = (.ok slot, fs.opened index flags slot) := by
  rw [openNode]
  dsimp only
  split
  · exact .inl ⟨_, rfl⟩
  · rename_i hfile
    split
    · exact .inl ⟨_, rfl⟩
    · split
      · exact .inl ⟨_, rfl⟩
      · cases hslot : firstSlot fun i => (fs.opens i).used = false with
        | none => exact .inl ⟨_, rfl⟩
        | some slot =>
          exact .inr ⟨slot, by simpa using firstSlot_some hslot, not_not.mp hfile, rfl⟩

/-- A file with all permissions opens, as long as there is a free slot. -/
lemma openNode_ok (flags : UInt32) (hfile : (fs.nodes index).type = .file)
    (hperm : (fs.nodes index).permissions = vfsPermRead ||| vfsPermWrite)
    (hslot : ∃ slot, (fs.opens slot).used = false) :
    ∃ slot, (fs.opens slot).used = false ∧
      fs.openNode index flags = (.ok slot, fs.opened index flags slot) := by
  obtain ⟨free, hfree⟩ := hslot
  have hread : (vfsPermRead ||| vfsPermWrite) &&& vfsPermRead ≠ 0 := by decide
  have hwrite : (vfsPermRead ||| vfsPermWrite) &&& vfsPermWrite ≠ 0 := by decide
  rw [openNode]
  dsimp only
  rw [if_neg (by simp [hfile]), if_neg (by simp [hperm, hread]), if_neg (by simp [hperm, hwrite])]
  cases hslot : firstSlot fun i => (fs.opens i).used = false with
  | none =>
    have := firstSlot_eq_none.mp hslot free
    simp [hfree] at this
  | some slot => exact ⟨slot, by simpa using firstSlot_some hslot, rfl⟩

/-- The file system with a new file. -/
def withFile (fs : Tmpfs) (index parent : NodeIndex) (name : List UInt8) : Tmpfs :=
  fs.setNode index (newNode parent name .file (vfsPermRead ||| vfsPermWrite))

/-- What `op_open` can do: refuse, open a node that is there, or create one and open it.
Without a free slot it may also create a node and then refuse. -/
inductive OpenOutcome (fs : Tmpfs) (path : List UInt8) (flags : UInt32) :
    Except VfsStatus (Fin tmpfsMaxOpen) × Tmpfs → Prop
  | refused (status : VfsStatus) : OpenOutcome fs path flags (.error status, fs)
  | found {index : NodeIndex} {slot : Fin tmpfsMaxOpen} (hnode : fs.resolveNode path = some index)
      (hfile : (fs.nodes index).type = .file) (hslot : (fs.opens slot).used = false) :
      OpenOutcome fs path flags (.ok slot, fs.opened index flags slot)
  | created {parent : NodeIndex} {name : List UInt8} {index : NodeIndex}
      {slot : Fin tmpfsMaxOpen} (hnode : fs.resolveNode path = none)
      (hc : Creation fs path parent name index) (hslot : (fs.opens slot).used = false)
      (hcreate : flags &&& vfsOpenCreate ≠ 0) :
      OpenOutcome fs path flags (.ok slot, (fs.withFile index parent name).opened index flags slot)
  | stranded {parent : NodeIndex} {name : List UInt8} {index : NodeIndex} {status : VfsStatus}
      (hc : Creation fs path parent name index) (hslot : ∀ slot, (fs.opens slot).used = true) :
      OpenOutcome fs path flags (.error status, fs.withFile index parent name)

lemma opOpen_outcome (fs : Tmpfs) (path : List UInt8) (flags : UInt32) :
    OpenOutcome fs path flags (fs.opOpen path flags) := by
  rw [opOpen]
  cases hnode : fs.resolveNode path with
  | some index =>
    dsimp only
    rcases openNode_cases fs index flags with ⟨status, h⟩ | ⟨slot, hslot, hfile, h⟩
    · rw [h]
      exact .refused status
    · rw [h]
      exact .found hnode hfile hslot
  | none =>
    dsimp only
    split
    · rename_i hcreate
      rcases createNode_cases fs path .file (vfsPermRead ||| vfsPermWrite) with
        ⟨status, h⟩ | ⟨parent, name, index, hc, h⟩
      · rw [h]
        exact .refused status
      · rw [h]
        dsimp only
        by_cases hfree : ∃ slot, (fs.opens slot).used = false
        · have hfile : ((fs.withFile index parent name).nodes index).type = .file := by
            rw [withFile, setNode_same, newNode]
          have hperm : ((fs.withFile index parent name).nodes index).permissions =
              vfsPermRead ||| vfsPermWrite := by
            rw [withFile, setNode_same, newNode]
            rfl
          obtain ⟨slot, hslot, h⟩ := openNode_ok flags hfile hperm hfree
          rw [← withFile, h]
          exact .created hnode hc hslot hcreate
        · rcases openNode_cases (fs.withFile index parent name) index flags with
            ⟨status, h⟩ | ⟨slot, hslot, -⟩
          · rw [← withFile, h]
            exact .stranded hc (by simpa using hfree)
          · exact absurd ⟨slot, hslot⟩ hfree
    · exact .refused _

/-! ### Open slots -/

lemma openSlot_eq_some {handle : ℕ} :
    fs.openSlot handle = some slot ↔ handle = slot.val ∧ (fs.opens slot).used = true := by
  rw [openSlot]
  constructor
  · intro h
    split_ifs at h with hlt hused
    obtain rfl := Option.some.inj h
    exact ⟨rfl, hused⟩
  · rintro ⟨rfl, hused⟩
    rw [dif_pos slot.isLt, if_pos hused]

lemma opClose_cases (fs : Tmpfs) (handle : ℕ) :
    (∃ status, fs.opClose handle = (.error status, fs)) ∨
      ∃ slot : Fin tmpfsMaxOpen, handle = slot.val ∧ (fs.opens slot).used = true ∧
        fs.opClose handle = (.ok (), fs.setOpen slot { fs.opens slot with used := false }) := by
  rw [opClose]
  cases hslot : fs.openSlot handle with
  | none => exact .inl ⟨_, rfl⟩
  | some slot =>
    obtain ⟨hh, hused⟩ := openSlot_eq_some.mp hslot
    exact .inr ⟨slot, hh, hused, rfl⟩

/-- The number of bytes a read of `length` bytes gets through a slot. -/
def readCount (fs : Tmpfs) (slot : Fin tmpfsMaxOpen) (length : ℕ) : ℕ :=
  min length ((fs.nodes (fs.opens slot).node).size - (fs.opens slot).offset)

/-- The bytes a read of `length` bytes gets through a slot. -/
def readBytes (fs : Tmpfs) (slot : Fin tmpfsMaxOpen) (length : ℕ) : List UInt8 :=
  (List.range (fs.readCount slot length)).map fun k =>
    (fs.nodes (fs.opens slot).node).data ((fs.opens slot).offset + k)

lemma opRead_cases (fs : Tmpfs) (handle : ℕ) (buffer readOut : Bool) (length : ℕ) :
    (∃ status, fs.opRead handle buffer readOut length = (.error status, fs)) ∨
      ∃ slot : Fin tmpfsMaxOpen, handle = slot.val ∧ (fs.opens slot).used = true ∧
        fs.opRead handle buffer readOut length = (.ok (fs.readBytes slot length),
          fs.setOpen slot { fs.opens slot with
            offset := (fs.opens slot).offset + fs.readCount slot length }) := by
  rw [opRead]
  split
  · exact .inl ⟨_, rfl⟩
  · cases hslot : fs.openSlot handle with
    | none => exact .inl ⟨_, rfl⟩
    | some slot =>
      obtain ⟨hh, hused⟩ := openSlot_eq_some.mp hslot
      dsimp only
      split
      · exact .inl ⟨_, rfl⟩
      · refine .inr ⟨slot, hh, hused, ?_⟩
        split
        · rename_i hend
          have hcount : fs.readCount slot length = 0 := by
            rw [readCount]
            omega
          rw [readBytes, hcount]
          simp [setOpen]
        · rename_i hend
          have hcount : (if length < (fs.nodes (fs.opens slot).node).size -
              (fs.opens slot).offset then length else (fs.nodes (fs.opens slot).node).size -
              (fs.opens slot).offset) = fs.readCount slot length := by
            rw [readCount]
            split_ifs <;> omega
          rw [hcount, readBytes]

/-- The bytes of a source, if it has them. -/
def Source.toList? : Source → Option (List UInt8)
  | .null length => if length ≠ 0 then none else some []
  | .bytes bytes => some bytes

/-- The file system after a write through a slot. -/
def written (fs : Tmpfs) (slot : Fin tmpfsMaxOpen) (bytes : List UInt8) : Tmpfs :=
  let entry := fs.opens slot
  let node := fs.nodes entry.node
  (fs.setOpen slot { entry with offset := entry.offset + bytes.length }).setNode entry.node
    { node with
      data := overwrite node.data entry.offset bytes
      size := max node.size (entry.offset + bytes.length) }

/-- Moving a slot, or writing through it, takes none into use. -/
lemma moved_opens_used {offset : ℕ} :
    ((fs.setOpen slot { fs.opens slot with offset := offset }).opens other).used =
      (fs.opens other).used := by
  by_cases h : other = slot
  · rw [h, setOpen_same]
  · rw [setOpen_of_ne h]

lemma written_opens_used {bytes : List UInt8} :
    ((fs.written slot bytes).opens other).used = (fs.opens other).used := moved_opens_used

lemma opWrite_cases (fs : Tmpfs) (handle : ℕ) (buffer : Source) (writtenOut : Bool) :
    (∃ status, fs.opWrite handle buffer writtenOut = (.error status, fs)) ∨
      ∃ (slot : Fin tmpfsMaxOpen) (bytes : List UInt8), handle = slot.val ∧
        (fs.opens slot).used = true ∧ Source.toList? buffer = some bytes ∧
        (writtenOut = true ∧ (fs.opens slot).flags &&& vfsOpenWrite ≠ 0 ∧
          (fs.opens slot).offset + bytes.length ≤ tmpfsFileCapacity) ∧
        fs.opWrite handle buffer writtenOut = (.ok bytes.length, fs.written slot bytes) := by
  unfold opWrite
  dsimp only
  split
  · rename_i bytes slot hbytes hslot
    obtain ⟨hh, hused⟩ := openSlot_eq_some.mp hslot
    split
    · exact .inl ⟨_, rfl⟩
    · split
      · exact .inl ⟨_, rfl⟩
      · split
        · exact .inl ⟨_, rfl⟩
        · rename_i hout hflag hspace
          refine .inr ⟨slot, bytes, hh, hused, hbytes,
            ⟨Bool.not_eq_false _ ▸ hout, hflag, by omega⟩, ?_⟩
          rw [← max_def_lt]
          rfl
  · exact .inl ⟨_, rfl⟩

lemma opSeek_cases (fs : Tmpfs) (handle offset : ℕ) :
    (∃ status, fs.opSeek handle offset = (.error status, fs)) ∨
      ∃ slot : Fin tmpfsMaxOpen, handle = slot.val ∧ (fs.opens slot).used = true ∧
        offset ≤ tmpfsFileCapacity ∧ fs.opSeek handle offset =
          (.ok (), fs.setOpen slot { fs.opens slot with offset := offset }) := by
  rw [opSeek]
  cases hslot : fs.openSlot handle with
  | none => exact .inl ⟨_, rfl⟩
  | some slot =>
    obtain ⟨hh, hused⟩ := openSlot_eq_some.mp hslot
    dsimp only
    split
    · exact .inl ⟨_, rfl⟩
    · rename_i hle
      exact .inr ⟨slot, hh, hused, not_lt.mp hle, rfl⟩

end Tmpfs

end JoshOS
