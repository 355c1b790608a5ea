import JoshOS.Lib.Slots

/-!
The in-memory file system: `tmpfs.c` and the types of `vfs.h`.

A path is the list of its bytes before the terminating zero.  Operations start with a
check for null pointers; here the file system and the path are there, and a null
context is dealt with where the operations are called.  Out-parameters are results.
-/

namespace JoshOS

open Slots

/-! ### `vfs.h` -/

/-- `VFS_PATH_MAX`. -/
def vfsPathMax : ℕ := 127

/-- `VFS_NAME_MAX`. -/
def vfsNameMax : ℕ := 31

/-- `VFS_MAX_MOUNTS`. -/
def vfsMaxMounts : ℕ := 8

/-- `VFS_MAX_HANDLES`. -/
def vfsMaxHandles : ℕ := 16

/-- `VFS_PERM_READ`. -/
def vfsPermRead : UInt32 := 0x01

/-- `VFS_PERM_WRITE`. -/
def vfsPermWrite : UInt32 := 0x02

/-- `VFS_OPEN_READ`. -/
def vfsOpenRead : UInt32 := 0x01

/-- `VFS_OPEN_WRITE`. -/
def vfsOpenWrite : UInt32 := 0x02

/-- `VFS_OPEN_CREATE`. -/
def vfsOpenCreate : UInt32 := 0x04

/-- `VFS_OPEN_TRUNC`. -/
def vfsOpenTrunc : UInt32 := 0x08

/-- `vfs_status_t`, without `VFS_OK`. -/
inductive VfsStatus where
  | badArgument | notFound | alreadyExists | notDirectory | isDirectory | permission | noSpace
  | badHandle | ioError
  deriving DecidableEq, Repr

/-- `vfs_node_type_t`. -/
inductive VfsNodeType where
  | file | directory
  deriving DecidableEq, Repr

/-- `vfs_dirent_t`. -/
structure VfsDirent where
  name : List UInt8
  type : VfsNodeType
  permissions : UInt32
  size : ℕ
  deriving DecidableEq, Repr

/-- The bytes of a string, which end before the first zero. -/
abbrev CString := {text : List UInt8 // (0 : UInt8) ∉ text}

/-- The buffer of a write: the null pointer with a length, or as many bytes as the
length says. -/
inductive Source where
  | null (length : ℕ)
  | bytes (bytes : List UInt8)

/-- The character `'/'`. -/
def slash : UInt8 := 47

/-! ### `tmpfs.h` -/

/-- `TMPFS_MAX_NODES`. -/
def tmpfsMaxNodes : ℕ := 32

/-- `TMPFS_MAX_OPEN`. -/
def tmpfsMaxOpen : ℕ := 16

/-- `TMPFS_FILE_CAPACITY`. -/
def tmpfsFileCapacity : ℕ := 2048

/-- The index of a node. -/
abbrev NodeIndex := Fin tmpfsMaxNodes

/-- Node 0, the root. -/
def rootNode : NodeIndex := ⟨0, by decide⟩

/-- `tmpfs_node_t`.  The default is a cleared node, whose type nobody reads. -/
structure TmpfsNode where
  used : Bool := false
  parent : NodeIndex := rootNode
  type : VfsNodeType := .file
  permissions : UInt32 := 0
  size : ℕ := 0
  name : List UInt8 := []
  data : ℕ → UInt8 := fun _ => 0

/-- `tmpfs_open_t`. -/
structure TmpfsOpen where
  used : Bool := false
  node : NodeIndex := rootNode
  flags : UInt32 := 0
  offset : ℕ := 0

/-- `tmpfs_t`. -/
structure Tmpfs where
  nodes : NodeIndex → TmpfsNode
  opens : Fin tmpfsMaxOpen → TmpfsOpen

namespace Tmpfs

/-- Node `i` replaced. -/
def setNode (fs : Tmpfs) (i : NodeIndex) (node : TmpfsNode) : Tmpfs :=
  { fs with nodes := Function.update fs.nodes i node }

/-- Open slot `i` replaced. -/
def setOpen (fs : Tmpfs) (i : Fin tmpfsMaxOpen) (entry : TmpfsOpen) : Tmpfs :=
  { fs with opens := Function.update fs.opens i entry }

/-! ### Paths -/

/-- `name_equal`; past its end a string reads as zero. -/
def nameEqual (a b : List UInt8) (length : ℕ) : Bool :=
  (∀ i < length, a.getD i 0 = b.getD i 0) ∧ a.getD length 0 = 0

/-- `copy_name`. -/
def copyName (source : List UInt8) (length : ℕ) : Option (List UInt8) :=
  if length = 0 ∨ vfsNameMax < length then none else some (source.take length)

/-- `child_named`. -/
def childNamed (fs : Tmpfs) (parent : NodeIndex) (name : List UInt8) (length : ℕ) :
    Option NodeIndex :=
  firstSlot fun i => 1 ≤ i.val ∧ (fs.nodes i).used ∧ (fs.nodes i).parent = parent ∧
    nameEqual (fs.nodes i).name name length

/-- The loop of `resolve_node` from the node `current` on, with `path` from `pos` on;
every round takes at least one byte off. -/
def resolveFrom (fs : Tmpfs) : ℕ → NodeIndex → List UInt8 → Option NodeIndex
  | 0, _, _ => none
  | fuel + 1, current, path =>
    let length := (path.takeWhile (· ≠ slash)).length
    if length = 0 ∨ vfsNameMax < length then none
    else
      match fs.childNamed current path length with
      | none => none
      | some child =>
        match path.drop length with
        | [] => some child
        | _ :: rest =>
          if (fs.nodes child).type ≠ .directory then none
          else if rest = [] then none
          else resolveFrom fs fuel child rest

/-- `resolve_node`. -/
def resolveNode (fs : Tmpfs) (path : List UInt8) : Option NodeIndex :=
  match path with
  | [] => none
  | c :: rest =>
    if c ≠ slash then none
    else if rest = [] then some rootNode
    else resolveFrom fs (rest.length + 1) rootNode rest

/-- The position of the last slash, as the loop of `resolve_parent` finds it from
`position` down. -/
def lastSlash (path : List UInt8) : ℕ → ℕ
  | 0 => 0
  | position + 1 =>
    if path.getD (position + 1) 0 ≠ slash then lastSlash path position else position + 1

/-- `resolve_parent`: the parent and the last component. -/
def resolveParent (fs : Tmpfs) (path : List UInt8) : Option (NodeIndex × List UInt8) :=
  if path.getD 0 0 ≠ slash ∨ path.getD 1 0 = 0 then none
  else if path.length < 2 ∨ path.getD (path.length - 1) 0 = slash then none
  else
    let position := lastSlash path (path.length - 1)
    let nameLength := path.length - position - 1
    if nameLength = 0 ∨ vfsNameMax < nameLength then none
    else
      let name := path.drop (position + 1)
      if position = 0 then some (rootNode, name)
      else if vfsPathMax < position then none
      else
        match fs.resolveNode (path.take position) with
        | none => none
        | some parent => if (fs.nodes parent).type ≠ .directory then none else some (parent, name)

/-- `allocate_node`. -/
def allocateNode (fs : Tmpfs) : Option NodeIndex :=
  firstSlot fun i => 1 ≤ i.val ∧ (fs.nodes i).used = false

/-- `create_node`. -/
def createNode (fs : Tmpfs) (path : List UInt8) (type : VfsNodeType) (permissions : UInt32) :
    Except VfsStatus NodeIndex × Tmpfs :=
  match fs.resolveParent path with
  | none => (.error .badArgument, fs)
  | some (parent, name) =>
    if (fs.childNamed parent name name.length).isSome then (.error .alreadyExists, fs)
    else
      match fs.allocateNode with
      | none => (.error .noSpace, fs)
      | some slot =>
        let node : TmpfsNode :=
          { used := true, parent := parent, type := type
            permissions := permissions &&& (vfsPermRead ||| vfsPermWrite) }
        match copyName name name.length with
        | none => (.error .badArgument, fs.setNode slot { node with used := false })
        | some name => (.ok slot, fs.setNode slot { node with name := name })

/-! ### The operations -/

/-- `op_mkdir`. -/
def opMkdir (fs : Tmpfs) (path : List UInt8) (permissions : UInt32) :
    Except VfsStatus Unit × Tmpfs :=
  match fs.createNode path .directory permissions with
  | (.ok _, fs) => (.ok (), fs)
  | (.error status, fs) => (.error status, fs)

/-- The second half of `op_open`, from the node on. -/
def openNode (fs : Tmpfs) (index : NodeIndex) (flags : UInt32) :
    Except VfsStatus (Fin tmpfsMaxOpen) × Tmpfs :=
  let node := fs.nodes index
  if node.type ≠ .file then (.error .isDirectory, fs)
  else if flags &&& vfsOpenRead ≠ 0 ∧ node.permissions &&& vfsPermRead = 0 then
    (.error .permission, fs)
  else if flags &&& vfsOpenWrite ≠ 0 ∧ node.permissions &&& vfsPermWrite = 0 then
    (.error .permission, fs)
  else
    match firstSlot fun i => (fs.opens i).used = false with
    | none => (.error .noSpace, fs)
    | some slot =>
      let fs := if flags &&& vfsOpenTrunc ≠ 0 ∧ flags &&& vfsOpenWrite ≠ 0 then
          fs.setNode index { node with size := 0 }
        else fs
      (.ok slot, fs.setOpen slot { used := true, node := index, flags := flags, offset := 0 })

/-- `op_open`. -/
def opOpen (fs : Tmpfs) (path : List UInt8) (flags : UInt32) :
    Except VfsStatus (Fin tmpfsMaxOpen) × Tmpfs :=
  match fs.resolveNode path with
  | some index => fs.openNode index flags
  | none =>
    if flags &&& vfsOpenCreate ≠ 0 then
      match fs.createNode path .file (vfsPermRead ||| vfsPermWrite) with
      | (.error status, fs) => (.error status, fs)
      | (.ok index, fs) => fs.openNode index flags
    else (.error .notFound, fs)

/-- The open slot that a handle stands for, if it is one. -/
def openSlot (fs : Tmpfs) (handle : ℕ) : Option (Fin tmpfsMaxOpen) :=
  if h : handle < tmpfsMaxOpen then
    if (fs.opens ⟨handle, h⟩).used then some ⟨handle, h⟩ else none
  else none

/-- `op_close`. -/
def opClose (fs : Tmpfs) (handle : ℕ) : Except VfsStatus Unit × Tmpfs :=
  match fs.openSlot handle with
  | none => (.error .badHandle, fs)
  | some slot => (.ok (), fs.setOpen slot { fs.opens slot with used := false })

/-- `op_read`: the bytes that are copied to the buffer.  `buffer` and `readOut` say
whether the pointers are there. -/
def opRead (fs : Tmpfs) (handle : ℕ) (buffer readOut : Bool) (length : ℕ) :
    Except VfsStatus (List UInt8) × Tmpfs :=
  if buffer = false ∨ readOut = false then (.error .badHandle, fs)
  else
    match fs.openSlot handle with
    | none => (.error .badHandle, fs)
    | some slot =>
      let entry := fs.opens slot
      if entry.flags &&& vfsOpenRead = 0 then (.error .permission, fs)
      else
        let node := fs.nodes entry.node
        if node.size ≤ entry.offset then (.ok [], fs)
        else
          let available := node.size - entry.offset
          let take := if length < available then length else available
          (.ok ((List.range take).map fun i => node.data (entry.offset + i)),
            fs.setOpen slot { entry with offset := entry.offset + take })

/-- The bytes of a file with `bytes` written at `offset`. -/
def overwrite (data : ℕ → UInt8) (offset : ℕ) (bytes : List UInt8) : ℕ → UInt8 := fun i =>
  if offset ≤ i ∧ i < offset + bytes.length then bytes.getD (i - offset) 0 else data i

/-- `op_write`; the result is `*written_out`. -/
def opWrite (fs : Tmpfs) (handle : ℕ) (buffer : Source) (writtenOut : Bool) :
    Except VfsStatus ℕ × Tmpfs :=
  let bytes : Option (List UInt8) := match buffer with
    | .null length => if length ≠ 0 then none else some []
    | .bytes bytes => some bytes
  match bytes, fs.openSlot handle with
  | some bytes, some slot =>
    if writtenOut = false then (.error .badHandle, fs)
    else
      let entry := fs.opens slot
      if entry.flags &&& vfsOpenWrite = 0 then (.error .permission, fs)
      else if tmpfsFileCapacity < entry.offset ∨
          tmpfsFileCapacity - entry.offset < bytes.length then (.error .noSpace, fs)
      else
        let node := fs.nodes entry.node
        let offset := entry.offset + bytes.length
        let fs := fs.setOpen slot { entry with offset := offset }
        (.ok bytes.length, fs.setNode entry.node { node with
          data := overwrite node.data entry.offset bytes
          size := if node.size < offset then offset else node.size })
  | _, _ => (.error .badHandle, fs)

/-- `op_seek`. -/
def opSeek (fs : Tmpfs) (handle offset : ℕ) : Except VfsStatus Unit × Tmpfs :=
  match fs.openSlot handle with
  | none => (.error .badHandle, fs)
  | some slot =>
    if tmpfsFileCapacity < offset then (.error .badArgument, fs)
    else (.ok (), fs.setOpen slot { fs.opens slot with offset := offset })

/-- The loop of `op_list`: the child of `directory` with number `index`. -/
def listFrom (fs : Tmpfs) (directory : NodeIndex) (index : ℕ) :
    ℕ → List NodeIndex → Option NodeIndex
  | _, [] => none
  | seen, i :: is =>
    if (fs.nodes i).used = false ∨ (fs.nodes i).parent ≠ directory then
      listFrom fs directory index seen is
    else if seen ≠ index then listFrom fs directory index (seen + 1) is
    else some i

/-- `op_list`. -/
def opList (fs : Tmpfs) (path : List UInt8) (index : ℕ) : Except VfsStatus VfsDirent :=
  match fs.resolveNode path with
  | none => .error .notFound
  | some directory =>
    if (fs.nodes directory).type ≠ .directory then .error .notDirectory
    else
      match fs.listFrom directory index 0 (List.finRange tmpfsMaxNodes).tail with
      | none => .error .notFound
      | some i =>
        let node := fs.nodes i
        .ok ⟨node.name, node.type, node.permissions, node.size⟩

/-- `tmpfs_init`. -/
def tmpfsInit : Tmpfs where
  nodes := Function.update (fun _ => {}) rootNode
    { used := true, type := .directory, permissions := vfsPermRead ||| vfsPermWrite }
  opens := fun _ => {}

/-- `tmpfs_set_permissions`. -/
def tmpfsSetPermissions (fs : Tmpfs) (path : List UInt8) (permissions : UInt32) :
    Except VfsStatus Unit × Tmpfs :=
  match fs.resolveNode path with
  | none => (.error .notFound, fs)
  | some i => (.ok (), fs.setNode i { fs.nodes i with
      permissions := permissions &&& (vfsPermRead ||| vfsPermWrite) })

end Tmpfs

end JoshOS
