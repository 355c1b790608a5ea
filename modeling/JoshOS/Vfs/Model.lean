import JoshOS.Tmpfs.Model

/-!
The file system switch: `vfs.c` over file systems of `tmpfs.c`.

The file systems are the values of `contexts`, and a context pointer is an element of
`κ` or null.  A table of operations has for each operation a function of `tmpfs.c` or
the null pointer; `tmpfs_ops` has them all.
-/

namespace JoshOS

open Slots

/-- `vfs_fs_ops_t`: which of the operations of `tmpfs.c` are there. -/
structure VfsFsOps where
  mkdir : Bool
  open_ : Bool
  close : Bool
  read : Bool
  write : Bool
  seek : Bool
  list : Bool
  deriving DecidableEq

/-- `tmpfs_ops`. -/
def tmpfsOps : VfsFsOps := ⟨true, true, true, true, true, true, true⟩

/-- `mount_t`. -/
structure Mount (κ : Type) where
  used : Bool
  path : List UInt8
  context : Option κ

/-- `handle_t`. -/
structure Handle where
  used : Bool
  mountIndex : Fin vfsMaxMounts
  backendHandle : ℕ

/-- The statics of `vfs.c`, and the file systems. -/
structure Vfs (κ : Type) where
  mounts : Fin vfsMaxMounts → Mount κ
  handles : Fin vfsMaxHandles → Handle
  contexts : κ → Tmpfs

namespace Vfs

variable {κ : Type} [DecidableEq κ]

/-! ### Mounts -/

/-- `copy_path`. -/
def copyPath (source : List UInt8) : Option (List UInt8) :=
  if source.length = 0 ∨ vfsPathMax < source.length ∨ source.getD 0 0 ≠ slash then none
  else some source

/-- `mount_matches`. -/
def mountMatches (mountPath path : List UInt8) : Bool :=
  if mountPath = [slash] then path.getD 0 0 = slash
  else mountPath.isPrefixOf path ∧
    (path.getD mountPath.length 0 = 0 ∨ path.getD mountPath.length 0 = slash)

/-- The loop of `resolve_mount`, with the best mount so far. -/
def resolveMountFrom (t : Vfs κ) (path : List UInt8) (found : Option (Fin vfsMaxMounts))
    (best : ℕ) : List (Fin vfsMaxMounts) → Option (Fin vfsMaxMounts)
  | [] => found
  | i :: is =>
    let mount := t.mounts i
    if mount.used = false ∨ mountMatches mount.path path = false then
      resolveMountFrom t path found best is
    else if found = none ∨ best < mount.path.length then
      resolveMountFrom t path (some i) mount.path.length is
    else resolveMountFrom t path found best is

/-- `resolve_mount`: the mount, and the path below it. -/
def resolveMount (t : Vfs κ) (path : List UInt8) : Option (Fin vfsMaxMounts × List UInt8) :=
  match t.resolveMountFrom path none 0 (List.finRange vfsMaxMounts) with
  | none => none
  | some i =>
    let mountPath := (t.mounts i).path
    let relative := if mountPath = [slash] then path else path.drop mountPath.length
    some (i, if relative = [] then [slash] else relative)

/-- `vfs_init`. -/
def vfsInit (t : Vfs κ) : Vfs κ :=
  { t with
    mounts := fun i => { t.mounts i with used := false }
    handles := fun i => { t.handles i with used := false } }

/-- `vfs_mount`. -/
def vfsMount (t : Vfs κ) (path : Option (List UInt8)) (context : Option κ)
    (ops : Option VfsFsOps) : Except VfsStatus Unit × Vfs κ :=
  match path, ops with
  | some path, some ops =>
    if ops ≠ tmpfsOps then (.error .badArgument, t)
    else
      match firstSlot fun i => (t.mounts i).used = false with
      | none => (.error .noSpace, t)
      | some i =>
        match copyPath path with
        | none => (.error .badArgument, t)
        | some path =>
          (.ok (), { t with mounts := Function.update t.mounts i ⟨true, path, context⟩ })
  | _, _ => (.error .badArgument, t)

/-! ### Operations -/

/-- An operation of `tmpfs.c` on the file system of a mount.  All of them refuse a null
context, with the status `null`. -/
def onMount {α : Type} (t : Vfs κ) (mount : Fin vfsMaxMounts) (null : VfsStatus)
    (op : Tmpfs → Except VfsStatus α × Tmpfs) : Except VfsStatus α × Vfs κ :=
  match (t.mounts mount).context with
  | none => (.error null, t)
  | some c =>
    let r := op (t.contexts c)
    (r.1, { t with contexts := Function.update t.contexts c r.2 })

/-- `vfs_mkdir`. -/
def vfsMkdir (t : Vfs κ) (path : Option (List UInt8)) (permissions : UInt32) :
    Except VfsStatus Unit × Vfs κ :=
  match path.bind t.resolveMount with
  | none => (.error .notFound, t)
  | some (mount, relative) =>
    t.onMount mount .badArgument fun fs => fs.opMkdir relative permissions

/-- `vfs_open`; `handleOut` says whether the pointer is there. -/
def vfsOpen (t : Vfs κ) (path : Option (List UInt8)) (flags : UInt32) (handleOut : Bool) :
    Except VfsStatus (Fin vfsMaxHandles) × Vfs κ :=
  match path with
  | none => (.error .badArgument, t)
  | some path =>
    if handleOut = false ∨ flags &&& (vfsOpenRead ||| vfsOpenWrite) = 0 then
      (.error .badArgument, t)
    else
      match t.resolveMount path with
      | none => (.error .notFound, t)
      | some (mount, relative) =>
        match firstSlot fun i => (t.handles i).used = false with
        | none => (.error .noSpace, t)
        | some slot =>
          match t.onMount mount .badArgument fun fs => fs.opOpen relative flags with
          | (.error status, t) => (.error status, t)
          | (.ok backend, t) =>
            (.ok slot, { t with
              handles := Function.update t.handles slot ⟨true, mount, backend⟩ })

/-- The handle with a number, if it is in use. -/
def usedHandle (t : Vfs κ) (handle : ℕ) : Option (Fin vfsMaxHandles) :=
  if h : handle < vfsMaxHandles then
    if (t.handles ⟨handle, h⟩).used then some ⟨handle, h⟩ else none
  else none

/-- An operation of `tmpfs.c` on a handle. -/
def onHandle {α : Type} (t : Vfs κ) (handle : ℕ)
    (op : Tmpfs → ℕ → Except VfsStatus α × Tmpfs) : Except VfsStatus α × Vfs κ :=
  match t.usedHandle handle with
  | none => (.error .badHandle, t)
  | some h =>
    let current := t.handles h
    t.onMount current.mountIndex .badHandle fun fs => op fs current.backendHandle

/-- `vfs_close`. -/
def vfsClose (t : Vfs κ) (handle : ℕ) : Except VfsStatus Unit × Vfs κ :=
  match t.usedHandle handle with
  | none => (.error .badHandle, t)
  | some h =>
    let current := t.handles h
    let r := t.onMount current.mountIndex .badHandle fun fs => fs.opClose current.backendHandle
    (r.1, { r.2 with handles := Function.update r.2.handles h { current with used := false } })

/-- `vfs_read`. -/
def vfsRead (t : Vfs κ) (handle : ℕ) (buffer readOut : Bool) (length : ℕ) :
    Except VfsStatus (List UInt8) × Vfs κ :=
  t.onHandle handle fun fs backend => fs.opRead backend buffer readOut length

/-- `vfs_write`. -/
def vfsWrite (t : Vfs κ) (handle : ℕ) (buffer : Source) (writtenOut : Bool) :
    Except VfsStatus ℕ × Vfs κ :=
  t.onHandle handle fun fs backend => fs.opWrite backend buffer writtenOut

/-- `vfs_seek`. -/
def vfsSeek (t : Vfs κ) (handle offset : ℕ) : Except VfsStatus Unit × Vfs κ :=
  t.onHandle handle fun fs backend => fs.opSeek backend offset

/-- `vfs_list`; `entryOut` says whether the pointer is there. -/
def vfsList (t : Vfs κ) (path : Option (List UInt8)) (index : ℕ) (entryOut : Bool) :
    Except VfsStatus VfsDirent × Vfs κ :=
  match path.bind t.resolveMount with
  | none => (.error .notFound, t)
  | some (mount, relative) =>
    if entryOut = false then (.error .notFound, t)
    else t.onMount mount .badArgument fun fs => (fs.opList relative index, fs)

end Vfs

end JoshOS
