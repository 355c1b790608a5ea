import JoshOS.Vfs.Model

/-!
The storage services: `storage_services.c`.

A key or a value is the bytes of a string, or null.
-/

namespace JoshOS

/-- The file systems `root_fs` and `var_fs`. -/
inductive FsName where
  | root | var
  deriving DecidableEq

/-- The statics of `storage_services.c`, and those of `vfs.c`. -/
structure Services where
  vfs : Vfs FsName
  logOffset : ℕ
  initialised : Bool

namespace Services

open Vfs

/-! ### Paths -/

/-- The text `/`. -/
def rootPath : List UInt8 := [47]

/-- The text `/var`. -/
def varPath : List UInt8 := [47, 118, 97, 114]

/-- The text `/settings`. -/
def settingsPath : List UInt8 := [47, 115, 101, 116, 116, 105, 110, 103, 115]

/-- The text `/devices`. -/
def devicesPath : List UInt8 := [47, 100, 101, 118, 105, 99, 101, 115]

/-- The text `/var/kernel.log`. -/
def logPath : List UInt8 := varPath ++ [47, 107, 101, 114, 110, 101, 108, 46, 108, 111, 103]

/-- The characters that `safe_name` lets through: letters, digits, `-` and `_`. -/
def safeChar (c : UInt8) : Bool :=
  (97 ≤ c ∧ c ≤ 122) ∨ (65 ≤ c ∧ c ≤ 90) ∨ (48 ≤ c ∧ c ≤ 57) ∨ c = 45 ∨ c = 95

/-- `safe_name`. -/
def safeName (name : List UInt8) : Bool :=
  name ≠ [] ∧ (∀ c ∈ name, safeChar c) ∧ name.length ≤ vfsNameMax

/-- `make_path`. -/
def makePath (start : List UInt8) (name : Option (List UInt8)) : Option (List UInt8) :=
  match name with
  | none => none
  | some name =>
    if safeName name = false then none
    else if vfsPathMax < start.length + name.length then none
    else some (start ++ name)

/-! ### Values -/

/-- `write_value`. -/
def writeValue (t : Vfs FsName) (path : List UInt8) (value : Option (List UInt8)) :
    Except VfsStatus Unit × Vfs FsName :=
  match value with
  | none => (.error .badArgument, t)
  | some value =>
    match t.vfsOpen (some path) (vfsOpenWrite ||| vfsOpenCreate ||| vfsOpenTrunc) true with
    | (.error status, t) => (.error status, t)
    | (.ok handle, t) =>
      let w := t.vfsWrite handle (.bytes value) true
      let close := w.2.vfsClose handle
      match w.1, close.1 with
      | .error status, _ => (.error status, close.2)
      | .ok _, .error status => (.error status, close.2)
      | .ok written, .ok _ =>
        (if written = value.length then .ok () else .error .ioError, close.2)

/-- `read_value`; `buffer` and `readOut` say whether the pointers are there. -/
def readValue (t : Vfs FsName) (path : List UInt8) (buffer readOut : Bool) (capacity : ℕ) :
    Except VfsStatus (List UInt8) × Vfs FsName :=
  if buffer = false ∨ readOut = false then (.error .badArgument, t)
  else
    match t.vfsOpen (some path) vfsOpenRead true with
    | (.error status, t) => (.error status, t)
    | (.ok handle, t) =>
      let r := t.vfsRead handle buffer readOut capacity
      let close := r.2.vfsClose handle
      match r.1, close.1 with
      | .error status, _ => (.error status, close.2)
      | .ok _, .error status => (.error status, close.2)
      | .ok bytes, .ok _ => (.ok bytes, close.2)

/-! ### Services -/

/-- A step of `storage_services_init`: a call of the switch, and the rest if it
succeeds. -/
def andThen (r : Except VfsStatus Unit × Vfs FsName)
    (next : Vfs FsName → Except VfsStatus Unit × Vfs FsName) :
    Except VfsStatus Unit × Vfs FsName :=
  match r with
  | (.error status, t) => (.error status, t)
  | (.ok _, t) => next t

/-- The calls of `storage_services_init`, from `vfs_init` and `tmpfs_init` on. -/
def setUp (t : Vfs FsName) : Except VfsStatus Unit × Vfs FsName :=
  let t := { vfsInit t with contexts := fun _ => Tmpfs.tmpfsInit }
  andThen (t.vfsMount (some rootPath) (some .root) (some tmpfsOps)) fun t =>
  andThen (t.vfsMkdir (some varPath) (vfsPermRead ||| vfsPermWrite)) fun t =>
  andThen (t.vfsMkdir (some settingsPath) (vfsPermRead ||| vfsPermWrite)) fun t =>
  andThen (t.vfsMkdir (some devicesPath) (vfsPermRead ||| vfsPermWrite)) fun t =>
  t.vfsMount (some varPath) (some .var) (some tmpfsOps)

/-- `storage_services_init`. -/
def storageServicesInit (x : Services) : Except VfsStatus Unit × Services :=
  match setUp x.vfs with
  | (.error status, t) => (.error status, { x with vfs := t, logOffset := 0 })
  | (.ok _, t) => (.ok (), { vfs := t, logOffset := 0, initialised := true })

/-- `log_service_append`. -/
def logServiceAppend (x : Services) (text : Option (List UInt8)) :
    Except VfsStatus Unit × Services :=
  match x.initialised, text with
  | true, some text =>
    match x.vfs.vfsOpen (some logPath) (vfsOpenWrite ||| vfsOpenCreate) true with
    | (.error status, t) => (.error status, { x with vfs := t })
    | (.ok handle, t) =>
      match t.vfsSeek handle x.logOffset with
      | (.error status, t) => (.error status, { x with vfs := (t.vfsClose handle).2 })
      | (.ok _, t) =>
        match t.vfsWrite handle (.bytes text) true with
        | (.error status, t) => (.error status, { x with vfs := (t.vfsClose handle).2 })
        | (.ok written, t) =>
          let close := t.vfsClose handle
          (close.1, { x with vfs := close.2, logOffset := x.logOffset + written })
  | _, _ => (.error .badArgument, x)

/-- `log_service_read`. -/
def logServiceRead (x : Services) (buffer readOut : Bool) (capacity : ℕ) :
    Except VfsStatus (List UInt8) × Services :=
  if x.initialised = false then (.error .badArgument, x)
  else (readValue x.vfs logPath buffer readOut capacity).map id ({ x with vfs := · })

/-- `settings_service_set` and `device_service_publish`, which differ in the directory. -/
def storeUnder (start : List UInt8) (x : Services) (key value : Option (List UInt8)) :
    Except VfsStatus Unit × Services :=
  if x.initialised = false then (.error .badArgument, x)
  else
    match makePath start key with
    | none => (.error .badArgument, x)
    | some path => (writeValue x.vfs path value).map id ({ x with vfs := · })

/-- `settings_service_get` and `device_service_read`, which differ in the directory. -/
def fetchUnder (start : List UInt8) (x : Services) (key : Option (List UInt8))
    (buffer readOut : Bool) (capacity : ℕ) : Except VfsStatus (List UInt8) × Services :=
  if x.initialised = false then (.error .badArgument, x)
  else
    match makePath start key with
    | none => (.error .badArgument, x)
    | some path => (readValue x.vfs path buffer readOut capacity).map id ({ x with vfs := · })

/-- `settings_service_set`. -/
def settingsServiceSet := storeUnder (settingsPath ++ [47])

/-- `settings_service_get`. -/
def settingsServiceGet := fetchUnder (settingsPath ++ [47])

/-- `device_service_publish`. -/
def deviceServicePublish := storeUnder (devicesPath ++ [47])

/-- `device_service_read`. -/
def deviceServiceRead := fetchUnder (devicesPath ++ [47])

end Services

end JoshOS
