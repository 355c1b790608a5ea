import JoshOS.Control.Model
import JoshOS.Lib.Paths
import JoshOS.Lib.Runs

/-!
The app part of the control service (`network-control.py`).

The state is the tree of files.  What the rest of the system does during a call is chosen by
its `World`: the replies of the commands, and what they do to the files.  A program that is run
under Wine works in the prefix that it is given, so that its changes are confined to it.

* `winePrefix`, `wineMarker`, `wineLauncher`: the paths of an app.
* `installWindowsApp`, `uninstallApp`, `launchApp`: the calls, with their checks in the order
  of the code.
* `installedAppIds`: the apps that are reported as installed.
* `serve`: a call of the service.
-/

namespace JoshOS.Control

/-! ### Files -/

/-- What is at a path. -/
inductive Node where
  | directory
  | file (content : Text)
  deriving DecidableEq, Repr

abbrev Path := List Text

abbrev FileSystem := Path → Option Node

/-- The path that a text names. -/
def path (text : Text) : Path := Paths.components '/' text

def isDir (fs : FileSystem) (text : Text) : Bool := fs (path text) = some .directory

def Node.isFile : Node → Bool
  | .directory => false
  | .file _ => true

def isFile (fs : FileSystem) (text : Text) : Bool := (fs (path text)).any Node.isFile

/-- `os.path.basename`. -/
def basename (text : Text) : Text := text.rtakeWhile fun c => c ≠ '/'

/-- `os.path.join` of two paths. -/
def joinPath (a b : Text) : Text :=
  if b.head? = some '/' then b
  else if a = [] ∨ a.getLast? = some '/' then a ++ b
  else a ++ '/' :: b

/-- `os.makedirs` with `exist_ok`; it fails if there is a file on the way. -/
def makeDirs (fs : FileSystem) (p : Path) : Option FileSystem :=
  if p.inits.any fun q => (fs q).any Node.isFile then none
  else some fun q => if q <+: p ∧ fs q = none then some .directory else fs q

/-- A file is written; this fails if there is a directory. -/
def writeFile (fs : FileSystem) (p : Path) (content : Text) : Option FileSystem :=
  if fs p = some .directory then none
  else some (Function.update fs p (some (.file content)))

/-! ### Apps -/

inductive Runtime where
  | wine
  | flatpak
  | other
  deriving DecidableEq, Repr

/-- An entry of the catalog. -/
structure App where
  id : Text
  runtime : Runtime
  installable : Option Bool
  reason : Option Text
  installerSource : Option Text
  remote : Option Text
  ref : Option Text
  name : Option Text
  deriving DecidableEq, Repr

def appRecord (catalog : List App) (id : Text) : Option App := catalog.find? fun app => app.id = id

/-- An id with an underscore for all that is neither a letter nor a digit. -/
def safeId (py : Python) (id : Text) : Text := id.map fun c => if py.isAlnum c then c else '_'

def winePrefix (py : Python) (id : Text) : Text :=
  "/home/josh/.local/share/josh-os/wine/".toList ++ safeId py id

def wineMarker (py : Python) (id : Text) : Text :=
  winePrefix py id ++ "/.josh-installed".toList

def wineLauncher (py : Python) (id : Text) : Text :=
  "/home/josh/.local/bin/joshos-wine-".toList ++ safeId py id

/-- The characters that `shlex.quote` leaves as they are. -/
def isSafe (c : Char) : Bool := c.isAlphanum || c ∈ "_@%+=:,./-".toList

/-- `shlex.quote`. -/
def quote (text : Text) : Text :=
  if text = [] then "''".toList
  else if text.all isSafe then text
  else '\'' :: (text.flatMap fun c => if c = '\'' then "'\"'\"'".toList else [c]) ++ ['\'']

/-- The script that starts an executable in a prefix. -/
def launcherText (home executable : Text) : Text :=
  "#!/bin/sh\n".toList ++ "export WINEPREFIX=".toList ++ quote home ++ "\n".toList ++
    "exec wine ".toList ++ quote executable ++ "\n".toList

/-! ### The rest of the system -/

/-- The exit code, the output and the error output of a command. -/
structure Reply where
  code : ℤ
  out : Text
  err : Text
  deriving DecidableEq, Repr

/-- What happens outside of the service during a call. -/
structure World where
  wineboot : Reply
  wine : Reply
  touch : Reply
  rm : Reply
  flatpakRemote : Reply
  flatpakInstall : Reply
  flatpakUninstall : Reply
  flatpakList : Reply
  /-- What `wineboot` and the installer do to the files with a prefix. -/
  boots : Text → FileSystem → FileSystem
  installs : Text → FileSystem → FileSystem
  /-- What the process of a launcher does to the files. -/
  starts : Text → FileSystem → FileSystem
  /-- The error with which it cannot be started. -/
  startError : Option Text
  /-- What an `rm` that fails leaves behind. -/
  kept : Path → Bool
  realpath : FileSystem → Text → Text
  /-- The module `pwd` is there, and it knows the user. -/
  pwd : Bool
  knowsUser : Bool
  boots_confined : ∀ home, Paths.Confined (path home) (boots home)
  installs_confined : ∀ home, Paths.Confined (path home) (installs home)
  starts_confined : ∀ home executable,
    Paths.Confined (path home) (starts (launcherText home executable))

/-- The answer of a call, or an exception. -/
inductive Answer where
  | answer (ok : Bool) (message : Text)
  | raised
  deriving DecidableEq, Repr

def refuse (message : String) : Answer := .answer false message.toList

/-- The answer to the last command of a call. -/
def Reply.answer (r : Reply) (done failed : Text) : Answer :=
  if r.code = 0 then .answer true done else .answer false failed

/-! ### Installing -/

/-- A value of the payload of a request. -/
inductive Field where
  | null
  | text (value : Text)
  | other
  deriving DecidableEq, Repr

/-- The path of the executable below the prefix, or why there is none. -/
def findExecutable (py : Python) (w : World) (fs : FileSystem) (home : Text) :
    Field → Except String Text
  | .text name =>
    if name = [] ∨ name.head? = some '/' ∨ name.head? = some '\\' then
      .error "Enter the installed Windows executable path relative to Program Files."
    else
      let name := name.map fun c => if c = '\\' then '/' else c
      if "..".toList ∈ name.splitOn '/' ∨ ¬ ".exe".toList <:+ py.lower name then
        .error "The executable path must be a relative .exe path without parent traversal."
      else
        let root := w.realpath fs (joinPath home "drive_c".toList)
        let executable := w.realpath fs ((name.splitOn '/').foldl joinPath root)
        if ¬ root ++ ['/'] <+: executable ∨ ¬ isFile fs executable then
          .error "That executable was not found inside the Wine prefix."
        else .ok executable
  | _ => .error "Enter the installed Windows executable path relative to Program Files."

/-- The launcher is written, and the app is marked as installed. -/
def addLauncher (py : Python) (w : World) (id executable : Text) (fs : FileSystem) :
    Answer × FileSystem :=
  let launcher := path (wineLauncher py id)
  match makeDirs fs launcher.dropLast with
  | none => (.raised, fs)
  | some fs =>
    match writeFile fs launcher (launcherText (winePrefix py id) executable) with
    | none => (.raised, fs)
    | some fs =>
      if ¬ w.knowsUser then (.raised, fs)
      else
        let marker := path (wineMarker py id)
        (w.touch.answer "Windows app installed in its isolated Wine prefix.".toList
            (orElse w.touch.err "Could not record the installation.".toList),
          if w.touch.code = 0 ∧ fs marker = none then
            Function.update fs marker (some (.file []))
          else fs)

/-- The installer is run in the prefix of the app. -/
def runInstaller (py : Python) (w : World) (id : Text) (executableName : Field)
    (fs : FileSystem) : Answer × FileSystem :=
  let home := winePrefix py id
  let fs := w.boots home fs
  if w.wineboot.code ≠ 0 then
    (.answer false
      (orElse w.wineboot.err "Wine could not create the application prefix.".toList), fs)
  else
    let fs := w.installs home fs
    if w.wine.code ≠ 0 then
      (.answer false
        (orElse w.wine.err (orElse w.wine.out "The Windows installer failed.".toList)), fs)
    else
      match findExecutable py w fs home executableName with
      | .error message => (refuse message, fs)
      | .ok executable =>
        if ¬ w.pwd then
          (refuse "Windows app installation is only available inside Josh OS.", fs)
        else addLauncher py w id executable fs

def installWindowsApp (py : Python) (w : World) (app : App) (id : Text)
    (installerName executableName : Field) (fs : FileSystem) : Answer × FileSystem :=
  if app.installable = some false ∨ app.installerSource ≠ some "downloads".toList then
    (.answer false (app.reason.getD "This Windows app cannot be installed here.".toList), fs)
  else
    match installerName with
    | .null => (refuse "Choose a Windows .exe installer from Downloads.", fs)
    | .other => (refuse "The installer must be a file name from Downloads.", fs)
    | .text name =>
      if basename name ≠ name then
        (refuse "The installer must be a file name from Downloads.", fs)
      else if ¬ ".exe".toList <:+ py.lower name then
        (refuse "The Windows installer must use the .exe format.", fs)
      else if ¬ isFile fs ("/home/josh/Downloads/".toList ++ name) then
        (refuse "That installer was not found in Downloads.", fs)
      else runInstaller py w id executableName fs

/-- The part of `install_app` behind the look-up of an app that is not run under Wine. -/
def installFlatpak (w : World) (app : App) : Answer :=
  if app.runtime ≠ .flatpak ∨ app.installable = some false then
    .answer false
      (app.reason.getD "This app cannot be installed on this Josh OS release.".toList)
  else if app.remote.getD [] = [] ∨ app.ref.getD [] = [] then
    refuse "The app manifest is incomplete."
  else if w.flatpakRemote.code ≠ 0 then
    .answer false
      (orElse w.flatpakRemote.err "Could not configure the Flatpak application remote.".toList)
  else
    w.flatpakInstall.answer w.flatpakInstall.out
      (orElse w.flatpakInstall.err (orElse w.flatpakInstall.out "Installation failed.".toList))

/-- A request to install an app. -/
def install (py : Python) (catalog : List App) (w : World) (id : Text)
    (filename executable : Field) (fs : FileSystem) : Answer × FileSystem :=
  match appRecord catalog id with
  | none => (refuse "That app is not in the Josh OS catalog.", fs)
  | some app =>
    if app.runtime = .wine then installWindowsApp py w app id filename executable fs
    else (installFlatpak w app, fs)

/-! ### Removing and launching -/

/-- What `rm -rf` leaves of the files. -/
def removeTree (w : World) (p : Path) (fs : FileSystem) : FileSystem := fun q =>
  if p <+: q ∧ ¬ (w.rm.code ≠ 0 ∧ w.kept q = true) then none else fs q

/-- The part of `uninstall_app` for an app that is run under Wine. -/
def removeWindowsApp (py : Python) (w : World) (id : Text) (fs : FileSystem) :
    Answer × FileSystem :=
  if ¬ isDir fs (winePrefix py id) then (refuse "That Windows app is not installed.", fs)
  else
    let fs := removeTree w (path (winePrefix py id)) fs
    let launcher := path (wineLauncher py id)
    if fs launcher = some .directory then (.raised, fs)
    else
      (w.rm.answer "Windows app removed.".toList (orElse w.rm.err "Removal failed.".toList),
        Function.update fs launcher none)

def uninstallApp (py : Python) (catalog : List App) (w : World) (id : Text) (fs : FileSystem) :
    Answer × FileSystem :=
  match appRecord catalog id with
  | none => (refuse "That app cannot be removed by Josh OS.", fs)
  | some app =>
    if app.runtime = .wine then removeWindowsApp py w id fs
    else if app.runtime ≠ .flatpak ∨ app.ref.getD [] = [] then
      (refuse "That app cannot be removed by Josh OS.", fs)
    else
      (w.flatpakUninstall.answer w.flatpakUninstall.out
        (orElse w.flatpakUninstall.err
          (orElse w.flatpakUninstall.out "Removal failed.".toList)), fs)

/-- The apps that are reported as installed, given the reply of `flatpak list`. -/
def installedAppIds (py : Python) (catalog : List App) (listed : Reply) (fs : FileSystem) :
    List Text :=
  if listed.code ≠ 0 then []
  else
    ((splitlines listed.out).map strip).filter (fun line => line ≠ []) ++
      (catalog.filter fun app => app.runtime = .wine ∧ isFile fs (wineMarker py app.id)).map App.id

/-- The answer to a start, which needs the name of the app. -/
def startAnswer (w : World) (app : App) : Answer :=
  match w.startError, app.name with
  | some message, _ => .answer false ("Could not launch the app: ".toList ++ message)
  | none, some name => .answer true (name ++ " is launching.".toList)
  | none, none => .raised

def launchApp (py : Python) (catalog : List App) (w : World) (id : Text) (fs : FileSystem) :
    Answer × FileSystem :=
  match appRecord catalog id with
  | none => (refuse "This app does not have a managed launcher yet.", fs)
  | some app =>
    if app.runtime = .wine then
      match fs (path (wineLauncher py id)) with
      | some (.file content) =>
        (startAnswer w app, if w.startError = none then w.starts content fs else fs)
      | _ => (refuse "Install the Windows app before launching it.", fs)
    else if app.runtime ≠ .flatpak ∨ app.ref.getD [] = [] then
      (refuse "This app does not have a managed launcher yet.", fs)
    else if app.ref.getD [] ∉ installedAppIds py catalog w.flatpakList fs then
      (refuse "Install the app before launching it.", fs)
    else (startAnswer w app, fs)

/-! ### Calls -/

inductive Request where
  | install (filename executable : Field)
  | uninstall
  | launch
  deriving DecidableEq, Repr

/-- A request for an app, and what happens outside of the service meanwhile. -/
structure Call where
  world : World
  id : Text
  request : Request

def serve (py : Python) (catalog : List App) (fs : FileSystem) (call : Call) :
    Answer × FileSystem :=
  match call.request with
  | .install filename executable =>
    install py catalog call.world call.id filename executable fs
  | .uninstall => uninstallApp py catalog call.world call.id fs
  | .launch => launchApp py catalog call.world call.id fs

end JoshOS.Control
