import JoshOS.Control.Apps

/-!
Apps that are run under Wine, beside each other.

All paths of an app are made of its id, in which what is neither a letter nor a digit becomes
an underscore.  A call for an app works on the way to these paths and below its prefix.

* `wine_apps_isolated_iff`: the apps of two ids are isolated from each other exactly when the
  ids are not empty and differ after the replacement (`wine_app_removes_other`).
-/

open Function List Paths

namespace JoshOS.Control

variable {py : Python} {catalog : List App} {id id' : Text} {fs fs' fs'' : FileSystem}
  {w : World} {q : Path}

/-! ### The paths of an app -/

/-- The directory above all files of apps. -/
def localRoot : Path := ["home".toList, "josh".toList, ".local".toList]

/-- The directory of all prefixes. -/
def wineRoot : Path := localRoot ++ ["share".toList, "josh-os".toList, "wine".toList]

/-- The directory of all launchers. -/
def binRoot : Path := localRoot ++ ["bin".toList]

lemma not_mem_safeId (py : Python) (id : Text) : '/' ∉ safeId py id := by
  intro hmem
  obtain ⟨c, -, hc⟩ := mem_map.mp hmem
  split_ifs at hc with halnum
  · subst hc
    rw [py.isAlnum_ascii '/' (by decide)] at halnum
    exact absurd halnum (by decide)
  · exact absurd hc (by decide)

lemma safeId_eq_nil : safeId py id = [] ↔ id = [] := map_eq_nil_iff

lemma path_winePrefix_eq (py : Python) (id : Text) :
    path (winePrefix py id) = wineRoot ++ path (safeId py id) := by
  have hroot : components '/' "/home/josh/.local/share/josh-os/wine".toList = wineRoot := by
    decide
  have hsep : "/home/josh/.local/share/josh-os/wine/".toList =
      "/home/josh/.local/share/josh-os/wine".toList ++ ['/'] := by decide
  unfold path winePrefix
  rw [hsep, append_assoc, singleton_append, components_append_sep, hroot]

/-- The prefix of an app is a directory of its own, if its id is not empty. -/
lemma path_winePrefix (py : Python) (hid : id ≠ []) :
    path (winePrefix py id) = wineRoot ++ [safeId py id] := by
  rw [path_winePrefix_eq, path,
    components_name (not_mem_safeId py id) (mt safeId_eq_nil.mp hid)]

lemma path_winePrefix_nil (py : Python) : path (winePrefix py []) = wineRoot := by
  rw [path_winePrefix_eq]
  rfl

lemma path_wineMarker (py : Python) (id : Text) :
    path (wineMarker py id) = path (winePrefix py id) ++ [".josh-installed".toList] := by
  have hname : components '/' ".josh-installed".toList = [".josh-installed".toList] := by decide
  have hsep : "/.josh-installed".toList = '/' :: ".josh-installed".toList := by decide
  unfold path wineMarker
  rw [hsep, components_append_sep, hname]

lemma path_wineLauncher (py : Python) (id : Text) :
    path (wineLauncher py id) = binRoot ++ ["joshos-wine-".toList ++ safeId py id] := by
  have hname : '/' ∉ "joshos-wine-".toList ++ safeId py id := by
    rw [mem_append, not_or]
    exact ⟨by decide, not_mem_safeId py id⟩
  have hroot : components '/' "/home/josh/.local/bin".toList = binRoot := by decide
  have hsep : "/home/josh/.local/bin/joshos-wine-".toList =
      "/home/josh/.local/bin".toList ++ '/' :: "joshos-wine-".toList := by decide
  unfold path wineLauncher
  rw [hsep, append_assoc, cons_append, components_append_sep, hroot,
    components_name hname (by simp)]

lemma path_wineLauncher_inj :
    path (wineLauncher py id) = path (wineLauncher py id') ↔ safeId py id = safeId py id' := by
  rw [path_wineLauncher, path_wineLauncher, append_cancel_left_eq, singleton_inj,
    append_cancel_left_eq]

/-- No launcher is above or below a prefix. -/
lemma apart_winePrefix_wineLauncher (py : Python) (id id' : Text) :
    Apart (path (winePrefix py id)) (path (wineLauncher py id')) := by
  have hne : "share".toList ≠ "bin".toList := by decide
  rw [path_winePrefix_eq, path_wineLauncher, wineRoot, binRoot, append_assoc,
    append_assoc]
  exact apart_of_ne hne

/-- A launcher is on the way to another one only if they are the same. -/
lemma eq_wineLauncher_of_way
    (h : path (wineLauncher py id) <+: path (wineLauncher py id')) :
    path (wineLauncher py id) = path (wineLauncher py id') := by
  refine h.eq_of_length_le ?_
  rw [path_wineLauncher, path_wineLauncher]
  simp

/-! ### What a call may change -/

/-- The paths that the calls for an app may change: those on the way to its prefix, below it,
and on the way to its launcher. -/
def Reach (py : Python) (id : Text) (q : Path) : Prop :=
  ¬ Apart (path (winePrefix py id)) q ∨ q <+: path (wineLauncher py id)

/-- The files after a call for an app: nothing else has changed, and a launcher that was
written starts the prefix of the app. -/
structure Work (py : Python) (id : Text) (fs fs' : FileSystem) : Prop where
  frame : ∀ q, ¬ Reach py id q → fs' q = fs q
  launcher : fs' (path (wineLauncher py id)) = fs (path (wineLauncher py id)) ∨
    fs' (path (wineLauncher py id)) = none ∨
    ∃ executable, fs' (path (wineLauncher py id)) =
      some (.file (launcherText (winePrefix py id) executable))

namespace Work

lemma refl (py : Python) (id : Text) (fs : FileSystem) : Work py id fs fs :=
  ⟨fun _ _ => rfl, .inl rfl⟩

lemma trans (h : Work py id fs fs') (h' : Work py id fs' fs'') : Work py id fs fs'' := by
  refine ⟨fun q hq => (h'.frame q hq).trans (h.frame q hq), ?_⟩
  rcases h'.launcher with heq | hnew
  · rw [heq]
    exact h.launcher
  · exact .inr hnew

/-- A change that is confined to the prefix. -/
lemma of_confined {f : FileSystem → FileSystem} (hf : Confined (path (winePrefix py id)) f)
    (fs : FileSystem) : Work py id fs (f fs) := by
  refine ⟨fun q hq => ?_, .inl (hf fs _ (apart_winePrefix_wineLauncher py id id))⟩
  exact hf fs q (not_not.mp (not_or.mp hq).1)

lemma makeDirs (h : Control.makeDirs fs (path (wineLauncher py id)).dropLast = some fs') :
    Work py id fs fs' := by
  unfold Control.makeDirs at h
  split_ifs at h
  obtain rfl := Option.some_inj.mp h
  have hcut : (path (wineLauncher py id)).dropLast <+: path (wineLauncher py id) :=
    dropLast_prefix _
  refine ⟨fun q hq => if_neg fun hnew => ?_, .inl (if_neg fun hnew => ?_)⟩
  · exact (not_or.mp hq).2 (hnew.1.trans hcut)
  · have hle := hnew.1.length_le
    rw [length_dropLast, path_wineLauncher, length_append, length_singleton] at hle
    omega

lemma writeFile {executable : Text}
    (h : Control.writeFile fs (path (wineLauncher py id))
      (launcherText (winePrefix py id) executable) = some fs') : Work py id fs fs' := by
  unfold Control.writeFile at h
  split_ifs at h
  obtain rfl := Option.some_inj.mp h
  refine ⟨fun q hq => update_of_ne ?_ _ _,
    .inr (.inr ⟨executable, update_self ..⟩)⟩
  rintro rfl
  exact (not_or.mp hq).2 (prefix_refl _)

/-- The launcher is removed. -/
lemma removeLauncher (py : Python) (id : Text) (fs : FileSystem) :
    Work py id fs (update fs (path (wineLauncher py id)) none) := by
  refine ⟨fun q hq => update_of_ne ?_ _ _, .inr (.inl (update_self ..))⟩
  rintro rfl
  exact (not_or.mp hq).2 (prefix_refl _)

end Work

lemma confined_removeTree (w : World) (p : Path) : Confined p (removeTree w p) :=
  fun _ _ hq => if_neg fun h => hq.1 h.1

/-- The marker is in the prefix. -/
lemma confined_marker (py : Python) (id : Text) (node : Option Node) :
    Confined (path (winePrefix py id))
      fun fs => update fs (path (wineMarker py id)) node := by
  intro fs q hq
  refine update_of_ne ?_ _ _
  rintro rfl
  refine hq.1 ?_
  rw [path_wineMarker]
  exact prefix_append _ _

lemma work_addLauncher (py : Python) (w : World) (id executable : Text) (fs : FileSystem) :
    Work py id fs (addLauncher py w id executable fs).2 := by
  unfold addLauncher
  dsimp only
  split
  case h_1 => exact .refl py id fs
  case h_2 dirs hdirs =>
    have hmade := Work.makeDirs hdirs
    split
    case h_1 => exact hmade
    case h_2 written hwritten =>
      have hwork := hmade.trans (Work.writeFile hwritten)
      split_ifs
      · exact hwork.trans (.of_confined (confined_marker py id _) written)
      · exact hwork
      · exact hwork

lemma work_runInstaller (py : Python) (w : World) (id : Text) (executableName : Field)
    (fs : FileSystem) : Work py id fs (runInstaller py w id executableName fs).2 := by
  have hboot : Work py id fs (w.boots (winePrefix py id) fs) :=
    .of_confined (w.boots_confined _) fs
  have hinstall := hboot.trans (.of_confined (w.installs_confined (winePrefix py id)) _)
  unfold runInstaller
  dsimp only
  by_cases hcode : w.wineboot.code ≠ 0
  · rw [if_pos hcode]
    exact hboot
  · rw [if_neg hcode]
    by_cases hcode' : w.wine.code ≠ 0
    · rw [if_pos hcode']
      exact hinstall
    · rw [if_neg hcode']
      split
      case h_1 => exact hinstall
      case h_2 executable _ =>
        split_ifs
        · exact hinstall.trans (work_addLauncher py w id executable _)
        · exact hinstall

lemma work_installWindowsApp (py : Python) (w : World) (app : App) (id : Text)
    (installerName executableName : Field) (fs : FileSystem) :
    Work py id fs (installWindowsApp py w app id installerName executableName fs).2 := by
  unfold installWindowsApp
  split_ifs
  · exact .refl py id fs
  · cases installerName with
    | null | other => exact .refl py id fs
    | text name =>
      dsimp only
      split_ifs
      · exact .refl py id fs
      · exact work_runInstaller py w id executableName fs
      · exact .refl py id fs
      · exact .refl py id fs

lemma work_removeWindowsApp (py : Python) (w : World) (id : Text) (fs : FileSystem) :
    Work py id fs (removeWindowsApp py w id fs).2 := by
  have hremove := Work.of_confined (confined_removeTree w (path (winePrefix py id))) fs
  unfold removeWindowsApp
  dsimp only
  split_ifs
  · exact hremove
  · exact hremove.trans (.removeLauncher py id _)
  · exact .refl py id fs

/-- Every launcher is one that was written for the prefix of its app. -/
def Genuine (py : Python) (fs : FileSystem) : Prop :=
  ∀ id content, fs (path (wineLauncher py id)) = some (.file content) →
    ∃ executable, content = launcherText (winePrefix py id) executable

/-- **What a call may change.** -/
lemma work_serve (catalog : List App) (h : Genuine py fs) (call : Call) :
    Work py call.id fs (serve py catalog fs call).2 := by
  unfold serve
  cases call.request with
  | install filename executable =>
    dsimp only [install]
    split
    case h_1 => exact .refl py _ fs
    case h_2 app _ =>
      split_ifs
      · exact work_installWindowsApp py _ app _ filename executable fs
      · exact .refl py _ fs
  | uninstall =>
    dsimp only [uninstallApp]
    split
    case h_1 => exact .refl py _ fs
    case h_2 =>
      split_ifs
      · exact work_removeWindowsApp py _ _ fs
      · exact .refl py _ fs
      · exact .refl py _ fs
  | launch =>
    dsimp only [launchApp]
    split
    case h_1 => exact .refl py _ fs
    case h_2 app _ =>
      by_cases hwine : app.runtime = .wine
      · rw [if_pos hwine]
        split
        case h_1 content hcontent =>
          -- the process works in the prefix that its launcher names
          obtain ⟨executable, rfl⟩ := h _ _ hcontent
          dsimp only
          split_ifs
          · exact .of_confined (call.world.starts_confined _ executable) fs
          · exact .refl py _ fs
        case h_2 => exact .refl py _ fs
      · rw [if_neg hwine]
        split_ifs
        · exact .refl py _ fs
        · exact .refl py _ fs
        · exact .refl py _ fs

/-- The launchers stay genuine. -/
lemma Genuine.work (h : Genuine py fs) (hwork : Work py id fs fs') : Genuine py fs' := by
  intro id' content hcontent
  by_cases heq : path (wineLauncher py id') = path (wineLauncher py id)
  · have hsame : winePrefix py id' = winePrefix py id := by
      unfold winePrefix
      rw [path_wineLauncher_inj.mp heq]
    rw [heq] at hcontent
    rcases hwork.launcher with hold | hnone | ⟨executable, hnew⟩
    · rw [hold, ← heq] at hcontent
      exact h id' content hcontent
    · rw [hnone] at hcontent
      cases hcontent
    · rw [hnew] at hcontent
      rw [hsame]
      exact ⟨executable, (Node.file.inj (Option.some_inj.mp hcontent)).symm⟩
  · have hout : ¬ Reach py id (path (wineLauncher py id')) := by
      rintro (hnear | hway)
      · exact hnear (apart_winePrefix_wineLauncher py id id')
      · exact heq (eq_wineLauncher_of_way hway)
    rw [hwork.frame _ hout] at hcontent
    exact h id' content hcontent

lemma genuine_final (catalog : List App) (h : Genuine py fs) (calls : List Call) :
    Genuine py (Runs.final (serve py catalog) fs calls) :=
  Runs.final_induction _ (fun _ call hfs => hfs.work (work_serve catalog hfs call)) h calls

/-! ### Two apps -/

/-- The paths of two apps have nothing in common: all of them are different, and neither of the
prefixes is inside of the other. -/
def PathsApart (py : Python) (id id' : Text) : Prop :=
  [path (winePrefix py id), path (wineMarker py id), path (wineLauncher py id),
    path (winePrefix py id'), path (wineMarker py id'), path (wineLauncher py id')].Nodup ∧
    Apart (path (winePrefix py id)) (path (winePrefix py id'))

/-- What is seen of an app is the same: whether it is reported as installed, its launcher, and
all that is in its prefix. -/
structure SameView (py : Python) (catalog : List App) (id : Text) (fs fs' : FileSystem) :
    Prop where
  installed : ∀ listed, id ∈ installedAppIds py catalog listed fs' ↔
    id ∈ installedAppIds py catalog listed fs
  launcher : fs' (path (wineLauncher py id)) = fs (path (wineLauncher py id))
  contents : ∀ q, path (winePrefix py id) <+: q → fs' q = fs q

/-- Two ids that are still different when they have been made safe. -/
def SafelyDistinct (py : Python) (id id' : Text) : Prop :=
  id ≠ [] ∧ id' ≠ [] ∧ safeId py id ≠ safeId py id'

/-- Whether an app is installed is read from its prefix. -/
lemma mem_installedAppIds_congr
    (h : ∀ q, path (winePrefix py id) <+: q → fs' q = fs q) (listed : Reply) :
    id ∈ installedAppIds py catalog listed fs' ↔ id ∈ installedAppIds py catalog listed fs := by
  have hmarker : isFile fs' (wineMarker py id) = isFile fs (wineMarker py id) := by
    unfold isFile
    rw [h _ (by rw [path_wineMarker]; exact prefix_append _ _)]
  have hwine : ∀ app : App, (app.runtime = .wine ∧ isFile fs' (wineMarker py app.id) = true) ∧
      app.id = id ↔ (app.runtime = .wine ∧ isFile fs (wineMarker py app.id) = true) ∧
      app.id = id := by
    intro app
    constructor
    · rintro ⟨⟨hruntime, hfile⟩, rfl⟩
      exact ⟨⟨hruntime, hmarker ▸ hfile⟩, rfl⟩
    · rintro ⟨⟨hruntime, hfile⟩, rfl⟩
      exact ⟨⟨hruntime, hmarker ▸ hfile⟩, rfl⟩
  unfold installedAppIds
  split_ifs
  · rfl
  · simp only [mem_append, mem_map, mem_filter, decide_eq_true_eq, and_assoc]
    simp only [and_assoc] at hwine
    simp only [hwine]

namespace SafelyDistinct

lemma apart (h : SafelyDistinct py id id') {l : Path} :
    Apart (path (winePrefix py id)) (path (winePrefix py id') ++ l) := by
  rw [path_winePrefix py h.1, path_winePrefix py h.2.1, append_assoc]
  exact apart_of_ne h.2.2

/-- The prefix of the other app is out of reach. -/
lemma not_reach_prefix (h : SafelyDistinct py id id') (hq : path (winePrefix py id') <+: q) :
    ¬ Reach py id q := by
  obtain ⟨l, rfl⟩ := hq
  rintro (hnear | hway)
  · exact hnear h.apart
  · exact (apart_winePrefix_wineLauncher py id' id).1 ((prefix_append _ _).trans hway)

/-- So is its launcher. -/
lemma not_reach_launcher (h : SafelyDistinct py id id') :
    ¬ Reach py id (path (wineLauncher py id')) := by
  rintro (hnear | hway)
  · exact hnear (apart_winePrefix_wineLauncher py id id')
  · exact h.2.2 (path_wineLauncher_inj.mp (eq_wineLauncher_of_way hway)).symm

lemma pathsApart (h : SafelyDistinct py id id') : PathsApart py id id' := by
  refine ⟨?_, by simpa using h.apart (l := [])⟩
  obtain ⟨hid, hid', hne⟩ := h
  simp [path_winePrefix py hid, path_winePrefix py hid', path_wineMarker, path_wineLauncher,
    wineRoot, binRoot, hne]

end SafelyDistinct

/-- Work for an app leaves the view of another one as it is. -/
lemma Work.sameView (hwork : Work py id fs fs') (h : SafelyDistinct py id id') :
    SameView py catalog id' fs fs' := by
  have hcontents : ∀ q, path (winePrefix py id') <+: q → fs' q = fs q :=
    fun q hq => hwork.frame q (h.not_reach_prefix hq)
  exact ⟨mem_installedAppIds_congr hcontents, hwork.frame _ h.not_reach_launcher, hcontents⟩

/-- **When apps under Wine are isolated from each other.**  The paths of two ids have nothing in
common, and no call for the first changes what is seen of the app of the second, whatever calls
came before: exactly when the ids are not empty and are still different with underscores for
what is neither a letter nor a digit. -/
theorem wine_apps_isolated_iff (py : Python) (catalog : List App) (id id' : Text) :
    (PathsApart py id id' ∧
      ∀ fs, Genuine py fs → ∀ (calls : List Call) (call : Call), call.id = id →
        SameView py catalog id' (Runs.final (serve py catalog) fs calls)
          (Runs.final (serve py catalog) fs (calls ++ [call]))) ↔
      SafelyDistinct py id id' := by
  constructor
  · rintro ⟨⟨-, hapart⟩, -⟩
    refine ⟨fun hnil => hapart.1 ?_, fun hnil => hapart.2 ?_, fun hsame => hapart.1 ?_⟩
    · rw [hnil, path_winePrefix_nil, path_winePrefix_eq]
      exact List.prefix_append _ _
    · rw [hnil, path_winePrefix_nil, path_winePrefix_eq]
      exact List.prefix_append _ _
    · rw [path_winePrefix_eq, path_winePrefix_eq, hsame]
  · intro hdistinct
    refine ⟨hdistinct.pathsApart, fun fs hfs calls call hcall => ?_⟩
    have hwork := work_serve catalog (genuine_final catalog hfs calls) call
    rw [hcall] at hwork
    rw [Runs.final_append]
    exact hwork.sameView hdistinct

/-- A system on which every command succeeds: the installer leaves one program in the prefix,
and a process that is launched leaves the files alone. -/
def smoothWorld : World where
  wineboot := ⟨0, [], []⟩
  wine := ⟨0, [], []⟩
  touch := ⟨0, [], []⟩
  rm := ⟨0, [], []⟩
  flatpakRemote := ⟨0, [], []⟩
  flatpakInstall := ⟨0, [], []⟩
  flatpakUninstall := ⟨0, [], []⟩
  flatpakList := ⟨0, [], []⟩
  boots home fs := Function.update fs (path home) (some .directory)
  installs home fs := Function.update fs (path (home ++ "/drive_c/a.exe".toList)) (some (.file []))
  starts _ fs := fs
  startError := none
  kept _ := false
  realpath _ text := text
  pwd := true
  knowsUser := true
  boots_confined home fs q hq := by
    refine Function.update_of_ne ?_ _ _
    rintro rfl
    exact hq.1 (List.prefix_refl _)
  installs_confined home fs q hq := by
    refine Function.update_of_ne ?_ _ _
    rintro rfl
    have hcut : path (home ++ "/drive_c/a.exe".toList) =
        path home ++ path "drive_c/a.exe".toList := components_append_sep '/' _ _
    exact hq.1 (hcut ▸ List.prefix_append _ _)
  starts_confined _ _ _ _ _ := rfl

/-- An app whose installer is in the directory of downloads. -/
def downloadedApp (id : String) : App :=
  ⟨id.toList, .wine, none, none, some "downloads".toList, none, none, some id.toList⟩

/-- A directory of downloads with one installer. -/
def downloads : FileSystem :=
  Function.update (fun _ => none) (path "/home/josh/Downloads/a.exe".toList) (some (.file []))

def installCall (id : String) : Call :=
  ⟨smoothWorld, id.toList, .install (.text "a.exe".toList) (.text "a.exe".toList)⟩

lemma genuine_downloads (py : Python) : Genuine py downloads := by
  intro id content h
  have hlength : (path "/home/josh/Downloads/a.exe".toList).length = 4 := by decide
  have hne : path (wineLauncher py id) ≠ path "/home/josh/Downloads/a.exe".toList := by
    intro heq
    rw [← heq, path_wineLauncher, length_append, length_singleton] at hlength
    exact absurd hlength (by decide)
  rw [downloads, update_of_ne hne] at h
  cases h

theorem wine_apps_isolated_iff_letters :
    SameView .ascii [downloadedApp "a", downloadedApp "b"] "b".toList
      (Runs.final (serve .ascii [downloadedApp "a", downloadedApp "b"]) downloads
        [installCall "b"])
      (Runs.final (serve .ascii [downloadedApp "a", downloadedApp "b"]) downloads
        [installCall "b", ⟨smoothWorld, "a".toList, .uninstall⟩]) := by
  have hdistinct : SafelyDistinct .ascii "a".toList "b".toList := by
    refine ⟨by decide, by decide, by decide⟩
  exact ((wine_apps_isolated_iff .ascii _ _ _).mpr hdistinct).2 downloads
    (genuine_downloads _) [installCall "b"] ⟨smoothWorld, "a".toList, .uninstall⟩ rfl

/-- **Removing an app removes another one**: `my-app` and `my_app` have the same paths. -/
theorem wine_app_removes_other :
    let serve := serve .ascii [downloadedApp "my-app", downloadedApp "my_app"]
    let before := Runs.final serve downloads [installCall "my_app"]
    let after := Runs.final serve before [⟨smoothWorld, "my-app".toList, .uninstall⟩]
    "my_app".toList ∈ installedAppIds .ascii [downloadedApp "my-app", downloadedApp "my_app"]
        ⟨0, [], []⟩ before ∧
      before (path (wineLauncher .ascii "my_app".toList)) ≠ none ∧
      "my_app".toList ∉ installedAppIds .ascii [downloadedApp "my-app", downloadedApp "my_app"]
        ⟨0, [], []⟩ after ∧
      after (path (wineLauncher .ascii "my_app".toList)) = none := by
  decide +kernel

end JoshOS.Control
