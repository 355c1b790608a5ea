import JoshOS.Services.Values

/-!
The settings and the device registry as maps.

* `valueAt`: the value that the root file system holds under a key.
* `Registry`: the services are set up, no handle is open, and the files under the two
  directories hold what a map says.
* `registry_maps`: along every run whose values fit into a file, the services behave as
  maps.
-/

namespace JoshOS

open List Slots Tmpfs Vfs

namespace Services

/-- The two directories with keys. -/
inductive Namespace where
  | settings | devices
  deriving DecidableEq

/-- The path of the directory. -/
def Namespace.path : Namespace → List UInt8
  | .settings => settingsPath
  | .devices => devicesPath

/-- The name of the directory. -/
def Namespace.name (ns : Namespace) : List UInt8 := ns.path.tail

/-- The node of the directory. -/
def Namespace.node : Namespace → NodeIndex
  | .settings => ⟨2, by decide⟩
  | .devices => ⟨3, by decide⟩

/-- `settings_service_set` or `device_service_publish`. -/
def Namespace.set : Namespace → Services → Option (List UInt8) → Option (List UInt8) →
    Except VfsStatus Unit × Services
  | .settings => settingsServiceSet
  | .devices => deviceServicePublish

/-- `settings_service_get` or `device_service_read`. -/
def Namespace.get : Namespace → Services → Option (List UInt8) → Bool → Bool → ℕ →
    Except VfsStatus (List UInt8) × Services
  | .settings => settingsServiceGet
  | .devices => deviceServiceRead

variable {x : Services} {ns ns' : Namespace} {key key' value : List UInt8} {t : Vfs FsName}
  {fs fs' : Tmpfs} {n : NodeIndex}

lemma Namespace.set_eq : ns.set = storeUnder (ns.path ++ [47]) := by cases ns <;> rfl

lemma Namespace.get_eq : ns.get = fetchUnder (ns.path ++ [47]) := by cases ns <;> rfl

/-! ### Keys and their paths -/

/-- The path of a key. -/
def keyPath (ns : Namespace) (key : List UInt8) : List UInt8 := ns.path ++ [47] ++ key

lemma safeName_iff : safeName key = true ↔
    key ≠ [] ∧ (∀ c ∈ key, safeChar c = true) ∧ key.length ≤ vfsNameMax := by
  rw [safeName, decide_eq_true_eq]

/-- A safe name is a proper component of a path. -/
lemma component_of_safeName (h : safeName key = true) : Component key := by
  obtain ⟨hne, hall, hlen⟩ := safeName_iff.mp h
  refine ⟨hne, hlen, fun hmem => ?_, fun hmem => ?_⟩
  · exact absurd (hall slash hmem) (by decide)
  · exact absurd (hall 0 hmem) (by decide)

lemma makePath_eq : makePath (ns.path ++ [47]) (some key) =
    if safeName key = true then some (keyPath ns key) else none := by
  rw [makePath]
  cases hsafe : safeName key with
  | false => simp
  | true =>
    have hlen := (safeName_iff.mp hsafe).2.2
    have hpath : (ns.path ++ [47]).length ≤ 10 := by cases ns <;> decide
    have hmax : vfsNameMax + 10 ≤ vfsPathMax := by decide
    rw [if_neg (by simp), if_neg (by omega), if_pos rfl]
    rfl

lemma keyPath_eq_pathOf : keyPath ns key = pathOf [ns.name, key] := by
  cases ns <;> simp [keyPath, Namespace.path, Namespace.name, settingsPath, devicesPath, slash]

lemma Namespace.component (ns : Namespace) : Component ns.name := by
  cases ns with
  | settings | devices => exact ⟨by decide, by decide, by decide, by decide⟩

lemma components_key (h : safeName key = true) : ∀ c ∈ [ns.name, key], Component c := by
  simp only [mem_cons, not_mem_nil, or_false, forall_eq_or_imp, forall_eq]
  exact ⟨ns.component, component_of_safeName h⟩

lemma zero_notMem_keyPath (h : safeName key = true) : (0 : UInt8) ∉ keyPath ns key := by
  have hkey := (component_of_safeName h).no_zero
  have hpath : (0 : UInt8) ∉ ns.path ++ [47] := by cases ns <;> decide
  rw [keyPath, mem_append, not_or]
  exact ⟨hpath, hkey⟩

/-- The path of a safe key, as a string. -/
def keyString (ns : Namespace) (key : List UInt8) (h : safeName key = true) : CString :=
  ⟨keyPath ns key, zero_notMem_keyPath h⟩

/-- Different keys have different paths. -/
lemma keyPath_injective (h : safeName key = true) (h' : safeName key' = true)
    (heq : keyPath ns key = keyPath ns' key') : ns = ns' ∧ key = key' := by
  rw [keyPath_eq_pathOf, keyPath_eq_pathOf] at heq
  have := pathOf_injective (components_key h) (components_key h') heq
  simp only [cons.injEq, and_true] at this
  refine ⟨?_, this.2⟩
  cases ns <;> cases ns' <;> first | rfl | exact absurd this.1 (by decide)

/-! ### Mounts -/

/-- The place of the first mount. -/
def mountRoot : Fin vfsMaxMounts := firstMount

/-- The place of the second mount. -/
def mountVar : Fin vfsMaxMounts := ⟨1, by decide⟩

/-- The root file system is mounted at `/`, and perhaps another at `/var`; nothing else is
mounted. -/
structure Mounted (t : Vfs FsName) : Prop where
  root : t.mounts mountRoot = ⟨true, rootPath, some .root⟩
  var : (t.mounts mountVar).used = true → t.mounts mountVar = ⟨true, varPath, some .var⟩
  rest : ∀ i : Fin vfsMaxMounts, 2 ≤ i.val → (t.mounts i).used = false

lemma resolveMountFrom_unused {path : List UInt8} {found : Option (Fin vfsMaxMounts)} {best : ℕ}
    {is : List (Fin vfsMaxMounts)} (h : ∀ i ∈ is, (t.mounts i).used = false) :
    t.resolveMountFrom path found best is = found := by
  induction is with
  | nil => rfl
  | cons i is ih =>
    rw [forall_mem_cons] at h
    rw [resolveMountFrom]
    simp only [h.1, true_or, if_true]
    exact ih h.2

/-- An absolute path that is not below `/var` belongs to the root file system. -/
lemma Mounted.resolveMount (hm : Mounted t) {path : List UInt8} (hslash : path.getD 0 0 = slash)
    (hvar : (t.mounts mountVar).used = true → mountMatches varPath path = false) :
    t.resolveMount path = some (mountRoot, path) := by
  have hlist : finRange vfsMaxMounts =
      mountRoot :: mountVar :: (finRange vfsMaxMounts).drop 2 := by decide
  have hrest : ∀ i ∈ (finRange vfsMaxMounts).drop 2, (t.mounts i).used = false := by
    intro i hi
    refine hm.rest i ?_
    revert i
    decide
  have hroot : mountMatches rootPath path = true := by
    rw [mountMatches, if_pos (by decide), hslash]
    decide
  have hskip : (t.mounts mountVar).used = false ∨
      mountMatches (t.mounts mountVar).path path = false := by
    cases hu : (t.mounts mountVar).used with
    | false => exact .inl rfl
    | true =>
      rw [hm.var hu]
      exact .inr (hvar hu)
  have hfound : t.resolveMountFrom path none 0 (finRange vfsMaxMounts) = some mountRoot := by
    rw [hlist, resolveMountFrom, hm.root]
    simp only [hroot, Bool.true_eq_false, or_self, if_false, true_or, if_true]
    rw [resolveMountFrom, if_pos hskip, resolveMountFrom_unused hrest]
  have hne : path ≠ [] := by
    rintro rfl
    exact absurd hslash (by decide)
  rw [Vfs.resolveMount, hfound]
  dsimp only
  rw [hm.root]
  simp only [rootPath, slash, if_true, if_neg hne]

lemma Mounted.resolveMount_key (hm : Mounted t) :
    t.resolveMount (keyPath ns key) = some (mountRoot, keyPath ns key) := by
  refine hm.resolveMount ?_ fun _ => ?_
  · cases ns <;> rfl
  · cases ns <;> simp [mountMatches, keyPath, Namespace.path, settingsPath, devicesPath, varPath,
      slash]

/-! ### The registry -/

/-- The value that a file system holds under a key. -/
def valueAt (fs : Tmpfs) (ns : Namespace) (key : List UInt8) : Option (List UInt8) :=
  (fs.resolveNode (keyPath ns key)).map fun n => fileBytes (fs.nodes n)

/-- A file system with the two directories, and files in them. -/
structure Directories (fs : Tmpfs) : Prop where
  tree : Tree fs
  child : ∀ ns : Namespace, IsChild fs rootNode ns.name ns.node
  type : ∀ ns : Namespace, (fs.nodes ns.node).type = .directory
  file : ∀ (ns : Namespace) key n, IsChild fs ns.node key n → (fs.nodes n).type = .file
  permissions : ∀ (ns : Namespace) key n, IsChild fs ns.node key n →
    (fs.nodes n).permissions = vfsPermRead ||| vfsPermWrite

/-- A key resolves to the child of its directory. -/
lemma Directories.resolveNode (hd : Directories fs) (hkey : safeName key = true) :
    fs.resolveNode (keyPath ns key) = some n ↔ IsChild fs ns.node key n := by
  rw [resolveNode_eq_some hd.tree (zero_notMem_keyPath hkey), keyPath_eq_pathOf]
  constructor
  · rintro ⟨cs, hcs, hw⟩
    obtain rfl := pathOf_injective (components_key hkey) (hw.components hd.tree) hcs
    obtain ⟨m, hm, hw⟩ := walk_cons.mp hw
    obtain rfl := hm.unique hd.tree (hd.child ns)
    obtain ⟨m', hm', hw⟩ := walk_cons.mp hw
    rwa [walk_nil.mp hw]
  · intro hn
    exact ⟨_, rfl, walk_cons.mpr ⟨_, hd.child ns, walk_cons.mpr ⟨_, hn, .nil⟩⟩⟩

/-- A value stored under a key leaves the directories what they are. -/
lemma Directories.stored (hd : Directories fs) (hkey : safeName key = true)
    (hs : Stored fs (keyString ns key hkey) value n fs') : Directories fs' := by
  -- neither of the directories is the file that was written
  have hne (ns' : Namespace) : ns'.node ≠ n := by
    rintro rfl
    rcases hs.room with hfree | ⟨-, hfile⟩
    · cases hfree.symm.trans (hd.child ns').used
    · cases hfile.symm.trans (hd.type ns')
  have hchild (p : NodeIndex) (c : List UInt8) (m : NodeIndex) (hm : m ≠ n) :
      IsChild fs' p c m ↔ IsChild fs p c m := by
    have hnode := hs.nodes m hm
    constructor
    · rintro ⟨hr, hu, hp, hc⟩
      exact ⟨hr, hnode ▸ hu, hnode ▸ hp, hnode ▸ hc⟩
    · rintro ⟨hr, hu, hp, hc⟩
      exact ⟨hr, hnode.symm ▸ hu, hnode.symm ▸ hp, hnode.symm ▸ hc⟩
  refine ⟨hs.tree, fun ns' => (hchild _ _ _ (hne ns')).mpr (hd.child ns'), fun ns' => ?_,
    fun ns' key' m hm => ?_, fun ns' key' m hm => ?_⟩
  · rw [hs.nodes _ (hne ns')]
    exact hd.type ns'
  · by_cases hmn : m = n
    · exact hmn ▸ hs.file
    · rw [hs.nodes m hmn]
      exact hd.file ns' key' m ((hchild _ _ _ hmn).mp hm)
  · by_cases hmn : m = n
    · subst hmn
      rcases hs.permissions with hp | ⟨hnode, hp⟩
      · exact hp
      · rw [hp]
        exact hd.permissions ns key m ((hd.resolveNode hkey).mp hnode)
    · rw [hs.nodes m hmn]
      exact hd.permissions ns' key' m ((hchild _ _ _ hmn).mp hm)

/-- A value stored under a key is what that key holds, and no other key is affected. -/
lemma Stored.valueAt_eq (hkey : safeName key = true)
    (hs : Stored fs (keyString ns key hkey) value n fs') (hkey' : safeName key' = true) :
    valueAt fs' ns' key' = if ns' = ns ∧ key' = key then some value else valueAt fs ns' key' := by
  split_ifs with heq
  · obtain ⟨rfl, rfl⟩ := heq
    have hres : fs'.resolveNode (keyPath ns' key') = some n := hs.resolved
    rw [valueAt, hres, Option.map_some, hs.bytes]
  · have hne : keyString ns' key' hkey' ≠ keyString ns key hkey := fun hq =>
      heq (keyPath_injective hkey' hkey (congrArg Subtype.val hq))
    have hres : fs'.resolveNode (keyPath ns' key') = fs.resolveNode (keyPath ns' key') :=
      hs.others (keyString ns' key' hkey') hne
    rw [valueAt, valueAt, hres]
    cases hm : fs.resolveNode (keyPath ns' key') with
    | none => rfl
    | some m =>
      have hmn : m ≠ n := by
        rintro rfl
        obtain ⟨cs, -, hw⟩ := (resolveNode_eq_some hs.tree (keyString ns key hkey).2).mp hs.resolved
        exact hne ((hs.tree.existsUnique_path (hw.used hs.tree)).unique (hres.trans hm) hs.resolved)
      rw [Option.map_some, Option.map_some, hs.nodes m hmn]

/-- A value is stored where there is a file, or a free node for one. -/
lemma Stored.valueAt_or (hkey : safeName key = true)
    (hs : Stored fs (keyString ns key hkey) value n fs') :
    valueAt fs ns key ≠ none ∨ ∃ n, (fs.nodes n).used = false := by
  rcases hs.room with hfree | ⟨hnode, -⟩
  · exact .inr ⟨n, hfree⟩
  · have hres : fs.resolveNode (keyPath ns key) = some n := hnode
    exact .inl (by simp [valueAt, hres])

/-- The services are set up, and no handle is open. -/
structure Registry (x : Services) : Prop where
  initialised : x.initialised = true
  linked : Linked x.vfs
  idle : ∀ h, (x.vfs.handles h).used = false
  mounted : Mounted x.vfs
  directories : Directories (x.vfs.contexts .root)

/-- A session on the file of a key, after which the file holds `value`. -/
lemma Registry.session (hr : Registry x) (hkey : safeName key = true) {flags : UInt32}
    (htrunc : Truncates flags) {mount : Fin vfsMaxMounts} {relative : List UInt8} {c : FsName}
    {h : Fin vfsMaxHandles} {s : Fin tmpfsMaxOpen}
    (ho : Opening x.vfs (keyPath ns key) flags mount relative c h s fs)
    (hnodes : fs'.nodes = (fs.written s value).nodes)
    (hopens : ∀ s', (fs'.opens s').used = (fs.opens s').used) :
    ∃ n, Registry { x with vfs := after x.vfs mount c h s fs' } ∧
      Stored (x.vfs.contexts .root) (keyString ns key hkey) value n
        ((after x.vfs mount c h s fs').contexts .root) := by
  obtain ⟨rfl, rfl⟩ :=
    Prod.mk.inj (Option.some.inj (ho.resolved.symm.trans hr.mounted.resolveMount_key))
  obtain rfl : c = .root := by
    have := ho.context
    rw [hr.mounted.root] at this
    exact (Option.some.inj this).symm
  have hslash : ¬ DoubleSlash (keyString ns key hkey).val := by
    change ¬ DoubleSlash (keyPath ns key)
    rw [keyPath_eq_pathOf]
    exact not_doubleSlash_pathOf (components_key hkey)
  obtain ⟨n, hs⟩ := stored_of_outcome (q := keyString ns key hkey) hr.directories.tree htrunc hslash
    ho.outcome value
  have hs' : Stored (x.vfs.contexts .root) (keyString ns key hkey) value n
      ((after x.vfs mountRoot .root h s fs').contexts .root) := by
    rw [after_contexts]
    exact hs.congr hnodes
  refine ⟨n, ⟨hr.initialised, linked_after hr.linked ho hopens, fun h' => ?_, ?_,
    hr.directories.stored hkey hs'⟩, hs'⟩
  · exact (after_handles ho.free).trans (hr.idle h')
  · exact ⟨hr.mounted.root, hr.mounted.var, hr.mounted.rest⟩

/-- What a set or publish does: nothing, or its file is cut and, if the value fits, the
value is put into it. -/
lemma Registry.store (hr : Registry x) (hkey : safeName key = true) (value : List UInt8) :
    (∃ status, ns.set x (some key) (some value) = (.error status, x)) ∨
      ∃ t n, Registry { x with vfs := t } ∧
        Stored (x.vfs.contexts .root) (keyString ns key hkey)
          (if tmpfsFileCapacity < value.length then [] else value) n (t.contexts .root) ∧
        ns.set x (some key) (some value) =
          (if tmpfsFileCapacity < value.length then .error .noSpace else .ok (),
            { x with vfs := t }) := by
  have htrunc : Truncates (vfsOpenWrite ||| vfsOpenCreate ||| vfsOpenTrunc) := by decide
  rw [ns.set_eq, storeUnder, if_neg (by simp [hr.initialised]), makePath_eq, if_pos hkey]
  dsimp only
  rcases writeValue_cases hr.linked (keyPath ns key) value with
    ⟨status, heq⟩ | ⟨mount, relative, c, h, s, fs, ho, heq⟩
  · rw [heq]
    exact .inl ⟨status, rfl⟩
  · rw [heq]
    have hoffset : (fs.opens s).offset = 0 := by rw [ho.outcome.entry]
    by_cases hlong : tmpfsFileCapacity < value.length
    · simp only [if_pos hlong]
      obtain ⟨n, hr', hs⟩ := hr.session hkey htrunc ho (nodes_written_nil hoffset).symm fun _ => rfl
      exact .inr ⟨_, n, hr', hs, rfl⟩
    · simp only [if_neg hlong]
      obtain ⟨n, hr', hs⟩ := hr.session hkey htrunc ho rfl fun _ => written_opens_used
      exact .inr ⟨_, n, hr', hs, rfl⟩

/-- Only the nodes matter for the directories. -/
lemma Directories.congr (hd : Directories fs) (hnodes : fs'.nodes = fs.nodes) :
    Directories fs' := by
  have hs := SameShape.of_nodes hnodes
  refine ⟨hs.tree hd.tree, fun ns => hs.isChild.mpr (hd.child ns), fun ns => ?_,
    fun ns key n hn => ?_, fun ns key n hn => ?_⟩
  · rw [hnodes]
    exact hd.type ns
  · rw [hnodes]
    exact hd.file ns key n (hs.isChild.mp hn)
  · rw [hnodes]
    exact hd.permissions ns key n (hs.isChild.mp hn)

/-- What a get or read does: it changes no node, and returns what the key holds. -/
lemma Registry.fetch (hr : Registry x) (ns : Namespace) (hkey : safeName key = true)
    (buffer readOut : Bool) (capacity : ℕ) :
    ∃ t, Registry { x with vfs := t } ∧
      (t.contexts .root).nodes = (x.vfs.contexts .root).nodes ∧
      (ns.get x (some key) buffer readOut capacity).2 = { x with vfs := t } ∧
      ∀ bytes, (ns.get x (some key) buffer readOut capacity).1 = .ok bytes →
        ∃ value, valueAt (x.vfs.contexts .root) ns key = some value ∧
          bytes = value.take capacity := by
  rw [ns.get_eq, fetchUnder, if_neg (by simp [hr.initialised]), makePath_eq, if_pos hkey]
  dsimp only
  rcases readValue_cases hr.linked (keyPath ns key) buffer readOut capacity with
    ⟨status, heq⟩ | ⟨mount, relative, c, h, s, fs, ho, heq⟩
  · rw [heq]
    exact ⟨x.vfs, hr, rfl, rfl, fun bytes hok => by cases hok⟩
  · rw [heq]
    obtain ⟨rfl, rfl⟩ :=
      Prod.mk.inj (Option.some.inj (ho.resolved.symm.trans hr.mounted.resolveMount_key))
    obtain rfl : c = .root := by
      have := ho.context
      rw [hr.mounted.root] at this
      exact (Option.some.inj this).symm
    have hoffset : (fs.opens s).offset = 0 := by rw [ho.outcome.entry]
    set fs₁ := fs.setOpen s { fs.opens s with
      offset := (fs.opens s).offset + fs.readCount s capacity } with hfs₁
    have hopens (s' : Fin tmpfsMaxOpen) : (fs₁.opens s').used = (fs.opens s').used :=
      moved_opens_used
    obtain ⟨n, hnode, hentry, hnodes⟩ : ∃ n, (x.vfs.contexts .root).resolveNode (keyPath ns key) =
        some n ∧ (fs.opens s).node = n ∧ fs.nodes = (x.vfs.contexts .root).nodes := by
      cases ho.outcome with
      | @found n s hnode hfile hslot =>
        refine ⟨n, hnode, by rw [opened, setOpen_same], ?_⟩
        rw [opened, if_neg (by decide), setOpen_nodes]
      | created hnode hc hslot hcreate => exact absurd hcreate (by decide)
    have hafter : ((after x.vfs mountRoot .root h s fs₁).contexts .root).nodes =
        (x.vfs.contexts .root).nodes := by
      rw [after_contexts]
      exact hnodes
    refine ⟨after x.vfs mountRoot .root h s fs₁,
      ⟨hr.initialised, linked_after hr.linked ho hopens, fun h' => ?_,
      ⟨hr.mounted.root, hr.mounted.var, hr.mounted.rest⟩, hr.directories.congr hafter⟩, hafter,
      rfl, ?_⟩
    · exact (after_handles ho.free).trans (hr.idle h')
    · rintro bytes ⟨⟩
      refine ⟨_, by rw [valueAt, hnode, Option.map_some], ?_⟩
      rw [readBytes_start hoffset, hentry, hnodes]

/-- A key that holds a value can be read. -/
lemma Registry.fetch_ok (hr : Registry x) (hkey : safeName key = true)
    (hvalue : valueAt (x.vfs.contexts .root) ns key = some value) (capacity : ℕ) :
    (ns.get x (some key) true true capacity).1 = .ok (value.take capacity) := by
  obtain ⟨n, hnode, rfl⟩ := Option.map_eq_some_iff.mp hvalue
  have hchild := (hr.directories.resolveNode hkey).mp hnode
  have hidle := hr.idle ⟨0, by decide⟩
  obtain ⟨s, hs, hopen⟩ := openNode_ok vfsOpenRead (hr.directories.file ns key n hchild)
    (hr.directories.permissions ns key n hchild) (hr.linked.free_slot hidle .root)
  have hop : (x.vfs.contexts .root).opOpen (keyPath ns key) vfsOpenRead =
      (.ok s, (x.vfs.contexts .root).opened n vfsOpenRead s) := by
    rw [opOpen, hnode]
    exact hopen
  obtain ⟨h, ho, heq⟩ := vfsOpen_ok (by decide) hr.mounted.resolveMount_key ⟨_, hidle⟩
    (by rw [hr.mounted.root]) hop
  have hentry := ho.outcome.entry
  rw [ns.get_eq, fetchUnder, if_neg (by simp [hr.initialised]), makePath_eq, if_pos hkey]
  dsimp only
  rw [readValue_of_open ho heq]
  simp only [Prod.map_fst, id_eq]
  rw [readBytes_start (by rw [hentry]), opened, if_neg (by decide), setOpen_same, setOpen_nodes]

/-! ### Runs -/

/-- A call of one of the two services. -/
inductive Call where
  | set (ns : Namespace) (key value : Option CString)
  | get (ns : Namespace) (key : Option CString) (buffer readOut : Bool) (capacity : ℕ)

/-- What was last stored under each key. -/
abbrev Memory := Namespace → List UInt8 → Option (List UInt8)

/-- One call; a set that succeeds returns no bytes. -/
def step (x : Services) : Call → Except VfsStatus (List UInt8) × Services
  | .set ns key value =>
    (ns.set x (key.map (·.val)) (value.map (·.val))).map (·.map fun _ => []) id
  | .get ns key buffer readOut capacity =>
    ns.get x (key.map (·.val)) buffer readOut capacity

/-- What was last stored, after a call with its answer. -/
def remember (memory : Memory) (call : Call) (answer : Except VfsStatus (List UInt8)) : Memory :=
  match call, answer with
  | .set ns (some key) (some value), .ok _ => fun ns' key' =>
    if ns' = ns ∧ key' = key.val then some value.val else memory ns' key'
  | _, _ => memory

/-- A call, with what was last stored under each key. -/
def logged (y : Services × Memory) (call : Call) :
    Except VfsStatus (List UInt8) × Services × Memory :=
  let r := step y.1 call
  (r.1, r.2, remember y.2 call r.1)

/-- The condition on a call: a value under a proper key, that has a file or gets one, fits into
it. -/
def Fits (y : Services × Memory) : Call → Prop
  | .set ns (some key) (some value) => safeName key.val = true →
      (valueAt (y.1.vfs.contexts .root) ns key.val ≠ none ∨
        ∃ n, ((y.1.vfs.contexts .root).nodes n).used = false) →
      value.val.length ≤ tmpfsFileCapacity
  | _ => True

instance (y : Services × Memory) (call : Call) : Decidable (Fits y call) := by
  unfold Fits
  split <;> infer_instance

/-- A key that is null or not proper is refused right away. -/
lemma refused_of_improper {k : Option (List UInt8)} (hk : ∀ key ∈ k, safeName key = false) :
    makePath (ns.path ++ [47]) k = none := by
  cases k with
  | none => rfl
  | some key => rw [makePath_eq, if_neg (by simp [hk key rfl])]

lemma set_improper {k v : Option (List UInt8)} (hk : ∀ key ∈ k, safeName key = false) :
    ns.set x k v = (.error .badArgument, x) := by
  rw [ns.set_eq, storeUnder, refused_of_improper hk]
  split <;> rfl

lemma get_improper {k : Option (List UInt8)} (hk : ∀ key ∈ k, safeName key = false)
    (buffer readOut : Bool) (capacity : ℕ) :
    ns.get x k buffer readOut capacity = (.error .badArgument, x) := by
  rw [ns.get_eq, fetchUnder, refused_of_improper hk]
  split <;> rfl

/-- A null value is refused right away. -/
lemma set_null {k : Option (List UInt8)} : ∃ status, ns.set x k none = (.error status, x) := by
  rw [ns.set_eq, storeUnder]
  split
  · exact ⟨_, rfl⟩
  · split
    · exact ⟨_, rfl⟩
    · exact ⟨_, rfl⟩

/-- A set or publish with any arguments: it is refused, or as in `Registry.store`. -/
lemma Registry.set_cases (hr : Registry x) (ns : Namespace) (k v : Option (List UInt8)) :
    (∃ status, ns.set x k v = (.error status, x)) ∨
      ∃ (key value : List UInt8) (hkey : safeName key = true) (t : Vfs FsName) (n : NodeIndex),
        k = some key ∧ v = some value ∧ Registry { x with vfs := t } ∧
        Stored (x.vfs.contexts .root) (keyString ns key hkey)
          (if tmpfsFileCapacity < value.length then [] else value) n (t.contexts .root) ∧
        ns.set x k v = (if tmpfsFileCapacity < value.length then .error .noSpace else .ok (),
          { x with vfs := t }) := by
  cases k with
  | none => exact .inl ⟨_, set_improper fun key hk => by cases hk⟩
  | some key =>
    cases hkey : safeName key with
    | false => exact .inl ⟨_, set_improper fun key' hk => Option.some.inj hk ▸ hkey⟩
    | true =>
      cases v with
      | none => exact .inl set_null
      | some value =>
        exact (hr.store hkey value).imp_right fun ⟨t, n, hr', hs, heq⟩ =>
          ⟨key, value, hkey, t, n, rfl, rfl, hr', hs, heq⟩

/-- A get or read with any arguments changes no node. -/
lemma Registry.get_registry (hr : Registry x) (ns : Namespace) (k : Option (List UInt8))
    (buffer readOut : Bool) (capacity : ℕ) :
    Registry (ns.get x k buffer readOut capacity).2 ∧
      ((ns.get x k buffer readOut capacity).2.vfs.contexts .root).nodes =
        (x.vfs.contexts .root).nodes := by
  cases k with
  | none =>
    rw [get_improper fun key hk => by cases hk]
    exact ⟨hr, rfl⟩
  | some key =>
    cases hkey : safeName key with
    | false =>
      rw [get_improper fun key' hk => Option.some.inj hk ▸ hkey]
      exact ⟨hr, rfl⟩
    | true =>
      obtain ⟨t, hr', hnodes, heq, -⟩ := hr.fetch ns hkey buffer readOut capacity
      rw [heq]
      exact ⟨hr', hnodes⟩

/-- Only the nodes matter for values. -/
lemma valueAt_congr (hd : Directories fs) (hnodes : fs'.nodes = fs.nodes)
    (hkey : safeName key = true) : valueAt fs' ns key = valueAt fs ns key := by
  rw [valueAt, valueAt, hnodes,
    (SameShape.of_nodes hnodes).resolveNode hd.tree (zero_notMem_keyPath hkey)]

/-- The services hold what was last stored. -/
structure Holds (y : Services × Memory) : Prop where
  registry : Registry y.1
  value : ∀ ns key, safeName key = true →
    valueAt (y.1.vfs.contexts .root) ns key = y.2 ns key

/-- Every call whose value fits keeps what was last stored. -/
lemma Holds.step {y : Services × Memory} (h : Holds y) (call : Call) (hfits : Fits y call) :
    Holds (logged y call).2 := by
  cases call with
  | set ns k v =>
    rcases h.registry.set_cases ns (k.map (·.val)) (v.map (·.val)) with
      ⟨status, heq⟩ | ⟨key, value, hkey, t, n, hk, hv, hr, hs, heq⟩
    · have hstep : Services.step y.1 (.set ns k v) = (.error status, y.1) := by
        rw [Services.step, heq]
        rfl
      have hmem : remember y.2 (.set ns k v) (.error status) = y.2 := by
        cases k <;> cases v <;> rfl
      rw [logged, hstep]
      dsimp only
      rw [hmem]
      exact h
    · obtain ⟨k, rfl, rfl⟩ := Option.map_eq_some_iff.mp hk
      obtain ⟨v, rfl, rfl⟩ := Option.map_eq_some_iff.mp hv
      have hle : ¬ tmpfsFileCapacity < v.val.length := not_lt.mpr (hfits hkey (hs.valueAt_or hkey))
      rw [if_neg hle] at hs
      have hstep : Services.step y.1 (.set ns (some k) (some v)) =
          (.ok [], { y.1 with vfs := t }) := by
        rw [Services.step, heq, if_neg hle]
        rfl
      rw [logged, hstep]
      refine ⟨hr, fun ns' key' hkey' => ?_⟩
      rw [hs.valueAt_eq hkey hkey', h.value ns' key' hkey']
      rfl
  | get ns k buffer readOut capacity =>
    obtain ⟨hr, hnodes⟩ :=
      h.registry.get_registry ns (k.map (·.val)) buffer readOut capacity
    refine ⟨hr, fun ns' key' hkey' => ?_⟩
    exact (valueAt_congr h.registry.directories hnodes hkey').trans (h.value ns' key' hkey')

/-! ### The start -/

/-- The root file system after `storage_services_init`. -/
def initialRoot : Tmpfs :=
  let both := vfsPermRead ||| vfsPermWrite
  (((tmpfsInit.opMkdir varPath both).2.opMkdir settingsPath both).2.opMkdir devicesPath both).2

lemma tree_opMkdir (ht : Tree fs) (path : CString) (permissions : UInt32) :
    Tree (fs.opMkdir path permissions).2 := ht.step (.mkdir path permissions)

/-- Nothing is in the directories at the start. -/
lemma not_isChild_initialRoot : ¬ IsChild initialRoot ns.node key n := by
  intro hn
  have hleaf : ∀ n : NodeIndex, (initialRoot.nodes n).used = true → n ≠ rootNode →
      (initialRoot.nodes n).parent = rootNode := by decide +kernel
  have := hn.parent_eq.symm.trans (hleaf n hn.used hn.ne_root)
  cases ns <;> exact absurd this (by decide)

lemma directories_initialRoot : Directories initialRoot := by
  refine ⟨?_, fun ns => ?_, fun ns => ?_, fun ns key n hn => absurd hn not_isChild_initialRoot,
    fun ns key n hn => absurd hn not_isChild_initialRoot⟩
  · exact tree_opMkdir (tree_opMkdir (tree_opMkdir tree_tmpfsInit ⟨varPath, by decide⟩ _)
      ⟨settingsPath, by decide⟩ _) ⟨devicesPath, by decide⟩ _
  · cases ns with
    | settings => exact ⟨by decide, by decide +kernel, by decide +kernel, by decide +kernel⟩
    | devices => exact ⟨by decide, by decide +kernel, by decide +kernel, by decide +kernel⟩
  · cases ns with
    | settings | devices => decide +kernel

/-- Making directories opens nothing. -/
lemma opMkdir_opens (path : List UInt8) (permissions : UInt32) :
    (fs.opMkdir path permissions).2.opens = fs.opens := by
  rcases opMkdir_cases fs path permissions with ⟨status, heq⟩ | ⟨parent, name, index, -, heq⟩
  · rw [heq]
  · rw [heq, setNode_opens]

/-- A directory made in the root file system while nothing is mounted below it. -/
lemma Mounted.vfsMkdir (hm : Mounted t) (hvar : (t.mounts mountVar).used = false)
    {path : List UInt8} (hslash : path.getD 0 0 = slash) (permissions : UInt32) :
    t.vfsMkdir (some path) permissions =
      (((t.contexts .root).opMkdir path permissions).1,
        t.setContext .root ((t.contexts .root).opMkdir path permissions).2) := by
  have hres := hm.resolveMount hslash fun hu => by simp [hvar] at hu
  rw [Vfs.vfsMkdir, Option.bind_some, hres]
  dsimp only
  rw [onMount_eq (by rw [hm.root])]

lemma Mounted.setContext (hm : Mounted t) : Mounted (t.setContext .root fs) :=
  ⟨hm.root, hm.var, hm.rest⟩

/-- A mount goes into the first free place. -/
lemma vfsMount_eq {path : List UInt8} (hpath : copyPath path = some path) {i : Fin vfsMaxMounts}
    (hfree : (t.mounts i).used = false) (hbefore : ∀ j < i, (t.mounts j).used = true)
    (c : FsName) :
    t.vfsMount (some path) (some c) (some tmpfsOps) =
      (.ok (), { t with mounts := Function.update t.mounts i ⟨true, path, some c⟩ }) := by
  have hfirst : (firstSlot fun i => (t.mounts i).used = false) = some i :=
    firstSlot_eq_first (by simpa using hfree) fun j hj => by simp [hbefore j hj]
  rw [vfsMount, if_neg (by simp), hfirst]
  simp only [hpath]

/-- The state before the directories are made: the root file system is mounted. -/
def rootMounted (t : Vfs FsName) : Vfs FsName :=
  { start t with mounts := Function.update (start t).mounts mountRoot ⟨true, rootPath, some .root⟩ }

lemma mounted_rootMounted (t : Vfs FsName) : Mounted (rootMounted t) := by
  have hother (i : Fin vfsMaxMounts) (hi : i ≠ mountRoot) :
      ((rootMounted t).mounts i).used = false := by
    simp [rootMounted, hi, start, vfsInit]
  refine ⟨by simp [rootMounted], fun hu => ?_, fun i hi => hother i ?_⟩
  · rw [hother mountVar (by decide)] at hu
    cases hu
  · rintro rfl
    exact absurd hi (by decide)

/-- The state after `storage_services_init`. -/
def initialVfs (t : Vfs FsName) : Vfs FsName :=
  let t := (rootMounted t).setContext .root initialRoot
  { t with mounts := Function.update t.mounts mountVar ⟨true, varPath, some .var⟩ }

/-- Setting up succeeds. -/
lemma setUp_eq (t : Vfs FsName) : setUp t = (.ok (), initialVfs t) := by
  have hm := mounted_rootMounted t
  have hvar : ((rootMounted t).mounts mountVar).used = false := by
    simp [rootMounted, mountVar, mountRoot, firstMount, start, vfsInit]
  have hroot : Vfs.vfsMount { vfsInit t with contexts := fun _ => tmpfsInit } (some rootPath)
      (some .root) (some tmpfsOps) = (.ok (), rootMounted t) :=
    vfsMount_eq (by decide) (i := mountRoot) rfl (fun j hj => absurd hj (Nat.not_lt_zero _)) .root
  have hstage (fs : Tmpfs) (path : List UInt8) (hslash : path.getD 0 0 = slash)
      (hok : (fs.opMkdir path (vfsPermRead ||| vfsPermWrite)).1 = .ok ()) :
      ((rootMounted t).setContext .root fs).vfsMkdir (some path) (vfsPermRead ||| vfsPermWrite) =
        (.ok (), (rootMounted t).setContext .root
          (fs.opMkdir path (vfsPermRead ||| vfsPermWrite)).2) := by
    rw [hm.setContext.vfsMkdir hvar hslash, setContext_same, hok]
    simp [Vfs.setContext]
  have hstart : rootMounted t = (rootMounted t).setContext .root tmpfsInit := by
    exact setContext_self.symm
  have hlast : (Vfs.setContext (rootMounted t) .root initialRoot).vfsMount (some varPath)
      (some .var) (some tmpfsOps) = (.ok (), initialVfs t) := by
    have hpath : copyPath varPath = some varPath := by decide
    have hfree : (((rootMounted t).setContext .root initialRoot).mounts mountVar).used = false :=
      hvar
    refine vfsMount_eq hpath hfree (fun j hj => ?_) .var
    obtain rfl : j = mountRoot := Fin.ext (Nat.lt_one_iff.mp hj)
    rw [hm.setContext.root]
  rw [setUp, hroot, andThen, hstart, hstage tmpfsInit varPath rfl (by decide +kernel), andThen,
    hstage _ settingsPath rfl (by decide +kernel), andThen,
    hstage _ devicesPath rfl (by decide +kernel), andThen]
  exact hlast

/-- `storage_services_init` succeeds. -/
lemma storageServicesInit_eq (x : Services) :
    storageServicesInit x = (.ok (), ⟨initialVfs x.vfs, 0, true⟩) := by
  delta storageServicesInit
  rw [setUp_eq]

lemma initialVfs_contexts (t : Vfs FsName) : (initialVfs t).contexts .root = initialRoot := by
  simp [initialVfs, Vfs.setContext]

lemma linked_initialVfs (t : Vfs FsName) : Linked (initialVfs t) := by
  have hm := mounted_rootMounted t
  have hroot : Linked (rootMounted t) := (linked_start t).setMount rfl
  have hopens : initialRoot.opens = tmpfsInit.opens := by
    rw [initialRoot, opMkdir_opens, opMkdir_opens, opMkdir_opens]
  have hcontext : Linked ((rootMounted t).setContext .root initialRoot) := by
    refine hroot.setContext fun s => ?_
    rw [hopens]
    rfl
  refine hcontext.setMount ?_
  simp [rootMounted, mountVar, mountRoot, firstMount, start, vfsInit, Vfs.setContext]

lemma mounted_initialVfs (t : Vfs FsName) : Mounted (initialVfs t) := by
  have hm := mounted_rootMounted t
  have hother (i : Fin vfsMaxMounts) (hi : i ≠ mountVar) :
      (initialVfs t).mounts i = (rootMounted t).mounts i := by
    simp [initialVfs, hi, Vfs.setContext]
  refine ⟨(hother mountRoot (by decide)).trans hm.root, fun _ => by simp [initialVfs],
    fun i hi => (congrArg Mount.used (hother i ?_)).trans (hm.rest i hi)⟩
  rintro rfl
  exact absurd hi (by decide)

/-- After `storage_services_init` nothing is stored. -/
lemma holds_initial {x₀ x₁ : Services} (hinit : storageServicesInit x₀ = (.ok (), x₁)) :
    Holds (x₁, fun _ _ => none) := by
  rw [storageServicesInit_eq] at hinit
  obtain rfl : x₁ = ⟨initialVfs x₀.vfs, 0, true⟩ := (Prod.mk.inj hinit).2.symm
  have hd : Directories ((initialVfs x₀.vfs).contexts .root) := by
    rw [initialVfs_contexts]
    exact directories_initialRoot
  have hidle (h : Fin vfsMaxHandles) : ((initialVfs x₀.vfs).handles h).used = false := by
    simp [initialVfs, rootMounted, start, vfsInit, Vfs.setContext]
  refine ⟨⟨rfl, linked_initialVfs x₀.vfs, hidle, mounted_initialVfs x₀.vfs, hd⟩,
    fun ns key hkey => ?_⟩
  rw [valueAt, Option.map_eq_none_iff, Option.eq_none_iff_forall_ne_some]
  intro n hn
  have := (hd.resolveNode hkey).mp hn
  rw [initialVfs_contexts] at this
  exact not_isChild_initialRoot this

/-- Along every run whose values fit, the services hold what was last stored. -/
theorem holds_run {x₀ x₁ : Services} (hinit : storageServicesInit x₀ = (.ok (), x₁))
    {calls : List Call} (hfits : Runs.Legal logged Fits (x₁, fun _ _ => none) calls) :
    Holds (Runs.final logged (x₁, fun _ _ => none) calls) :=
  Runs.legal_induction logged (fun _ call h hfit => h.step call hfit) (holds_initial hinit) hfits

/-- **The settings and the device registry are maps**, in runs whose values fit into a
file.  A get or read that succeeds with enough room returns the value of the last set or
publish of its key that succeeded, and one of a key with a value does succeed.  A set or
publish that fails, with a value that fits, leaves every value as it is.  One key never
affects another.  A key that is not proper is refused, and nothing changes. -/
theorem registry_maps (x₀ x₁ : Services) (hinit : storageServicesInit x₀ = (.ok (), x₁))
    (calls : List Call) (hfits : Runs.Legal logged Fits (x₁, fun _ _ => none) calls) :
    let y := Runs.final logged (x₁, fun _ _ => none) calls
    (∀ (ns : Namespace) (key : CString) buffer readOut capacity bytes,
      (ns.get y.1 (some key.val) buffer readOut capacity).1 = .ok bytes →
      ∃ value, y.2 ns key = some value ∧ (value.length ≤ capacity → bytes = value)) ∧
    (∀ (ns : Namespace) (key : CString) value capacity, safeName key = true →
      y.2 ns key = some value →
      (ns.get y.1 (some key.val) true true capacity).1 = .ok (value.take capacity)) ∧
    (∀ (ns : Namespace) (key value : Option CString) status, Fits y (.set ns key value) →
      (ns.set y.1 (key.map (·.val)) (value.map (·.val))).1 = .error status →
      ∀ ns' key', safeName key' = true →
        valueAt ((ns.set y.1 (key.map (·.val)) (value.map (·.val))).2.vfs.contexts .root) ns' key' =
          valueAt (y.1.vfs.contexts .root) ns' key') ∧
    (∀ (ns : Namespace) (key value : Option CString) ns' key', safeName key' = true →
      (∀ k ∈ key, ¬ (ns' = ns ∧ key' = k.val)) →
        valueAt ((ns.set y.1 (key.map (·.val)) (value.map (·.val))).2.vfs.contexts .root) ns' key' =
          valueAt (y.1.vfs.contexts .root) ns' key') ∧
    (∀ (ns : Namespace) (key : CString) value buffer readOut capacity, safeName key = false →
      ns.set y.1 (some key.val) value = (.error .badArgument, y.1) ∧
      ns.get y.1 (some key.val) buffer readOut capacity = (.error .badArgument, y.1)) := by
  have h := holds_run hinit hfits
  intro y
  refine ⟨fun ns key buffer readOut capacity bytes hok => ?_,
    fun ns key value capacity hkey hvalue => ?_,
    fun ns key value status hfit hfail ns' key' hkey' => ?_,
    fun ns key value ns' key' hkey' hne => ?_, fun ns key value buffer readOut capacity hkey => ?_⟩
  · cases hkey : safeName key.val with
    | false =>
      rw [get_improper fun k hk => Option.some.inj hk ▸ hkey] at hok
      cases hok
    | true =>
      obtain ⟨t, -, -, -, hbytes⟩ := h.registry.fetch ns hkey buffer readOut capacity
      obtain ⟨value, hvalue, rfl⟩ := hbytes bytes hok
      exact ⟨value, (h.value ns key.val hkey).symm.trans hvalue, List.take_of_length_le⟩
  · exact h.registry.fetch_ok hkey ((h.value ns key.val hkey).trans hvalue) capacity
  · rcases h.registry.set_cases ns (key.map (·.val)) (value.map (·.val)) with
      ⟨status', heq⟩ | ⟨k, v, hk, t, n, hkey, hvalue, hr, hs, heq⟩
    · rw [heq]
    · obtain ⟨k, rfl, rfl⟩ := Option.map_eq_some_iff.mp hkey
      obtain ⟨v, rfl, rfl⟩ := Option.map_eq_some_iff.mp hvalue
      rw [heq, if_neg (not_lt.mpr (hfit hk (hs.valueAt_or hk)))] at hfail
      cases hfail
  · rcases h.registry.set_cases ns (key.map (·.val)) (value.map (·.val)) with
      ⟨status', heq⟩ | ⟨k, v, hk, t, n, hkey, hvalue, hr, hs, heq⟩
    · rw [heq]
    · obtain ⟨k, rfl, rfl⟩ := Option.map_eq_some_iff.mp hkey
      rw [heq]
      exact (hs.valueAt_eq hk hkey').trans (if_neg (hne k rfl))
  · have himproper : ∀ k ∈ some key.val, safeName k = false := fun k hk => Option.some.inj hk ▸ hkey
    exact ⟨set_improper himproper, get_improper himproper buffer readOut capacity⟩

/-- A state to start from. -/
def blankServices : Services where
  vfs :=
    { mounts := fun _ => ⟨false, [], none⟩
      handles := fun _ => ⟨false, firstMount, 0⟩
      contexts := fun _ => tmpfsInit }
  logOffset := 0
  initialised := false

/-- A setting that is stored and read back. -/
theorem registry_maps_setting :
    let x₁ : Services := ⟨initialVfs blankServices.vfs, 0, true⟩
    let key : CString := ⟨[107], by decide⟩
    let y := Runs.final logged (x₁, fun _ _ => none) [.set .settings (some key) (some key)]
    (Namespace.get .settings y.1 (some key.val) true true 16).1 = .ok [107] ∧
      ∃ value, y.2 .settings key = some value ∧ (value.length ≤ 16 → [107] = value) := by
  intro x₁ key y
  have hget : (Namespace.get .settings y.1 (some key.val) true true 16).1 = .ok [107] := by
    decide +kernel
  exact ⟨hget, (registry_maps blankServices x₁ (storageServicesInit_eq blankServices)
    [.set .settings (some key) (some key)] (by decide +kernel)).1 .settings key true true 16 [107]
    hget⟩

/-- A set of a value that is too long fails, and the value that was there is lost. -/
theorem failed_set_loses_value :
    let x₁ := (storageServicesInit blankServices).2
    let x₂ := (settingsServiceSet x₁ (some [107]) (some [118])).2
    let r := settingsServiceSet x₂ (some [107]) (some (List.replicate 2049 65))
    (settingsServiceGet x₂ (some [107]) true true 16).1 = .ok [118] ∧ r.1 = .error .noSpace ∧
      (settingsServiceGet r.2 (some [107]) true true 16).1 = .ok [] := by
  intro x₁ x₂ r
  decide +kernel

end Services

end JoshOS
