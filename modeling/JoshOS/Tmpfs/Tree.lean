import JoshOS.Lib.Runs
import JoshOS.Tmpfs.Ops
import JoshOS.Tmpfs.Paths

/-!
The in-memory file system is a tree, and paths name its nodes.

* `SameShape`: operations on file contents leave the tree alone.
* `Tree.resolveNode_create`: the new node is what the path resolves to afterwards, and no
  other path resolves differently, unless the path starts with two slashes.
* `tmpfs_is_tree`: in every state that operations reach, the nodes in use form a tree,
  resolution is a bijection with them, and creations extend it by the path they are for.
-/

namespace JoshOS

open Slots

namespace Tmpfs

variable {fs fs' : Tmpfs} {path q name : List UInt8} {cs : List (List UInt8)}
  {i index parent n m : NodeIndex} {type : VfsNodeType} {permissions flags : UInt32}
  {slot : Fin tmpfsMaxOpen}

/-! ### Operations that leave the tree alone -/

/-- The two file systems have the same nodes, as far as paths are concerned. -/
structure SameShape (fs fs' : Tmpfs) : Prop where
  used : ∀ i, (fs'.nodes i).used = (fs.nodes i).used
  parent : ∀ i, (fs'.nodes i).parent = (fs.nodes i).parent
  type : ∀ i, (fs'.nodes i).type = (fs.nodes i).type
  name : ∀ i, (fs'.nodes i).name = (fs.nodes i).name

lemma SameShape.refl (fs : Tmpfs) : SameShape fs fs :=
  ⟨fun _ => rfl, fun _ => rfl, fun _ => rfl, fun _ => rfl⟩

lemma SameShape.of_nodes (h : fs'.nodes = fs.nodes) : SameShape fs fs' :=
  ⟨fun i => by rw [h], fun i => by rw [h], fun i => by rw [h], fun i => by rw [h]⟩

lemma SameShape.trans {fs₁ fs₂ fs₃ : Tmpfs} (h : SameShape fs₁ fs₂) (h' : SameShape fs₂ fs₃) :
    SameShape fs₁ fs₃ :=
  ⟨fun i => (h'.used i).trans (h.used i), fun i => (h'.parent i).trans (h.parent i),
    fun i => (h'.type i).trans (h.type i), fun i => (h'.name i).trans (h.name i)⟩

lemma SameShape.setNode {node : TmpfsNode} (hused : node.used = (fs.nodes index).used)
    (hparent : node.parent = (fs.nodes index).parent) (htype : node.type = (fs.nodes index).type)
    (hname : node.name = (fs.nodes index).name) : SameShape fs (fs.setNode index node) := by
  constructor <;> intro i <;> by_cases hi : i = index
  all_goals first
    | rw [hi, setNode_same]; assumption
    | rw [setNode_of_ne hi]

lemma SameShape.isChild (h : SameShape fs fs') :
    IsChild fs' parent name i ↔ IsChild fs parent name i := by
  constructor
  · rintro ⟨hroot, hu, hp, hn⟩
    exact ⟨hroot, h.used i ▸ hu, h.parent i ▸ hp, h.name i ▸ hn⟩
  · rintro ⟨hroot, hu, hp, hn⟩
    exact ⟨hroot, (h.used i).trans hu, (h.parent i).trans hp, (h.name i).trans hn⟩

lemma SameShape.tree (h : SameShape fs fs') (ht : Tree fs) : Tree fs' := by
  constructor <;> simp only [h.used, h.parent, h.type, h.name]
  exacts [ht.root_used, ht.root_type, ht.filled, ht.parent_lt, ht.parent_used, ht.parent_type,
    ht.name, ht.sibling]

lemma Walk.mono (h : ∀ p c i, IsChild fs p c i → IsChild fs' p c i)
    (hw : Walk fs parent cs n) : Walk fs' parent cs n := by
  induction hw with
  | nil => exact .nil
  | snoc _ hi ih => exact ih.snoc (h _ _ _ hi)

lemma SameShape.resolveNode (h : SameShape fs fs') (ht : Tree fs) (hpath : (0 : UInt8) ∉ path) :
    fs'.resolveNode path = fs.resolveNode path := by
  ext n
  rw [resolveNode_eq_some (h.tree ht) hpath, resolveNode_eq_some ht hpath]
  constructor
  · rintro ⟨cs, hcs, hw⟩
    exact ⟨cs, hcs, hw.mono fun _ _ _ => h.isChild.mp⟩
  · rintro ⟨cs, hcs, hw⟩
    exact ⟨cs, hcs, hw.mono fun _ _ _ => h.isChild.mpr⟩

lemma SameShape.setOpen (h : SameShape fs fs') (entry : TmpfsOpen) :
    SameShape fs (fs'.setOpen slot entry) := ⟨h.used, h.parent, h.type, h.name⟩

lemma sameShape_opened : SameShape fs (fs.opened index flags slot) := by
  rw [opened]
  split_ifs
  · have h : SameShape fs (fs.setNode index { fs.nodes index with size := 0 }) :=
      SameShape.setNode rfl rfl rfl rfl
    exact h.setOpen _
  · exact (SameShape.refl fs).setOpen _

lemma sameShape_written {bytes : List UInt8} : SameShape fs (fs.written slot bytes) := by
  have h : SameShape (fs.setOpen slot { fs.opens slot with
      offset := (fs.opens slot).offset + bytes.length }) (fs.written slot bytes) :=
    SameShape.setNode rfl rfl rfl rfl
  exact ⟨h.used, h.parent, h.type, h.name⟩

/-! ### A new node -/

/-- What a creation found out. -/
structure Fresh (fs : Tmpfs) (path : List UInt8) (parent : NodeIndex) (name : List UInt8)
    (index : NodeIndex) : Prop extends ParentOf fs path parent name where
  absent : ∀ i, ¬ IsChild fs parent name i
  ne_root : index ≠ rootNode
  unused : (fs.nodes index).used = false
  first : ∀ j < index, (fs.nodes j).used = true

lemma Creation.fresh (hc : Creation fs path parent name index) (h : Tree fs)
    (hpath : (0 : UInt8) ∉ path) : Fresh fs path parent name index := by
  have hp := resolveParent_eq_some h hpath hc.resolved
  have hslot := firstSlot_some hc.allocated
  rw [decide_eq_true_eq] at hslot
  refine ⟨hp, ?_, one_le_iff.mp hslot.1, hslot.2, fun j hj => ?_⟩
  · have := (childNamed_eq_none h hp.component.no_zero le_rfl).mp hc.absent
    rwa [List.take_length] at this
  · by_cases hroot : j = rootNode
    · exact hroot ▸ h.root_used
    · have := firstSlot_min hc.allocated hj
      rw [decide_eq_false_iff_not, not_and] at this
      simpa using this (one_le_iff.mpr hroot)

section Create

variable (hf : Fresh fs path parent name index) (h : Tree fs)

include hf in
lemma Fresh.parent_ne : parent ≠ index := by
  rintro rfl
  exact absurd hf.used (by simp [hf.unused])

include hf h in
lemma Fresh.parent_lt : parent < index := by
  by_contra hle
  rcases (not_lt.mp hle).lt_or_eq with hlt | heq
  · exact absurd (h.filled _ _ hlt hf.used) (by simp [hf.unused])
  · exact hf.parent_ne heq.symm

include hf in
/-- The children after a creation: those before, and the new one. -/
lemma Fresh.isChild {p : NodeIndex} {c : List UInt8} :
    IsChild (fs.setNode index (newNode parent name type permissions)) p c i ↔
      IsChild fs p c i ∨ i = index ∧ p = parent ∧ c = name := by
  by_cases hi : i = index
  · subst hi
    constructor
    · rintro ⟨-, -, hp, hn⟩
      rw [setNode_same] at hp hn
      exact .inr ⟨rfl, hp.symm, hn.symm⟩
    · rintro (hold | ⟨-, rfl, rfl⟩)
      · exact absurd hold.used (by simp [hf.unused])
      · exact ⟨hf.ne_root, by rw [setNode_same]; rfl, by rw [setNode_same]; rfl,
          by rw [setNode_same]; rfl⟩
  · constructor
    · rintro ⟨hroot, hu, hp, hn⟩
      rw [setNode_of_ne hi] at hu hp hn
      exact .inl ⟨hroot, hu, hp, hn⟩
    · rintro (⟨hroot, hu, hp, hn⟩ | ⟨hi', -⟩)
      · exact ⟨hroot, by rwa [setNode_of_ne hi], by rwa [setNode_of_ne hi],
          by rwa [setNode_of_ne hi]⟩
      · exact absurd hi' hi

/-- A node in use after a creation is the new one, or was in use before. -/
lemma used_setNode_cases
    (hi : ((fs.setNode index (newNode parent name type permissions)).nodes i).used = true) :
    i = index ∨ (fs.nodes i).used = true ∧
      (fs.setNode index (newNode parent name type permissions)).nodes i = fs.nodes i := by
  by_cases heq : i = index
  · exact .inl heq
  · rw [setNode_of_ne heq] at hi ⊢
    exact .inr ⟨hi, rfl⟩

include hf h in
/-- The tree with a new node is a tree. -/
lemma Fresh.tree : Tree (fs.setNode index (newNode parent name type permissions)) := by
  set fs' := fs.setNode index (newNode parent name type permissions) with hfs'
  have hnew : fs'.nodes index = newNode parent name type permissions := setNode_same _
  have hused (j : NodeIndex) (hj : (fs.nodes j).used = true) : fs'.nodes j = fs.nodes j := by
    refine setNode_of_ne ?_
    rintro rfl
    exact absurd hj (by simp [hf.unused])
  have hroot := hused rootNode h.root_used
  refine ⟨hroot ▸ h.root_used, hroot ▸ h.root_type, fun i j hji hi => ?_, fun i hi hu => ?_,
    fun i hi hu => ?_, fun i hi hu => ?_, fun i hi hu => ?_, fun i j hi hj hui huj hp hn => ?_⟩
  · have hj : (fs.nodes j).used = true := by
      rcases used_setNode_cases hi with rfl | ⟨hi, -⟩
      · exact hf.first j hji
      · exact h.filled i j hji hi
    rwa [hused j hj]
  · rcases used_setNode_cases hu with rfl | ⟨hu, heq⟩
    · rw [hnew]
      exact hf.parent_lt h
    · rw [heq]
      exact h.parent_lt i hi hu
  · rcases used_setNode_cases hu with rfl | ⟨hu, heq⟩
    · rw [hnew]
      exact hused _ hf.used ▸ hf.used
    · rw [heq, hused _ (h.parent_used i hi hu)]
      exact h.parent_used i hi hu
  · rcases used_setNode_cases hu with rfl | ⟨hu, heq⟩
    · rw [hnew]
      exact hused _ hf.used ▸ hf.directory
    · rw [heq, hused _ (h.parent_used i hi hu)]
      exact h.parent_type i hi hu
  · rcases used_setNode_cases hu with rfl | ⟨hu, heq⟩
    · rw [hnew]
      exact hf.component
    · rw [heq]
      exact h.name i hi hu
  · rcases used_setNode_cases hui with rfl | ⟨hui', hi'⟩
    · rcases used_setNode_cases huj with rfl | ⟨huj', hj'⟩
      · rfl
      · rw [hnew, hj'] at hp hn
        exact absurd ⟨hj, huj', hp.symm, hn.symm⟩ (hf.absent j)
    · rcases used_setNode_cases huj with rfl | ⟨huj', hj'⟩
      · rw [hnew, hi'] at hp hn
        exact absurd ⟨hi, hui', hp, hn⟩ (hf.absent i)
      · rw [hi', hj'] at hp hn
        exact h.sibling i j hi hj hui' huj' hp hn

include hf h in
/-- The walks after a creation: those before, and one to the new node. -/
lemma Fresh.walk : Walk (fs.setNode index (newNode parent name type permissions)) rootNode cs n ↔
    Walk fs rootNode cs n ∨ n = index ∧ ∃ ds, cs = ds ++ [name] ∧ Walk fs rootNode ds parent := by
  constructor
  · intro hw
    induction hw with
    | nil => exact .inl .nil
    | @snoc ds d p n _ hi ih =>
      have hp : p ≠ index → Walk fs rootNode ds p := fun hne =>
        ih.resolve_right fun hr => hne hr.1
      rcases hf.isChild.mp hi with hold | ⟨rfl, rfl, rfl⟩
      · have hne : p ≠ index := by
          rintro rfl
          have := h.parent_used n hold.ne_root hold.used
          rw [hold.parent_eq, hf.unused] at this
          cases this
        exact .inl ((hp hne).snoc hold)
      · exact .inr ⟨rfl, ds, rfl, hp hf.parent_ne⟩
  · have hold (p : NodeIndex) (c : List UInt8) (i : NodeIndex) (hi : IsChild fs p c i) :
        IsChild (fs.setNode index (newNode parent name type permissions)) p c i :=
      hf.isChild.mpr (.inl hi)
    rintro (hw | ⟨rfl, ds, rfl, hw⟩)
    · exact hw.mono hold
    · exact (hw.mono hold).snoc (hf.isChild.mpr (.inr ⟨rfl, rfl, rfl⟩))

include hf h in
/-- Only the new node is found by a path that was not found before. -/
lemma Fresh.eq_of_new {q : CString} (hnone : fs.resolveNode q = none)
    (hn : (fs.setNode index (newNode parent name type permissions)).resolveNode q = some n) :
    n = index := by
  obtain ⟨cs, hcs, hw⟩ := (resolveNode_eq_some (hf.tree h) q.2).mp hn
  rcases (hf.walk h).mp hw with hold | ⟨rfl, -⟩
  · rw [(resolveNode_eq_some h q.2).mpr ⟨cs, hcs, hold⟩] at hnone
    cases hnone
  · rfl

/-- From `fs` to `fs'` the path `q` has come to name a new node, and nothing else has
changed for other paths. -/
def Named (fs fs' : Tmpfs) (q : CString) : Prop :=
  ∃ n, (fs.nodes n).used = false ∧ fs'.resolveNode q = some n ∧
    ∀ q' : CString, q' ≠ q → fs'.resolveNode q' = fs.resolveNode q'

/-- A creation names a node, unless its path starts with two slashes. -/
lemma Fresh.named_iff {q : CString} (hf : Fresh fs q parent name index) (h : Tree fs) :
    Named fs (fs.setNode index (newNode parent name type permissions)) q ↔
      ¬ DoubleSlash q.val := by
  have ht : Tree (fs.setNode index (newNode parent name type permissions)) := hf.tree h
  constructor
  · rintro ⟨n, -, hn, -⟩
    obtain ⟨cs, hcs, hw⟩ := (resolveNode_eq_some ht q.2).mp hn
    rw [hcs]
    exact not_doubleSlash_pathOf (hw.components ht)
  · intro hslash
    obtain ⟨cs, hq, hw⟩ : ∃ cs, q.val = pathOf (cs ++ [name]) ∧ Walk fs rootNode cs parent :=
      hf.split.resolve_right fun hr => hslash ⟨name, hr.1.symm⟩
    refine ⟨index, hf.unused,
      (resolveNode_eq_some ht q.2).mpr ⟨_, hq, (hf.walk h).mpr (.inr ⟨rfl, cs, rfl, hw⟩)⟩, ?_⟩
    intro q' hne
    ext n
    rw [resolveNode_eq_some ht q'.2, resolveNode_eq_some h q'.2]
    constructor
    · rintro ⟨ds, hds, hwalk⟩
      rcases (hf.walk h).mp hwalk with hold | ⟨-, es, rfl, hes⟩
      · exact ⟨ds, hds, hold⟩
      · rw [hes.unique hw, ← hq] at hds
        exact absurd (Subtype.ext hds) hne
    · rintro ⟨ds, hds, hwalk⟩
      exact ⟨ds, hds, (hf.walk h).mpr (.inl hwalk)⟩

/-- A path that resolves is not created again. -/
lemma Fresh.resolveNode_eq_none {q : CString} (hf : Fresh fs q parent name index) (h : Tree fs) :
    fs.resolveNode q = none := by
  rw [Option.eq_none_iff_forall_ne_some]
  intro n hn
  obtain ⟨cs, hcs, hw⟩ := (resolveNode_eq_some h q.2).mp hn
  have hcomponents := hw.components h
  have hslash : ¬ DoubleSlash q.val := hcs ▸ not_doubleSlash_pathOf hcomponents
  obtain ⟨ds, hds, hwd⟩ : ∃ cs, q.val = pathOf (cs ++ [name]) ∧ Walk fs rootNode cs parent :=
    hf.split.resolve_right fun hr => hslash ⟨name, hr.1.symm⟩
  have hlast : ∀ c ∈ ds ++ [name], Component c := by
    intro c hc
    rcases List.mem_append.mp hc with hc | hc
    · exact hwd.components h c hc
    · exact List.mem_singleton.mp hc ▸ hf.component
  obtain rfl := pathOf_injective hcomponents hlast (hcs.symm.trans hds)
  obtain ⟨p, hp, hi⟩ := walk_concat.mp hw
  obtain rfl := hp.functional h hwd
  exact hf.absent n hi

end Create

/-! ### Runs -/

/-- An operation on the file system. -/
inductive Call where
  | mkdir (path : CString) (permissions : UInt32)
  | open_ (path : CString) (flags : UInt32)
  | close (handle : ℕ)
  | read (handle : ℕ) (buffer readOut : Bool) (length : ℕ)
  | write (handle : ℕ) (buffer : Source) (writtenOut : Bool)
  | seek (handle offset : ℕ)
  | list (path : CString) (index : ℕ)
  | setPermissions (path : CString) (permissions : UInt32)

/-- The status of a result; `none` is `VFS_OK`. -/
def statusOf {α : Type} : Except VfsStatus α → Option VfsStatus
  | .ok _ => none
  | .error status => some status

/-- One operation, with the status it returns. -/
def step (fs : Tmpfs) : Call → Option VfsStatus × Tmpfs
  | .mkdir path permissions => (fs.opMkdir path permissions).map statusOf id
  | .open_ path flags => (fs.opOpen path flags).map statusOf id
  | .close handle => (fs.opClose handle).map statusOf id
  | .read handle buffer readOut length => (fs.opRead handle buffer readOut length).map statusOf id
  | .write handle buffer writtenOut => (fs.opWrite handle buffer writtenOut).map statusOf id
  | .seek handle offset => (fs.opSeek handle offset).map statusOf id
  | .list path index => (statusOf (fs.opList path index), fs)
  | .setPermissions path permissions => (fs.tmpfsSetPermissions path permissions).map statusOf id

/-- What an operation can do to the tree: nothing, or extend it by one node. -/
inductive Change (fs : Tmpfs) : Tmpfs → Prop
  | same {fs' : Tmpfs} (h : SameShape fs fs') : Change fs fs'
  | create {fs' : Tmpfs} {q : CString} {parent : NodeIndex} {name : List UInt8}
      {index : NodeIndex} {type : VfsNodeType} {permissions : UInt32}
      (hc : Creation fs q parent name index)
      (h : SameShape (fs.setNode index (newNode parent name type permissions)) fs') :
      Change fs fs'

lemma step_change (fs : Tmpfs) (call : Call) : Change fs (step fs call).2 := by
  cases call with
  | mkdir path permissions =>
    change Change fs (fs.opMkdir path permissions).2
    rcases opMkdir_cases fs path permissions with ⟨status, h⟩ | ⟨parent, name, index, hc, h⟩
    · rw [h]
      exact .same (.refl fs)
    · rw [h]
      exact .create hc (.refl _)
  | open_ path flags =>
    change Change fs (fs.opOpen path flags).2
    have := opOpen_outcome fs path flags
    generalize fs.opOpen path flags = r at this
    cases this with
    | refused status => exact .same (.refl fs)
    | found hnode hfile hslot => exact .same sameShape_opened
    | created hnode hc hslot => exact .create hc sameShape_opened
    | stranded hc hslot => exact .create hc (.refl _)
  | close handle =>
    change Change fs (fs.opClose handle).2
    rcases opClose_cases fs handle with ⟨status, h⟩ | ⟨slot, -, -, h⟩
    · rw [h]
      exact .same (.refl fs)
    · rw [h]
      exact .same ((SameShape.refl fs).setOpen _)
  | read handle buffer readOut length =>
    change Change fs (fs.opRead handle buffer readOut length).2
    rcases opRead_cases fs handle buffer readOut length with ⟨status, h⟩ | ⟨slot, -, -, h⟩
    · rw [h]
      exact .same (.refl fs)
    · rw [h]
      exact .same ((SameShape.refl fs).setOpen _)
  | write handle buffer writtenOut =>
    change Change fs (fs.opWrite handle buffer writtenOut).2
    rcases opWrite_cases fs handle buffer writtenOut with
      ⟨status, h⟩ | ⟨slot, bytes, -, -, -, -, h⟩
    · rw [h]
      exact .same (.refl fs)
    · rw [h]
      exact .same sameShape_written
  | seek handle offset =>
    change Change fs (fs.opSeek handle offset).2
    rcases opSeek_cases fs handle offset with ⟨status, h⟩ | ⟨slot, -, -, -, h⟩
    · rw [h]
      exact .same (.refl fs)
    · rw [h]
      exact .same ((SameShape.refl fs).setOpen _)
  | list path index => exact .same (.refl fs)
  | setPermissions path permissions =>
    change Change fs (fs.tmpfsSetPermissions path permissions).2
    rw [tmpfsSetPermissions]
    cases hnode : fs.resolveNode path with
    | none => exact .same (.refl fs)
    | some i => exact .same (SameShape.setNode rfl rfl rfl rfl)

/-- Every operation keeps the tree. -/
lemma Tree.step (h : Tree fs) (call : Call) : Tree (step fs call).2 := by
  cases step_change fs call with
  | same hs => exact hs.tree h
  | @create q parent name index type permissions hc hs =>
    exact hs.tree ((hc.fresh h q.2).tree h)

lemma tree_tmpfsInit : Tree tmpfsInit := by
  have hother (i : NodeIndex) (hi : i ≠ rootNode) : (tmpfsInit.nodes i).used = false := by
    simp [tmpfsInit, hi]
  have hroot (i : NodeIndex) (hu : (tmpfsInit.nodes i).used = true) : i = rootNode := by
    by_contra hne
    rw [hother i hne] at hu
    cases hu
  refine ⟨rfl, rfl, fun i j hji hu => ?_, fun i hi hu => absurd (hroot i hu) hi,
    fun i hi hu => absurd (hroot i hu) hi, fun i hi hu => absurd (hroot i hu) hi,
    fun i hi hu => absurd (hroot i hu) hi, fun i _ hi _ hu => absurd (hroot i hu) hi⟩
  rw [hroot i hu] at hji
  exact absurd hji (Nat.not_lt_zero _)

/-- Every run keeps the tree. -/
lemma Tree.run (h : Tree fs) (calls : List Call) : Tree (Runs.final Tmpfs.step fs calls) :=
  Runs.final_induction Tmpfs.step (fun _ call ht => ht.step call) h calls

theorem tree_run (calls : List Call) : Tree (Runs.final step tmpfsInit calls) :=
  tree_tmpfsInit.run calls

/-! ### Paths and creations -/

/-- A path that resolves leads to a node in use. -/
lemma Tree.used_of_resolveNode (h : Tree fs) {q : CString} (hq : fs.resolveNode q = some n) :
    (fs.nodes n).used = true := by
  obtain ⟨cs, -, hw⟩ := (resolveNode_eq_some h q.2).mp hq
  exact hw.used h

/-- Every node in use has exactly one path. -/
lemma Tree.existsUnique_path (h : Tree fs) (hn : (fs.nodes n).used = true) :
    ∃! q : CString, fs.resolveNode q = some n := by
  obtain ⟨cs, hw⟩ := h.exists_walk n hn
  have hzero : (0 : UInt8) ∉ pathOf cs := by
    have hslash : (0 : UInt8) ≠ slash := by decide
    have hjoin : (0 : UInt8) ∉ join cs := by
      simp only [join, List.mem_flatMap, List.mem_cons, not_exists, not_and, not_or]
      exact fun c hc => ⟨hslash, (hw.components h c hc).no_zero⟩
    rw [pathOf]
    split_ifs
    · simpa using hslash
    · exact hjoin
  refine ⟨⟨pathOf cs, hzero⟩, (resolveNode_eq_some h hzero).mpr ⟨cs, rfl, hw⟩, fun q hq => ?_⟩
  obtain ⟨ds, hds, hw'⟩ := (resolveNode_eq_some h q.2).mp hq
  exact Subtype.ext (hds.trans (by rw [hw'.unique hw]))

lemma Tree.opMkdir_named (h : Tree fs) {q : CString}
    (hmkdir : fs.opMkdir q permissions = (.ok (), fs')) : Named fs fs' q ↔ ¬ DoubleSlash q.val := by
  rcases opMkdir_cases fs q permissions with ⟨status, heq⟩ | ⟨parent, name, index, hc, heq⟩
  · cases heq.symm.trans hmkdir
  · obtain rfl := (Prod.mk.inj (heq.symm.trans hmkdir)).2
    exact (hc.fresh h q.2).named_iff h

/-- Later changes of contents do not matter for names. -/
lemma SameShape.named {fs₁ fs₂ : Tmpfs} (hs : SameShape fs₁ fs₂) (h : Tree fs₁) {q : CString} :
    Named fs fs₂ q ↔ Named fs fs₁ q := by
  simp only [Named]
  refine exists_congr fun n => and_congr_right fun _ => ?_
  rw [hs.resolveNode h q.2]
  refine and_congr_right fun _ => forall_congr' fun q' => ?_
  rw [hs.resolveNode h q'.2]

lemma Tree.opOpen_named (h : Tree fs) {q : CString} (hnone : fs.resolveNode q = none)
    (hopen : fs.opOpen q flags = (.ok slot, fs')) : Named fs fs' q ↔ ¬ DoubleSlash q.val := by
  have := opOpen_outcome fs q flags
  rw [hopen] at this
  cases this with
  | found hnode hfile hslot => cases hnone.symm.trans hnode
  | created hnode hc hslot =>
    have hf := hc.fresh h q.2
    exact (sameShape_opened.named (hf.tree h)).trans (hf.named_iff h)

/-- A path that resolves is opened as it is. -/
lemma Tree.opOpen_used (h : Tree fs) {q : CString} (hsome : fs.resolveNode q = some n) :
    SameShape fs (fs.opOpen q flags).2 := by
  have := opOpen_outcome fs q flags
  generalize fs.opOpen q flags = r at this
  cases this with
  | refused status => exact .refl fs
  | found hnode hfile hslot => exact sameShape_opened
  | created hnode hc hslot => cases hsome.symm.trans hnode
  | stranded hc hslot => cases hsome.symm.trans ((hc.fresh h q.2).resolveNode_eq_none h)

lemma Tree.opMkdir_refused (h : Tree fs) {q : CString} (hsome : fs.resolveNode q = some n) :
    ∃ status, fs.opMkdir q permissions = (.error status, fs) := by
  rcases opMkdir_cases fs q permissions with hr | ⟨parent, name, index, hc, -⟩
  · exact hr
  · cases hsome.symm.trans ((hc.fresh h q.2).resolveNode_eq_none h)

/-- **The file system is a tree, and paths name its nodes.**  In every state reached from
`tmpfs_init`: a node in use other than the root has a directory in use before it as its
parent and a proper name, which its siblings do not share; every path that resolves
resolves to a node in use, and every node in use is what exactly one path resolves to.
A directory or a file created with success is what its path resolves to from then on,
with other paths resolving as before, exactly when the path does not start with two
slashes.  Creating a path that resolves already yields no second node. -/
theorem tmpfs_is_tree (calls : List Call) :
    let fs := Runs.final step tmpfsInit calls
    (∀ i, i ≠ rootNode → (fs.nodes i).used = true →
      (fs.nodes (fs.nodes i).parent).used = true ∧
      (fs.nodes (fs.nodes i).parent).type = .directory ∧ (fs.nodes i).parent < i ∧
      1 ≤ (fs.nodes i).name.length ∧ (fs.nodes i).name.length ≤ vfsNameMax ∧
      slash ∉ (fs.nodes i).name) ∧
    (∀ i j, i ≠ rootNode → j ≠ rootNode → i ≠ j → (fs.nodes i).used = true →
      (fs.nodes j).used = true → (fs.nodes i).parent = (fs.nodes j).parent →
      (fs.nodes i).name ≠ (fs.nodes j).name) ∧
    (∀ (q : CString) (n : NodeIndex), fs.resolveNode q = some n → (fs.nodes n).used = true) ∧
    (∀ n, (fs.nodes n).used = true → ∃! q : CString, fs.resolveNode q = some n) ∧
    (∀ (q : CString) (permissions : UInt32) (fs' : Tmpfs),
      fs.opMkdir q permissions = (.ok (), fs') → (Named fs fs' q ↔ ¬ DoubleSlash q.val)) ∧
    (∀ (q : CString) (flags : UInt32) (slot : Fin tmpfsMaxOpen) (fs' : Tmpfs),
      fs.resolveNode q = none → fs.opOpen q flags = (.ok slot, fs') →
      (Named fs fs' q ↔ ¬ DoubleSlash q.val)) ∧
    (∀ (q : CString) (n : NodeIndex), fs.resolveNode q = some n →
      (∀ permissions, ∃ status, fs.opMkdir q permissions = (.error status, fs)) ∧
      ∀ flags i, ((fs.opOpen q flags).2.nodes i).used = (fs.nodes i).used) := by
  have h := tree_run calls
  intro fs
  refine ⟨fun i hi hu => ?_, fun i j hi hj hne hui huj hp hn => ?_, fun q n hq => ?_,
    fun n hn => h.existsUnique_path hn, fun q permissions fs' hq => h.opMkdir_named hq,
    fun q flags slot fs' hnone hq => h.opOpen_named hnone hq, fun q n hq => ?_⟩
  · have hname := h.name i hi hu
    exact ⟨h.parent_used i hi hu, h.parent_type i hi hu, h.parent_lt i hi hu,
      List.length_pos_iff.mpr hname.ne_nil, hname.length_le, hname.no_slash⟩
  · exact hne (h.sibling i j hi hj hui huj hp hn)
  · exact h.used_of_resolveNode hq
  · exact ⟨fun permissions => h.opMkdir_refused hq, fun flags i => (h.opOpen_used hq).used i⟩

/-- The path `//a` is created with success as `/a`: it does not resolve afterwards, and
`/a` does, which did not before. -/
theorem double_slash_misnamed :
    let q : CString := ⟨[47, 47, 97], by decide⟩
    let plain : CString := ⟨[47, 97], by decide⟩
    let fs := tmpfsInit
    let r := fs.opOpen q (vfsOpenWrite ||| vfsOpenCreate)
    statusOf r.1 = none ∧ fs.resolveNode q = none ∧ r.2.resolveNode q = none ∧
      fs.resolveNode plain = none ∧ r.2.resolveNode plain = some ⟨1, by decide⟩ := by
  decide +kernel

end Tmpfs

end JoshOS
