import JoshOS.Tmpfs.Tree

/-!
Access control in the file system.

* `Alters`, `step_alters`: what an operation can do to the nodes and the open slots,
  with the checks of flags and permissions it has passed.
* `Alters.shut`: while the permissions of a file exclude an access, no slot is opened on
  it for that access.
* `Alters.contents`: without a slot open for writing, the contents stay.
* `opRead_ok`: a read that succeeds goes through a slot open for reading.
-/

namespace JoshOS

open Slots

namespace Tmpfs

variable {fs fs' : Tmpfs} {n index : NodeIndex} {slot : Fin tmpfsMaxOpen} {flags : UInt32}

/-! ### Access -/

/-- The two ways to access a file. -/
inductive Access where
  | read | write
  deriving DecidableEq

/-- The permission for an access. -/
def Access.permission : Access → UInt32
  | .read => vfsPermRead
  | .write => vfsPermWrite

/-- The flag that asks for an access. -/
def Access.flag : Access → UInt32
  | .read => vfsOpenRead
  | .write => vfsOpenWrite

variable {a : Access}

/-- The permissions of a file exclude an access. -/
def Excludes (a : Access) (fs : Tmpfs) (n : NodeIndex) : Prop :=
  (fs.nodes n).permissions &&& a.permission = 0

/-- No slot in use is open on a file for an access. -/
def Shut (a : Access) (fs : Tmpfs) (n : NodeIndex) : Prop :=
  ∀ slot, (fs.opens slot).used = true → (fs.opens slot).node = n →
    (fs.opens slot).flags &&& a.flag = 0

instance : Decidable (Excludes a fs n) := inferInstanceAs (Decidable (_ = _))

instance : Decidable (Shut a fs n) := inferInstanceAs (Decidable (∀ _, _ → _ → _))

/-- An open with these flags passes the checks of the permissions. -/
def Permitted (fs : Tmpfs) (index : NodeIndex) (flags : UInt32) : Prop :=
  ∀ a : Access, flags &&& a.flag ≠ 0 → ¬ Excludes a fs index

lemma openNode_permitted (fs : Tmpfs) (index : NodeIndex) (flags : UInt32) :
    (∃ status, fs.openNode index flags = (.error status, fs)) ∨ Permitted fs index flags := by
  rw [openNode]
  dsimp only
  split
  · exact .inl ⟨_, rfl⟩
  · split
    · exact .inl ⟨_, rfl⟩
    · rename_i hread
      split
      · exact .inl ⟨_, rfl⟩
      · rename_i hwrite
        refine .inr fun a hflag hex => ?_
        cases a with
        | read => exact hread ⟨hflag, hex⟩
        | write => exact hwrite ⟨hflag, hex⟩

/-- What an operation can do to a file system. -/
inductive Alters (fs : Tmpfs) : Tmpfs → Prop where
  | none : Alters fs fs
  | created {index : NodeIndex} (node : TmpfsNode) (hunused : (fs.nodes index).used = false) :
      Alters fs (fs.setNode index node)
  | opened {index : NodeIndex} {flags : UInt32} {slot : Fin tmpfsMaxOpen}
      (hpermitted : Permitted fs index flags) : Alters fs (fs.opened index flags slot)
  | createdOpened {index : NodeIndex} {flags : UInt32} {slot : Fin tmpfsMaxOpen}
      (node : TmpfsNode) (hunused : (fs.nodes index).used = false) :
      Alters fs ((fs.setNode index node).opened index flags slot)
  | closed (slot : Fin tmpfsMaxOpen) :
      Alters fs (fs.setOpen slot { fs.opens slot with used := false })
  | moved (slot : Fin tmpfsMaxOpen) (offset : ℕ) :
      Alters fs (fs.setOpen slot { fs.opens slot with offset := offset })
  | wrote {slot : Fin tmpfsMaxOpen} (bytes : List UInt8) (hused : (fs.opens slot).used = true)
      (hflag : (fs.opens slot).flags &&& vfsOpenWrite ≠ 0) : Alters fs (fs.written slot bytes)
  | permitted (index : NodeIndex) (permissions : UInt32) :
      Alters fs (fs.setNode index { fs.nodes index with permissions := permissions })

lemma opOpen_alters (fs : Tmpfs) (path : List UInt8) (flags : UInt32) :
    Alters fs (fs.opOpen path flags).2 := by
  have hout := opOpen_outcome fs path flags
  generalize hr : fs.opOpen path flags = r at hout
  cases hout with
  | refused => exact .none
  | @found index slot hnode hfile hslot =>
    rw [opOpen, hnode] at hr
    rcases openNode_permitted fs index flags with ⟨status, hfail⟩ | hpermitted
    · cases hfail.symm.trans hr
    · exact .opened hpermitted
  | created hnode hc hslot hcreate => exact .createdOpened _ hc.unused
  | stranded hc hslot => exact .created _ hc.unused

/-- A read that succeeds goes through a slot with the flag. -/
lemma opRead_ok {handle length : ℕ} {buffer readOut : Bool} {bytes : List UInt8}
    (hok : (fs.opRead handle buffer readOut length).1 = .ok bytes) :
    ∃ slot : Fin tmpfsMaxOpen, handle = slot.val ∧ (fs.opens slot).used = true ∧
      (fs.opens slot).flags &&& vfsOpenRead ≠ 0 ∧ bytes = fs.readBytes slot length := by
  rcases opRead_cases fs handle buffer readOut length with ⟨status, h⟩ | ⟨slot, rfl, hused, h⟩
  · rw [h] at hok
    cases hok
  · refine ⟨slot, rfl, hused, fun hflag => ?_, ?_⟩
    · rw [opRead, openSlot_eq_some.mpr ⟨rfl, hused⟩] at hok
      dsimp only at hok
      rw [if_pos hflag] at hok
      split_ifs at hok
    · rw [h] at hok
      exact (Except.ok.inj hok).symm

lemma opWrite_alters (fs : Tmpfs) (handle : ℕ) (buffer : Source) (writtenOut : Bool) :
    Alters fs (fs.opWrite handle buffer writtenOut).2 := by
  rcases opWrite_cases fs handle buffer writtenOut with
    ⟨status, h⟩ | ⟨slot, bytes, rfl, hused, hbytes, ⟨-, hflag, -⟩, h⟩
  · rw [h]
    exact .none
  · rw [h]
    exact .wrote bytes hused hflag

/-- Every operation is one of these changes. -/
lemma step_alters (fs : Tmpfs) (call : Call) : Alters fs (step fs call).2 := by
  cases call with
  | mkdir path permissions =>
    rw [step]
    rcases opMkdir_cases fs path permissions with ⟨status, h⟩ | ⟨parent, name, index, hc, h⟩
    · rw [h]
      exact .none
    · rw [h]
      exact .created _ hc.unused
  | open_ path flags => exact opOpen_alters fs path flags
  | close handle =>
    rw [step]
    rcases opClose_cases fs handle with ⟨status, h⟩ | ⟨slot, hslot, hused, h⟩
    · rw [h]
      exact .none
    · rw [h]
      exact .closed slot
  | read handle buffer readOut length =>
    rw [step]
    rcases opRead_cases fs handle buffer readOut length with ⟨status, h⟩ | ⟨slot, hslot, hused, h⟩
    · rw [h]
      exact .none
    · rw [h]
      exact .moved slot _
  | write handle buffer writtenOut => exact opWrite_alters fs handle buffer writtenOut
  | seek handle offset =>
    rw [step]
    rcases opSeek_cases fs handle offset with ⟨status, h⟩ | ⟨slot, hslot, hused, hfits, h⟩
    · rw [h]
      exact .none
    · rw [h]
      exact .moved slot offset
  | list path index => exact .none
  | setPermissions path permissions =>
    rw [step, tmpfsSetPermissions]
    cases fs.resolveNode path with
    | none => exact .none
    | some index => exact .permitted index _

/-! ### What an access that is excluded leaves alone -/

/-- Opening changes no node but the one opened, and that only by cutting it. -/
lemma opened_nodes_of_ne (h : n ≠ index) : (fs.opened index flags slot).nodes n = fs.nodes n := by
  rw [opened, setOpen_nodes]
  split_ifs
  · exact setNode_of_ne h
  · rfl

lemma opened_used : ((fs.opened index flags slot).nodes n).used = (fs.nodes n).used := by
  by_cases h : n = index
  · rw [opened, setOpen_nodes, h]
    split_ifs
    · rw [setNode_same]
    · rfl
  · rw [opened_nodes_of_ne h]

/-- A node that is not in use is not the node of a file. -/
lemma ne_of_unused (hn : (fs.nodes n).used = true) (hunused : (fs.nodes index).used = false) :
    n ≠ index := by
  rintro rfl
  rw [hn] at hunused
  cases hunused

/-- Files are never removed. -/
lemma Alters.used (hc : Alters fs fs') (hn : (fs.nodes n).used = true) :
    (fs'.nodes n).used = true := by
  cases hc with
  | none => exact hn
  | created node hunused => rwa [setNode_of_ne (ne_of_unused hn hunused)]
  | opened => rwa [opened_used]
  | createdOpened node hunused => rwa [opened_used, setNode_of_ne (ne_of_unused hn hunused)]
  | closed | moved => exact hn
  | @wrote slot bytes hused hflag =>
    rw [written]
    by_cases h : n = (fs.opens slot).node
    · rw [h, setNode_same]
      exact h ▸ hn
    · rwa [setNode_of_ne h]
  | permitted index permissions =>
    by_cases h : n = index
    · rw [h, setNode_same]
      exact h ▸ hn
    · rwa [setNode_of_ne h]

/-- A slot that is set on another file, or without the flag, does not open the file. -/
lemma Shut.setOpen (hshut : Shut a fs n) {entry : TmpfsOpen}
    (hentry : entry.used = true → entry.node = n → entry.flags &&& a.flag = 0) :
    Shut a (fs.setOpen slot entry) n := by
  intro other hu hnode
  by_cases h : other = slot
  · rw [h, setOpen_same] at hu hnode ⊢
    exact hentry hu hnode
  · rw [setOpen_of_ne h] at hu hnode ⊢
    exact hshut other hu hnode

lemma Shut.opened (hshut : Shut a fs n) (hflags : index = n → flags &&& a.flag = 0) :
    Shut a (fs.opened index flags slot) n := by
  rw [Tmpfs.opened]
  split_ifs
  · have hcut : Shut a (fs.setNode index { fs.nodes index with size := 0 }) n := hshut
    exact hcut.setOpen fun _ hnode => hflags hnode
  · exact hshut.setOpen fun _ hnode => hflags hnode

/-- **An access that is excluded is not opened.** -/
lemma Alters.shut (hc : Alters fs fs') (hn : (fs.nodes n).used = true) (hex : Excludes a fs n)
    (hshut : Shut a fs n) : Shut a fs' n := by
  cases hc with
  | none | created => exact hshut
  | @opened index flags slot hpermitted =>
    refine hshut.opened fun h => ?_
    by_contra hflag
    exact hpermitted a hflag (h ▸ hex)
  | @createdOpened index flags slot node hunused =>
    have hcreated : Shut a (fs.setNode index node) n := hshut
    exact hcreated.opened fun h => absurd h.symm (ne_of_unused hn hunused)
  | closed slot => exact hshut.setOpen fun hu => absurd hu Bool.false_ne_true
  | moved slot offset => exact hshut.setOpen (hshut slot)
  | @wrote slot bytes hused hflag => exact hshut.setOpen (hshut slot)
  | permitted => exact hshut

/-- **Without a slot open for writing the contents stay.** -/
lemma Alters.contents (hc : Alters fs fs') (hn : (fs.nodes n).used = true)
    (hex : Excludes .write fs n) (hshut : Shut .write fs n) :
    (fs'.nodes n).data = (fs.nodes n).data ∧ (fs'.nodes n).size = (fs.nodes n).size := by
  cases hc with
  | none => exact ⟨rfl, rfl⟩
  | created node hunused =>
    rw [setNode_of_ne (ne_of_unused hn hunused)]
    exact ⟨rfl, rfl⟩
  | @opened index flags slot hpermitted =>
    by_cases h : n = index
    · -- a cut needs the flag for writing, which the permissions exclude
      have hcut : ¬ Truncates flags := fun hcut => hpermitted .write hcut.2 (h ▸ hex)
      rw [Tmpfs.opened, if_neg hcut]
      exact ⟨rfl, rfl⟩
    · rw [opened_nodes_of_ne h]
      exact ⟨rfl, rfl⟩
  | createdOpened node hunused =>
    have h := ne_of_unused hn hunused
    rw [opened_nodes_of_ne h, setNode_of_ne h]
    exact ⟨rfl, rfl⟩
  | closed | moved => exact ⟨rfl, rfl⟩
  | @wrote slot bytes hused hflag =>
    have h : n ≠ (fs.opens slot).node := fun h => hflag (hshut slot hused h.symm)
    rw [written, setNode_of_ne h]
    exact ⟨rfl, rfl⟩
  | permitted index permissions =>
    by_cases h : n = index
    · rw [h, setNode_same]
      exact ⟨rfl, rfl⟩
    · rw [setNode_of_ne h]
      exact ⟨rfl, rfl⟩

end Tmpfs

end JoshOS
