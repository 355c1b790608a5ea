import JoshOS.Tmpfs.Access
import JoshOS.Vfs.Files

/-!
Access control through the switch.

* `operate`: a call of the switch, or one of a file system directly.
* `Acts`, `operate_acts`: an operation is at most one operation of one file system.
* `access_control`: a file that may not be written, and has no handle open for writing,
  keeps its contents until it may be written again; of a file that may not be read, and
  has no handle open for reading, no read returns bytes.
-/

namespace JoshOS

open Slots Tmpfs

namespace Vfs

variable {κ : Type} [DecidableEq κ] {t t' : Vfs κ} {c d : κ} {n : NodeIndex} {a : Access}

/-! ### Operations -/

/-- A call of `vfs.h`, or one of `tmpfs.h` or `tmpfs_ops` on one of the file systems. -/
inductive Operation (κ : Type) where
  | vfs (call : Call κ)
  | tmpfs (c : κ) (call : Tmpfs.Call)

/-- One operation, with the status it returns. -/
def operate (t : Vfs κ) : Operation κ → Option VfsStatus × Vfs κ
  | .vfs call => (step t call).map statusOf id
  | .tmpfs c call => (Tmpfs.step (t.contexts c) call).map id (t.setContext c)

/-- What an operation does to the file systems: nothing, or one call on one of them. -/
inductive Acts (t : Vfs κ) : (κ → Tmpfs) → Prop where
  | nothing : Acts t t.contexts
  | called (c : κ) (call : Tmpfs.Call) :
      Acts t (Function.update t.contexts c (Tmpfs.step (t.contexts c) call).2)

/-- An operation on a mount is a call on the file system of the mount. -/
lemma acts_onMount {α : Type} {mount : Fin vfsMaxMounts} {null : VfsStatus}
    {op : Tmpfs → Except VfsStatus α × Tmpfs} (call : Tmpfs.Call)
    (hop : ∀ fs, (op fs).2 = (Tmpfs.step fs call).2) :
    Acts t (t.onMount mount null op).2.contexts := by
  cases hcontext : (t.mounts mount).context with
  | none =>
    rw [onMount, hcontext]
    exact .nothing
  | some c =>
    rw [onMount_eq hcontext, hop]
    exact .called c call

/-- An operation on a handle is a call on the file system of its mount. -/
lemma acts_onHandle {α : Type} {handle : ℕ} {op : Tmpfs → ℕ → Except VfsStatus α × Tmpfs}
    (call : ℕ → Tmpfs.Call) (hop : ∀ fs k, (op fs k).2 = (Tmpfs.step fs (call k)).2) :
    Acts t (t.onHandle handle op).2.contexts := by
  cases hu : t.usedHandle handle with
  | none =>
    rw [onHandle, hu]
    exact .nothing
  | some h =>
    rw [onHandle, hu]
    exact acts_onMount (call _) fun fs => hop fs _

lemma acts_mkdir (path : Option CString) (permissions : UInt32) :
    Acts t (t.vfsMkdir (path.map (·.val)) permissions).2.contexts := by
  rw [vfsMkdir]
  cases path with
  | none => exact .nothing
  | some path =>
    cases hr : t.resolveMount path with
    | none =>
      simp only [Option.map_some, Option.bind_some, hr]
      exact .nothing
    | some found =>
      obtain ⟨mount, relative⟩ := found
      simp only [Option.map_some, Option.bind_some, hr]
      exact acts_onMount (.mkdir ⟨relative, resolveMount_string hr⟩ permissions) fun _ => rfl

lemma acts_open (path : Option CString) (flags : UInt32) (handleOut : Bool) :
    Acts t (t.vfsOpen (path.map (·.val)) flags handleOut).2.contexts := by
  cases path with
  | none => exact .nothing
  | some path =>
    rw [Option.map_some, vfsOpen]
    split_ifs with hbad
    · exact .nothing
    · cases hr : t.resolveMount path with
      | none => exact .nothing
      | some found =>
        obtain ⟨mount, relative⟩ := found
        dsimp only
        cases firstSlot fun i => (t.handles i).used = false with
        | none => exact .nothing
        | some slot =>
          have hacts : Acts t (t.onMount mount .badArgument
              fun fs => fs.opOpen relative flags).2.contexts :=
            acts_onMount (.open_ ⟨relative, resolveMount_string hr⟩ flags) fun _ => rfl
          generalize t.onMount mount .badArgument
            (fun fs => fs.opOpen relative flags) = r at hacts ⊢
          obtain ⟨answer, t'⟩ := r
          cases answer with
          | error | ok => exact hacts

lemma acts_close (handle : ℕ) : Acts t (t.vfsClose handle).2.contexts := by
  cases hu : t.usedHandle handle with
  | none =>
    rw [vfsClose, hu]
    exact .nothing
  | some h =>
    rw [vfsClose, hu]
    exact acts_onMount (.close (t.handles h).backendHandle) fun _ => rfl

/-- Mounting and listing leave the file systems alone. -/
lemma acts_of_effect {call : Call κ} {answer : Answer} (heffect : Effect t call answer t')
    (hcall : (∃ path context ops, call = .mount path context ops) ∨
      ∃ path index entryOut, call = .list path index entryOut) : Acts t t'.contexts := by
  rcases hcall with ⟨path, context, ops, rfl⟩ | ⟨path, index, entryOut, rfl⟩
  · cases heffect with
    | refused | mounted => exact .nothing
  · cases heffect with
    | refused | listed => exact .nothing

/-- Every operation acts on at most one file system. -/
lemma operate_acts (t : Vfs κ) (op : Operation κ) : Acts t (operate t op).2.contexts := by
  cases op with
  | tmpfs c call => exact .called c call
  | vfs call =>
    cases call with
    | mount path context ops =>
      exact acts_of_effect (mount_effect path context ops) (.inl ⟨path, context, ops, rfl⟩)
    | mkdir path permissions => exact acts_mkdir path permissions
    | open_ path flags handleOut => exact acts_open path flags handleOut
    | close handle => exact acts_close handle
    | read handle buffer readOut length =>
      exact acts_onHandle (fun k => .read k buffer readOut length) fun _ _ => rfl
    | write handle buffer writtenOut =>
      exact acts_onHandle (fun k => .write k buffer writtenOut) fun _ _ => rfl
    | seek handle offset => exact acts_onHandle (fun k => .seek k offset) fun _ _ => rfl
    | list path index entryOut =>
      exact acts_of_effect (list_effect path index entryOut)
        (.inr ⟨path, index, entryOut, rfl⟩)

/-! ### Access control -/

/-- What the operations so far have to leave of a file whose permissions excluded an access
throughout: it is there, and no handle is open on it for that access. -/
structure Closed (a : Access) (t : Vfs κ) (c : κ) (n : NodeIndex) : Prop where
  used : ((t.contexts c).nodes n).used = true
  shut : Shut a (t.contexts c) n

/-- An operation that changes the file system `c` is a call on it. -/
lemma operate_context (t : Vfs κ) (op : Operation κ) (c : κ) :
    (operate t op).2.contexts c = t.contexts c ∨
      ∃ call, (operate t op).2.contexts c = (Tmpfs.step (t.contexts c) call).2 := by
  have hacts := operate_acts t op
  generalize (operate t op).2.contexts = contexts at hacts
  cases hacts with
  | nothing => exact .inl rfl
  | called d call =>
    by_cases hd : c = d
    · subst hd
      exact .inr ⟨call, Function.update_self ..⟩
    · exact .inl (Function.update_of_ne hd _ _)

lemma Closed.operate (hc : Closed a t c n) (hex : Excludes a (t.contexts c) n)
    (op : Operation κ) : Closed a (operate t op).2 c n := by
  rcases operate_context t op c with h | ⟨call, h⟩
  · exact ⟨h ▸ hc.used, h ▸ hc.shut⟩
  · have halters := step_alters (t.contexts c) call
    rw [← h] at halters
    exact ⟨halters.used hc.used, halters.shut hc.used hex hc.shut⟩

lemma Closed.contents (hc : Closed .write t c n) (hex : Excludes .write (t.contexts c) n)
    (op : Operation κ) :
    (((Vfs.operate t op).2.contexts c).nodes n).data = ((t.contexts c).nodes n).data ∧
      (((Vfs.operate t op).2.contexts c).nodes n).size = ((t.contexts c).nodes n).size := by
  rcases operate_context t op c with h | ⟨call, h⟩
  · rw [h]
    exact ⟨rfl, rfl⟩
  · have halters := step_alters (t.contexts c) call
    rw [← h] at halters
    exact halters.contents hc.used hex hc.shut

/-- A read that succeeds goes through a slot of another file. -/
lemma Closed.vfsRead (hc : Closed .read t c n) {handle length : ℕ} {buffer readOut : Bool}
    {bytes : List UInt8} (hok : (t.vfsRead handle buffer readOut length).1 = .ok bytes) :
    ∃ d slot, t.slotOf handle = some (d, slot) ∧ (d, ((t.contexts d).opens slot).node) ≠ (c, n) ∧
      bytes = (t.contexts d).readBytes slot length := by
  rw [Vfs.vfsRead, onHandle] at hok
  cases hu : t.usedHandle handle with
  | none =>
    rw [hu] at hok
    cases hok
  | some h =>
    rw [hu] at hok
    obtain ⟨rfl, hused⟩ := usedHandle_eq_some.mp hu
    dsimp only at hok
    cases hcontext : (t.mounts (t.handles h).mountIndex).context with
    | none =>
      rw [onMount, hcontext] at hok
      cases hok
    | some d =>
      rw [onMount_eq hcontext] at hok
      obtain ⟨slot, hbackend, hslot, hflag, hbytes⟩ := opRead_ok hok
      have htarget : Targets t h d slot := ⟨hused, hcontext, hbackend⟩
      refine ⟨d, slot, htarget.slotOf, fun heq => hflag ?_, hbytes⟩
      obtain ⟨rfl, hnode⟩ := Prod.mk.inj heq
      exact hc.shut slot hslot hnode

/-- **Access control.**  Take any run of calls of the switch and of its file systems, and
a node in use after it.  If no handle is open on it for writing, its data and size do not
change as long as every further operation finds its permissions without
`VFS_PERM_WRITE`.  If no handle is open on it for reading, then as long as every further
operation finds its permissions without `VFS_PERM_READ`, the bytes that a `vfs_read`
returns are those of another node. -/
theorem access_control (t₀ : Vfs κ) (before after : List (Operation κ)) (c : κ) (n : NodeIndex) :
    let t := Runs.final operate (start t₀) before
    let t' := Runs.final operate t after
    ((t.contexts c).nodes n).used = true →
    (Shut .write (t.contexts c) n →
      Runs.Legal operate (fun t _ => Excludes .write (t.contexts c) n) t after →
      ((t'.contexts c).nodes n).data = ((t.contexts c).nodes n).data ∧
      ((t'.contexts c).nodes n).size = ((t.contexts c).nodes n).size) ∧
    (Shut .read (t.contexts c) n →
      Runs.Legal operate (fun t _ => Excludes .read (t.contexts c) n) t after →
      ∀ (handle : ℕ) (buffer readOut : Bool) (length : ℕ) (bytes : List UInt8),
        (t'.vfsRead handle buffer readOut length).1 = .ok bytes →
        ∃ d slot, t'.slotOf handle = some (d, slot) ∧
          (d, ((t'.contexts d).opens slot).node) ≠ (c, n) ∧
          bytes = (t'.contexts d).readBytes slot length) := by
  intro t t' hused
  refine ⟨fun hshut hlegal => ?_, fun hshut hlegal handle buffer readOut length bytes hok => ?_⟩
  · have hkept := Runs.legal_induction operate (P := fun u => Closed .write u c n ∧
      ((u.contexts c).nodes n).data = ((t.contexts c).nodes n).data ∧
      ((u.contexts c).nodes n).size = ((t.contexts c).nodes n).size)
      (fun u op hu hex => ⟨hu.1.operate hex op, (hu.1.contents hex op).1.trans hu.2.1,
        (hu.1.contents hex op).2.trans hu.2.2⟩) ⟨⟨hused, hshut⟩, rfl, rfl⟩ hlegal
    exact hkept.2
  · have hclosed := Runs.legal_induction operate (P := fun u => Closed .read u c n)
      (fun u op hu hex => hu.operate hex op) ⟨hused, hshut⟩ hlegal
    exact hclosed.vfsRead hok

/-- A file with the bytes `AAAA`, closed and without permissions, still has its four bytes
after an attempt to cut it and one to write through the handle it had. -/
theorem access_control_withdrawn :
    let before : List (Operation Unit) := createCalls.map .vfs ++
      [.vfs (.close 0), .tmpfs () (.setPermissions ⟨[47, 102], by decide⟩ 0)]
    let after : List (Operation Unit) := [.vfs (.open_ (some ⟨[47, 102], by decide⟩)
      (vfsOpenWrite ||| vfsOpenTrunc) true), .vfs (.write 0 (.bytes [66]) true)]
    let t := Runs.final operate (start blankVfs) before
    let t' := Runs.final operate t after
    ((t.contexts ()).nodes ⟨1, by decide⟩).size = 4 ∧
      ((t'.contexts ()).nodes ⟨1, by decide⟩).size = 4 := by
  intro before after t t'
  have hsize : ((t.contexts ()).nodes ⟨1, by decide⟩).size = 4 := by decide +kernel
  have hkept := (access_control blankVfs before after () ⟨1, by decide⟩ (by decide +kernel)).1
    (by decide +kernel) (by decide +kernel)
  exact ⟨hsize, hkept.2.trans hsize⟩

end Vfs

end JoshOS
