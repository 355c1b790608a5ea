import JoshOS.Services.Model
import JoshOS.Tmpfs.Contents
import JoshOS.Vfs.Handles

/-!
Values in files: what `write_value` and `read_value` do.

* `fileBytes`: the bytes of a file.
* `Stored`, `OpenOutcome.stored`: a write that goes through changes what its own path
  holds and nothing else.
-/

namespace JoshOS

open Slots Tmpfs Vfs

variable {t : Vfs FsName} {path relative value : List UInt8} {flags : UInt32}
  {mount : Fin vfsMaxMounts} {c d : FsName} {h h' : Fin vfsMaxHandles} {s : Fin tmpfsMaxOpen}
  {fs fs' : Tmpfs} {n : NodeIndex}

/-- The bytes of a file. -/
def fileBytes (node : TmpfsNode) : List UInt8 := (List.range node.size).map node.data

lemma fileBytes_overwrite {node : TmpfsNode} (hsize : node.size = value.length) {data : ℕ → UInt8}
    (hdata : node.data = overwrite data 0 value) : fileBytes node = value := by
  refine List.ext_getElem (by simp [fileBytes, hsize]) fun k hk hk' => ?_
  simp only [fileBytes, List.getElem_map, List.getElem_range, hdata, overwrite]
  rw [if_pos ⟨Nat.zero_le k, by omega⟩, Nat.sub_zero, List.getD_eq_getElem _ _ hk']

namespace Tmpfs

/-- The slot that an open has filled. -/
lemma OpenOutcome.entry (ho : OpenOutcome fs path flags (.ok s, fs')) :
    fs'.opens s = ⟨true, (fs'.opens s).node, flags, 0⟩ := by
  cases ho with
  | found | created => rw [opened, setOpen_same]

/-- A write through a slot that allows it fails only for want of space. -/
lemma opWrite_eq (hu : (fs.opens s).used = true) (hw : (fs.opens s).flags &&& vfsOpenWrite ≠ 0) :
    fs.opWrite s (.bytes value) true =
      if tmpfsFileCapacity < (fs.opens s).offset + value.length then (.error .noSpace, fs)
      else (.ok value.length, fs.written s value) := by
  unfold opWrite
  rw [openSlot_eq_some.mpr ⟨rfl, hu⟩]
  dsimp only
  rw [if_neg (by simp), if_neg hw]
  by_cases hlong : tmpfsFileCapacity < (fs.opens s).offset + value.length
  · rw [if_pos (by omega), if_pos hlong]
  · rw [if_neg (by omega), if_neg hlong, ← max_def_lt]
    rfl

/-- A read through a slot that allows it. -/
lemma opRead_eq (hu : (fs.opens s).used = true) (hr : (fs.opens s).flags &&& vfsOpenRead ≠ 0)
    (length : ℕ) : fs.opRead s true true length = (.ok (fs.readBytes s length),
      fs.setOpen s { fs.opens s with
        offset := (fs.opens s).offset + fs.readCount s length }) := by
  rcases opRead_cases fs s true true length with ⟨status, heq⟩ | ⟨s', hs', -, heq⟩
  · rw [opRead, if_neg (by simp), openSlot_eq_some.mpr ⟨rfl, hu⟩] at heq
    dsimp only at heq
    rw [if_neg hr] at heq
    split at heq <;> cases heq
  · obtain rfl := Fin.ext hs'
    exact heq

/-- Reading from the start of a file. -/
lemma readBytes_start (hoffset : (fs.opens s).offset = 0) (capacity : ℕ) :
    fs.readBytes s capacity = (fileBytes (fs.nodes (fs.opens s).node)).take capacity := by
  rw [readBytes, readCount, hoffset, Nat.sub_zero, fileBytes, ← List.map_take, List.take_range]
  simp only [Nat.zero_add]

end Tmpfs

namespace Services

/-! ### Sessions -/

/-- The state after an open that succeeds. -/
def during (t : Vfs FsName) (mount : Fin vfsMaxMounts) (c : FsName) (h : Fin vfsMaxHandles)
    (s : Fin tmpfsMaxOpen) (fs : Tmpfs) : Vfs FsName :=
  (t.setContext c fs).setHandle h ⟨true, mount, s⟩

/-- The state after a session: a handle was opened, used on the file system `c`, which is
`fs` by then, and closed. -/
def after (t : Vfs FsName) (mount : Fin vfsMaxMounts) (c : FsName) (h : Fin vfsMaxHandles)
    (s : Fin tmpfsMaxOpen) (fs : Tmpfs) : Vfs FsName := (during t mount c h s fs).closed h c s

lemma targets_during (hcontext : (t.mounts mount).context = some c) (fs : Tmpfs) :
    Targets (during t mount c h s fs) h c s := targets_setHandle_self fs hcontext

lemma during_contexts : (during t mount c h s fs).contexts c = fs := setContext_same

lemma during_setContext :
    (during t mount c h s fs).setContext c fs' = during t mount c h s fs' := by
  simp [during, Vfs.setContext, setHandle]

lemma after_contexts : (after t mount c h s fs).contexts c =
    fs.setOpen s { fs.opens s with used := false } := by
  change ((during t mount c h s fs).setContext c _).contexts c = _
  rw [setContext_same, during_contexts]

lemma after_contexts_of_ne (hd : d ≠ c) : (after t mount c h s fs).contexts d = t.contexts d := by
  change ((during t mount c h s fs).setContext c _).contexts d = _
  rw [setContext_of_ne hd]
  exact setContext_of_ne hd

lemma after_handles (hfree : (t.handles h).used = false) :
    ((after t mount c h s fs).handles h').used = (t.handles h').used := by
  rw [after, closed]
  by_cases hne : h' = h
  · rw [hne, setHandle_same, hfree]
  · rw [setHandle_of_ne hne]
    exact congrArg _ (setHandle_of_ne hne)

lemma vfsClose_during (hcontext : (t.mounts mount).context = some c)
    (hu : (fs.opens s).used = true) :
    (during t mount c h s fs).vfsClose h = (.ok (), after t mount c h s fs) := by
  rw [vfsClose_eq (targets_during hcontext fs) (by rwa [during_contexts]), after]

/-- A write during a session fails only for want of space. -/
lemma vfsWrite_during (hcontext : (t.mounts mount).context = some c)
    (hu : (fs.opens s).used = true) (hflags : (fs.opens s).flags &&& vfsOpenWrite ≠ 0) :
    (during t mount c h s fs).vfsWrite h (.bytes value) true =
      if tmpfsFileCapacity < (fs.opens s).offset + value.length then
        (.error .noSpace, during t mount c h s fs)
      else (.ok value.length, during t mount c h s (fs.written s value)) := by
  rw [vfsWrite, onHandle_eq (targets_during hcontext fs), during_contexts, opWrite_eq hu hflags]
  split_ifs
  · rw [during_setContext]
  · rw [during_setContext]

/-- `write_value` changes nothing, or opens its file, which cuts it, and writes to it if the
value fits. -/
lemma writeValue_cases (hl : Linked t) (path value : List UInt8) :
    (∃ status, writeValue t path (some value) = (.error status, t)) ∨
      ∃ mount relative c h s fs,
        Opening t path (vfsOpenWrite ||| vfsOpenCreate ||| vfsOpenTrunc) mount relative c h s fs ∧
        writeValue t path (some value) =
          if tmpfsFileCapacity < value.length then (.error .noSpace, after t mount c h s fs)
          else (.ok (), after t mount c h s (fs.written s value)) := by
  rw [writeValue]
  rcases vfsOpen_cases hl path (vfsOpenWrite ||| vfsOpenCreate ||| vfsOpenTrunc) true with
    ⟨status, heq⟩ | ⟨mount, relative, c, h, s, fs, ho, heq⟩
  · rw [heq]
    exact .inl ⟨status, rfl⟩
  · refine .inr ⟨mount, relative, c, h, s, fs, ho, ?_⟩
    have hentry := ho.outcome.entry
    have hu : (fs.opens s).used = true := by rw [hentry]
    have hoffset : (fs.opens s).offset = 0 := by rw [hentry]
    have hflags : (fs.opens s).flags &&& vfsOpenWrite ≠ 0 := by
      rw [hentry]
      change (vfsOpenWrite ||| vfsOpenCreate ||| vfsOpenTrunc) &&& vfsOpenWrite ≠ 0
      decide
    have hwrite : (during t mount c h s fs).vfsWrite h (.bytes value) true =
        if tmpfsFileCapacity < value.length then (.error .noSpace, during t mount c h s fs)
        else (.ok value.length, during t mount c h s (fs.written s value)) := by
      rw [vfsWrite_during ho.context hu hflags, hoffset, Nat.zero_add]
    rw [heq, ← during]
    dsimp only
    rw [hwrite]
    split_ifs with hlong
    · dsimp only
      rw [vfsClose_during ho.context hu]
    · have hu' : ((fs.written s value).opens s).used = true := by
        rw [written, setNode_opens, setOpen_same]
        exact hu
      dsimp only
      rw [vfsClose_during ho.context hu']
      dsimp only
      rw [if_pos rfl]

/-- `read_value` once its file is open. -/
lemma readValue_of_open (ho : Opening t path vfsOpenRead mount relative c h s fs)
    (heq : t.vfsOpen (some path) vfsOpenRead true = (.ok h, during t mount c h s fs))
    (capacity : ℕ) :
    readValue t path true true capacity =
      (.ok (fs.readBytes s capacity), after t mount c h s (fs.setOpen s { fs.opens s with
        offset := (fs.opens s).offset + fs.readCount s capacity })) := by
  have hentry := ho.outcome.entry
  have hu : (fs.opens s).used = true := by rw [hentry]
  have hflags : (fs.opens s).flags &&& vfsOpenRead ≠ 0 := by
    rw [hentry]
    change vfsOpenRead &&& vfsOpenRead ≠ 0
    decide
  have hread : (during t mount c h s fs).vfsRead h true true capacity =
      (.ok (fs.readBytes s capacity), during t mount c h s (fs.setOpen s { fs.opens s with
        offset := (fs.opens s).offset + fs.readCount s capacity })) := by
    rw [vfsRead, onHandle_eq (targets_during ho.context fs), during_contexts,
      opRead_eq hu hflags, during_setContext]
  rw [readValue, if_neg (by simp), heq]
  dsimp only
  rw [hread]
  dsimp only
  rw [vfsClose_during ho.context (by rwa [setOpen_same])]

/-- `read_value` changes nothing, or opens its file and returns what there is of it. -/
lemma readValue_cases (hl : Linked t) (path : List UInt8) (buffer readOut : Bool)
    (capacity : ℕ) :
    (∃ status, readValue t path buffer readOut capacity = (.error status, t)) ∨
      ∃ mount relative c h s fs, Opening t path vfsOpenRead mount relative c h s fs ∧
        readValue t path buffer readOut capacity =
          (.ok (fs.readBytes s capacity), after t mount c h s (fs.setOpen s { fs.opens s with
            offset := (fs.opens s).offset + fs.readCount s capacity })) := by
  by_cases hnull : buffer = false ∨ readOut = false
  · rw [readValue, if_pos hnull]
    exact .inl ⟨_, rfl⟩
  · obtain ⟨rfl, rfl⟩ : buffer = true ∧ readOut = true := by simpa using hnull
    rcases vfsOpen_cases hl path vfsOpenRead true with
      ⟨status, heq⟩ | ⟨mount, relative, c, h, s, fs, ho, heq⟩
    · rw [readValue, if_neg hnull, heq]
      exact .inl ⟨status, rfl⟩
    · exact .inr ⟨mount, relative, c, h, s, fs, ho, readValue_of_open ho heq capacity⟩

/-- A session on a linked state ends in a linked state. -/
lemma linked_after (hl : Linked t) (ho : Opening t path flags mount relative c h s fs)
    (hopens : ∀ s', (fs'.opens s').used = (fs.opens s').used) :
    Linked (after t mount c h s fs') := by
  obtain ⟨hslot, hnew, hold⟩ := openOutcome_opens ho.outcome
  have hduring : Linked (during t mount c h s fs') :=
    hl.openHandle ho.free (resolveMount_used ho.resolved) ho.context hslot
      ((hopens s).trans hnew) fun s' hs => (hopens s').trans (by rw [hold s' hs])
  exact hduring.closeHandle (targets_during ho.context fs')

/-! ### What a write changes -/

/-- From `fs` to `fs'` the file at the path `q`, which is node `n`, has come to hold
`value`, and nothing else has changed. -/
structure Stored (fs : Tmpfs) (q : CString) (value : List UInt8) (n : NodeIndex) (fs' : Tmpfs) :
    Prop where
  tree : Tree fs'
  resolved : fs'.resolveNode q = some n
  others : ∀ q' : CString, q' ≠ q → fs'.resolveNode q' = fs.resolveNode q'
  nodes : ∀ m ≠ n, fs'.nodes m = fs.nodes m
  bytes : fileBytes (fs'.nodes n) = value
  file : (fs'.nodes n).type = .file
  room : (fs.nodes n).used = false ∨ fs.resolveNode q = some n ∧ (fs.nodes n).type = .file
  permissions : (fs'.nodes n).permissions = vfsPermRead ||| vfsPermWrite ∨
    fs.resolveNode q = some n ∧ (fs'.nodes n).permissions = (fs.nodes n).permissions

/-- Only the nodes matter for what is stored. -/
lemma Stored.congr {q : CString} {fs'' : Tmpfs} (hs : Stored fs q value n fs')
    (hnodes : fs''.nodes = fs'.nodes) : Stored fs q value n fs'' := by
  have hshape := SameShape.of_nodes hnodes
  have hres (q' : CString) : fs''.resolveNode q' = fs'.resolveNode q' :=
    hshape.resolveNode hs.tree q'.2
  refine ⟨hshape.tree hs.tree, (hres q).trans hs.resolved,
    fun q' hq' => (hres q').trans (hs.others q' hq'), ?_, ?_, ?_, hs.room, ?_⟩
  · simpa only [hnodes] using hs.nodes
  · simpa only [hnodes] using hs.bytes
  · simpa only [hnodes] using hs.file
  · simpa only [hnodes] using hs.permissions

/-- Writing nothing leaves the nodes as they are. -/
lemma nodes_written_nil (hoffset : (fs.opens s).offset = 0) :
    (fs.written s []).nodes = fs.nodes := by
  have hdata (data : ℕ → UInt8) : overwrite data 0 [] = data := by
    funext p
    simp [overwrite]
  simp [written, Tmpfs.setNode, hoffset, hdata]

/-- A file that is there is cut and written. -/
lemma stored_of_opened {q : CString} (ht : Tree fs) (hnode : fs.resolveNode q = some n)
    (hfile : (fs.nodes n).type = .file) (htrunc : Truncates flags) (value : List UInt8) :
    Stored fs q value n ((fs.opened n flags s).written s value) := by
  have hs : SameShape fs ((fs.opened n flags s).written s value) :=
    sameShape_opened.trans sameShape_written
  have hnodes : ((fs.opened n flags s).written s value).nodes = Function.update fs.nodes n
      { fs.nodes n with data := overwrite (fs.nodes n).data 0 value, size := value.length } := by
    simp [opened, htrunc, written, Tmpfs.setNode, Tmpfs.setOpen]
  have hself : ((fs.opened n flags s).written s value).nodes n =
      { fs.nodes n with data := overwrite (fs.nodes n).data 0 value, size := value.length } := by
    rw [hnodes, Function.update_self]
  refine ⟨hs.tree ht, ?_, fun q' _ => hs.resolveNode ht q'.2, fun m hm => ?_, ?_, ?_,
    .inr ⟨hnode, hfile⟩, .inr ⟨hnode, ?_⟩⟩
  · rw [hs.resolveNode ht q.2, hnode]
  · rw [hnodes, Function.update_of_ne hm]
  · rw [hself]
    exact fileBytes_overwrite rfl rfl
  · rw [hself]
    exact hfile
  · rw [hself]

/-- A truncating open that succeeds, with the write that follows. -/
lemma stored_of_outcome {q : CString} (ht : Tree fs) (htrunc : Truncates flags)
    (hslash : ¬ DoubleSlash q.val) (ho : OpenOutcome fs q flags (.ok s, fs')) (value : List UInt8) :
    ∃ n, Stored fs q value n (fs'.written s value) := by
  cases ho with
  | @found n s hnode hfile hslot => exact ⟨n, stored_of_opened ht hnode hfile htrunc value⟩
  | @created parent name n s hnode hc hslot =>
    have hf := hc.fresh ht q.2
    have htree : Tree (fs.withFile n parent name) := hf.tree ht
    obtain ⟨m, hunused, hm, hothers⟩ : Named fs (fs.withFile n parent name) q :=
      (hf.named_iff ht).mpr hslash
    -- the node that the path names is the one that was created
    obtain rfl : m = n := by
      obtain ⟨cs, -, hw⟩ := (resolveNode_eq_some htree q.2).mp hm
      rcases used_setNode_cases (hw.used htree) with heq | ⟨hu, -⟩
      · exact heq
      · rw [hunused] at hu
        cases hu
    have hnew : (fs.withFile m parent name).nodes m =
        newNode parent name .file (vfsPermRead ||| vfsPermWrite) := setNode_same _
    have hstored := stored_of_opened (s := s) htree hm (by rw [hnew]; rfl) htrunc value
    refine ⟨m, hstored.tree, hstored.resolved, fun q' hq' => ?_, fun k hk => ?_, hstored.bytes,
      hstored.file, .inl hunused, .inl ?_⟩
    · rw [hstored.others q' hq', hothers q' hq']
    · rw [hstored.nodes k hk]
      exact setNode_of_ne hk
    · rcases hstored.permissions with hp | ⟨-, hp⟩
      · exact hp
      · rw [hp, hnew]
        rfl

end Services

end JoshOS
