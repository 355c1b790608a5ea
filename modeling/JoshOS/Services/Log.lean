import JoshOS.Services.LogFile

/-!
The kernel log as the concatenation of what was appended.

* `LogState`: `/var/kernel.log` leads to a log with a given text.
* `Spares`, `LogState.step`: calls of the switch that spare the log keep it.
* `log_is_concatenation`: along every run of such calls the log is what was appended.
-/

namespace JoshOS

open List Slots Tmpfs Vfs

namespace Services

variable {t t' : Vfs FsName} {x : Services} {fs fs' : Tmpfs} {text bytes path relative : List UInt8}
  {flags : UInt32} {mount : Fin vfsMaxMounts} {c : FsName} {k : Fin vfsMaxHandles}
  {s : Fin tmpfsMaxOpen} {n : NodeIndex} {made made' : Prop}

/-! ### The log behind the switch -/

/-- The path of the log leads to a log with this text. -/
structure LogState (made : Prop) (t : Vfs FsName) (text : List UInt8) : Prop where
  linked : Linked t
  mount : t.mounts mountVar = ⟨true, varPath, some .var⟩
  route : t.resolveMount logPath = some (mountVar, logName.val)
  node : LogNode made (t.contexts .var) text

/-- The node of the log, if it is there. -/
def logNode (t : Vfs FsName) : Option NodeIndex := (t.contexts .var).resolveNode logName

/-- What spares the log: the call has not opened it for writing, and has put neither a
directory nor a mount in its place. -/
def Leaves (t : Vfs FsName) (answer : Answer) (t' : Vfs FsName) : Vfs.Call FsName → Prop
  | .mount _ _ _ => t'.resolveMount logPath = t.resolveMount logPath
  | .mkdir _ _ => ∀ n, logNode t' = some n → ((t'.contexts .var).nodes n).type = .file
  | .open_ _ flags _ => flags &&& vfsOpenWrite ≠ 0 → ∀ (k : Fin vfsMaxHandles) (n : NodeIndex),
      answer = .ok (.handle k) → t'.fileOf k = some (.var, n) → logNode t' ≠ some n
  | _ => True

/-- A call of the switch that spares the log. -/
def Spares (t : Vfs FsName) (call : Vfs.Call FsName) : Prop :=
  Leaves t (Vfs.step t call).1 (Vfs.step t call).2 call

/-- Only the mounts matter for where a path leads. -/
lemma resolveMount_congr (hmounts : t'.mounts = t.mounts) (path : List UInt8) :
    t'.resolveMount path = t.resolveMount path := by
  have hloop : ∀ is found best,
      t'.resolveMountFrom path found best is = t.resolveMountFrom path found best is := by
    intro is
    induction is with
    | nil => exact fun _ _ => rfl
    | cons i is ih =>
      intro found best
      simp only [resolveMountFrom, hmounts, ih]
  simp only [resolveMount, hloop, hmounts]

lemma LogState.congr {text' : List UInt8} (h : LogState made t text) (hlinked : Linked t')
    (hmounts : t'.mounts = t.mounts) (hnode : LogNode made' (t'.contexts .var) text') :
    LogState made' t' text' :=
  ⟨hlinked, hmounts ▸ h.mount, (resolveMount_congr hmounts _).trans h.route, hnode⟩

/-- A change of one file system. -/
lemma LogState.setContext (h : LogState made t text) (hfs : c = .var → LogNode made fs text) :
    LogNode made ((t.setContext c fs).contexts .var) text := by
  by_cases hc : c = .var
  · subst hc
    rw [setContext_same]
    exact hfs rfl
  · rw [setContext_of_ne (Ne.symm hc)]
    exact h.node

/-- **Calls that spare the log** keep it. -/
lemma LogState.step (h : LogState made t text) {call : Vfs.Call FsName} (hspares : Spares t call) :
    LogState made (Vfs.step t call).2 text := by
  have hlinked := h.linked.step call
  have heffect := step_effect h.linked call
  rw [Spares] at hspares
  generalize Vfs.step t call = r at hlinked heffect hspares
  obtain ⟨answer, t'⟩ := r
  dsimp only at hlinked heffect hspares ⊢
  cases heffect with
  | refused => exact h
  | @mounted path context ops i entry hfree hused =>
    have hne : mountVar ≠ i := by
      rintro rfl
      rw [h.mount] at hfree
      cases hfree
    exact ⟨hlinked, (Function.update_of_ne hne ..).trans h.mount, hspares.trans h.route, h.node⟩
  | @madeDirectory path permissions c parent name index relative hc =>
    refine h.congr hlinked rfl (h.setContext fun hvar => ?_)
    subst hvar
    refine h.node.madeDirectory hc fun n hn => ?_
    have hfile := hspares n
    rw [logNode, setContext_same] at hfile
    exact hfile hn
  | @opened path flags handleOut mount c k s fs relative hfree hmount hcontext hopen =>
    refine h.congr hlinked rfl (h.setContext fun hvar => ?_)
    subst hvar
    refine h.node.openOutcome hopen fun hwrite => ?_
    have hfile : ((t.setContext .var fs).setHandle k ⟨true, mount, s⟩).fileOf k =
        some (.var, (fs.opens s).node) := by
      rw [(targets_setHandle_self (h := k) (s := s) fs hcontext).fileOf]
      change some (FsName.var, (((t.setContext .var fs).contexts .var).opens s).node) = _
      rw [setContext_same]
    have hlog := hspares hwrite k _ rfl hfile
    change ((t.setContext .var fs).contexts .var).resolveNode logName ≠ _ at hlog
    rwa [setContext_same] at hlog
  | @closed c k s ht =>
    refine h.congr hlinked rfl (h.setContext fun hvar => ?_)
    subst hvar
    exact h.node.close
  | @read buffer readOut length c k s ht =>
    refine h.congr hlinked rfl (h.setContext fun hvar => ?_)
    subst hvar
    exact h.node.move _
  | @wrote buffer writtenOut bytes c k s ht hbytes hfits =>
    refine h.congr hlinked rfl (h.setContext fun hvar => ?_)
    subst hvar
    refine h.node.written fun n hn heq => ?_
    exact hfits.2.1 ((h.node.file n hn).shut s (h.linked.open_ ht) heq.symm)
  | @sought offset c k s ht hfits =>
    refine h.congr hlinked rfl (h.setContext fun hvar => ?_)
    subst hvar
    exact h.node.move _
  | listed => exact h

/-! ### Sessions of the services -/

/-- A session of another service, or an append, from open to close. -/
lemma LogState.after {text' : List UInt8} (h : LogState made t text)
    (ho : Opening t path flags mount relative c k s fs)
    (hopens : ∀ s', (fs'.opens s').used = (fs.opens s').used)
    (hvar : c = .var → LogNode made' (fs'.setOpen s { fs'.opens s with used := false }) text')
    (hother : c ≠ .var → text' = text ∧ (made' → made)) :
    LogState made' (after t mount c k s fs') text' := by
  refine h.congr (linked_after h.linked ho hopens) rfl ?_
  by_cases hc : c = .var
  · subst hc
    rw [after_contexts]
    exact hvar rfl
  · rw [after_contexts_of_ne (Ne.symm hc), (hother hc).1]
    exact h.node.mono (hother hc).2

/-- The path below a mount has no bytes of its own but slashes. -/
lemma mem_of_resolveMount {b : UInt8} (hr : t.resolveMount path = some (mount, relative))
    (hb : b ∈ relative) (hne : b ≠ slash) : b ∈ path := by
  rw [Vfs.resolveMount] at hr
  split at hr
  · cases hr
  · obtain ⟨-, rfl⟩ := Prod.mk.inj (Option.some.inj hr)
    split_ifs at hb
    · exact absurd (mem_singleton.mp hb) hne
    · exact hb
    · exact absurd (mem_singleton.mp hb) hne
    · exact mem_of_mem_drop hb

lemma mem_pathOf_concat {cs : List (List UInt8)} {name : List UInt8} {b : UInt8} (hb : b ∈ name) :
    b ∈ pathOf (cs ++ [name]) := by
  rw [pathOf_concat]
  exact mem_append_right _ (mem_cons_of_mem _ hb)

/-- The name of a file that is opened is part of the path. -/
lemma mem_of_openOutcome {q : CString} (ht : Tree fs) (ho : OpenOutcome fs q flags (.ok s, fs'))
    {b : UInt8} (hb : b ∈ (fs'.nodes (fs'.opens s).node).name) : b ∈ q.val := by
  have hopened : ∀ (fs : Tmpfs) index, ((fs.opened index flags s).nodes
      ((fs.opened index flags s).opens s).node).name = (fs.nodes index).name := by
    intro fs index
    rw [sameShape_opened.name, Tmpfs.opened, setOpen_same]
  cases ho with
  | @found index s hnode hfile hslot =>
    rw [hopened] at hb
    obtain ⟨cs, hcs, hw⟩ := (resolveNode_eq_some ht q.2).mp hnode
    rw [hcs]
    cases hw with
    | nil =>
      rw [ht.root_type] at hfile
      cases hfile
    | snoc hw hchild => exact mem_pathOf_concat (hchild.name_eq ▸ hb)
  | @created parent name index s hnode hc hslot hcreate =>
    rw [hopened, withFile, setNode_same] at hb
    rcases (hc.fresh ht q.2).split with ⟨cs, hcs, -⟩ | ⟨heq, -⟩
    · rw [hcs]
      exact mem_pathOf_concat hb
    · rw [heq]
      exact mem_cons_of_mem _ (mem_cons_of_mem _ hb)

/-- A path without a dot does not lead to the log. -/
lemma LogState.spares_of_noDot (h : LogState made t text) (hpath : (0 : UInt8) ∉ path)
    (hdot : (46 : UInt8) ∉ path) (ho : Opening t path flags mount relative c k s fs)
    (hc : c = .var) (ht : Tree fs) : fs.resolveNode logName ≠ some (fs.opens s).node := by
  subst hc
  intro hlog
  have hname := (isChild_of_log ht hlog).name_eq
  have hresolved : t.resolveMount (⟨path, hpath⟩ : CString) = some (mount, relative) := ho.resolved
  have hstring : (0 : UInt8) ∉ relative := resolveMount_string hresolved
  have hrelative : (46 : UInt8) ∈ relative :=
    mem_of_openOutcome (q := ⟨relative, hstring⟩) h.node.tree ho.outcome (hname ▸ by decide)
  exact hdot (mem_of_resolveMount ho.resolved hrelative (by decide))

/-- The file system after an open that has succeeded is a tree. -/
lemma tree_of_outcome {q : CString} (ht : Tree fs) (ho : OpenOutcome fs q flags (.ok s, fs')) :
    Tree fs' := by
  cases ho with
  | found hnode hfile hslot => exact sameShape_opened.tree ht
  | created hnode hc hslot hcreate => exact sameShape_opened.tree ((hc.fresh ht q.2).tree ht)

/-- The relative path of a session, as a string. -/
lemma Opening.outcome_string {q : CString} (ho : Opening t q flags mount relative c k s fs) :
    ∃ relative' : CString, relative'.val = relative ∧
      OpenOutcome (t.contexts c) relative' flags (.ok s, fs) :=
  ⟨⟨relative, resolveMount_string ho.resolved⟩, rfl, ho.outcome⟩

/-- **`write_value` leaves the log alone**, when its path has no dot. -/
lemma LogState.writeValue (h : LogState made t text) {q : CString} (hdot : (46 : UInt8) ∉ q.val)
    (value : Option (List UInt8)) : LogState made (writeValue t q value).2 text := by
  cases value with
  | none => exact h
  | some value =>
    rcases writeValue_cases h.linked q.val value with
      ⟨status, heq⟩ | ⟨mount, relative, c, k, s, fs, ho, heq⟩
    · rw [heq]
      exact h
    · have hspares (hc : c = .var) : fs.resolveNode logName ≠ some (fs.opens s).node := by
        obtain ⟨relative', -, hout⟩ := Opening.outcome_string ho
        subst hc
        exact h.spares_of_noDot q.2 hdot ho rfl (tree_of_outcome h.node.tree hout)
      have hnode (hc : c = .var) : LogNode made fs text := by
        obtain ⟨relative', -, hout⟩ := Opening.outcome_string ho
        have hne := hspares hc
        subst hc
        exact h.node.openOutcome hout fun _ => hne
      rw [heq]
      split_ifs
      · exact h.after ho (fun _ => rfl) (fun hc => (hnode hc).close) fun _ => ⟨rfl, id⟩
      · refine h.after ho (fun _ => written_opens_used) (fun hc => ?_) fun _ => ⟨rfl, id⟩
        refine ((hnode hc).written fun n hn heq => hspares hc ?_).close
        rw [hn, heq]

/-- **`read_value` leaves the log alone.** -/
lemma LogState.readValue (h : LogState made t text) (q : CString) (buffer readOut : Bool)
    (capacity : ℕ) : LogState made (readValue t q buffer readOut capacity).2 text := by
  rcases readValue_cases h.linked q.val buffer readOut capacity with
    ⟨status, heq⟩ | ⟨mount, relative, c, k, s, fs, ho, heq⟩
  · rw [heq]
    exact h
  · rw [heq]
    refine h.after ho (fun _ => moved_opens_used) (fun hc => ?_) fun _ => ⟨rfl, id⟩
    obtain ⟨relative', -, hout⟩ := Opening.outcome_string ho
    subst hc
    have hnode : LogNode made fs text :=
      h.node.openOutcome hout fun hwrite => absurd rfl hwrite
    exact (hnode.move _).close

/-! ### The log service -/

/-- Without a free handle nothing is opened. -/
lemma vfsOpen_full (hflags : flags &&& (vfsOpenRead ||| vfsOpenWrite) ≠ 0)
    (hr : t.resolveMount path = some (mount, relative)) (hfull : ∀ k, (t.handles k).used = true) :
    t.vfsOpen (some path) flags true = (.error .noSpace, t) := by
  have hnone : (firstSlot fun i => (t.handles i).used = false) = none :=
    firstSlot_eq_none.mpr fun i => by simp [hfull i]
  rw [vfsOpen, if_neg (by simp [hflags]), hr]
  simp only [hnone]

/-- What a file system refuses is refused. -/
lemma vfsOpen_refused {status : VfsStatus} (hflags : flags &&& (vfsOpenRead ||| vfsOpenWrite) ≠ 0)
    (hr : t.resolveMount path = some (mount, relative)) (hfree : (t.handles k).used = false)
    (hcontext : (t.mounts mount).context = some c)
    (hop : (t.contexts c).opOpen relative flags = (.error status, t.contexts c)) :
    t.vfsOpen (some path) flags true = (.error status, t) := by
  rw [vfsOpen, if_neg (by simp [hflags]), hr]
  cases hfirst : firstSlot fun i => (t.handles i).used = false with
  | none =>
    have hused := firstSlot_eq_none.mp hfirst k
    simp [hfree] at hused
  | some slot =>
    dsimp only
    rw [onMount_eq hcontext, hop]
    dsimp only
    rw [setContext_self]

lemma LogState.context (h : LogState made t text) : (t.mounts mountVar).context = some .var := by
  rw [h.mount]

/-- **The open of an append** succeeds, or there is no space. -/
lemma LogState.vfsOpen_append (h : LogState made t text) :
    t.vfsOpen (some logPath) appendFlags true = (.error .noSpace, t) ∨
      ∃ k s fs, Opening t logPath appendFlags mountVar logName .var k s fs ∧
        t.vfsOpen (some logPath) appendFlags true = (.ok k, during t mountVar .var k s fs) := by
  by_cases hfull : ∀ k, (t.handles k).used = true
  · exact .inl (vfsOpen_full (by decide) h.route hfull)
  · obtain ⟨k, hk⟩ := not_forall.mp hfull
    rw [Bool.not_eq_true] at hk
    rcases h.node.opOpen_append (h.linked.free_slot hk .var) with hop | ⟨s, fs, hop⟩
    · exact .inl (vfsOpen_refused (by decide) h.route hk h.context hop)
    · obtain ⟨k, ho, heq⟩ := vfsOpen_ok (by decide) h.route ⟨k, hk⟩ h.context hop
      exact .inr ⟨k, s, fs, ho, heq⟩

/-- A seek during a session. -/
lemma vfsSeek_during (hcontext : (t.mounts mount).context = some c)
    (hu : (fs.opens s).used = true) {offset : ℕ} (hle : offset ≤ tmpfsFileCapacity) :
    (during t mount c k s fs).vfsSeek k offset =
      (.ok (), during t mount c k s (fs.setOpen s { fs.opens s with offset := offset })) := by
  have hseek : fs.opSeek s offset =
      (.ok (), fs.setOpen s { fs.opens s with offset := offset }) := by
    rw [opSeek, openSlot_eq_some.mpr ⟨rfl, hu⟩]
    dsimp only
    rw [if_neg (Nat.not_lt.mpr hle)]
  rw [vfsSeek, onHandle_eq (targets_during hcontext fs), during_contexts, hseek, during_setContext]

/-- What an append can do. -/
inductive AppendOutcome (made : Prop) (x : Services) (text new : List UInt8) :
    Except VfsStatus Unit × Services → Prop
  | refused : AppendOutcome made x text new (.error .noSpace, x)
  | full {t : Vfs FsName} (hstate : LogState made t text)
      (hlong : tmpfsFileCapacity < text.length + new.length) :
      AppendOutcome made x text new (.error .noSpace, { x with vfs := t })
  | appended {t : Vfs FsName} (hstate : LogState True t (text ++ new))
      (hfits : text.length + new.length ≤ tmpfsFileCapacity) :
      AppendOutcome made x text new
        (.ok (), { x with vfs := t, logOffset := text.length + new.length })

/-- **`log_service_append`** puts its text behind that of the log, or fails with
`VFS_NO_SPACE` and leaves the log as it is. -/
lemma LogState.append (h : LogState made x.vfs text) (hinit : x.initialised = true)
    (hoffset : x.logOffset = text.length) (hle : text.length ≤ tmpfsFileCapacity)
    (new : List UInt8) : AppendOutcome made x text new (logServiceAppend x (some new)) := by
  obtain ⟨t, _, _⟩ := x
  dsimp only at h hinit hoffset
  subst hinit hoffset
  simp only [logServiceAppend]
  rcases h.vfsOpen_append with hopen | ⟨k, s, fs, ho, hopen⟩
  · rw [appendFlags] at hopen
    rw [hopen]
    exact .refused
  rw [appendFlags] at hopen
  have hentry := ho.outcome.entry
  have hu : (fs.opens s).used = true := by rw [hentry]
  set fs₁ := fs.setOpen s { fs.opens s with offset := text.length } with hfs₁
  have hentry₁ : fs₁.opens s = { fs.opens s with offset := text.length } := setOpen_same ..
  have hu₁ : (fs₁.opens s).used = true := by rw [hentry₁, hentry]
  have hflags : (fs₁.opens s).flags &&& vfsOpenWrite ≠ 0 := by
    rw [hentry₁, hentry]
    change appendFlags &&& vfsOpenWrite ≠ 0
    decide
  have hoffset₁ : (fs₁.opens s).offset = text.length := by rw [hentry₁]
  have hopens (s' : Fin tmpfsMaxOpen) : (fs₁.opens s').used = (fs.opens s').used :=
    moved_opens_used
  rw [hopen]
  simp only [vfsSeek_during ho.context hu hle]
  rw [vfsWrite_during ho.context hu₁ hflags, hoffset₁]
  by_cases hlong : tmpfsFileCapacity < text.length + new.length
  · rw [if_pos hlong]
    simp only [vfsClose_during ho.context hu₁]
    refine .full (h.after ho hopens (fun _ => ?_) fun hne => absurd rfl hne) hlong
    have hclosed : fs₁.setOpen s { fs₁.opens s with used := false } =
        fs.setOpen s { fs.opens s with used := false, offset := text.length } := by
      simp [hfs₁, Tmpfs.setOpen]
    rw [hclosed]
    exact h.node.closed ho.outcome text.length
  · rw [if_neg hlong]
    have hu₂ : ((fs₁.written s new).opens s).used = true := written_opens_used.trans hu₁
    simp only [vfsClose_during ho.context hu₂]
    exact .appended (h.after ho (fun s' => written_opens_used.trans (hopens s'))
      (fun _ => h.node.appended ho.outcome) fun hne => absurd rfl hne) (Nat.not_lt.mp hlong)

/-- **`log_service_read`**, where the log may not be there and there may be no free handle. -/
lemma LogState.read (h : LogState made x.vfs text) (hinit : x.initialised = true) {capacity : ℕ}
    (hle : text.length ≤ capacity) :
    ((∀ k, (x.vfs.handles k).used = true) →
      (logServiceRead x true true capacity).1 = .error .noSpace) ∧
    ((∃ k, (x.vfs.handles k).used = false) → logNode x.vfs = none →
      (logServiceRead x true true capacity).1 = .error .notFound) ∧
    ((∃ k, (x.vfs.handles k).used = false) → logNode x.vfs ≠ none →
      (logServiceRead x true true capacity).1 = .ok text) := by
  have hread : (logServiceRead x true true capacity).1 =
      (Services.readValue x.vfs logPath true true capacity).1 := by
    rw [logServiceRead, if_neg (by simp [hinit])]
    rfl
  rw [hread]
  refine ⟨fun hfull => ?_, fun ⟨k, hk⟩ hnone => ?_, fun ⟨k, hk⟩ hsome => ?_⟩
  · rw [Services.readValue, if_neg (by simp), vfsOpen_full (by decide) h.route hfull]
  · have hop : (x.vfs.contexts .var).opOpen logName vfsOpenRead =
        (.error .notFound, x.vfs.contexts .var) := by
      rw [logNode] at hnone
      rw [opOpen, hnone]
      rfl
    rw [Services.readValue, if_neg (by simp), vfsOpen_refused (by decide) h.route hk h.context hop]
  · obtain ⟨n, hn⟩ := Option.ne_none_iff_exists'.mp hsome
    have hlog := h.node.file n hn
    obtain ⟨s, -, hopen⟩ := openNode_ok vfsOpenRead hlog.type_eq hlog.permissions_eq
      (h.linked.free_slot hk .var)
    have hop : (x.vfs.contexts .var).opOpen logName vfsOpenRead =
        (.ok s, (x.vfs.contexts .var).opened n vfsOpenRead s) := by
      rw [logNode] at hn
      rw [opOpen, hn]
      exact hopen
    obtain ⟨k, ho, heq⟩ := vfsOpen_ok (by decide) h.route ⟨k, hk⟩ h.context hop
    have hentry := ho.outcome.entry
    have hnodes : ((x.vfs.contexts .var).opened n vfsOpenRead s).nodes =
        (x.vfs.contexts .var).nodes := by
      rw [Tmpfs.opened, if_neg (by decide), setOpen_nodes]
    have hnode : (((x.vfs.contexts .var).opened n vfsOpenRead s).opens s).node = n := by
      rw [Tmpfs.opened, setOpen_same]
    rw [readValue_of_open ho heq, readBytes_start (by rw [hentry]), hnode, hnodes, hlog.bytes_eq,
      take_of_length_le hle]

/-! ### Runs -/

/-- A call of the services or of the switch. -/
inductive LogCall where
  | append (text : Option CString)
  | read (buffer readOut : Bool) (capacity : ℕ)
  | registry (call : Call)
  | vfs (call : Vfs.Call FsName)

/-- One call. -/
def logStep (x : Services) : LogCall → Answer × Services
  | .append text => (logServiceAppend x (text.map (·.val))).map (·.map fun _ => .unit) id
  | .read buffer readOut capacity =>
    (logServiceRead x buffer readOut capacity).map (·.map .bytes) id
  | .registry call => (step x call).map (·.map .bytes) id
  | .vfs call => (Vfs.step x.vfs call).map id ({ x with vfs := · })

/-- The texts whose append has succeeded, after a call with its answer. -/
def noteText (texts : List (List UInt8)) : LogCall → Answer → List (List UInt8)
  | .append (some text), .ok _ => texts ++ [text.val]
  | _, _ => texts

/-- A call, with the texts whose append has succeeded. -/
def appending (y : Services × List (List UInt8)) (call : LogCall) :
    Answer × Services × List (List UInt8) :=
  let r := logStep y.1 call
  (r.1, r.2, noteText y.2 call r.1)

/-- The condition on a call: one of the switch spares the log. -/
def SparesLog (y : Services × List (List UInt8)) : LogCall → Prop
  | .vfs call => Spares y.1.vfs call
  | _ => True

/-- The bytes of the log; none as long as it is not there. -/
def logText (t : Vfs FsName) : List UInt8 :=
  match logNode t with
  | none => []
  | some n => fileBytes ((t.contexts .var).nodes n)

lemma LogState.logText (h : LogState made t text) : logText t = text := by
  rw [Services.logText]
  cases hn : logNode t with
  | none => exact (h.node.absent hn).symm
  | some n => exact (h.node.file n hn).bytes_eq

/-- The log of the services holds the texts whose append has succeeded, and the next append
is to go behind them. -/
structure LogHolds (y : Services × List (List UInt8)) : Prop where
  initialised : y.1.initialised = true
  state : LogState (y.2 ≠ []) y.1.vfs y.2.flatten
  offset_eq : y.1.logOffset = y.2.flatten.length
  fits : y.2.flatten.length ≤ tmpfsFileCapacity

variable {y : Services × List (List UInt8)}

/-- A call that touches neither the log nor the offset. -/
lemma LogHolds.setVfs (h : LogHolds y) (hstate : LogState (y.2 ≠ []) t y.2.flatten) :
    LogHolds ({ y.1 with vfs := t }, y.2) :=
  ⟨h.initialised, hstate, h.offset_eq, h.fits⟩

/-- An append in such a state. -/
lemma LogHolds.append_outcome (h : LogHolds y) (new : List UInt8) :
    AppendOutcome (y.2 ≠ []) y.1 y.2.flatten new (logServiceAppend y.1 (some new)) :=
  h.state.append h.initialised h.offset_eq h.fits new

/-- A null text is refused. -/
lemma logServiceAppend_null (x : Services) :
    logServiceAppend x none = (.error .badArgument, x) := by
  rw [logServiceAppend]
  simp

/-- The path of a proper key has no dot. -/
lemma dot_notMem_keyPath {ns : Namespace} {key : List UInt8} (h : safeName key = true) :
    (46 : UInt8) ∉ keyPath ns key := by
  have hkey : (46 : UInt8) ∉ key := fun hmem => absurd ((safeName_iff.mp h).2.1 46 hmem) (by decide)
  have hpath : (46 : UInt8) ∉ ns.path ++ [47] := by cases ns <;> decide
  rw [keyPath, mem_append, not_or]
  exact ⟨hpath, hkey⟩

/-- The settings and the device registry leave the log alone. -/
lemma LogState.registry (h : LogState made x.vfs text) (call : Call) :
    ∃ t, LogState made t text ∧ (Services.step x call).2 = { x with vfs := t } := by
  cases call with
  | set ns key value =>
    rw [Services.step, ns.set_eq, storeUnder]
    split
    · exact ⟨x.vfs, h, rfl⟩
    · cases key with
      | none => exact ⟨x.vfs, h, rfl⟩
      | some key =>
        rw [Option.map_some, makePath_eq]
        by_cases hsafe : safeName key.val = true
        · rw [if_pos hsafe]
          exact ⟨_, h.writeValue (q := keyString ns key hsafe) (dot_notMem_keyPath hsafe) _, rfl⟩
        · rw [if_neg hsafe]
          exact ⟨x.vfs, h, rfl⟩
  | get ns key buffer readOut capacity =>
    rw [Services.step, ns.get_eq, fetchUnder]
    split
    · exact ⟨x.vfs, h, rfl⟩
    · cases key with
      | none => exact ⟨x.vfs, h, rfl⟩
      | some key =>
        rw [Option.map_some, makePath_eq]
        by_cases hsafe : safeName key.val = true
        · rw [if_pos hsafe]
          exact ⟨_, h.readValue (keyString ns key hsafe) buffer readOut capacity, rfl⟩
        · rw [if_neg hsafe]
          exact ⟨x.vfs, h, rfl⟩

/-- **Every call that spares the log** keeps it the concatenation of what was appended. -/
lemma LogHolds.step (h : LogHolds y) {call : LogCall} (hspares : SparesLog y call) :
    LogHolds (appending y call).2 := by
  cases call with
  | append text =>
    cases text with
    | none =>
      rw [appending, logStep, Option.map_none, logServiceAppend_null]
      exact h
    | some new =>
      have hout := h.append_outcome new.val
      rw [appending, logStep, Option.map_some]
      generalize logServiceAppend y.1 (some new.val) = r at hout
      cases hout with
      | refused => exact h
      | full hstate hlong => exact h.setVfs hstate
      | appended hstate hfits =>
        have hflat : (y.2 ++ [new.val]).flatten = y.2.flatten ++ new.val := by simp
        have hlength := congrArg length hflat
        rw [length_append] at hlength
        refine ⟨h.initialised, ?_, hlength.symm, hlength ▸ hfits⟩
        change LogState _ _ (y.2 ++ [new.val]).flatten
        rw [hflat]
        exact ⟨hstate.linked, hstate.mount, hstate.route, hstate.node.mono fun _ => trivial⟩
  | read buffer readOut capacity =>
    rw [appending, logStep, logServiceRead, if_neg (by simp [h.initialised])]
    exact h.setVfs (h.state.readValue ⟨logPath, by decide⟩ buffer readOut capacity)
  | registry call =>
    obtain ⟨t, hstate, heq⟩ := h.state.registry call
    have := h.setVfs hstate
    rw [← heq] at this
    exact this
  | vfs call => exact h.setVfs (h.state.step hspares)

/-! ### The start -/

/-- Below `/var` after `storage_services_init`. -/
lemma initialVfs_route (t : Vfs FsName) :
    (initialVfs t).resolveMount logPath = some (mountVar, logName.val) := by
  have hm := mounted_initialVfs t
  have hvar : (initialVfs t).mounts mountVar = ⟨true, varPath, some .var⟩ := by simp [initialVfs]
  have hlist : finRange vfsMaxMounts =
      mountRoot :: mountVar :: (finRange vfsMaxMounts).drop 2 := by decide
  have hrest : ∀ i ∈ (finRange vfsMaxMounts).drop 2, ((initialVfs t).mounts i).used = false := by
    intro i hi
    refine hm.rest i ?_
    revert i
    decide
  have hfound : (initialVfs t).resolveMountFrom logPath none 0 (finRange vfsMaxMounts) =
      some mountVar := by
    have hroot : mountMatches rootPath logPath = true := by decide
    have hmatch : mountMatches varPath logPath = true := by decide
    rw [hlist, resolveMountFrom, hm.root]
    simp only [hroot, Bool.true_eq_false, or_self, if_false, true_or, if_true]
    rw [resolveMountFrom, hvar]
    simp only [hmatch, Bool.true_eq_false, or_self, if_false]
    rw [if_pos (.inr (by decide)), resolveMountFrom_unused hrest]
  rw [Vfs.resolveMount, hfound]
  dsimp only
  rw [hvar]
  decide

/-- Before the first append there is no log. -/
lemma logNode_tmpfsInit : LogNode False tmpfsInit [] := by
  have hnone : tmpfsInit.resolveNode logName = none := by decide +kernel
  refine ⟨tree_tmpfsInit, fun s hs => ?_, fun n hn => ?_, fun _ => rfl, False.elim⟩
  · cases hs
  · cases hnone.symm.trans hn

/-- After `storage_services_init` nothing has been appended. -/
lemma logHolds_initial {x₀ x₁ : Services} (hinit : storageServicesInit x₀ = (.ok (), x₁)) :
    LogHolds (x₁, []) := by
  rw [storageServicesInit_eq] at hinit
  obtain rfl : x₁ = ⟨initialVfs x₀.vfs, 0, true⟩ := (Prod.mk.inj hinit).2.symm
  refine ⟨rfl, ⟨linked_initialVfs _, by simp [initialVfs], initialVfs_route _, ?_⟩, rfl,
    Nat.zero_le _⟩
  have hcontext : (initialVfs x₀.vfs).contexts .var = tmpfsInit := by
    simp [initialVfs, rootMounted, start, vfsInit, Vfs.setContext]
  rw [hcontext]
  exact logNode_tmpfsInit.mono fun hne => hne rfl

/-- **The kernel log is the concatenation of the texts whose append has succeeded**, along
every run in which no call of the switch opens the log for writing, or puts a directory or
a mount in its place.  A read with enough room returns it, if there is a free handle and
the log is there; it is there once an append has succeeded.  An append that fails leaves
the log as it is, and one that would make it longer than a file fails with
`VFS_NO_SPACE`. -/
theorem log_is_concatenation (x₀ x₁ : Services) (hinit : storageServicesInit x₀ = (.ok (), x₁))
    (calls : List LogCall) (hspares : Runs.Legal appending SparesLog (x₁, []) calls) :
    let y := Runs.final appending (x₁, []) calls
    logText y.1.vfs = y.2.flatten ∧
    (∀ capacity, tmpfsFileCapacity ≤ capacity →
      (logServiceRead y.1 true true capacity).1 =
        if ∀ k, (y.1.vfs.handles k).used = true then .error .noSpace
        else if logNode y.1.vfs = none then .error .notFound
        else .ok y.2.flatten) ∧
    (y.2 ≠ [] → logNode y.1.vfs ≠ none) ∧
    (∀ text status, (logServiceAppend y.1 text).1 = .error status →
      logText (logServiceAppend y.1 text).2.vfs = y.2.flatten) ∧
    (∀ text : List UInt8, tmpfsFileCapacity < y.2.flatten.length + text.length →
      (logServiceAppend y.1 (some text)).1 = .error .noSpace) := by
  intro y
  have h : LogHolds y := Runs.legal_induction appending (fun _ _ h hs => h.step hs)
    (logHolds_initial hinit) hspares
  refine ⟨h.state.logText, fun capacity hcapacity => ?_, h.state.node.present,
    fun text status hfail => ?_, fun new hlong => ?_⟩
  · obtain ⟨hfull, hnone, hsome⟩ := h.state.read h.initialised (h.fits.trans hcapacity)
    split_ifs with hused habsent
    · exact hfull hused
    · exact hnone (by simpa using hused) habsent
    · exact hsome (by simpa using hused) habsent
  · cases text with
    | none =>
      rw [logServiceAppend_null]
      exact h.state.logText
    | some new =>
      have hout := h.append_outcome new
      generalize logServiceAppend y.1 (some new) = r at hout hfail
      cases hout with
      | refused => exact h.state.logText
      | full hstate hlong => exact hstate.logText
      | appended hstate hfits => cases hfail
  · have hout := h.append_outcome new
    generalize logServiceAppend y.1 (some new) = r at hout
    cases hout with
    | refused | full => rfl
    | appended hstate hfits => exact absurd hlong (Nat.not_lt.mpr hfits)

/-- Two texts that are appended and read back. -/
theorem log_is_concatenation_two :
    let x₁ : Services := ⟨initialVfs blankServices.vfs, 0, true⟩
    let a : CString := ⟨[97], by decide⟩
    let b : CString := ⟨[98, 99], by decide⟩
    let y := Runs.final appending (x₁, []) [.append (some a), .append (some b)]
    y.2.flatten = [97, 98, 99] ∧ logText y.1.vfs = y.2.flatten := by
  intro x₁ a b y
  have hflat : y.2.flatten = [97, 98, 99] := by decide +kernel
  exact ⟨hflat, (log_is_concatenation blankServices x₁ (storageServicesInit_eq blankServices)
    [.append (some a), .append (some b)] ⟨trivial, trivial, trivial⟩).1⟩

/-- A read before the first append does not find the log, and one after it fails while
every handle is open on the log for reading.  It also fails when a directory has been made in
the place of the log, or a file system mounted there. -/
theorem log_read_fails :
    let x₁ := (storageServicesInit blankServices).2
    let path : CString := ⟨logPath, by decide⟩
    let append := LogCall.append (some ⟨[97], by decide⟩)
    let opens := List.replicate vfsMaxHandles (LogCall.vfs (.open_ (some path) vfsOpenRead true))
    let y := Runs.final appending (x₁, []) (append :: opens)
    let made := Runs.final appending (x₁, [])
      [.vfs (.mkdir (some path) (vfsPermRead ||| vfsPermWrite)), append]
    let mounted := Runs.final appending (x₁, [])
      [append, .vfs (.mount (some path) (some .root) (some tmpfsOps))]
    (logServiceRead x₁ true true 2048).1 = .error .notFound ∧
      y.2 = [[97]] ∧ (logServiceRead y.1 true true 2048).1 = .error .noSpace ∧
      made.2 = [] ∧ (logServiceRead made.1 true true 2048).1 = .error .isDirectory ∧
      mounted.2 = [[97]] ∧ (logServiceRead mounted.1 true true 2048).1 = .error .isDirectory := by
  decide +kernel

end Services

end JoshOS
