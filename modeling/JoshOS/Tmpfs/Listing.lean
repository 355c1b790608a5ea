import JoshOS.Tmpfs.Tree

/-!
What `op_list` shows of a directory, now and later.

* `Grown`: operations only add nodes, so that `Grown.children` finds the children of a
  directory in front of those it has later.
* `tmpfs_listing`: a listing is complete, without duplicates and stable.
-/

namespace JoshOS

open List Slots

namespace Tmpfs

variable {fs fs' fs'' : Tmpfs} {path : List UInt8} {q : CString} {directory i : NodeIndex}
  {index : ℕ} {call : Call}

/-! ### The children of a directory -/

/-- The test that `op_list` makes. -/
def childOf (fs : Tmpfs) (directory i : NodeIndex) : Bool :=
  (fs.nodes i).used ∧ (fs.nodes i).parent = directory

/-- The children of a directory, in the order of their nodes. -/
def children (fs : Tmpfs) (directory : NodeIndex) : List NodeIndex :=
  (List.finRange tmpfsMaxNodes).tail.filter (fs.childOf directory)

/-- What `op_list` tells of a node. -/
def dirent (fs : Tmpfs) (i : NodeIndex) : VfsDirent :=
  ⟨(fs.nodes i).name, (fs.nodes i).type, (fs.nodes i).permissions, (fs.nodes i).size⟩

lemma sorted_tail : (finRange tmpfsMaxNodes).tail.Pairwise (· < ·) :=
  (pairwise_lt_finRange _).sublist (tail_sublist _)

/-- The scan leaves out the root. -/
lemma mem_scan : i ∈ (finRange tmpfsMaxNodes).tail ↔ i ≠ rootNode :=
  mem_tail_finRange (n := 31)

/-- The children are the nodes with a name in the directory. -/
lemma mem_children : i ∈ fs.children directory ↔ IsChild fs directory (fs.nodes i).name i := by
  rw [children, mem_filter, mem_scan, childOf, decide_eq_true_iff]
  constructor
  · rintro ⟨hroot, hused, hparent⟩
    exact ⟨hroot, hused, hparent, rfl⟩
  · rintro ⟨hroot, hused, hparent, -⟩
    exact ⟨hroot, hused, hparent⟩

lemma nodup_children : (fs.children directory).Nodup :=
  (sorted_tail.imp fun h => h.ne).filter _

/-- The children of a directory have different names. -/
lemma Tree.nodup_names (h : Tree fs) :
    ((fs.children directory).map fun i => (fs.nodes i).name).Nodup := by
  refine List.Nodup.map_on (fun i hi j hj hname => ?_) nodup_children
  exact (mem_children.mp hi).unique h (hname ▸ mem_children.mp hj)

/-- **The loop of `op_list`** finds the child with a given number: `seen` of them have been
passed over. -/
lemma listFrom_eq {is : List NodeIndex} {seen : ℕ} (hseen : seen ≤ index) :
    fs.listFrom directory index seen is = (is.filter (fs.childOf directory))[index - seen]? := by
  induction is generalizing seen with
  | nil => rfl
  | cons i is ih =>
    rw [listFrom]
    by_cases hchild : fs.childOf directory i = true
    · rw [filter_cons_of_pos hchild]
      rw [childOf, decide_eq_true_iff] at hchild
      rw [if_neg (by simp [hchild.1, hchild.2])]
      by_cases heq : seen = index
      · rw [if_neg (not_not.mpr heq), heq, Nat.sub_self]
        rfl
      · have hnext : index - seen = index - (seen + 1) + 1 := by omega
        rw [if_pos heq, ih (by omega), hnext, getElem?_cons_succ]
    · rw [filter_cons_of_neg hchild]
      rw [childOf, decide_eq_true_iff, not_and_or, Bool.not_eq_true] at hchild
      rw [if_pos hchild]
      exact ih hseen

/-- The path leads to a directory. -/
structure Leads (fs : Tmpfs) (q : CString) (directory : NodeIndex) : Prop where
  resolved : fs.resolveNode q = some directory
  type_eq : (fs.nodes directory).type = .directory

/-- **`op_list`** on a directory. -/
lemma Leads.opList (h : Leads fs q directory) (index : ℕ) :
    fs.opList q index =
      ((fs.children directory)[index]?.map fs.dirent).elim (.error .notFound) .ok := by
  have hlist : fs.listFrom directory index 0 (finRange tmpfsMaxNodes).tail =
      (fs.children directory)[index]? := listFrom_eq (Nat.zero_le index)
  rw [Tmpfs.opList, h.resolved]
  dsimp only
  rw [if_neg (not_not.mpr h.type_eq), hlist]
  cases (fs.children directory)[index]? with
  | none | some => rfl

/-! ### Later states -/

/-- Nodes in use have stayed in use, with their names and types and in their directories. -/
structure Grown (fs fs' : Tmpfs) : Prop where
  used : ∀ i, (fs.nodes i).used = true → (fs'.nodes i).used = true
  parent : ∀ i, (fs.nodes i).used = true → (fs'.nodes i).parent = (fs.nodes i).parent
  type : ∀ i, (fs.nodes i).used = true → (fs'.nodes i).type = (fs.nodes i).type
  name : ∀ i, (fs.nodes i).used = true → (fs'.nodes i).name = (fs.nodes i).name

namespace Grown

lemma refl (fs : Tmpfs) : Grown fs fs :=
  ⟨fun _ h => h, fun _ _ => rfl, fun _ _ => rfl, fun _ _ => rfl⟩

lemma trans (h : Grown fs fs') (h' : Grown fs' fs'') : Grown fs fs'' where
  used i hi := h'.used i (h.used i hi)
  parent i hi := (h'.parent i (h.used i hi)).trans (h.parent i hi)
  type i hi := (h'.type i (h.used i hi)).trans (h.type i hi)
  name i hi := (h'.name i (h.used i hi)).trans (h.name i hi)

lemma of_sameShape (h : SameShape fs fs') : Grown fs fs' :=
  ⟨fun i hi => (h.used i).trans hi, fun i _ => h.parent i, fun i _ => h.type i,
    fun i _ => h.name i⟩

/-- A node that was not in use may become any other. -/
lemma setNode {node : TmpfsNode} (hunused : (fs.nodes i).used = false) :
    Grown fs (fs.setNode i node) := by
  have hother : ∀ j, (fs.nodes j).used = true → (fs.setNode i node).nodes j = fs.nodes j := by
    intro j hj
    refine setNode_of_ne fun heq => ?_
    rw [heq, hunused] at hj
    cases hj
  exact ⟨fun j hj => (hother j hj).symm ▸ hj, fun j hj => by rw [hother j hj],
    fun j hj => by rw [hother j hj], fun j hj => by rw [hother j hj]⟩

/-- **No operation takes a node away.** -/
lemma step (fs : Tmpfs) (call : Call) : Grown fs (step fs call).2 := by
  cases step_change fs call with
  | same hs => exact of_sameShape hs
  | create hc hs => exact (setNode hc.unused).trans (of_sameShape hs)

/-- **No run takes a node away.** -/
lemma run (fs : Tmpfs) (calls : List Call) : Grown fs (Runs.final Tmpfs.step fs calls) :=
  Runs.final_induction Tmpfs.step (fun fs' call h => h.trans (step fs' call)) (refl fs) calls

lemma isChild {name : List UInt8} (h : Grown fs fs') (hi : IsChild fs directory name i) :
    IsChild fs' directory name i :=
  ⟨hi.ne_root, h.used i hi.used, (h.parent i hi.used).trans hi.parent_eq,
    (h.name i hi.used).trans hi.name_eq⟩

/-- A path that leads to a node leads there later on. -/
lemma resolveNode (h : Grown fs fs') (ht : Tree fs) (ht' : Tree fs')
    (hq : fs.resolveNode q = some i) : fs'.resolveNode q = some i := by
  obtain ⟨cs, hcs, hw⟩ := (resolveNode_eq_some ht q.2).mp hq
  exact (resolveNode_eq_some ht' q.2).mpr ⟨cs, hcs, hw.mono fun _ _ _ => h.isChild⟩

lemma leads (h : Grown fs fs') (ht : Tree fs) (ht' : Tree fs') (hq : Leads fs q directory) :
    Leads fs' q directory := by
  refine ⟨h.resolveNode ht ht' hq.resolved, ?_⟩
  rw [h.type directory (ht.used_of_resolveNode hq.resolved)]
  exact hq.type_eq

/-- **New children come behind the old ones**, since the first free node is taken and none is
given back. -/
lemma children (h : Grown fs fs') (ht : Tree fs) :
    fs.children directory <+: fs'.children directory := by
  refine filter_grows sorted_tail (fun i hi => ?_) fun i j hi hj hnew => ?_
  · rw [childOf, decide_eq_true_iff] at hi ⊢
    exact ⟨h.used i hi.1, (h.parent i hi.1).trans hi.2⟩
  · rw [childOf, decide_eq_true_iff] at hi hj
    rw [childOf, decide_eq_false_iff_not] at hnew
    have hunused : ¬ (fs.nodes j).used = true := fun hj' =>
      hnew ⟨hj', (h.parent j hj').symm.trans hj.2⟩
    by_contra hle
    rcases (not_lt.mp hle).eq_or_lt with rfl | hlt
    · exact hunused hi.1
    · exact hunused (ht.filled i j hlt hi.1)

/-- **An entry that was listed stays** where it was, with its name and its type. -/
lemma opList (h : Grown fs fs') (ht : Tree fs) (ht' : Tree fs') (hq : Leads fs q directory)
    {entry : VfsDirent} (hentry : fs.opList q index = .ok entry) :
    ∃ entry', fs'.opList q index = .ok entry' ∧ entry'.name = entry.name ∧
      entry'.type = entry.type := by
  rw [hq.opList] at hentry
  cases hchild : (fs.children directory)[index]? with
  | none =>
    rw [hchild] at hentry
    cases hentry
  | some i =>
    rw [hchild] at hentry
    obtain rfl : fs.dirent i = entry := Except.ok.inj hentry
    have hused := (mem_children.mp (mem_of_getElem? hchild)).used
    have hlater : (fs'.children directory)[index]? = some i := by
      obtain ⟨hlt, rfl⟩ := List.getElem?_eq_some_iff.mp hchild
      exact prefix_iff_getElem?.mp (h.children ht) index hlt
    rw [(h.leads ht ht' hq).opList, hlater]
    exact ⟨_, rfl, h.name i hused, h.type i hused⟩

end Grown

/-! ### Iterations -/

/-- The state when index `n` is asked for, with other operations before each index. -/
def between (fs : Tmpfs) (gaps : ℕ → List Call) (n : ℕ) : Tmpfs :=
  Runs.final step fs ((List.range n).flatMap gaps)

/-- Later in an iteration there have been more operations. -/
lemma grown_between (fs : Tmpfs) (gaps : ℕ → List Call) {m n : ℕ} (h : m ≤ n) :
    Grown (fs.between gaps m) (fs.between gaps n) := by
  obtain ⟨k, rfl⟩ := Nat.exists_eq_add_of_le h
  rw [between, between, range_add, flatMap_append, Runs.final_append]
  exact .run _ _

/-- A directory is listed up to the number of its children. -/
lemma Leads.opList_ok (h : Leads fs q directory) {entry : VfsDirent}
    (hentry : fs.opList q index = .ok entry) :
    ∃ i, (fs.children directory)[index]? = some i ∧ entry = fs.dirent i := by
  rw [h.opList] at hentry
  cases hchild : (fs.children directory)[index]? with
  | none =>
    rw [hchild] at hentry
    cases hentry
  | some i =>
    rw [hchild] at hentry
    exact ⟨i, rfl, (Except.ok.inj hentry).symm⟩

/-- **No entry is repeated** in one state. -/
lemma Leads.opList_names_ne (h : Leads fs q directory) (ht : Tree fs) {m n : ℕ}
    {first second : VfsDirent} (hfirst : fs.opList q m = .ok first)
    (hsecond : fs.opList q n = .ok second) (hne : m ≠ n) : first.name ≠ second.name := by
  obtain ⟨i, hi, rfl⟩ := h.opList_ok hfirst
  obtain ⟨j, hj, rfl⟩ := h.opList_ok hsecond
  intro hname
  have hboth : ((fs.children directory).map fun i => (fs.nodes i).name)[m]? =
      ((fs.children directory).map fun i => (fs.nodes i).name)[n]? := by
    rw [getElem?_map, getElem?_map, hi, hj]
    exact congrArg some hname
  have hlt : m < ((fs.children directory).map fun i => (fs.nodes i).name).length := by
    rw [length_map]
    exact (List.getElem?_eq_some_iff.mp hi).1
  exact hne ((getElem?_inj hlt ht.nodup_names).mp hboth)

section Iteration

variable (ht : Tree fs) (hq : Leads fs q directory) (gaps : ℕ → List Call)

include ht hq

lemma Leads.between (n : ℕ) : Leads (fs.between gaps n) q directory :=
  (Grown.run fs _).leads ht (ht.run _) hq

/-- **No entry is repeated** by an iteration. -/
lemma Leads.iteration_names_ne {m n : ℕ} {first second : VfsDirent} (hlt : m < n)
    (hfirst : (fs.between gaps m).opList q m = .ok first)
    (hsecond : (fs.between gaps n).opList q n = .ok second) : first.name ≠ second.name := by
  obtain ⟨entry, hentry, hname, -⟩ := (grown_between fs gaps hlt.le).opList (ht.run _) (ht.run _)
    (hq.between ht gaps m) hfirst
  rw [← hname]
  exact (hq.between ht gaps n).opList_names_ne (ht.run _) hentry hsecond hlt.ne

/-- **No entry is skipped** by an iteration that has come to its end. -/
lemma Leads.iteration_complete {m : ℕ} {name : List UInt8}
    (hend : (fs.between gaps m).opList q m = .error .notFound)
    (hlisted : ∀ n < m, ∃ entry, (fs.between gaps n).opList q n = .ok entry)
    (hi : IsChild (fs.between gaps m) directory name i) :
    ∃ n < m, ∃ entry, (fs.between gaps n).opList q n = .ok entry ∧ entry.name = name ∧
      entry.type = ((fs.between gaps m).nodes i).type := by
  have hmem : i ∈ (fs.between gaps m).children directory := mem_children.mpr (hi.name_eq.symm ▸ hi)
  obtain ⟨n, hn⟩ := mem_iff_getElem?.mp hmem
  have hlt : n < m := by
    by_contra hle
    have hshown := (hq.between ht gaps m).opList m
    have hm : m < ((fs.between gaps m).children directory).length :=
      (Nat.not_lt.mp hle).trans_lt (List.getElem?_eq_some_iff.mp hn).1
    rw [hend, getElem?_eq_getElem hm] at hshown
    cases hshown
  obtain ⟨entry, hentry⟩ := hlisted n hlt
  obtain ⟨later, hlater, hname, htype⟩ := (grown_between fs gaps hlt.le).opList (ht.run _)
    (ht.run _) (hq.between ht gaps n) hentry
  rw [(hq.between ht gaps m).opList, hn] at hlater
  obtain rfl : (fs.between gaps m).dirent i = later := Except.ok.inj hlater
  exact ⟨n, hlt, entry, hentry, hname.symm.trans hi.name_eq, htype.symm⟩

end Iteration

/-- **Listings are complete, without duplicates and stable.**  In every state reached from
`tmpfs_init` and for every path that leads to a directory: the directory has its children,
as many as it has, with different names; `op_list` tells of each of them at an index of its
own, and answers `VFS_NOT_FOUND` from their number on; and after any further operations an
index that was answered with `VFS_OK` is answered with the same name and type.  An iteration
with any operations between its calls shows no name twice, and when it has come to its end it
has shown all the children. -/
theorem tmpfs_listing (calls : List Call) (q : CString) (directory : NodeIndex)
    (hq : (Runs.final step tmpfsInit calls).resolveNode q = some directory)
    (htype : ((Runs.final step tmpfsInit calls).nodes directory).type = .directory) :
    let fs := Runs.final step tmpfsInit calls
    (∃ listed : List NodeIndex, listed.Nodup ∧
      (∀ i, i ∈ listed ↔ ∃ name, IsChild fs directory name i) ∧
      (listed.map fun i => (fs.nodes i).name).Nodup ∧
      (∀ index (h : index < listed.length), fs.opList q index =
        .ok ⟨(fs.nodes listed[index]).name, (fs.nodes listed[index]).type,
          (fs.nodes listed[index]).permissions, (fs.nodes listed[index]).size⟩) ∧
      ∀ index, listed.length ≤ index → fs.opList q index = .error .notFound) ∧
    (∀ (later : List Call) (index : ℕ) (entry : VfsDirent), fs.opList q index = .ok entry →
      ∃ entry', (Runs.final step fs later).opList q index = .ok entry' ∧
        entry'.name = entry.name ∧ entry'.type = entry.type) ∧
    ∀ gaps : ℕ → List Call,
      (∀ m n first second, m < n → (fs.between gaps m).opList q m = .ok first →
        (fs.between gaps n).opList q n = .ok second → first.name ≠ second.name) ∧
      ∀ m, (fs.between gaps m).opList q m = .error .notFound →
        (∀ n < m, ∃ entry, (fs.between gaps n).opList q n = .ok entry) →
        ∀ i name, IsChild (fs.between gaps m) directory name i →
          ∃ n < m, ∃ entry, (fs.between gaps n).opList q n = .ok entry ∧ entry.name = name ∧
            entry.type = ((fs.between gaps m).nodes i).type := by
  intro fs
  have ht : Tree fs := tree_run calls
  have hleads : Leads fs q directory := ⟨hq, htype⟩
  refine ⟨⟨fs.children directory, nodup_children, fun i => ?_, ht.nodup_names, fun index h => ?_,
    fun index h => ?_⟩, fun later index entry hentry => ?_, fun gaps => ⟨?_, ?_⟩⟩
  · refine mem_children.trans ⟨fun h => ⟨_, h⟩, ?_⟩
    rintro ⟨name, h⟩
    exact h.name_eq.symm ▸ h
  · rw [hleads.opList, List.getElem?_eq_getElem h]
    rfl
  · rw [hleads.opList, List.getElem?_eq_none h]
    rfl
  · exact (Grown.run fs later).opList ht (ht.run later) hleads hentry
  · exact fun m n first second hlt hfirst hsecond =>
      hleads.iteration_names_ne ht gaps hlt hfirst hsecond
  · exact fun m hend hlisted i name hi => hleads.iteration_complete ht gaps hend hlisted hi

/-- The directory `/a` stays the first entry of the root, whatever is done later. -/
theorem tmpfs_listing_root :
    let made : Call := .mkdir ⟨[47, 97], by decide⟩ 3
    let root : CString := ⟨[47], by decide⟩
    (step tmpfsInit made).2.opList root 0 = .ok ⟨[97], .directory, 3, 0⟩ ∧
      ∀ later, ∃ entry, (Runs.final step (step tmpfsInit made).2 later).opList root 0 = .ok entry ∧
        entry.name = [97] ∧ entry.type = .directory := by
  intro made root
  have hshown : (step tmpfsInit made).2.opList root 0 = .ok ⟨[97], .directory, 3, 0⟩ := by
    decide +kernel
  have hlisting := tmpfs_listing [made] root rootNode rfl (tree_run [made]).root_type
  exact ⟨hshown, fun later => hlisting.2.1 later 0 _ hshown⟩

end Tmpfs

end JoshOS
