import JoshOS.Tmpfs.Model

/-!
Paths and the tree they name.

* `Tree`: the nodes in use are a tree whose names are proper.
* `Walk`: following names from a node down.
-/

namespace JoshOS

open List Slots

namespace Tmpfs

/-- A proper component of a path. -/
structure Component (name : List UInt8) : Prop where
  ne_nil : name ≠ []
  length_le : name.length ≤ vfsNameMax
  no_slash : slash ∉ name
  no_zero : (0 : UInt8) ∉ name

/-- The nodes in use form a tree: they are the first ones of the table, every node but
the root has a directory before it as its parent, and siblings have different names. -/
structure Tree (fs : Tmpfs) : Prop where
  root_used : (fs.nodes rootNode).used = true
  root_type : (fs.nodes rootNode).type = .directory
  filled : ∀ i j, j < i → (fs.nodes i).used = true → (fs.nodes j).used = true
  parent_lt : ∀ i, i ≠ rootNode → (fs.nodes i).used = true → (fs.nodes i).parent < i
  parent_used : ∀ i, i ≠ rootNode → (fs.nodes i).used = true →
    (fs.nodes (fs.nodes i).parent).used = true
  parent_type : ∀ i, i ≠ rootNode → (fs.nodes i).used = true →
    (fs.nodes (fs.nodes i).parent).type = .directory
  name : ∀ i, i ≠ rootNode → (fs.nodes i).used = true → Component (fs.nodes i).name
  sibling : ∀ i j, i ≠ rootNode → j ≠ rootNode → (fs.nodes i).used = true →
    (fs.nodes j).used = true → (fs.nodes i).parent = (fs.nodes j).parent →
    (fs.nodes i).name = (fs.nodes j).name → i = j

/-- Node `i` is the child of `parent` with the name `name`. -/
structure IsChild (fs : Tmpfs) (parent : NodeIndex) (name : List UInt8) (i : NodeIndex) :
    Prop where
  ne_root : i ≠ rootNode
  used : (fs.nodes i).used = true
  parent_eq : (fs.nodes i).parent = parent
  name_eq : (fs.nodes i).name = name

/-- Following the names `cs` from `start` down leads to `n`. -/
inductive Walk (fs : Tmpfs) (start : NodeIndex) : List (List UInt8) → NodeIndex → Prop
  | nil : Walk fs start [] start
  | snoc {cs : List (List UInt8)} {c : List UInt8} {p n : NodeIndex} (h : Walk fs start cs p)
      (hc : IsChild fs p c n) : Walk fs start (cs ++ [c]) n

/-- The components, each with a slash before it. -/
def join (cs : List (List UInt8)) : List UInt8 := cs.flatMap (slash :: ·)

/-- The path with the components `cs`. -/
def pathOf (cs : List (List UInt8)) : List UInt8 := if cs = [] then [slash] else join cs

variable {fs fs' : Tmpfs} {a b c path name rest : List UInt8} {cs ds : List (List UInt8)}
  {i j n m p start : NodeIndex} {length : ℕ}

@[simp] lemma join_nil : join [] = [] := rfl

@[simp] lemma join_cons : join (c :: cs) = slash :: (c ++ join cs) := rfl

@[simp] lemma join_append : join (cs ++ ds) = join cs ++ join ds := by
  simp [join]

@[simp] lemma pathOf_cons : pathOf (c :: cs) = join (c :: cs) := by simp [pathOf]

lemma pathOf_concat : pathOf (cs ++ [c]) = join cs ++ slash :: c := by simp [pathOf]

/-! ### Names -/

/-- Past its end a list reads as zero, and only there when it holds no zero. -/
lemma getD_eq_zero (ha : (0 : UInt8) ∉ a) {k : ℕ} : a.getD k 0 = 0 ↔ a.length ≤ k := by
  constructor
  · intro h
    by_contra hlt
    rw [not_le] at hlt
    rw [getD_eq_getElem _ _ hlt] at h
    exact ha (h ▸ getElem_mem hlt)
  · exact fun h => getD_eq_default _ _ h

/-- `name_equal` compares a name with the first bytes of a string. -/
lemma nameEqual_iff (ha : (0 : UInt8) ∉ a) (hb : (0 : UInt8) ∉ b) (hlen : length ≤ b.length) :
    nameEqual a b length = true ↔ a = b.take length := by
  rw [nameEqual, decide_eq_true_eq]
  constructor
  · rintro ⟨heq, hend⟩
    have hle := (getD_eq_zero ha).mp hend
    have hge : length ≤ a.length := by
      by_contra hlt
      rw [not_le] at hlt
      have hzero := (heq a.length hlt).symm.trans ((getD_eq_zero ha).mpr (le_refl _))
      have := (getD_eq_zero hb).mp hzero
      omega
    refine ext_getElem (by rw [length_take]; omega) fun k hk hk' => ?_
    have := heq k (by omega)
    rw [getD_eq_getElem _ _ hk, getD_eq_getElem _ _ (by omega)] at this
    rw [this, getElem_take]
  · rintro rfl
    refine ⟨fun k hk => ?_, ?_⟩
    · rw [getD_eq_getElem _ _ (by rw [length_take]; omega),
        getD_eq_getElem _ _ (by omega), getElem_take]
    · exact getD_eq_default _ _ (by rw [length_take]; omega)

/-! ### Children -/

/-- A child is the only one with its name. -/
lemma IsChild.unique (h : Tree fs) (hi : IsChild fs p c i) (hj : IsChild fs p c j) : i = j :=
  h.sibling i j hi.ne_root hj.ne_root hi.used hj.used (hi.parent_eq.trans hj.parent_eq.symm)
    (hi.name_eq.trans hj.name_eq.symm)

lemma IsChild.component (h : Tree fs) (hi : IsChild fs p c i) : Component c :=
  hi.name_eq ▸ h.name i hi.ne_root hi.used

lemma IsChild.directory (h : Tree fs) (hi : IsChild fs p c i) : (fs.nodes p).type = .directory :=
  hi.parent_eq ▸ h.parent_type i hi.ne_root hi.used

lemma one_le_iff : 1 ≤ i.val ↔ i ≠ rootNode := by
  have hroot : rootNode.val = 0 := rfl
  rw [ne_eq, Fin.ext_iff, hroot]
  omega

/-- The test of `child_named`. -/
lemma childTest_iff (h : Tree fs) (hb : (0 : UInt8) ∉ b) (hlen : length ≤ b.length) :
    (1 ≤ i.val ∧ (fs.nodes i).used = true ∧ (fs.nodes i).parent = p ∧
      nameEqual (fs.nodes i).name b length = true) ↔ IsChild fs p (b.take length) i := by
  constructor
  · rintro ⟨hne, hu, hp, heq⟩
    have hroot := one_le_iff.mp hne
    exact ⟨hroot, hu, hp, (nameEqual_iff (h.name i hroot hu).no_zero hb hlen).mp heq⟩
  · rintro ⟨hroot, hu, hp, heq⟩
    exact ⟨one_le_iff.mpr hroot, hu, hp,
      (nameEqual_iff (h.name i hroot hu).no_zero hb hlen).mpr heq⟩

/-- `child_named` finds the child. -/
lemma childNamed_eq_some (h : Tree fs) (hb : (0 : UInt8) ∉ b) (hlen : length ≤ b.length) :
    fs.childNamed p b length = some i ↔ IsChild fs p (b.take length) i := by
  constructor
  · intro hfind
    have := firstSlot_some hfind
    rw [decide_eq_true_eq] at this
    exact (childTest_iff h hb hlen).mp this
  · intro hi
    refine firstSlot_eq_some (fun j hj => ?_) ?_
    · rw [decide_eq_true_eq] at hj
      exact ((childTest_iff h hb hlen).mp hj).unique h hi
    · rw [decide_eq_true_eq]
      exact (childTest_iff h hb hlen).mpr hi

lemma childNamed_eq_none (h : Tree fs) (hb : (0 : UInt8) ∉ b) (hlen : length ≤ b.length) :
    fs.childNamed p b length = none ↔ ∀ i, ¬ IsChild fs p (b.take length) i := by
  rw [Option.eq_none_iff_forall_ne_some]
  exact forall_congr' fun i => not_congr (childNamed_eq_some h hb hlen)

/-! ### Walks -/

lemma walk_nil : Walk fs start [] n ↔ n = start := by
  constructor
  · intro h
    generalize hcs : ([] : List (List UInt8)) = cs at h
    cases h with
    | nil => rfl
    | snoc => simp at hcs
  · rintro rfl
    exact .nil

/-- A walk by its last step. -/
lemma walk_concat :
    Walk fs start (cs ++ [c]) n ↔ ∃ p, Walk fs start cs p ∧ IsChild fs p c n := by
  constructor
  · intro h
    generalize hds : cs ++ [c] = ds at h
    cases h with
    | nil => simp at hds
    | snoc h hi =>
      obtain ⟨rfl, hlast⟩ := append_inj' hds rfl
      obtain rfl := singleton_inj.mp hlast
      exact ⟨_, h, hi⟩
  · rintro ⟨p, hw, hi⟩
    exact hw.snoc hi

/-- A walk by its first step. -/
lemma walk_cons : Walk fs start (c :: cs) n ↔ ∃ m, IsChild fs start c m ∧ Walk fs m cs n := by
  constructor
  · intro h
    generalize hds : c :: cs = ds at h
    induction h generalizing cs with
    | nil => simp at hds
    | @snoc es e p n h he ih =>
      cases es with
      | nil =>
        simp only [nil_append, cons.injEq] at hds
        obtain ⟨rfl, rfl⟩ := hds
        rw [walk_nil] at h
        exact ⟨n, h ▸ he, .nil⟩
      | cons d es =>
        simp only [cons_append, cons.injEq] at hds
        obtain ⟨rfl, rfl⟩ := hds
        obtain ⟨m, hm, hw⟩ := ih rfl
        exact ⟨m, hm, hw.snoc he⟩
  · rintro ⟨m, hm, hw⟩
    induction hw with
    | nil => exact (Walk.nil : Walk fs start [] start).snoc hm
    | snoc h he ih => exact ih.snoc he

/-- A node has one path. -/
lemma Walk.unique (hc : Walk fs rootNode cs n) (hd : Walk fs rootNode ds n) : cs = ds := by
  induction hc generalizing ds with
  | nil =>
    cases hd with
    | nil => rfl
    | snoc h hi => exact absurd rfl hi.ne_root
  | snoc h hi ih =>
    cases hd with
    | nil => exact absurd rfl hi.ne_root
    | snoc h' hi' =>
      obtain rfl := hi.parent_eq.symm.trans hi'.parent_eq
      rw [ih h', hi.name_eq.symm.trans hi'.name_eq]

/-- A path leads to one node. -/
lemma Walk.functional (h : Tree fs) (hn : Walk fs start cs n) (hm : Walk fs start cs m) :
    n = m := by
  induction cs generalizing start with
  | nil => rw [walk_nil.mp hn, walk_nil.mp hm]
  | cons c cs ih =>
    obtain ⟨n', hn', hn⟩ := walk_cons.mp hn
    obtain ⟨m', hm', hm⟩ := walk_cons.mp hm
    obtain rfl := hn'.unique h hm'
    exact ih hn hm

lemma Walk.components (h : Tree fs) (hw : Walk fs start cs n) : ∀ c ∈ cs, Component c := by
  induction hw with
  | nil => simp
  | snoc _ hi ih =>
    intro c hc
    rcases mem_append.mp hc with hc | hc
    · exact ih c hc
    · rw [mem_singleton.mp hc]
      exact hi.component h

/-- Every node in use has a path. -/
lemma Tree.exists_walk (h : Tree fs) (n : NodeIndex) (hn : (fs.nodes n).used = true) :
    ∃ cs, Walk fs rootNode cs n := by
  induction n using WellFoundedLT.induction with
  | ind n ih =>
    by_cases hroot : n = rootNode
    · exact ⟨[], hroot ▸ .nil⟩
    · obtain ⟨cs, hcs⟩ := ih _ (h.parent_lt n hroot hn) (h.parent_used n hroot hn)
      exact ⟨_, hcs.snoc ⟨hroot, hn, rfl, rfl⟩⟩

lemma Walk.used (h : Tree fs) (hw : Walk fs rootNode cs n) : (fs.nodes n).used = true := by
  cases hw with
  | nil => exact h.root_used
  | snoc _ hi => exact hi.used

/-! ### Splitting paths -/

/-- What follows a component starts with a slash, if it is not empty. -/
lemma takeWhile_append_join (hc : slash ∉ c) : (c ++ join cs).takeWhile (· ≠ slash) = c := by
  rw [takeWhile_append_of_pos fun x hx => by simpa using fun h : x = slash => hc (h ▸ hx)]
  cases cs with
  | nil | cons => simp

/-- Components can be read off a path. -/
lemma join_injective (hcs : ∀ c ∈ cs, slash ∉ c) (hds : ∀ d ∈ ds, slash ∉ d)
    (h : join cs = join ds) : cs = ds := by
  induction cs generalizing ds with
  | nil =>
    cases ds with
    | nil => rfl
    | cons d ds => simp at h
  | cons c cs ih =>
    cases ds with
    | nil => simp at h
    | cons d ds =>
      rw [forall_mem_cons] at hcs hds
      rw [join_cons, join_cons, cons_inj_right] at h
      have hhead : c = d := by
        calc c = (c ++ join cs).takeWhile (· ≠ slash) := (takeWhile_append_join hcs.1).symm
          _ = (d ++ join ds).takeWhile (· ≠ slash) := by rw [h]
          _ = d := takeWhile_append_join hds.1
      subst hhead
      rw [ih hcs.2 hds.2 (append_cancel_left h)]

/-- A path has one list of proper components. -/
lemma pathOf_injective (hcs : ∀ c ∈ cs, Component c) (hds : ∀ d ∈ ds, Component d)
    (h : pathOf cs = pathOf ds) : cs = ds := by
  have hlength {es : List (List UInt8)} (hes : ∀ e ∈ es, Component e)
      (heq : [slash] = pathOf es) : es = [] := by
    cases es with
    | nil => rfl
    | cons e es =>
      have := (hes e mem_cons_self).ne_nil
      simp [this] at heq
  cases cs with
  | nil => exact (hlength hds h).symm
  | cons c cs =>
    cases ds with
    | nil => exact hlength hcs h.symm
    | cons d ds =>
      rw [pathOf_cons, pathOf_cons] at h
      exact join_injective (fun c hc => (hcs c hc).no_slash) (fun d hd => (hds d hd).no_slash) h

/-- The first component of a path, and the rest. -/
lemma take_takeWhile : rest.take (rest.takeWhile (· ≠ slash)).length =
    rest.takeWhile (· ≠ slash) :=
  (prefix_iff_eq_take.mp ( takeWhile_prefix _)).symm

/-- What is left after the first component starts with a slash. -/
lemma drop_takeWhile {x : UInt8} {tail : List UInt8}
    (h : rest.drop (rest.takeWhile (· ≠ slash)).length = x :: tail) : x = slash := by
  induction rest with
  | nil => simp at h
  | cons y ys ih =>
    by_cases hy : y = slash
    · rw [takeWhile_cons_of_neg (by simpa using hy)] at h
      exact (cons.inj h).1.symm.trans hy
    · rw [takeWhile_cons_of_pos (by simpa using hy)] at h
      exact ih h

/-! ### `resolve_node` -/

/-- The loop of `resolve_node` follows the components that are left. -/
lemma resolveFrom_eq_some (h : Tree fs) {fuel : ℕ} {current : NodeIndex}
    (hrest : (0 : UInt8) ∉ rest) (hfuel : rest.length < fuel) :
    fs.resolveFrom fuel current rest = some n ↔
      ∃ c cs, rest = c ++ join cs ∧ Walk fs current (c :: cs) n := by
  induction fuel generalizing current rest with
  | zero => omega
  | succ fuel ih =>
    constructor
    · intro hres
      rw [resolveFrom] at hres
      split_ifs at hres with hlen
      split at hres
      · cases hres
      · rename_i child hchild
        rw [childNamed_eq_some h hrest ( takeWhile_prefix _).length_le,
          take_takeWhile] at hchild
        have hsplit := take_append_drop (rest.takeWhile (· ≠ slash)).length rest
        rw [take_takeWhile] at hsplit
        split at hres
        · rename_i hdrop
          rw [hdrop, append_nil] at hsplit
          obtain rfl := Option.some.inj hres
          exact ⟨_, [], by rw [join_nil, append_nil, hsplit],
            walk_cons.mpr ⟨_, hchild, .nil⟩⟩
        · rename_i x tail hdrop
          split_ifs at hres with hdir hnil
          obtain rfl := drop_takeWhile hdrop
          rw [hdrop] at hsplit
          have hmem : (0 : UInt8) ∉ tail := fun h0 => hrest (hsplit ▸ by simp [h0])
          have hlength := congrArg length hsplit
          rw [length_append, length_cons] at hlength
          obtain ⟨d, ds, rfl, hw⟩ := (ih hmem (by omega)).mp hres
          exact ⟨_, d :: ds, by rw [join_cons, hsplit], walk_cons.mpr ⟨_, hchild, hw⟩⟩
    · rintro ⟨c, cs, rfl, hw⟩
      obtain ⟨m, hm, hw⟩ := walk_cons.mp hw
      have hc := hm.component h
      have hlen : ¬ (c.length = 0 ∨ vfsNameMax < c.length) := by
        have := length_pos_iff.mpr hc.ne_nil
        have := hc.length_le
        omega
      have hchild : fs.childNamed current (c ++ join cs) c.length = some m := by
        rw [childNamed_eq_some h hrest (by simp), take_left]
        exact hm
      rw [resolveFrom, takeWhile_append_join hc.no_slash, if_neg hlen, hchild, drop_left]
      cases cs with
      | nil => rw [walk_nil.mp hw]; rfl
      | cons d ds =>
        obtain ⟨k, hk, -⟩ := walk_cons.mp hw
        have hd : d ++ join ds ≠ [] := by simp [(hk.component h).ne_nil]
        rw [join_cons]
        dsimp only
        rw [if_neg (by simp [hk.directory h]), if_neg hd]
        refine (ih (fun h0 => hrest (by simp [join_cons] at h0 ⊢; tauto)) ?_).mpr
          ⟨d, ds, rfl, hw⟩
        simp only [join_cons, length_append, length_cons] at hfuel ⊢
        omega

/-- `resolve_node` follows the components of a path. -/
lemma resolveNode_eq_some (h : Tree fs) (hpath : (0 : UInt8) ∉ path) :
    fs.resolveNode path = some n ↔ ∃ cs, path = pathOf cs ∧ Walk fs rootNode cs n := by
  constructor
  · intro hres
    cases path with
    | nil => cases hres
    | cons x rest =>
      rw [resolveNode] at hres
      split_ifs at hres with hx hnil
      · obtain rfl := Option.some.inj hres
        exact ⟨[], by rw [pathOf, if_pos rfl, not_not.mp hx, hnil], .nil⟩
      · have hrest : (0 : UInt8) ∉ rest := fun h0 => hpath (mem_cons_of_mem _ h0)
        obtain ⟨c, cs, hsplit, hw⟩ := (resolveFrom_eq_some h hrest (Nat.lt_succ_self _)).mp hres
        exact ⟨c :: cs, by rw [pathOf_cons, join_cons, not_not.mp hx, hsplit], hw⟩
  · rintro ⟨cs, rfl, hw⟩
    cases cs with
    | nil => rw [walk_nil.mp hw]; rfl
    | cons c cs =>
      obtain ⟨m, hm, -⟩ := walk_cons.mp hw
      have hne : c ++ join cs ≠ [] := by simp [(hm.component h).ne_nil]
      rw [pathOf_cons, join_cons] at hpath ⊢
      rw [resolveNode, if_neg (by simp), if_neg hne]
      exact (resolveFrom_eq_some h (fun h0 => hpath (mem_cons_of_mem _ h0))
        (Nat.lt_succ_self _)).mpr ⟨c, cs, rfl, hw⟩

/-! ### `resolve_parent` -/

/-- The path starts with two slashes. -/
def DoubleSlash (path : List UInt8) : Prop := [slash, slash] <+: path

/-- A path that resolves has no empty component in front. -/
lemma not_doubleSlash_pathOf (hcs : ∀ c ∈ cs, Component c) : ¬ DoubleSlash (pathOf cs) := by
  rintro ⟨rest, hrest⟩
  cases cs with
  | nil => simp [pathOf] at hrest
  | cons c cs =>
    have hc := hcs c mem_cons_self
    cases c with
    | nil => exact hc.ne_nil rfl
    | cons x c =>
      simp only [pathOf_cons, join_cons, cons_append, cons.injEq, true_and] at hrest
      exact hc.no_slash (hrest.1 ▸ mem_cons_self)

/-- The backward search stops at the last slash, or at the front. -/
lemma lastSlash_spec (path : List UInt8) (k : ℕ) : lastSlash path k ≤ k ∧
    (lastSlash path k = 0 ∨ path.getD (lastSlash path k) 0 = slash) ∧
    ∀ j, lastSlash path k < j → j ≤ k → path.getD j 0 ≠ slash := by
  induction k with
  | zero => exact ⟨le_refl _, .inl rfl, fun j hj hj' => absurd hj (by rw [lastSlash]; omega)⟩
  | succ k ih =>
    rw [lastSlash]
    split_ifs with hne
    · refine ⟨by omega, ih.2.1, fun j hj hj' => ?_⟩
      rcases Nat.lt_or_ge j (k + 1) with hlt | hge
      · exact ih.2.2 j hj (by omega)
      · rwa [show j = k + 1 by omega]
    · exact ⟨le_refl _, .inr (not_not.mp hne), fun j hj hj' => by omega⟩

/-- What `resolve_parent` finds: the directory above the last component. -/
structure ParentOf (fs : Tmpfs) (path : List UInt8) (p : NodeIndex) (name : List UInt8) :
    Prop where
  component : Component name
  used : (fs.nodes p).used = true
  directory : (fs.nodes p).type = .directory
  split : (∃ cs, path = pathOf (cs ++ [name]) ∧ Walk fs rootNode cs p) ∨
    path = slash :: slash :: name ∧ p = rootNode

/-- `resolve_parent` splits off the last component.  What is in front of it is resolved
as a path of its own, so that `//name` has the root as its parent. -/
lemma resolveParent_eq_some (h : Tree fs) (hpath : (0 : UInt8) ∉ path)
    (hres : fs.resolveParent path = some (p, name)) : ParentOf fs path p name := by
  obtain ⟨hle, hat, hafter⟩ := lastSlash_spec path (path.length - 1)
  rw [resolveParent] at hres
  split_ifs at hres with hstart hend
  dsimp only at hres
  generalize lastSlash path (path.length - 1) = position at hle hat hafter hres
  split_ifs at hres with hname hzero hmax
  all_goals
    push Not at hstart hend hname
    have hslash : path.getD position 0 = slash := hat.elim (fun h0 => h0 ▸ hstart.1) id
    rw [getD_eq_getElem _ _ (by omega)] at hslash
    have hsplit : path = path.take position ++ slash :: path.drop (position + 1) := by
      rw [← hslash, getElem_cons_drop, take_append_drop]
    have hcomponent : Component (path.drop (position + 1)) := by
      refine ⟨?_, ?_, fun hmem => ?_, fun hmem => hpath (mem_of_mem_drop hmem)⟩
      · rw [← length_pos_iff, length_drop]
        omega
      · rw [length_drop]
        omega
      · obtain ⟨j, hj, hget⟩ := mem_iff_getElem.mp hmem
        rw [length_drop] at hj
        refine hafter (position + 1 + j) (by omega) (by omega) ?_
        rw [getD_eq_getElem _ _ (by omega), ← hget, getElem_drop]
  · obtain ⟨rfl, rfl⟩ := Prod.mk.inj (Option.some.inj hres)
    refine ⟨hcomponent, h.root_used, h.root_type, .inl ⟨[], ?_, .nil⟩⟩
    rw [nil_append, pathOf_cons, join_cons, join_nil, append_nil]
    simpa [hzero] using hsplit
  · split at hres
    · cases hres
    · rename_i parent hparent
      split_ifs at hres with hdir
      obtain ⟨rfl, rfl⟩ := Prod.mk.inj (Option.some.inj hres)
      obtain ⟨cs, hcs, hw⟩ := (resolveNode_eq_some h fun h0 =>
        hpath (mem_of_mem_take h0)).mp hparent
      refine ⟨hcomponent, hw.used h, not_not.mp hdir, ?_⟩
      -- the root as a prefix has its slash counted twice
      cases cs with
      | nil =>
        rw [hcs] at hsplit
        exact .inr ⟨hsplit, walk_nil.mp hw⟩
      | cons c cs =>
        rw [hcs, pathOf_cons] at hsplit
        exact .inl ⟨_, by rwa [pathOf_concat], hw⟩

end Tmpfs

end JoshOS
