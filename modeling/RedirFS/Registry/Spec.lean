import RedirFS.Registry.Ids

/-!
# What each internal function does

One lemma for each function of `RedirFS.Registry.Path`, stating its result on a
Path whose record is known, so that the lemmas about the exported functions
never unfold the internal ones. The conditions are the ones the code relies
on: a reference count that is not zero (or the `BUG_ON` fires), a root that is
not NULL.
-/

namespace RedirFS

variable {s : Reg} {p : Nat} {r : RfsPath}

/-! ### Writes to the state -/

@[simp] theorem Reg.setPath_setPath (s : Reg) (p : Nat) (r r' : RfsPath) :
    (s.setPath p r).setPath p r' = s.setPath p r' := by
  simp [Reg.setPath]

theorem Reg.setPath_self (h : s.heap p = some r) : s.setPath p r = s := by
  unfold Reg.setPath
  rw [← h, Function.update_eq_self]

theorem Reg.free_self (h : s.heap p = none) : s.free p = s := by
  unfold Reg.free
  rw [← h, Function.update_eq_self]

@[simp] theorem Reg.setPath_free (s : Reg) (p : Nat) (r : RfsPath) :
    (s.setPath p r).free p = s.free p := by
  simp [Reg.setPath, Reg.free]

@[simp] theorem Reg.chainPut_chainNew (s : Reg) (c : List Flt) :
    (s.chainNew c).chainPut c = s := by
  unfold Reg.chainNew Reg.chainPut
  split <;> simp_all

/-! ### Reference counts -/

theorem rfsPathGet_eq (h : s.heap p = some r) (hc : r.count ≠ 0) :
    rfsPathGet p s = .ok (s.setPath p { r with count := r.count + 1 }) := by
  simp [rfsPathGet, Reg.deref_of_heap h, hc]

theorem rfsPathPut_eq (h : s.heap p = some r) (hc : r.count ≠ 0) :
    rfsPathPut p s =
      .ok (if r.count = 1 then s.free p else s.setPath p { r with count := r.count - 1 }) := by
  simp only [rfsPathPut, Reg.deref_of_heap h, except_ok_bind, hc, if_false]
  split <;> rfl

theorem rfsPathPut_of_lt (h : s.heap p = some r) (hc : 1 < r.count) :
    rfsPathPut p s = .ok (s.setPath p { r with count := r.count - 1 }) := by
  rw [rfsPathPut_eq h (by omega), if_neg (by omega)]

theorem rfsPathPut_of_one (h : s.heap p = some r) (hc : r.count = 1) :
    rfsPathPut p s = .ok (s.free p) := by
  rw [rfsPathPut_eq h (by omega), if_pos hc]

theorem rfsPathLookup_none {P : RfsPath → Bool} (h : s.firstOn P = none) :
    rfsPathLookup P s = .ok (none, s) := by
  simp [rfsPathLookup, h]

theorem rfsPathLookup_some {P : RfsPath → Bool} (h : s.firstOn P = some p)
    (hp : s.heap p = some r) (hc : r.count ≠ 0) :
    rfsPathLookup P s = .ok (some p, s.setPath p { r with count := r.count + 1 }) := by
  simp [rfsPathLookup, h, rfsPathGet_eq hp hc]

theorem firstOn_some {P : RfsPath → Bool} (h : s.firstOn P = some p) :
    p ∈ s.list ∧ ∃ r, s.heap p = some r ∧ P r = true := by
  unfold Reg.firstOn at h
  refine ⟨List.mem_of_find?_eq_some h, ?_⟩
  have := List.find?_some h
  revert this
  cases s.heap p <;> simp

theorem firstOn_none {P : RfsPath → Bool} (h : s.firstOn P = none) :
    ∀ q ∈ s.list, ∀ r, s.heap q = some r → P r = false := by
  unfold Reg.firstOn at h
  intro q hq r hr
  have := List.find?_eq_none.1 h q hq
  simpa [hr] using this

/-! ### The two lists -/

theorem rfsPathAddRroot_fault (h : s.heap p = some r) {e : Errno} {φ : Faults}
    (he : φ.rootAdd = some e) : rfsPathAddRroot φ p s = .ok (e.rv, s) := by
  simp [rfsPathAddRroot, Reg.deref_of_heap h, he]

theorem rfsPathAddRroot_ok (h : s.heap p = some r) (hc : r.count ≠ 0) {φ : Faults}
    (he : φ.rootAdd = none) :
    rfsPathAddRroot φ p s = .ok (0,
      (s.setRoot (s.rootOf r.dentry) { s.roots (s.rootOf r.dentry) with
        rpaths := (s.roots (s.rootOf r.dentry)).rpaths ++ [p] }).setPath p
        { r with count := r.count + 1, rroot := some (s.rootOf r.dentry) }) := by
  simp only [rfsPathAddRroot, Reg.deref_of_heap h, he, except_ok_bind]
  rw [rfsPathGet_eq (s := s.setRoot _ _) h hc]
  simp [Reg.deref_of_heap]

theorem rfsPathRemRroot_null (h : s.heap p = some r) (hr : r.rroot = none) :
    rfsPathRemRroot p s = .error .nullRroot := by
  simp [rfsPathRemRroot, Reg.deref_of_heap h, hr]

theorem rfsPathRemRroot_ok (h : s.heap p = some r) {rt : Nat} (hr : r.rroot = some rt)
    (hc : 1 < r.count) :
    rfsPathRemRroot p s = .ok
      ((s.setRoot rt { s.roots rt with rpaths := (s.roots rt).rpaths.erase p }).setPath p
        { r with count := r.count - 1, rroot := none }) := by
  simp only [rfsPathRemRroot, Reg.deref_of_heap h, hr, except_ok_bind]
  rw [rfsPathPut_of_lt (s := s.setRoot _ _) h hc]
  simp [Reg.deref_of_heap]

theorem rfsPathListAdd_eq (h : s.heap p = some r) (hc : r.count ≠ 0) :
    rfsPathListAdd p s =
      .ok ({ s with list := s.list ++ [p] }.setPath p { r with count := r.count + 1 }) :=
  rfsPathGet_eq (s := { s with list := s.list ++ [p] }) h hc

theorem rfsPathListRem_of_lt (h : s.heap p = some r) (hc : 1 < r.count) :
    rfsPathListRem p s =
      .ok ({ s with list := s.list.erase p }.setPath p { r with count := r.count - 1 }) :=
  rfsPathPut_of_lt (s := { s with list := s.list.erase p }) h hc

/-! ### Adding and removing a filter -/

/-- The first collaborator that fails when a filter is added in a mode to a
Path that holds it in neither chain: the dcache walk (include only),
`rfs_chain_add`, the root. -/
def Faults.onAdd (φ : Faults) : Mode → Option Errno
  | .include => φ.addDirs <|> φ.chainAdd <|> φ.rootChain
  | .exclude => φ.chainAdd <|> φ.rootChain

/-- The first collaborator that fails when a filter is removed from a chain
that holds it: `rfs_chain_rem`, the root. -/
def Faults.onRem (φ : Faults) : Option Errno := φ.chainRem <|> φ.rootChain

/-- The state after the filter joins the chain of mode `m` of the Path at `p`
(record `r`, root `rt`): the root's chain gains it unless it holds it already,
the Path's chain is replaced by one with the filter at the tail, and the filter
counts one more Path. -/
def Reg.addFlt (s : Reg) (p : Nat) (r : RfsPath) (m : Mode) (f : Flt) (rt : Nat) : Reg :=
  let c := rfsChainAdd (r.chain m) f
  let x := s.roots rt
  let s := (s.chainNew c).setRoot rt
    (x.setChain m (if f ∈ x.chain m then x.chain m else rfsChainAdd (x.chain m) f))
  let s := (s.chainPut (r.chain m)).setPath p (r.setChain m c)
  { s with pathsNr := Function.update s.pathsNr f (s.pathsNr f + 1) }

/-- The state after the filter leaves the chain of mode `m` of the Path at `p`
(record `r`, root `rt`). -/
def Reg.remFlt (s : Reg) (p : Nat) (r : RfsPath) (m : Mode) (f : Flt) (rt : Nat) : Reg :=
  let c := rfsChainRem (r.chain m) f
  let x := s.roots rt
  let s := (s.chainNew c).setRoot rt (x.setChain m (rfsChainRem (x.chain m) f))
  let s := (s.chainPut (r.chain m)).setPath p (r.setChain m c)
  { s with pathsNr := Function.update s.pathsNr f (s.pathsNr f - 1) }

@[simp] theorem Reg.addFlt_heap (s : Reg) (p : Nat) (r : RfsPath) (m : Mode) (f : Flt)
    (rt : Nat) : (s.addFlt p r m f rt).heap =
      Function.update s.heap p (some (r.setChain m (rfsChainAdd (r.chain m) f))) := by
  simp [Reg.addFlt, Reg.setPath]

@[simp] theorem Reg.addFlt_list (s : Reg) (p : Nat) (r : RfsPath) (m : Mode) (f : Flt)
    (rt : Nat) : (s.addFlt p r m f rt).list = s.list := by
  simp [Reg.addFlt, Reg.setPath]

@[simp] theorem Reg.addFlt_next (s : Reg) (p : Nat) (r : RfsPath) (m : Mode) (f : Flt)
    (rt : Nat) : (s.addFlt p r m f rt).next = s.next := by
  simp [Reg.addFlt, Reg.setPath]

@[simp] theorem Reg.addFlt_handles (s : Reg) (p : Nat) (r : RfsPath) (m : Mode) (f : Flt)
    (rt : Nat) : (s.addFlt p r m f rt).handles = s.handles := by
  simp [Reg.addFlt, Reg.setPath]

@[simp] theorem Reg.addFlt_rpaths (s : Reg) (p : Nat) (r : RfsPath) (m : Mode) (f : Flt)
    (rt rt' : Nat) : ((s.addFlt p r m f rt).roots rt').rpaths = (s.roots rt').rpaths := by
  by_cases h : rt' = rt
  · subst h; simp [Reg.addFlt, Reg.setPath]
  · simp [Reg.addFlt, Reg.setPath, h]

@[simp] theorem Reg.addFlt_pathsNr (s : Reg) (p : Nat) (r : RfsPath) (m : Mode) (f : Flt)
    (rt : Nat) : (s.addFlt p r m f rt).pathsNr = Function.update s.pathsNr f (s.pathsNr f + 1) := by
  simp [Reg.addFlt, Reg.setPath]

@[simp] theorem Reg.remFlt_heap (s : Reg) (p : Nat) (r : RfsPath) (m : Mode) (f : Flt)
    (rt : Nat) : (s.remFlt p r m f rt).heap =
      Function.update s.heap p (some (r.setChain m (rfsChainRem (r.chain m) f))) := by
  simp [Reg.remFlt, Reg.setPath]

@[simp] theorem Reg.remFlt_list (s : Reg) (p : Nat) (r : RfsPath) (m : Mode) (f : Flt)
    (rt : Nat) : (s.remFlt p r m f rt).list = s.list := by
  simp [Reg.remFlt, Reg.setPath]

@[simp] theorem Reg.remFlt_next (s : Reg) (p : Nat) (r : RfsPath) (m : Mode) (f : Flt)
    (rt : Nat) : (s.remFlt p r m f rt).next = s.next := by
  simp [Reg.remFlt, Reg.setPath]

@[simp] theorem Reg.remFlt_handles (s : Reg) (p : Nat) (r : RfsPath) (m : Mode) (f : Flt)
    (rt : Nat) : (s.remFlt p r m f rt).handles = s.handles := by
  simp [Reg.remFlt, Reg.setPath]

@[simp] theorem Reg.remFlt_rpaths (s : Reg) (p : Nat) (r : RfsPath) (m : Mode) (f : Flt)
    (rt rt' : Nat) : ((s.remFlt p r m f rt).roots rt').rpaths = (s.roots rt').rpaths := by
  by_cases h : rt' = rt
  · subst h; simp [Reg.remFlt, Reg.setPath]
  · simp [Reg.remFlt, Reg.setPath, h]

@[simp] theorem Reg.remFlt_pathsNr (s : Reg) (p : Nat) (r : RfsPath) (m : Mode) (f : Flt)
    (rt : Nat) : (s.remFlt p r m f rt).pathsNr = Function.update s.pathsNr f (s.pathsNr f - 1) := by
  simp [Reg.remFlt, Reg.setPath]

theorem Reg.addFlt_withHandles (s : Reg) (hd : List Nat) (p : Nat) (r : RfsPath) (m : Mode)
    (f : Flt) (rt : Nat) :
    ({ s with handles := hd } : Reg).addFlt p r m f rt = { s.addFlt p r m f rt with handles := hd } := by
  unfold Reg.addFlt Reg.chainNew Reg.chainPut
  dsimp only
  split_ifs <;> rfl

theorem rfsPathAddChain_eq {m : Mode} {φ : Faults} {f : Flt} {rt : Nat}
    (hr : r.rroot = some rt) :
    rfsPathAddChain m φ p f r s =
      match φ.chainAdd <|> φ.rootChain with
      | some e => .ok (e.rv, s)
      | none => .ok (0, s.addFlt p r m f rt) := by
  unfold rfsPathAddChain
  cases φ.chainAdd <;> cases φ.rootChain <;> simp [hr, Reg.addFlt]

/-- **`rfs_path_add_include` and `rfs_path_add_exclude` in one statement.** On
a Path with a root: nothing to do if the filter is in the chain of the mode,
`-EEXIST` if it is in the other, and otherwise either the first failing
collaborator's error with no change, or the filter added. -/
theorem addByFlags_mode (h : s.heap p = some r) {rt : Nat} (hr : r.rroot = some rt)
    (m : Mode) (φ : Faults) (f : Flt) :
    addByFlags m.flags φ p f s =
      if f ∈ r.chain m then .ok (0, s)
      else if f ∈ r.chain m.other then .ok (-EEXIST, s)
      else match φ.onAdd m with
        | some e => .ok (e.rv, s)
        | none => .ok (0, s.addFlt p r m f rt) := by
  by_cases h1 : f ∈ r.chain m
  · cases m <;> simp_all [addByFlags, Mode.flags, rfsPathAddInclude, rfsPathAddExclude,
      Reg.deref_of_heap h, REDIRFS_PATH_INCLUDE, REDIRFS_PATH_EXCLUDE]
  by_cases h2 : f ∈ r.chain m.other
  · cases m <;> simp_all [addByFlags, Mode.flags, rfsPathAddInclude, rfsPathAddExclude,
      Reg.deref_of_heap h, REDIRFS_PATH_INCLUDE, REDIRFS_PATH_EXCLUDE]
  cases m
  · cases hd : φ.addDirs <;> simp_all [addByFlags, Mode.flags, rfsPathAddInclude,
      Reg.deref_of_heap h, REDIRFS_PATH_INCLUDE, rfsPathAddChain_eq hr, Faults.onAdd]
  · simp_all [addByFlags, Mode.flags, rfsPathAddExclude, Reg.deref_of_heap h,
      REDIRFS_PATH_INCLUDE, REDIRFS_PATH_EXCLUDE, rfsPathAddChain_eq hr, Faults.onAdd]

/-- Flags that name neither mode make `redirfs_add_path` fail with `-EINVAL`. -/
theorem addByFlags_bad {flags : Int} (hi : flags ≠ REDIRFS_PATH_INCLUDE)
    (he : flags ≠ REDIRFS_PATH_EXCLUDE) (φ : Faults) (f : Flt) :
    addByFlags flags φ p f s = .ok (-EINVAL, s) := by
  simp [addByFlags, hi, he]

theorem rfsPathRemChain_eq (h : s.heap p = some r) {rt : Nat} (hr : r.rroot = some rt)
    (m : Mode) (φ : Faults) (f : Flt) :
    rfsPathRemChain m φ p f s =
      if f ∉ r.chain m then .ok (0, s)
      else match φ.onRem with
        | some e => .ok (e.rv, s)
        | none => .ok (0, s.remFlt p r m f rt) := by
  by_cases hf : f ∈ r.chain m
  · cases hc : φ.chainRem <;> cases hrc : φ.rootChain <;>
      simp [rfsPathRemChain, Faults.onRem, Reg.deref_of_heap h, hf, hc, hrc, hr, Reg.remFlt]
  · simp [rfsPathRemChain, Reg.deref_of_heap h, hf]

/-! ### Registering and unregistering a Path -/

/-- The state `rfs_path_add` leaves when it makes the Path of `(mnt, dentry)`:
a record at the next address, with id `id` and no chain, on its root's list and
at the tail of `rfs_path_list`, holding the references of both lists and of its
caller. -/
def Reg.addNew (s : Reg) (id : Int) (mnt dentry : Nat) : Reg :=
  let p := s.next
  let rt := s.rootOf dentry
  { (s.setRoot rt { s.roots rt with rpaths := (s.roots rt).rpaths ++ [p] }).setPath p
      ⟨id, mnt, dentry, [], [], some rt, 3⟩ with next := s.next + 1, list := s.list ++ [p] }

/-- The state `rfs_path_rem` leaves when it drops the Path at `p` (record `r`,
root `rt`): off its root's list and off `rfs_path_list`, without the two
references they held, and with no root. -/
def Reg.unlink (s : Reg) (p : Nat) (r : RfsPath) (rt : Nat) : Reg :=
  { (s.setRoot rt { s.roots rt with rpaths := (s.roots rt).rpaths.erase p }).setPath p
      { r with count := r.count - 2, rroot := none } with list := s.list.erase p }

@[simp] theorem Reg.unlink_heap (s : Reg) (p : Nat) (r : RfsPath) (rt : Nat) :
    (s.unlink p r rt).heap =
      Function.update s.heap p (some { r with count := r.count - 2, rroot := none }) := rfl

@[simp] theorem Reg.unlink_list (s : Reg) (p : Nat) (r : RfsPath) (rt : Nat) :
    (s.unlink p r rt).list = s.list.erase p := rfl

@[simp] theorem Reg.unlink_next (s : Reg) (p : Nat) (r : RfsPath) (rt : Nat) :
    (s.unlink p r rt).next = s.next := rfl

@[simp] theorem Reg.unlink_handles (s : Reg) (p : Nat) (r : RfsPath) (rt : Nat) :
    (s.unlink p r rt).handles = s.handles := rfl

@[simp] theorem Reg.unlink_pathsNr (s : Reg) (p : Nat) (r : RfsPath) (rt : Nat) :
    (s.unlink p r rt).pathsNr = s.pathsNr := rfl

theorem Reg.unlink_rpaths (s : Reg) (p : Nat) (r : RfsPath) (rt rt' : Nat) :
    ((s.unlink p r rt).roots rt').rpaths =
      if rt' = rt then (s.roots rt).rpaths.erase p else (s.roots rt').rpaths := by
  by_cases h : rt' = rt
  · subst h; simp [Reg.unlink]
  · simp [Reg.unlink, h]

section Add

variable {mnt dentry : Nat} {φ : Faults}

theorem rfsPathAdd_found (hk : s.firstOn (fun r => r.isAt mnt dentry) = some p)
    (h : s.heap p = some r) (hc : r.count ≠ 0) :
    rfsPathAdd φ mnt dentry s = .ok (.ok p, s.setPath p { r with count := r.count + 1 }) := by
  simp [rfsPathAdd, rfsPathFind, rfsPathLookup_some hk h hc]

theorem rfsPathAdd_alloc (hk : s.firstOn (fun r => r.isAt mnt dentry) = none)
    (ha : φ.alloc = true) : rfsPathAdd φ mnt dentry s = .ok (.error (-ENOMEM), s) := by
  have := rfsPathGetId_nonneg s
  simp [rfsPathAdd, rfsPathFind, rfsPathLookup_none hk, ha, not_lt.2 this]

theorem rfsPathAdd_rootAdd (hk : s.firstOn (fun r => r.isAt mnt dentry) = none)
    (ha : φ.alloc = false) (hf : s.heap s.next = none) {e : Errno} (he : φ.rootAdd = some e) :
    rfsPathAdd φ mnt dentry s = .ok (.error e.rv, { s with next := s.next + 1 }) := by
  have := rfsPathGetId_nonneg s
  simp only [rfsPathAdd, rfsPathFind, rfsPathLookup_none hk, except_ok_bind, not_lt.2 this,
    if_false, ha, Bool.false_eq_true]
  rw [rfsPathAddRroot_fault (r := ⟨rfsPathGetId s, mnt, dentry, [], [], none, 1⟩)
    (by simp [Reg.setPath]) he]
  simp only [except_ok_bind, ne_eq, Errno.rv_ne_zero, not_false_eq_true, if_true]
  rw [rfsPathPut_of_one (r := ⟨rfsPathGetId s, mnt, dentry, [], [], none, 1⟩)
    (by simp [Reg.setPath]) rfl]
  simp only [except_ok_bind, except_pure]
  congr 2
  cases s
  simp only [Reg.setPath, Reg.free, Function.update_idem] at hf ⊢
  rw [← hf, Function.update_eq_self]

theorem rfsPathAdd_new (hk : s.firstOn (fun r => r.isAt mnt dentry) = none)
    (ha : φ.alloc = false) (he : φ.rootAdd = none) :
    rfsPathAdd φ mnt dentry s = .ok (.ok s.next, s.addNew (rfsPathGetId s) mnt dentry) := by
  have := rfsPathGetId_nonneg s
  simp only [rfsPathAdd, rfsPathFind, rfsPathLookup_none hk, except_ok_bind, not_lt.2 this,
    if_false, ha, Bool.false_eq_true]
  rw [rfsPathAddRroot_ok (r := ⟨rfsPathGetId s, mnt, dentry, [], [], none, 1⟩)
    (by simp [Reg.setPath]) (by simp) he]
  simp only [except_ok_bind, ne_eq, not_true_eq_false, if_false]
  rw [rfsPathListAdd_eq
    (r := ⟨rfsPathGetId s, mnt, dentry, [], [], some (s.rootOf dentry), 2⟩)
    (by simp [Reg.setPath]) (by simp)]
  simp [Reg.addNew, Reg.setPath, Reg.setRoot]

/-- The state `redirfs_add_path` leaves when it registers a new Path for a
filter: the Path `rfs_path_add` made, with the filter in the chain of the
mode, and the caller's handle on it. -/
def Reg.register (s : Reg) (mnt dentry : Nat) (m : Mode) (f : Flt) : Reg :=
  let rt := s.rootOf dentry
  { (s.addNew (rfsPathGetId s) mnt dentry).addFlt s.next
      ⟨rfsPathGetId s, mnt, dentry, [], [], some rt, 3⟩ m f rt with
    handles := s.handles ++ [s.next] }

/-- The record of the Path `RedirFS.Reg.register` makes. -/
def Reg.newPath (s : Reg) (mnt dentry : Nat) (m : Mode) (f : Flt) : RfsPath :=
  (⟨rfsPathGetId s, mnt, dentry, [], [], some (s.rootOf dentry), 3⟩ : RfsPath).setChain m [f]

@[simp] theorem Reg.register_heap (s : Reg) (mnt dentry : Nat) (m : Mode) (f : Flt) :
    (s.register mnt dentry m f).heap =
      Function.update s.heap s.next (some (s.newPath mnt dentry m f)) := by
  cases m <;> simp [Reg.register, Reg.newPath, Reg.addNew, Reg.setPath, rfsChainAdd]

@[simp] theorem Reg.register_list (s : Reg) (mnt dentry : Nat) (m : Mode) (f : Flt) :
    (s.register mnt dentry m f).list = s.list ++ [s.next] := by
  simp [Reg.register, Reg.addNew]

@[simp] theorem Reg.register_next (s : Reg) (mnt dentry : Nat) (m : Mode) (f : Flt) :
    (s.register mnt dentry m f).next = s.next + 1 := by
  simp [Reg.register, Reg.addNew]

@[simp] theorem Reg.register_handles (s : Reg) (mnt dentry : Nat) (m : Mode) (f : Flt) :
    (s.register mnt dentry m f).handles = s.handles ++ [s.next] := rfl

@[simp] theorem Reg.register_pathsNr (s : Reg) (mnt dentry : Nat) (m : Mode) (f : Flt) :
    (s.register mnt dentry m f).pathsNr = Function.update s.pathsNr f (s.pathsNr f + 1) := by
  simp [Reg.register, Reg.addNew]

@[simp] theorem Reg.register_rootOf (s : Reg) (mnt dentry : Nat) (m : Mode) (f : Flt) :
    (s.register mnt dentry m f).rootOf = s.rootOf := by
  simp [Reg.register, Reg.addNew, Reg.addFlt]

theorem Reg.register_rpaths (s : Reg) (mnt dentry : Nat) (m : Mode) (f : Flt) (rt : Nat) :
    ((s.register mnt dentry m f).roots rt).rpaths =
      if rt = s.rootOf dentry then (s.roots rt).rpaths ++ [s.next] else (s.roots rt).rpaths := by
  by_cases h : rt = s.rootOf dentry
  · subst h; simp [Reg.register, Reg.addNew]
  · simp [Reg.register, Reg.addNew, h]

@[simp] theorem Reg.newPath_mnt (s : Reg) (mnt dentry : Nat) (m : Mode) (f : Flt) :
    (s.newPath mnt dentry m f).mnt = mnt := by simp [Reg.newPath]

@[simp] theorem Reg.newPath_dentry (s : Reg) (mnt dentry : Nat) (m : Mode) (f : Flt) :
    (s.newPath mnt dentry m f).dentry = dentry := by simp [Reg.newPath]

@[simp] theorem Reg.newPath_rroot (s : Reg) (mnt dentry : Nat) (m : Mode) (f : Flt) :
    (s.newPath mnt dentry m f).rroot = some (s.rootOf dentry) := by simp [Reg.newPath]

@[simp] theorem Reg.newPath_count (s : Reg) (mnt dentry : Nat) (m : Mode) (f : Flt) :
    (s.newPath mnt dentry m f).count = 3 := by simp [Reg.newPath]

end Add

theorem rfsPathRem_cites (h : s.heap p = some r) (hc : r.rinch ≠ [] ∨ r.rexch ≠ []) :
    rfsPathRem p s = .ok s := by
  simp [rfsPathRem, Reg.deref_of_heap h, hc]

theorem rfsPathRem_null (h : s.heap p = some r) (hi : r.rinch = []) (he : r.rexch = [])
    (hr : r.rroot = none) : rfsPathRem p s = .error .nullRroot := by
  simp [rfsPathRem, Reg.deref_of_heap h, hi, he, rfsPathRemRroot_null h hr]

theorem rfsPathRem_empty (h : s.heap p = some r) (hi : r.rinch = []) (he : r.rexch = [])
    {rt : Nat} (hr : r.rroot = some rt) (hc : 2 < r.count) :
    rfsPathRem p s = .ok (s.unlink p r rt) := by
  simp only [rfsPathRem, Reg.deref_of_heap h, hi, he, ne_eq, not_true_eq_false, or_self,
    if_false, except_ok_bind, rfsPathRemRroot_ok h hr (by omega)]
  rw [rfsPathListRem_of_lt (r := { r with count := r.count - 1, rroot := none })
    (by simp [Reg.setPath, hi, he]) (by simp only; omega)]
  have : r.count - 1 - 1 = r.count - 2 := by omega
  simp [Reg.unlink, Reg.setPath, Reg.setRoot, this, hi, he]

end RedirFS
