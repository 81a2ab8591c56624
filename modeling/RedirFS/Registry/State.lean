import RedirFS.Chain
import Mathlib.Logic.Function.Basic

/-!
# The path registry: objects and state

The state `rfs_path.c` works on, as one record `RedirFS.Reg`:

* the `rfs_path` objects, by address (`heap`), with the address the allocator
  hands out next;
* `rfs_path_list`, the registered Paths in registration order;
* the `paths_nr` counter of every filter;
* the part of every `rfs_root` this file reads and changes: its list of Paths
  and its merged include and exclude chains. `rfs_root.c` is not part of this
  development, so `rfs_root_add`, `rfs_root_add_rpath`, `rfs_root_rem_rpath`
  and the four `rfs_root_*_include`/`exclude` calls are modelled from the spec
  (`RootAggregate`): the root of a Path is the one its dentry lies under
  (`rootOf`), the root's path list holds a reference on each of its Paths, and
  the merged chains gain and lose the filters its Paths gain and lose.

Two fields are ghost: `chains` counts the chain objects `rfs_path.c` has built
and not released, and `handles` lists the references the callers of the API
hold, one entry per reference. Neither is read by the code; they make "every
chain it built is released" and "one reference per outstanding handle"
statements about the state.

A call that goes wrong in a way C does not survive stops with a
`RedirFS.Oops`: a `BUG_ON` that fires, a dereference of an address that holds
no object, a NULL root handed to the root collaborator, a write past the end
of an array.
-/

namespace RedirFS

/-! ### Error numbers and the collaborators' outcomes -/

/-- `EINVAL`. -/
def EINVAL : Int := 22

/-- `EEXIST`. -/
def EEXIST : Int := 17

/-- `ENOMEM`. -/
def ENOMEM : Int := 12

/-- `EBUSY`. -/
def EBUSY : Int := 16

/-- `ENODATA`. -/
def ENODATA : Int := 61

/-- `ENAMETOOLONG`. -/
def ENAMETOOLONG : Int := 36

/-- `INT_MAX` of the 32-bit `int` of the code. -/
def INT_MAX : Int := 2147483647

/-- An error a collaborator fails with, by its positive number; the failing
call returns its negation. -/
structure Errno where
  code : Nat
  pos : 0 < code
  deriving DecidableEq, Repr

/-- The C return value of a failure. -/
def Errno.rv (e : Errno) : Int := -e.code

theorem Errno.rv_ne_zero (e : Errno) : e.rv ≠ 0 := by
  have := e.pos
  unfold Errno.rv
  omega

/-- The outcome of each call to code outside this file that one API call
makes: `alloc` makes `kzalloc` fail, and a `some e` makes that collaborator
fail with `-e`. Every call site is reached at most once per API call, so this
covers every combination of outcomes. -/
structure Faults where
  /-- `kzalloc` in `rfs_path_alloc`, `redirfs_get_paths*`,
  `redirfs_get_path_info` or `rfs_path_get_info`. -/
  alloc : Bool
  /-- `rfs_root_add`. -/
  rootAdd : Option Errno
  /-- The dcache walk of `rfs_path_add_dirs`. -/
  addDirs : Option Errno
  /-- `rfs_chain_add`. -/
  chainAdd : Option Errno
  /-- `rfs_chain_rem`. -/
  chainRem : Option Errno
  /-- `rfs_root_add_include` and its three siblings. -/
  rootChain : Option Errno

/-- Every collaborator succeeds. -/
def noFaults : Faults := ⟨false, none, none, none, none, none⟩

/-! ### Objects -/

/-- The two modes a filter registers a Path in. -/
inductive Mode
  | include
  | exclude
  deriving DecidableEq, Repr

/-- The other mode. -/
def Mode.other : Mode → Mode
  | .include => .exclude
  | .exclude => .include

/-- `struct rfs_path`, without the list links: its position on
`rfs_path_list` and on its root's list is recorded by those lists. -/
structure RfsPath where
  id : Int
  mnt : Nat
  dentry : Nat
  rinch : List Flt
  rexch : List Flt
  rroot : Option Nat
  count : Nat
  deriving DecidableEq, Repr

/-- The chain of a Path for a mode. -/
def RfsPath.chain (r : RfsPath) : Mode → List Flt
  | .include => r.rinch
  | .exclude => r.rexch

/-- Replace the chain of a Path for a mode. -/
def RfsPath.setChain (r : RfsPath) : Mode → List Flt → RfsPath
  | .include, c => { r with rinch := c }
  | .exclude, c => { r with rexch := c }

@[simp] theorem RfsPath.chain_include (r : RfsPath) : r.chain .include = r.rinch := rfl

@[simp] theorem RfsPath.chain_exclude (r : RfsPath) : r.chain .exclude = r.rexch := rfl

@[simp] theorem Mode.other_include : Mode.other .include = .exclude := rfl

@[simp] theorem Mode.other_exclude : Mode.other .exclude = .include := rfl

/-- A Path cites a filter when one of its two chains holds it. -/
def RfsPath.cites (r : RfsPath) (f : Flt) : Bool := f ∈ r.rinch || f ∈ r.rexch

/-- Modelled from the spec: the part of `struct rfs_root` that this file
reads and changes. -/
structure RfsRoot where
  rpaths : List Nat
  rinch : List Flt
  rexch : List Flt
  deriving DecidableEq, Repr

/-- The merged chain of a root for a mode. -/
def RfsRoot.chain (x : RfsRoot) : Mode → List Flt
  | .include => x.rinch
  | .exclude => x.rexch

/-- Replace the merged chain of a root for a mode. -/
def RfsRoot.setChain (x : RfsRoot) : Mode → List Flt → RfsRoot
  | .include, c => { x with rinch := c }
  | .exclude, c => { x with rexch := c }

@[simp] theorem RfsPath.chain_setChain (r : RfsPath) (m : Mode) (c : List Flt) :
    (r.setChain m c).chain m = c := by
  cases m <;> rfl

@[simp] theorem RfsPath.setChain_count (r : RfsPath) (m : Mode) (c : List Flt) :
    (r.setChain m c).count = r.count := by
  cases m <;> rfl

@[simp] theorem RfsPath.setChain_rroot (r : RfsPath) (m : Mode) (c : List Flt) :
    (r.setChain m c).rroot = r.rroot := by
  cases m <;> rfl

@[simp] theorem RfsPath.setChain_mnt (r : RfsPath) (m : Mode) (c : List Flt) :
    (r.setChain m c).mnt = r.mnt := by
  cases m <;> rfl

@[simp] theorem RfsPath.setChain_dentry (r : RfsPath) (m : Mode) (c : List Flt) :
    (r.setChain m c).dentry = r.dentry := by
  cases m <;> rfl

@[simp] theorem RfsPath.setChain_id (r : RfsPath) (m : Mode) (c : List Flt) :
    (r.setChain m c).id = r.id := by
  cases m <;> rfl

@[simp] theorem RfsRoot.setChain_rpaths (x : RfsRoot) (m : Mode) (c : List Flt) :
    (x.setChain m c).rpaths = x.rpaths := by
  cases m <;> rfl

/-! ### The state -/

/-- The state of the registry. -/
@[ext]
structure Reg where
  /-- The filesystem's layout: the root a dentry's Paths aggregate under. -/
  rootOf : Nat → Nat
  /-- The `rfs_path` objects, by address. -/
  heap : Nat → Option RfsPath
  /-- The address `kzalloc` returns next. -/
  next : Nat
  /-- `rfs_path_list`. -/
  list : List Nat
  /-- The `paths_nr` counter of every filter. -/
  pathsNr : Flt → Int
  /-- The roots, by address. -/
  roots : Nat → RfsRoot
  /-- Ghost: the chain objects built here and not yet released. -/
  chains : Int
  /-- Ghost: the references the callers hold, one entry each. -/
  handles : List Nat

/-- The registry of a freshly loaded module. -/
def Reg.init (rootOf : Nat → Nat) : Reg :=
  ⟨rootOf, fun _ => none, 0, [], fun _ => 0, fun _ => ⟨[], [], []⟩, 0, []⟩

/-- How a call can go wrong beyond returning an error. -/
inductive Oops
  /-- `BUG_ON(!atomic_read(&rpath->count))` fires. -/
  | bugOn
  /-- An address that holds no `rfs_path` is dereferenced. -/
  | wildPtr
  /-- The root collaborator is handed the NULL `rroot` of a Path. -/
  | nullRroot
  /-- An access outside an array: past the end of the one `redirfs_get_paths*`
  allocates, or outside the buffer `redirfs_get_filename` or `snprintf` is
  given. -/
  | overflow
  deriving DecidableEq, Repr

/-- Dereference a Path. -/
def Reg.deref (s : Reg) (p : Nat) : Except Oops RfsPath :=
  match s.heap p with
  | some r => .ok r
  | none => .error .wildPtr

/-- Write a Path. -/
def Reg.setPath (s : Reg) (p : Nat) (r : RfsPath) : Reg :=
  { s with heap := Function.update s.heap p (some r) }

/-- `kfree` a Path. -/
def Reg.free (s : Reg) (p : Nat) : Reg :=
  { s with heap := Function.update s.heap p none }

/-- Write a root. -/
def Reg.setRoot (s : Reg) (rt : Nat) (x : RfsRoot) : Reg :=
  { s with roots := Function.update s.roots rt x }

/-- Ghost: a chain object has been built, unless the result is "no chain". -/
def Reg.chainNew (s : Reg) (c : List Flt) : Reg :=
  if c = [] then s else { s with chains := s.chains + 1 }

/-- `rfs_chain_put`: a chain object is released, unless it is "no chain". -/
def Reg.chainPut (s : Reg) (c : List Flt) : Reg :=
  if c = [] then s else { s with chains := s.chains - 1 }

@[simp] theorem Reg.deref_ok {s : Reg} {p : Nat} {r : RfsPath} :
    s.deref p = .ok r ↔ s.heap p = some r := by
  unfold Reg.deref
  split <;> simp_all

theorem Reg.deref_of_heap {s : Reg} {p : Nat} {r : RfsPath} (h : s.heap p = some r) :
    s.deref p = .ok r := Reg.deref_ok.2 h

@[simp] theorem Reg.setPath_heap (s : Reg) (p : Nat) (r : RfsPath) :
    (s.setPath p r).heap = Function.update s.heap p (some r) := rfl

@[simp] theorem Reg.free_heap (s : Reg) (p : Nat) :
    (s.free p).heap = Function.update s.heap p none := rfl

@[simp] theorem Reg.setRoot_roots (s : Reg) (rt : Nat) (x : RfsRoot) :
    (s.setRoot rt x).roots = Function.update s.roots rt x := rfl

@[simp] theorem Reg.chainNew_chains (s : Reg) (c : List Flt) :
    (s.chainNew c).chains = s.chains + if c = [] then 0 else 1 := by
  unfold Reg.chainNew; split <;> simp

@[simp] theorem Reg.chainPut_chains (s : Reg) (c : List Flt) :
    (s.chainPut c).chains = s.chains - if c = [] then 0 else 1 := by
  unfold Reg.chainPut; split <;> simp

@[simp] theorem Reg.chainNew_roots (s : Reg) (c : List Flt) : (s.chainNew c).roots = s.roots := by
  unfold Reg.chainNew; split <;> rfl

@[simp] theorem Reg.chainPut_roots (s : Reg) (c : List Flt) : (s.chainPut c).roots = s.roots := by
  unfold Reg.chainPut; split <;> rfl

@[simp] theorem Reg.chainNew_pathsNr (s : Reg) (c : List Flt) :
    (s.chainNew c).pathsNr = s.pathsNr := by
  unfold Reg.chainNew; split <;> rfl

@[simp] theorem Reg.chainPut_pathsNr (s : Reg) (c : List Flt) :
    (s.chainPut c).pathsNr = s.pathsNr := by
  unfold Reg.chainPut; split <;> rfl

@[simp] theorem Reg.chainNew_heap (s : Reg) (c : List Flt) : (s.chainNew c).heap = s.heap := by
  unfold Reg.chainNew; split <;> rfl

@[simp] theorem Reg.chainPut_heap (s : Reg) (c : List Flt) : (s.chainPut c).heap = s.heap := by
  unfold Reg.chainPut; split <;> rfl

@[simp] theorem Reg.chainNew_list (s : Reg) (c : List Flt) : (s.chainNew c).list = s.list := by
  unfold Reg.chainNew; split <;> rfl

@[simp] theorem Reg.chainPut_list (s : Reg) (c : List Flt) : (s.chainPut c).list = s.list := by
  unfold Reg.chainPut; split <;> rfl

@[simp] theorem Reg.chainNew_next (s : Reg) (c : List Flt) : (s.chainNew c).next = s.next := by
  unfold Reg.chainNew; split <;> rfl

@[simp] theorem Reg.chainPut_next (s : Reg) (c : List Flt) : (s.chainPut c).next = s.next := by
  unfold Reg.chainPut; split <;> rfl

@[simp] theorem Reg.chainNew_handles (s : Reg) (c : List Flt) :
    (s.chainNew c).handles = s.handles := by
  unfold Reg.chainNew; split <;> rfl

@[simp] theorem Reg.chainPut_handles (s : Reg) (c : List Flt) :
    (s.chainPut c).handles = s.handles := by
  unfold Reg.chainPut; split <;> rfl

@[simp] theorem Reg.chainNew_rootOf (s : Reg) (c : List Flt) :
    (s.chainNew c).rootOf = s.rootOf := by
  unfold Reg.chainNew; split <;> rfl

@[simp] theorem Reg.chainPut_rootOf (s : Reg) (c : List Flt) :
    (s.chainPut c).rootOf = s.rootOf := by
  unfold Reg.chainPut; split <;> rfl

/-- Everything but the heap is left alone by a write to the heap. -/
@[simp] theorem Reg.setPath_list (s : Reg) (p : Nat) (r : RfsPath) :
    (s.setPath p r).list = s.list := rfl

@[simp] theorem Reg.free_list (s : Reg) (p : Nat) : (s.free p).list = s.list := rfl

@[simp] theorem Reg.setRoot_list (s : Reg) (rt : Nat) (x : RfsRoot) :
    (s.setRoot rt x).list = s.list := rfl

@[simp] theorem Reg.setRoot_heap (s : Reg) (rt : Nat) (x : RfsRoot) :
    (s.setRoot rt x).heap = s.heap := rfl

@[simp] theorem Reg.setRoot_next (s : Reg) (rt : Nat) (x : RfsRoot) :
    (s.setRoot rt x).next = s.next := rfl

@[simp] theorem Reg.setRoot_handles (s : Reg) (rt : Nat) (x : RfsRoot) :
    (s.setRoot rt x).handles = s.handles := rfl

@[simp] theorem Reg.setRoot_pathsNr (s : Reg) (rt : Nat) (x : RfsRoot) :
    (s.setRoot rt x).pathsNr = s.pathsNr := rfl

@[simp] theorem Reg.setRoot_rootOf (s : Reg) (rt : Nat) (x : RfsRoot) :
    (s.setRoot rt x).rootOf = s.rootOf := rfl

@[simp] theorem Reg.setPath_next (s : Reg) (p : Nat) (r : RfsPath) :
    (s.setPath p r).next = s.next := rfl

@[simp] theorem Reg.setPath_handles (s : Reg) (p : Nat) (r : RfsPath) :
    (s.setPath p r).handles = s.handles := rfl

@[simp] theorem Reg.setPath_pathsNr (s : Reg) (p : Nat) (r : RfsPath) :
    (s.setPath p r).pathsNr = s.pathsNr := rfl

@[simp] theorem Reg.setPath_roots (s : Reg) (p : Nat) (r : RfsPath) :
    (s.setPath p r).roots = s.roots := rfl

@[simp] theorem Reg.setPath_rootOf (s : Reg) (p : Nat) (r : RfsPath) :
    (s.setPath p r).rootOf = s.rootOf := rfl

@[simp] theorem Reg.free_next (s : Reg) (p : Nat) : (s.free p).next = s.next := rfl

@[simp] theorem Reg.free_handles (s : Reg) (p : Nat) : (s.free p).handles = s.handles := rfl

@[simp] theorem Reg.free_roots (s : Reg) (p : Nat) : (s.free p).roots = s.roots := rfl

@[simp] theorem Reg.free_pathsNr (s : Reg) (p : Nat) : (s.free p).pathsNr = s.pathsNr := rfl

/-! ### The monad of the code -/

@[simp] theorem except_ok_bind {ε α β : Type} (a : α) (f : α → Except ε β) :
    (Except.ok a >>= f) = f a := rfl

@[simp] theorem except_error_bind {ε α β : Type} (e : ε) (f : α → Except ε β) :
    (Except.error e >>= f) = Except.error e := rfl

@[simp] theorem except_pure {ε α : Type} (a : α) : (pure a : Except ε α) = .ok a := rfl

end RedirFS
