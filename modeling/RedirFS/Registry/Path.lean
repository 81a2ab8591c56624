import RedirFS.Registry.State

/-!
# The internal functions of `rfs_path.c`

Each `rfs_path_*` function of the file, as it computes, on the state of
`RedirFS.Registry.State`. A function that returns an `int` returns it beside
the new state; one that returns a pointer or an `ERR_PTR` returns an
`Except Int Nat`. The order of the effects is the code's, because it matters:
`rfs_path_rem_rroot` drops the root's reference before it clears `rroot`, and
a Path freed by the first would make the second a dereference of a dead
object.

Near-identical functions are one definition here: `rfs_path_find` and
`rfs_path_find_id` search the list with different tests
(`RedirFS.rfsPathLookup`), and the include and exclude versions of adding and
removing a filter differ only in the chain they touch
(`RedirFS.rfsPathAddChain`, `RedirFS.rfsPathRemChain`). The one difference
between siblings that the code has, the dcache walk of
`rfs_path_add_include` that `rfs_path_add_exclude` does not make, stays in
`RedirFS.rfsPathAddInclude`'s own body.
-/

namespace RedirFS

/-! ### Reference counting and the two lists -/

/-- `rfs_path_get`, on a Path that is not NULL. -/
def rfsPathGet (p : Nat) (s : Reg) : Except Oops Reg := do
  let r ← s.deref p
  if r.count = 0 then .error .bugOn
  else pure (s.setPath p { r with count := r.count + 1 })

/-- `rfs_path_put`, on a Path that is not NULL: the last reference frees it. -/
def rfsPathPut (p : Nat) (s : Reg) : Except Oops Reg := do
  let r ← s.deref p
  if r.count = 0 then .error .bugOn
  else if r.count = 1 then pure (s.free p)
  else pure (s.setPath p { r with count := r.count - 1 })

/-- The first Path on `rfs_path_list` a test accepts. -/
def Reg.firstOn (s : Reg) (P : RfsPath → Bool) : Option Nat :=
  s.list.find? fun p => (s.heap p).any P

/-- The loop `rfs_path_find` and `rfs_path_find_id` share: the first Path on
`rfs_path_list` the test accepts, with a reference taken on it. -/
def rfsPathLookup (P : RfsPath → Bool) (s : Reg) : Except Oops (Option Nat × Reg) :=
  match s.firstOn P with
  | none => pure (none, s)
  | some p => do
    let s ← rfsPathGet p s
    pure (some p, s)

/-- The test of `rfs_path_find`: the Path of `(mnt, dentry)`. -/
def RfsPath.isAt (r : RfsPath) (mnt dentry : Nat) : Bool := r.mnt == mnt && r.dentry == dentry

/-- `rfs_path_find`. -/
def rfsPathFind (mnt dentry : Nat) : Reg → Except Oops (Option Nat × Reg) :=
  rfsPathLookup fun r => r.isAt mnt dentry

/-- `rfs_path_find_id`. -/
def rfsPathFindId (id : Int) : Reg → Except Oops (Option Nat × Reg) :=
  rfsPathLookup fun r => r.id == id

/-- `rfs_path_add_rroot`: `rfs_root_add` finds or makes the root of the Path's
dentry, and `rfs_root_add_rpath` puts the Path on its list, which takes a
reference. -/
def rfsPathAddRroot (φ : Faults) (p : Nat) (s : Reg) : Except Oops (Int × Reg) := do
  let r ← s.deref p
  match φ.rootAdd with
  | some e => pure (e.rv, s)
  | none =>
    let rt := s.rootOf r.dentry
    let s := s.setRoot rt { s.roots rt with rpaths := (s.roots rt).rpaths ++ [p] }
    let s ← rfsPathGet p s
    let r ← s.deref p
    pure (0, s.setPath p { r with rroot := some rt })

/-- `rfs_path_rem_rroot`: `rfs_root_rem_rpath` takes the Path off its root's
list and drops that reference; then `rroot` is cleared. -/
def rfsPathRemRroot (p : Nat) (s : Reg) : Except Oops Reg := do
  let r ← s.deref p
  match r.rroot with
  | none => .error .nullRroot
  | some rt =>
    let s := s.setRoot rt { s.roots rt with rpaths := (s.roots rt).rpaths.erase p }
    let s ← rfsPathPut p s
    let r ← s.deref p
    pure (s.setPath p { r with rroot := none })

/-- `rfs_path_list_add`. -/
def rfsPathListAdd (p : Nat) (s : Reg) : Except Oops Reg :=
  rfsPathGet p { s with list := s.list ++ [p] }

/-- `rfs_path_list_rem`. -/
def rfsPathListRem (p : Nat) (s : Reg) : Except Oops Reg :=
  rfsPathPut p { s with list := s.list.erase p }

/-! ### Ids -/

/-- The ids of the Paths on `rfs_path_list`, in list order. -/
def Reg.ids (s : Reg) : List Int :=
  s.list.filterMap fun p => (s.heap p).map (·.id)

/-- One pass of the inner loop of `rfs_path_get_id`: `i` steps past every id
equal to it, in list order, and never looks back. -/
def idPass (ids : List Int) : Int :=
  ids.foldl (fun i id => if id = i then i + 1 else i) 0

/-- `rfs_path_get_id`. The outer loop tests `i < INT_MAX` once, with `i = 0`:
its body ends in `return i` after one pass of the inner loop, whose `continue`
continues the inner loop. -/
def rfsPathGetId (s : Reg) : Int :=
  if (0 : Int) < INT_MAX then idPass s.ids else -1

/-! ### Registering and unregistering a Path -/

/-- `rfs_path_add`: the Path of `(mnt, dentry)`, found or made, with a
reference for the caller. A new Path gets an id, is put on its root's list
and then on `rfs_path_list`; if the root refuses it, the allocation's
reference is dropped, which frees it. -/
def rfsPathAdd (φ : Faults) (mnt dentry : Nat) (s : Reg) :
    Except Oops (Except Int Nat × Reg) := do
  let (found, s) ← rfsPathFind mnt dentry s
  match found with
  | some p => pure (.ok p, s)
  | none =>
    let id := rfsPathGetId s
    if id < 0 then pure (.error (-EBUSY), s)
    else if φ.alloc then pure (.error (-ENOMEM), s)
    else
      let p := s.next
      let s := { s.setPath p ⟨id, mnt, dentry, [], [], none, 1⟩ with next := s.next + 1 }
      let (rv, s) ← rfsPathAddRroot φ p s
      if rv ≠ 0 then do
        let s ← rfsPathPut p s
        pure (.error rv, s)
      else do
        let s ← rfsPathListAdd p s
        pure (.ok p, s)

/-- `rfs_path_rem`: a Path both of whose chains are "no chain" leaves its root
and `rfs_path_list`. -/
def rfsPathRem (p : Nat) (s : Reg) : Except Oops Reg := do
  let r ← s.deref p
  if r.rinch ≠ [] ∨ r.rexch ≠ [] then pure s
  else do
    let s ← rfsPathRemRroot p s
    rfsPathListRem p s

/-! ### Adding and removing a filter -/

/-- What `rfs_path_add_include` and `rfs_path_add_exclude` do once the filter
is known to be in neither chain: build the chain with it, push it into the
root, and only then publish the chain and count the Path for the filter. -/
def rfsPathAddChain (m : Mode) (φ : Faults) (p : Nat) (f : Flt) (r : RfsPath)
    (s : Reg) : Except Oops (Int × Reg) :=
  match φ.chainAdd with
  | some e => pure (e.rv, s)
  | none =>
    let c := rfsChainAdd (r.chain m) f
    let s := s.chainNew c
    match r.rroot with
    | none => .error .nullRroot
    | some rt =>
      match φ.rootChain with
      | some e => pure (e.rv, s.chainPut c)
      | none =>
        let x := s.roots rt
        let s := s.setRoot rt
          (x.setChain m (if f ∈ x.chain m then x.chain m else rfsChainAdd (x.chain m) f))
        let s := (s.chainPut (r.chain m)).setPath p (r.setChain m c)
        pure (0, { s with pathsNr := Function.update s.pathsNr f (s.pathsNr f + 1) })

/-- `rfs_path_add_include`. Before building the chain it makes sure the
dcache of the Path's filesystem is walked (`rfs_path_add_dirs`), a step the
exclude version does not take. -/
def rfsPathAddInclude (φ : Faults) (p : Nat) (f : Flt) (s : Reg) :
    Except Oops (Int × Reg) := do
  let r ← s.deref p
  if rfsChainFind r.rinch f ≠ -1 then pure (0, s)
  else if rfsChainFind r.rexch f ≠ -1 then pure (-EEXIST, s)
  else match φ.addDirs with
    | some e => pure (e.rv, s)
    | none => rfsPathAddChain .include φ p f r s

/-- `rfs_path_add_exclude`. -/
def rfsPathAddExclude (φ : Faults) (p : Nat) (f : Flt) (s : Reg) :
    Except Oops (Int × Reg) := do
  let r ← s.deref p
  if rfsChainFind r.rexch f ≠ -1 then pure (0, s)
  else if rfsChainFind r.rinch f ≠ -1 then pure (-EEXIST, s)
  else rfsPathAddChain .exclude φ p f r s

/-- What `rfs_path_rem_include` and `rfs_path_rem_exclude` do: build the chain
without the filter, take it out of the root, and only then publish the chain
and uncount the Path for the filter. -/
def rfsPathRemChain (m : Mode) (φ : Faults) (p : Nat) (f : Flt) (s : Reg) :
    Except Oops (Int × Reg) := do
  let r ← s.deref p
  if rfsChainFind (r.chain m) f = -1 then pure (0, s)
  else match φ.chainRem with
    | some e => pure (e.rv, s)
    | none =>
      let c := rfsChainRem (r.chain m) f
      let s := s.chainNew c
      match r.rroot with
      | none => .error .nullRroot
      | some rt =>
        match φ.rootChain with
        | some e => pure (e.rv, s.chainPut c)
        | none =>
          let x := s.roots rt
          let s := s.setRoot rt (x.setChain m (rfsChainRem (x.chain m) f))
          let s := (s.chainPut (r.chain m)).setPath p (r.setChain m c)
          pure (0, { s with pathsNr := Function.update s.pathsNr f (s.pathsNr f - 1) })

/-- `rfs_path_rem_include`. -/
def rfsPathRemInclude : Faults → Nat → Flt → Reg → Except Oops (Int × Reg) :=
  rfsPathRemChain .include

/-- `rfs_path_rem_exclude`. -/
def rfsPathRemExclude : Faults → Nat → Flt → Reg → Except Oops (Int × Reg) :=
  rfsPathRemChain .exclude

end RedirFS
