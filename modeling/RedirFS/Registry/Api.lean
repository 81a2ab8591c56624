import RedirFS.Registry.Path

/-!
# The exported functions of `rfs_path.c`, and the runs of the registry

The `redirfs_*` functions of the file a filter calls, on the state of
`RedirFS.Registry.State`, and the runs they make: `RedirFS.Reachable` is every
state a sequence of calls reaches from the empty registry, whatever each
collaborator does at each call (`RedirFS.Faults`).

The callers' side is recorded in the ghost list `handles`: a call that hands
out a reference adds it, a call that gives one back removes it. The only thing
`RedirFS.Reachable` asks of the callers is what the API's documentation asks
of them: a handle passed to `redirfs_rem_path`, `redirfs_get_path`,
`redirfs_put_path` or `redirfs_put_paths` is one the caller holds. Which
filter, which Path, which mode and which id a caller passes is free, and so is
the order of the calls.

A run is a sequence of whole calls: the locks are not modelled, and that
each call runs alone is an assumption here. The code gives it for most calls.
`redirfs_add_path`, `redirfs_rem_path` and `redirfs_get_paths` hold
`rfs_path_mutex` throughout, `redirfs_get_paths_root` holds its root's
spinlock, and `redirfs_get_path` and `redirfs_put_path` only change an atomic
count. It does not give it for two functions. `redirfs_rem_paths` drops the
mutex between `redirfs_get_paths` and each `redirfs_rem_path` of its loop;
`RedirFS.Registry.Interleave` runs it as those pieces, interleaved with the
other calls. `redirfs_get_path_id` walks `rfs_path_list` with no lock; it is
assumed not to overlap a change of the list.
-/

namespace RedirFS

/-- `struct redirfs_path_info`: the Path to register, and the mode. -/
structure PathInfo where
  mnt : Option Nat
  dentry : Option Nat
  flags : Int
  deriving DecidableEq, Repr

/-- Modelled from the spec: `REDIRFS_PATH_INCLUDE` of `redirfs.h`, which is not
part of this development. The code only compares flags with it and with
`REDIRFS_PATH_EXCLUDE`, so any two different nonzero values behave alike. -/
def REDIRFS_PATH_INCLUDE : Int := 1

/-- Modelled from the spec: `REDIRFS_PATH_EXCLUDE` of `redirfs.h`. -/
def REDIRFS_PATH_EXCLUDE : Int := 2

/-- The flags of a mode. -/
def Mode.flags : Mode → Int
  | .include => REDIRFS_PATH_INCLUDE
  | .exclude => REDIRFS_PATH_EXCLUDE

/-! ### Registering and unregistering -/

/-- The test of `redirfs_add_path` on its flags: add the filter to the chain the
flags name, or fail with `-EINVAL`. -/
def addByFlags (flags : Int) (φ : Faults) (p : Nat) (f : Flt) (s : Reg) :
    Except Oops (Int × Reg) :=
  if flags = REDIRFS_PATH_INCLUDE then rfsPathAddInclude φ p f s
  else if flags = REDIRFS_PATH_EXCLUDE then rfsPathAddExclude φ p f s
  else pure (-EINVAL, s)

/-- `redirfs_add_path`: find or make the Path, add the filter in the mode of
the flags, and drop the Path again if it ends with no filter. On success the
reference `rfs_path_add` took is the caller's handle. -/
def redirfsAddPath (φ : Faults) (filter : Option Flt) (info : Option PathInfo) (s : Reg) :
    Except Oops (Except Int Nat × Reg) :=
  match filter, info with
  | some f, some ⟨some mnt, some dentry, flags⟩ =>
    if flags = 0 then pure (.error (-EINVAL), s)
    else do
      let (res, s) ← rfsPathAdd φ mnt dentry s
      match res with
      | .error e => pure (.error e, s)
      | .ok p => do
        let (rv, s) ← addByFlags flags φ p f s
        let s ← rfsPathRem p s
        if rv ≠ 0 then do
          let s ← rfsPathPut p s
          pure (.error rv, s)
        else pure (.ok p, { s with handles := s.handles ++ [p] })
  | _, _ => pure (.error (-EINVAL), s)

/-- `redirfs_rem_path`: remove the filter from whichever chain of the Path holds
it, then drop the Path if it has no filter left. The Path is dereferenced once
more at the end, to unlock its filesystem's rename mutex. -/
def redirfsRemPath (φ : Faults) (filter : Option Flt) (path : Option Nat) (s : Reg) :
    Except Oops (Int × Reg) :=
  match filter, path with
  | some f, some p => do
    let r ← s.deref p
    let (rv, s) ←
      if rfsChainFind r.rinch f ≠ -1 then rfsPathRemInclude φ p f s
      else if rfsChainFind r.rexch f ≠ -1 then rfsPathRemExclude φ p f s
      else pure (-EINVAL, s)
    let s ← rfsPathRem p s
    let _ ← s.deref p
    pure (rv, s)
  | _, _ => pure (-EINVAL, s)

/-! ### Handles -/

/-- `redirfs_get_id_path`: the id of a Path. -/
def redirfsGetIdPath (path : Option Nat) (s : Reg) : Except Oops Int :=
  match path with
  | none => pure (-EINVAL)
  | some p => do
    let r ← s.deref p
    pure r.id

/-- `redirfs_get_path_id`: the first registered Path with that id, with a
reference for the caller. -/
def redirfsGetPathId (id : Int) (s : Reg) : Except Oops (Option Nat × Reg) := do
  let (found, s) ← rfsPathFindId id s
  match found with
  | some p => pure (some p, { s with handles := s.handles ++ [p] })
  | none => pure (none, s)

/-- `redirfs_get_path`. -/
def redirfsGetPath (path : Option Nat) (s : Reg) : Except Oops (Option Nat × Reg) :=
  match path with
  | none => pure (none, s)
  | some p => do
    let s ← rfsPathGet p s
    pure (some p, { s with handles := s.handles ++ [p] })

/-- `redirfs_put_path`. -/
def redirfsPutPath (path : Option Nat) (s : Reg) : Except Oops Reg :=
  match path with
  | none => pure s
  | some p => do
    let s ← rfsPathPut p s
    pure { s with handles := s.handles.erase p }

/-- The loop `redirfs_get_paths` and `redirfs_get_paths_root` share: walk a
list of Paths, and store a new reference to each one the test accepts into an
array of `cap` slots, which must also hold the NULL that ends it. -/
def collectPaths (sel : RfsPath → Bool) (cap : Int) :
    List Nat → List Nat → Reg → Except Oops (List Nat × Reg)
  | [], acc, s => if (acc.length : Int) < cap then pure (acc, s) else .error .overflow
  | p :: ps, acc, s => do
    let r ← s.deref p
    if sel r then
      if (acc.length : Int) < cap then do
        let s ← rfsPathGet p s
        collectPaths sel cap ps (acc ++ [p]) s
      else .error .overflow
    else collectPaths sel cap ps acc s

/-- `redirfs_get_paths`: every Path on `rfs_path_list` one of whose chains
holds the filter, in list order, in an array of `paths_nr + 1` slots. -/
def redirfsGetPaths (φ : Faults) (filter : Option Flt) (s : Reg) :
    Except Oops (Except Int (List Nat) × Reg) :=
  match filter with
  | none => pure (.error (-EINVAL), s)
  | some f =>
    if φ.alloc then pure (.error (-ENOMEM), s)
    else do
      let (ps, s) ← collectPaths
        (fun r => rfsChainFind r.rinch f ≠ -1 || rfsChainFind r.rexch f ≠ -1)
        (s.pathsNr f + 1) s.list [] s
      pure (.ok ps, { s with handles := s.handles ++ ps })

/-- `redirfs_get_paths_root`: the Paths on a root's list, in an array of
`paths_nr + 1` slots of the root. The test of its loop reads the chains of the
root, `rroot->rinch` and `rroot->rexch`, where `redirfs_get_paths` reads those
of the Path. -/
def redirfsGetPathsRoot (φ : Faults) (filter : Option Flt) (root : Option Nat) (s : Reg) :
    Except Oops (Except Int (List Nat) × Reg) :=
  match filter, root with
  | some f, some rt =>
    let x := s.roots rt
    if φ.alloc then pure (.error (-ENOMEM), s)
    else do
      let (ps, s) ← collectPaths
        (fun _ => rfsChainFind x.rinch f ≠ -1 || rfsChainFind x.rexch f ≠ -1)
        (x.rpaths.length + 1) x.rpaths [] s
      pure (.ok ps, { s with handles := s.handles ++ ps })
  | _, _ => pure (.error (-EINVAL), s)

/-- `redirfs_put_paths`, on the handles of an array up to its NULL. -/
def redirfsPutPaths : List Nat → Reg → Except Oops Reg
  | [], s => pure s
  | p :: ps, s => do
    let s ← redirfsPutPath (some p) s
    redirfsPutPaths ps s

/-- `redirfs_get_path_info`: the mode in which a Path holds a filter, with its
mount and dentry. -/
def redirfsGetPathInfo (φ : Faults) (filter : Option Flt) (path : Option Nat) (s : Reg) :
    Except Oops (Except Int PathInfo) :=
  match filter, path with
  | some f, some p =>
    if φ.alloc then pure (.error (-ENOMEM))
    else do
      let r ← s.deref p
      let flags :=
        if rfsChainFind r.rinch f ≠ -1 then REDIRFS_PATH_INCLUDE
        else if rfsChainFind r.rexch f ≠ -1 then REDIRFS_PATH_EXCLUDE
        else 0
      if flags = 0 then pure (.error (-ENODATA))
      else pure (.ok ⟨some r.mnt, some r.dentry, flags⟩)
  | _, _ => pure (.error (-EINVAL))

/-- The loop of `redirfs_rem_paths` from the `i`-th handle of the array on,
with `rv` the value of its variable so far; the `i`-th call of
`redirfs_rem_path` meets the collaborators' outcomes `φs i`. -/
def remPathsLoop (φs : Nat → Faults) (f : Flt) : Nat → List Nat → Int → Reg →
    Except Oops (Int × Reg)
  | _, [], rv, s => pure (rv, s)
  | i, p :: ps, _, s => do
    let (rv, s) ← redirfsRemPath (φs i) (some f) (some p) s
    if rv ≠ 0 then pure (rv, s) else remPathsLoop φs f (i + 1) ps rv s

/-- `redirfs_rem_paths`. Its local `rv` is never assigned before the loop, so
when the loop does not run the function returns whatever that variable held:
`rv` is that indeterminate value. -/
def redirfsRemPaths (φ : Faults) (φs : Nat → Faults) (rv : Int) (filter : Option Flt)
    (s : Reg) : Except Oops (Int × Reg) :=
  match filter with
  | none => pure (-EINVAL, s)
  | some f => do
    let (res, s) ← redirfsGetPaths φ (some f) s
    match res with
    | .error e => pure (e, s)
    | .ok ps => do
      let (rv, s) ← remPathsLoop φs f 0 ps rv s
      let s ← redirfsPutPaths ps s
      pure (rv, s)

/-! ### Runs -/

/-- A call of the API, with what its collaborators do. -/
inductive Call
  | addPath (φ : Faults) (filter : Option Flt) (info : Option PathInfo)
  | remPath (φ : Faults) (filter : Option Flt) (path : Option Nat)
  | remPaths (φ : Faults) (φs : Nat → Faults) (rv : Int) (filter : Option Flt)
  | getPathId (id : Int)
  | getPath (path : Option Nat)
  | putPath (path : Option Nat)
  | getPaths (φ : Faults) (filter : Option Flt)
  | getPathsRoot (φ : Faults) (filter : Option Flt) (root : Option Nat)
  | putPaths (paths : List Nat)

/-- What a call returns. -/
inductive Ret
  /-- An `int`. -/
  | rv (v : Int)
  /-- A Path or an `ERR_PTR`. -/
  | path (r : Except Int Nat)
  /-- A Path or NULL. -/
  | found (p : Option Nat)
  /-- An array of Paths or an `ERR_PTR`. -/
  | paths (r : Except Int (List Nat))
  /-- Nothing. -/
  | done

/-- One call. -/
def apiStep (s : Reg) : Call → Except Oops (Ret × Reg)
  | .addPath φ f i => (redirfsAddPath φ f i s).map fun (r, s) => (.path r, s)
  | .remPath φ f p => (redirfsRemPath φ f p s).map fun (r, s) => (.rv r, s)
  | .remPaths φ φs rv f => (redirfsRemPaths φ φs rv f s).map fun (r, s) => (.rv r, s)
  | .getPathId id => (redirfsGetPathId id s).map fun (r, s) => (.found r, s)
  | .getPath p => (redirfsGetPath p s).map fun (r, s) => (.found r, s)
  | .putPath p => (redirfsPutPath p s).map fun s => (.done, s)
  | .getPaths φ f => (redirfsGetPaths φ f s).map fun (r, s) => (.paths r, s)
  | .getPathsRoot φ f rt => (redirfsGetPathsRoot φ f rt s).map fun (r, s) => (.paths r, s)
  | .putPaths ps => (redirfsPutPaths ps s).map fun s => (.done, s)

/-- The callers' part of the contract: a handle a call is given is one the
caller holds. -/
def Call.held (s : Reg) : Call → Bool
  | .remPath _ _ (some p) => decide (p ∈ s.handles)
  | .getPath (some p) => decide (p ∈ s.handles)
  | .putPath (some p) => decide (p ∈ s.handles)
  | .putPaths ps => ps.all fun p => decide (ps.count p ≤ s.handles.count p)
  | _ => true

/-- The states a run of calls reaches from a freshly loaded module. -/
inductive Reachable : Reg → Prop
  | init (rootOf : Nat → Nat) : Reachable (Reg.init rootOf)
  | step {s s' : Reg} {c : Call} {ret : Ret} :
      Reachable s → c.held s = true → apiStep s c = .ok (ret, s') → Reachable s'

/-- Calls made one after the other; the run stops at the first that goes
wrong. -/
def Reg.run (s : Reg) : List Call → Except Oops Reg
  | [] => .ok s
  | c :: cs =>
    match apiStep s c with
    | .ok (_, s') => s'.run cs
    | .error e => .error e

/-- Every call of a run is given only handles its caller holds. -/
def Reg.heldAlong (s : Reg) : List Call → Bool
  | [] => true
  | c :: cs =>
    c.held s &&
      match apiStep s c with
      | .ok (_, s') => s'.heldAlong cs
      | .error _ => true

/-- Two runs one after the other are one run. -/
theorem Reg.run_append (s : Reg) (cs ds : List Call) :
    s.run (cs ++ ds) = s.run cs >>= fun t => t.run ds := by
  induction cs generalizing s with
  | nil => rfl
  | cons c cs ih =>
    simp only [List.cons_append, Reg.run]
    cases apiStep s c with
    | error e => rfl
    | ok x => exact ih x.2

/-- The callers keep the contract along two runs one after the other when
they keep it along each. -/
theorem Reg.heldAlong_append {s t : Reg} {cs : List Call} (ds : List Call) (h : s.run cs = .ok t) :
    s.heldAlong (cs ++ ds) = (s.heldAlong cs && t.heldAlong ds) := by
  induction cs generalizing s with
  | nil => cases h; simp [Reg.heldAlong]
  | cons c cs ih =>
    simp only [Reg.run] at h
    simp only [List.cons_append, Reg.heldAlong]
    split at h
    · next hstep => simp only [hstep, List.append_eq, ih h, Bool.and_assoc]
    · cases h

/-- A run of calls that keep the callers' contract ends in a reachable state. -/
theorem Reachable.run {s s' : Reg} {cs : List Call} (hs : Reachable s)
    (h : s.run cs = .ok s') (hh : s.heldAlong cs = true) : Reachable s' := by
  induction cs generalizing s with
  | nil => cases h; exact hs
  | cons c cs ih =>
    simp only [Reg.run] at h
    simp only [Reg.heldAlong, Bool.and_eq_true] at hh
    split at h
    · next ret s₁ hstep =>
      rw [hstep] at hh
      exact ih (hs.step hh.1 hstep) h hh.2
    · cases h

end RedirFS
