import RedirFS.Registry.State

/-!
# Rename propagation: the code

`rfs_fsrename` and its seven helpers, the last part of `rfs_path.c`. When an
entry moves to another directory, the filters in force at it change from the
chain `S` of the root it was under (`rroot_src`, found through the entry's
cache record) to the chain `D` of the root of its new parent (`rroot_dst`,
found through the directory's `rfs_inode`). The code runs three phases. The
remove phase takes `rfs_chain_diff S D` and detaches its filters one at a
time; the set phase re-sets the filters the entry keeps under the new root;
the add phase takes `rfs_chain_diff D S` and attaches its filters. Each phase
works at one of two scopes. At *root scope* the moved entry is the source
root's own entry, and the root itself gets the filter
(`rfs_root_rem_flt`/`rfs_root_add_flt`), then every root below it
(`rfs_root_walk`). At *entry scope* the entry's cache is handed an
`rfs_info` with the chain built so far (`rfs_info_rem`/`rfs_info_add`).

## The state

`RedirFS.Rename.Fsr` holds what the rename reads of the world: the info of
every directory's `rfs_inode`, the cache record of every entry (an
`rfs_dentry`, by its info), and the entry and info of every root. It also has
four ghost fields:

* `held` is the ledger of references the rename code holds. Every `*_get`
  and `*_find` pushes one and every `*_put` pops one. A put of a reference
  the ledger does not have stops the run with `RedirFS.Rename.Crash.unheld`.
* `log` lists the collaborator calls that act on the namespace, and the
  chain operations with their inputs.
* `calls` counts the calls that can fail, so that the `n`-th one gets outcome
  `ω n` (`RedirFS.Rename.Outcomes`).
* `next` numbers the objects the collaborators make; a call that makes
  "no chain" uses a number too, which keeps the numbering simple.

## The collaborators

`rfs_chain.c`, `rfs_info.c`, `rfs_dentry.c`, `rfs_inode.c` and `rfs_root.c`
are not part of this development, so their calls are modelled from the spec:

* The chain algebra builds a new object, or "no chain" when the result is
  empty, and gives the caller a reference on it.
* `rfs_info_alloc` makes an info, with a reference for the caller.
* The four calls that hand an info to the per-entry cache (`rfs_info_rem`,
  `rfs_info_add`, `rfs_info_set`, `rfs_info_reset`) leave the entry's record
  holding it when they succeed. This is the spec's "holds the resolved
  chain currently in force".
* `rfs_root_rem_flt` and `rfs_root_add_flt` take the filter out of, or put
  it into, the root's merged chain. `rfs_root_walk` acts on the roots below
  the moved one, which the rename does not read again, so it is only logged.

Every call that can fail takes its outcome from `ω`, so a statement over
every `ω` is a statement over every combination of successes and failures.
The lookups (`rfs_inode_find`, `rfs_dentry_find`, `rfs_root_get`) cannot
fail. The code does not test `rfs_inode_find` for NULL, and the model gives
every directory a record. The mutex is not modelled. `new_dentry` is not
read.

The include/exclude roots of the registry (`RedirFS.Reg`) and the roots here
are views of one kind of object (`rfs_root`), each with the fields its own
part of the file reads.
-/

namespace RedirFS

namespace Rename

/-! ### Objects -/

/-- `struct rfs_chain`: an object, by its address, and the filters it holds.
A chain pointer is an `Option RfsChain`, NULL being "no chain". -/
structure RfsChain where
  id : Nat
  rflts : List Flt
  deriving DecidableEq, Repr

/-- The filters behind a chain pointer: none behind "no chain". -/
def flts : Option RfsChain → List Flt
  | none => []
  | some c => c.rflts

@[simp] theorem flts_none : flts none = [] := rfl

@[simp] theorem flts_some (c : RfsChain) : flts (some c) = c.rflts := rfl

/-- `struct rfs_info`, what a cache record and a root hold: the root an entry
is under and the chain in force there. -/
structure RfsInfo where
  id : Nat
  rroot : Option Nat
  rchain : Option RfsChain
  deriving DecidableEq, Repr

/-- The objects the rename code takes references on. -/
inductive Obj
  /-- An `rfs_root`. -/
  | root (id : Nat)
  /-- The `rfs_inode` of a directory. -/
  | inode (dir : Nat)
  /-- The `rfs_dentry` of an entry. -/
  | dentry (dentry : Nat)
  /-- An `rfs_chain`. -/
  | chain (id : Nat)
  /-- An `rfs_info`. -/
  | info (id : Nat)
  deriving DecidableEq, Repr

/-- The reference a chain pointer stands for: none for "no chain". -/
def chainObj (c : Option RfsChain) : Option Obj := c.map fun c => .chain c.id

/-- A logged call. -/
inductive Event
  /-- `rfs_chain_rem` on a chain holding `c`. -/
  | chainRem (c : List Flt) (f : Flt)
  /-- `rfs_chain_add` on a chain holding `c`. -/
  | chainAdd (c : List Flt) (f : Flt)
  /-- `rfs_info_rem` on the moved entry. -/
  | infoRem (f : Flt)
  /-- `rfs_info_add` on the moved entry. -/
  | infoAdd (f : Flt)
  /-- `rfs_info_set` on the moved entry. -/
  | infoSet (f : Flt)
  /-- `rfs_info_reset` on the moved entry. -/
  | infoReset
  /-- `rfs_root_rem_flt` on a root. -/
  | rootRemFlt (rroot : Nat) (f : Flt)
  /-- `rfs_root_add_flt` on a root. -/
  | rootAddFlt (rroot : Nat) (f : Flt)
  /-- Modelled from the spec: `rfs_root_walk` with `rfs_root_add_flt` (`add`) or
`rfs_root_rem_flt`. -/
  | rootWalk (add : Bool) (f : Flt)
  deriving DecidableEq, Repr

/-- How a run stops that C does not survive. -/
inductive Crash
  /-- `rchain_src->rflts_nr` with `rchain_src` NULL, in `rfs_fsrename_set`. -/
  | nullChain
  /-- A put of a reference the rename code does not hold. -/
  | unheld
  deriving DecidableEq, Repr

/-- What the rename reads of the world, and the ghost fields. -/
structure Fsr where
  /-- The info of the `rfs_inode` of each directory. -/
  inode : Nat → RfsInfo
  /-- The cache record of each entry, by its info, if it has one. -/
  dentry : Nat → Option RfsInfo
  /-- The entry of each root. -/
  rootDentry : Nat → Nat
  /-- The info of each root. -/
  rootInfo : Nat → RfsInfo
  /-- The address the next object made gets. -/
  next : Nat
  /-- The number of calls made so far that can fail. -/
  calls : Nat
  /-- The references the rename code holds. -/
  held : List Obj
  /-- The calls made so far. -/
  log : List Event

/-- The chain of a root. -/
def Fsr.rootChain (s : Fsr) (rroot : Nat) : Option RfsChain := (s.rootInfo rroot).rchain

/-- The outcome of every call that can fail, in the order of the calls:
`some e` makes it fail with `-e`. -/
abbrev Outcomes := Nat → Option Errno

/-- No collaborator fails. -/
def noFail : Outcomes := fun _ => none

/-! ### The ledger -/

/-- A reference taken. -/
def Fsr.acquire (s : Fsr) (o : Obj) : Fsr := { s with held := o :: s.held }

@[simp] theorem Fsr.acquire_held (s : Fsr) (o : Obj) : (s.acquire o).held = o :: s.held := rfl

@[simp] theorem Fsr.acquire_dentry (s : Fsr) (o : Obj) : (s.acquire o).dentry = s.dentry := rfl

/-- A reference dropped, which the code must hold. -/
def Fsr.release (s : Fsr) (o : Obj) : Except Crash Fsr :=
  if o ∈ s.held then .ok { s with held := s.held.erase o } else .error .unheld

/-- The `*_get` of a pointer that may be NULL: NULL takes no reference. -/
def Fsr.get (s : Fsr) : Option Obj → Fsr
  | none => s
  | some o => s.acquire o

theorem Fsr.get_eq (s : Fsr) (o : Option Obj) : s.get o = { s with held := o.toList ++ s.held } := by
  cases o <;> rfl

/-- The `*_put` of a pointer that may be NULL. -/
def Fsr.put (s : Fsr) : Option Obj → Except Crash Fsr
  | none => .ok s
  | some o => s.release o

/-- `rfs_chain_get`. -/
def Fsr.chainGet (s : Fsr) (c : Option RfsChain) : Fsr := s.get (chainObj c)

/-- `rfs_chain_put`. -/
def Fsr.chainPut (s : Fsr) (c : Option RfsChain) : Except Crash Fsr := s.put (chainObj c)

/-- `rfs_info_put`. -/
def Fsr.infoPut (s : Fsr) (rinfo : RfsInfo) : Except Crash Fsr := s.put (some (.info rinfo.id))

/-- `rfs_root_get`. -/
def Fsr.rootGet (s : Fsr) (rroot : Option Nat) : Option Nat × Fsr :=
  (rroot, s.get (rroot.map .root))

/-- `rfs_root_put`. -/
def Fsr.rootPut (s : Fsr) (rroot : Option Nat) : Except Crash Fsr := s.put (rroot.map .root)

/-- Modelled from the spec: `rfs_inode_find`, the info of a directory's
`rfs_inode`, with a reference on it. -/
def Fsr.inodeFind (s : Fsr) (dir : Nat) : RfsInfo × Fsr := (s.inode dir, s.acquire (.inode dir))

/-- `rfs_inode_put`. -/
def Fsr.inodePut (s : Fsr) (dir : Nat) : Except Crash Fsr := s.put (some (.inode dir))

/-- Modelled from the spec: `rfs_dentry_find`, the cache record of an entry,
by its info, with a reference on it, if the entry has one. -/
def Fsr.dentryFind (s : Fsr) (dentry : Nat) : Option RfsInfo × Fsr :=
  (s.dentry dentry, s.get ((s.dentry dentry).map fun _ => .dentry dentry))

/-- `rfs_dentry_put`. -/
def Fsr.dentryPut (s : Fsr) (dentry : Nat) (rdentry : Option RfsInfo) : Except Crash Fsr :=
  s.put (rdentry.map fun _ => .dentry dentry)

/-! ### The collaborators -/

/-- The chain operation of a phase: `rfs_chain_add` when it adds, `rfs_chain_rem`
when it removes. -/
def chainFn (add : Bool) : List Flt → Flt → List Flt := if add then rfsChainAdd else rfsChainRem

/-- The log entry of `RedirFS.Rename.chainFn`. -/
def chainEv (add : Bool) : List Flt → Flt → Event := if add then .chainAdd else .chainRem

/-- The call to the per-entry cache of a phase: `rfs_info_add` or `rfs_info_rem`. -/
def infoEv (add : Bool) : Flt → Event := if add then .infoAdd else .infoRem

/-- The call to the root of a phase: `rfs_root_add_flt` or `rfs_root_rem_flt`. -/
def rootEv (add : Bool) : Nat → Flt → Event := if add then .rootAddFlt else .rootRemFlt

@[simp] theorem chainFn_false : chainFn false = rfsChainRem := rfl

@[simp] theorem chainFn_true : chainFn true = rfsChainAdd := rfl

@[simp] theorem chainEv_false : chainEv false = .chainRem := rfl

@[simp] theorem chainEv_true : chainEv true = .chainAdd := rfl

@[simp] theorem infoEv_false : infoEv false = .infoRem := rfl

@[simp] theorem infoEv_true : infoEv true = .infoAdd := rfl

@[simp] theorem rootEv_false : rootEv false = .rootRemFlt := rfl

@[simp] theorem rootEv_true : rootEv true = .rootAddFlt := rfl

/-- The chain object at address `a` holding `fs`, or "no chain" when `fs` is
empty. -/
def mkChain (a : Nat) : List Flt → Option RfsChain
  | [] => none
  | f :: fs => some ⟨a, f :: fs⟩

@[simp] theorem flts_mkChain (a : Nat) (fs : List Flt) : flts (mkChain a fs) = fs := by
  cases fs <;> rfl

@[simp] theorem mkChain_eq_none {a : Nat} {fs : List Flt} : mkChain a fs = none ↔ fs = [] := by
  cases fs <;> simp [mkChain]

section Collaborators

variable (ω : Outcomes)

/-- A call that can fail, logged as `ev`: its outcome is the next one of `ω`. -/
def Fsr.call (s : Fsr) (ev : List Event) : Option Errno × Fsr :=
  (ω s.calls, { s with calls := s.calls + 1, log := s.log ++ ev })

/-- Modelled from the spec: what a call of the chain algebra returns, the chain
holding `fs`, with a reference for the caller. -/
def Fsr.chainOp (s : Fsr) (ev : List Event) (fs : List Flt) :
    Except Errno (Option RfsChain) × Fsr :=
  match s.call ω ev with
  | (some e, s) => (.error e, s)
  | (none, s) =>
    let c := mkChain s.next fs
    (.ok c, { s with next := s.next + 1 }.chainGet c)

/-- `rfs_chain_diff`. -/
def Fsr.chainDiff (s : Fsr) (a b : Option RfsChain) : Except Errno (Option RfsChain) × Fsr :=
  s.chainOp ω [] (rfsChainDiff (flts a) (flts b))

/-- The chain `rfs_fsrename_rem` and `rfs_fsrename_add` work through, from the
chain of root `a`: all of it (`rfs_chain_get`) when there is no other root
`b`, else the filters `b`'s chain lacks (`rfs_chain_diff`). -/
def Fsr.phaseChain (s : Fsr) (a : Nat) (b : Option Nat) : Except Errno (Option RfsChain) × Fsr :=
  match b with
  | none => (.ok (s.rootChain a), s.chainGet (s.rootChain a))
  | some b => s.chainDiff ω (s.rootChain a) (s.rootChain b)

/-- `rfs_chain_add` (`add`) or `rfs_chain_rem`, logged with its input. -/
def Fsr.chainStep (s : Fsr) (add : Bool) (c : Option RfsChain) (f : Flt) :
    Except Errno (Option RfsChain) × Fsr :=
  s.chainOp ω [chainEv add (flts c) f] (chainFn add (flts c) f)

/-- `rfs_chain_rem`. -/
def Fsr.chainRem (s : Fsr) (c : Option RfsChain) (f : Flt) : Except Errno (Option RfsChain) × Fsr :=
  s.chainStep ω false c f

/-- `rfs_chain_add`. -/
def Fsr.chainAdd (s : Fsr) (c : Option RfsChain) (f : Flt) : Except Errno (Option RfsChain) × Fsr :=
  s.chainStep ω true c f

/-- Modelled from the spec: `rfs_info_alloc`, a new info for the root and the
chain, with a reference for the caller. -/
def Fsr.infoAlloc (s : Fsr) (rroot : Nat) (c : Option RfsChain) : Except Errno RfsInfo × Fsr :=
  match s.call ω [] with
  | (some e, s) => (.error e, s)
  | (none, s) => (.ok ⟨s.next, some rroot, c⟩, { s with next := s.next + 1 }.acquire (.info s.next))

/-- Modelled from the spec: a call that hands an info to the cache of an entry,
logged as `ev`; when it succeeds the entry's record holds the info. -/
def Fsr.infoHand (s : Fsr) (ev : Event) (dentry : Nat) (rinfo : RfsInfo) : Int × Fsr :=
  match s.call ω [ev] with
  | (some e, s) => (e.rv, s)
  | (none, s) => (0, { s with dentry := Function.update s.dentry dentry (some rinfo) })

/-- `rfs_info_add` (`add`) or `rfs_info_rem`. -/
def Fsr.infoStep (s : Fsr) (add : Bool) (dentry : Nat) (rinfo : RfsInfo) (f : Flt) : Int × Fsr :=
  s.infoHand ω (infoEv add f) dentry rinfo

/-- `rfs_info_rem`. -/
def Fsr.infoRem (s : Fsr) (dentry : Nat) (rinfo : RfsInfo) (f : Flt) : Int × Fsr :=
  s.infoStep ω false dentry rinfo f

/-- `rfs_info_add`. -/
def Fsr.infoAdd (s : Fsr) (dentry : Nat) (rinfo : RfsInfo) (f : Flt) : Int × Fsr :=
  s.infoStep ω true dentry rinfo f

/-- `rfs_info_set`. -/
def Fsr.infoSet (s : Fsr) (dentry : Nat) (rinfo : RfsInfo) (f : Flt) : Int × Fsr :=
  s.infoHand ω (.infoSet f) dentry rinfo

/-- `rfs_info_reset`. -/
def Fsr.infoReset (s : Fsr) (dentry : Nat) (rinfo : RfsInfo) : Int × Fsr :=
  s.infoHand ω .infoReset dentry rinfo

/-- Modelled from the spec: `rfs_root_add_flt` (`add`) or `rfs_root_rem_flt`;
when the call succeeds the root's merged chain gains, or loses, the filter. -/
def Fsr.rootFlt (s : Fsr) (add : Bool) (rroot : Nat) (f : Flt) : Int × Fsr :=
  match s.call ω [rootEv add rroot f] with
  | (some e, s) => (e.rv, s)
  | (none, s) =>
    let c := mkChain s.next (chainFn add (flts (s.rootChain rroot)) f)
    (0, { s with next := s.next + 1,
                 rootInfo := Function.update s.rootInfo rroot { s.rootInfo rroot with rchain := c } })

/-- Modelled from the spec: `rfs_root_walk` with `rfs_root_add_flt` (`add`) or
`rfs_root_rem_flt`. -/
def Fsr.rootWalk (s : Fsr) (add : Bool) (f : Flt) : Int × Fsr :=
  match s.call ω [.rootWalk add f] with
  | (some e, s) => (e.rv, s)
  | (none, s) => (0, s)

end Collaborators

/-! ### The code -/

section Code

variable (ω : Outcomes)

/-- The loop of `rfs_fsrename_add_rroot` (`add`) and of
`rfs_fsrename_rem_rroot`: each filter goes to the root, then to the walk over
the roots below it. -/
def rrootLoop (add : Bool) (rroot : Nat) : List Flt → Fsr → Int × Fsr
  | [], s => (0, s)
  | f :: fs, s =>
    let (rv, s) := s.rootFlt ω add rroot f
    if rv ≠ 0 then (rv, s) else
    let (rv, s) := s.rootWalk ω add f
    if rv ≠ 0 then (rv, s) else rrootLoop add rroot fs s

/-- `rfs_fsrename_add_rroot` (`add`) and `rfs_fsrename_rem_rroot`. -/
def rfsFsrenameRroot (add : Bool) (rroot : Nat) (rchain : Option RfsChain) (s : Fsr) : Int × Fsr :=
  match rchain with
  | none => (0, s)
  | some c => rrootLoop ω add rroot c.rflts s

/-- `rfs_fsrename_rem_rroot`. -/
def rfsFsrenameRemRroot (rroot : Nat) (rchain : Option RfsChain) (s : Fsr) : Int × Fsr :=
  rfsFsrenameRroot ω false rroot rchain s

/-- `rfs_fsrename_add_rroot`. -/
def rfsFsrenameAddRroot (rroot : Nat) (rchain : Option RfsChain) (s : Fsr) : Int × Fsr :=
  rfsFsrenameRroot ω true rroot rchain s

/-- The loop of `rfs_fsrename_add_dentry` (`add`) and of
`rfs_fsrename_rem_dentry`. `c` is `rchadd` or `rchrem`: the chain the next
filter is added to or taken from, and the one chain reference the loop holds.
The loop gives it back with `rv` to the code after `exit:`, which drops it. -/
def dentryLoop (add : Bool) (rroot dentry : Nat) :
    List Flt → Option RfsChain → Fsr → Except Crash (Int × Option RfsChain × Fsr)
  | [], c, s => pure (0, c, s)
  | f :: fs, c, s =>
    match s.chainStep ω add c f with
    | (.error e, s) => pure (e.rv, c, s)
    | (.ok cnew, s) => do
      let s ← s.chainPut c
      match s.infoAlloc ω rroot cnew with
      | (.error e, s) => pure (e.rv, cnew, s)
      | (.ok rinfo, s) => do
        let (rv, s) := s.infoStep ω add dentry rinfo f
        let s ← s.infoPut rinfo
        if rv ≠ 0 then pure (rv, cnew, s) else dentryLoop add rroot dentry fs cnew s

/-- `rfs_fsrename_rem_dentry`: the filters go, one at a time, out of the
root's chain, and each chain is handed to the entry. -/
def rfsFsrenameRemDentry (rroot : Nat) (rchain : Option RfsChain) (dentry : Nat) (s : Fsr) :
    Except Crash (Int × Fsr) :=
  match rchain with
  | none => pure (0, s)
  | some c => do
    let rchrem := s.rootChain rroot
    let (rv, rchrem, s) ← dentryLoop ω false rroot dentry c.rflts rchrem (s.chainGet rchrem)
    let s ← s.chainPut rchrem
    pure (rv, s)

/-- `rfs_fsrename_add_dentry`: the filters go, one at a time, into the chain
of the entry's record, each chain is handed to the entry, and the entry is
then reset to the root's info. -/
def rfsFsrenameAddDentry (rroot : Nat) (rchain : Option RfsChain) (dentry : Nat) (s : Fsr) :
    Except Crash (Int × Fsr) :=
  match rchain with
  | none => pure (s.infoReset ω dentry (s.rootInfo rroot))
  | some c => do
    let (rdentry, s) := s.dentryFind dentry
    let rchadd := rdentry.bind (·.rchain)
    let (rv, rchadd, s) ← dentryLoop ω true rroot dentry c.rflts rchadd (s.chainGet rchadd)
    let (rv, s) := if rv ≠ 0 then (rv, s) else s.infoReset ω dentry (s.rootInfo rroot)
    let s ← s.dentryPut dentry rdentry
    let s ← s.chainPut rchadd
    pure (rv, s)

/-- `rfs_fsrename_rem`. -/
def rfsFsrenameRem (src dst : Option Nat) (dentry : Nat) (s : Fsr) : Except Crash (Int × Fsr) :=
  match src with
  | none => pure (0, s)
  | some src => do
    let (rchain, s) := s.phaseChain ω src dst
    match rchain with
    | .error e => pure (e.rv, s)
    | .ok rchain => do
      let (rv, s) ← if s.rootDentry src = dentry then pure (rfsFsrenameRemRroot ω src rchain s)
        else rfsFsrenameRemDentry ω src rchain dentry s
      let s ← s.chainPut rchain
      pure (rv, s)

/-- The loop of `rfs_fsrename_set`: each filter of the entry's chain that the
destination's chain has too is set again, with an info of the destination
root. -/
def setLoop (rroot dentry : Nat) (rchainSrc rchainDst : Option RfsChain) :
    List Flt → Fsr → Except Crash (Int × Fsr)
  | [], s => pure (0, s)
  | f :: fs, s =>
    if rfsChainFind (flts rchainDst) f = -1 then setLoop rroot dentry rchainSrc rchainDst fs s
    else match s.infoAlloc ω rroot rchainSrc with
      | (.error e, s) => pure (e.rv, s)
      | (.ok rinfo, s) => do
        let (rv, s) := s.infoSet ω dentry rinfo f
        let s ← s.infoPut rinfo
        if rv ≠ 0 then pure (rv, s) else setLoop rroot dentry rchainSrc rchainDst fs s

/-- `rfs_fsrename_set`. The entry's chain is read through its record and
dereferenced without a test for NULL. -/
def rfsFsrenameSet (src dst : Option Nat) (dentry : Nat) (s : Fsr) : Except Crash (Int × Fsr) :=
  match src, dst with
  | some src, some dst =>
    if s.rootDentry src = dentry then pure (0, s)
    else match s.dentryFind dentry with
      | (none, s) => pure (0, s)
      | (some rinfo, s) =>
        match rinfo.rchain with
        | none => .error .nullChain
        | some rchainSrc => do
          let (rv, s) ← setLoop ω dst dentry (some rchainSrc) (s.rootChain dst) rchainSrc.rflts s
          let s ← s.dentryPut dentry (some rinfo)
          pure (rv, s)
  | _, _ => pure (0, s)

/-- `rfs_fsrename_add`. At root scope the filters go to the source root, as
the code has it. -/
def rfsFsrenameAdd (src dst : Option Nat) (dentry : Nat) (s : Fsr) : Except Crash (Int × Fsr) :=
  match dst with
  | none => pure (0, s)
  | some dst => do
    let (rchain, s) := s.phaseChain ω dst src
    match rchain with
    | .error e => pure (e.rv, s)
    | .ok rchain => do
      let (rv, s) ← match src with
        | some src =>
          if s.rootDentry src = dentry then pure (rfsFsrenameAddRroot ω src rchain s)
          else rfsFsrenameAddDentry ω dst rchain dentry s
        | none => rfsFsrenameAddDentry ω dst rchain dentry s
      let s ← s.chainPut rchain
      pure (rv, s)

/-- The three phases of `rfs_fsrename`; the first failure ends them. -/
def rfsFsrenamePhases (src dst : Option Nat) (dentry : Nat) (s : Fsr) :
    Except Crash (Int × Fsr) := do
  let (rv, s) ← rfsFsrenameRem ω src dst dentry s
  if rv ≠ 0 then pure (rv, s) else do
    let (rv, s) ← rfsFsrenameSet ω src dst dentry s
    if rv ≠ 0 then pure (rv, s) else rfsFsrenameAdd ω src dst dentry s

/-- The root `rfs_fsrename` finds for the moved entry: the root of its record,
if the record has a chain. -/
def srcOf (rdentry : Option RfsInfo) : Option Nat :=
  match rdentry with
  | some rinfo => if rinfo.rchain.isSome then rinfo.rroot else none
  | none => none

/-- The root `rfs_fsrename` finds for the destination directory. -/
def dstOf (rinode : RfsInfo) : Option Nat :=
  if rinode.rchain.isSome then rinode.rroot else none

/-- `rfs_fsrename`. -/
def rfsFsrename (oldDir oldDentry newDir : Nat) (s : Fsr) : Except Crash (Int × Fsr) :=
  if oldDir = newDir then pure (0, s) else do
    let (rinode, s) := s.inodeFind newDir
    let (rdentry, s) := s.dentryFind oldDentry
    let (dst, s) := s.rootGet (dstOf rinode)
    let (src, s) := s.rootGet (srcOf rdentry)
    let (rv, s) ← if src = dst then pure (0, s) else rfsFsrenamePhases ω src dst oldDentry s
    let s ← s.rootPut src
    let s ← s.rootPut dst
    let s ← s.inodePut newDir
    let s ← s.dentryPut oldDentry rdentry
    pure (rv, s)

end Code

end Rename

end RedirFS
