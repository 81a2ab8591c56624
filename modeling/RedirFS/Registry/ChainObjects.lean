import Mathlib.Algebra.BigOperators.Group.List
import Mathlib.Algebra.Ring.Int.Defs
import RedirFS.Registry.Moves

/-!
# Chain objects: every one built is held or released

`rfs_path_add_include`, `rfs_path_add_exclude`, `rfs_path_rem_include` and
`rfs_path_rem_exclude` build a chain object with `rfs_chain_add` or
`rfs_chain_rem` and release one with `rfs_chain_put`; the ghost counter
`chains` of `RedirFS.Reg` counts those built and not released. In every
reachable state it is the number of chains of the registered Paths that are
not "no chain" (`RedirFS.chains_eq_heldChains`). The delicate cases are the
failures: a chain built for a root that refuses the filter is released again,
and a Path leaves `rfs_path_list` only once both its chains are "no chain",
so the free of its last reference releases nothing. Across every sequence of
calls no chain object leaks and none is released twice.

The proof is one lemma per move of `RedirFS.Registry.Moves`
(`RedirFS.Move.chains`), over frame lemmas for the chains the registered Paths
hold (`RedirFS.Reg.heldChains`).
-/

namespace RedirFS

/-- One chain object, unless the chain is "no chain". -/
def chainCount (c : List Flt) : Int := if c = [] then 0 else 1

/-- The chain objects a Path holds. -/
def RfsPath.chainObjs (r : RfsPath) : Int := chainCount r.rinch + chainCount r.rexch

/-- The chain objects the Paths on `rfs_path_list` hold. -/
def Reg.heldChains (s : Reg) : Int :=
  (s.list.map fun p => ((s.heap p).map RfsPath.chainObjs).getD 0).sum

@[simp] theorem RfsPath.chainObjs_count (r : RfsPath) (c : Nat) :
    ({ r with count := c } : RfsPath).chainObjs = r.chainObjs := rfl

theorem RfsPath.chainObjs_setChain (r : RfsPath) (m : Mode) (c : List Flt) :
    (r.setChain m c).chainObjs = r.chainObjs - chainCount (r.chain m) + chainCount c := by
  cases m <;> simp only [RfsPath.chainObjs, RfsPath.setChain, RfsPath.chain] <;> omega

/-! ### The counter -/

section Counter

variable (s : Reg) (p : Nat) (r : RfsPath) (m : Mode) (f : Flt) (rt : Nat)

theorem Reg.addFlt_chains :
    (s.addFlt p r m f rt).chains = s.chains + chainCount (rfsChainAdd (r.chain m) f) - chainCount (r.chain m) := by
  simp [Reg.addFlt, Reg.setRoot, Reg.setPath, chainCount]

theorem Reg.remFlt_chains :
    (s.remFlt p r m f rt).chains = s.chains + chainCount (rfsChainRem (r.chain m) f) - chainCount (r.chain m) := by
  simp [Reg.remFlt, Reg.setRoot, Reg.setPath, chainCount]

theorem Reg.register_chains (mnt dentry : Nat) : (s.register mnt dentry m f).chains = s.chains + 1 := by
  cases m <;> simp [Reg.register, Reg.addNew, Reg.addFlt, Reg.setRoot, Reg.setPath, rfsChainAdd]

theorem Reg.unlink_chains : (s.unlink p r rt).chains = s.chains := rfl

theorem Reg.release_chains : (s.release p r).chains = s.chains := by
  unfold Reg.release
  split_ifs <;> rfl

end Counter

/-! ### The chains held -/

section Frame

variable {s t : Reg} {p : Nat} {r r' : RfsPath}

/-- On a list without repeats, a change of a function at one member changes
the sum by the change there. -/
theorem sum_map_of_eq_off {l : List Nat} (hnd : l.Nodup) (hp : p ∈ l) (u v : Nat → Int)
    (h : ∀ q ∈ l, q ≠ p → v q = u q) : (l.map v).sum = (l.map u).sum - u p + v p := by
  rw [((List.perm_cons_erase hp).map v).sum_eq, ((List.perm_cons_erase hp).map u).sum_eq,
    List.map_cons, List.map_cons, List.sum_cons, List.sum_cons,
    List.map_congr_left fun q hq => h q (List.mem_of_mem_erase hq) (hnd.mem_erase_iff.1 hq).1]
  omega

/-- The chains held are read from the registered Paths only. -/
theorem Reg.heldChains_congr (hl : t.list = s.list)
    (hh : ∀ q ∈ s.list, (t.heap q).map RfsPath.chainObjs = (s.heap q).map RfsPath.chainObjs) :
    t.heldChains = s.heldChains := by
  unfold Reg.heldChains
  rw [hl, List.map_congr_left fun q hq => by rw [hh q hq]]

/-- A write of a registered Path changes the chains held by the change of its
own. -/
theorem Reg.heldChains_update_mem (hnd : s.list.Nodup) (hp : p ∈ s.list) (hr : s.heap p = some r)
    (hl : t.list = s.list) (hh : t.heap = Function.update s.heap p (some r')) :
    t.heldChains = s.heldChains - r.chainObjs + r'.chainObjs := by
  unfold Reg.heldChains
  rw [hl, sum_map_of_eq_off hnd hp (fun q => ((s.heap q).map RfsPath.chainObjs).getD 0)
    (fun q => ((t.heap q).map RfsPath.chainObjs).getD 0) fun q _ hq => by
      simp only [hh, Function.update_noteq hq]]
  simp [hh, hr]

theorem Reg.heldChains_grab (h : s.heap p = some r) : (s.grab p r).heldChains = s.heldChains :=
  Reg.heldChains_congr rfl (Reg.reads_grab (g := RfsPath.chainObjs) (fun _ _ => rfl) h)

/-- A reference taken or given back builds and releases no chain object and
keeps the chains held. -/
theorem RefMove.chains (hs : RegInv s) (h : RefMove s t) : t.chains = s.chains ∧ t.heldChains = s.heldChains := by
  have hr := h.reads (g := RfsPath.chainObjs) (fun _ _ => rfl) hs
  refine ⟨?_, Reg.heldChains_congr hr.1 hr.2⟩
  cases h with
  | grab => rfl
  | release => exact Reg.release_chains ..
  | takeRefs => rfl

/-- A registration adds the one chain of the new Path. -/
theorem Reg.heldChains_register (hs : RegInv s) (mnt dentry : Nat) (m : Mode) (f : Flt) :
    (s.register mnt dentry m f).heldChains = s.heldChains + 1 := by
  unfold Reg.heldChains
  rw [Reg.register_list, Reg.register_heap, List.map_append, List.sum_append]
  congr 1
  · exact congrArg List.sum (List.map_congr_left fun q hq => by
      rw [Function.update_noteq (by rintro rfl; exact hs.next_not_mem hq)])
  · cases m <;> simp [Reg.newPath, RfsPath.chainObjs, chainCount, RfsPath.setChain]

/-- `rfs_path_rem` of a registered Path that holds no chain keeps the chains
held. -/
theorem Reg.heldChains_unlink (hnd : s.list.Nodup) (hp : p ∈ s.list) (h : s.heap p = some r)
    (h0 : r.chainObjs = 0) (rt : Nat) : (s.unlink p r rt).heldChains = s.heldChains := by
  unfold Reg.heldChains
  rw [Reg.unlink_list, ((List.perm_cons_erase hp).map _).sum_eq, List.map_cons, List.sum_cons, h]
  simp only [Option.map_some', Option.getD_some, h0, zero_add]
  exact congrArg List.sum (List.map_congr_left fun q hq => by
    rw [Reg.unlink_heap, Function.update_noteq (hnd.mem_erase_iff.1 hq).1])

end Frame

/-! ### The moves -/

section Moves

variable {s s' : Reg} {p : Nat} {r : RfsPath}

/-- A new chain for a registered Path, with the old one released, keeps the
balance. -/
theorem Reg.chains_setChain {t : Reg} (hnd : s.list.Nodup) (hp : p ∈ s.list) (h : s.heap p = some r)
    {m : Mode} {c : List Flt} (hl : t.list = s.list)
    (hh : t.heap = Function.update s.heap p (some (r.setChain m c)))
    (hc : t.chains = s.chains + chainCount c - chainCount (r.chain m)) (hb : s.chains = s.heldChains) :
    t.chains = t.heldChains := by
  rw [Reg.heldChains_update_mem hnd hp h hl hh, RfsPath.chainObjs_setChain, hc, hb]
  omega

/-- **Every move keeps the chain objects balanced.** -/
theorem Move.chains {rm : Bool} (hs : RegInv s) (hm : Move rm s s') (hb : s.chains = s.heldChains) :
    s'.chains = s'.heldChains := by
  cases hm with
  | add ho =>
    cases ho with
    | fail => exact hb
    | failNew => exact hb
    | held _ hr => rw [Reg.heldChains_grab hr]; exact hb
    | add hp hr _ _ _ =>
      refine Reg.chains_setChain (hs.grab hr).nodup hp (by simp [Reg.grab]) (Reg.addFlt_list ..)
        (Reg.addFlt_heap ..) (Reg.addFlt_chains ..) ?_
      rw [Reg.heldChains_grab hr]
      exact hb
    | new _ => rw [Reg.register_chains, Reg.heldChains_register hs, hb]
  | rem ho =>
    cases ho with
    | fail => exact hb
    | keep hp hr _ _ _ =>
      exact Reg.chains_setChain hs.nodup hp hr (Reg.remFlt_list ..) (Reg.remFlt_heap ..)
        (Reg.remFlt_chains ..) hb
    | @unlink p r m f rt hp hr _ _ hi he _ =>
      rw [Reg.heldChains_unlink (s := s.remFlt p r m f rt) (by simpa using hs.nodup) (by simpa using hp)
        (by simp) (by simp [RfsPath.chainObjs, chainCount, hi, he]), Reg.unlink_chains]
      exact Reg.chains_setChain hs.nodup hp hr (Reg.remFlt_list ..) (Reg.remFlt_heap ..)
        (Reg.remFlt_chains ..) hb
  | ref h => rw [(h.chains hs).1, (h.chains hs).2]; exact hb

end Moves

/-- **No chain object leaks and none is released twice.** In every reachable
state the chain objects `rfs_path.c` has built and not released are exactly
the chains of the registered Paths that are not "no chain": one for each of
`rinch` and `rexch` that holds a filter. -/
theorem chains_eq_heldChains {s : Reg} (h : Reachable s) : s.chains = s.heldChains := by
  induction h with
  | init rootOf => rfl
  | step hs hc hstep ih =>
    exact apiStep_preserves (fun t => t.chains = t.heldChains) (fun hs hm => Move.chains hs hm)
      (RegInv.of_reachable hs) hc hstep ih

/-- Dentry 10 registered for filter 7 in include mode and for filter 8 in
exclude mode, then filter 7 removed through the handle of the first
registration. -/
def chainRun : List Call :=
  [.addPath noFaults (some 7) (some ⟨some 1, some 10, Mode.include.flags⟩),
    .addPath noFaults (some 8) (some ⟨some 1, some 10, Mode.exclude.flags⟩),
    .remPath noFaults (some 7) (some 0)]

theorem chains_eq_heldChains_chainRun :
    ∃ s, (Reg.init fun _ => 0).run chainRun = .ok s ∧ Reachable s ∧ s.chains = s.heldChains ∧
      s.chains = 1 :=
  have h : Reachable _ := (Reachable.init fun _ => 0).run
    (show (Reg.init fun _ => 0).run chainRun = .ok _ from rfl) rfl
  ⟨_, rfl, h, chains_eq_heldChains h, rfl⟩

end RedirFS
