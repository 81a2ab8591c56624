import RedirFS.Registry.RoundTrip

/-!
# Unregistering every filter empties the registry

A filter that goes away calls `redirfs_rem_paths` and gives back the handles
it holds. This file shows that, from every reachable state, this leaves
nothing behind (`RedirFS.teardown_empties`): `redirfs_rem_paths` of every
filter a registered Path cites, with no collaborator failing, then
`redirfs_put_paths` of every handle the callers hold, leave `rfs_path_list`
and every root's list empty, every `paths_nr` at `0`, and no `rfs_path` object
allocated, as in a freshly loaded module. This holds whatever the
uninitialised `rv` of each `redirfs_rem_paths` holds, each call its own, and
however the earlier calls failed.

Two things have to meet. The removals empty the abstract map
(`RedirFS.remPathsRun_remAll`, one `redirfs_rem_paths` at a time), and a Path
that no filter cites is not registered (`RedirFS.RegInv.occupied`), so the list
is empty. Then every object left is held by a caller only
(`RedirFS.RegInv.unregistered`), and giving back every handle frees it.
-/

namespace RedirFS

variable {s : Reg}

/-- The filters the registered Paths cite, with repeats. -/
def Reg.cited (s : Reg) : List Flt :=
  s.list.flatMap fun p => ((s.heap p).map fun r => r.rinch ++ r.rexch).getD []

/-- A filter some key holds is cited by a registered Path. -/
theorem RegInv.mem_cited (hs : RegInv s) {k : Key} {g : Flt} (h : s.abs k g ≠ none) :
    g ∈ s.cited := by
  cases hq : s.pathOf k with
  | none => exact absurd (by simp [Reg.abs_of_pathOf_none hq]) h
  | some q =>
    obtain ⟨hq', r, hr, rfl⟩ := Reg.abs_of_pathOf hq
    rw [Reg.abs_of_mem hs hq' hr, Ne, RfsPath.modeOf_eq_none, not_and_or, not_not, not_not] at h
    exact List.mem_flatMap.2 ⟨q, hq', by simpa [hr] using h⟩

/-- The spec's `remove_all_paths` of each filter of `fs` in turn: those
filters leave every key, and the others keep theirs. -/
theorem foldl_remAll (fs : List Flt) (A : AbsReg) (k : Key) (g : Flt) :
    fs.foldl AbsReg.remAll A k g = if g ∈ fs then none else A k g := by
  induction fs generalizing A with
  | nil => rfl
  | cons f fs ih =>
    rw [List.foldl_cons, ih]
    by_cases hg : g = f <;> simp [AbsReg.remAll, hg]

/-- `redirfs_rem_paths` of each filter of `fs` in turn, with no collaborator
failing; the `i`-th call finds `rv i` in its uninitialised `rv`. -/
def remPathsRun (rv : Nat → Int) : List Flt → List Call
  | [] => []
  | f :: fs => .remPaths noFaults (fun _ => noFaults) (rv 0) (some f) :: remPathsRun (fun i => rv (i + 1)) fs

/-- Every filter unregistered: `redirfs_rem_paths` of every filter a
registered Path cites, then `redirfs_put_paths` of every handle the callers
hold. -/
def Reg.teardown (s : Reg) (rv : Nat → Int) : List Call := remPathsRun rv s.cited ++ [.putPaths s.handles]

/-- The removals, one filter at a time: each takes its filter off every key,
and gives back every reference it took. -/
theorem remPathsRun_remAll : ∀ (fs : List Flt) (rv : Nat → Int) {s : Reg}, RegInv s →
    ∃ t, s.run (remPathsRun rv fs) = .ok t ∧ s.heldAlong (remPathsRun rv fs) = true ∧ RegInv t ∧
      t.abs = fs.foldl AbsReg.remAll s.abs ∧ t.handles.Perm s.handles
  | [], _, s, hs => ⟨s, rfl, rfl, hs, rfl, .refl _⟩
  | f :: fs, rv, s, hs => by
    obtain ⟨rv₁, s₁, h₁, habs₁, hh₁⟩ := redirfsRemPaths_remAll hs f (rv 0)
    have hstep : apiStep s (.remPaths noFaults (fun _ => noFaults) (rv 0) (some f)) = .ok (.rv rv₁, s₁) := by
      simp [apiStep, h₁, Except.map]
    obtain ⟨t, ht, hht, hts, habs, hperm⟩ := remPathsRun_remAll fs (fun i => rv (i + 1)) (hs.step (by rfl) hstep)
    refine ⟨t, ?_, ?_, hts, by rw [habs, habs₁]; rfl, hperm.trans hh₁⟩
    · simp only [remPathsRun, Reg.run, hstep]
      exact ht
    · simp only [remPathsRun, Reg.heldAlong, hstep, Call.held, Bool.true_and]
      exact hht

/-- **Unregistering every filter leaves nothing behind.** From every reachable
state, and whatever each `redirfs_rem_paths` of the teardown finds in its
uninitialised `rv`, the callers keep the contract along the teardown, which
returns; after it no Path is registered, no handle is held, no `rfs_path`
object is allocated, every filter's `paths_nr` is `0` and every root's list of
Paths is empty. -/
theorem teardown_empties (h : Reachable s) (rv : Nat → Int) :
    s.heldAlong (s.teardown rv) = true ∧ ∃ s', s.run (s.teardown rv) = .ok s' ∧ s'.list = [] ∧
      s'.handles = [] ∧ (∀ p, s'.heap p = none) ∧ (∀ f, s'.pathsNr f = 0) ∧
      ∀ rt, (s'.roots rt).rpaths = [] := by
  have hs := RegInv.of_reachable h
  obtain ⟨t, ht, hht, hts, habs, hperm⟩ := remPathsRun_remAll s.cited rv hs
  -- no key holds a filter any more, so no Path is registered
  have hempty : ∀ k g, t.abs k g = none := fun k g => by
    rw [habs, foldl_remAll]
    split_ifs with hg
    · rfl
    · by_contra hne
      exact hg (hs.mem_cited hne)
  have hlist : t.list = [] := List.eq_nil_iff_forall_not_mem.2 fun p hp => by
    obtain ⟨r, hr, -⟩ := hts.registered p hp
    obtain ⟨g, hg⟩ := (hts.occupied (r.mnt, r.dentry)).1 ⟨p, hp, keyOf_of_heap hr⟩
    exact hg (hempty _ g)
  -- every handle given back
  have hle : ∀ q, s.handles.count q ≤ t.handles.count q := fun q => (hperm.count_eq q).ge
  obtain ⟨u, hu, hus, hcount⟩ := RegInv.putPaths s.handles hts hle
  have hnil : u.handles = [] := List.eq_nil_iff_forall_not_mem.2 fun q hq => by
    have := hcount q
    have := List.count_pos_iff.2 hq
    rw [hperm.count_eq] at *
    omega
  have hul : u.list = [] := (redirfsPutPaths_preserves (fun x => x.list = t.list)
    (fun _ _ _ hp => (Reg.release_list _ _ _).trans hp) _ hts hle hu rfl).trans hlist
  have hlast : apiStep t (.putPaths s.handles) = .ok (.done, u) := by simp [apiStep, hu, Except.map]
  refine ⟨?_, u, ?_, hul, hnil, fun p => ?_, fun f => by simp [hus.pathsNr f, hul],
    fun rt => by simp [hus.roots rt, hul]⟩
  · rw [Reg.teardown, Reg.heldAlong_append _ ht, hht]
    simp [Reg.heldAlong, Call.held, hle, hlast]
  · rw [Reg.teardown, Reg.run_append, ht]
    simp [Reg.run, hlast]
  · cases hq : u.heap p with
    | none => rfl
    | some r =>
      have := (hus.unregistered p r hq (by simp [hul])).2.2.2
      simp [hnil] at this

theorem teardown_empties_one :
    Reachable oneReg ∧ oneReg.heldAlong (oneReg.teardown fun i => i) = true ∧
      ∃ s', oneReg.run (oneReg.teardown fun i => i) = .ok s' ∧ s'.list = [] ∧ s'.handles = [] ∧
        (∀ p, s'.heap p = none) ∧ (∀ f, s'.pathsNr f = 0) ∧ ∀ rt, (s'.roots rt).rpaths = [] :=
  ⟨oneReg_reachable, teardown_empties oneReg_reachable fun i => i⟩

end RedirFS
