import RedirFS.Registry.Arrays

/-!
# The invariant of every reachable state

Every call keeps `RedirFS.RegInv` (`RedirFS.RegInv.step`), one lemma per
kind of call; by induction on the run, every reachable state has it
(`RedirFS.RegInv.of_reachable`). Its `count` field is the accounting of the
references: a Path's count is two while it is registered, for the two lists,
plus one per handle a caller holds. Its `pathsNr` field makes
`redirfs_get_paths` fill its array exactly
(`RedirFS.redirfsGetPaths_fills_array`).

What the invariant cannot rule out is a caller keeping a handle on a Path
that is no longer registered, which the API allows: the next
`redirfs_rem_path` on it hands a NULL root to the root collaborator
(`RedirFS.redirfsRemPath_unregistered`, and the run of
`RedirFS.remPath_stale_handle`).
-/

namespace RedirFS

variable {s s' : Reg}

/-! ### One call -/

theorem AddOutcome.regInv (hs : RegInv s) {res : Except Int Nat} (ho : AddOutcome s res s') :
    RegInv s' := by
  cases ho with
  | fail => exact hs
  | failNew => exact hs.bump (Nat.le_succ _)
  | held _ hr => exact hs.grab hr
  | add hp hr _ hf hf' =>
    exact (hs.grab hr).addFlt hp (by simp [Reg.grab]) (by simpa using hf) (by simpa using hf')
  | new hk => exact hs.register hk _ _

theorem RemOutcome.regInv (hs : RegInv s) {rv : Int} (ho : RemOutcome s rv s') : RegInv s' := by
  cases ho with
  | fail => exact hs
  | keep hp hr _ hf hc => exact hs.remFlt hp hr hf hc
  | unlink hp hr hrt hf hi he hh => exact hs.unlink hp hr hrt hf hi he hh

theorem RemOutcome.handles {rv : Int} (ho : RemOutcome s rv s') : s'.handles = s.handles := by
  cases ho <;> simp

/-- The loop of `redirfs_rem_paths` on handles its caller holds keeps the
invariant and the handles. -/
theorem RegInv.of_remPathsLoop (φs : Nat → Faults) (f : Flt) :
    ∀ (ps : List Nat) (i : Nat) (rv : Int) {s s' : Reg} {rv' : Int}, RegInv s →
      (∀ p ∈ ps, p ∈ s.handles) → remPathsLoop φs f i ps rv s = .ok (rv', s') →
      RegInv s' ∧ s'.handles = s.handles
  | [], _, _, s, s', _, hs, _, h => by cases h; exact ⟨hs, rfl⟩
  | p :: ps, i, _, s, s', rv', hs, hh, h => by
    simp only [remPathsLoop] at h
    cases h1 : redirfsRemPath (φs i) (some f) (some p) s with
    | error e => rw [h1] at h; cases h
    | ok x =>
      obtain ⟨rv₁, s₁⟩ := x
      have ho := redirfsRemPath_outcome hs (by rintro q ⟨⟩; exact hh p (List.mem_cons_self p ps)) h1
      have hs₁ := ho.regInv hs
      rw [h1] at h
      simp only [except_ok_bind] at h
      split_ifs at h
      · cases h; exact ⟨hs₁, ho.handles⟩
      · obtain ⟨hs', hh'⟩ := RegInv.of_remPathsLoop φs f ps (i + 1) rv₁ hs₁
          (fun q hq => ho.handles ▸ hh q (List.mem_cons_of_mem p hq)) h
        exact ⟨hs', hh'.trans ho.handles⟩

theorem RegInv.of_redirfsRemPaths (hs : RegInv s) {φ : Faults} {φs : Nat → Faults} {rv rv' : Int}
    {filter : Option Flt} (h : redirfsRemPaths φ φs rv filter s = .ok (rv', s')) : RegInv s' := by
  match filter, h with
  | none, h => cases h; exact hs
  | some f, h =>
    simp only [redirfsRemPaths] at h
    cases ha : φ.alloc
    · rw [redirfsGetPaths_eq hs f ha] at h
      simp only [except_ok_bind] at h
      set ps := s.list.filter (citesAt s.heap f)
      have hs₁ : RegInv { s.takeRefs ps with handles := s.handles ++ ps } := hs.takeRefs fun q hq => by
        obtain ⟨r, hr, -⟩ := hs.registered q (List.mem_of_mem_filter hq)
        simp [hr]
      cases h2 : remPathsLoop φs f 0 ps rv { s.takeRefs ps with handles := s.handles ++ ps } with
      | error e => rw [h2] at h; cases h
      | ok x =>
        obtain ⟨rv₂, s₂⟩ := x
        obtain ⟨hs₂, hh₂⟩ := RegInv.of_remPathsLoop φs f ps 0 rv hs₁
          (fun q hq => List.mem_append_right _ hq) h2
        obtain ⟨s₃, h3, hs₃, -⟩ := RegInv.putPaths ps hs₂ fun q => by simp [hh₂]
        rw [h2] at h
        simp only [except_ok_bind, h3] at h
        cases h; exact hs₃
    · simp only [redirfsGetPaths, ha, if_true, except_ok_bind, except_pure] at h
      cases h; exact hs

/-- **Every call keeps the invariant**, when the caller passes only handles it
holds. -/
theorem RegInv.step (hs : RegInv s) {c : Call} (hc : c.held s = true) {ret : Ret}
    (h : apiStep s c = .ok (ret, s')) : RegInv s' := by
  cases c with
  | addPath φ filter info =>
    simp only [apiStep, Except.map] at h
    split at h
    · cases h
    · rename_i x hx
      cases h
      exact (redirfsAddPath_outcome hs hx).regInv hs
  | remPath φ filter path =>
    simp only [apiStep, Except.map] at h
    split at h
    · cases h
    · rename_i x hx
      cases h
      refine (redirfsRemPath_outcome hs (fun q hq => ?_) hx).regInv hs
      subst hq
      simpa [Call.held] using hc
  | remPaths φ φs rv filter =>
    simp only [apiStep, Except.map] at h
    split at h
    · cases h
    · rename_i x hx
      cases h
      exact hs.of_redirfsRemPaths hx
  | getPathId id =>
    simp only [apiStep, Except.map] at h
    split at h
    · cases h
    · rename_i x hx
      cases h
      cases hk : s.firstOn (fun r => r.id == id) with
      | none => rw [redirfsGetPathId_none hk] at hx; cases hx; exact hs
      | some p =>
        obtain ⟨-, r, hr, -⟩ := firstOn_some hk
        rw [redirfsGetPathId_found hk hr (hs.count_ne_zero hr)] at hx
        cases hx; exact hs.grab hr
  | getPath path =>
    simp only [apiStep, Except.map] at h
    split at h
    · cases h
    · rename_i x hx
      cases h
      cases path with
      | none => cases hx; exact hs
      | some p =>
        obtain ⟨r, hr⟩ := hs.heap_of_held (by simpa [Call.held] using hc)
        rw [redirfsGetPath_eq hr (hs.count_ne_zero hr)] at hx
        cases hx; exact hs.grab hr
  | putPath path =>
    simp only [apiStep, Except.map] at h
    split at h
    · cases h
    · rename_i x hx
      cases h
      cases path with
      | none => cases hx; exact hs
      | some p =>
        have hh : p ∈ s.handles := by simpa [Call.held] using hc
        obtain ⟨r, hr⟩ := hs.heap_of_held hh
        rw [redirfsPutPath_eq hr (hs.count_ne_zero hr)] at hx
        cases hx; exact hs.release hr hh
  | getPaths φ filter =>
    simp only [apiStep, Except.map] at h
    split at h
    · cases h
    · rename_i x hx
      cases h
      cases filter with
      | none => cases hx; exact hs
      | some f =>
        cases ha : φ.alloc
        · rw [redirfsGetPaths_eq hs f ha] at hx
          cases hx
          exact hs.takeRefs fun q hq => by
            obtain ⟨r, hr, -⟩ := hs.registered q (List.mem_of_mem_filter hq)
            simp [hr]
        · simp [redirfsGetPaths, ha] at hx
          cases hx; exact hs
  | getPathsRoot φ filter root =>
    simp only [apiStep, Except.map] at h
    split at h
    · cases h
    · rename_i x hx
      cases h
      match filter, root, hx with
      | some f, some rt, hx =>
        cases ha : φ.alloc
        · rw [redirfsGetPathsRoot_eq hs f rt ha] at hx
          cases hx
          refine hs.takeRefs fun q hq => ?_
          split_ifs at hq
          · rw [hs.roots] at hq
            obtain ⟨r, hr, -⟩ := hs.registered q (List.mem_of_mem_filter hq)
            simp [hr]
          · cases hq
        · simp [redirfsGetPathsRoot, ha] at hx
          cases hx; exact hs
      | none, _, hx => cases hx; exact hs
      | some _, none, hx => cases hx; exact hs
  | putPaths ps =>
    simp only [apiStep, Except.map] at h
    split at h
    · cases h
    · rename_i x hx
      cases h
      have hle : ∀ p, ps.count p ≤ s.handles.count p := fun p => by
        by_cases hp : p ∈ ps
        · simpa [Call.held] using (List.all_eq_true.1 hc) p hp
        · simp [List.count_eq_zero_of_not_mem hp]
      obtain ⟨s'', h', hs', -⟩ := RegInv.putPaths ps hs hle
      rw [h'] at hx
      cases hx; exact hs'

/-- **Every reachable state has the invariant.** -/
theorem RegInv.of_reachable (h : Reachable s) : RegInv s := by
  induction h with
  | init rootOf => exact RegInv.init rootOf
  | step _ hc hstep ih => exact ih.step hc hstep

/-! ### What the invariant gives -/

/-- Filter `7` registers dentry `10` of mount `1` in include mode, from a
freshly loaded module. -/
def oneReg : Reg := (Reg.init fun _ => 0).register 1 10 .include 7

theorem oneReg_reachable : Reachable oneReg :=
  Reachable.step (.init fun _ => 0) (c := .addPath noFaults (some 7) (some ⟨some 1, some 10, Mode.include.flags⟩))
    rfl (by rw [apiStep, redirfsAddPath_new (RegInv.init _) rfl rfl rfl .include]; rfl)


/-- **`paths_nr` counts the Paths citing the filter, and `redirfs_get_paths`
fills its array exactly.** In every reachable state, `paths_nr` of a filter is
the number of registered Paths citing it, and `redirfs_get_paths`, unless its
array cannot be allocated, stores exactly those Paths in its `paths_nr + 1`
slots, with every store, the NULL after them included, in bounds. -/
theorem redirfsGetPaths_fills_array (h : Reachable s) (f : Flt) {φ : Faults}
    (ha : φ.alloc = false) :
    s.pathsNr f = (s.list.filter (citesAt s.heap f)).length ∧
      ∃ s', redirfsGetPaths φ (some f) s = .ok (.ok (s.list.filter (citesAt s.heap f)), s') := by
  have hs := RegInv.of_reachable h
  exact ⟨by rw [hs.pathsNr, List.countP_eq_length_filter], _, redirfsGetPaths_eq hs f ha⟩

/-- **The references are counted exactly, and no object is lost.** In every
reachable state a Path's reference count is two while it is registered (the
references of `rfs_path_list` and of its root's list), plus one for each
handle the callers hold. An object off the list is held by a caller, so none
is leaked, and every handle a caller holds reaches a live object. Every root's
list holds the registered Paths of that root, in the order of
`rfs_path_list`. -/
theorem references_exact (h : Reachable s) :
    (∀ p r, s.heap p = some r → r.count = (if p ∈ s.list then 2 else 0) + s.handles.count p) ∧
      (∀ p r, s.heap p = some r → p ∈ s.list ∨ p ∈ s.handles) ∧ (∀ p ∈ s.handles, s.heap p ≠ none) ∧
      ∀ rt, (s.roots rt).rpaths = s.list.filter (inRoot s.heap rt) := by
  have hs := RegInv.of_reachable h
  refine ⟨hs.count, fun p r hr => ?_, hs.handles, hs.roots⟩
  by_cases hp : p ∈ s.list
  · exact .inl hp
  · exact .inr (hs.unregistered p r hr hp).2.2.2

theorem references_exact_one :
    Reachable oneReg ∧ oneReg.handles = [0] ∧
      (∀ p r, oneReg.heap p = some r → r.count = (if p ∈ oneReg.list then 2 else 0) + oneReg.handles.count p) ∧
      (∀ p r, oneReg.heap p = some r → p ∈ oneReg.list ∨ p ∈ oneReg.handles) ∧
      (∀ p ∈ oneReg.handles, oneReg.heap p ≠ none) ∧
      ∀ rt, (oneReg.roots rt).rpaths = oneReg.list.filter (inRoot oneReg.heap rt) :=
  ⟨oneReg_reachable, rfl, references_exact oneReg_reachable⟩

theorem redirfsGetPaths_fills_array_one :
    Reachable oneReg ∧ noFaults.alloc = false ∧ oneReg.list.filter (citesAt oneReg.heap 7) = [0] ∧
      (oneReg.pathsNr 7 = (oneReg.list.filter (citesAt oneReg.heap 7)).length ∧
      ∃ s', redirfsGetPaths noFaults (some 7) oneReg = .ok (.ok (oneReg.list.filter (citesAt oneReg.heap 7)), s')) :=
  ⟨oneReg_reachable, rfl, rfl, redirfsGetPaths_fills_array oneReg_reachable 7 rfl⟩

/-- **A failed registration or unregistration changes nothing.** From every
reachable state, a `redirfs_add_path` that returns an error leaves the
registry as it was (its lists, every Path with its chains, ids and count, the
roots, `paths_nr`, the chain objects and the callers' handles), but for the
allocator, which has moved past a Path it made and freed again; a
`redirfs_rem_path` that returns an error leaves it exactly as it was. -/
theorem failed_call_changes_nothing (h : Reachable s) :
    (∀ φ filter info e s', redirfsAddPath φ filter info s = .ok (.error e, s') →
      s' = { s with next := s'.next }) ∧
    (∀ φ filter path rv s', redirfsRemPath φ filter path s = .ok (rv, s') → rv ≠ 0 → s' = s) := by
  have hs := RegInv.of_reachable h
  refine ⟨fun φ filter info e s' h' => ?_, fun φ filter path rv s' h' hrv =>
    redirfsRemPath_error hs h' hrv⟩
  cases redirfsAddPath_outcome hs h' <;> rfl

theorem failed_call_changes_nothing_one :
    Reachable oneReg ∧
      (∃ s', redirfsAddPath noFaults (some 7) (some ⟨some 1, some 10, Mode.exclude.flags⟩) oneReg =
        .ok (.error (-EEXIST), s')) ∧
      ((∀ φ filter info e s', redirfsAddPath φ filter info oneReg = .ok (.error e, s') →
          s' = { oneReg with next := s'.next }) ∧
        (∀ φ filter path rv s', redirfsRemPath φ filter path oneReg = .ok (rv, s') → rv ≠ 0 → s' = oneReg)) :=
  ⟨oneReg_reachable, ⟨_, rfl⟩, failed_call_changes_nothing oneReg_reachable⟩

/-- Register dentry 10 for filter 7, then remove the filter through the handle
the registration returned (address 0), which the caller keeps. -/
def staleHistory : List Call :=
  [addInclude 10, .remPath noFaults (some 7) (some 0)]

/-- **A second `redirfs_rem_path` on a held handle crashes.** After
`RedirFS.staleHistory` the Path at address 0 is no longer registered and its
caller still holds it, as the API allows; `redirfs_rem_path(7, path)` on it
finds the filter in neither chain, yet runs `rfs_path_rem`, which hands the
Path's NULL `rroot` to the root collaborator. -/
theorem remPath_stale_handle :
    ∃ s, (Reg.init fun _ => 0).run staleHistory = .ok s ∧ Reachable s ∧
      s.handles = [0] ∧ s.list = [] ∧ (s.heap 0).map (·.rroot) = some none ∧
      (Call.remPath noFaults (some 7) (some 0)).held s = true ∧
      apiStep s (.remPath noFaults (some 7) (some 0)) = .error .nullRroot :=
  ⟨_, rfl, @Reachable.run _ _ staleHistory (.init fun _ => 0) rfl rfl, rfl, rfl, rfl, rfl, rfl⟩

/-- **`redirfs_rem_paths` returns its uninitialised `rv` when no Path cites the
filter.** Its loop does not run, so nothing assigns `rv`, and the function
returns whatever the variable held, from every reachable state, and leaves
the state as it was. -/
theorem redirfsRemPaths_uninit (h : Reachable s) (f : Flt)
    (hf : ∀ p ∈ s.list, citesAt s.heap f p = false) {φ : Faults} (ha : φ.alloc = false)
    (φs : Nat → Faults) (rv : Int) : redirfsRemPaths φ φs rv (some f) s = .ok (rv, s) := by
  have hs := RegInv.of_reachable h
  have hnil : s.list.filter (citesAt s.heap f) = [] := List.filter_eq_nil_iff.2 fun p hp => by
    simp [hf p hp]
  simp [redirfsRemPaths, redirfsGetPaths_eq hs f ha, hnil, remPathsLoop, redirfsPutPaths]

theorem redirfsRemPaths_uninit_init :
    Reachable (Reg.init fun _ => 0) ∧
      (∀ p ∈ (Reg.init fun _ => 0).list, citesAt (Reg.init fun _ => 0).heap 7 p = false) ∧
      noFaults.alloc = false ∧
      redirfsRemPaths noFaults (fun _ => noFaults) 1 (some 7) (Reg.init fun _ => 0) =
        .ok (1, Reg.init fun _ => 0) :=
  ⟨.init _, by simp [Reg.init], rfl,
    redirfsRemPaths_uninit (.init _) 7 (by simp [Reg.init]) rfl _ 1⟩

end RedirFS
