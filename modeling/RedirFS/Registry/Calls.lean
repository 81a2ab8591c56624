import RedirFS.Registry.Invariant

/-!
# The exported functions, outcome by outcome

What a call of `redirfs_add_path`, `redirfs_rem_path` or one of the handle
functions does from a state with the invariant, as equations between the
model's functions and the effects of `RedirFS.Registry.Spec` and
`RedirFS.Registry.Invariant`.

Each of the two registering functions has an inductive description of all its
outcomes (`RedirFS.AddOutcome`, `RedirFS.RemOutcome`), and one inversion lemma
(`RedirFS.redirfsAddPath_outcome`, `RedirFS.redirfsRemPath_outcome`) proving
every return of the function is one of them. A failed call is one constructor:
the state it leaves is the one it started from, up to the allocator.
-/

namespace RedirFS

variable {s : Reg} {p : Nat} {r : RfsPath} {φ : Faults} {f : Flt}

@[simp] theorem RfsPath.chain_count (r : RfsPath) (m : Mode) (c : Nat) :
    ({ r with count := c } : RfsPath).chain m = r.chain m := by
  cases m <;> rfl

theorem Mode.flags_ne_zero (m : Mode) : m.flags ≠ 0 := by
  cases m <;> decide

/-! ### One handle -/

theorem redirfsGetPath_eq (h : s.heap p = some r) (hc : r.count ≠ 0) :
    redirfsGetPath (some p) s = .ok (some p, s.grab p r) := by
  simp [redirfsGetPath, rfsPathGet_eq h hc, Reg.grab]

theorem redirfsPutPath_eq (h : s.heap p = some r) (hc : r.count ≠ 0) :
    redirfsPutPath (some p) s = .ok (s.release p r) := by
  simp only [redirfsPutPath, rfsPathPut_eq h hc, except_ok_bind, Reg.release]
  split <;> rfl

theorem redirfsGetPathId_found {id : Int} (hk : s.firstOn (fun r => r.id == id) = some p)
    (h : s.heap p = some r) (hc : r.count ≠ 0) :
    redirfsGetPathId id s = .ok (some p, s.grab p r) := by
  simp [redirfsGetPathId, rfsPathFindId, rfsPathLookup_some hk h hc, Reg.grab]

theorem redirfsGetPathId_none {id : Int} (hk : s.firstOn (fun r => r.id == id) = none) :
    redirfsGetPathId id s = .ok (none, s) := by
  simp [redirfsGetPathId, rfsPathFindId, rfsPathLookup_none hk]

/-- The `rfs_path_put` of a failed registration gives back the reference of the
lookup. -/
theorem rfsPathPut_setPath_succ (h : s.heap p = some r) (hc : r.count ≠ 0) :
    rfsPathPut p (s.setPath p { r with count := r.count + 1 }) = .ok s := by
  rw [rfsPathPut_of_lt (r := { r with count := r.count + 1 }) (by simp) (by simp; omega)]
  simp [Reg.setPath_self h]

/-! ### Registering -/

theorem Reg.grab_addFlt (s : Reg) (p : Nat) (r r' : RfsPath) (m : Mode) (f : Flt) (rt : Nat) :
    (s.grab p r).addFlt p r' m f rt =
      { (s.setPath p { r with count := r.count + 1 }).addFlt p r' m f rt with
        handles := s.handles ++ [p] } :=
  Reg.addFlt_withHandles _ _ _ _ _ _ _

section Add

variable {mnt dentry : Nat}

/-- **`redirfs_add_path` on a key that has a Path.** In the chain of the mode
already: the caller gets a handle and nothing else changes. In the other
chain: `-EEXIST`. Otherwise the first failing collaborator's error, or the
filter added and a handle. -/
theorem redirfsAddPath_found (hs : RegInv s) (hk : s.firstOn (fun r => r.isAt mnt dentry) = some p)
    (h : s.heap p = some r) {rt : Nat} (hr : r.rroot = some rt) (m : Mode) :
    redirfsAddPath φ (some f) (some ⟨some mnt, some dentry, m.flags⟩) s =
      if f ∈ r.chain m then .ok (.ok p, s.grab p r)
      else if f ∈ r.chain m.other then .ok (.error (-EEXIST), s)
      else match φ.onAdd m with
        | some e => .ok (.error e.rv, s)
        | none => .ok (.ok p, (s.grab p r).addFlt p { r with count := r.count + 1 } m f rt) := by
  have hw := hs.wf (firstOn_some hk).1 h
  have hc := hs.count_ne_zero h
  have h1 : (s.setPath p { r with count := r.count + 1 }).heap p =
      some { r with count := r.count + 1 } := by simp
  simp only [redirfsAddPath, Mode.flags_ne_zero, if_false, except_ok_bind,
    rfsPathAdd_found hk h hc, addByFlags_mode h1 hr, RfsPath.chain_count]
  have hrem := rfsPathRem_cites h1 hw.cites
  split_ifs with h2 h3
  · simp [hrem, Reg.grab]
  · simp [hrem, rfsPathPut_setPath_succ h hc, Errno.rv_ne_zero, EEXIST]
  · cases he : φ.onAdd m with
    | some e => simp [hrem, rfsPathPut_setPath_succ h hc, e.rv_ne_zero]
    | none =>
      have hcites : ((s.setPath p { r with count := r.count + 1 }).addFlt p
          { r with count := r.count + 1 } m f rt).heap p = some (({ r with count := r.count + 1 } :
            RfsPath).setChain m (rfsChainAdd (r.chain m) f)) := by simp
      simp only [rfsPathRem_cites hcites (by cases m <;> simp [RfsPath.setChain, rfsChainAdd]),
        except_ok_bind, ne_eq, not_true_eq_false, if_false, except_pure]
      rw [Reg.grab_addFlt]
      simp

/-- Flags that name neither mode: `-EINVAL`, after the lookup's reference is
given back. -/
theorem redirfsAddPath_foundBad (hs : RegInv s)
    (hk : s.firstOn (fun r => r.isAt mnt dentry) = some p) (h : s.heap p = some r) {flags : Int}
    (h0 : flags ≠ 0) (hi : flags ≠ REDIRFS_PATH_INCLUDE) (he : flags ≠ REDIRFS_PATH_EXCLUDE) :
    redirfsAddPath φ (some f) (some ⟨some mnt, some dentry, flags⟩) s =
      .ok (.error (-EINVAL), s) := by
  have hw := hs.wf (firstOn_some hk).1 h
  have hc := hs.count_ne_zero h
  have h1 : (s.setPath p { r with count := r.count + 1 }).heap p =
      some { r with count := r.count + 1 } := by simp
  simp only [redirfsAddPath, h0, if_false, except_ok_bind, rfsPathAdd_found hk h hc,
    addByFlags_bad hi he, rfsPathRem_cites h1 hw.cites]
  simp [rfsPathPut_setPath_succ h hc, EINVAL]

theorem redirfsAddPath_alloc (hk : s.firstOn (fun r => r.isAt mnt dentry) = none) {flags : Int}
    (h0 : flags ≠ 0) (ha : φ.alloc = true) :
    redirfsAddPath φ (some f) (some ⟨some mnt, some dentry, flags⟩) s =
      .ok (.error (-ENOMEM), s) := by
  simp [redirfsAddPath, h0, rfsPathAdd_alloc hk ha]

theorem redirfsAddPath_rootAdd (hs : RegInv s) (hk : s.firstOn (fun r => r.isAt mnt dentry) = none)
    {flags : Int} (h0 : flags ≠ 0) (ha : φ.alloc = false) {e : Errno} (he : φ.rootAdd = some e) :
    redirfsAddPath φ (some f) (some ⟨some mnt, some dentry, flags⟩) s =
      .ok (.error e.rv, { s with next := s.next + 1 }) := by
  simp [redirfsAddPath, h0, rfsPathAdd_rootAdd hk ha (hs.fresh _ le_rfl) he]

/-- The record of the Path `rfs_path_add` makes, once on both lists. -/
def Reg.madePath (s : Reg) (mnt dentry : Nat) : RfsPath :=
  ⟨rfsPathGetId s, mnt, dentry, [], [], some (s.rootOf dentry), 3⟩

@[simp] theorem Reg.madePath_chain (s : Reg) (mnt dentry : Nat) (m : Mode) :
    (s.madePath mnt dentry).chain m = [] := by
  cases m <;> rfl

theorem Reg.addNew_heap_next (s : Reg) (mnt dentry : Nat) :
    (s.addNew (rfsPathGetId s) mnt dentry).heap s.next = some (s.madePath mnt dentry) := by
  simp [Reg.addNew, Reg.madePath]

/-- A new Path that is given no filter is dropped again: `rfs_path_rem` takes it
off both lists, and the `rfs_path_put` of `redirfs_add_path` frees it. Only the
allocator has moved. -/
theorem RegInv.dropNew (hs : RegInv s) (mnt dentry : Nat) :
    ∃ s₂, rfsPathRem s.next (s.addNew (rfsPathGetId s) mnt dentry) = .ok s₂ ∧
      rfsPathPut s.next s₂ = .ok { s with next := s.next + 1 } := by
  have hfr := hs.fresh s.next le_rfl
  have hnl : s.next ∉ s.list := fun h => by
    obtain ⟨r, hr, -⟩ := hs.registered _ h
    simp [hfr] at hr
  have hnr : s.next ∉ (s.roots (s.rootOf dentry)).rpaths := by
    rw [hs.roots]
    exact fun h => hnl (List.mem_of_mem_filter h)
  set s₁ := s.addNew (rfsPathGetId s) mnt dentry
  set r₀ := s.madePath mnt dentry
  have hput : (s₁.unlink s.next r₀ (s.rootOf dentry)).heap s.next =
      some { r₀ with count := r₀.count - 2, rroot := none } := by simp
  refine ⟨_, rfsPathRem_empty (Reg.addNew_heap_next s mnt dentry) rfl rfl rfl
    (by simp [r₀, Reg.madePath]), ?_⟩
  rw [rfsPathPut_of_one hput (by simp [r₀, Reg.madePath])]
  congr 1
  apply Reg.ext
  · rfl
  · simp [s₁, Reg.addNew, Reg.free, Function.update_eq_self_iff, hfr]
  · rfl
  · simp [s₁, Reg.unlink, Reg.addNew, Reg.free, List.erase_append_right _ hnl]
  · rfl
  · simp only [s₁, Reg.free, Reg.unlink, Reg.addNew, Reg.setPath, Reg.setRoot, Function.update_same,
      Function.update_idem, List.erase_append_right _ hnr, List.erase_cons_head, List.append_nil]
    exact Function.update_eq_self _ _
  · rfl
  · rfl

/-- **`redirfs_add_path` on a key with no Path.** A new Path is made and given
the filter; if a collaborator fails it is dropped again. -/
theorem redirfsAddPath_new (hs : RegInv s) (hk : s.firstOn (fun r => r.isAt mnt dentry) = none)
    (ha : φ.alloc = false) (hr : φ.rootAdd = none) (m : Mode) :
    redirfsAddPath φ (some f) (some ⟨some mnt, some dentry, m.flags⟩) s =
      match φ.onAdd m with
      | some e => .ok (.error e.rv, { s with next := s.next + 1 })
      | none => .ok (.ok s.next, s.register mnt dentry m f) := by
  obtain ⟨s₂, h1, h2⟩ := hs.dropNew mnt dentry
  simp only [redirfsAddPath, Mode.flags_ne_zero, if_false, except_ok_bind, rfsPathAdd_new hk ha hr,
    addByFlags_mode (Reg.addNew_heap_next s mnt dentry) rfl]
  cases he : φ.onAdd m with
  | some e =>
    cases m <;> simp [Reg.madePath, e.rv_ne_zero, h1, h2]
  | none =>
    have hc : ((s.addNew (rfsPathGetId s) mnt dentry).addFlt s.next (s.madePath mnt dentry) m f
        (s.rootOf dentry)).heap s.next = some ((s.madePath mnt dentry).setChain m [f]) := by
      simp [rfsChainAdd]
    have hcites : ((s.madePath mnt dentry).setChain m [f]).rinch ≠ [] ∨
        ((s.madePath mnt dentry).setChain m [f]).rexch ≠ [] := by
      cases m <;> simp [RfsPath.setChain]
    simp only [Reg.madePath_chain, List.not_mem_nil, if_false, except_ok_bind,
      rfsPathRem_cites hc hcites, ne_eq, not_true_eq_false, except_pure]
    simp [Reg.register, Reg.madePath, Reg.addNew]

/-- Flags that name neither mode: `-EINVAL`, and the new Path is dropped. -/
theorem redirfsAddPath_newBad (hs : RegInv s)
    (hk : s.firstOn (fun r => r.isAt mnt dentry) = none) (ha : φ.alloc = false)
    (hr : φ.rootAdd = none) {flags : Int} (h0 : flags ≠ 0) (hi : flags ≠ REDIRFS_PATH_INCLUDE)
    (he : flags ≠ REDIRFS_PATH_EXCLUDE) :
    redirfsAddPath φ (some f) (some ⟨some mnt, some dentry, flags⟩) s =
      .ok (.error (-EINVAL), { s with next := s.next + 1 }) := by
  obtain ⟨s₂, h1, h2⟩ := hs.dropNew mnt dentry
  simp [redirfsAddPath, h0, rfsPathAdd_new hk ha hr, addByFlags_bad hi he, h1, h2, EINVAL]

end Add

/-! ### Unregistering -/

section Rem

variable {m : Mode} {rt : Nat}

/-- `redirfs_rem_path` tries the include chain first; on a Path whose chains
share no filter, that is removing the filter from the chain that holds it,
whatever the call does next (`k`). -/
theorem remDispatch {β : Type} (k : Int × Reg → Except Oops β) (hw : PathWf r)
    (hf : f ∈ r.chain m) :
    (if rfsChainFind r.rinch f ≠ -1 then rfsPathRemInclude φ p f s >>= k
      else if rfsChainFind r.rexch f ≠ -1 then rfsPathRemExclude φ p f s >>= k
      else pure (-EINVAL, s) >>= k) = rfsPathRemChain m φ p f s >>= k := by
  cases m
  · simp_all [rfsPathRemInclude]
  · have : f ∉ r.rinch := fun h => hw.disjoint f h hf
    simp_all [rfsPathRemExclude]

/-- A filter the Path holds in neither chain: `-EINVAL`, and nothing changes. -/
theorem redirfsRemPath_absent (hs : RegInv s) (hp : p ∈ s.list) (h : s.heap p = some r)
    (hi : f ∉ r.rinch) (he : f ∉ r.rexch) :
    redirfsRemPath φ (some f) (some p) s = .ok (-EINVAL, s) := by
  simp [redirfsRemPath, Reg.deref_of_heap h, hi, he, rfsPathRem_cites h (hs.wf hp h).cites]

/-- A collaborator that fails: its error, and nothing changes. -/
theorem redirfsRemPath_fault (hs : RegInv s) (hp : p ∈ s.list) (h : s.heap p = some r)
    (hf : f ∈ r.chain m) {e : Errno} (he : φ.onRem = some e) :
    redirfsRemPath φ (some f) (some p) s = .ok (e.rv, s) := by
  have hw := hs.wf hp h
  obtain ⟨rt, hr⟩ := Option.ne_none_iff_exists'.1 hw.rroot
  simp only [redirfsRemPath, Reg.deref_of_heap h, except_ok_bind, remDispatch _ hw hf,
    rfsPathRemChain_eq h hr, hf, not_true_eq_false, if_false, he, rfsPathRem_cites h hw.cites]
  rfl

/-- **`redirfs_rem_path` on a held, registered Path holding the filter.** The
filter is removed; the Path stays registered if it holds another filter, and
is unregistered otherwise. -/
theorem redirfsRemPath_mem (hs : RegInv s) (hp : p ∈ s.list) (h : s.heap p = some r)
    (hr : r.rroot = some rt) (hf : f ∈ r.chain m) (ho : φ.onRem = none) (hh : p ∈ s.handles) :
    redirfsRemPath φ (some f) (some p) s =
      if (r.setChain m (rfsChainRem (r.chain m) f)).rinch ≠ [] ∨
          (r.setChain m (rfsChainRem (r.chain m) f)).rexch ≠ [] then
        .ok (0, s.remFlt p r m f rt)
      else .ok (0, (s.remFlt p r m f rt).unlink p (r.setChain m (rfsChainRem (r.chain m) f)) rt) := by
  have hw := hs.wf hp h
  have hcount := hs.count p r h
  have hh' := List.count_pos_iff.2 hh
  rw [if_pos hp] at hcount
  have h' : (s.remFlt p r m f rt).heap p = some (r.setChain m (rfsChainRem (r.chain m) f)) := by
    simp
  simp only [redirfsRemPath, Reg.deref_of_heap h, except_ok_bind, remDispatch _ hw hf,
    rfsPathRemChain_eq h hr, hf, not_true_eq_false, if_false, ho]
  split_ifs with hc
  · simp [rfsPathRem_cites h' hc, Reg.deref_of_heap h']
  · simp only [not_or, not_not] at hc
    simp [rfsPathRem_empty h' hc.1 hc.2 (by simpa using hr) (by simp; omega), Reg.deref]

/-- **A held Path that is no longer registered.** `redirfs_rem_path` finds the
filter in neither of its chains, but the `rfs_path_rem` it runs anyway hands
the Path's NULL `rroot` to the root. -/
theorem redirfsRemPath_unregistered (hs : RegInv s) (h : s.heap p = some r) (hp : p ∉ s.list) :
    redirfsRemPath φ (some f) (some p) s = .error .nullRroot := by
  obtain ⟨hi, he, hr, -⟩ := hs.unregistered p r h hp
  simp [redirfsRemPath, Reg.deref_of_heap h, hi, he, rfsPathRem_null h hi he hr]

/-- Once the filter is out of its chain, `redirfs_rem_path` returns `0`,
whatever happens to the Path after. -/
theorem redirfsRemPath_rv_zero (hs : RegInv s) (hp : p ∈ s.list) (h : s.heap p = some r)
    (hf : f ∈ r.chain m) (ho : φ.onRem = none) {rv : Int} {s' : Reg}
    (hres : redirfsRemPath φ (some f) (some p) s = .ok (rv, s')) : rv = 0 := by
  have hw := hs.wf hp h
  obtain ⟨rt, hr⟩ := Option.ne_none_iff_exists'.1 hw.rroot
  simp only [redirfsRemPath, Reg.deref_of_heap h, except_ok_bind, remDispatch _ hw hf,
    rfsPathRemChain_eq h hr, hf, not_true_eq_false, if_false, ho] at hres
  cases h1 : rfsPathRem p (s.remFlt p r m f rt) with
  | error e => rw [h1] at hres; cases hres
  | ok s₂ =>
    rw [h1, except_ok_bind] at hres
    cases h2 : s₂.deref p with
    | error e => rw [h2] at hres; cases hres
    | ok x => rw [h2, except_ok_bind] at hres; cases hres; rfl

/-- **A failed `redirfs_rem_path` changes nothing**, whichever Path it is
given. -/
theorem redirfsRemPath_error (hs : RegInv s) {filter : Option Flt} {path : Option Nat} {rv : Int}
    {s' : Reg} (h : redirfsRemPath φ filter path s = .ok (rv, s')) (hrv : rv ≠ 0) : s' = s := by
  match filter, path, h with
  | some f, some p, h =>
    cases hr : s.heap p with
    | none => simp [redirfsRemPath, Reg.deref, hr] at h
    | some r =>
      by_cases hp : p ∈ s.list
      · have hmode : ∀ m, f ∈ r.chain m → s' = s := fun m hf => by
          cases ho : φ.onRem with
          | some e => rw [redirfsRemPath_fault hs hp hr hf ho] at h; cases h; rfl
          | none => exact absurd (redirfsRemPath_rv_zero hs hp hr hf ho h) hrv
        by_cases hi : f ∈ r.rinch
        · exact hmode .include hi
        by_cases he : f ∈ r.rexch
        · exact hmode .exclude he
        rw [redirfsRemPath_absent hs hp hr hi he] at h
        cases h; rfl
      · rw [redirfsRemPath_unregistered hs hr hp] at h
        cases h
  | none, _, h => cases h; rfl
  | some _, none, h => cases h; rfl

end Rem

/-! ### Every outcome of a call -/

/-- Every way `redirfs_add_path` ends from a state with the invariant. -/
inductive AddOutcome (s : Reg) : Except Int Nat → Reg → Prop
  /-- An error, and nothing changed. -/
  | fail (e : Int) : AddOutcome s (.error e) s
  /-- An error after a new Path was made and dropped again: only the allocator
  moved. -/
  | failNew (e : Int) : AddOutcome s (.error e) { s with next := s.next + 1 }
  /-- The Path holds the filter in that mode already: a handle, and nothing
  else. -/
  | held {p : Nat} {r : RfsPath} : p ∈ s.list → s.heap p = some r → AddOutcome s (.ok p) (s.grab p r)
  /-- The filter joins a chain of a registered Path that held it in neither,
  and the caller gets a handle. -/
  | add {p : Nat} {r : RfsPath} {m : Mode} {f : Flt} {rt : Nat} : p ∈ s.list → s.heap p = some r →
      r.rroot = some rt → f ∉ r.chain m → f ∉ r.chain m.other →
      AddOutcome s (.ok p) ((s.grab p r).addFlt p { r with count := r.count + 1 } m f rt)
  /-- A new Path for a key no registered Path has, with the filter, and a
  handle. -/
  | new {mnt dentry : Nat} {m : Mode} {f : Flt} : s.firstOn (fun r => r.isAt mnt dentry) = none →
      AddOutcome s (.ok s.next) (s.register mnt dentry m f)

/-- Flags name a mode, or neither. -/
theorem flags_cases (flags : Int) :
    (∃ m : Mode, flags = m.flags) ∨ (flags ≠ REDIRFS_PATH_INCLUDE ∧ flags ≠ REDIRFS_PATH_EXCLUDE) := by
  by_cases hi : flags = REDIRFS_PATH_INCLUDE
  · exact .inl ⟨.include, hi⟩
  by_cases he : flags = REDIRFS_PATH_EXCLUDE
  · exact .inl ⟨.exclude, he⟩
  exact .inr ⟨hi, he⟩

section Outcome

variable {s' : Reg}

theorem redirfsAddPath_found_outcome (hs : RegInv s) {mnt dentry : Nat} {flags : Int}
    (h0 : flags ≠ 0) (hk : s.firstOn (fun r => r.isAt mnt dentry) = some p) {res : Except Int Nat}
    (h : redirfsAddPath φ (some f) (some ⟨some mnt, some dentry, flags⟩) s = .ok (res, s')) :
    AddOutcome s res s' := by
  obtain ⟨hp, r, hr, -⟩ := firstOn_some hk
  obtain ⟨rt, hrt⟩ := Option.ne_none_iff_exists'.1 (hs.wf hp hr).rroot
  rcases flags_cases flags with ⟨m, rfl⟩ | ⟨hi, he⟩
  · rw [redirfsAddPath_found hs hk hr hrt m] at h
    split_ifs at h with h1 h2
    · cases h; exact .held hp hr
    · cases h; exact .fail _
    · cases ho : φ.onAdd m <;> rw [ho] at h <;> cases h
      · exact .add hp hr hrt h1 h2
      · exact .fail _
  · rw [redirfsAddPath_foundBad hs hk hr h0 hi he] at h
    cases h; exact .fail _

theorem redirfsAddPath_new_outcome (hs : RegInv s) {mnt dentry : Nat} {flags : Int}
    (h0 : flags ≠ 0) (hk : s.firstOn (fun r => r.isAt mnt dentry) = none) {res : Except Int Nat}
    (h : redirfsAddPath φ (some f) (some ⟨some mnt, some dentry, flags⟩) s = .ok (res, s')) :
    AddOutcome s res s' := by
  cases ha : φ.alloc
  · cases hr : φ.rootAdd with
    | some e => rw [redirfsAddPath_rootAdd hs hk h0 ha hr] at h; cases h; exact .failNew _
    | none =>
      rcases flags_cases flags with ⟨m, rfl⟩ | ⟨hi, he⟩
      · rw [redirfsAddPath_new hs hk ha hr m] at h
        cases ho : φ.onAdd m <;> rw [ho] at h <;> cases h
        · exact .new hk
        · exact .failNew _
      · rw [redirfsAddPath_newBad hs hk ha hr h0 hi he] at h
        cases h; exact .failNew _
  · rw [redirfsAddPath_alloc hk h0 ha] at h
    cases h; exact .fail _

/-- **Every return of `redirfs_add_path` is an `RedirFS.AddOutcome`.** -/
theorem redirfsAddPath_outcome (hs : RegInv s) {filter : Option Flt} {info : Option PathInfo}
    {res : Except Int Nat} (h : redirfsAddPath φ filter info s = .ok (res, s')) :
    AddOutcome s res s' := by
  match filter, info, h with
  | some f, some ⟨some mnt, some dentry, flags⟩, h =>
    by_cases h0 : flags = 0
    · simp only [redirfsAddPath, h0, if_true] at h
      cases h; exact .fail _
    · cases hk : s.firstOn (fun r => r.isAt mnt dentry)
      · exact redirfsAddPath_new_outcome hs h0 hk h
      · exact redirfsAddPath_found_outcome hs h0 hk h
  | none, _, h => cases h; exact .fail _
  | some _, none, h => cases h; exact .fail _
  | some _, some ⟨none, _, _⟩, h => cases h; exact .fail _
  | some _, some ⟨some _, none, _⟩, h => cases h; exact .fail _

/-- Every way `redirfs_rem_path` ends, on a handle its caller holds, from a
state with the invariant. -/
inductive RemOutcome (s : Reg) : Int → Reg → Prop
  /-- An error, and nothing changed. -/
  | fail {rv : Int} : rv ≠ 0 → RemOutcome s rv s
  /-- The filter leaves a chain of a Path that keeps another filter. -/
  | keep {p : Nat} {r : RfsPath} {m : Mode} {f : Flt} {rt : Nat} : p ∈ s.list →
      s.heap p = some r → r.rroot = some rt → f ∈ r.chain m →
      (r.setChain m (rfsChainRem (r.chain m) f)).rinch ≠ [] ∨
        (r.setChain m (rfsChainRem (r.chain m) f)).rexch ≠ [] →
      RemOutcome s 0 (s.remFlt p r m f rt)
  /-- The last filter leaves a Path, which is unregistered while its caller
  still holds it. -/
  | unlink {p : Nat} {r : RfsPath} {m : Mode} {f : Flt} {rt : Nat} : p ∈ s.list →
      s.heap p = some r → r.rroot = some rt → f ∈ r.chain m →
      (r.setChain m (rfsChainRem (r.chain m) f)).rinch = [] →
      (r.setChain m (rfsChainRem (r.chain m) f)).rexch = [] → p ∈ s.handles →
      RemOutcome s 0 ((s.remFlt p r m f rt).unlink p (r.setChain m (rfsChainRem (r.chain m) f)) rt)

theorem redirfsRemPath_mem_outcome (hs : RegInv s) (hp : p ∈ s.list) (h : s.heap p = some r)
    {m : Mode} (hf : f ∈ r.chain m) (hh : p ∈ s.handles) {rv : Int}
    (hr : redirfsRemPath φ (some f) (some p) s = .ok (rv, s')) : RemOutcome s rv s' := by
  obtain ⟨rt, hrt⟩ := Option.ne_none_iff_exists'.1 (hs.wf hp h).rroot
  cases ho : φ.onRem with
  | some e => rw [redirfsRemPath_fault hs hp h hf ho] at hr; cases hr; exact .fail e.rv_ne_zero
  | none =>
    rw [redirfsRemPath_mem hs hp h hrt hf ho hh] at hr
    split_ifs at hr with hc
    · cases hr; exact .keep hp h hrt hf hc
    · simp only [not_or, not_not] at hc
      cases hr; exact .unlink hp h hrt hf hc.1 hc.2 hh

/-- **Every return of `redirfs_rem_path` on a held handle is a
`RedirFS.RemOutcome`.** -/
theorem redirfsRemPath_outcome (hs : RegInv s) {filter : Option Flt} {path : Option Nat}
    (hh : ∀ q, path = some q → q ∈ s.handles) {rv : Int}
    (h : redirfsRemPath φ filter path s = .ok (rv, s')) : RemOutcome s rv s' := by
  match filter, path, h with
  | some f, some p, h =>
    have hph := hh p rfl
    obtain ⟨r, hr⟩ := hs.heap_of_held hph
    by_cases hp : p ∈ s.list
    · by_cases hi : f ∈ r.rinch
      · exact redirfsRemPath_mem_outcome (m := .include) hs hp hr hi hph h
      by_cases he : f ∈ r.rexch
      · exact redirfsRemPath_mem_outcome (m := .exclude) hs hp hr he hph h
      rw [redirfsRemPath_absent hs hp hr hi he] at h
      cases h; exact .fail (by simp [EINVAL])
    · rw [redirfsRemPath_unregistered hs hr hp] at h
      cases h
  | none, _, h => cases h; exact .fail (by simp [EINVAL])
  | some _, none, h => cases h; exact .fail (by simp [EINVAL])

end Outcome

end RedirFS
