import RedirFS.Registry.Refine
import RedirFS.Registry.Safety
import RedirFS.Registry.Moves

/-!
# How the calls compose

`RedirFS.Reachable.refines` says what each call does to the abstract map on
its own. This module puts calls one after the other, as a filter does:

* an array from `redirfs_get_paths` or `redirfs_get_paths_root`, given back
  with `redirfs_put_paths`, leaves the registry as it was, up to the order of
  the callers' handles (`RedirFS.getPaths_putPaths_restores`);
* filters registering one key one after the other, in whatever order, are
  all in its chain at the end, in that order (`RedirFS.addPaths_keep_every_filter`);
* a registration made again hands out the same Path and changes nothing but
  a reference (`RedirFS.redirfsAddPath_again`);
* a registration undone by `redirfs_rem_path` gives the map, the lists, the
  counters and the Path's chains back (`RedirFS.addPath_remPath_restores`);
* `redirfs_rem_paths`, the loop of `redirfs_rem_path` over the array of
  `redirfs_get_paths`, removes the filter from every key and changes no other
  filter (`RedirFS.redirfsRemPaths_refines`);
* every handle given back with `redirfs_put_paths` frees exactly the Paths no
  longer registered and leaves each registered one with the references of its
  two lists (`RedirFS.redirfsPutPaths_all_frees_unregistered`).

Each rests on the equations of one call from a state with the invariant, and
on three frame facts: taking references changes no key's filters
(`RedirFS.Reg.abs_takeRefs`), giving one back changes none
(`RedirFS.Reg.abs_release`), and `redirfs_rem_path` touches its own Path only
(`RedirFS.redirfsRemPath_frame`).
-/

namespace RedirFS

variable {s : Reg} {p : Nat} {r : RfsPath}

/-! ### Giving back an array -/

/-- `rfs_path_put` gives back one of the references `RedirFS.Reg.takeRefs`
took. -/
theorem rfsPathPut_takeRefs (h : s.heap p = some r) (hc : r.count ≠ 0) (qs : List Nat) :
    rfsPathPut p (s.takeRefs (p :: qs)) = .ok (s.takeRefs qs) := by
  have hp : (s.takeRefs (p :: qs)).heap p = some { r with count := r.count + (qs.count p + 1) } := by
    simp [Reg.takeRefs, h]
  rw [rfsPathPut_of_lt hp (by show 1 < r.count + (qs.count p + 1); omega)]
  congr 1
  apply Reg.ext <;> try rfl
  funext q
  by_cases hq : q = p
  · subst hq
    simp [Reg.takeRefs, h]
  · simp [Reg.takeRefs, Reg.setPath, Function.update_noteq hq, List.count_cons, Ne.symm hq]

/-- `redirfs_put_paths` gives back the references `RedirFS.Reg.takeRefs`
took, one handle for each. -/
theorem redirfsPutPaths_takeRefs : ∀ (qs : List Nat) (s : Reg),
    (∀ q ∈ qs, ∃ r, s.heap q = some r ∧ r.count ≠ 0) →
    redirfsPutPaths qs (s.takeRefs qs) = .ok { s with handles := s.handles.diff qs }
  | [], s, _ => by simp [redirfsPutPaths]
  | p :: qs, s, hq => by
    obtain ⟨r, hr, hc⟩ := hq p (List.mem_cons_self _ _)
    simp only [redirfsPutPaths, redirfsPutPath, rfsPathPut_takeRefs hr hc, except_ok_bind,
      except_pure, Reg.takeRefs_handles, List.diff_cons]
    exact redirfsPutPaths_takeRefs qs { s with handles := s.handles.erase p }
      fun q hq' => hq q (List.mem_cons_of_mem _ hq')

theorem diff_append_perm (l qs : List Nat) : ((l ++ qs).diff qs).Perm l := by
  have h : (qs ++ (l ++ qs).diff qs).Perm (l ++ qs) :=
    List.subperm_append_diff_self_of_count_le fun x _ => by simp [List.count_append]
  exact (List.perm_append_left_iff qs).1 (h.trans List.perm_append_comm)

/-- What a caller that gives back every reference of an array finds: from the
state an array call left, with its result, `redirfs_put_paths` of the array
returns to `s` but for the order of the callers' handles; a call that failed
left `s` as it was. -/
def PutsBack (s : Reg) : Except Int (List Nat) → Reg → Prop
  | .ok ps, s₁ => ∃ s₂, redirfsPutPaths ps s₁ = .ok s₂ ∧ s₂ = { s with handles := s₂.handles } ∧
      s₂.handles.Perm s.handles
  | .error _, s₁ => s₁ = s

/-- An array of registered Paths, taken and given back. -/
theorem putsBack_takeRefs (hs : RegInv s) {ps : List Nat} (hps : ∀ q ∈ ps, q ∈ s.list) :
    PutsBack s (.ok ps) { s.takeRefs ps with handles := s.handles ++ ps } :=
  ⟨_, redirfsPutPaths_takeRefs ps { s with handles := s.handles ++ ps } fun q hq => hs.alive q (hps q hq),
    rfl, diff_append_perm _ _⟩

/-- **An array given back leaves the registry as it was.** In every reachable
state, for every filter and root and every outcome of the allocation, what
`redirfs_get_paths` and `redirfs_get_paths_root` return, given back by
`redirfs_put_paths`, leaves every Path, list, root, counter and chain object
as it was, and the callers' handles as they were but for their order. -/
theorem getPaths_putPaths_restores (h : Reachable s) (φ : Faults) (f : Flt) (rt : Nat) :
    (∃ res s₁, redirfsGetPaths φ (some f) s = .ok (res, s₁) ∧ PutsBack s res s₁) ∧
      ∃ res s₁, redirfsGetPathsRoot φ (some f) (some rt) s = .ok (res, s₁) ∧ PutsBack s res s₁ := by
  have hs := RegInv.of_reachable h
  cases ha : φ.alloc
  · refine ⟨⟨_, _, redirfsGetPaths_eq hs f ha, putsBack_takeRefs hs fun q hq => ?_⟩,
      _, _, redirfsGetPathsRoot_eq hs f rt ha, putsBack_takeRefs hs fun q hq => ?_⟩
    · exact List.mem_of_mem_filter hq
    · split_ifs at hq
      · rw [hs.roots] at hq
        exact List.mem_of_mem_filter hq
      · cases hq
  · exact ⟨⟨.error (-ENOMEM), s, by simp [redirfsGetPaths, ha], rfl⟩, .error (-ENOMEM), s,
      by simp [redirfsGetPathsRoot, ha], rfl⟩

theorem getPaths_putPaths_restores_one :
    Reachable oneReg ∧
      (∃ res s₁, redirfsGetPaths noFaults (some 7) oneReg = .ok (res, s₁) ∧ PutsBack oneReg res s₁) ∧
      ∃ res s₁, redirfsGetPathsRoot noFaults (some 7) (some 0) oneReg = .ok (res, s₁) ∧
        PutsBack oneReg res s₁ :=
  ⟨oneReg_reachable, getPaths_putPaths_restores oneReg_reachable noFaults 7 0⟩

/-! ### Registering a filter, again and again -/

/-- The chain in mode `m` of the Path registered for key `k`, or no chain when
there is none. -/
def Reg.chainAt (s : Reg) (k : Key) (m : Mode) : List Flt :=
  (((s.pathOf k).bind s.heap).map (·.chain m)).getD []

theorem Reg.chainAt_of_mem (hs : RegInv s) (hp : p ∈ s.list) (h : s.heap p = some r) (m : Mode) :
    s.chainAt (r.mnt, r.dentry) m = r.chain m := by
  simp [Reg.chainAt, Reg.pathOf_of_mem hs hp h, h]

theorem Reg.chainAt_of_pathOf_none {k : Key} (h : s.pathOf k = none) (m : Mode) :
    s.chainAt k m = [] := by
  simp [Reg.chainAt, h]

section Add

variable {mnt dentry : Nat} {f : Flt}

/-- **`redirfs_add_path` of a filter the key does not hold**, with no fault: a
new Path when the key has none, and the filter added to the key's Path
otherwise. -/
theorem redirfsAddPath_of_abs_none (hs : RegInv s) (hnone : s.abs (mnt, dentry) f = none)
    (m : Mode) :
    (s.pathOf (mnt, dentry) = none ∧
      redirfsAddPath noFaults (some f) (some ⟨some mnt, some dentry, m.flags⟩) s =
        .ok (.ok s.next, s.register mnt dentry m f)) ∨
    ∃ p r rt, s.pathOf (mnt, dentry) = some p ∧ p ∈ s.list ∧ s.heap p = some r ∧
      r.rroot = some rt ∧ f ∉ r.chain m ∧ f ∉ r.chain m.other ∧ (r.mnt, r.dentry) = (mnt, dentry) ∧
      redirfsAddPath noFaults (some f) (some ⟨some mnt, some dentry, m.flags⟩) s =
        .ok (.ok p, (s.grab p r).addFlt p { r with count := r.count + 1 } m f rt) := by
  cases hk : s.pathOf (mnt, dentry) with
  | none =>
    refine .inl ⟨rfl, ?_⟩
    rw [redirfsAddPath_new hs ((firstOn_isAt s mnt dentry).trans hk) rfl rfl m]
    cases m <;> rfl
  | some p =>
    obtain ⟨hp, r, hr, hkr⟩ := Reg.abs_of_pathOf hk
    obtain ⟨rt, hrt⟩ := Option.ne_none_iff_exists'.1 (hs.wf hp hr).rroot
    rw [← hkr, Reg.abs_of_mem hs hp hr, RfsPath.modeOf_eq_none] at hnone
    have h1 : f ∉ r.chain m := by cases m <;> simp [hnone.1, hnone.2]
    have h2 : f ∉ r.chain m.other := by cases m <;> simp [hnone.1, hnone.2]
    refine .inr ⟨p, r, rt, rfl, hp, hr, hrt, h1, h2, hkr, ?_⟩
    rw [redirfsAddPath_found hs ((firstOn_isAt s mnt dentry).trans hk) hr hrt m, if_neg h1, if_neg h2]
    cases m <;> rfl

/-- One registration of a filter the key does not hold: the filter joins the
tail of the key's chain in its mode, the other chain stays, and every other
filter keeps its membership of the key. -/
theorem addPath_chainAt (hs : RegInv s) (hnone : s.abs (mnt, dentry) f = none) (m : Mode) :
    ∃ ret s₁, apiStep s (.addPath noFaults (some f) (some ⟨some mnt, some dentry, m.flags⟩)) =
        .ok (ret, s₁) ∧ RegInv s₁ ∧
      s₁.chainAt (mnt, dentry) m = s.chainAt (mnt, dentry) m ++ [f] ∧
      s₁.chainAt (mnt, dentry) m.other = s.chainAt (mnt, dentry) m.other ∧
      ∀ g, g ≠ f → s₁.abs (mnt, dentry) g = s.abs (mnt, dentry) g := by
  obtain ⟨res, s₁, hadd, habs⟩ := redirfsAddPath_refines hs (φ := noFaults) rfl rfl mnt dentry f m
    (by cases m <;> rfl)
  have hs₁ := (redirfsAddPath_outcome hs hadd).regInv hs
  simp only [AbsReg.add, hnone] at habs
  refine ⟨_, s₁, by rw [apiStep, hadd]; rfl, hs₁, ?_⟩
  have hother : ∀ g, g ≠ f → s₁.abs (mnt, dentry) g = s.abs (mnt, dentry) g := fun g hg => by
    rw [habs.2, Function.update_same, Function.update_noteq hg]
  rcases redirfsAddPath_of_abs_none hs hnone m with ⟨hk, h'⟩ | ⟨p, r, rt, -, hp, hr, -, -, -, hkr, h'⟩
  · -- a new Path
    rw [hadd] at h'
    cases h'
    have hc := fun m' => Reg.chainAt_of_mem hs₁ (p := s.next) (r := s.newPath mnt dentry m f)
      (by simp) (by simp) m'
    simp only [Reg.newPath_mnt, Reg.newPath_dentry] at hc
    rw [hc, hc, Reg.chainAt_of_pathOf_none hk, Reg.chainAt_of_pathOf_none hk]
    exact ⟨by cases m <;> rfl, by cases m <;> rfl, hother⟩
  · -- the filter joins the key's Path
    rw [hadd] at h'
    cases h'
    simp only [Prod.mk.injEq] at hkr
    obtain ⟨rfl, rfl⟩ := hkr
    have hc := fun m' => Reg.chainAt_of_mem hs₁ (p := p)
      (r := ({ r with count := r.count + 1 } : RfsPath).setChain m (rfsChainAdd (r.chain m) f))
      (by simpa [Reg.grab] using hp) (by simp [Reg.grab]) m'
    simp only [RfsPath.setChain_mnt, RfsPath.setChain_dentry] at hc
    rw [hc, hc, Reg.chainAt_of_mem hs hp hr, Reg.chainAt_of_mem hs hp hr]
    exact ⟨by cases m <;> rfl, by cases m <;> rfl, hother⟩

/-- **No registration is lost.** From every reachable state, filters `fs`,
distinct and none of which holds key `(mnt, dentry)`, registering it in mode
`m` one after the other with no fault, in whichever order the mutex lets them
in: every call returns, and the run ends in a reachable state where the key's
chain in mode `m` is the one it had followed by all of `fs`, in the order they
came, and its other chain is as it was. -/
theorem addPaths_keep_every_filter (h : Reachable s) (mnt dentry : Nat) (m : Mode) (fs : List Flt)
    (hnd : fs.Nodup) (hfs : ∀ f ∈ fs, s.abs (mnt, dentry) f = none) :
    ∃ s', s.run (fs.map fun f => .addPath noFaults (some f) (some ⟨some mnt, some dentry, m.flags⟩)) =
        .ok s' ∧ Reachable s' ∧ s'.chainAt (mnt, dentry) m = s.chainAt (mnt, dentry) m ++ fs ∧
      s'.chainAt (mnt, dentry) m.other = s.chainAt (mnt, dentry) m.other := by
  induction fs generalizing s with
  | nil => exact ⟨s, rfl, h, by simp, rfl⟩
  | cons f fs ih =>
    rw [List.nodup_cons] at hnd
    obtain ⟨ret, s₁, hstep, -, hc, hc', hother⟩ :=
      addPath_chainAt (RegInv.of_reachable h) (hfs f (List.mem_cons_self _ _)) m
    obtain ⟨s', hrun, h', hm, ho⟩ := ih (h.step (by rfl) hstep) hnd.2 fun g hg => by
      rw [hother g (fun e => hnd.1 (e ▸ hg)), hfs g (List.mem_cons_of_mem _ hg)]
    exact ⟨s', by rw [List.map_cons, Reg.run, hstep]; exact hrun, h',
      by rw [hm, hc, List.append_assoc, List.singleton_append], by rw [ho, hc']⟩

theorem addPaths_keep_every_filter_init :
    Reachable (Reg.init fun _ => 0) ∧ [7, 8].Nodup ∧
      (∀ f ∈ [7, 8], (Reg.init fun _ => 0).abs (1, 10) f = none) ∧
      ∃ s', (Reg.init fun _ => 0).run ([7, 8].map fun f =>
          .addPath noFaults (some f) (some ⟨some 1, some 10, Mode.include.flags⟩)) = .ok s' ∧
        Reachable s' ∧ s'.chainAt (1, 10) .include = (Reg.init fun _ => 0).chainAt (1, 10) .include ++ [7, 8] ∧
        s'.chainAt (1, 10) Mode.include.other = (Reg.init fun _ => 0).chainAt (1, 10) Mode.include.other :=
  have hnone : ∀ f ∈ [7, 8], (Reg.init fun _ => 0).abs (1, 10) f = none := fun _ _ => rfl
  ⟨.init _, by decide, hnone, addPaths_keep_every_filter (.init _) 1 10 .include [7, 8] (by decide) hnone⟩

/-- After `redirfs_add_path` hands out a Path, that Path is the key's and
holds the filter in the mode. -/
theorem redirfsAddPath_ok_holds (hs : RegInv s) {φ : Faults} {m : Mode} {s₁ : Reg}
    (h₁ : redirfsAddPath φ (some f) (some ⟨some mnt, some dentry, m.flags⟩) s = .ok (.ok p, s₁)) :
    RegInv s₁ ∧ s₁.firstOn (fun r => r.isAt mnt dentry) = some p ∧
      ∃ r, s₁.heap p = some r ∧ f ∈ r.chain m ∧ ∃ rt, r.rroot = some rt := by
  have hs₁ := (redirfsAddPath_outcome hs h₁).regInv hs
  refine ⟨hs₁, ?_⟩
  rw [firstOn_isAt]
  cases hk : s.firstOn (fun r => r.isAt mnt dentry) with
  | none =>
    cases ha : φ.alloc
    · cases hr : φ.rootAdd with
      | some e => rw [redirfsAddPath_rootAdd hs hk (Mode.flags_ne_zero m) ha hr] at h₁; cases h₁
      | none =>
        rw [redirfsAddPath_new hs hk ha hr m] at h₁
        cases ho : φ.onAdd m <;> rw [ho] at h₁ <;> cases h₁
        have hp := Reg.pathOf_of_mem hs₁ (p := s.next) (r := s.newPath mnt dentry m f) (by simp) (by simp)
        simp only [Reg.newPath_mnt, Reg.newPath_dentry] at hp
        exact ⟨hp, s.newPath mnt dentry m f, by simp, by cases m <;> simp [Reg.newPath, RfsPath.setChain],
          s.rootOf dentry, by simp⟩
    · rw [redirfsAddPath_alloc hk (Mode.flags_ne_zero m) ha] at h₁; cases h₁
  | some q =>
    obtain ⟨hq, r, hr, hat⟩ := firstOn_some hk
    simp only [RfsPath.isAt, Bool.and_eq_true, beq_iff_eq] at hat
    obtain ⟨rfl, rfl⟩ := hat
    obtain ⟨rt, hrt⟩ := Option.ne_none_iff_exists'.1 (hs.wf hq hr).rroot
    rw [redirfsAddPath_found hs hk hr hrt m] at h₁
    split_ifs at h₁ with h1 h2
    · cases h₁
      exact ⟨Reg.pathOf_of_mem hs₁ (r := { r with count := r.count + 1 }) (by simpa [Reg.grab] using hq)
        (by simp [Reg.grab]), { r with count := r.count + 1 }, by simp [Reg.grab], by simpa using h1,
        rt, hrt⟩
    · cases h₁
    · cases ho : φ.onAdd m <;> rw [ho] at h₁ <;> cases h₁
      have hp₁ := Reg.pathOf_of_mem hs₁ (p := p)
        (r := ({ r with count := r.count + 1 } : RfsPath).setChain m (rfsChainAdd (r.chain m) f))
        (by simpa [Reg.grab] using hq) (by simp [Reg.grab])
      simp only [RfsPath.setChain_mnt, RfsPath.setChain_dentry] at hp₁
      exact ⟨hp₁, ({ r with count := r.count + 1 } : RfsPath).setChain m (rfsChainAdd (r.chain m) f),
        by simp [Reg.grab], by simp [rfsChainAdd], rt, by simpa using hrt⟩

/-- **Registering twice is registering once.** From every reachable state,
once `redirfs_add_path` has handed out a Path for a filter, a key and a mode,
the same call again, whatever its collaborators would do, hands out the same
Path and changes nothing but the reference it gives the caller: the chains,
the lists and the counters stay as they are. -/
theorem redirfsAddPath_again (h : Reachable s) {φ : Faults} {m : Mode} {s₁ : Reg}
    (h₁ : redirfsAddPath φ (some f) (some ⟨some mnt, some dentry, m.flags⟩) s = .ok (.ok p, s₁))
    (φ' : Faults) :
    ∃ r, s₁.heap p = some r ∧ f ∈ r.chain m ∧
      redirfsAddPath φ' (some f) (some ⟨some mnt, some dentry, m.flags⟩) s₁ = .ok (.ok p, s₁.grab p r) := by
  obtain ⟨hs₁, hk, r, hr, hf, rt, hrt⟩ := redirfsAddPath_ok_holds (RegInv.of_reachable h) h₁
  exact ⟨r, hr, hf, by rw [redirfsAddPath_found hs₁ hk hr hrt m, if_pos hf]⟩

theorem redirfsAddPath_again_init :
    Reachable (Reg.init fun _ => 0) ∧
      redirfsAddPath noFaults (some 7) (some ⟨some 1, some 10, Mode.include.flags⟩) (Reg.init fun _ => 0) =
        .ok (.ok 0, (Reg.init fun _ => 0).register 1 10 .include 7) ∧
      ∃ r, ((Reg.init fun _ => 0).register 1 10 .include 7).heap 0 = some r ∧ 7 ∈ r.chain .include ∧
        redirfsAddPath noFaults (some 7) (some ⟨some 1, some 10, Mode.include.flags⟩)
          ((Reg.init fun _ => 0).register 1 10 .include 7) =
          .ok (.ok 0, ((Reg.init fun _ => 0).register 1 10 .include 7).grab 0 r) :=
  have h₁ : redirfsAddPath noFaults (some 7) (some ⟨some 1, some 10, Mode.include.flags⟩)
      (Reg.init fun _ => 0) = .ok (.ok 0, (Reg.init fun _ => 0).register 1 10 .include 7) := by
    rw [redirfsAddPath_new (RegInv.init _) rfl rfl rfl .include]
    rfl
  ⟨.init _, h₁, redirfsAddPath_again (.init _) h₁ noFaults⟩

/-- What the abstract map reads of a Path: its key and its two chains. -/
def RfsPath.view (r : RfsPath) : (Nat × Nat) × List Flt × List Flt := ((r.mnt, r.dentry), r.rinch, r.rexch)

/-- The mode of a filter in a Path depends on its view only. -/
theorem bind_modeOf_congr {o o' : Option RfsPath} (h : o.map RfsPath.view = o'.map RfsPath.view) (g : Flt) :
    o.bind (·.modeOf g) = o'.bind (·.modeOf g) := by
  cases o <;> cases o' <;> simp_all [RfsPath.view, RfsPath.modeOf]

/-- A state that agrees with `s` on the list and on the key and the chains of
every registered Path represents the same abstract map. -/
theorem Reg.abs_congr {t : Reg} (hl : t.list = s.list)
    (hh : ∀ q ∈ s.list, (t.heap q).map RfsPath.view = (s.heap q).map RfsPath.view) : t.abs = s.abs := by
  have hkey : ∀ q ∈ s.list, keyOf t.heap q = keyOf s.heap q := fun q hq => by
    simpa [keyOf, Option.map_map, Function.comp_def, RfsPath.view] using
      congrArg (Option.map Prod.fst) (hh q hq)
  have hpath : t.pathOf = s.pathOf := by
    funext k
    simp only [Reg.pathOf, hl]
    exact find?_congr fun q hq => by rw [hkey q hq]
  funext k g
  simp only [Reg.abs, hpath]
  cases hq : s.pathOf k with
  | none => rfl
  | some q => exact bind_modeOf_congr (hh q (List.mem_of_find?_eq_some hq)) g

/-- **Registering and unregistering a filter is a round trip.** From every
reachable state, for a filter that does not hold key `(mnt, dentry)`,
registered in mode `m` and then unregistered through the Path
`redirfs_add_path` handed out, with no fault: the unregistration returns `0`,
and the abstract map, `rfs_path_list`, every filter's `paths_nr` and every
root's list of Paths are as they were. The Path's two chains are as they were,
both empty for a Path the registration made, which is then registered no
more; the caller still holds it. -/
theorem addPath_remPath_restores (h : Reachable s) (mnt dentry : Nat) (f : Flt) (m : Mode)
    (hnone : s.abs (mnt, dentry) f = none) :
    ∃ p s₁, redirfsAddPath noFaults (some f) (some ⟨some mnt, some dentry, m.flags⟩) s = .ok (.ok p, s₁) ∧
      ∃ s₂, redirfsRemPath noFaults (some f) (some p) s₁ = .ok (0, s₂) ∧
        s₂.abs = s.abs ∧ s₂.list = s.list ∧ s₂.pathsNr = s.pathsNr ∧
        (∀ rt, (s₂.roots rt).rpaths = (s.roots rt).rpaths) ∧ p ∈ s₂.handles ∧
        ∃ r₂, s₂.heap p = some r₂ ∧
          (r₂.rinch, r₂.rexch) = ((s.heap p).map fun r => (r.rinch, r.rexch)).getD ([], []) := by
  have hs := RegInv.of_reachable h
  rcases redirfsAddPath_of_abs_none hs hnone m with
    ⟨hk, hadd⟩ | ⟨p, r, rt, -, hp, hr, hrt, h1, -, hkr, hadd⟩
  · -- a new Path, unregistered again
    have hs₁ := (redirfsAddPath_outcome hs hadd).regInv hs
    have hfr := hs.fresh s.next le_rfl
    have hnl := hs.next_not_mem
    have hf : f ∈ (s.newPath mnt dentry m f).chain m := by cases m <;> simp [Reg.newPath, RfsPath.setChain]
    refine ⟨s.next, _, hadd, ?_⟩
    rw [redirfsRemPath_mem (φ := noFaults) hs₁ (by simp) (by simp) (Reg.newPath_rroot ..) hf rfl (by simp),
      if_neg (by cases m <;> simp [Reg.newPath, RfsPath.setChain, rfsChainRem])]
    refine ⟨_, rfl, Reg.abs_congr (by simp [List.erase_append_right _ hnl]) fun q hq => ?_,
      by simp [List.erase_append_right _ hnl], by simp, fun rt => ?_, by simp, ?_⟩
    · simp [Function.update_noteq (ne_of_mem_of_not_mem hq hnl)]
    · have hnr : s.next ∉ (s.roots rt).rpaths := by
        rw [hs.roots]
        exact fun hn => hnl (List.mem_of_mem_filter hn)
      simp only [Reg.unlink_rpaths, Reg.remFlt_rpaths, Reg.register_rpaths]
      split_ifs with h₁
      · subst h₁
        rw [List.erase_append_right _ hnr, List.erase_cons_head, List.append_nil]
      · rfl
    · rw [Reg.unlink_heap, Function.update_same]
      exact ⟨_, rfl, by cases m <;> simp [hfr, Reg.newPath, RfsPath.setChain, rfsChainRem]⟩
  · -- the filter leaves the key's Path again
    simp only [Prod.mk.injEq] at hkr
    obtain ⟨rfl, rfl⟩ := hkr
    have hs₁ := (redirfsAddPath_outcome hs hadd).regInv hs
    have hw : (({ r with count := r.count + 1 } : RfsPath).setChain m
        (rfsChainAdd (r.chain m) f)).setChain m
        (rfsChainRem (((({ r with count := r.count + 1 } : RfsPath).setChain m
          (rfsChainAdd (r.chain m) f))).chain m) f) = { r with count := r.count + 1 } := by
      cases m <;> simp_all [RfsPath.setChain, rfsChainRem, rfsChainAdd, List.erase_append_right]
    refine ⟨p, _, hadd, ?_⟩
    rw [redirfsRemPath_mem (φ := noFaults) (m := m)
      (r := ({ r with count := r.count + 1 } : RfsPath).setChain m (rfsChainAdd (r.chain m) f))
      hs₁ (by simpa [Reg.grab] using hp) (by simp [Reg.grab]) (by simpa using hrt)
      (by simp [rfsChainAdd]) rfl (by simp [Reg.grab]), hw, if_pos (hs.wf hp hr).cites]
    have hheap : (((s.grab p r).addFlt p { r with count := r.count + 1 } m f rt).remFlt p
        (({ r with count := r.count + 1 } : RfsPath).setChain m (rfsChainAdd (r.chain m) f)) m f rt).heap =
        Function.update s.heap p (some { r with count := r.count + 1 }) := by
      rw [Reg.remFlt_heap, hw]
      simp [Reg.grab, Function.update_idem]
    refine ⟨_, rfl, ?_, by simp [Reg.grab], by simp [Reg.grab], fun rt' => by simp [Reg.grab],
      by simp [Reg.grab], _, by rw [hheap, Function.update_same], by simp [hr]⟩
    rw [Reg.abs_update hs hp hr (by simp [Reg.grab]) hheap ⟨rfl, rfl⟩, RfsPath.modeOf_count,
      ← Reg.abs_of_mem hs hp hr, Function.update_eq_self]

theorem addPath_remPath_restores_init :
    Reachable (Reg.init fun _ => 0) ∧ (Reg.init fun _ => 0).abs (1, 10) 7 = none ∧
      ∃ p s₁, redirfsAddPath noFaults (some 7) (some ⟨some 1, some 10, Mode.include.flags⟩)
          (Reg.init fun _ => 0) = .ok (.ok p, s₁) ∧
        ∃ s₂, redirfsRemPath noFaults (some 7) (some p) s₁ = .ok (0, s₂) ∧
          s₂.abs = (Reg.init fun _ => 0).abs ∧ s₂.list = (Reg.init fun _ => 0).list ∧
          s₂.pathsNr = (Reg.init fun _ => 0).pathsNr ∧
          (∀ rt, (s₂.roots rt).rpaths = ((Reg.init fun _ => 0).roots rt).rpaths) ∧ p ∈ s₂.handles ∧
          ∃ r₂, s₂.heap p = some r₂ ∧ (r₂.rinch, r₂.rexch) =
            (((Reg.init fun _ => 0).heap p).map fun r => (r.rinch, r.rexch)).getD ([], []) :=
  ⟨.init _, rfl, addPath_remPath_restores (.init _) 1 10 7 .include rfl⟩

end Add

/-! ### Removing a filter everywhere -/

/-- The spec's `remove_all_paths(f)` on the abstract registry: no key holds
the filter any more, and every other filter holds what it held. -/
def AbsReg.remAll (A : AbsReg) (f : Flt) : AbsReg := fun k g => if g = f then none else A k g

theorem Reg.abs_takeRefs (s : Reg) (qs : List Nat) (hd : List Nat) :
    ({ s.takeRefs qs with handles := hd } : Reg).abs = s.abs :=
  Reg.abs_congr rfl fun q _ => Reg.reads_takeRefs (g := RfsPath.view) (fun _ _ => rfl) qs hd q

/-- A reference given back changes no key's filters. -/
theorem Reg.abs_release (hs : RegInv s) (h : s.heap p = some r) : (s.release p r).abs = s.abs :=
  Reg.abs_congr (Reg.release_list ..) (Reg.reads_release (g := RfsPath.view) (fun _ _ => rfl) hs h)

/-- `redirfs_put_paths` of handles the caller holds changes no key's
filters. -/
theorem redirfsPutPaths_abs : ∀ (ps : List Nat) {s s' : Reg}, RegInv s →
    (∀ p, ps.count p ≤ s.handles.count p) → redirfsPutPaths ps s = .ok s' → s'.abs = s.abs :=
  fun ps s _ hs hc h => redirfsPutPaths_preserves (fun t => t.abs = s.abs)
    (fun hs _ hr hp => (Reg.abs_release hs hr).trans hp) ps hs hc h rfl

/-- The loop of `redirfs_rem_paths` with no fault, over distinct held Paths
that cite the filter: each call returns `0`, and every key of the Paths loses
the filter and nothing else. -/
theorem remPathsLoop_removes (f : Flt) :
    ∀ (ps : List Nat) (i : Nat) (rv : Int) {u : Reg}, RegInv u → ps.Nodup →
      (∀ p ∈ ps, p ∈ u.list ∧ p ∈ u.handles ∧ citesAt u.heap f p = true) →
      ∃ rv' u', remPathsLoop (fun _ => noFaults) f i ps rv u = .ok (rv', u') ∧ RegInv u' ∧
        u'.handles = u.handles ∧
        u'.abs = fun k g => if g = f ∧ ∃ p ∈ ps, keyOf u.heap p = some k then none else u.abs k g
  | [], _, rv, u, hs, _, _ => ⟨rv, u, rfl, hs, rfl, by simp⟩
  | p :: ps, i, _, u, hs, hnd, hps => by
    obtain ⟨hp, hh, hcp⟩ := hps p (List.mem_cons_self _ _)
    obtain ⟨r, hr, -⟩ := hs.registered p hp
    have hcf : r.cites f = true := by simpa [citesAt, hr] using hcp
    obtain ⟨rv₁, u₁, h₁, hmatch⟩ := redirfsRemPath_refines (φ := noFaults) hs rfl f hp hh hr
    have hrem : u.abs.rem (r.mnt, r.dentry) f =
        .ok (Function.update u.abs (r.mnt, r.dentry) (Function.update (u.abs (r.mnt, r.dentry)) f none)) := by
      have : r.modeOf f ≠ none := by
        rw [Ne, ← Option.not_isSome_iff_eq_none, RfsPath.modeOf_isSome]; simp [hcf]
      obtain ⟨m, hm⟩ := Option.ne_none_iff_exists'.1 this
      simp [AbsReg.rem, Reg.abs_of_mem hs hp hr, hm]
    rw [hrem] at hmatch
    obtain ⟨rfl, habs₁⟩ := hmatch
    have ho := redirfsRemPath_outcome hs (by rintro q ⟨⟩; exact hh) h₁
    rw [List.nodup_cons] at hnd
    have hfr := fun q (hq : q ∈ ps) => redirfsRemPath_frame hs hp hh h₁ q (fun e => hnd.1 (e ▸ hq))
    obtain ⟨rv', u', h', hs', hh', habs'⟩ := remPathsLoop_removes f ps (i + 1) 0 (ho.regInv hs) hnd.2
      fun q hq => by
        obtain ⟨hql, hqh, hqc⟩ := hps q (List.mem_cons_of_mem _ hq)
        exact ⟨(hfr q hq).2 hql, ho.handles ▸ hqh, by simpa [citesAt, (hfr q hq).1] using hqc⟩
    refine ⟨rv', u', ?_, hs', hh'.trans ho.handles, ?_⟩
    · simp only [remPathsLoop, h₁, except_ok_bind, ne_eq, not_true_eq_false, if_false]
      exact h'
    have hkey : ∀ q ∈ ps, keyOf u₁.heap q = keyOf u.heap q := fun q hq => by
      simp only [keyOf, (hfr q hq).1]
    funext k g
    have hex : (∃ q ∈ ps, keyOf u₁.heap q = some k) ↔ ∃ q ∈ ps, keyOf u.heap q = some k :=
      exists_congr fun q => and_congr_right fun hq => by rw [hkey q hq]
    have hkp : keyOf u.heap p = some (r.mnt, r.dentry) := keyOf_of_heap hr
    rw [habs']
    simp only [hex, habs₁, List.exists_mem_cons, hkp, Option.some.injEq]
    by_cases hk : (r.mnt, r.dentry) = k
    · subst hk
      by_cases hg : g = f <;> simp [hg, hkp]
    · by_cases hg : g = f <;> simp [hg, hk, hkp, Function.update_noteq (Ne.symm hk)]

/-- `redirfs_rem_paths` with no fault, under the invariant: it removes the
filter from every key and nothing else, and gives back every reference it
took. -/
theorem redirfsRemPaths_remAll (hs : RegInv s) (f : Flt) (rv : Int) :
    ∃ rv' s', redirfsRemPaths noFaults (fun _ => noFaults) rv (some f) s = .ok (rv', s') ∧
      s'.abs = s.abs.remAll f ∧ s'.handles.Perm s.handles := by
  set ps := s.list.filter (citesAt s.heap f)
  have hs₀ : RegInv { s.takeRefs ps with handles := s.handles ++ ps } := hs.takeRefs fun q hq => by
    obtain ⟨r, hr, -⟩ := hs.registered q (List.mem_of_mem_filter hq)
    simp [hr]
  obtain ⟨rv₂, u₂, h₂, hs₂, hh₂, habs₂⟩ := remPathsLoop_removes f ps 0 rv hs₀ (hs.nodup.filter _)
    fun q hq => ⟨List.mem_of_mem_filter hq, List.mem_append_right _ hq, by
      rw [show ({ s.takeRefs ps with handles := s.handles ++ ps } : Reg).heap = (s.takeRefs ps).heap
        from rfl, citesAt_takeRefs]
      exact (List.mem_filter.1 hq).2⟩
  have hle : ∀ q, ps.count q ≤ u₂.handles.count q := fun q => by
    simp [hh₂, List.count_append]
  obtain ⟨u₃, h₃, -, hcount⟩ := RegInv.putPaths ps hs₂ hle
  refine ⟨rv₂, u₃, ?_, ?_, ?_⟩
  · simp only [redirfsRemPaths, redirfsGetPaths_eq (φ := noFaults) hs f rfl, except_ok_bind, h₂, h₃]
    rfl
  · rw [redirfsPutPaths_abs ps hs₂ hle h₃, habs₂, Reg.abs_takeRefs]
    funext k g
    simp only [AbsReg.remAll]
    by_cases hg : g = f
    · subst hg
      rw [if_pos rfl]
      split_ifs with hex
      · rfl
      · -- a key that holds the filter has a Path citing it
        by_contra hne
        cases hq : s.pathOf k with
        | none => exact hne (by simp [Reg.abs, hq])
        | some q =>
          obtain ⟨hq', r, hr, rfl⟩ := Reg.abs_of_pathOf hq
          rw [Reg.abs_of_mem hs hq' hr] at hne
          refine hex ⟨rfl, q, List.mem_filter.2 ⟨hq', ?_⟩, ?_⟩
          · simpa [citesAt, hr, ← RfsPath.modeOf_isSome, Option.isSome_iff_ne_none] using hne
          · rw [show ({ s.takeRefs ps with handles := s.handles ++ ps } : Reg).heap = (s.takeRefs ps).heap
              from rfl, keyOf_takeRefs, keyOf_of_heap hr]
    · simp [hg]
  · rw [List.perm_iff_count]
    intro q
    have := hcount q
    simp only [hh₂, List.count_append] at this
    omega

/-- **`redirfs_rem_paths` removes the filter everywhere, and nothing else.**
From every reachable state, with no collaborator failing and whatever its
uninitialised `rv` holds, `redirfs_rem_paths(f)` returns; afterwards no key
holds `f`, every other filter holds exactly the keys it held, and the callers'
handles are as they were but for their order: every reference it took is
given back. -/
theorem redirfsRemPaths_refines (h : Reachable s) (f : Flt) (rv : Int) :
    ∃ rv' s', redirfsRemPaths noFaults (fun _ => noFaults) rv (some f) s = .ok (rv', s') ∧
      s'.abs = s.abs.remAll f ∧ s'.handles.Perm s.handles :=
  redirfsRemPaths_remAll (RegInv.of_reachable h) f rv

theorem redirfsRemPaths_refines_one :
    Reachable oneReg ∧
      ∃ rv' s', redirfsRemPaths noFaults (fun _ => noFaults) 5 (some 7) oneReg = .ok (rv', s') ∧
        s'.abs = oneReg.abs.remAll 7 ∧ s'.handles.Perm oneReg.handles :=
  ⟨oneReg_reachable, redirfsRemPaths_refines oneReg_reachable 7 5⟩

/-! ### Giving back every handle -/

/-- **Giving back every handle frees exactly the unregistered Paths.** From
every reachable state, `redirfs_put_paths` of all the handles the callers hold
succeeds. After it no handle is held, no list and no key's filters changed,
and an address holds a Path exactly when that Path is registered, with the
two references of the lists as its count: a Path removed while a caller still
held it is freed with the last handle, and no registered Path is freed. -/
theorem redirfsPutPaths_all_frees_unregistered (h : Reachable s) :
    ∃ s', redirfsPutPaths s.handles s = .ok s' ∧ s'.handles = [] ∧ s'.list = s.list ∧
      s'.abs = s.abs ∧ ∀ p, (s'.heap p).map RfsPath.count = if p ∈ s.list then some 2 else none := by
  have hs := RegInv.of_reachable h
  obtain ⟨s', hput, hs', hcount⟩ := RegInv.putPaths s.handles hs fun _ => le_rfl
  have hnil : s'.handles = [] := List.eq_nil_iff_forall_not_mem.2 fun q hq => by
    have := hcount q
    have := List.count_pos_iff.2 hq
    omega
  have hlist : s'.list = s.list := redirfsPutPaths_preserves (fun t => t.list = s.list)
    (fun _ _ _ hp => (Reg.release_list _ _ _).trans hp) _ hs (fun _ => le_rfl) hput rfl
  refine ⟨s', hput, hnil, hlist, redirfsPutPaths_abs _ hs (fun _ => le_rfl) hput, fun p => ?_⟩
  rw [← hlist]
  cases hq : s'.heap p with
  | none =>
    rw [if_neg fun hp => by obtain ⟨r, hr, -⟩ := hs'.registered p hp; rw [hq] at hr; cases hr]
    rfl
  | some r =>
    by_cases hp : p ∈ s'.list
    · rw [if_pos hp, Option.map_some', hs'.count p r hq, if_pos hp, hnil]
      rfl
    · have := (hs'.unregistered p r hq hp).2.2.2
      rw [hnil] at this
      cases this

theorem redirfsPutPaths_all_frees_unregistered_one :
    Reachable oneReg ∧ ∃ s', redirfsPutPaths oneReg.handles oneReg = .ok s' ∧ s'.handles = [] ∧
      s'.list = oneReg.list ∧ s'.abs = oneReg.abs ∧
      ∀ p, (s'.heap p).map RfsPath.count = if p ∈ oneReg.list then some 2 else none :=
  ⟨oneReg_reachable, redirfsPutPaths_all_frees_unregistered oneReg_reachable⟩

end RedirFS
