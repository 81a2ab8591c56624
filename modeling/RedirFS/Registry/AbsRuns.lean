import RedirFS.Registry.IdRuns
import RedirFS.Registry.RoundTrip

/-!
# Every call is a run of the spec's registry

`RedirFS.Reachable.refines` compares one call with the spec's operation when
no collaborator fails. Here every call is compared, whatever its
collaborators do: from every reachable state, what a call does to the
abstract map (`RedirFS.Reg.abs`) is what the spec's registry says of it
(`RedirFS.Call.absEffect`, `RedirFS.apiStep_abs`). A registration that hands
out a Path is one `add_path`, whatever the collaborators did, since a failing
one makes it fail; a `redirfs_rem_path` that returns `0` is one `rem_path`,
and one that fails changes nothing; `redirfs_rem_paths` is one `rem_path` for
each Path it went through before it stopped (`RedirFS.AbsReg.remKeys`); a
failed registration, a lookup, a handle taken or given back and an array
change nothing abstract.

Without removals the map only grows: along a run that never calls
`redirfs_rem_path` or `redirfs_rem_paths`, a filter that holds a key keeps it,
in the same mode (`RedirFS.abs_kept_without_removals`). That proof goes by the
moves of `RedirFS.Registry.Moves` (`RedirFS.Move.abs`), each of which is
nothing abstract or one step of the spec's registry that succeeds
(`RedirFS.AbsStep`).
-/

namespace RedirFS

open Relation

/-- One step of the spec's registry that succeeds: `add_path`, or, when `rm`
allows it, `rem_path`. -/
inductive AbsStep : Bool → AbsReg → AbsReg → Prop
  | add {rm : Bool} {A A' : AbsReg} (k : Key) (f : Flt) (m : Mode) : A.add k f m = .ok A' →
      AbsStep rm A A'
  | rem {A A' : AbsReg} (k : Key) (f : Flt) : A.rem k f = .ok A' → AbsStep true A A'

theorem AbsStep.mono {rm : Bool} {A A' : AbsReg} : AbsStep rm A A' → AbsStep true A A'
  | .add k f m h => .add k f m h
  | .rem k f h => .rem k f h

/-- An `add_path` that succeeds takes no filter from a key and changes no
mode. -/
theorem AbsStep.keeps {A A' : AbsReg} (h : AbsStep false A A') {k : Key} {f : Flt} {m : Mode}
    (hk : A k f = some m) : A' k f = some m := by
  cases h with
  | add k' f' m' h =>
    unfold AbsReg.add at h
    split at h
    · split_ifs at h
      cases h
      exact hk
    · next hn =>
      cases h
      by_cases hkk : k = k'
      · subst hkk
        have hff : f ≠ f' := by rintro rfl; rw [hn] at hk; cases hk
        simp [Function.update_noteq hff, hk]
      · simp [Function.update_noteq hkk, hk]

variable {s s' : Reg} {p : Nat} {r : RfsPath}

/-- A reference taken changes no key's filters, on a registered Path or
not. -/
theorem Reg.abs_grab_of_heap (h : s.heap p = some r) : (s.grab p r).abs = s.abs :=
  Reg.abs_congr rfl (Reg.reads_grab (g := RfsPath.view) (fun _ _ => rfl) h)

/-- The spec's `rem_path` of a filter a registered Path holds: the key's
modes become those of the Path without the filter. -/
theorem Reg.abs_rem (hs : RegInv s) (hp : p ∈ s.list) (hr : s.heap p = some r) {m : Mode} {f : Flt}
    (hf : f ∈ r.chain m) :
    s.abs.rem (r.mnt, r.dentry) f =
      .ok (Function.update s.abs (r.mnt, r.dentry) (r.setChain m (rfsChainRem (r.chain m) f)).modeOf) := by
  rw [RfsPath.modeOf_remFlt (hs.wf hp hr) hf]
  simp [AbsReg.rem, Reg.abs_of_mem hs hp hr, (hs.wf hp hr).modeOf_eq_some.2 hf]

/-- Taking and giving back references changes no key's filters. -/
theorem Reg.abs_refMoves {t : Reg} (hs : RegInv s) (h : ReflTransGen RefMove s t) : t.abs = s.abs :=
  let hr := RefMoves.reads (g := RfsPath.view) (fun _ _ => rfl) hs h
  Reg.abs_congr hr.1 hr.2

/-- **What a move does to the abstract map**: nothing, or one step of the
spec's registry. -/
theorem Move.abs {rm : Bool} (hs : RegInv s) (hm : Move rm s s') :
    s'.abs = s.abs ∨ AbsStep rm s.abs s'.abs := by
  cases hm with
  | add ho =>
    cases ho with
    | fail => exact .inl rfl
    | failNew => exact .inl rfl
    | held _ hr => exact .inl (Reg.abs_grab_of_heap hr)
    | @add p r m f rt hp hr _ hf hf' =>
      refine .inr (.add (r.mnt, r.dentry) f m ?_)
      have hupd := Reg.abs_update (t := (s.grab p r).addFlt p { r with count := r.count + 1 } m f rt)
        (w := ({ r with count := r.count + 1 } : RfsPath).setChain m
          (rfsChainAdd (({ r with count := r.count + 1 } : RfsPath).chain m) f))
        hs hp hr (by simp [Reg.grab]) (by simp [Reg.grab]) ⟨by simp, by simp⟩
      rw [RfsPath.modeOf_addFlt (r := { r with count := r.count + 1 }) (by simpa using hf)
        (by simpa using hf'), RfsPath.modeOf_count] at hupd
      have hnone : r.modeOf f = none := by
        rw [RfsPath.modeOf_eq_none]
        cases m <;> simp_all
      simp [AbsReg.add, Reg.abs_of_mem hs hp hr, hnone, hupd]
    | @new mnt dentry m f hk =>
      refine .inr (.add (mnt, dentry) f m ?_)
      have hk' : s.pathOf (mnt, dentry) = none := (firstOn_isAt s mnt dentry).symm.trans hk
      have hreg := Reg.abs_register (w := s.newPath mnt dentry m f) hs (hs.fresh _ le_rfl)
        (Reg.register_list s mnt dentry m f) (Reg.register_heap s mnt dentry m f) (by simpa using hk')
      simp only [Reg.newPath_mnt, Reg.newPath_dentry] at hreg
      simp [AbsReg.add, Reg.abs_of_pathOf_none hk', hreg, Reg.newPath_modeOf]
  | rem ho =>
    cases ho with
    | fail => exact .inl rfl
    | @keep p r m f rt hp hr _ hf _ =>
      refine .inr (.rem _ f ((Reg.abs_rem hs hp hr hf).trans ?_))
      rw [Reg.abs_update (t := s.remFlt p r m f rt) (w := r.setChain m (rfsChainRem (r.chain m) f))
        hs hp hr (by simp) (by simp) ⟨by simp, by simp⟩]
    | @unlink p r m f rt hp hr _ hf hi he _ =>
      refine .inr (.rem _ f ((Reg.abs_rem hs hp hr hf).trans ?_))
      rw [RfsPath.modeOf_empty hi he, Reg.abs_unlink
        (t := (s.remFlt p r m f rt).unlink p (r.setChain m (rfsChainRem (r.chain m) f)) rt)
        hs hp hr (by simp) fun q hq => by simp [hq]]
  | ref h => exact .inl (Reg.abs_refMoves hs (.single h))

/-- Moves make steps of the spec's registry. -/
theorem Moves.abs {rm : Bool} (hs : RegInv s) (h : ReflTransGen (Move rm) s s') :
    ReflTransGen (AbsStep rm) s.abs s'.abs :=
  (Moves.preserves (fun t => ReflTransGen (AbsStep rm) s.abs t.abs)
    (fun hs hm hp => (Move.abs hs hm).elim (fun e => by simp only [e]; exact hp) hp.tail) hs h .refl).1

/-- **Without removals no filter leaves a key.** Along every run from a
reachable state that never calls `redirfs_rem_path` or `redirfs_rem_paths`,
and in which every call is given only handles its caller holds, a filter that
holds a key at the start holds it at the end, in the same mode, whatever the
collaborators do. -/
theorem abs_kept_without_removals {cs : List Call} (h : Reachable s) (hno : ∀ c ∈ cs, c.removes = false)
    (hh : s.heldAlong cs = true) (hr : s.run cs = .ok s') {k : Key} {f : Flt} {m : Mode}
    (hk : s.abs k f = some m) : s'.abs k f = some m := by
  have hkeep : ∀ A, ReflTransGen (AbsStep false) s.abs A → A k f = some m := fun A hA => by
    induction hA with
    | refl => exact hk
    | tail _ hstep ih => exact hstep.keeps ih
  exact hkeep _ (Moves.abs (RegInv.of_reachable h) (Reg.run_moves cs h hno hh hr))

theorem abs_kept_without_removals_noRemovalRun :
    Reachable oneReg ∧ (∀ c ∈ noRemovalRun, c.removes = false) ∧ oneReg.heldAlong noRemovalRun = true ∧
      ∃ s', oneReg.run noRemovalRun = .ok s' ∧ oneReg.abs (1, 10) 7 = some .include ∧
        s'.abs (1, 10) 7 = some .include :=
  ⟨oneReg_reachable, by decide, rfl, _, rfl, rfl, abs_kept_without_removals oneReg_reachable
    (show ∀ c ∈ noRemovalRun, c.removes = false by decide) rfl rfl rfl⟩

/-! ### What one call does to the abstract map -/

/-- The spec's `rem_path` of a filter on each key of `ks` in turn. -/
def AbsReg.remKeys (A : AbsReg) (f : Flt) : List Key → Except Int AbsReg
  | [] => .ok A
  | k :: ks => A.rem k f >>= fun A' => A'.remKeys f ks

/-- What the spec's registry says a call from `s` that returned `ret` leaves
as the abstract map `A`. `redirfs_add_path` that hands out a Path is the
spec's `add_path` in the mode its flags name; `redirfs_rem_path` that returns
`0` is `rem_path` on the key of its Path; `redirfs_rem_paths` is `rem_path` on
the key of each of the first Paths, in list order, that cite the filter. A
failed registration or removal, a lookup, a handle taken or given back and an
array leave the map as it is. -/
def Call.absEffect (s : Reg) (ret : Ret) (A : AbsReg) : Call → Prop
  | .addPath _ (some f) (some ⟨some mnt, some dentry, flags⟩) =>
    match ret with
    | .path (.ok _) => ∃ m : Mode, flags = m.flags ∧ s.abs.add (mnt, dentry) f m = .ok A
    | _ => A = s.abs
  | .remPath _ (some f) (some p) =>
    match ret with
    | .rv rv => if rv = 0 then ∃ r, s.heap p = some r ∧ s.abs.rem (r.mnt, r.dentry) f = .ok A
      else A = s.abs
    | _ => A = s.abs
  | .remPaths _ _ _ (some f) =>
    ∃ n, s.abs.remKeys f (((s.list.filter (citesAt s.heap f)).take n).filterMap (keyOf s.heap)) = .ok A
  | _ => A = s.abs

section Effect

variable {φ : Faults} {f : Flt}

theorem AddOutcome.abs_error {e : Int} (h : AddOutcome s (.error e) s') : s'.abs = s.abs := by
  cases h <;> rfl

/-- A registration that hands out a Path met no failing collaborator on its
way: its flags name a mode, and it is the same call with none failing. -/
theorem redirfsAddPath_ok_noFaults (hs : RegInv s) {mnt dentry : Nat} {flags : Int}
    (h : redirfsAddPath φ (some f) (some ⟨some mnt, some dentry, flags⟩) s = .ok (.ok p, s')) :
    ∃ m : Mode, flags = m.flags ∧
      redirfsAddPath noFaults (some f) (some ⟨some mnt, some dentry, flags⟩) s = .ok (.ok p, s') := by
  have h0 : flags ≠ 0 := by rintro rfl; simp [redirfsAddPath] at h
  cases hk : s.firstOn (fun r => r.isAt mnt dentry) with
  | none =>
    cases ha : φ.alloc
    swap
    · rw [redirfsAddPath_alloc hk h0 ha] at h; cases h
    cases hr : φ.rootAdd with
    | some e => rw [redirfsAddPath_rootAdd hs hk h0 ha hr] at h; cases h
    | none =>
      rcases flags_cases flags with ⟨m, rfl⟩ | ⟨hi, he⟩
      · rw [redirfsAddPath_new hs hk ha hr m] at h
        refine ⟨m, rfl, ?_⟩
        rw [redirfsAddPath_new hs hk rfl rfl m]
        cases ho : φ.onAdd m <;> rw [ho] at h <;> cases h
        cases m <;> rfl
      · rw [redirfsAddPath_newBad hs hk ha hr h0 hi he] at h; cases h
  | some q =>
    obtain ⟨hq, r, hr, -⟩ := firstOn_some hk
    obtain ⟨rt, hrt⟩ := Option.ne_none_iff_exists'.1 (hs.wf hq hr).rroot
    rcases flags_cases flags with ⟨m, rfl⟩ | ⟨hi, he⟩
    · refine ⟨m, rfl, ?_⟩
      rw [redirfsAddPath_found hs hk hr hrt m] at h ⊢
      split_ifs at h ⊢
      · exact h
      · cases h
      · cases ho : φ.onAdd m <;> rw [ho] at h <;> cases h
        cases m <;> rfl
    · rw [redirfsAddPath_foundBad hs hk hr h0 hi he] at h; cases h

/-- **`redirfs_add_path`, abstractly**: what it does to the abstract map,
whatever its collaborators do. -/
theorem redirfsAddPath_abs (hs : RegInv s) {filter : Option Flt} {info : Option PathInfo}
    {res : Except Int Nat} (h : redirfsAddPath φ filter info s = .ok (res, s')) :
    (Call.addPath φ filter info).absEffect s (.path res) s'.abs := by
  match filter, info, h with
  | some f, some ⟨some mnt, some dentry, flags⟩, h =>
    cases res with
    | error e => exact (redirfsAddPath_outcome hs h).abs_error
    | ok p =>
      obtain ⟨m, rfl, h'⟩ := redirfsAddPath_ok_noFaults hs h
      obtain ⟨res, t, ht, hm⟩ := redirfsAddPath_refines (φ := noFaults) hs rfl rfl mnt dentry f m
        (by cases m <;> rfl)
      rw [h'] at ht
      cases ht
      refine ⟨m, rfl, ?_⟩
      split at hm
      · next A hA => rw [hA, hm.2]
      · cases hm.1
  | none, _, h => cases h; rfl
  | some _, none, h => cases h; rfl
  | some _, some ⟨none, _, _⟩, h => cases h; rfl
  | some _, some ⟨some _, none, _⟩, h => cases h; rfl

/-- **`redirfs_rem_path` on a handle its caller holds, abstractly**: it fails
and changes nothing, or it returns `0` and is the spec's `rem_path` of its
filter on its Path's key. -/
theorem redirfsRemPath_abs (hs : RegInv s) (hh : p ∈ s.handles) {rv : Int}
    (h : redirfsRemPath φ (some f) (some p) s = .ok (rv, s')) :
    (rv ≠ 0 ∧ s' = s) ∨ (rv = 0 ∧ ∃ r, s.heap p = some r ∧ s.abs.rem (r.mnt, r.dentry) f = .ok s'.abs) := by
  by_cases hrv : rv = 0
  swap
  · exact .inl ⟨hrv, redirfsRemPath_error hs h hrv⟩
  refine .inr ⟨hrv, ?_⟩
  obtain ⟨r, hr⟩ := hs.heap_of_held hh
  by_cases hp : p ∈ s.list
  swap
  · rw [redirfsRemPath_unregistered hs hr hp] at h; cases h
  have hchain : ∃ m, f ∈ r.chain m := by
    by_contra hno
    push_neg at hno
    rw [redirfsRemPath_absent hs hp hr (hno .include) (hno .exclude)] at h
    cases h
    exact absurd hrv (by decide)
  obtain ⟨m, hm⟩ := hchain
  cases ho : φ.onRem with
  | some e => rw [redirfsRemPath_fault hs hp hr hm ho] at h; cases h; exact absurd hrv e.rv_ne_zero
  | none =>
    obtain ⟨rv', s'', h', hmatch⟩ := redirfsRemPath_refines hs ho f hp hh hr
    rw [h] at h'
    cases h'
    have hA := Reg.abs_rem hs hp hr hm
    rw [hA] at hmatch
    exact ⟨r, hr, by rw [hA, hmatch.2]⟩

/-- The loop of `redirfs_rem_paths` over distinct registered Paths its caller
holds: `rem_path` on the key of each Path it went through before it
stopped. -/
theorem remPathsLoop_abs (φs : Nat → Faults) (f : Flt) :
    ∀ (ps : List Nat) (i : Nat) (rv : Int) {u u' : Reg} {rv' : Int}, RegInv u → ps.Nodup →
      (∀ p ∈ ps, p ∈ u.list ∧ p ∈ u.handles) → remPathsLoop φs f i ps rv u = .ok (rv', u') →
      ∃ n, u.abs.remKeys f ((ps.take n).filterMap (keyOf u.heap)) = .ok u'.abs
  | [], _, _, u, u', _, _, _, _, h => by cases h; exact ⟨0, rfl⟩
  | p :: ps, i, _, u, u', _, hs, hnd, hps, h => by
    obtain ⟨hp, hh⟩ := hps p (List.mem_cons_self _ _)
    simp only [remPathsLoop] at h
    cases h₁ : redirfsRemPath (φs i) (some f) (some p) u with
    | error e => rw [h₁] at h; cases h
    | ok x =>
      obtain ⟨rv₁, u₁⟩ := x
      rw [h₁, except_ok_bind] at h
      rcases redirfsRemPath_abs hs hh h₁ with ⟨hrv, rfl⟩ | ⟨rfl, r, hr, hrem⟩
      · rw [if_pos hrv] at h
        cases h
        exact ⟨0, rfl⟩
      · rw [if_neg (not_not.2 rfl)] at h
        have ho := redirfsRemPath_outcome hs (by rintro q ⟨⟩; exact hh) h₁
        rw [List.nodup_cons] at hnd
        have hfr := fun q (hq : q ∈ ps) => redirfsRemPath_frame hs hp hh h₁ q (fun e => hnd.1 (e ▸ hq))
        obtain ⟨n, hn⟩ := remPathsLoop_abs φs f ps (i + 1) 0 (ho.regInv hs) hnd.2
          (fun q hq => ⟨(hfr q hq).2 (hps q (.tail _ hq)).1, ho.handles ▸ (hps q (.tail _ hq)).2⟩) h
        have hkeys : (ps.take n).filterMap (keyOf u₁.heap) = (ps.take n).filterMap (keyOf u.heap) :=
          List.filterMap_congr fun q hq => by simp only [keyOf, (hfr q (List.mem_of_mem_take hq)).1]
        refine ⟨n + 1, ?_⟩
        rw [List.take_succ_cons, List.filterMap_cons, keyOf_of_heap hr, AbsReg.remKeys, hrem,
          except_ok_bind, ← hkeys, hn]

/-- **`redirfs_rem_paths`, abstractly**: `rem_path` on the key of each of the
first Paths that cite the filter, whatever its collaborators and its
uninitialised `rv` do. -/
theorem redirfsRemPaths_abs (hs : RegInv s) {φs : Nat → Faults} {rv rv' : Int} {filter : Option Flt}
    (h : redirfsRemPaths φ φs rv filter s = .ok (rv', s')) :
    (Call.remPaths φ φs rv filter).absEffect s (.rv rv') s'.abs := by
  cases filter with
  | none => cases h; rfl
  | some f =>
    cases ha : φ.alloc
    · set ps := s.list.filter (citesAt s.heap f)
      have hs₁ : RegInv { s.takeRefs ps with handles := s.handles ++ ps } := hs.takeRefs fun q hq => by
        obtain ⟨r, hr, -⟩ := hs.registered q (List.mem_of_mem_filter hq)
        simp [hr]
      have hps : ∀ q ∈ ps, q ∈ s.list ∧ q ∈ s.handles ++ ps :=
        fun q hq => ⟨List.mem_of_mem_filter hq, List.mem_append_right _ hq⟩
      simp only [redirfsRemPaths, redirfsGetPaths_eq hs f ha, except_ok_bind] at h
      cases h₂ : remPathsLoop φs f 0 ps rv { s.takeRefs ps with handles := s.handles ++ ps } with
      | error e => rw [h₂] at h; cases h
      | ok x =>
        obtain ⟨rv₂, u₂⟩ := x
        obtain ⟨hs₂, hh₂⟩ := RegInv.of_remPathsLoop φs f ps 0 rv hs₁ (fun q hq => (hps q hq).2) h₂
        rw [h₂, except_ok_bind] at h
        cases h₃ : redirfsPutPaths ps u₂ with
        | error e => rw [h₃] at h; cases h
        | ok u₃ =>
          rw [h₃] at h
          cases h
          obtain ⟨n, hn⟩ := remPathsLoop_abs φs f ps 0 rv hs₁ (hs.nodup.filter _) hps h₂
          rw [Reg.abs_takeRefs, show ({ s.takeRefs ps with handles := s.handles ++ ps } : Reg).heap =
            (s.takeRefs ps).heap from rfl, keyOf_takeRefs] at hn
          exact ⟨n, by rw [redirfsPutPaths_abs ps hs₂ (fun q => by simp [hh₂]) h₃, hn]⟩
    · simp only [redirfsRemPaths, redirfsGetPaths, ha, if_true] at h
      cases h
      exact ⟨0, rfl⟩

end Effect

/-- **Each call, abstractly.** From every reachable state, every call of the
API whose caller passes only handles it holds, with every outcome of its
collaborators, does to the abstract map what the spec's registry says
(`RedirFS.Call.absEffect`): a registration that hands out a Path is one
`add_path` in the mode of its flags, a `redirfs_rem_path` that returns `0` is
one `rem_path` on its Path's key, `redirfs_rem_paths` is one `rem_path` for
each Path it went through, in list order, and every other call, a failed
registration or removal included, changes nothing. -/
theorem apiStep_abs (h : Reachable s) {c : Call} (hc : c.held s = true) {ret : Ret}
    (hstep : apiStep s c = .ok (ret, s')) : c.absEffect s ret s'.abs := by
  have hs := RegInv.of_reachable h
  cases c with
  | addPath φ filter info =>
    obtain ⟨⟨res, t⟩, hx, he⟩ := Except.map_eq_ok hstep
    cases he
    exact redirfsAddPath_abs hs hx
  | remPath φ filter path =>
    obtain ⟨⟨rv, t⟩, hx, he⟩ := Except.map_eq_ok hstep
    cases he
    match filter, path, hx with
    | some f, some p, hx =>
      rcases redirfsRemPath_abs hs (by simpa [Call.held] using hc) hx with ⟨hrv, rfl⟩ | ⟨rfl, hr⟩
      · simp [Call.absEffect, hrv]
      · simpa [Call.absEffect] using hr
    | none, _, hx => cases hx; rfl
    | some _, none, hx => cases hx; rfl
  | remPaths φ φs rv filter =>
    obtain ⟨⟨rv', t⟩, hx, he⟩ := Except.map_eq_ok hstep
    cases he
    exact redirfsRemPaths_abs hs hx
  | getPathId _ | getPath _ | putPath _ | getPaths _ _ | getPathsRoot _ _ _ | putPaths _ =>
    exact Reg.abs_refMoves hs (apiStep_refMoves hs hc rfl hstep)

theorem apiStep_abs_remPath :
    Reachable oneReg ∧ (Call.remPath noFaults (some 7) (some 0)).held oneReg = true ∧
      ∃ ret s', apiStep oneReg (.remPath noFaults (some 7) (some 0)) = .ok (ret, s') ∧
        (Call.remPath noFaults (some 7) (some 0)).absEffect oneReg ret s'.abs :=
  ⟨oneReg_reachable, rfl, _, _, rfl,
    apiStep_abs (c := .remPath noFaults (some 7) (some 0)) oneReg_reachable rfl rfl⟩

end RedirFS
