import RedirFS.Registry.Preserve

/-!
# The one call that goes wrong

A call of the model stops with a `RedirFS.Oops` where C would not survive it:
a `BUG_ON` that fires, a dereference of an address that holds no Path, a NULL
root handed to the root collaborator, a store past the end of an array. From
a reachable state, with the callers keeping their part of the contract
(`RedirFS.Call.held`), exactly one call does so: `redirfs_rem_path` on a
handle whose Path is no longer registered, which hands the Path's NULL
`rroot` to the root collaborator whatever the filter. Every other call of the
API returns, with every outcome of its collaborators
(`RedirFS.apiStep_safe`).

The proof is one lemma per function, saying that it returns, read off the
equations of `RedirFS.Registry.Calls` and `RedirFS.Registry.Arrays`. The loop
of `redirfs_rem_paths` needs one fact more: unregistering one Path leaves
every other Path as it was (`RedirFS.redirfsRemPath_frame`), so each
Path of the array is still registered when its turn comes.
-/

namespace RedirFS

variable {s : Reg} {p : Nat}

/-! ### Registering and unregistering -/

/-- `redirfs_add_path` returns, whatever its arguments and collaborators. -/
theorem redirfsAddPath_returns (hs : RegInv s) (φ : Faults) (filter : Option Flt)
    (info : Option PathInfo) : ∃ x, redirfsAddPath φ filter info s = .ok x := by
  match filter, info with
  | some f, some ⟨some mnt, some dentry, flags⟩ =>
    by_cases h0 : flags = 0
    · exact ⟨_, by simp only [redirfsAddPath, h0, if_true]; rfl⟩
    cases hk : s.firstOn (fun r => r.isAt mnt dentry) with
    | none =>
      cases ha : φ.alloc
      · cases hr : φ.rootAdd with
        | some e => exact ⟨_, redirfsAddPath_rootAdd hs hk h0 ha hr⟩
        | none =>
          rcases flags_cases flags with ⟨m, rfl⟩ | ⟨hi, he⟩
          · rw [redirfsAddPath_new hs hk ha hr m]
            cases φ.onAdd m <;> exact ⟨_, rfl⟩
          · exact ⟨_, redirfsAddPath_newBad hs hk ha hr h0 hi he⟩
      · exact ⟨_, redirfsAddPath_alloc hk h0 ha⟩
    | some p =>
      obtain ⟨hp, r, hr, -⟩ := firstOn_some hk
      obtain ⟨rt, hrt⟩ := Option.ne_none_iff_exists'.1 (hs.wf hp hr).rroot
      rcases flags_cases flags with ⟨m, rfl⟩ | ⟨hi, he⟩
      · rw [redirfsAddPath_found hs hk hr hrt m]
        split_ifs
        · exact ⟨_, rfl⟩
        · exact ⟨_, rfl⟩
        · cases φ.onAdd m <;> exact ⟨_, rfl⟩
      · exact ⟨_, redirfsAddPath_foundBad hs hk hr h0 hi he⟩
  | none, _ => exact ⟨_, rfl⟩
  | some _, none => exact ⟨_, rfl⟩
  | some _, some ⟨none, _, _⟩ => exact ⟨_, rfl⟩
  | some _, some ⟨some _, none, _⟩ => exact ⟨_, rfl⟩

section Rem

variable (hs : RegInv s) (hp : p ∈ s.list) (hh : p ∈ s.handles)
include hs hp hh

/-- `redirfs_rem_path` on a held, registered Path returns. -/
theorem redirfsRemPath_returns (φ : Faults) (f : Flt) :
    ∃ x, redirfsRemPath φ (some f) (some p) s = .ok x := by
  obtain ⟨r, hr, hw⟩ := hs.registered p hp
  obtain ⟨rt, hrt⟩ := Option.ne_none_iff_exists'.1 hw.rroot
  have hmode : ∀ m, f ∈ r.chain m → ∃ x, redirfsRemPath φ (some f) (some p) s = .ok x :=
    fun m hf => by
      cases ho : φ.onRem with
      | some e => exact ⟨_, redirfsRemPath_fault hs hp hr hf ho⟩
      | none =>
        rw [redirfsRemPath_mem hs hp hr hrt hf ho hh]
        split_ifs <;> exact ⟨_, rfl⟩
  by_cases hi : f ∈ r.rinch
  · exact hmode .include hi
  by_cases he : f ∈ r.rexch
  · exact hmode .exclude he
  exact ⟨_, redirfsRemPath_absent hs hp hr hi he⟩

/-- **`redirfs_rem_path` touches its own Path only**: every other Path keeps
its record, and stays registered if it was. -/
theorem redirfsRemPath_frame {φ : Faults} {f : Flt} {rv : Int} {s' : Reg}
    (h : redirfsRemPath φ (some f) (some p) s = .ok (rv, s')) :
    ∀ q, q ≠ p → s'.heap q = s.heap q ∧ (q ∈ s.list → q ∈ s'.list) := by
  obtain ⟨r, hr, hw⟩ := hs.registered p hp
  obtain ⟨rt, hrt⟩ := Option.ne_none_iff_exists'.1 hw.rroot
  intro q hqp
  have hmode : ∀ m, f ∈ r.chain m → s'.heap q = s.heap q ∧ (q ∈ s.list → q ∈ s'.list) := fun m hf => by
    cases ho : φ.onRem with
    | some e => rw [redirfsRemPath_fault hs hp hr hf ho] at h; cases h; exact ⟨rfl, id⟩
    | none =>
      rw [redirfsRemPath_mem hs hp hr hrt hf ho hh] at h
      split_ifs at h <;> cases h
      · exact ⟨by simp [Function.update_noteq hqp], fun hq => by simpa using hq⟩
      · exact ⟨by simp [Function.update_noteq hqp], fun hq => by simpa using (List.mem_erase_of_ne hqp).2 hq⟩
  by_cases hi : f ∈ r.rinch
  · exact hmode .include hi
  by_cases he : f ∈ r.rexch
  · exact hmode .exclude he
  rw [redirfsRemPath_absent hs hp hr hi he] at h
  cases h
  exact ⟨rfl, id⟩

end Rem

/-- The loop of `redirfs_rem_paths` returns on distinct, held, registered
Paths. -/
theorem remPathsLoop_returns (φs : Nat → Faults) (f : Flt) :
    ∀ (ps : List Nat) (i : Nat) (rv : Int) {s : Reg}, RegInv s → ps.Nodup →
      (∀ p ∈ ps, p ∈ s.list ∧ p ∈ s.handles) → ∃ x, remPathsLoop φs f i ps rv s = .ok x
  | [], _, _, _, _, _, _ => ⟨_, rfl⟩
  | p :: ps, i, _, s, hs, hnd, hps => by
    obtain ⟨hp, hh⟩ := hps p (List.mem_cons_self _ _)
    obtain ⟨⟨rv₁, s₁⟩, h₁⟩ := redirfsRemPath_returns hs hp hh (φs i) f
    have ho := redirfsRemPath_outcome hs (by rintro q ⟨⟩; exact hh) h₁
    rw [List.nodup_cons] at hnd
    simp only [remPathsLoop, h₁, except_ok_bind]
    split_ifs
    · exact ⟨_, rfl⟩
    · refine remPathsLoop_returns φs f ps (i + 1) rv₁ (ho.regInv hs) hnd.2 fun q hq => ?_
      obtain ⟨hql, hqh⟩ := hps q (List.mem_cons_of_mem _ hq)
      exact ⟨(redirfsRemPath_frame hs hp hh h₁ q (by rintro rfl; exact hnd.1 hq)).2 hql,
        ho.handles ▸ hqh⟩

/-- `redirfs_rem_paths` returns, whatever the outcomes of its
collaborators. -/
theorem redirfsRemPaths_returns (hs : RegInv s) (φ : Faults) (φs : Nat → Faults) (rv : Int)
    (filter : Option Flt) : ∃ x, redirfsRemPaths φ φs rv filter s = .ok x := by
  cases filter with
  | none => exact ⟨_, rfl⟩
  | some f =>
    cases ha : φ.alloc
    · set ps := s.list.filter (citesAt s.heap f)
      have hs₁ : RegInv { s.takeRefs ps with handles := s.handles ++ ps } := hs.takeRefs fun q hq => by
        obtain ⟨r, hr, -⟩ := hs.registered q (List.mem_of_mem_filter hq)
        simp [hr]
      have hps : ∀ q ∈ ps, q ∈ s.list ∧ q ∈ s.handles ++ ps :=
        fun q hq => ⟨List.mem_of_mem_filter hq, List.mem_append_right _ hq⟩
      obtain ⟨⟨rv₂, s₂⟩, h₂⟩ := remPathsLoop_returns (fun i => φs i) f ps 0 rv hs₁
        (hs.nodup.filter _) hps
      obtain ⟨hs₂, hh₂⟩ := RegInv.of_remPathsLoop φs f ps 0 rv hs₁ (fun q hq => (hps q hq).2) h₂
      obtain ⟨s₃, h₃, -⟩ := RegInv.putPaths ps hs₂ fun q => by simp [hh₂]
      exact ⟨_, by simp only [redirfsRemPaths, redirfsGetPaths_eq hs f ha, except_ok_bind, h₂, h₃]; rfl⟩
    · exact ⟨_, by simp [redirfsRemPaths, redirfsGetPaths, ha]; rfl⟩

/-! ### Every call -/

/-- Every call from a state with the invariant returns, but for
`redirfs_rem_path` on a Path that is not registered. -/
theorem apiStep_returns (hs : RegInv s) (c : Call) (hc : c.held s = true) :
    (∃ ret s', apiStep s c = .ok (ret, s')) ∨
      ∃ φ f p, c = .remPath φ (some f) (some p) ∧ p ∉ s.list := by
  cases c with
  | addPath φ filter info =>
    obtain ⟨_, h⟩ := redirfsAddPath_returns hs φ filter info
    exact .inl ⟨_, _, by rw [apiStep, h]; rfl⟩
  | remPath φ filter path =>
    match filter, path with
    | some f, some p =>
      by_cases hp : p ∈ s.list
      · obtain ⟨_, h⟩ := redirfsRemPath_returns hs hp (by simpa [Call.held] using hc) φ f
        exact .inl ⟨_, _, by rw [apiStep, h]; rfl⟩
      · exact .inr ⟨φ, f, p, rfl, hp⟩
    | none, _ => exact .inl ⟨_, _, rfl⟩
    | some _, none => exact .inl ⟨_, _, rfl⟩
  | remPaths φ φs rv filter =>
    obtain ⟨_, h⟩ := redirfsRemPaths_returns hs φ φs rv filter
    exact .inl ⟨_, _, by rw [apiStep, h]; rfl⟩
  | getPathId id =>
    cases hk : s.firstOn (fun r => r.id == id) with
    | none => exact .inl ⟨_, _, by rw [apiStep, redirfsGetPathId_none hk]; rfl⟩
    | some p =>
      obtain ⟨-, r, hr, -⟩ := firstOn_some hk
      exact .inl ⟨_, _, by rw [apiStep, redirfsGetPathId_found hk hr (hs.count_ne_zero hr)]; rfl⟩
  | getPath path =>
    cases path with
    | none => exact .inl ⟨_, _, rfl⟩
    | some p =>
      obtain ⟨r, hr⟩ := hs.heap_of_held (by simpa [Call.held] using hc)
      exact .inl ⟨_, _, by rw [apiStep, redirfsGetPath_eq hr (hs.count_ne_zero hr)]; rfl⟩
  | putPath path =>
    cases path with
    | none => exact .inl ⟨_, _, rfl⟩
    | some p =>
      obtain ⟨r, hr⟩ := hs.heap_of_held (by simpa [Call.held] using hc)
      exact .inl ⟨_, _, by rw [apiStep, redirfsPutPath_eq hr (hs.count_ne_zero hr)]; rfl⟩
  | getPaths φ filter =>
    cases filter with
    | none => exact .inl ⟨_, _, rfl⟩
    | some f =>
      cases ha : φ.alloc
      · exact .inl ⟨_, _, by rw [apiStep, redirfsGetPaths_eq hs f ha]; rfl⟩
      · exact .inl ⟨_, _, by simp [apiStep, redirfsGetPaths, ha]; rfl⟩
  | getPathsRoot φ filter root =>
    match filter, root with
    | some f, some rt =>
      cases ha : φ.alloc
      · exact .inl ⟨_, _, by rw [apiStep, redirfsGetPathsRoot_eq hs f rt ha]; rfl⟩
      · exact .inl ⟨_, _, by simp [apiStep, redirfsGetPathsRoot, ha]; rfl⟩
    | none, _ => exact .inl ⟨_, _, rfl⟩
    | some _, none => exact .inl ⟨_, _, rfl⟩
  | putPaths ps =>
    obtain ⟨_, h, -⟩ := RegInv.putPaths ps hs (Call.held_putPaths hc)
    exact .inl ⟨_, _, by rw [apiStep, h]; rfl⟩

/-- The handle a call passes to `redirfs_rem_path`, when it is that function
with both its arguments. -/
def Call.remTarget : Call → Option Nat
  | .remPath _ (some _) (some p) => some p
  | _ => none

theorem Call.remTarget_eq_some {c : Call} {p : Nat} :
    c.remTarget = some p ↔ ∃ φ f, c = .remPath φ (some f) (some p) := by
  cases c with
  | remPath φ filter path => cases filter <;> cases path <;> simp [Call.remTarget, eq_comm]
  | _ => simp [Call.remTarget]

/-- **The one call that goes wrong.** From every reachable state, every call
of the API whose caller passes only handles it holds returns, with every
outcome of the collaborators, or stops on a NULL `rroot`; and it stops exactly
when it is `redirfs_rem_path` on a Path that is no longer registered. No call
fires a `BUG_ON`, dereferences a freed Path, or stores past the end of an
array. -/
theorem apiStep_safe {s : Reg} (h : Reachable s) (c : Call) (hc : c.held s = true) :
    ((∃ ret s', apiStep s c = .ok (ret, s')) ∨ apiStep s c = .error .nullRroot) ∧
      (apiStep s c = .error .nullRroot ↔ ∃ p, c.remTarget = some p ∧ p ∉ s.list) := by
  have hs := RegInv.of_reachable h
  have hstale : ∀ p, c.remTarget = some p → p ∉ s.list → apiStep s c = .error .nullRroot := by
    intro p hp hnot
    obtain ⟨φ, f, rfl⟩ := Call.remTarget_eq_some.1 hp
    obtain ⟨r, hr⟩ := hs.heap_of_held (by simpa [Call.held] using hc)
    rw [apiStep, redirfsRemPath_unregistered hs hr hnot]
    rfl
  rcases apiStep_returns hs c hc with ⟨ret, s', hok⟩ | ⟨φ, f, p, rfl, hp⟩
  · refine ⟨.inl ⟨ret, s', hok⟩, ⟨fun he => (by rw [hok] at he; cases he), ?_⟩⟩
    rintro ⟨p, hp, hnot⟩
    rw [hstale p hp hnot] at hok
    cases hok
  · have he := hstale p rfl hp
    exact ⟨.inr he, ⟨fun _ => ⟨p, rfl, hp⟩, fun _ => he⟩⟩

end RedirFS
