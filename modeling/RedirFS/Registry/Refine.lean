import RedirFS.Registry.Preserve

/-!
# The registry refines a map from keys to filter modes

The spec describes the registry as a map from a key `(mnt, dentry)` to two
disjoint sets of filters, the include set and the exclude set.
`RedirFS.AbsReg` is that map, with the two sets written as one map from
filters to modes, so that a filter in both cannot be written down;
`RedirFS.AbsReg.add` and `RedirFS.AbsReg.rem` are its two operations, in the
spec's words. `RedirFS.Reg.abs` reads the map off a state: the registered Path
of the key, and the chain of it that holds the filter.

From every reachable state, `redirfs_add_path` and `redirfs_rem_path` move the
abstract map as the abstract operations do whenever no collaborator fails (one
that fails changes nothing: `RedirFS.failed_call_changes_nothing`), and
`redirfs_get_path_info` and `redirfs_get_paths` report its membership. All of
it is `RedirFS.AbsRefines`, and `RedirFS.Reachable.refines` proves it.

The proof computes the abstraction of each effect once: a Path rewritten in
place (`RedirFS.Reg.abs_update`), a Path unregistered
(`RedirFS.Reg.abs_unlink`), a Path registered (`RedirFS.Reg.abs_register`).
-/

namespace RedirFS

/-! ### The abstract registry -/

/-- A key: a mount and a dentry. -/
abbrev Key := Nat × Nat

/-- The spec's registry: for each key, the mode in which each filter holds
it. -/
def AbsReg := Key → Flt → Option Mode

/-- The spec's `add_path(f, k, m)`: nothing to do if the filter holds the key
in that mode, `-EEXIST` if in the other, and otherwise it now holds it in that
mode. -/
def AbsReg.add (A : AbsReg) (k : Key) (f : Flt) (m : Mode) : Except Int AbsReg :=
  match A k f with
  | some m' => if m' = m then .ok A else .error (-EEXIST)
  | none => .ok (Function.update A k (Function.update (A k) f (some m)))

/-- The spec's `rem_path(f, p)`, on the key of `p`: the filter no longer holds
the key, or `-EINVAL` if it did not. -/
def AbsReg.rem (A : AbsReg) (k : Key) (f : Flt) : Except Int AbsReg :=
  match A k f with
  | some _ => .ok (Function.update A k (Function.update (A k) f none))
  | none => .error (-EINVAL)

/-! ### The abstraction -/

/-- The mode in which a Path holds a filter. -/
def RfsPath.modeOf (r : RfsPath) (f : Flt) : Option Mode :=
  if f ∈ r.rinch then some .include else if f ∈ r.rexch then some .exclude else none

/-- The first registered Path of a key. -/
def Reg.pathOf (s : Reg) (k : Key) : Option Nat :=
  s.list.find? fun p => keyOf s.heap p == some k

/-- The abstract registry a state represents. -/
def Reg.abs (s : Reg) : AbsReg := fun k f =>
  ((s.pathOf k).bind s.heap).bind (·.modeOf f)

variable {s s' : Reg} {p : Nat} {r r' : RfsPath} {f : Flt} {m : Mode}

theorem keyOf_of_heap (h : s.heap p = some r) : keyOf s.heap p = some (r.mnt, r.dentry) := by
  simp [keyOf, h]

/-- `rfs_path_find` finds the first registered Path of the key. -/
theorem firstOn_isAt (s : Reg) (mnt dentry : Nat) :
    s.firstOn (fun r => r.isAt mnt dentry) = s.pathOf (mnt, dentry) := by
  unfold Reg.firstOn Reg.pathOf
  congr 1
  funext q
  cases h : s.heap q with
  | none => simp [keyOf, h]
  | some r => rw [Bool.eq_iff_iff]; simp [keyOf, RfsPath.isAt, h]

theorem Reg.pathOf_of_mem (hs : RegInv s) (hp : p ∈ s.list) (h : s.heap p = some r) :
    s.pathOf (r.mnt, r.dentry) = some p := by
  unfold Reg.pathOf
  cases hq : s.list.find? fun q => keyOf s.heap q == some (r.mnt, r.dentry) with
  | none => simpa [keyOf_of_heap h] using List.find?_eq_none.1 hq p hp
  | some q =>
    have hkq := List.find?_some hq
    simp only [beq_iff_eq] at hkq
    rw [List.inj_on_of_nodup_map hs.keys (List.mem_of_find?_eq_some hq) hp
      (hkq.trans (keyOf_of_heap h).symm)]

theorem Reg.abs_of_mem (hs : RegInv s) (hp : p ∈ s.list) (h : s.heap p = some r) :
    s.abs (r.mnt, r.dentry) = r.modeOf := by
  funext f
  simp [Reg.abs, Reg.pathOf_of_mem hs hp h, h]

theorem Reg.abs_of_pathOf_none {k : Key} (h : s.pathOf k = none) : s.abs k = fun _ => none := by
  funext f
  simp [Reg.abs, h]

/-! ### The abstraction of each effect -/

/-- **A Path rewritten in place**, with its key unchanged: the abstract map
changes at that key only, to the new record's modes. -/
theorem Reg.abs_update (hs : RegInv s) (hp : p ∈ s.list) (h : s.heap p = some r)
    {t : Reg} {w : RfsPath} (hl : t.list = s.list) (hh : t.heap = Function.update s.heap p (some w))
    (hk : w.mnt = r.mnt ∧ w.dentry = r.dentry) :
    t.abs = Function.update s.abs (r.mnt, r.dentry) w.modeOf := by
  have hpath : t.pathOf = s.pathOf := by
    funext k
    simp only [Reg.pathOf, hl, hh, keyOf_update_same h hk]
  funext k g
  by_cases hkr : k = (r.mnt, r.dentry)
  · subst hkr
    simp [Reg.abs, hpath, Reg.pathOf_of_mem hs hp h, hh]
  · rw [Function.update_noteq hkr]
    simp only [Reg.abs, hpath]
    cases hq : s.pathOf k with
    | none => rfl
    | some q =>
      have hkq := List.find?_some hq
      simp only [beq_iff_eq] at hkq
      have hqp : q ≠ p := fun hqp => hkr (by rw [hqp, keyOf_of_heap h] at hkq; exact (Option.some.inj hkq).symm)
      simp [hh, Function.update_noteq hqp]

theorem find?_congr {l : List Nat} {P Q : Nat → Bool} (h : ∀ q ∈ l, P q = Q q) :
    l.find? P = l.find? Q := by
  rw [← List.filter_head?, ← List.filter_head?, List.filter_congr h]

/-- **A Path unregistered**: its key leaves the abstract map. -/
theorem Reg.abs_unlink (hs : RegInv s) (hp : p ∈ s.list) (h : s.heap p = some r)
    {t : Reg} (hl : t.list = s.list.erase p) (hh : ∀ q, q ≠ p → t.heap q = s.heap q) :
    t.abs = Function.update s.abs (r.mnt, r.dentry) fun _ => none := by
  have hmem : ∀ q ∈ s.list.erase p, q ≠ p := fun q hq => (hs.nodup.mem_erase_iff.1 hq).1
  have hpath : ∀ k, t.pathOf k = (s.list.erase p).find? fun q => keyOf s.heap q == some k :=
    fun k => by
      simp only [Reg.pathOf, hl]
      exact find?_congr fun q hq => by simp [keyOf, hh q (hmem q hq)]
  funext k g
  by_cases hkr : k = (r.mnt, r.dentry)
  · subst hkr
    have hnone : t.pathOf (r.mnt, r.dentry) = none := by
      rw [hpath, List.find?_eq_none]
      intro q hq hkq
      simp only [beq_iff_eq] at hkq
      exact hmem q hq (List.inj_on_of_nodup_map hs.keys (List.mem_of_mem_erase hq) hp
        (hkq.trans (keyOf_of_heap h).symm))
    simp [Reg.abs, hnone]
  · rw [Function.update_noteq hkr]
    have hnp : (keyOf s.heap p == some k) = false := by
      simpa [keyOf_of_heap h] using fun h' => hkr h'.symm
    have heq : t.pathOf k = s.pathOf k := by
      rw [hpath, Reg.pathOf, ← List.filter_head?, ← List.filter_head?, ← List.erase_filter,
        List.erase_of_not_mem (by simp [hnp])]
    simp only [Reg.abs, heq]
    cases hq : s.pathOf k with
    | none => rfl
    | some q =>
      have hkq := List.find?_some hq
      simp only [beq_iff_eq] at hkq
      have hqp : q ≠ p := fun hqp => by subst hqp; simp [hkq] at hnp
      simp [hh q hqp]

/-- **A Path registered** for a key the map does not hold: the key now maps to
the new record's modes. -/
theorem Reg.abs_register (hs : RegInv s) {n : Nat} (hn : s.heap n = none)
    {t : Reg} {w : RfsPath} (hl : t.list = s.list ++ [n]) (hh : t.heap = Function.update s.heap n (some w))
    (hk : s.pathOf (w.mnt, w.dentry) = none) :
    t.abs = Function.update s.abs (w.mnt, w.dentry) w.modeOf := by
  have hne : ∀ q ∈ s.list, q ≠ n := fun q hq hqn => by
    obtain ⟨r, hr, -⟩ := hs.registered q hq
    rw [hqn, hn] at hr; cases hr
  have hpath : ∀ k, t.pathOf k = (s.pathOf k).or
      (if (w.mnt, w.dentry) = k then some n else none) := fun k => by
    simp only [Reg.pathOf, hl, List.find?_append]
    congr 1
    · exact find?_congr fun q hq => by simp [keyOf, hh, Function.update_noteq (hne q hq)]
    · by_cases hkr : (w.mnt, w.dentry) = k <;> simp [keyOf, hh, hkr]
  funext k g
  by_cases hkr : k = (w.mnt, w.dentry)
  · subst hkr
    simp [Reg.abs, hpath, hk, hh]
  · rw [Function.update_noteq hkr]
    simp only [Reg.abs, hpath, Ne.symm hkr, if_false, Option.or_none]
    cases hq : s.pathOf k with
    | none => rfl
    | some q =>
      have hqn := hne q (List.mem_of_find?_eq_some hq)
      simp [hh, Function.update_noteq hqn]

/-! ### The modes of a record -/

@[simp] theorem RfsPath.modeOf_count (r : RfsPath) (c : Nat) :
    ({ r with count := c } : RfsPath).modeOf = r.modeOf := rfl

theorem PathWf.modeOf_eq_some (hw : PathWf r) : r.modeOf f = some m ↔ f ∈ r.chain m := by
  cases m
  · by_cases hi : f ∈ r.rinch <;> simp [RfsPath.modeOf, hi]
  · by_cases hi : f ∈ r.rinch
    · simp [RfsPath.modeOf, hi, hw.disjoint f hi]
    · simp [RfsPath.modeOf, hi]

theorem RfsPath.modeOf_eq_none : r.modeOf f = none ↔ f ∉ r.rinch ∧ f ∉ r.rexch := by
  unfold RfsPath.modeOf
  split_ifs <;> simp_all

theorem RfsPath.modeOf_isSome (r : RfsPath) (f : Flt) : (r.modeOf f).isSome = r.cites f := by
  unfold RfsPath.modeOf RfsPath.cites
  split_ifs <;> simp_all

theorem RfsPath.modeOf_addFlt (hf : f ∉ r.chain m) (hf' : f ∉ r.chain m.other) :
    (r.setChain m (rfsChainAdd (r.chain m) f)).modeOf = Function.update r.modeOf f (some m) := by
  funext g
  by_cases hg : g = f
  · subst hg
    cases m <;> simp_all [RfsPath.modeOf, RfsPath.setChain]
  · rw [Function.update_noteq hg]
    cases m <;> simp [RfsPath.modeOf, RfsPath.setChain, hg]

theorem RfsPath.modeOf_remFlt (hw : PathWf r) (hf : f ∈ r.chain m) :
    (r.setChain m (rfsChainRem (r.chain m) f)).modeOf = Function.update r.modeOf f none := by
  funext g
  by_cases hg : g = f
  · subst hg
    cases m
    · simp [RfsPath.modeOf, RfsPath.setChain, mem_rfsChainRem hw.nodupIn, hw.disjoint g hf]
    · have : g ∉ r.rinch := fun h => hw.disjoint g h hf
      simp [RfsPath.modeOf, RfsPath.setChain, mem_rfsChainRem hw.nodupEx, this]
  · rw [Function.update_noteq hg]
    cases m
    · simp [RfsPath.modeOf, RfsPath.setChain, mem_rfsChainRem hw.nodupIn, hg]
    · simp [RfsPath.modeOf, RfsPath.setChain, mem_rfsChainRem hw.nodupEx, hg]

theorem RfsPath.modeOf_empty (hi : r.rinch = []) (he : r.rexch = []) :
    r.modeOf = fun _ => none := by
  funext g
  simp [RfsPath.modeOf, hi, he]

theorem Reg.newPath_modeOf (s : Reg) (mnt dentry : Nat) (m : Mode) (f : Flt) :
    (s.newPath mnt dentry m f).modeOf = Function.update (fun _ => none) f (some m) := by
  funext g
  by_cases hg : g = f
  · subst hg; cases m <;> simp [Reg.newPath, RfsPath.modeOf, RfsPath.setChain]
  · cases m <;> simp [Reg.newPath, RfsPath.modeOf, RfsPath.setChain, hg]

/-! ### Each call against the abstract registry -/

section Calls

variable {φ : Faults}

theorem Reg.abs_grab (hs : RegInv s) (hp : p ∈ s.list) (h : s.heap p = some r) :
    (s.grab p r).abs = s.abs := by
  have hh : (s.grab p r).heap = Function.update s.heap p (some { r with count := r.count + 1 }) :=
    rfl
  rw [Reg.abs_update (t := s.grab p r) hs hp h rfl hh ⟨rfl, rfl⟩, RfsPath.modeOf_count, ← Reg.abs_of_mem hs hp h,
    Function.update_eq_self]

theorem Reg.abs_of_pathOf {k : Key} (hk : s.pathOf k = some p) :
    p ∈ s.list ∧ ∃ r, s.heap p = some r ∧ (r.mnt, r.dentry) = k := by
  have hkq := List.find?_some hk
  simp only [beq_iff_eq, keyOf, Option.map_eq_some'] at hkq
  exact ⟨List.mem_of_find?_eq_some hk, hkq⟩

/-- **`redirfs_add_path` simulates the abstract `add_path`** when no
collaborator fails. -/
theorem redirfsAddPath_refines (hs : RegInv s) (ha : φ.alloc = false) (hr : φ.rootAdd = none)
    (mnt dentry : Nat) (f : Flt) (m : Mode) (ho : φ.onAdd m = none) :
    ∃ res s', redirfsAddPath φ (some f) (some ⟨some mnt, some dentry, m.flags⟩) s = .ok (res, s') ∧
      match s.abs.add (mnt, dentry) f m with
      | .ok A => (∃ p, res = .ok p) ∧ s'.abs = A
      | .error e => res = .error e ∧ s'.abs = s.abs := by
  cases hk : s.pathOf (mnt, dentry) with
  | none =>
    have hk' := (firstOn_isAt s mnt dentry).trans hk
    rw [redirfsAddPath_new hs hk' ha hr m, ho]
    refine ⟨_, _, rfl, ?_⟩
    have habs := Reg.abs_of_pathOf_none hk
    have hreg := Reg.abs_register (w := s.newPath mnt dentry m f) hs (hs.fresh _ le_rfl)
      (Reg.register_list s mnt dentry m f) (Reg.register_heap s mnt dentry m f) (by simpa using hk)
    simp only [Reg.newPath_mnt, Reg.newPath_dentry] at hreg
    simp [AbsReg.add, habs, hreg, Reg.newPath_modeOf]
  | some p =>
    obtain ⟨hp, r, h, hkr⟩ := Reg.abs_of_pathOf hk
    simp only [Prod.mk.injEq] at hkr
    obtain ⟨rfl, rfl⟩ := hkr
    have hw := hs.wf hp h
    obtain ⟨rt, hrt⟩ := Option.ne_none_iff_exists'.1 hw.rroot
    have habs := Reg.abs_of_mem hs hp h
    rw [redirfsAddPath_found hs ((firstOn_isAt s _ _).trans hk) h hrt m]
    by_cases h1 : f ∈ r.chain m
    · rw [if_pos h1]
      refine ⟨_, _, rfl, ?_⟩
      simp [AbsReg.add, habs, hw.modeOf_eq_some.2 h1, Reg.abs_grab hs hp h]
    by_cases h2 : f ∈ r.chain m.other
    · rw [if_neg h1, if_pos h2]
      refine ⟨_, _, rfl, ?_⟩
      have hne : m.other ≠ m := by cases m <;> decide
      simp [AbsReg.add, habs, hw.modeOf_eq_some.2 h2, hne]
    · rw [if_neg h1, if_neg h2, ho]
      refine ⟨_, _, rfl, ?_⟩
      have hnone : r.modeOf f = none := by
        rw [RfsPath.modeOf_eq_none]; cases m <;> simp_all
      have hupd := Reg.abs_update (t := (s.grab p r).addFlt p { r with count := r.count + 1 } m f rt)
        (w := ({ r with count := r.count + 1 } : RfsPath).setChain m
          (rfsChainAdd (({ r with count := r.count + 1 } : RfsPath).chain m) f))
        hs hp h (by simp [Reg.grab]) (by simp [Reg.grab]) ⟨by simp, by simp⟩
      rw [RfsPath.modeOf_addFlt (r := { r with count := r.count + 1 }) (by simpa using h1)
        (by simpa using h2), RfsPath.modeOf_count] at hupd
      simp [AbsReg.add, habs, hnone, hupd]

/-- **`redirfs_rem_path` simulates the abstract `rem_path`**, on a held,
registered Path, when no collaborator fails. -/
theorem redirfsRemPath_refines (hs : RegInv s) (ho : φ.onRem = none) (f : Flt) (hp : p ∈ s.list)
    (hh : p ∈ s.handles) (h : s.heap p = some r) :
    ∃ rv s', redirfsRemPath φ (some f) (some p) s = .ok (rv, s') ∧
      match s.abs.rem (r.mnt, r.dentry) f with
      | .ok A => rv = 0 ∧ s'.abs = A
      | .error e => rv = e ∧ s'.abs = s.abs := by
  have hw := hs.wf hp h
  obtain ⟨rt, hrt⟩ := Option.ne_none_iff_exists'.1 hw.rroot
  have habs := Reg.abs_of_mem hs hp h
  have hmode : ∀ m, f ∈ r.chain m → ∃ rv s', redirfsRemPath φ (some f) (some p) s = .ok (rv, s') ∧
      match s.abs.rem (r.mnt, r.dentry) f with
      | .ok A => rv = 0 ∧ s'.abs = A
      | .error e => rv = e ∧ s'.abs = s.abs := fun m hf => by
    have hrem : s.abs.rem (r.mnt, r.dentry) f =
        .ok (Function.update s.abs (r.mnt, r.dentry) (Function.update r.modeOf f none)) := by
      simp [AbsReg.rem, habs, hw.modeOf_eq_some.2 hf]
    rw [redirfsRemPath_mem hs hp h hrt hf ho hh, hrem, ← RfsPath.modeOf_remFlt hw hf]
    split_ifs with hc
    · refine ⟨_, _, rfl, rfl, Reg.abs_update hs hp h (by simp) (by simp) ⟨by simp, by simp⟩⟩
    · simp only [not_or, not_not] at hc
      refine ⟨_, _, rfl, rfl, ?_⟩
      rw [RfsPath.modeOf_empty hc.1 hc.2]
      exact Reg.abs_unlink hs hp h (by simp) fun q hq => by simp [hq]
  by_cases hi : f ∈ r.rinch
  · exact hmode .include hi
  by_cases he : f ∈ r.rexch
  · exact hmode .exclude he
  rw [redirfsRemPath_absent hs hp h hi he]
  refine ⟨_, _, rfl, ?_⟩
  simp [AbsReg.rem, habs, RfsPath.modeOf_eq_none.2 ⟨hi, he⟩]

/-- **`redirfs_get_path_info` reports the abstract map** on a registered
Path. -/
theorem redirfsGetPathInfo_abs (hs : RegInv s) (ha : φ.alloc = false) (f : Flt) (hp : p ∈ s.list)
    (h : s.heap p = some r) :
    redirfsGetPathInfo φ (some f) (some p) s =
      .ok (match s.abs (r.mnt, r.dentry) f with
        | some m => .ok ⟨some r.mnt, some r.dentry, m.flags⟩
        | none => .error (-ENODATA)) := by
  rw [Reg.abs_of_mem hs hp h]
  simp only [redirfsGetPathInfo, ha, Bool.false_eq_true, if_false, Reg.deref_of_heap h,
    except_ok_bind, RfsPath.modeOf, rfsChainFind_ne_neg_one]
  split_ifs <;> simp_all [Mode.flags, REDIRFS_PATH_INCLUDE, REDIRFS_PATH_EXCLUDE]

/-- **`redirfs_get_paths` reports the abstract map**: the registered Paths
whose key holds the filter. -/
theorem redirfsGetPaths_abs (hs : RegInv s) (ha : φ.alloc = false) (f : Flt) :
    ∃ s', redirfsGetPaths φ (some f) s = .ok (.ok (s.list.filter fun p =>
      ((s.heap p).bind fun r => s.abs (r.mnt, r.dentry) f).isSome), s') := by
  have hfil : s.list.filter (citesAt s.heap f) = s.list.filter fun p =>
      ((s.heap p).bind fun r => s.abs (r.mnt, r.dentry) f).isSome :=
    List.filter_congr fun q hq => by
      obtain ⟨r, hr, -⟩ := hs.registered q hq
      simp [citesAt, hr, Reg.abs_of_mem hs hq hr, RfsPath.modeOf_isSome]
  exact ⟨_, by rw [redirfsGetPaths_eq hs f ha, hfil]⟩

end Calls

/-! ### The refinement -/

/-- **What the spec's registry says of a state.** The list holds at most one
Path per key, and holds one exactly when the key's two filter sets are not both
empty; the chains of each registered Path are duplicate-free, disjoint, and
are its key's two sets; `redirfs_add_path` and `redirfs_rem_path` move the
abstract map as `RedirFS.AbsReg.add` and `RedirFS.AbsReg.rem` do when no
collaborator fails; `redirfs_get_path_info` and `redirfs_get_paths` report
the map. -/
structure AbsRefines (s : Reg) : Prop where
  keys : (s.list.map (keyOf s.heap)).Nodup
  chains : ∀ p ∈ s.list, ∃ r, s.heap p = some r ∧ r.rinch.Nodup ∧ r.rexch.Nodup ∧
    (∀ f ∈ r.rinch, f ∉ r.rexch) ∧ s.abs (r.mnt, r.dentry) = r.modeOf
  occupied : ∀ k, (∃ p ∈ s.list, keyOf s.heap p = some k) ↔ ∃ f, s.abs k f ≠ none
  add : ∀ (φ : Faults) (mnt dentry : Nat) (f : Flt) (m : Mode), φ.alloc = false →
    φ.rootAdd = none → φ.onAdd m = none →
    ∃ res s', redirfsAddPath φ (some f) (some ⟨some mnt, some dentry, m.flags⟩) s = .ok (res, s') ∧
      match s.abs.add (mnt, dentry) f m with
      | .ok A => (∃ p, res = .ok p) ∧ s'.abs = A
      | .error e => res = .error e ∧ s'.abs = s.abs
  rem : ∀ (φ : Faults) (f : Flt) (p : Nat) (r : RfsPath), φ.onRem = none → p ∈ s.list →
    p ∈ s.handles → s.heap p = some r →
    ∃ rv s', redirfsRemPath φ (some f) (some p) s = .ok (rv, s') ∧
      match s.abs.rem (r.mnt, r.dentry) f with
      | .ok A => rv = 0 ∧ s'.abs = A
      | .error e => rv = e ∧ s'.abs = s.abs
  info : ∀ (φ : Faults) (f : Flt) (p : Nat) (r : RfsPath), φ.alloc = false → p ∈ s.list →
    s.heap p = some r →
    redirfsGetPathInfo φ (some f) (some p) s =
      .ok (match s.abs (r.mnt, r.dentry) f with
        | some m => .ok ⟨some r.mnt, some r.dentry, m.flags⟩
        | none => .error (-ENODATA))
  paths : ∀ (φ : Faults) (f : Flt), φ.alloc = false →
    ∃ s', redirfsGetPaths φ (some f) s = .ok (.ok (s.list.filter fun p =>
      ((s.heap p).bind fun r => s.abs (r.mnt, r.dentry) f).isSome), s')

theorem RegInv.occupied (hs : RegInv s) (k : Key) :
    (∃ p ∈ s.list, keyOf s.heap p = some k) ↔ ∃ f, s.abs k f ≠ none := by
  constructor
  · rintro ⟨p, hp, hk⟩
    obtain ⟨r, h, hw⟩ := hs.registered p hp
    rw [keyOf_of_heap h, Option.some.injEq] at hk
    subst hk
    rw [Reg.abs_of_mem hs hp h]
    rcases hw.cites with hi | he
    · obtain ⟨f, hf⟩ := List.exists_mem_of_ne_nil _ hi
      exact ⟨f, by simp [RfsPath.modeOf, hf]⟩
    · obtain ⟨f, hf⟩ := List.exists_mem_of_ne_nil _ he
      exact ⟨f, by simp [RfsPath.modeOf_eq_none, hf]⟩
  · rintro ⟨f, hf⟩
    cases hq : s.pathOf k with
    | none => simp [Reg.abs_of_pathOf_none hq] at hf
    | some p =>
      have hkq := List.find?_some hq
      simp only [beq_iff_eq] at hkq
      exact ⟨p, List.mem_of_find?_eq_some hq, hkq⟩

end RedirFS
