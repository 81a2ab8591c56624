import RedirFS.Registry.Calls

/-!
# The arrays of `redirfs_get_paths` and `redirfs_get_paths_root`

Both functions allocate an array of `n + 1` slots and walk a list of Paths,
storing each Path their test accepts and taking a reference on it; the slot
after the last one stored gets the NULL that ends the array. The model makes
every store check its index (`RedirFS.collectPaths`), so an array too small
shows as `RedirFS.Oops.overflow`.

The loop's effect has a closed form: on a list without repetitions whose
Paths are all alive, it stores exactly the accepted Paths, in order, and the
state is the old one with one more reference on each of them
(`RedirFS.collectPaths_eq`, `RedirFS.Reg.takeRefs`). Those references are
handed to the caller, which keeps the invariant (`RedirFS.RegInv.takeRefs`);
`redirfs_put_paths` gives them back one by one (`RedirFS.RegInv.putPaths`).
-/

namespace RedirFS

/-! ### Taking references on a list of Paths -/

/-- The state after one reference is taken on each Path of `qs`, one per
occurrence. -/
def Reg.takeRefs (s : Reg) (qs : List Nat) : Reg :=
  { s with heap := fun p => (s.heap p).map fun r => { r with count := r.count + qs.count p } }

variable {s : Reg} {p : Nat} {r : RfsPath}

@[simp] theorem Reg.takeRefs_nil (s : Reg) : s.takeRefs [] = s := by
  simp [Reg.takeRefs]

@[simp] theorem Reg.takeRefs_list (s : Reg) (qs : List Nat) : (s.takeRefs qs).list = s.list := rfl

@[simp] theorem Reg.takeRefs_next (s : Reg) (qs : List Nat) : (s.takeRefs qs).next = s.next := rfl

@[simp] theorem Reg.takeRefs_roots (s : Reg) (qs : List Nat) : (s.takeRefs qs).roots = s.roots := rfl

@[simp] theorem Reg.takeRefs_pathsNr (s : Reg) (qs : List Nat) :
    (s.takeRefs qs).pathsNr = s.pathsNr := rfl

@[simp] theorem Reg.takeRefs_handles (s : Reg) (qs : List Nat) :
    (s.takeRefs qs).handles = s.handles := rfl

@[simp] theorem Reg.takeRefs_chains (s : Reg) (qs : List Nat) :
    (s.takeRefs qs).chains = s.chains := rfl

theorem Reg.takeRefs_heap_of_not_mem {qs : List Nat} (hp : p ∉ qs) :
    (s.takeRefs qs).heap p = s.heap p := by
  simp [Reg.takeRefs, List.count_eq_zero_of_not_mem hp]

theorem Reg.takeRefs_takeRefs (s : Reg) (a b : List Nat) :
    (s.takeRefs a).takeRefs b = s.takeRefs (a ++ b) := by
  simp only [Reg.takeRefs, Option.map_map]
  congr 1
  funext q
  cases s.heap q <;> simp [List.count_append, Nat.add_assoc]

/-- `rfs_path_get` is one reference taken. -/
theorem rfsPathGet_takeRefs (h : s.heap p = some r) (hc : r.count ≠ 0) :
    rfsPathGet p s = .ok (s.takeRefs [p]) := by
  rw [rfsPathGet_eq h hc]
  congr 1
  apply Reg.ext <;> try rfl
  funext q
  by_cases hq : q = p
  · subst hq; simp [Reg.takeRefs, h]
  · simp [Reg.takeRefs, hq, List.count_singleton']
    rw [if_neg (Ne.symm hq)]
    cases s.heap q <;> rfl

/-! ### The views ignore counts -/

theorem keyOf_takeRefs (s : Reg) (qs : List Nat) : keyOf (s.takeRefs qs).heap = keyOf s.heap := by
  funext q
  simp only [keyOf, Reg.takeRefs, Option.map_map]
  rfl

theorem inRoot_takeRefs (s : Reg) (qs : List Nat) (rt : Nat) :
    inRoot (s.takeRefs qs).heap rt = inRoot s.heap rt := by
  funext q
  simp only [inRoot, Reg.takeRefs]
  cases s.heap q <;> rfl

theorem citesAt_takeRefs (s : Reg) (qs : List Nat) (f : Flt) :
    citesAt (s.takeRefs qs).heap f = citesAt s.heap f := by
  funext q
  simp only [citesAt, Reg.takeRefs]
  cases s.heap q <;> rfl

/-- **References handed to the caller keep the invariant**, when they are on
Paths that are alive. -/
theorem RegInv.takeRefs (hs : RegInv s) {qs : List Nat} (hq : ∀ q ∈ qs, s.heap q ≠ none) :
    RegInv { s.takeRefs qs with handles := s.handles ++ qs } where
  keys := by simpa [keyOf_takeRefs] using hs.keys
  fresh q hq' := by simp [Reg.takeRefs, hs.fresh q hq']
  registered q hq' := by
    obtain ⟨r, hr, hw⟩ := hs.registered q hq'
    exact ⟨{ r with count := r.count + qs.count q }, by simp [Reg.takeRefs, hr],
      hw.of_sameShape rfl rfl rfl⟩
  unregistered q r' hq' hn := by
    simp only [Reg.takeRefs, Option.map_eq_some'] at hq'
    obtain ⟨r, hr, rfl⟩ := hq'
    obtain ⟨h1, h2, h3, h4⟩ := hs.unregistered q r hr hn
    exact ⟨h1, h2, h3, List.mem_append_left _ h4⟩
  count q r' hq' := by
    simp only [Reg.takeRefs, Option.map_eq_some'] at hq'
    obtain ⟨r, hr, rfl⟩ := hq'
    simp [hs.count q r hr, List.count_append, Nat.add_assoc]
  handles q hq' := by
    rcases List.mem_append.1 hq' with h | h
    · simpa [Reg.takeRefs] using hs.handles q h
    · simpa [Reg.takeRefs] using hq q h
  roots rt := by simpa [inRoot_takeRefs] using hs.roots rt
  pathsNr f := by simpa [citesAt_takeRefs] using hs.pathsNr f

/-! ### The loop -/

/-- **The loop of `redirfs_get_paths*` in closed form.** On a list without
repetitions of Paths that are alive, and an array with room for every Path the
test accepts and the NULL after them, the loop stores exactly those Paths, in
list order, with a reference on each. -/
theorem collectPaths_eq (sel : RfsPath → Bool) (cap : Int) :
    ∀ {ps acc : List Nat} {s : Reg}, ps.Nodup → (∀ p ∈ ps, ∃ r, s.heap p = some r ∧ r.count ≠ 0) →
      (acc.length : Int) + (ps.filter fun p => (s.heap p).any sel).length < cap →
      collectPaths sel cap ps acc s =
        .ok (acc ++ ps.filter (fun p => (s.heap p).any sel),
          s.takeRefs (ps.filter fun p => (s.heap p).any sel))
  | [], acc, s, _, _, hcap => by simpa [collectPaths] using hcap
  | p :: ps, acc, s, hnd, hal, hcap => by
    obtain ⟨r, hr, hc⟩ := hal p (List.mem_cons_self p ps)
    rw [List.nodup_cons] at hnd
    have hsame : ∀ q ∈ ps, (s.takeRefs [p]).heap q = s.heap q := fun q hq =>
      Reg.takeRefs_heap_of_not_mem (by rw [List.mem_singleton]; rintro rfl; exact hnd.1 hq)
    have hal' : ∀ q ∈ ps, ∃ r, (s.takeRefs [p]).heap q = some r ∧ r.count ≠ 0 := fun q hq => by
      rw [hsame q hq]; exact hal q (List.mem_cons_of_mem p hq)
    have hfil : (ps.filter fun q => ((s.takeRefs [p]).heap q).any sel) =
        ps.filter fun q => (s.heap q).any sel := List.filter_congr fun q hq => by rw [hsame q hq]
    simp only [collectPaths, Reg.deref_of_heap hr, except_ok_bind]
    by_cases hs : sel r
    · have hcap' : ((acc ++ [p]).length : Int) +
          (ps.filter fun q => ((s.takeRefs [p]).heap q).any sel).length < cap := by
        simp only [List.filter_cons, hr, Option.any_some, hs, if_true, List.length_cons] at hcap
        simp only [hfil, List.length_append, List.length_singleton]
        push_cast at hcap ⊢
        omega
      have hlt : (acc.length : Int) < cap := by
        have := hcap'
        simp only [List.length_append, List.length_singleton] at this
        push_cast at this
        omega
      simp only [hs, if_true, hlt, rfsPathGet_takeRefs hr hc, except_ok_bind,
        collectPaths_eq sel cap hnd.2 hal' hcap', hfil, Reg.takeRefs_takeRefs]
      simp [List.filter_cons, hr, hs]
    · have hcap' : (acc.length : Int) +
          (ps.filter fun q => (s.heap q).any sel).length < cap := by
        simpa [List.filter_cons, hr, hs] using hcap
      simp only [hs, Bool.false_eq_true, if_false]
      rw [collectPaths_eq sel cap hnd.2 (fun q hq => hal q (List.mem_cons_of_mem p hq)) hcap']
      simp [List.filter_cons, hr, hs]

/-! ### `redirfs_get_paths` and `redirfs_get_paths_root` -/

theorem RegInv.alive (hs : RegInv s) : ∀ p ∈ s.list, ∃ r, s.heap p = some r ∧ r.count ≠ 0 :=
  fun p hp => by
    obtain ⟨r, hr, -⟩ := hs.registered p hp
    exact ⟨r, hr, hs.count_ne_zero hr⟩

/-- The test of `redirfs_get_paths` is whether a Path cites the filter. -/
theorem getPaths_sel (f : Flt) :
    (fun r : RfsPath => rfsChainFind r.rinch f ≠ -1 || rfsChainFind r.rexch f ≠ -1) =
      fun r => r.cites f := by
  funext r
  simp [RfsPath.cites]

/-- **`redirfs_get_paths` from a state with the invariant.** Unless the array
cannot be allocated, it returns the registered Paths citing the filter, in
list order, each with a reference the caller now holds: `paths_nr` of them,
so they and the NULL after them fit in its `paths_nr + 1` slots. -/
theorem redirfsGetPaths_eq (hs : RegInv s) {φ : Faults} (f : Flt) (ha : φ.alloc = false) :
    redirfsGetPaths φ (some f) s =
      .ok (.ok (s.list.filter (citesAt s.heap f)),
        { s.takeRefs (s.list.filter (citesAt s.heap f)) with
          handles := s.handles ++ s.list.filter (citesAt s.heap f) }) := by
  have hcap : ((([] : List Nat).length : Int) +
      (s.list.filter fun p => (s.heap p).any fun r => r.cites f).length < s.pathsNr f + 1) := by
    rw [hs.pathsNr f, List.countP_eq_length_filter]
    show _ < ((s.list.filter fun p => (s.heap p).any fun r => r.cites f).length : Int) + 1
    simp only [List.length_nil]
    omega
  simp only [redirfsGetPaths, ha, Bool.false_eq_true, if_false, except_ok_bind, getPaths_sel,
    collectPaths_eq _ _ hs.nodup hs.alive hcap]
  rfl

/-- **`redirfs_get_paths_root` from a state with the invariant.** Unless the
array cannot be allocated, it returns every Path on the root's list when the
root's merged chains hold the filter, and none otherwise: its test reads the
chains of the root, never those of the Path. -/
theorem redirfsGetPathsRoot_eq (hs : RegInv s) {φ : Faults} (f : Flt) (rt : Nat)
    (ha : φ.alloc = false) :
    redirfsGetPathsRoot φ (some f) (some rt) s =
      let ps := if f ∈ (s.roots rt).rinch ∨ f ∈ (s.roots rt).rexch then (s.roots rt).rpaths else []
      .ok (.ok ps, { s.takeRefs ps with handles := s.handles ++ ps }) := by
  have hnd : (s.roots rt).rpaths.Nodup := by rw [hs.roots]; exact hs.nodup.filter _
  have hal : ∀ p ∈ (s.roots rt).rpaths, ∃ r, s.heap p = some r ∧ r.count ≠ 0 := fun p hp => by
    rw [hs.roots] at hp
    exact hs.alive p (List.mem_of_mem_filter hp)
  set b := (rfsChainFind (s.roots rt).rinch f ≠ -1 || rfsChainFind (s.roots rt).rexch f ≠ -1)
  have hfil : ((s.roots rt).rpaths.filter fun p => (s.heap p).any fun _ => b) =
      if b then (s.roots rt).rpaths else [] := by
    by_cases hb : b = true
    · simp only [hb, if_true]
      exact List.filter_eq_self.2 fun p hp => by obtain ⟨r, hr, -⟩ := hal p hp; simp [hr, hb]
    · simp only [hb, if_false, Bool.false_eq_true]
      exact List.filter_eq_nil_iff.2 fun p hp => by obtain ⟨r, hr, -⟩ := hal p hp; simp [hr, hb]
  have hcap : ((([] : List Nat).length : Int) +
      ((s.roots rt).rpaths.filter fun p => (s.heap p).any fun _ => b).length <
        ((s.roots rt).rpaths.length : Int) + 1) := by
    have := List.length_filter_le (fun p => (s.heap p).any fun _ => b) (s.roots rt).rpaths
    simp only [List.length_nil]
    push_cast
    omega
  simp only [redirfsGetPathsRoot, ha, Bool.false_eq_true, if_false, except_ok_bind]
  rw [collectPaths_eq _ _ hnd hal hcap, hfil]
  by_cases hb : b = true
  · have : f ∈ (s.roots rt).rinch ∨ f ∈ (s.roots rt).rexch := by simpa [b] using hb
    simp [hb, this]
  · have : ¬ (f ∈ (s.roots rt).rinch ∨ f ∈ (s.roots rt).rexch) := by simpa [b] using hb
    simp [hb, this]

/-- Register the Paths of dentries 10 and 11, on mount 1 and under one root,
each for its own filter (7 and 8) in include mode. -/
def rootHistory : List Call :=
  [.addPath noFaults (some 7) (some ⟨some 1, some 10, REDIRFS_PATH_INCLUDE⟩),
    .addPath noFaults (some 8) (some ⟨some 1, some 11, REDIRFS_PATH_INCLUDE⟩)]

/-- **`redirfs_get_paths_root` returns a Path that does not cite the filter.**
After `RedirFS.rootHistory` the merged include chain of the root holds filters
7 and 8, so `redirfs_get_paths_root(7, root)` returns both Paths of the root,
while `redirfs_get_paths(7)` returns only the first: the Path at address 1
cites filter 8 alone. -/
theorem redirfsGetPathsRoot_returns_uncited :
    ∃ s, (Reg.init fun _ => 0).run rootHistory = .ok s ∧ Reachable s ∧
      (s.roots 0).rpaths = [0, 1] ∧ citesAt s.heap 7 1 = false ∧
      (redirfsGetPathsRoot noFaults (some 7) (some 0) s).map Prod.fst = .ok (.ok [0, 1]) ∧
      (redirfsGetPaths noFaults (some 7) s).map Prod.fst = .ok (.ok [0]) :=
  ⟨_, rfl, @Reachable.run _ _ rootHistory (.init fun _ => 0) rfl rfl, rfl, rfl, rfl, rfl⟩

/-! ### `redirfs_put_paths` -/

/-- **`redirfs_put_paths` gives back the references of an array its caller
holds**: it never fails, it keeps the invariant, and the caller's handles lose
exactly the array's entries. -/
theorem RegInv.putPaths : ∀ (ps : List Nat) {s : Reg}, RegInv s →
    (∀ p, ps.count p ≤ s.handles.count p) →
    ∃ s', redirfsPutPaths ps s = .ok s' ∧ RegInv s' ∧
      ∀ q, s'.handles.count q + ps.count q = s.handles.count q
  | [], s, hs, _ => ⟨s, rfl, hs, by simp⟩
  | p :: ps, s, hs, hc => by
    have hh : p ∈ s.handles := List.count_pos_iff.1 (by have := hc p; simp at this; omega)
    obtain ⟨r, hr⟩ := hs.heap_of_held hh
    have hc' : ∀ q, ps.count q ≤ (s.release p r).handles.count q := fun q => by
      have := hc q
      by_cases hpq : p = q
      · subst hpq; simp [Reg.release, List.count_erase] at this ⊢; omega
      · simp [Reg.release, List.count_erase, hpq, List.count_cons, Ne.symm hpq] at this ⊢; omega
    obtain ⟨s', hput, hs', hcount⟩ := RegInv.putPaths ps (hs.release hr hh) hc'
    refine ⟨s', ?_, hs', fun q => ?_⟩
    · simp [redirfsPutPaths, redirfsPutPath_eq hr (hs.count_ne_zero hr), hput]
    · have := hcount q
      by_cases hpq : p = q
      · subst hpq
        have hpos := List.count_pos_iff.2 hh
        simp [Reg.release, List.count_erase] at this ⊢; omega
      · simp [Reg.release, List.count_erase, hpq, List.count_cons, Ne.symm hpq] at this ⊢; omega

@[simp] theorem Reg.release_list (s : Reg) (p : Nat) (r : RfsPath) : (s.release p r).list = s.list := by
  unfold Reg.release
  split_ifs <;> rfl

/-- After the first handle of an array is given back, the caller still holds
the rest. -/
theorem count_le_release {ps : List Nat} (hc : ∀ q, (p :: ps).count q ≤ s.handles.count q) (q : Nat) :
    ps.count q ≤ (s.release p r).handles.count q := by
  have := hc q
  by_cases hpq : p = q
  · subst hpq; simp [Reg.release, List.count_erase] at this ⊢; omega
  · simp [Reg.release, List.count_erase, hpq, List.count_cons, Ne.symm hpq] at this ⊢; omega

/-- The callers' contract for `redirfs_put_paths`: each handle of the array,
as often as it occurs, is one the caller holds. -/
theorem Call.held_putPaths {ps : List Nat} (hc : (Call.putPaths ps).held s = true) (p : Nat) :
    ps.count p ≤ s.handles.count p := by
  by_cases hp : p ∈ ps
  · simpa [Call.held] using (List.all_eq_true.1 hc) p hp
  · simp [List.count_eq_zero_of_not_mem hp]

/-- What every `rfs_path_put` of a held handle keeps, `redirfs_put_paths`
keeps. -/
theorem redirfsPutPaths_preserves (P : Reg → Prop)
    (hP : ∀ {s : Reg} {p : Nat} {r : RfsPath}, RegInv s → p ∈ s.handles → s.heap p = some r → P s →
      P (s.release p r)) :
    ∀ (ps : List Nat) {s s' : Reg}, RegInv s → (∀ p, ps.count p ≤ s.handles.count p) →
      redirfsPutPaths ps s = .ok s' → P s → P s'
  | [], _, _, _, _, h, hp => by cases h; exact hp
  | p :: ps, s, s', hs, hc, h, hp => by
    have hh : p ∈ s.handles := List.count_pos_iff.1 (by have := hc p; simp at this; omega)
    obtain ⟨r, hr⟩ := hs.heap_of_held hh
    simp only [redirfsPutPaths, redirfsPutPath_eq hr (hs.count_ne_zero hr), except_ok_bind] at h
    exact redirfsPutPaths_preserves P hP ps (hs.release hr hh) (count_le_release hc) h (hP hs hh hr hp)

end RedirFS
