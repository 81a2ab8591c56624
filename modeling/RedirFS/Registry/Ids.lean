import RedirFS.Registry.Api

/-!
# Path ids

The spec gives a new Path "the smallest non-negative integer not currently in
use by another Path", reused after removal. `rfs_path_get_id` computes one pass
over `rfs_path_list` (`RedirFS.idPass`): a counter starts at 0 and steps past
every id equal to it, in list order, never looking back.

That pass finds the least unused id exactly when it meets the ids in increasing
order (`RedirFS.idPass_least`). But `rfs_path_list` is in registration order,
not in id order: once a low id is reused, its new Path sits after Paths with
higher ids, and the next pass steps past the reused id onto one that is taken.
Four registrations and one removal are enough (`RedirFS.idHistory`): two
registered Paths then share an id, and `redirfs_get_path_id` can only ever
return the first of them (`RedirFS.rfsPathGetId_reuses_taken_id`).

The outer loop of `rfs_path_get_id` runs its body once, so the `-1` it would
return past `INT_MAX`, and the `-EBUSY` of `rfs_path_add` behind it, cannot
happen (`RedirFS.rfsPathGetId_nonneg`).
-/

namespace RedirFS

/-! ### The pass -/

/-- The pass never goes below where it starts. -/
theorem le_foldl_idStep (ids : List Int) (i : Int) :
    i ≤ ids.foldl (fun i id => if id = i then i + 1 else i) i := by
  induction ids generalizing i with
  | nil => exact le_rfl
  | cons x xs ih =>
    simp only [List.foldl_cons]
    split
    · exact le_trans (by omega) (ih _)
    · exact ih _

/-- The invariant of the pass on an increasing list whose ids are all at least
where it starts: it stops at the least value from there on that is not an id. -/
theorem foldl_idStep_least {ids : List Int} {i : Int} (hs : ids.Pairwise (· < ·))
    (hi : ∀ x ∈ ids, i ≤ x) :
    ids.foldl (fun i id => if id = i then i + 1 else i) i ∉ ids ∧
      ∀ k, i ≤ k → k < ids.foldl (fun i id => if id = i then i + 1 else i) i → k ∈ ids := by
  induction ids generalizing i with
  | nil => simp
  | cons x xs ih =>
    rw [List.pairwise_cons] at hs
    have hxi : i ≤ x := hi x (List.mem_cons_self x xs)
    simp only [List.foldl_cons, List.mem_cons, not_or]
    by_cases hx : x = i
    · rw [if_pos hx]
      subst hx
      obtain ⟨h1, h2⟩ := ih hs.2 fun y hy => hs.1 y hy
      have hle := le_foldl_idStep xs (x + 1)
      refine ⟨⟨by omega, h1⟩, fun k hk hkj => ?_⟩
      by_cases hkx : k = x
      · exact .inl hkx
      · exact .inr (h2 k (by omega) hkj)
    · simp only [if_neg hx]
      obtain ⟨h1, h2⟩ := ih (i := i) hs.2 fun y hy => by have := hs.1 y hy; omega
      have heq : xs.foldl (fun i id => if id = i then i + 1 else i) i = i := by
        refine le_antisymm ?_ (le_foldl_idStep xs i)
        by_contra hlt
        have := hs.1 i (h2 i le_rfl (by omega))
        omega
      rw [heq] at h1 h2 ⊢
      exact ⟨⟨fun h => hx h.symm, h1⟩, fun k hk hkj => by omega⟩

/-- **The pass is right on an increasing list**: when the registered ids come
in increasing order, `rfs_path_get_id` returns the least non-negative integer
that is not one of them. -/
theorem idPass_least {ids : List Int} (hs : ids.Pairwise (· < ·)) (h0 : ∀ x ∈ ids, 0 ≤ x) :
    0 ≤ idPass ids ∧ idPass ids ∉ ids ∧ ∀ k, 0 ≤ k → k < idPass ids → k ∈ ids :=
  ⟨le_foldl_idStep ids 0, foldl_idStep_least hs h0⟩

theorem rfsPathGetId_eq (s : Reg) : rfsPathGetId s = idPass s.ids := by
  simp [rfsPathGetId, INT_MAX]

/-- `rfs_path_get_id` never fails, so `rfs_path_add` never returns `-EBUSY`. -/
theorem rfsPathGetId_nonneg (s : Reg) : 0 ≤ rfsPathGetId s := by
  rw [rfsPathGetId_eq]
  exact le_foldl_idStep _ 0

/-- The pass of `rfs_path_get_id` over the ids `0` to `n - 1` in order. -/
theorem idPass_range (n : Nat) : idPass ((List.range n).map Nat.cast) = n := by
  unfold idPass
  induction n with
  | zero => rfl
  | succ n ih => simp [List.range_succ, List.foldl_append, ih]

/-! ### A reused id, and the id it takes -/

/-- Register the Path of a dentry for filter 7, in include mode, on mount 1. -/
def addInclude (dentry : Nat) : Call :=
  .addPath noFaults (some 7) (some ⟨some 1, some dentry, REDIRFS_PATH_INCLUDE⟩)

/-- Register dentries 10 and 11, unregister 10 through the handle its
registration returned (address 0), and register dentries 12 and 13. -/
def idHistory : List Call :=
  [addInclude 10, addInclude 11, .remPath noFaults (some 7) (some 0), addInclude 12,
    addInclude 13]

/-- **Two registered Paths with one id.** After `RedirFS.idHistory`, the
Paths of dentries 11, 12 and 13 are registered, at addresses 1, 2 and 3, with
ids 1, 0 and 1: the Path of dentry 12 reused id 0 and was appended after id 1,
so the pass for dentry 13 stepped past 0 onto 1. `redirfs_get_path_id(1)`
returns the Path at address 1, and no id finds the one at address 3. -/
theorem rfsPathGetId_reuses_taken_id :
    ∃ s, (Reg.init fun _ => 0).run idHistory = .ok s ∧ Reachable s ∧
      s.list = [1, 2, 3] ∧ s.ids = [1, 0, 1] ∧
      (redirfsGetPathId 1 s).map Prod.fst = .ok (some 1) :=
  ⟨_, rfl, @Reachable.run _ _ idHistory (.init fun _ => 0) rfl rfl, rfl, rfl, rfl⟩

end RedirFS
