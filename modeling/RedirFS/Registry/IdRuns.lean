import RedirFS.Registry.Moves

/-!
# Path ids in runs without removals

`rfs_path_get_id` reads the ids of `rfs_path_list` in list order and steps
past each one equal to its counter (`RedirFS.idPass`). It goes wrong only
once the ids are out of order, and `RedirFS.rfsPathGetId_reuses_taken_id`
needs a removal to get there. This file shows that a removal is needed:

* `RedirFS.ids_of_run_without_removals`: in a run from a freshly loaded
  module that never calls `redirfs_rem_path` or `redirfs_rem_paths`, and
  passes only handles its caller holds, the ids of the registered Paths are
  `0, 1, …, n - 1` in list order, and `rfs_path_get_id` answers `n`. So they
  are distinct, and every Path `rfs_path_add` made got the least id not in
  use; every further call without removal keeps the ids or appends `n`.

The step lemma is `RedirFS.Move.ids`: every move but a removal either keeps
the ids or registers a Path and appends the answer of `rfs_path_get_id`.
`RedirFS.apiStep_moves` makes every call but a removal such moves, and for one
call `RedirFS.apiStep_ids` says the same: `redirfs_add_path` is one outcome,
and every other call only takes and gives back references. Under it are frame
lemmas which use only that the ids are read from the registered Paths
(`RedirFS.Reg.ids_congr`) and that an id does not depend on a count
(`RedirFS.RefMoves.reads`).
-/

namespace RedirFS

/-! ### What the operations on the registry do to the ids -/

section Frame

variable {s t : Reg} {p : Nat} {r : RfsPath}

/-- The ids are read from the registered Paths only. -/
theorem Reg.ids_congr (hl : t.list = s.list)
    (hh : ∀ q ∈ s.list, (t.heap q).map RfsPath.id = (s.heap q).map RfsPath.id) : t.ids = s.ids := by
  unfold Reg.ids
  rw [hl]
  exact List.filterMap_congr hh

theorem Reg.ids_grab (h : s.heap p = some r) : (s.grab p r).ids = s.ids :=
  Reg.ids_congr rfl (Reg.reads_grab (g := RfsPath.id) (fun _ _ => rfl) h)

theorem Reg.ids_addFlt (m : Mode) (f : Flt) (rt : Nat) (h : (s.heap p).map RfsPath.id = some r.id) :
    (s.addFlt p r m f rt).ids = s.ids :=
  Reg.ids_congr (Reg.addFlt_list ..) (Reg.reads_update _ (Reg.addFlt_heap ..) fun _ => by simp [h])

/-- References taken and given back keep the ids. -/
theorem Reg.ids_refMoves (hs : RegInv s) (h : Relation.ReflTransGen RefMove s t) : t.ids = s.ids :=
  let hr := RefMoves.reads (g := RfsPath.id) (fun _ _ => rfl) hs h
  Reg.ids_congr hr.1 hr.2

/-- A registration appends the id `rfs_path_get_id` found. -/
theorem Reg.ids_register (hs : RegInv s) (mnt dentry : Nat) (m : Mode) (f : Flt) :
    (s.register mnt dentry m f).ids = s.ids ++ [rfsPathGetId s] := by
  unfold Reg.ids
  rw [Reg.register_list, Reg.register_heap, List.filterMap_append]
  congr 1
  · refine List.filterMap_congr fun q hq => ?_
    rw [Function.update_noteq (by rintro rfl; exact hs.next_not_mem hq)]
  · simp [Reg.newPath]

end Frame

/-! ### The moves -/

/-- **What a move without removal does to the ids**: it keeps them, or
registers a Path and appends the id `rfs_path_get_id` found. -/
theorem Move.ids {s s' : Reg} (hs : RegInv s) :
    Move false s s' → s'.ids = s.ids ∨ s'.ids = s.ids ++ [rfsPathGetId s]
  | .add ho => by
    cases ho with
    | fail => exact .inl rfl
    | failNew => exact .inl rfl
    | held _ hr => exact .inl (Reg.ids_grab hr)
    | add _ hr _ _ _ =>
      exact .inl ((Reg.ids_addFlt _ _ _ (by simp [Reg.grab, Reg.setPath])).trans (Reg.ids_grab hr))
    | new _ => exact .inr (Reg.ids_register hs _ _ _ _)
  | .ref h => .inl (Reg.ids_refMoves hs (.single h))

/-- **What a call without removal does to the ids**: it keeps them, or
registers a Path and appends the id `rfs_path_get_id` found. -/
theorem apiStep_ids {s s' : Reg} (hs : RegInv s) {c : Call} (hno : c.removes = false)
    (hc : c.held s = true) {ret : Ret} (h : apiStep s c = .ok (ret, s')) :
    s'.ids = s.ids ∨ s'.ids = s.ids ++ [rfsPathGetId s] := by
  rcases Call.refOnly_of_removes hno with hr | ⟨φ, filter, info, rfl⟩
  · exact .inl (Reg.ids_refMoves hs (apiStep_refMoves hs hc hr h))
  · obtain ⟨⟨res, t⟩, hx, he⟩ := Except.map_eq_ok h
    cases he
    exact Move.ids hs (.add (redirfsAddPath_outcome hs hx))

/-- Ids `0, …, n - 1` in list order stay so, for one more Path or not. -/
theorem Move.ids_range {s s' : Reg} (hs : RegInv s) (hm : Move false s s') :
    (∃ n : Nat, s.ids = (List.range n).map Nat.cast) → ∃ n : Nat, s'.ids = (List.range n).map Nat.cast
  | ⟨n, hn⟩ => by
    rcases Move.ids hs hm with e | e
    · exact ⟨n, e.trans hn⟩
    · refine ⟨n + 1, ?_⟩
      rw [e, rfsPathGetId_eq, hn, idPass_range, List.range_succ, List.map_append]
      rfl

/-! ### Looking a Path up by its id -/

/-- On a list whose ids have no repeat, the first Path with a Path's id is that
Path. -/
theorem find?_id_of_nodup (heap : Nat → Option RfsPath) {k : Int} :
    ∀ {l : List Nat} {p : Nat}, (l.filterMap fun q => (heap q).map (·.id)).Nodup → p ∈ l →
      (heap p).map (·.id) = some k → l.find? (fun q => (heap q).any (·.id == k)) = some p
  | q :: l, p, hn, hp, hk => by
    have hany : ∀ q, (heap q).any (·.id == k) = ((heap q).map (·.id) == some k) := fun q => by
      cases heap q <;> rfl
    by_cases hpq : p = q
    · subst hpq
      rw [List.find?_cons_of_pos _ (by simp [hany, hk])]
    have hp' : p ∈ l := (List.mem_cons.1 hp).resolve_left hpq
    by_cases hq : (heap q).map (·.id) = some k
    · rw [List.filterMap_cons_some (f := fun q => (heap q).map (·.id)) hq] at hn
      exact absurd (List.mem_filterMap.2 ⟨p, hp', hk⟩) (List.nodup_cons.1 hn).1
    · rw [List.find?_cons_of_neg _ (by rw [hany]; simpa using hq)]
      exact find?_id_of_nodup heap (((List.sublist_cons_self q l).filterMap _).nodup hn) hp' hk

/-! ### Runs -/

/-- Under the invariant every registered Path has an id. -/
theorem RegInv.length_ids {s : Reg} (hs : RegInv s) : s.ids.length = s.list.length :=
  List.filterMap_length_eq_length.2 fun p hp => by
    obtain ⟨r, hr, -⟩ := hs.registered p hp
    simp [hr]

/-- Ids `0, …, n - 1` in list order stay so along a run without removals. -/
theorem Reg.ids_range_of_run {cs : List Call} {s : Reg} (rootOf : Nat → Nat)
    (hno : ∀ c ∈ cs, c.removes = false) (hh : (Reg.init rootOf).heldAlong cs = true)
    (h : (Reg.init rootOf).run cs = .ok s) : ∃ n : Nat, s.ids = (List.range n).map Nat.cast :=
  (Moves.preserves _ (fun hs hm => Move.ids_range hs hm) (RegInv.init rootOf)
    (Reg.run_moves cs (.init rootOf) hno hh h) ⟨0, rfl⟩).1

/-- **Without removals the ids are `0, …, n - 1`.** In every run from a
freshly loaded module that never unregisters a Path, and in which every call
is given only handles its caller holds, the ids of the Paths on
`rfs_path_list` are `0, 1, …, n - 1` in list order, for `n` Paths: each
`rfs_path_add` gave its Path the least id not in use, and the next one gets
`n`. Every further call without removal, given only handles its caller
holds, keeps the ids or appends `n`. -/
theorem ids_of_run_without_removals (rootOf : Nat → Nat) {cs : List Call} {s : Reg}
    (hno : ∀ c ∈ cs, c.removes = false) (hh : (Reg.init rootOf).heldAlong cs = true)
    (h : (Reg.init rootOf).run cs = .ok s) :
    s.ids = (List.range s.list.length).map Nat.cast ∧ rfsPathGetId s = s.list.length ∧
      ∀ (c : Call) (ret : Ret) (s' : Reg), c.removes = false → c.held s = true →
        apiStep s c = .ok (ret, s') → s'.ids = s.ids ∨ s'.ids = s.ids ++ [(s.list.length : Int)] := by
  obtain ⟨n, hn⟩ := Reg.ids_range_of_run rootOf hno hh h
  have hs := RegInv.of_reachable ((Reachable.init rootOf).run h hh)
  have hlen := hs.length_ids
  rw [hn, List.length_map, List.length_range] at hlen
  have hget : rfsPathGetId s = s.list.length := by rw [rfsPathGetId_eq, hn, idPass_range, hlen]
  refine ⟨by rw [hn, hlen], hget, fun c ret s' hno' hc h' => ?_⟩
  rw [← hget]
  exact apiStep_ids hs hno' hc h'

/-- Dentries 10 and 11 registered for filter 7, the first one again for
filter 8, and a handle on it taken and given back. -/
def noRemovalRun : List Call :=
  [.addPath noFaults (some 7) (some ⟨some 1, some 10, Mode.include.flags⟩),
    .addPath noFaults (some 7) (some ⟨some 1, some 11, Mode.exclude.flags⟩),
    .addPath noFaults (some 8) (some ⟨some 1, some 10, Mode.include.flags⟩),
    .getPath (some 0), .putPath (some 0)]

theorem ids_of_run_without_removals_noRemovalRun :
    (∀ c ∈ noRemovalRun, c.removes = false) ∧ (Reg.init fun _ => 0).heldAlong noRemovalRun = true ∧
      ∃ s, (Reg.init fun _ => 0).run noRemovalRun = .ok s ∧
        s.ids = (List.range s.list.length).map Nat.cast ∧ rfsPathGetId s = s.list.length ∧
        ∀ (c : Call) (ret : Ret) (s' : Reg), c.removes = false → c.held s = true →
          apiStep s c = .ok (ret, s') → s'.ids = s.ids ∨ s'.ids = s.ids ++ [(s.list.length : Int)] :=
  ⟨by decide, rfl, _, rfl, ids_of_run_without_removals (fun _ => 0)
    (show ∀ c ∈ noRemovalRun, c.removes = false by decide) rfl rfl⟩

/-- **Without removals a Path's id finds it.** In every run from a freshly
loaded module that never unregisters a Path, and in which every call is given
only handles its caller holds, `redirfs_get_path_id` of the id
`redirfs_get_id_path` reads from a registered Path hands out that Path, with a
reference on it. -/
theorem redirfsGetPathId_getIdPath (rootOf : Nat → Nat) {cs : List Call} {s : Reg}
    (hno : ∀ c ∈ cs, c.removes = false) (hh : (Reg.init rootOf).heldAlong cs = true)
    (h : (Reg.init rootOf).run cs = .ok s) {p : Nat} (hp : p ∈ s.list) :
    ∃ id r, redirfsGetIdPath (some p) s = .ok id ∧ s.heap p = some r ∧
      redirfsGetPathId id s = .ok (some p, s.grab p r) := by
  have hs := RegInv.of_reachable ((Reachable.init rootOf).run h hh)
  obtain ⟨r, hr, -⟩ := hs.registered p hp
  obtain ⟨n, hn⟩ := Reg.ids_range_of_run rootOf hno hh h
  have hnd : s.ids.Nodup := hn ▸ (List.nodup_range n).map fun _ _ => Int.ofNat_inj.1
  refine ⟨r.id, r, by simp [redirfsGetIdPath, Reg.deref_of_heap hr], hr,
    redirfsGetPathId_found ?_ hr (hs.count_ne_zero hr)⟩
  exact find?_id_of_nodup s.heap hnd hp (by rw [hr]; rfl)

theorem redirfsGetPathId_getIdPath_noRemovalRun :
    (∀ c ∈ noRemovalRun, c.removes = false) ∧ (Reg.init fun _ => 0).heldAlong noRemovalRun = true ∧
      ∃ s, (Reg.init fun _ => 0).run noRemovalRun = .ok s ∧ 1 ∈ s.list ∧
        ∃ id r, redirfsGetIdPath (some 1) s = .ok id ∧ s.heap 1 = some r ∧
          redirfsGetPathId id s = .ok (some 1, s.grab 1 r) :=
  ⟨by decide, rfl, _, rfl, by decide, redirfsGetPathId_getIdPath (fun _ => 0)
    (show ∀ c ∈ noRemovalRun, c.removes = false by decide) rfl rfl (by decide)⟩

end RedirFS
