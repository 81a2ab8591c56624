import RedirFS.Registry.Safety
import RedirFS.Registry.Moves

/-!
# `redirfs_rem_paths` interleaved with the other calls

`RedirFS.Reachable` runs each exported function as one step. That is what
`rfs_path_mutex` gives `redirfs_add_path`, `redirfs_rem_path` and
`redirfs_get_paths`, which hold it throughout, and what the atomic reference
counts give `redirfs_get_path` and `redirfs_put_path`.
`redirfs_get_paths_root` holds its root's spinlock instead. Two functions do
not fit:

* `redirfs_rem_paths` takes the mutex only inside the calls it makes: inside
  `redirfs_get_paths`, then inside each `redirfs_rem_path` of its loop. Any
  other call may run between two of them.
* `redirfs_get_path_id` walks `rfs_path_list` with no lock at all. Here it is
  assumed not to overlap a change of the list.

This file runs `redirfs_rem_paths` as its pieces (`RedirFS.Act`). A run under
way (`RedirFS.RemPathsRun`) keeps its filter, its array, the handles it has
still to pass to `redirfs_rem_path`, and its `rv`. `RedirFS.Sys.Reachable` is
every state that an interleaving of these pieces with the other calls reaches.
The callers pass only handles they hold. A handle in the array of a run under
way is not theirs: the run gives it back.

Two results:

* Every state of an interleaving has a registry that a run of whole calls
  reaches (`RedirFS.Sys.Reachable.inv`). So every invariant of the registry
  holds under interleaving as well. The reason is that each piece is one call
  of the API, and the array's handles are counted among the callers' ghost
  handles.
* A step of an interleaving goes wrong only in `redirfs_rem_path` on a Path
  that is no longer registered (`RedirFS.Sys.step_safe`). That covers a
  caller's call and the loop of `redirfs_rem_paths` alike. The loop can meet
  such a Path. Its array holds the Path, but the Path's registering caller may
  remove the same filter from it between `redirfs_get_paths` and the loop.
  When that was the Path's last filter, `redirfs_rem_path` then hands the
  Path's NULL `rroot` to the root collaborator (`RedirFS.Sys.step_safe_stale`).
-/

namespace RedirFS

/-! ### The pieces of `redirfs_rem_paths` -/

/-- A `redirfs_rem_paths` between two of its locked pieces: its filter, the
array `redirfs_get_paths` gave it, the handles of the array it has not yet
passed to `redirfs_rem_path`, which are the array's tail, and its `rv`. -/
structure RemPathsRun where
  filter : Flt
  refs : List Nat
  todo : List Nat
  rv : Int
  todo_suffix : todo <:+ refs

/-- The run once `redirfs_get_paths` gave it its array; `rv` is what its
uninitialised variable holds. -/
def RemPathsRun.begin (f : Flt) (ps : List Nat) (rv : Int) : RemPathsRun :=
  ⟨f, ps, ps, rv, List.suffix_refl ps⟩

/-- The run once `redirfs_rem_path` on its next handle returned `rv`: the loop
goes on with the handle after it, or breaks on a nonzero value. -/
def RemPathsRun.next (r : RemPathsRun) (rv : Int) : RemPathsRun where
  filter := r.filter
  refs := r.refs
  todo := if rv ≠ 0 then [] else r.todo.tail
  rv := rv
  todo_suffix := by
    split_ifs
    · exact List.nil_suffix
    · exact (List.tail_suffix _).trans r.todo_suffix

/-- The registry, and the runs of `redirfs_rem_paths` under way. -/
structure Sys where
  reg : Reg
  runs : List RemPathsRun

/-- The handles the arrays of the runs under way hold. -/
def Sys.inFlight (S : Sys) : List Nat := S.runs.flatMap RemPathsRun.refs

/-- The functions that run as one step: all but `redirfs_rem_paths`. -/
def Call.oneStep : Call → Bool
  | .remPaths .. => false
  | _ => true

/-- A step of an interleaving. -/
inductive Act
  /-- A whole call of any function but `redirfs_rem_paths`. -/
  | call (c : Call)
  /-- `redirfs_rem_paths` begins: its test of the filter, then
  `redirfs_get_paths`; `rv` is what its uninitialised variable holds. -/
  | start (φ : Faults) (rv : Int) (filter : Option Flt)
  /-- The `k`-th run under way calls `redirfs_rem_path` on its next handle. -/
  | next (k : Nat) (φ : Faults)
  /-- The `k`-th run, its loop over, gives back its array and returns. -/
  | finish (k : Nat)

/-- One step: what it returns to a caller, if it returns, and the state
after it; `none` when there is no such step (no `k`-th run, or one not at that
point). -/
def Sys.step (S : Sys) : Act → Option (Except Oops (Option Ret × Sys))
  | .call c =>
    if c.oneStep then some ((apiStep S.reg c).map fun (ret, reg) => (some ret, ⟨reg, S.runs⟩)) else none
  | .start _ _ none => some (.ok (some (.rv (-EINVAL)), S))
  | .start φ rv (some f) => some ((redirfsGetPaths φ (some f) S.reg).map fun
      | (.error e, reg) => (some (.rv e), ⟨reg, S.runs⟩)
      | (.ok ps, reg) => (none, ⟨reg, S.runs ++ [.begin f ps rv]⟩))
  | .next k φ => S.runs[k]?.bind fun r => r.todo.head?.map fun p =>
      (redirfsRemPath φ (some r.filter) (some p) S.reg).map fun (rv, reg) =>
        (none, ⟨reg, S.runs.set k (r.next rv)⟩)
  | .finish k => S.runs[k]?.bind fun r =>
      if r.todo = [] then
        some ((redirfsPutPaths r.refs S.reg).map fun reg => (some (.rv r.rv), ⟨reg, S.runs.eraseIdx k⟩))
      else none

/-- The callers' part of the contract: a handle a call is given is one its
caller holds, not one of the array of a run under way. -/
def Act.held (S : Sys) : Act → Bool
  | .call c => c.held { S.reg with handles := S.reg.handles.diff S.inFlight }
  | _ => true

/-- The states the interleavings reach from a freshly loaded module. -/
inductive Sys.Reachable : Sys → Prop
  | init (rootOf : Nat → Nat) : Sys.Reachable ⟨Reg.init rootOf, []⟩
  | step {S S' : Sys} {a : Act} {out : Option Ret} :
      Sys.Reachable S → a.held S = true → S.step a = some (.ok (out, S')) → Sys.Reachable S'

/-! ### Counting the arrays' handles -/

section Count

variable {α : Type} (g : α → List Nat)

theorem flatMap_set_of_eq {a b : α} (hg : g a = g b) :
    ∀ (l : List α) (k : Nat), l[k]? = some b → (l.set k a).flatMap g = l.flatMap g
  | [], _, h => by simp at h
  | _ :: _, 0, h => by simp_all
  | x :: l, k + 1, h => by
    simp only [List.set_cons_succ, List.flatMap_cons, flatMap_set_of_eq hg l k (by simpa using h)]

theorem count_flatMap_eraseIdx (q : Nat) {b : α} :
    ∀ (l : List α) (k : Nat), l[k]? = some b →
      ((l.eraseIdx k).flatMap g).count q + (g b).count q = (l.flatMap g).count q
  | [], _, h => by simp at h
  | _ :: _, 0, h => by simp_all [Nat.add_comm]
  | x :: l, k + 1, h => by
    simp only [List.eraseIdx_cons_succ, List.flatMap_cons, List.count_append]
    have := count_flatMap_eraseIdx q l k (by simpa using h)
    omega

end Count

/-- A call given handles from a list that the callers' ghost list counts is
given handles its caller holds. -/
theorem Call.held_mono {c : Call} {s : Reg} {hd : List Nat} (h : c.held { s with handles := hd } = true)
    (hle : ∀ q, hd.count q ≤ s.handles.count q) : c.held s = true := by
  have hmem : ∀ p ∈ hd, p ∈ s.handles := fun p hp =>
    List.count_pos_iff.1 ((List.count_pos_iff.2 hp).trans_le (hle p))
  cases c with
  | remPath _ _ path | getPath path | putPath path =>
    cases path with
    | none => rfl
    | some p => simpa [Call.held] using hmem p (by simpa [Call.held] using h)
  | putPaths ps =>
    simp only [Call.held, List.all_eq_true, decide_eq_true_eq] at h ⊢
    exact fun p hp => (h p hp).trans (hle p)
  | _ => rfl

/-- The handles a call gives back. -/
def Call.gives : Call → List Nat
  | .putPath (some p) => [p]
  | .putPaths ps => ps
  | _ => []

theorem Call.count_gives_le {s : Reg} {c : Call} (hc : c.held s = true) (q : Nat) :
    c.gives.count q ≤ s.handles.count q := by
  cases c with
  | putPath path =>
    cases path with
    | none => simp [Call.gives]
    | some p =>
      have hp : p ∈ s.handles := by simpa [Call.held] using hc
      simp only [Call.gives, List.count_singleton]
      split
      · next hq => exact List.count_pos_iff.2 (by simpa [beq_iff_eq.1 hq] using hp)
      · exact Nat.zero_le _
  | putPaths ps => exact Call.held_putPaths hc q
  | _ => simp [Call.gives]

section Handles

variable {s s' : Reg}

/-- **A call takes from the callers only what it is given to give back.**
Every handle the callers hold before a call of one step, but those it gives
back, they hold after it. -/
theorem apiStep_handles (hs : RegInv s) {c : Call} (hc : c.held s = true) (h1 : c.oneStep = true)
    {ret : Ret} (h : apiStep s c = .ok (ret, s')) (q : Nat) :
    s.handles.count q ≤ s'.handles.count q + c.gives.count q := by
  cases c with
  | addPath φ filter info =>
    obtain ⟨⟨res, t⟩, hx, he⟩ := Except.map_eq_ok h
    cases he
    cases redirfsAddPath_outcome hs hx <;> simp [Reg.grab, Call.gives]
  | remPath φ filter path =>
    obtain ⟨⟨rv, t⟩, hx, he⟩ := Except.map_eq_ok h
    cases he
    rw [(redirfsRemPath_outcome hs (fun p hp => by subst hp; simpa [Call.held] using hc) hx).handles]
    exact Nat.le_add_right _ _
  | remPaths => cases h1
  | getPathId id =>
    obtain ⟨⟨res, t⟩, hx, he⟩ := Except.map_eq_ok h
    cases he
    cases hk : s.firstOn (fun r => r.id == id) with
    | none => rw [redirfsGetPathId_none hk] at hx; cases hx; simp [Call.gives]
    | some p =>
      obtain ⟨-, r, hr, -⟩ := firstOn_some hk
      rw [redirfsGetPathId_found hk hr (hs.count_ne_zero hr)] at hx
      cases hx
      simp [Reg.grab, Call.gives]
  | getPath path =>
    obtain ⟨⟨res, t⟩, hx, he⟩ := Except.map_eq_ok h
    cases he
    cases path with
    | none => cases hx; simp [Call.gives]
    | some p =>
      obtain ⟨r, hr⟩ := hs.heap_of_held (by simpa [Call.held] using hc)
      rw [redirfsGetPath_eq hr (hs.count_ne_zero hr)] at hx
      cases hx
      simp [Reg.grab, Call.gives]
  | putPath path =>
    obtain ⟨t, hx, he⟩ := Except.map_eq_ok h
    cases he
    cases path with
    | none => cases hx; simp [Call.gives]
    | some p =>
      have hh : p ∈ s.handles := by simpa [Call.held] using hc
      obtain ⟨r, hr⟩ := hs.heap_of_held hh
      rw [redirfsPutPath_eq hr (hs.count_ne_zero hr)] at hx
      cases hx
      have hpos := List.count_pos_iff.2 hh
      simp only [Reg.release, Call.gives, List.count_erase, List.count_singleton]
      split <;> simp_all
  | getPaths φ filter =>
    obtain ⟨⟨res, t⟩, hx, he⟩ := Except.map_eq_ok h
    cases he
    cases filter with
    | none => cases hx; simp [Call.gives]
    | some f =>
      cases ha : φ.alloc
      · rw [redirfsGetPaths_eq hs f ha] at hx; cases hx; simp [Call.gives]
      · simp only [redirfsGetPaths, ha, if_true] at hx; cases hx; simp [Call.gives]
  | getPathsRoot φ filter root =>
    obtain ⟨⟨res, t⟩, hx, he⟩ := Except.map_eq_ok h
    cases he
    match filter, root, hx with
    | some f, some rt, hx =>
      cases ha : φ.alloc
      · rw [redirfsGetPathsRoot_eq hs f rt ha] at hx; cases hx; simp [Call.gives]
      · simp only [redirfsGetPathsRoot, ha, if_true] at hx; cases hx; simp [Call.gives]
    | none, _, hx => cases hx; simp [Call.gives]
    | some _, none, hx => cases hx; simp [Call.gives]
  | putPaths ps =>
    obtain ⟨t, hx, he⟩ := Except.map_eq_ok h
    cases he
    obtain ⟨u, hu, -, hcount⟩ := RegInv.putPaths ps hs (Call.held_putPaths hc)
    rw [hx] at hu
    cases hu
    exact (hcount q).ge

end Handles

/-! ### The invariant of an interleaving -/

/-- What every state of an interleaving has: its registry is one a run of
whole calls reaches, and the arrays of the runs under way hold only handles
the callers' ghost list counts. -/
structure SysInv (S : Sys) : Prop where
  reachable : Reachable S.reg
  inFlight : ∀ q, S.inFlight.count q ≤ S.reg.handles.count q

section Inv

variable {S S' : Sys}

/-- The callers' own handles and the arrays' handles make up the ghost list. -/
theorem SysInv.count_free (hS : SysInv S) (q : Nat) :
    (S.reg.handles.diff S.inFlight).count q + S.inFlight.count q = S.reg.handles.count q := by
  have := (List.subperm_append_diff_self_of_count_le fun x _ => hS.inFlight x).count_eq q
  rw [List.count_append] at this
  omega

/-- The array of a run under way holds handles the ghost list counts. -/
theorem SysInv.count_refs (hS : SysInv S) {k : Nat} {r : RemPathsRun} (hk : S.runs[k]? = some r)
    (q : Nat) : r.refs.count q ≤ S.reg.handles.count q := by
  have := count_flatMap_eraseIdx RemPathsRun.refs q S.runs k hk
  have := hS.inFlight q
  unfold Sys.inFlight at *
  omega

/-- A caller's call, given only handles the callers hold. -/
theorem SysInv.held_call (hS : SysInv S) {c : Call} (ha : (Act.call c).held S = true) :
    c.held S.reg = true :=
  Call.held_mono ha fun q => by have := hS.count_free q; omega

/-- A handle a run under way has still to pass to `redirfs_rem_path` is one
the ghost list counts. -/
theorem SysInv.mem_handles (hS : SysInv S) {k : Nat} {r : RemPathsRun} (hk : S.runs[k]? = some r)
    {p : Nat} (hp : p ∈ r.todo) : p ∈ S.reg.handles :=
  List.count_pos_iff.1 ((List.count_pos_iff.2 (r.todo_suffix.subset hp)).trans_le (hS.count_refs hk p))

/-- A whole call: one of the API. -/
theorem Sys.step_call {c : Call} {x : Except Oops (Option Ret × Sys)} (h : S.step (.call c) = some x) :
    c.oneStep = true ∧ x = (apiStep S.reg c).map fun (ret, reg) => (some ret, ⟨reg, S.runs⟩) := by
  simp only [Sys.step] at h
  split_ifs at h with h1
  exact ⟨h1, (Option.some.inj h).symm⟩

/-- A step of the loop of the `k`-th run: `redirfs_rem_path` on the next
handle of its array. -/
theorem Sys.step_next {k : Nat} {φ : Faults} {x : Except Oops (Option Ret × Sys)}
    (h : S.step (.next k φ) = some x) :
    ∃ r p, S.runs[k]? = some r ∧ r.todo.head? = some p ∧
      x = (redirfsRemPath φ (some r.filter) (some p) S.reg).map fun (rv, reg) =>
        (none, ⟨reg, S.runs.set k (r.next rv)⟩) := by
  simp only [Sys.step, Option.bind_eq_some, Option.map_eq_some'] at h
  obtain ⟨r, hk, p, hp, rfl⟩ := h
  exact ⟨r, p, hk, hp, rfl⟩

/-- The end of the `k`-th run: `redirfs_put_paths` of its array. -/
theorem Sys.step_finish {k : Nat} {x : Except Oops (Option Ret × Sys)} (h : S.step (.finish k) = some x) :
    ∃ r, S.runs[k]? = some r ∧
      x = (redirfsPutPaths r.refs S.reg).map fun reg => (some (.rv r.rv), ⟨reg, S.runs.eraseIdx k⟩) := by
  simp only [Sys.step, Option.bind_eq_some] at h
  obtain ⟨r, hk, h⟩ := h
  split_ifs at h
  exact ⟨r, hk, (Option.some.inj h).symm⟩

/-- **Every step keeps the invariant.** -/
theorem SysInv.step (hS : SysInv S) {a : Act} (ha : a.held S = true) {out : Option Ret}
    (h : S.step a = some (.ok (out, S'))) : SysInv S' := by
  have hs := RegInv.of_reachable hS.reachable
  cases a with
  | call c =>
    obtain ⟨h1, hx₀⟩ := Sys.step_call h
    obtain ⟨⟨ret, reg⟩, hx, he⟩ := Except.map_eq_ok hx₀.symm
    cases he
    have hc := hS.held_call ha
    refine ⟨hS.reachable.step hc hx, fun q => ?_⟩
    have := apiStep_handles hs hc h1 hx q
    have := Call.count_gives_le ha q
    have := hS.count_free q
    exact (show S.inFlight.count q ≤ reg.handles.count q by simp only at *; omega)
  | start φ rv filter =>
    cases filter with
    | none =>
      simp only [Sys.step, Option.some.injEq, Except.ok.injEq, Prod.mk.injEq] at h
      exact h.2 ▸ hS
    | some f =>
      simp only [Sys.step, Option.some.injEq] at h
      obtain ⟨⟨res, reg⟩, hx, he⟩ := Except.map_eq_ok h
      have hstep : apiStep S.reg (.getPaths φ (some f)) = .ok (.paths res, reg) := by rw [apiStep, hx]; rfl
      cases ha' : φ.alloc
      · rw [redirfsGetPaths_eq hs f ha'] at hx
        cases hx
        cases he
        refine ⟨hS.reachable.step (c := .getPaths φ (some f)) rfl hstep, fun q => ?_⟩
        have := hS.inFlight q
        simp only [Sys.inFlight, List.flatMap_append, List.flatMap_cons, List.flatMap_nil, List.append_nil,
          List.count_append, RemPathsRun.begin] at this ⊢
        omega
      · simp only [redirfsGetPaths, ha', if_true] at hx
        cases hx
        cases he
        exact ⟨hS.reachable.step (c := .getPaths φ (some f)) rfl hstep, hS.inFlight⟩
  | next k φ =>
    obtain ⟨r, p, hk, hp, hx₀⟩ := Sys.step_next h
    obtain ⟨⟨rv, reg⟩, hx, he⟩ := Except.map_eq_ok hx₀.symm
    cases he
    have hh := hS.mem_handles hk (List.mem_of_mem_head? hp)
    refine ⟨hS.reachable.step (c := .remPath φ (some r.filter) (some p)) (by simpa [Call.held] using hh)
      (by rw [apiStep, hx]; rfl), fun q => ?_⟩
    show ((S.runs.set k (r.next rv)).flatMap RemPathsRun.refs).count q ≤ reg.handles.count q
    rw [flatMap_set_of_eq RemPathsRun.refs (a := r.next rv) (b := r) rfl S.runs k hk,
      (redirfsRemPath_outcome hs (by rintro q ⟨⟩; exact hh) hx).handles]
    exact hS.inFlight q
  | finish k =>
    obtain ⟨r, hk, hx₀⟩ := Sys.step_finish h
    obtain ⟨reg, hx, he⟩ := Except.map_eq_ok hx₀.symm
    cases he
    have hle := hS.count_refs hk
    obtain ⟨u, hu, -, hcount⟩ := RegInv.putPaths r.refs hs hle
    rw [hx] at hu
    cases hu
    refine ⟨hS.reachable.step (c := .putPaths r.refs) (List.all_eq_true.2 fun p _ => decide_eq_true (hle p))
      (by rw [apiStep, hx]; rfl), fun q => ?_⟩
    show ((S.runs.eraseIdx k).flatMap RemPathsRun.refs).count q ≤ reg.handles.count q
    have := count_flatMap_eraseIdx RemPathsRun.refs q S.runs k hk
    have := hS.inFlight q
    have := hcount q
    unfold Sys.inFlight at *
    omega

/-- **Every state of an interleaving has a registry a run of whole calls
reaches**, so every invariant of the registry holds under interleaving, and
the arrays of the runs under way hold only references the registry
counts. -/
theorem Sys.Reachable.inv (h : Sys.Reachable S) : SysInv S := by
  induction h with
  | init rootOf => exact ⟨.init rootOf, fun q => by simp [Sys.inFlight]⟩
  | step _ ha hstep ih => exact ih.step ha hstep

end Inv

/-! ### The one step that goes wrong -/

/-- The handle a step passes to `redirfs_rem_path`, if it is that function: a
caller's call, or the next call of the loop of a run. -/
def Sys.remTarget (S : Sys) : Act → Option Nat
  | .call c => c.remTarget
  | .next k _ => S.runs[k]?.bind fun r => r.todo.head?
  | _ => none

theorem Except.map_eq_error {ε α β : Type} {f : α → β} {x : Except ε α} {e : ε} :
    x.map f = .error e ↔ x = .error e := by
  cases x <;> simp [Except.map]

/-- A step that returns is safe, and is not the step that goes wrong. -/
theorem safe_of_ok {x : Except Oops (Option Ret × Sys)} {P : Prop} (hx : ∃ y, x = .ok y) (hP : ¬P) :
    ((∃ out S', x = .ok (out, S')) ∨ x = .error .nullRroot) ∧ (x = .error .nullRroot ↔ P) := by
  obtain ⟨⟨out, S'⟩, rfl⟩ := hx
  exact ⟨.inl ⟨out, S', rfl⟩, ⟨fun h => (by cases h), fun h => absurd h hP⟩⟩

/-- **The one step that goes wrong, under every interleaving.** From every
state an interleaving of the pieces of `redirfs_rem_paths` with the other
calls reaches, every step whose caller passes only handles it holds returns,
with every outcome of the collaborators, or stops on a NULL `rroot`; and it
stops exactly when it is `redirfs_rem_path` on a Path that is no longer
registered, a caller's or one of the loop of `redirfs_rem_paths`. -/
theorem Sys.step_safe {S : Sys} (h : Sys.Reachable S) {a : Act} (ha : a.held S = true)
    {x : Except Oops (Option Ret × Sys)} (hx : S.step a = some x) :
    ((∃ out S', x = .ok (out, S')) ∨ x = .error .nullRroot) ∧
      (x = .error .nullRroot ↔ ∃ p, S.remTarget a = some p ∧ p ∉ S.reg.list) := by
  have hS := h.inv
  have hs := RegInv.of_reachable hS.reachable
  cases a with
  | call c =>
    obtain ⟨-, rfl⟩ := Sys.step_call hx
    obtain ⟨hok, hiff⟩ := apiStep_safe hS.reachable c (hS.held_call ha)
    refine ⟨?_, Except.map_eq_error.trans hiff⟩
    rcases hok with ⟨ret, s', he⟩ | he
    · exact .inl ⟨_, _, by rw [he]; rfl⟩
    · exact .inr (Except.map_eq_error.2 he)
  | start φ rv filter =>
    refine safe_of_ok ?_ (by simp [Sys.remTarget])
    cases filter with
    | none => cases hx; exact ⟨_, rfl⟩
    | some f =>
      cases ha' : φ.alloc
      · simp only [Sys.step, redirfsGetPaths_eq hs f ha', Option.some.injEq] at hx
        exact ⟨_, hx.symm⟩
      · simp only [Sys.step, redirfsGetPaths, ha', if_true, Option.some.injEq] at hx
        exact ⟨_, hx.symm⟩
  | next k φ =>
    obtain ⟨r, p, hk, hp, rfl⟩ := Sys.step_next hx
    obtain ⟨hok, hiff⟩ := apiStep_safe hS.reachable (.remPath φ (some r.filter) (some p))
      (by simpa [Call.held] using hS.mem_handles hk (List.mem_of_mem_head? hp))
    rw [show S.remTarget (.next k φ) = some p by simp [Sys.remTarget, hk, hp]]
    refine ⟨?_, Except.map_eq_error.trans (Except.map_eq_error.symm.trans (hiff.trans ?_))⟩
    · rcases hok with ⟨ret, s', he⟩ | he
      · obtain ⟨⟨rv, t⟩, he', -⟩ := Except.map_eq_ok he
        exact .inl ⟨_, _, by rw [he']; rfl⟩
      · exact .inr (Except.map_eq_error.2 (Except.map_eq_error.1 he))
    · simp [Call.remTarget]
  | finish k =>
    obtain ⟨r, hk, rfl⟩ := Sys.step_finish hx
    obtain ⟨u, hu, -⟩ := RegInv.putPaths r.refs hs (hS.count_refs hk)
    exact safe_of_ok ⟨_, by rw [hu]; rfl⟩ (by simp [Sys.remTarget])

/-- The filter's `redirfs_rem_paths` has taken its array, when the caller that
registered the filter's one Path removes the filter from it: the loop's
`redirfs_rem_path` meets a Path no longer registered. -/
theorem Sys.step_safe_stale :
    ∃ S : Sys, Sys.Reachable S ∧ (Act.next 0 noFaults).held S = true ∧
      S.step (.next 0 noFaults) = some (.error .nullRroot) ∧
        ∃ p, S.remTarget (.next 0 noFaults) = some p ∧ p ∉ S.reg.list := by
  have h₁ := Sys.Reachable.step (.init fun _ => 0) (a := .call (addInclude 10)) rfl rfl
  have h₂ := Sys.Reachable.step h₁ (a := .start noFaults 0 (some 7)) rfl rfl
  have h₃ := Sys.Reachable.step h₂ (a := .call (.remPath noFaults (some 7) (some 0))) rfl rfl
  exact ⟨_, h₃, rfl, rfl, (Sys.step_safe h₃ (a := .next 0 noFaults) rfl rfl).2.1 rfl⟩

end RedirFS
