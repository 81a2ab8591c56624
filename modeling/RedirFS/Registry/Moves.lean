import Mathlib.Logic.Relation
import RedirFS.Registry.Preserve

/-!
# What a call does, move by move

Every call of the API, from a state with the invariant and given only handles
its caller holds, is a sequence of moves of three kinds (`RedirFS.Move`): an
outcome of `redirfs_add_path`, an outcome of `redirfs_rem_path`, and a
reference move (`RedirFS.RefMove`: a reference taken, a reference given back,
or a reference taken on each Path of an array) (`RedirFS.apiStep_moves`). Only
`redirfs_rem_path` and `redirfs_rem_paths` make moves of the second kind, and
every call but the three that register and unregister makes reference moves
only (`RedirFS.apiStep_refMoves`), which change no list and nothing of a
registered Path but its count (`RedirFS.RefMoves.reads`).

A property every move keeps is kept along every sequence of moves
(`RedirFS.Moves.preserves`): a property of whole runs then needs one lemma per
kind of move, and none about the calls.
-/

namespace RedirFS

open Relation

/-- The calls that unregister Paths: `redirfs_rem_path` and
`redirfs_rem_paths`. -/
def Call.removes : Call → Bool
  | .remPath .. => true
  | .remPaths .. => true
  | _ => false

/-- A move that only takes or gives back references. -/
inductive RefMove : Reg → Reg → Prop
  /-- `rfs_path_get`, and the handle the caller gets. -/
  | grab {s : Reg} {p : Nat} {r : RfsPath} : s.heap p = some r → RefMove s (s.grab p r)
  /-- `rfs_path_put` of a handle the caller holds. -/
  | release {s : Reg} {p : Nat} {r : RfsPath} : p ∈ s.handles → s.heap p = some r →
      RefMove s (s.release p r)
  /-- A reference on each registered Path of an array, and the handles the
  caller gets. -/
  | takeRefs {s : Reg} {qs : List Nat} : (∀ q ∈ qs, q ∈ s.list) →
      RefMove s { s.takeRefs qs with handles := s.handles ++ qs }

/-- One move of a call; a move of `redirfs_rem_path` only when `rm` allows
it. -/
inductive Move : Bool → Reg → Reg → Prop
  /-- What `redirfs_add_path` does. -/
  | add {rm : Bool} {s s' : Reg} {res : Except Int Nat} : AddOutcome s res s' → Move rm s s'
  /-- What `redirfs_rem_path` does on a handle its caller holds. -/
  | rem {s s' : Reg} {rv : Int} : RemOutcome s rv s' → Move true s s'
  /-- A reference taken or given back. -/
  | ref {rm : Bool} {s s' : Reg} : RefMove s s' → Move rm s s'

variable {rm : Bool} {s s' : Reg}

theorem RefMove.regInv (hs : RegInv s) : RefMove s s' → RegInv s'
  | .grab h => hs.grab h
  | .release hh h => hs.release h hh
  | .takeRefs hq => hs.takeRefs fun q hq' => by
    obtain ⟨r, hr, -⟩ := hs.registered q (hq q hq')
    simp [hr]

theorem Move.regInv (hs : RegInv s) : Move rm s s' → RegInv s'
  | .add ho => ho.regInv hs
  | .rem ho => ho.regInv hs
  | .ref h => h.regInv hs

/-- What every move from a state with the invariant keeps, every sequence of
moves keeps. -/
theorem Moves.preserves (P : Reg → Prop)
    (hP : ∀ {s s' : Reg}, RegInv s → Move rm s s' → P s → P s')
    (hs : RegInv s) (h : ReflTransGen (Move rm) s s') (hp : P s) : P s' ∧ RegInv s' := by
  induction h with
  | refl => exact ⟨hp, hs⟩
  | tail _ hm ih => exact ⟨hP ih.2 hm ih.1, Move.regInv ih.2 hm⟩

theorem Moves.regInv (hs : RegInv s) (h : ReflTransGen (Move rm) s s') : RegInv s' :=
  (Moves.preserves (fun _ => True) (fun _ _ _ => trivial) hs h trivial).2

/-! ### Reading the registered Paths -/

section Reads

variable {β : Type} (g : RfsPath → β) {t : Reg} {p : Nat} {r : RfsPath}

/-- A write at one address that keeps what `g` reads there, if a Path is
registered there, keeps what `g` reads of every registered Path. -/
theorem Reg.reads_update {o : Option RfsPath} (hh : t.heap = Function.update s.heap p o)
    (ho : p ∈ s.list → o.map g = (s.heap p).map g) : ∀ q ∈ s.list, (t.heap q).map g = (s.heap q).map g :=
  fun q hq => by
    rw [hh]
    by_cases hqp : q = p
    · subst hqp
      rw [Function.update_same, ho hq]
    · rw [Function.update_noteq hqp]

variable {g} (hg : ∀ (r : RfsPath) (c : Nat), g { r with count := c } = g r)
include hg

/-- A reference taken changes no count-blind read. -/
theorem Reg.reads_grab (h : s.heap p = some r) :
    ∀ q ∈ s.list, ((s.grab p r).heap q).map g = (s.heap q).map g :=
  Reg.reads_update g rfl fun _ => by rw [h, Option.map_some', Option.map_some', hg]

/-- A reference given back changes no count-blind read of a registered Path:
the last reference of a registered Path is never given back. -/
theorem Reg.reads_release (hs : RegInv s) (h : s.heap p = some r) :
    ∀ q ∈ s.list, ((s.release p r).heap q).map g = (s.heap q).map g := by
  refine Reg.reads_update g (o := if r.count = 1 then none else some { r with count := r.count - 1 })
    (by unfold Reg.release; split_ifs <;> rfl) fun hp => ?_
  have := hs.two_le_count hp h
  rw [if_neg (by omega), h, Option.map_some', Option.map_some', hg]

/-- References taken on an array change no count-blind read. -/
theorem Reg.reads_takeRefs (qs hd : List Nat) (q : Nat) :
    (({ s.takeRefs qs with handles := hd } : Reg).heap q).map g = (s.heap q).map g := by
  show ((s.heap q).map _).map g = _
  cases s.heap q <;> simp [hg]

/-- A reference taken or given back changes neither the list nor any
count-blind read of a registered Path. -/
theorem RefMove.reads (hs : RegInv s) :
    RefMove s t → t.list = s.list ∧ ∀ q ∈ s.list, (t.heap q).map g = (s.heap q).map g
  | .grab h => ⟨rfl, Reg.reads_grab hg h⟩
  | .release _ h => ⟨Reg.release_list .., Reg.reads_release hg hs h⟩
  | .takeRefs _ => ⟨rfl, fun q _ => Reg.reads_takeRefs hg _ _ q⟩

/-- So does a sequence of them. -/
theorem RefMoves.reads (hs : RegInv s) (h : ReflTransGen RefMove s t) :
    t.list = s.list ∧ ∀ q ∈ s.list, (t.heap q).map g = (s.heap q).map g := by
  induction h with
  | refl => exact ⟨rfl, fun _ _ => rfl⟩
  | tail hst hm ih =>
    obtain ⟨hl', hr'⟩ := hm.reads hg (Moves.regInv hs (hst.mono fun _ _ h => (Move.ref h : Move false _ _)))
    exact ⟨hl'.trans ih.1, fun q hq => (hr' q (ih.1 ▸ hq)).trans (ih.2 q hq)⟩

end Reads

/-! ### The calls -/

theorem Except.map_eq_ok {ε α β : Type} {f : α → β} {x : Except ε α} {b : β}
    (h : x.map f = .ok b) : ∃ a, x = .ok a ∧ f a = b :=
  match x, h with
  | .ok a, h => ⟨a, rfl, Except.ok.inj h⟩

/-- `redirfs_put_paths` gives the handles back one after the other. -/
theorem redirfsPutPaths_moves {ps : List Nat} (hs : RegInv s)
    (hc : ∀ p, ps.count p ≤ s.handles.count p) (h : redirfsPutPaths ps s = .ok s') :
    ReflTransGen RefMove s s' :=
  redirfsPutPaths_preserves (ReflTransGen RefMove s) (fun _ hh hr hp => hp.tail (.release hh hr))
    ps hs hc h .refl

/-- The loop of `redirfs_rem_paths` is one `redirfs_rem_path` after the other,
and gives no handle back. -/
theorem remPathsLoop_moves (φs : Nat → Faults) (f : Flt) :
    ∀ (ps : List Nat) (i : Nat) (rv : Int) {s s' : Reg} {rv' : Int}, RegInv s →
      (∀ p ∈ ps, p ∈ s.handles) → remPathsLoop φs f i ps rv s = .ok (rv', s') →
      ReflTransGen (Move true) s s' ∧ s'.handles = s.handles
  | [], _, _, s, s', _, _, _, h => by cases h; exact ⟨.refl, rfl⟩
  | p :: ps, i, _, s, s', rv', hs, hh, h => by
    simp only [remPathsLoop] at h
    cases h1 : redirfsRemPath (φs i) (some f) (some p) s with
    | error e => rw [h1] at h; cases h
    | ok x =>
      obtain ⟨rv₁, s₁⟩ := x
      have ho := redirfsRemPath_outcome hs (by rintro q ⟨⟩; exact hh p (List.mem_cons_self p ps)) h1
      rw [h1] at h
      simp only [except_ok_bind] at h
      split_ifs at h
      · cases h
        exact ⟨.single (.rem ho), ho.handles⟩
      · obtain ⟨hm, hh'⟩ := remPathsLoop_moves φs f ps (i + 1) rv₁ (ho.regInv hs)
          (fun q hq => ho.handles ▸ hh q (List.mem_cons_of_mem p hq)) h
        exact ⟨(ReflTransGen.single (.rem ho)).trans hm, hh'.trans ho.handles⟩

/-- `redirfs_rem_paths`: an array taken, a `redirfs_rem_path` on each of its
Paths, and the array given back. -/
theorem redirfsRemPaths_moves (hs : RegInv s) {φ : Faults} {φs : Nat → Faults} {rv rv' : Int}
    {filter : Option Flt} (h : redirfsRemPaths φ φs rv filter s = .ok (rv', s')) :
    ReflTransGen (Move true) s s' := by
  match filter, h with
  | none, h => cases h; exact .refl
  | some f, h =>
    simp only [redirfsRemPaths] at h
    cases ha : φ.alloc
    · rw [redirfsGetPaths_eq hs f ha] at h
      simp only [except_ok_bind] at h
      set ps := s.list.filter (citesAt s.heap f)
      have hm₁ : Move true s { s.takeRefs ps with handles := s.handles ++ ps } :=
        .ref (.takeRefs fun q hq => List.mem_of_mem_filter hq)
      cases h2 : remPathsLoop φs f 0 ps rv { s.takeRefs ps with handles := s.handles ++ ps } with
      | error e => rw [h2] at h; cases h
      | ok x =>
        obtain ⟨rv₂, s₂⟩ := x
        obtain ⟨hm₂, hh₂⟩ := remPathsLoop_moves φs f ps 0 rv (hm₁.regInv hs)
          (fun q hq => List.mem_append_right _ hq) h2
        rw [h2] at h
        simp only [except_ok_bind] at h
        cases h3 : redirfsPutPaths ps s₂ with
        | error e => rw [h3] at h; cases h
        | ok s₃ =>
          rw [h3] at h
          cases h
          exact ((ReflTransGen.single hm₁).trans hm₂).trans
            ((redirfsPutPaths_moves (Moves.regInv (hm₁.regInv hs) hm₂) (fun q => by simp [hh₂]) h3).mono
              fun _ _ => .ref)
    · simp only [redirfsGetPaths, ha, if_true, except_ok_bind, except_pure] at h
      cases h
      exact .refl

/-- The calls that only take and give back references: all but
`redirfs_add_path`, `redirfs_rem_path` and `redirfs_rem_paths`. -/
def Call.refOnly : Call → Bool
  | .addPath .. => false
  | .remPath .. => false
  | .remPaths .. => false
  | _ => true

/-- A call that is not a removal registers, or only takes and gives back
references. -/
theorem Call.refOnly_of_removes {c : Call} (h : c.removes = false) :
    c.refOnly = true ∨ ∃ φ filter info, c = .addPath φ filter info := by
  cases c <;> simp_all [Call.removes, Call.refOnly]

/-- **A call that only takes and gives back references is a sequence of
such moves.** -/
theorem apiStep_refMoves (hs : RegInv s) {c : Call} (hc : c.held s = true) (hr : c.refOnly = true)
    {ret : Ret} (h : apiStep s c = .ok (ret, s')) : ReflTransGen RefMove s s' := by
  cases c with
  | addPath => cases hr
  | remPath => cases hr
  | remPaths => cases hr
  | getPathId id =>
    obtain ⟨⟨res, t⟩, hx, he⟩ := Except.map_eq_ok h
    cases he
    cases hk : s.firstOn (fun r => r.id == id) with
    | none =>
      rw [redirfsGetPathId_none hk] at hx
      cases hx
      exact .refl
    | some p =>
      obtain ⟨-, r, hr, -⟩ := firstOn_some hk
      rw [redirfsGetPathId_found hk hr (hs.count_ne_zero hr)] at hx
      cases hx
      exact .single (.grab hr)
  | getPath path =>
    obtain ⟨⟨res, t⟩, hx, he⟩ := Except.map_eq_ok h
    cases he
    cases path with
    | none => cases hx; exact .refl
    | some p =>
      obtain ⟨r, hr⟩ := hs.heap_of_held (by simpa [Call.held] using hc)
      rw [redirfsGetPath_eq hr (hs.count_ne_zero hr)] at hx
      cases hx
      exact .single (.grab hr)
  | putPath path =>
    obtain ⟨t, hx, he⟩ := Except.map_eq_ok h
    cases he
    cases path with
    | none => cases hx; exact .refl
    | some p =>
      have hh : p ∈ s.handles := by simpa [Call.held] using hc
      obtain ⟨r, hr⟩ := hs.heap_of_held hh
      rw [redirfsPutPath_eq hr (hs.count_ne_zero hr)] at hx
      cases hx
      exact .single (.release hh hr)
  | getPaths φ filter =>
    obtain ⟨⟨res, t⟩, hx, he⟩ := Except.map_eq_ok h
    cases he
    cases filter with
    | none => cases hx; exact .refl
    | some f =>
      cases ha : φ.alloc
      · rw [redirfsGetPaths_eq hs f ha] at hx
        cases hx
        exact .single (.takeRefs fun q hq => List.mem_of_mem_filter hq)
      · simp only [redirfsGetPaths, ha, if_true] at hx
        cases hx
        exact .refl
  | getPathsRoot φ filter root =>
    obtain ⟨⟨res, t⟩, hx, he⟩ := Except.map_eq_ok h
    cases he
    match filter, root, hx with
    | some f, some rt, hx =>
      cases ha : φ.alloc
      · rw [redirfsGetPathsRoot_eq hs f rt ha] at hx
        cases hx
        refine .single (.takeRefs fun q hq => ?_)
        split_ifs at hq
        · rw [hs.roots] at hq
          exact List.mem_of_mem_filter hq
        · cases hq
      · simp only [redirfsGetPathsRoot, ha, if_true] at hx
        cases hx
        exact .refl
    | none, _, hx => cases hx; exact .refl
    | some _, none, hx => cases hx; exact .refl
  | putPaths ps =>
    obtain ⟨t, hx, he⟩ := Except.map_eq_ok h
    cases he
    exact redirfsPutPaths_moves hs (Call.held_putPaths hc) hx

/-- **Every call is a sequence of moves**, from a state with the invariant
and when the caller passes only handles it holds; only a removal makes a move
of `redirfs_rem_path`. -/
theorem apiStep_moves (hs : RegInv s) {c : Call} (hc : c.held s = true) {ret : Ret}
    (h : apiStep s c = .ok (ret, s')) : ReflTransGen (Move c.removes) s s' := by
  cases c with
  | addPath φ filter info =>
    obtain ⟨⟨res, t⟩, hx, he⟩ := Except.map_eq_ok h
    cases he
    exact .single (.add (redirfsAddPath_outcome hs hx))
  | remPath φ filter path =>
    obtain ⟨⟨rv, t⟩, hx, he⟩ := Except.map_eq_ok h
    cases he
    refine .single (.rem (redirfsRemPath_outcome hs (fun q hq => ?_) hx))
    subst hq
    simpa [Call.held] using hc
  | remPaths φ φs rv filter =>
    obtain ⟨⟨rv', t⟩, hx, he⟩ := Except.map_eq_ok h
    cases he
    exact redirfsRemPaths_moves hs hx
  | getPathId _ | getPath _ | putPath _ | getPaths _ _ | getPathsRoot _ _ _ | putPaths _ =>
    exact (apiStep_refMoves hs hc rfl h).mono fun _ _ => .ref

/-- A property every move keeps is kept by every call. -/
theorem apiStep_preserves (P : Reg → Prop)
    (hP : ∀ {rm : Bool} {s s' : Reg}, RegInv s → Move rm s s' → P s → P s') (hs : RegInv s)
    {c : Call} (hc : c.held s = true) {ret : Ret} (h : apiStep s c = .ok (ret, s')) (hp : P s) :
    P s' :=
  (Moves.preserves P hP hs (apiStep_moves hs hc h) hp).1

/-- A run without removals, from a reachable state and with the callers'
contract kept, is a sequence of moves without removal. -/
theorem Reg.run_moves : ∀ (cs : List Call) {s s' : Reg}, Reachable s → (∀ c ∈ cs, c.removes = false) →
    s.heldAlong cs = true → s.run cs = .ok s' → ReflTransGen (Move false) s s'
  | [], _, _, _, _, _, h => by cases h; exact .refl
  | c :: cs, s, s', hs, hno, hh, h => by
    simp only [Reg.run] at h
    simp only [Reg.heldAlong, Bool.and_eq_true] at hh
    split at h
    · next ret s₁ hstep =>
      rw [hstep] at hh
      have hm := apiStep_moves (RegInv.of_reachable hs) hh.1 hstep
      rw [hno c (.head _)] at hm
      exact hm.trans (Reg.run_moves cs (hs.step hh.1 hstep) (fun c hc => hno c (.tail _ hc)) hh.2 h)
    · cases h

end RedirFS
