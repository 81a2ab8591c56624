import RedirFS.Rename.Ledger

/-!
# Rename propagation: the filters detached and attached

What a run of `rfs_fsrename` does when no collaborator fails (`ω = noFail`).
`S` is the chain of the source root and `D` that of the destination root,
each "no chain" when there is no such root. The question is which filters
the run hands to the namespace, and in what order.

## The calls, phase by phase

With no failure every loop runs to its end, so each phase makes a fixed list
of calls:

* the root-scope loops: `RedirFS.Rename.rrootLog`, one `rfs_root_*_flt` and
  one `rfs_root_walk` per filter;
* the entry-scope loops: `RedirFS.Rename.dentryLog`, one chain operation and
  one `rfs_info_*` per filter, the chain operation taking the chain the one
  before it built;
* the set phase: `RedirFS.Rename.setLog`, one `rfs_info_set` per filter of
  the entry's chain that `D` has too.

`RedirFS.Rename.Propagates` states, over such a log, what a rename must do:
detach `S \ D` in the order of `S`, attach `D \ S` in the order of `D`,
detach everything before attaching anything, and keep to one scope.

## What the code does

* `RedirFS.Rename.rfsFsrename_propagates`: at root scope, and at entry scope
  whenever the entry still has a chain after the remove phase, the run returns
  `0`, its log is a `Propagates` log, and every `rfs_chain_rem` takes a
  filter its input has. At entry scope, with the entry's record holding `S`
  on the way in, every `rfs_chain_add` adds a filter its input lacks, and the
  entry ends with `D`'s filters. When the entry is left with "no chain" (both
  roots, entry scope, `S` nonempty and sharing no filter with `D`),
  `rfs_fsrename_set` dereferences the NULL chain of the entry's record and
  the run never reaches the add phase.
-/

namespace RedirFS

namespace Rename

/-! ### The logs of the loops -/

/-- The filter a call detaches from the moved entry: `rfs_info_rem` at entry
scope, `rfs_root_rem_flt` at root scope. -/
def Event.detached : Event → Option Flt
  | .infoRem f => some f
  | .rootRemFlt _ f => some f
  | _ => none

/-- The filter a call attaches to the moved entry: `rfs_info_add` at entry
scope, `rfs_root_add_flt` at root scope. -/
def Event.attached : Event → Option Flt
  | .infoAdd f => some f
  | .rootAddFlt _ f => some f
  | _ => none

/-- The calls that go to a root rather than to the entry's cache. -/
def Event.isRoot : Event → Bool
  | .rootRemFlt _ _ | .rootAddFlt _ _ | .rootWalk _ _ => true
  | _ => false

/-- Every `rfs_root_rem_flt` or `rfs_root_add_flt` of a filter is followed at
once by the walk of the same callback for it. -/
def Walked : List Event → Prop
  | [] => True
  | .rootRemFlt _ f :: l => l.head? = some (.rootWalk false f) ∧ Walked l
  | .rootAddFlt _ f :: l => l.head? = some (.rootWalk true f) ∧ Walked l
  | _ :: l => Walked l

/-- The calls of `RedirFS.Rename.rrootLoop` over `fs` when none fails. -/
def rrootLog (add : Bool) (rroot : Nat) : List Flt → List Event
  | [] => []
  | f :: fs => rootEv add rroot f :: .rootWalk add f :: rrootLog add rroot fs

@[simp] theorem rrootLog_nil (add : Bool) (rroot : Nat) : rrootLog add rroot [] = [] := rfl

/-- The calls of `RedirFS.Rename.dentryLoop` over `fs`, from a chain holding `c`,
when none fails. -/
def dentryLog (add : Bool) : List Flt → List Flt → List Event
  | _, [] => []
  | c, f :: fs => chainEv add c f :: infoEv add f :: dentryLog add (chainFn add c f) fs

/-- The calls of `RedirFS.Rename.setLoop` over the entry's chain `c`, when none
fails. -/
def setLog (c D : List Flt) : List Event := (c.filter (· ∈ D)).map .infoSet

/-- The filters of the chain of a root, none for no root. -/
def Fsr.rootFlts (s : Fsr) : Option Nat → List Flt
  | none => []
  | some r => flts (s.rootChain r)

@[simp] theorem Fsr.rootFlts_none (s : Fsr) : s.rootFlts none = [] := rfl

@[simp] theorem Fsr.rootFlts_some (s : Fsr) (r : Nat) : s.rootFlts (some r) = flts (s.rootChain r) := rfl

@[simp] theorem rfsChainDiff_nil (c : List Flt) : rfsChainDiff c [] = c := by
  simp [rfsChainDiff]

@[simp] theorem nil_rfsChainDiff (c : List Flt) : rfsChainDiff [] c = [] := rfl

section Logs

variable {add : Bool} {rroot : Nat} {fs c D : List Flt}

@[simp] theorem detached_rrootLog :
    (rrootLog add rroot fs).filterMap Event.detached = if add then [] else fs := by
  induction fs with
  | nil => cases add <;> rfl
  | cons f fs ih => cases add <;> simp_all [rrootLog, rootEv, Event.detached]

@[simp] theorem attached_rrootLog :
    (rrootLog add rroot fs).filterMap Event.attached = if add then fs else [] := by
  induction fs with
  | nil => cases add <;> rfl
  | cons f fs ih => cases add <;> simp_all [rrootLog, rootEv, Event.attached]

@[simp] theorem detached_dentryLog :
    (dentryLog add c fs).filterMap Event.detached = if add then [] else fs := by
  induction fs generalizing c with
  | nil => cases add <;> rfl
  | cons f fs ih => cases add <;> simp [dentryLog, chainEv, infoEv, Event.detached, ih]

@[simp] theorem attached_dentryLog :
    (dentryLog add c fs).filterMap Event.attached = if add then fs else [] := by
  induction fs generalizing c with
  | nil => cases add <;> rfl
  | cons f fs ih => cases add <;> simp [dentryLog, chainEv, infoEv, Event.attached, ih]

@[simp] theorem detached_setLog : (setLog c D).filterMap Event.detached = [] := by
  simp [setLog, List.filterMap_map, Function.comp_def, Event.detached]

@[simp] theorem attached_setLog : (setLog c D).filterMap Event.attached = [] := by
  simp [setLog, List.filterMap_map, Function.comp_def, Event.attached]

theorem isRoot_rrootLog : ∀ e ∈ rrootLog add rroot fs, e.isRoot := by
  induction fs with
  | nil => simp [rrootLog]
  | cons f fs ih =>
    intro e he
    simp only [rrootLog, List.mem_cons] at he
    rcases he with rfl | rfl | he
    · cases add <;> rfl
    · rfl
    · exact ih e he

theorem not_isRoot_dentryLog : ∀ e ∈ dentryLog add c fs, e.isRoot = false := by
  induction fs generalizing c with
  | nil => simp [dentryLog]
  | cons f fs ih =>
    intro e he
    simp only [dentryLog, List.mem_cons] at he
    rcases he with rfl | rfl | he
    · cases add <;> rfl
    · cases add <;> rfl
    · exact ih e he

@[simp] theorem dentryLog_nil : dentryLog add c [] = [] := rfl

@[simp] theorem setLog_nil : setLog [] D = [] := rfl

theorem not_isRoot_setLog : ∀ e ∈ setLog c D, e.isRoot = false := by
  intro e he
  obtain ⟨f, -, rfl⟩ := List.mem_map.1 he
  rfl

theorem walked_rrootLog_append {l : List Event} : Walked (rrootLog add rroot fs ++ l) ↔ Walked l := by
  induction fs with
  | nil => rfl
  | cons f fs ih => cases add <;> simp [rrootLog, rootEv, Walked, ih]

theorem walked_of_not_isRoot : ∀ {l : List Event}, (∀ e ∈ l, e.isRoot = false) → Walked l
  | [], _ => trivial
  | e :: l, h => by
    have hl : Walked l := walked_of_not_isRoot fun e he => h e (List.mem_cons_of_mem _ he)
    have he := h e (List.mem_cons_self _ _)
    cases e <;> first | exact hl | cases he

theorem not_chainAdd_mem_dentryLog_false {c fs c' : List Flt} {g : Flt} :
    Event.chainAdd c' g ∉ dentryLog false c fs := by
  induction fs generalizing c with
  | nil => simp [dentryLog]
  | cons f fs ih => simp [dentryLog, ih]

theorem not_chainRem_mem_dentryLog_true {c fs c' : List Flt} {g : Flt} :
    Event.chainRem c' g ∉ dentryLog true c fs := by
  induction fs generalizing c with
  | nil => simp [dentryLog]
  | cons f fs ih => simp [dentryLog, ih]

end Logs

/-! ### The chains of the entry-scope loops -/

/-- What is left of a chain once the filters `fs` are removed from it. -/
theorem mem_foldl_rfsChainRem {g : Flt} :
    ∀ {fs c : List Flt}, c.Nodup → (g ∈ fs.foldl rfsChainRem c ↔ g ∈ c ∧ g ∉ fs)
  | [], _, _ => by simp
  | f :: fs, c, hc => by
    rw [List.foldl_cons, mem_foldl_rfsChainRem (nodup_rfsChainRem hc f), mem_rfsChainRem hc]
    simp [and_assoc]

/-- **Every `rfs_chain_rem` of the entry-scope remove loop takes a filter its
input has**, when the loop removes distinct filters of the chain it starts
from. -/
theorem chainRem_present :
    ∀ {fs c : List Flt}, fs.Nodup → (∀ f ∈ fs, f ∈ c) →
      ∀ c' g, Event.chainRem c' g ∈ dentryLog false c fs → g ∈ c'
  | [], _, _, _, _, _, h => by simp [dentryLog] at h
  | f :: fs, c, hfs, hsub, c', g, h => by
    simp only [dentryLog, chainEv_false, infoEv_false, chainFn_false, List.mem_cons,
      Event.chainRem.injEq, reduceCtorEq, false_or] at h
    rcases h with ⟨rfl, rfl⟩ | h
    · exact hsub g (List.mem_cons_self _ _)
    · refine chainRem_present (List.nodup_cons.1 hfs).2 (fun x hx => ?_) c' g h
      have hxf : x ≠ f := fun hxf => (List.nodup_cons.1 hfs).1 (hxf ▸ hx)
      exact (List.mem_erase_of_ne hxf).2 (hsub x (List.mem_cons_of_mem _ hx))

/-- **Every `rfs_chain_add` of the entry-scope add loop adds a filter its input
lacks**, when the loop adds distinct filters the chain it starts from lacks. -/
theorem chainAdd_absent :
    ∀ {fs c : List Flt}, fs.Nodup → (∀ f ∈ fs, f ∉ c) →
      ∀ c' g, Event.chainAdd c' g ∈ dentryLog true c fs → g ∉ c'
  | [], _, _, _, _, _, h => by simp [dentryLog] at h
  | f :: fs, c, hfs, hout, c', g, h => by
    simp only [dentryLog, chainEv_true, infoEv_true, chainFn_true, List.mem_cons,
      Event.chainAdd.injEq, reduceCtorEq, false_or] at h
    rcases h with ⟨rfl, rfl⟩ | h
    · exact hout g (List.mem_cons_self _ _)
    · refine chainAdd_absent (List.nodup_cons.1 hfs).2 (fun x hx => ?_) c' g h
      have hxf : x ≠ f := fun hxf => (List.nodup_cons.1 hfs).1 (hxf ▸ hx)
      simp [hout x (List.mem_cons_of_mem _ hx), hxf]

/-! ### What a rename should do -/

/-- What the calls `l` of a rename do to the filters of the moved entry, from
the source chain `S` to the destination chain `D`, at root scope (`root`) or
at entry scope. -/
structure Propagates (root : Bool) (S D : List Flt) (l : List Event) : Prop where
  /-- The filters detached are those of `S` that `D` lacks, each once, in the
  order of `S`. -/
  detached : l.filterMap Event.detached = rfsChainDiff S D
  /-- The filters attached are those of `D` that `S` lacks, each once, in the
  order of `D`. -/
  attached : l.filterMap Event.attached = rfsChainDiff D S
  /-- Every detach comes before every attach. -/
  ordered : ∃ l₁ l₂, l = l₁ ++ l₂ ∧ l₁.filterMap Event.attached = [] ∧
    l₂.filterMap Event.detached = []
  /-- At root scope every call goes to a root, at entry scope none does. -/
  oneScope : ∀ e ∈ l, e.isRoot = root
  /-- A root gets each filter together with the walk below it. -/
  walked : Walked l
  /-- Every `rfs_chain_rem` removes a filter its input has. -/
  removes : ∀ c f, Event.chainRem c f ∈ l → f ∈ c

/-- What the calls `l` of a rename at entry scope do to the moved entry's own
chain, ending as the record `rec`: every `rfs_chain_add` adds a filter its
input lacks, and the entry ends with the filters of `D`. -/
structure Recomputes (D : List Flt) (l : List Event) (rec : Option RfsInfo) : Prop where
  adds : ∀ c f, Event.chainAdd c f ∈ l → f ∉ c
  ends : ∀ f, f ∈ flts (rec.bind RfsInfo.rchain) ↔ f ∈ D

/-- Whether the moved entry is the source root's own entry: root scope. -/
def rootScope (s : Fsr) (src : Option Nat) (dentry : Nat) : Bool :=
  match src with
  | some r => decide (s.rootDentry r = dentry)
  | none => false

/-- Where `rfs_fsrename_set` meets a NULL chain: both roots, entry scope, and a
nonempty `S` that shares no filter with `D`, so that the remove phase hands the
entry "no chain". -/
def NullAtSet (s : Fsr) (src dst : Option Nat) (dentry : Nat) : Prop :=
  ∃ r d, src = some r ∧ dst = some d ∧ s.rootDentry r ≠ dentry ∧ flts (s.rootChain r) ≠ [] ∧
    ∀ f ∈ flts (s.rootChain r), f ∉ flts (s.rootChain d)

section Propagates

variable {S D : List Flt}

theorem Propagates.root (r : Nat) :
    Propagates true S D (rrootLog false r (rfsChainDiff S D) ++ rrootLog true r (rfsChainDiff D S)) where
  detached := by simp
  attached := by simp
  ordered := ⟨_, _, rfl, by simp, by simp⟩
  oneScope := by
    simp only [List.mem_append]
    rintro e (he | he) <;> exact isRoot_rrootLog e he
  walked := by rw [walked_rrootLog_append, ← List.append_nil (rrootLog _ _ _), walked_rrootLog_append]; trivial
  removes := by
    simp only [List.mem_append]
    rintro c f (he | he) <;> simpa [Event.isRoot] using isRoot_rrootLog _ he

/-- An entry-scope log: the remove loop over `S \ D` from `S`, then calls that
detach nothing, attach `D \ S` and go to no root. -/
theorem Propagates.entry (hS : S.Nodup) (rest : List Event)
    (hd : rest.filterMap Event.detached = []) (ha : rest.filterMap Event.attached = rfsChainDiff D S)
    (hr : ∀ e ∈ rest, e.isRoot = false) (hrem : ∀ c f, Event.chainRem c f ∉ rest) :
    Propagates false S D (dentryLog false S (rfsChainDiff S D) ++ rest) where
  detached := by simp [hd]
  attached := by simp [ha]
  ordered := ⟨_, _, rfl, by simp, hd⟩
  oneScope := by
    simp only [List.mem_append]
    rintro e (he | he)
    · exact not_isRoot_dentryLog e he
    · exact hr e he
  walked := walked_of_not_isRoot fun e he => by
    rcases List.mem_append.1 he with he | he
    · exact not_isRoot_dentryLog e he
    · exact hr e he
  removes := by
    simp only [List.mem_append]
    rintro c f (he | he)
    · exact chainRem_present (nodup_rfsChainDiff hS D) (fun f hf => (mem_rfsChainDiff.1 hf).1) c f he
    · exact absurd he (hrem c f)

/-- The log of the three phases at entry scope: the remove loop over `S \ D`,
the set loop over the entry's chain `c`, the add loop over `D \ S` from the
entry's chain `c'`, and the reset to the destination root's info. -/
theorem Propagates.entryPhases (hS : S.Nodup) (c c' : List Flt) :
    Propagates false S D (dentryLog false S (rfsChainDiff S D) ++
      (setLog c D ++ (dentryLog true c' (rfsChainDiff D S) ++ [.infoReset]))) :=
  Propagates.entry hS _ (by simp [Event.detached]) (by simp [Event.attached])
    (fun e he => by
      simp only [List.mem_append, List.mem_singleton] at he
      rcases he with he | he | rfl
      · exact not_isRoot_setLog e he
      · exact not_isRoot_dentryLog e he
      · rfl)
    (fun c₀ f he => by
      simp only [List.mem_append, List.mem_singleton, reduceCtorEq, or_false] at he
      rcases he with he | he
      · simp [setLog] at he
      · exact not_chainRem_mem_dentryLog_true he)

/-- At entry scope every `rfs_chain_add` adds a filter its input lacks, when the
entry's chain going into the add phase has only filters of `S`. -/
theorem entryPhases_adds (hD : D.Nodup) {c c' : List Flt} (hc' : ∀ g ∈ c', g ∈ S) :
    ∀ c₀ f, Event.chainAdd c₀ f ∈ dentryLog false S (rfsChainDiff S D) ++
      (setLog c D ++ (dentryLog true c' (rfsChainDiff D S) ++ [.infoReset])) → f ∉ c₀ := by
  intro c₀ f he
  simp only [List.mem_append, List.mem_singleton, reduceCtorEq, or_false] at he
  rcases he with he | he | he
  · exact absurd he not_chainAdd_mem_dentryLog_false
  · simp [setLog] at he
  · exact chainAdd_absent (nodup_rfsChainDiff hD _)
      (fun g hg hgc => (mem_rfsChainDiff.1 hg).2 (hc' g hgc)) c₀ f he

end Propagates

/-! ### Runs that return -/

/-- A run that returns, with a result `P` holds of. -/
def Ret {α : Type} (P : α → Prop) : Except Crash α → Prop
  | .ok a => P a
  | .error _ => False

theorem Ret.bind {α β : Type} {P : β → Prop} {Q : α → Prop} {x : Except Crash α}
    {k : α → Except Crash β} (hx : Ret Q x) (hk : ∀ a, Q a → Ret P (k a)) : Ret P (x >>= k) :=
  match x, hx with
  | .ok a, hx => hk a hx

theorem Ret.mono {α : Type} {P Q : α → Prop} {x : Except Crash α} (hx : Ret Q x)
    (h : ∀ a, Q a → P a) : Ret P x :=
  match x, hx with
  | .ok a, hx => h a hx

theorem Ret.exists {α : Type} {P : α → Prop} {x : Except Crash α} (h : Ret P x) :
    ∃ a, x = .ok a ∧ P a :=
  match x, h with
  | .ok a, h => ⟨a, rfl, h⟩

/-- `s'` is `s` with the calls `l` logged and the roots untouched. -/
structure Fsr.Moves (s : Fsr) (l : List Event) (s' : Fsr) : Prop where
  log : s'.log = s.log ++ l
  rootDentry : s'.rootDentry = s.rootDentry
  rootInfo : s'.rootInfo = s.rootInfo

theorem Fsr.Moves.trans {s₁ s₂ s₃ : Fsr} {l₁ l₂ : List Event} (h₁ : s₁.Moves l₁ s₂)
    (h₂ : s₂.Moves l₂ s₃) : s₁.Moves (l₁ ++ l₂) s₃ :=
  ⟨by rw [h₂.log, h₁.log, List.append_assoc], h₂.rootDentry.trans h₁.rootDentry,
    h₂.rootInfo.trans h₁.rootInfo⟩

theorem Fsr.Moves.held (s : Fsr) (l : List Obj) : s.Moves [] { s with held := l } :=
  ⟨(List.append_nil _).symm, rfl, rfl⟩

/-! ### The collaborators when none fails -/

section NoFail

variable {s s' : Fsr}

theorem Fsr.chainStep_noFail {add : Bool} {c : Option RfsChain} {f : Flt}
    {r : Except Errno (Option RfsChain)} (h : s.chainStep noFail add c f = (r, s')) :
    r = .ok (mkChain s.next (chainFn add (flts c) f)) ∧
      s'.held = (chainObj (mkChain s.next (chainFn add (flts c) f))).toList ++ s.held ∧
      s'.dentry = s.dentry ∧ s.Moves [chainEv add (flts c) f] s' := by
  obtain ⟨rfl, rfl⟩ := Prod.mk.inj h
  rw [Fsr.chainGet, Fsr.get_eq]
  exact ⟨rfl, rfl, rfl, rfl, rfl, rfl⟩

theorem Fsr.infoAlloc_noFail {rroot : Nat} {c : Option RfsChain} {r : Except Errno RfsInfo}
    (h : s.infoAlloc noFail rroot c = (r, s')) :
    r = .ok ⟨s.next, some rroot, c⟩ ∧ s'.held = .info s.next :: s.held ∧ s'.dentry = s.dentry ∧
      s.Moves [] s' := by
  obtain ⟨rfl, rfl⟩ := Prod.mk.inj h
  exact ⟨rfl, rfl, rfl, rfl, rfl, rfl⟩

theorem Fsr.infoHand_noFail {ev : Event} {dentry : Nat} {rinfo : RfsInfo} {rv : Int}
    (h : s.infoHand noFail ev dentry rinfo = (rv, s')) :
    rv = 0 ∧ s'.held = s.held ∧ s'.dentry = Function.update s.dentry dentry (some rinfo) ∧
      s.Moves [ev] s' := by
  obtain ⟨rfl, rfl⟩ := Prod.mk.inj h
  exact ⟨rfl, rfl, rfl, rfl, rfl, rfl⟩

theorem Fsr.rootFlt_noFail {add : Bool} {rroot : Nat} {f : Flt} {rv : Int}
    (h : s.rootFlt noFail add rroot f = (rv, s')) :
    rv = 0 ∧ s'.held = s.held ∧ s'.dentry = s.dentry ∧ s'.log = s.log ++ [rootEv add rroot f] ∧
      s'.rootDentry = s.rootDentry ∧ (∀ x, x ≠ rroot → s'.rootInfo x = s.rootInfo x) ∧
      flts (s'.rootChain rroot) = chainFn add (flts (s.rootChain rroot)) f := by
  obtain ⟨rfl, rfl⟩ := Prod.mk.inj h
  refine ⟨rfl, rfl, rfl, rfl, rfl, fun x hx => Function.update_noteq hx _ _, ?_⟩
  simp [Fsr.rootChain]

theorem Fsr.rootWalk_noFail {add : Bool} {f : Flt} {rv : Int}
    (h : s.rootWalk noFail add f = (rv, s')) :
    rv = 0 ∧ s'.held = s.held ∧ s'.dentry = s.dentry ∧ s.Moves [.rootWalk add f] s' := by
  obtain ⟨rfl, rfl⟩ := Prod.mk.inj h
  exact ⟨rfl, rfl, rfl, rfl, rfl, rfl⟩

theorem Fsr.phaseChain_noFail {a : Nat} {b : Option Nat} {r : Except Errno (Option RfsChain)}
    (h : s.phaseChain noFail a b = (r, s')) :
    ∃ c, r = .ok c ∧ flts c = rfsChainDiff (flts (s.rootChain a)) (s.rootFlts b) ∧
      s'.held = (chainObj c).toList ++ s.held ∧ s'.dentry = s.dentry ∧ s.Moves [] s' := by
  cases b with
  | none =>
    obtain ⟨rfl, rfl⟩ := Prod.mk.inj h
    rw [Fsr.chainGet, Fsr.get_eq]
    exact ⟨_, rfl, by simp, rfl, rfl, (List.append_nil _).symm, rfl, rfl⟩
  | some b =>
    obtain ⟨rfl, rfl⟩ := Prod.mk.inj h
    rw [Fsr.chainGet, Fsr.get_eq]
    exact ⟨_, rfl, by simp, rfl, rfl, rfl, rfl, rfl⟩

theorem Fsr.get_moves (o : Option Obj) : s.Moves [] (s.get o) := by
  rw [Fsr.get_eq]
  exact Fsr.Moves.held _ _

theorem Fsr.put_moves {o : Option Obj} (h : s.put o = .ok s') : s'.dentry = s.dentry ∧ s.Moves [] s' := by
  cases o with
  | none => cases h; exact ⟨rfl, (List.append_nil _).symm, rfl, rfl⟩
  | some o =>
    simp only [Fsr.put, Fsr.release] at h
    split_ifs at h
    cases h
    exact ⟨rfl, (List.append_nil _).symm, rfl, rfl⟩

end NoFail

/-! ### The loops when none fails -/

theorem dentryLoop_noFail (add : Bool) (rroot dentry : Nat) {l : List Obj} :
    ∀ (f : Flt) (fs : List Flt) (c : Option RfsChain) (s : Fsr), s.held = (chainObj c).toList ++ l →
      Ret (fun r : Int × Option RfsChain × Fsr => r.1 = 0 ∧
          r.2.2.held = (chainObj r.2.1).toList ++ l ∧
          flts r.2.1 = (f :: fs).foldl (chainFn add) (flts c) ∧
          (r.2.1 = none ↔ flts r.2.1 = []) ∧
          (r.2.2.dentry dentry).map RfsInfo.rchain = some r.2.1 ∧
          s.Moves (dentryLog add (flts c) (f :: fs)) r.2.2)
        (dentryLoop noFail add rroot dentry (f :: fs) c s)
  | f, fs, c, s, h => by
    rcases hc : s.chainStep noFail add c f with ⟨r₁, s₁⟩
    obtain ⟨rfl, h₁, -, m₁⟩ := Fsr.chainStep_noFail hc
    set cnew := mkChain s.next (chainFn add (flts c) f) with hcnew
    have hput : s₁.chainPut c = .ok { s₁ with held := (chainObj cnew).toList ++ l } :=
      Fsr.put_swap (by rw [h₁, h, List.append_assoc])
    rcases ha : ({ s₁ with held := (chainObj cnew).toList ++ l } : Fsr).infoAlloc noFail rroot cnew
      with ⟨r₃, s₃⟩
    obtain ⟨rfl, h₃, -, m₃⟩ := Fsr.infoAlloc_noFail ha
    rcases hi : s₃.infoStep noFail add dentry ⟨s₁.next, some rroot, cnew⟩ f with ⟨rv, s₄⟩
    obtain ⟨rfl, h₄, d₄, m₄⟩ := Fsr.infoHand_noFail hi
    have hput' : s₄.infoPut ⟨s₁.next, some rroot, cnew⟩ =
        .ok { s₄ with held := (chainObj cnew).toList ++ l } :=
      Fsr.put_some_head (by rw [h₄, h₃])
    have m : s.Moves [chainEv add (flts c) f, infoEv add f] { s₄ with held := (chainObj cnew).toList ++ l } :=
      ((((m₁.trans (Fsr.Moves.held _ _)).trans m₃).trans m₄).trans (Fsr.Moves.held _ _))
    simp only [dentryLoop, hc, hput, except_ok_bind, ha, hi, hput', ne_eq, not_true_eq_false,
      if_false]
    cases fs with
    | nil =>
      refine ⟨rfl, rfl, by simp [hcnew], by simp [hcnew], by simp [d₄], ?_⟩
      simpa [dentryLog] using m
    | cons g gs =>
      refine Ret.mono (dentryLoop_noFail add rroot dentry (l := l) g gs cnew _ rfl)
        fun r ⟨h0, hh, hf, hn, hd, hm⟩ => ⟨h0, hh, by simpa [hcnew] using hf, hn, hd, ?_⟩
      simpa [dentryLog, hcnew] using m.trans hm

theorem rrootLoop_noFail (add : Bool) (rroot : Nat) :
    ∀ (fs : List Flt) (s : Fsr), ∃ s', rrootLoop noFail add rroot fs s = (0, s') ∧
      s'.held = s.held ∧ s'.dentry = s.dentry ∧ s'.log = s.log ++ rrootLog add rroot fs ∧
      s'.rootDentry = s.rootDentry ∧ (∀ x, x ≠ rroot → s'.rootInfo x = s.rootInfo x) ∧
      flts (s'.rootChain rroot) = fs.foldl (chainFn add) (flts (s.rootChain rroot))
  | [], s => ⟨s, rfl, rfl, rfl, by simp [rrootLog], rfl, fun _ _ => rfl, rfl⟩
  | f :: fs, s => by
    rcases hf : s.rootFlt noFail add rroot f with ⟨rv, s₁⟩
    obtain ⟨rfl, h₁, d₁, l₁, rd₁, ri₁, c₁⟩ := Fsr.rootFlt_noFail hf
    rcases hw : s₁.rootWalk noFail add f with ⟨rv', s₂⟩
    obtain ⟨rfl, h₂, d₂, m₂⟩ := Fsr.rootWalk_noFail hw
    obtain ⟨s', h, h', d', l', rd', ri', c'⟩ := rrootLoop_noFail add rroot fs s₂
    refine ⟨s', by simp [rrootLoop, hf, hw, h], by rw [h', h₂, h₁], by rw [d', d₂, d₁], ?_,
      by rw [rd', m₂.rootDentry, rd₁], fun x hx => by rw [ri' x hx, m₂.rootInfo, ri₁ x hx], ?_⟩
    · simp [l', m₂.log, l₁, rrootLog]
    · rw [c', Fsr.rootChain, m₂.rootInfo, ← Fsr.rootChain, c₁, List.foldl_cons]

theorem setLoop_noFail (rroot dentry : Nat) (c : RfsChain) (cd : Option RfsChain) :
    ∀ (fs : List Flt) (s : Fsr), (s.dentry dentry).map RfsInfo.rchain = some (some c) →
      ∃ s', setLoop noFail rroot dentry (some c) cd fs s = .ok (0, s') ∧ s'.held = s.held ∧
        (s'.dentry dentry).map RfsInfo.rchain = some (some c) ∧ s.Moves (setLog fs (flts cd)) s'
  | [], s, hd => ⟨s, rfl, rfl, hd, by simp [setLog], rfl, rfl⟩
  | f :: fs, s, hd => by
    by_cases hf : f ∈ flts cd
    · rcases ha : s.infoAlloc noFail rroot (some c) with ⟨r₁, s₁⟩
      obtain ⟨rfl, h₁, -, m₁⟩ := Fsr.infoAlloc_noFail ha
      rcases hi : s₁.infoSet noFail dentry ⟨s.next, some rroot, some c⟩ f with ⟨rv, s₂⟩
      obtain ⟨rfl, h₂, d₂, m₂⟩ := Fsr.infoHand_noFail hi
      obtain ⟨s', h, h', d', m'⟩ := setLoop_noFail rroot dentry c cd fs { s₂ with held := s.held }
        (by simp [d₂])
      refine ⟨s', ?_, h', d', ?_⟩
      · simpa [setLoop, hf, ha, hi, Fsr.infoPut, Fsr.put_some_head (h₂.trans h₁)] using h
      · simpa [setLog, List.filter_cons, hf] using ((m₁.trans m₂).trans (Fsr.Moves.held _ _)).trans m'
    · obtain ⟨s', h, h', d', m'⟩ := setLoop_noFail rroot dentry c cd fs s hd
      exact ⟨s', by simpa [setLoop, hf] using h, h', d', by simpa [setLog, List.filter_cons, hf] using m'⟩

/-! ### The phases when none fails -/

theorem rfsFsrenameRemDentry_noFail (rroot dentry : Nat) (rchain : Option RfsChain) (s : Fsr) :
    ∃ s', rfsFsrenameRemDentry noFail rroot rchain dentry s = .ok (0, s') ∧ s'.held = s.held ∧
      s.Moves (dentryLog false (flts (s.rootChain rroot)) (flts rchain)) s' ∧
      (flts rchain = [] → s'.dentry dentry = s.dentry dentry) ∧
      (flts rchain ≠ [] → ∃ c', (s'.dentry dentry).map RfsInfo.rchain = some c' ∧
        flts c' = (flts rchain).foldl rfsChainRem (flts (s.rootChain rroot)) ∧
        (c' = none ↔ flts c' = [])) := by
  cases rchain with
  | none => exact ⟨s, rfl, rfl, ⟨by simp [dentryLog], rfl, rfl⟩, fun _ => rfl, fun h => absurd rfl h⟩
  | some c =>
    obtain ⟨fs, hc⟩ : ∃ fs, c.rflts = fs := ⟨_, rfl⟩
    cases fs with
    | nil =>
      refine ⟨s, ?_, rfl, ⟨by simp [dentryLog, hc], rfl, rfl⟩, fun _ => rfl, fun h => absurd (by simp [hc]) h⟩
      simp only [rfsFsrenameRemDentry, hc, dentryLoop, except_pure, except_ok_bind, Fsr.chainPut,
        Fsr.put_head (Fsr.chainGet_held _ _)]
      rw [Fsr.chainGet, Fsr.get_eq]
    | cons f fs =>
      obtain ⟨⟨rv, c', s₁⟩, h, rfl, h₁, hf, hn, hd, m⟩ :=
        (dentryLoop_noFail (l := s.held) false rroot dentry f fs (s.rootChain rroot)
          (s.chainGet (s.rootChain rroot)) (Fsr.chainGet_held _ _)).exists
      refine ⟨{ s₁ with held := s.held }, ?_, rfl, ?_, fun h => absurd hc (by simp_all), fun _ => ⟨c', hd, ?_, hn⟩⟩
      · simp only [rfsFsrenameRemDentry, hc, h, except_ok_bind, Fsr.chainPut, Fsr.put_head h₁]
        rfl
      · simpa [hc] using ((Fsr.get_moves _).trans m).trans (Fsr.Moves.held _ _)
      · simpa [hc] using hf

theorem dentryLoop_noFail_any (add : Bool) (rroot dentry : Nat) {l : List Obj} (fs : List Flt)
    (c : Option RfsChain) (s : Fsr) (h : s.held = (chainObj c).toList ++ l) :
    Ret (fun r : Int × Option RfsChain × Fsr => r.1 = 0 ∧
        r.2.2.held = (chainObj r.2.1).toList ++ l ∧ s.Moves (dentryLog add (flts c) fs) r.2.2)
      (dentryLoop noFail add rroot dentry fs c s) := by
  cases fs with
  | nil => exact ⟨rfl, h, by simp [dentryLog], rfl, rfl⟩
  | cons f fs =>
    exact (dentryLoop_noFail add rroot dentry f fs c s h).mono fun _ ⟨h0, hh, _, _, _, hm⟩ => ⟨h0, hh, hm⟩

theorem rfsFsrenameAddDentry_noFail (rroot dentry : Nat) (rchain : Option RfsChain) (s : Fsr) :
    ∃ s', rfsFsrenameAddDentry noFail rroot rchain dentry s = .ok (0, s') ∧ s'.held = s.held ∧
      s.Moves (dentryLog true (flts ((s.dentry dentry).bind RfsInfo.rchain)) (flts rchain) ++
        [.infoReset]) s' ∧
      s'.dentry dentry = some (s.rootInfo rroot) := by
  cases rchain with
  | none =>
    rcases hr : s.infoReset noFail dentry (s.rootInfo rroot) with ⟨rv, s'⟩
    obtain ⟨rfl, h', d', m'⟩ := Fsr.infoHand_noFail hr
    exact ⟨s', by simp [rfsFsrenameAddDentry, hr], h', by simpa [dentryLog] using m', by simp [d']⟩
  | some c =>
    obtain ⟨⟨rv, c', s₁⟩, h, rfl, h₁, m₁⟩ :=
      (dentryLoop_noFail_any (l := ((s.dentry dentry).map fun _ => Obj.dentry dentry).toList ++ s.held)
        true rroot dentry c.rflts ((s.dentry dentry).bind RfsInfo.rchain)
        ((s.get ((s.dentry dentry).map fun _ => Obj.dentry dentry)).chainGet
          ((s.dentry dentry).bind RfsInfo.rchain)) (by simp)).exists
    dsimp only at h₁ m₁
    rcases hr : s₁.infoReset noFail dentry (s₁.rootInfo rroot) with ⟨rv', s₂⟩
    obtain ⟨rfl, h₂, d₂, m₂⟩ := Fsr.infoHand_noFail hr
    have hsw : s₂.held = (chainObj c').toList ++
        ((s.dentry dentry).map fun _ => Obj.dentry dentry).toList ++ s.held := by
      rw [h₂, h₁, List.append_assoc]
    refine ⟨{ s₂ with held := s.held }, ?_, rfl, ?_, ?_⟩
    · simp only [rfsFsrenameAddDentry, Fsr.dentryFind, h, except_ok_bind, ne_eq, not_true_eq_false,
        if_false, hr, Fsr.dentryPut, Fsr.put_swap hsw, Fsr.chainPut]
      rw [Fsr.put_head (s := { s₂ with held := (chainObj c').toList ++ s.held }) rfl]
      rfl
    · simpa using ((((Fsr.get_moves _).trans (Fsr.get_moves _)).trans m₁).trans m₂).trans
        (Fsr.Moves.held _ _)
    · simp [d₂, m₁.rootInfo, Fsr.get_eq, Fsr.chainGet]

theorem rfsFsrenameRroot_eq (ω : Outcomes) (add : Bool) (rroot : Nat) (rchain : Option RfsChain)
    (s : Fsr) : rfsFsrenameRroot ω add rroot rchain s = rrootLoop ω add rroot (flts rchain) s := by
  cases rchain <;> rfl

/-- What is left of a chain keeps every filter not removed from it. -/
theorem mem_foldl_rfsChainRem_of_not_mem {g : Flt} :
    ∀ {fs c : List Flt}, g ∉ fs → (g ∈ fs.foldl rfsChainRem c ↔ g ∈ c)
  | [], _, _ => Iff.rfl
  | f :: fs, c, hg => by
    rw [List.foldl_cons, mem_foldl_rfsChainRem_of_not_mem fun h => hg (List.mem_cons_of_mem _ h)]
    exact List.mem_erase_of_ne fun h => hg (h ▸ List.mem_cons_self _ _)

/-- The remove phase at root scope: the root loses `S \ D`, one filter and one
walk at a time; the add phase's difference against the root's new chain is
the one against `S`. -/
theorem rfsFsrenameRem_root {r : Nat} (dst : Option Nat) {dentry : Nat} {s : Fsr}
    (hroot : s.rootDentry r = dentry) :
    ∃ s', rfsFsrenameRem noFail (some r) dst dentry s = .ok (0, s') ∧ s'.held = s.held ∧
      s'.rootDentry = s.rootDentry ∧
      s'.log = s.log ++ rrootLog false r (rfsChainDiff (flts (s.rootChain r)) (s.rootFlts dst)) ∧
      (∀ x, x ≠ r → s'.rootInfo x = s.rootInfo x) ∧
      ∀ g ∈ s.rootFlts dst, g ∈ flts (s'.rootChain r) ↔ g ∈ flts (s.rootChain r) := by
  rcases hp : s.phaseChain noFail r dst with ⟨rc, s₁⟩
  obtain ⟨c, rfl, hc, h₁, -, m₁⟩ := Fsr.phaseChain_noFail hp
  obtain ⟨s₂, hl, h₂, -, l₂, rd₂, ri₂, c₂⟩ := rrootLoop_noFail false r (flts c) s₁
  refine ⟨{ s₂ with held := s.held }, ?_, rfl, rd₂.trans m₁.rootDentry, ?_, fun x hx => ?_, ?_⟩
  · simp only [rfsFsrenameRem, hp, m₁.rootDentry, hroot, if_true, rfsFsrenameRemRroot,
      rfsFsrenameRroot_eq, hl, except_pure, except_ok_bind, Fsr.chainPut, Fsr.put_head (h₂.trans h₁)]
  · simp [l₂, m₁.log, hc, Fsr.rootChain, m₁.rootInfo]
  · exact (ri₂ x hx).trans (congrFun m₁.rootInfo x)
  · intro g hg
    rw [show flts (({ s₂ with held := s.held } : Fsr).rootChain r) = flts (s₂.rootChain r) from rfl, c₂,
      chainFn_false, mem_foldl_rfsChainRem_of_not_mem (by simp [hc, hg]), Fsr.rootChain,
      m₁.rootInfo, ← Fsr.rootChain]

/-- The remove phase at entry scope: the entry is handed the chains of `S`
losing `S \ D` one filter at a time. -/
theorem rfsFsrenameRem_entry {r : Nat} (dst : Option Nat) {dentry : Nat} {s : Fsr}
    (hroot : s.rootDentry r ≠ dentry) :
    ∃ s', rfsFsrenameRem noFail (some r) dst dentry s = .ok (0, s') ∧ s'.held = s.held ∧
      s.Moves (dentryLog false (flts (s.rootChain r))
        (rfsChainDiff (flts (s.rootChain r)) (s.rootFlts dst))) s' ∧
      (rfsChainDiff (flts (s.rootChain r)) (s.rootFlts dst) = [] → s'.dentry dentry = s.dentry dentry) ∧
      (rfsChainDiff (flts (s.rootChain r)) (s.rootFlts dst) ≠ [] →
        ∃ c', (s'.dentry dentry).map RfsInfo.rchain = some c' ∧
          flts c' = (rfsChainDiff (flts (s.rootChain r)) (s.rootFlts dst)).foldl rfsChainRem
            (flts (s.rootChain r)) ∧ (c' = none ↔ flts c' = [])) := by
  rcases hp : s.phaseChain noFail r dst with ⟨rc, s₁⟩
  obtain ⟨c, rfl, hc, h₁, d₁, m₁⟩ := Fsr.phaseChain_noFail hp
  obtain ⟨s₂, hl, h₂, m₂, e₂, n₂⟩ := rfsFsrenameRemDentry_noFail r dentry c s₁
  have hr₁ : s₁.rootChain r = s.rootChain r := by rw [Fsr.rootChain, m₁.rootInfo, ← Fsr.rootChain]
  refine ⟨{ s₂ with held := s.held }, ?_, rfl, ?_, fun h => ?_, fun h => ?_⟩
  · simp only [rfsFsrenameRem, hp, m₁.rootDentry, hroot, if_false, hl, except_ok_bind, Fsr.chainPut,
      Fsr.put_head (h₂.trans h₁)]
    rfl
  · simpa [hc, hr₁] using (m₁.trans m₂).trans (Fsr.Moves.held _ _)
  · exact (e₂ (hc.trans h)).trans (congrFun d₁ dentry)
  · simpa [hc, hr₁] using n₂ (hc ▸ h)

/-- The set phase does nothing without both roots or at root scope. -/
theorem rfsFsrenameSet_skip (ω : Outcomes) {src dst : Option Nat} {dentry : Nat} {s : Fsr}
    (h : src = none ∨ dst = none ∨ ∃ r, src = some r ∧ s.rootDentry r = dentry) :
    rfsFsrenameSet ω src dst dentry s = .ok (0, s) := by
  rcases h with rfl | rfl | ⟨r, rfl, hr⟩
  · rfl
  · cases src <;> rfl
  · cases dst with
    | none => rfl
    | some d => simp [rfsFsrenameSet, hr]

/-- The set phase at entry scope: it dereferences the chain of the entry's
record, and with one re-sets the filters `D` shares with it. -/
theorem rfsFsrenameSet_entry {r d dentry : Nat} {s : Fsr} (hroot : s.rootDentry r ≠ dentry)
    {rc : Option RfsChain} (hrec : (s.dentry dentry).map RfsInfo.rchain = some rc) :
    (rc = none → rfsFsrenameSet noFail (some r) (some d) dentry s = .error .nullChain) ∧
    ∀ c, rc = some c → ∃ s', rfsFsrenameSet noFail (some r) (some d) dentry s = .ok (0, s') ∧
      s'.held = s.held ∧ s.Moves (setLog c.rflts (flts (s.rootChain d))) s' ∧
      (s'.dentry dentry).map RfsInfo.rchain = some (some c) := by
  obtain ⟨rinfo, hd, rfl⟩ := Option.map_eq_some'.1 hrec
  refine ⟨fun hc => by simp [rfsFsrenameSet, hroot, Fsr.dentryFind, hd, hc], fun c hc => ?_⟩
  obtain ⟨s₁, hl, h₁, d₁, m₁⟩ := setLoop_noFail d dentry c ((s.get (some (.dentry dentry))).rootChain d)
    c.rflts (s.get (some (.dentry dentry))) (by simp [Fsr.get_eq, hd, hc])
  refine ⟨{ s₁ with held := s.held }, ?_, rfl, ?_, d₁⟩
  · simp only [rfsFsrenameSet, hroot, if_false, Fsr.dentryFind, hd, hc, Option.map_some', hl,
      except_ok_bind, Fsr.dentryPut, Fsr.put_some_head (h₁.trans (Fsr.get_held _ _))]
    rfl
  · simpa [Fsr.get_eq, Fsr.rootChain] using ((Fsr.get_moves _).trans m₁).trans (Fsr.Moves.held _ _)

/-- The add phase at root scope: the source root gains `D \ S`, one filter and
one walk at a time. -/
theorem rfsFsrenameAdd_root {r d dentry : Nat} {s : Fsr} (hroot : s.rootDentry r = dentry) :
    ∃ s', rfsFsrenameAdd noFail (some r) (some d) dentry s = .ok (0, s') ∧ s'.held = s.held ∧
      s'.log = s.log ++ rrootLog true r (rfsChainDiff (flts (s.rootChain d)) (flts (s.rootChain r))) := by
  rcases hp : s.phaseChain noFail d (some r) with ⟨rc, s₁⟩
  obtain ⟨c, rfl, hc, h₁, -, m₁⟩ := Fsr.phaseChain_noFail hp
  obtain ⟨s₂, hl, h₂, -, l₂, -, -, -⟩ := rrootLoop_noFail true r (flts c) s₁
  refine ⟨{ s₂ with held := s.held }, ?_, rfl, ?_⟩
  · simp only [rfsFsrenameAdd, hp, m₁.rootDentry, hroot, if_true, rfsFsrenameAddRroot,
      rfsFsrenameRroot_eq, hl, except_pure, except_ok_bind, Fsr.chainPut, Fsr.put_head (h₂.trans h₁)]
  · simp [l₂, m₁.log, hc]

/-- The add phase at entry scope: the entry's chain gains `D \ S` one filter at a
time, and the entry is then reset to the destination root's info. -/
theorem rfsFsrenameAdd_entry (src : Option Nat) (d dentry : Nat) {s : Fsr}
    (hroot : ∀ r, src = some r → s.rootDentry r ≠ dentry) :
    ∃ s', rfsFsrenameAdd noFail src (some d) dentry s = .ok (0, s') ∧ s'.held = s.held ∧
      s.Moves (dentryLog true (flts ((s.dentry dentry).bind RfsInfo.rchain))
        (rfsChainDiff (flts (s.rootChain d)) (s.rootFlts src)) ++ [.infoReset]) s' ∧
      s'.dentry dentry = some (s.rootInfo d) := by
  rcases hp : s.phaseChain noFail d src with ⟨rc, s₁⟩
  obtain ⟨c, rfl, hc, h₁, d₁, m₁⟩ := Fsr.phaseChain_noFail hp
  obtain ⟨s₂, hl, h₂, m₂, e₂⟩ := rfsFsrenameAddDentry_noFail d dentry c s₁
  refine ⟨{ s₂ with held := s.held }, ?_, rfl, ?_, ?_⟩
  · cases src with
    | none =>
      simp only [rfsFsrenameAdd, hp, hl, except_ok_bind, Fsr.chainPut, Fsr.put_head (h₂.trans h₁)]
      rfl
    | some r =>
      simp only [rfsFsrenameAdd, hp, m₁.rootDentry, hroot r rfl, if_false, hl, except_ok_bind,
        Fsr.chainPut, Fsr.put_head (h₂.trans h₁)]
      rfl
  · simpa [hc, d₁] using (m₁.trans m₂).trans (Fsr.Moves.held _ _)
  · simpa [m₁.rootInfo] using e₂

/-! ### The three phases -/

/-- Without a source root only the add phase acts, at entry scope. -/
theorem rfsFsrenamePhases_noSrc {d : Nat} (dentry : Nat) {s : Fsr} (hD : (flts (s.rootChain d)).Nodup) :
    ∃ s' l, rfsFsrenamePhases noFail none (some d) dentry s = .ok (0, s') ∧ s'.held = s.held ∧
      s'.log = s.log ++ l ∧ Propagates false [] (flts (s.rootChain d)) l ∧
      (flts ((s.dentry dentry).bind RfsInfo.rchain) = [] →
        Recomputes (flts (s.rootChain d)) l (s'.dentry dentry)) := by
  obtain ⟨s₃, ha, h₃, m₃, e₃⟩ := rfsFsrenameAdd_entry none d dentry (s := s) (by simp)
  refine ⟨s₃, _, ?_, h₃, m₃.log, ?_, fun hA => ⟨?_, fun f => by simp [e₃, Fsr.rootChain]⟩⟩
  · simp only [rfsFsrenamePhases, rfsFsrenameRem, except_pure, except_ok_bind, ne_eq,
      not_true_eq_false, if_false, rfsFsrenameSet_skip noFail (Or.inl rfl), ha]
  · simpa using Propagates.entryPhases (S := []) (D := flts (s.rootChain d)) List.nodup_nil []
      (flts ((s.dentry dentry).bind RfsInfo.rchain))
  · simpa using entryPhases_adds (S := []) hD (c := []) (fun g hg => by simp [hA] at hg)

/-- At root scope the remove and add phases go to the source root, and the set
phase does nothing. -/
theorem rfsFsrenamePhases_root {r dentry : Nat} {dst : Option Nat} {s : Fsr}
    (hroot : s.rootDentry r = dentry) (hne : dst ≠ some r) :
    ∃ s' l, rfsFsrenamePhases noFail (some r) dst dentry s = .ok (0, s') ∧ s'.held = s.held ∧
      s'.log = s.log ++ l ∧ Propagates true (flts (s.rootChain r)) (s.rootFlts dst) l := by
  obtain ⟨s₁, hrem, h₁, rd₁, l₁, ri₁, c₁⟩ := rfsFsrenameRem_root dst hroot
  cases dst with
  | none =>
    refine ⟨s₁, _, ?_, h₁, l₁, by simpa using Propagates.root (S := flts (s.rootChain r)) (D := []) r⟩
    simp only [rfsFsrenamePhases, hrem, except_ok_bind, ne_eq, not_true_eq_false, if_false,
      rfsFsrenameSet_skip noFail (Or.inr (Or.inl rfl))]
    rfl
  | some d =>
    have hd : d ≠ r := fun h => hne (h ▸ rfl)
    obtain ⟨s₃, ha, h₃, l₃⟩ := rfsFsrenameAdd_root (d := d) (s := s₁) ((congrFun rd₁ r).trans hroot)
    refine ⟨s₃, _, ?_, h₃.trans h₁, by rw [l₃, l₁, List.append_assoc], ?_⟩
    · simp only [rfsFsrenamePhases, hrem, except_ok_bind, ne_eq, not_true_eq_false, if_false,
        rfsFsrenameSet_skip noFail (Or.inr (Or.inr ⟨r, rfl, (congrFun rd₁ r).trans hroot⟩)), ha]
    · have hD : flts (s₁.rootChain d) = flts (s.rootChain d) := by
        rw [Fsr.rootChain, ri₁ d hd, ← Fsr.rootChain]
      have hdiff : rfsChainDiff (flts (s₁.rootChain d)) (flts (s₁.rootChain r)) =
          rfsChainDiff (flts (s.rootChain d)) (flts (s.rootChain r)) := by
        rw [hD]
        exact List.filter_congr fun g hg => by simp [c₁ g hg]
      simpa [hdiff] using Propagates.root (S := flts (s.rootChain r)) (D := flts (s.rootChain d)) r

/-- The entry's chain after the remove phase at entry scope: "no chain" exactly
when `S` is nonempty and shares no filter with `D`, and, when the entry's
record held `S` on the way in, the filters `S` and `D` share. -/
theorem rfsFsrenameRem_entry_chain {r dentry : Nat} {dst : Option Nat} {s s₁ : Fsr}
    (hS : (flts (s.rootChain r)).Nodup)
    (hrec : ∃ c, (s.dentry dentry).map RfsInfo.rchain = some (some c))
    (e₁ : rfsChainDiff (flts (s.rootChain r)) (s.rootFlts dst) = [] → s₁.dentry dentry = s.dentry dentry)
    (n₁ : rfsChainDiff (flts (s.rootChain r)) (s.rootFlts dst) ≠ [] →
      ∃ c', (s₁.dentry dentry).map RfsInfo.rchain = some c' ∧
        flts c' = (rfsChainDiff (flts (s.rootChain r)) (s.rootFlts dst)).foldl rfsChainRem
          (flts (s.rootChain r)) ∧ (c' = none ↔ flts c' = [])) :
    ∃ rc, (s₁.dentry dentry).map RfsInfo.rchain = some rc ∧
      (rc = none ↔ flts (s.rootChain r) ≠ [] ∧ ∀ f ∈ flts (s.rootChain r), f ∉ s.rootFlts dst) ∧
      (flts ((s.dentry dentry).bind RfsInfo.rchain) = flts (s.rootChain r) →
        ∀ g ∈ flts rc, g ∈ flts (s.rootChain r) ∧ g ∈ s.rootFlts dst) := by
  by_cases hdiff : rfsChainDiff (flts (s.rootChain r)) (s.rootFlts dst) = []
  · obtain ⟨c, hc⟩ := hrec
    have hsub : ∀ g ∈ flts (s.rootChain r), g ∈ s.rootFlts dst := fun g hg => by
      by_contra hgD
      exact List.not_mem_nil g (hdiff ▸ mem_rfsChainDiff.2 ⟨hg, hgD⟩)
    refine ⟨some c, by rw [e₁ hdiff, hc], ⟨fun h => (nomatch h), fun ⟨hne, hall⟩ => ?_⟩, fun hA g hg => ?_⟩
    · obtain ⟨g, hg⟩ := List.exists_mem_of_ne_nil _ hne
      exact absurd (hsub g hg) (hall g hg)
    · obtain ⟨rinfo, hd, hrc⟩ := Option.map_eq_some'.1 hc
      have hg' : g ∈ flts (s.rootChain r) := by simpa [← hA, hd, hrc] using hg
      exact ⟨hg', hsub g hg'⟩
  · obtain ⟨c', hc', hf, hn⟩ := n₁ hdiff
    have hfold : ∀ g, g ∈ flts c' ↔ g ∈ flts (s.rootChain r) ∧ g ∈ s.rootFlts dst := fun g => by
      rw [hf, mem_foldl_rfsChainRem hS, mem_rfsChainDiff]
      by_cases hg : g ∈ s.rootFlts dst <;> simp [hg]
    refine ⟨c', hc', ?_, fun _ g hg => (hfold g).1 hg⟩
    rw [hn, List.eq_nil_iff_forall_not_mem]
    have hne : flts (s.rootChain r) ≠ [] := fun h => hdiff (by simp [h])
    simp only [hfold, not_and]
    exact ⟨fun h => ⟨hne, h⟩, fun h => h.2⟩

/-- At entry scope with a source root: the set phase dereferences the entry's
chain after the remove phase, which is "no chain" exactly in the
`RedirFS.Rename.NullAtSet` case. -/
theorem rfsFsrenamePhases_entry {r dentry : Nat} {dst : Option Nat} {s : Fsr}
    (hroot : s.rootDentry r ≠ dentry) (hrec : ∃ c, (s.dentry dentry).map RfsInfo.rchain = some (some c))
    (hS : (flts (s.rootChain r)).Nodup) (hD : (s.rootFlts dst).Nodup) :
    (NullAtSet s (some r) dst dentry →
      rfsFsrenamePhases noFail (some r) dst dentry s = .error .nullChain) ∧
    (¬ NullAtSet s (some r) dst dentry → ∃ s' l,
      rfsFsrenamePhases noFail (some r) dst dentry s = .ok (0, s') ∧ s'.held = s.held ∧
      s'.log = s.log ++ l ∧ Propagates false (flts (s.rootChain r)) (s.rootFlts dst) l ∧
      (flts ((s.dentry dentry).bind RfsInfo.rchain) = flts (s.rootChain r) →
        Recomputes (s.rootFlts dst) l (s'.dentry dentry))) := by
  obtain ⟨s₁, hrem, h₁, m₁, e₁, n₁⟩ := rfsFsrenameRem_entry dst hroot
  obtain ⟨rc, hrc, hnone, hsub⟩ := rfsFsrenameRem_entry_chain hS hrec e₁ n₁
  have hroot₁ : s₁.rootDentry r ≠ dentry := by rwa [m₁.rootDentry]
  cases dst with
  | none =>
    refine ⟨fun ⟨_, _, _, h, _⟩ => (nomatch h), fun _ => ⟨s₁, _, ?_, h₁, m₁.log, ?_, fun hA => ⟨?_, ?_⟩⟩⟩
    · simp only [rfsFsrenamePhases, hrem, except_ok_bind, ne_eq, not_true_eq_false, if_false,
        rfsFsrenameSet_skip noFail (Or.inr (Or.inl rfl))]
      rfl
    · simpa using Propagates.entry (D := []) hS [] rfl rfl (by simp) (by simp)
    · exact fun c f hf => absurd hf not_chainAdd_mem_dentryLog_false
    · intro f
      obtain ⟨rinfo, hd, rfl⟩ := Option.map_eq_some'.1 hrc
      simpa [hd] using fun hf => (hsub hA f hf).2
  | some d =>
    have hnull : NullAtSet s (some r) (some d) dentry ↔ rc = none := by
      simp only [NullAtSet, Option.some.injEq, ne_eq, exists_and_left, exists_eq_left', hroot,
        not_false_eq_true, true_and, hnone, Fsr.rootFlts_some]
    have hd₁ : s₁.rootChain d = s.rootChain d := by rw [Fsr.rootChain, m₁.rootInfo, ← Fsr.rootChain]
    obtain ⟨hset₀, hset⟩ := rfsFsrenameSet_entry (d := d) hroot₁ hrc
    refine ⟨fun h => ?_, fun h => ?_⟩
    · simp [rfsFsrenamePhases, hrem, hset₀ (hnull.1 h)]
    obtain ⟨c, rfl⟩ := Option.ne_none_iff_exists'.1 (mt hnull.2 h)
    obtain ⟨s₂, hs, h₂, m₂, d₂⟩ := hset c rfl
    obtain ⟨s₃, ha, h₃, m₃, e₃⟩ := rfsFsrenameAdd_entry (some r) d dentry (s := s₂)
      (fun r' hr' => by cases hr'; rwa [m₂.rootDentry])
    have hd₂ : s₂.rootChain d = s.rootChain d := by rw [Fsr.rootChain, m₂.rootInfo, ← Fsr.rootChain, hd₁]
    have hr₂ : s₂.rootChain r = s.rootChain r := by
      show (s₂.rootInfo r).rchain = (s.rootInfo r).rchain
      rw [m₂.rootInfo, m₁.rootInfo]
    have hc₂ : flts ((s₂.dentry dentry).bind RfsInfo.rchain) = c.rflts := by
      obtain ⟨rinfo, hd, hrc⟩ := Option.map_eq_some'.1 d₂
      simp [hd, hrc]
    refine ⟨s₃, _, ?_, h₃.trans (h₂.trans h₁), ((m₁.trans m₂).trans m₃).log, ?_, fun hA => ⟨?_, ?_⟩⟩
    · simp only [rfsFsrenamePhases, hrem, except_ok_bind, ne_eq, not_true_eq_false, if_false, hs, ha]
    · simpa only [Fsr.rootFlts_some, hd₁, hc₂, hd₂, hr₂, List.append_assoc] using
        Propagates.entryPhases (D := flts (s.rootChain d)) hS c.rflts c.rflts
    · simpa only [Fsr.rootFlts_some, hd₁, hc₂, hd₂, hr₂, List.append_assoc, List.mem_append,
        List.mem_singleton, reduceCtorEq, or_false, flts_some] using
        entryPhases_adds (D := flts (s.rootChain d)) hD (c := c.rflts) fun g hg => (hsub hA g hg).1
    · intro f
      have hd₂' : (s₂.rootInfo d).rchain = (s.rootInfo d).rchain := hd₂
      simp [e₃, Fsr.rootChain, hd₂']

/-! ### The whole rename -/

/-- The exit of `rfs_fsrename`, on a run that returned holding what the lookups
took on top of `l`: it drops those references and changes nothing else. -/
theorem exit_ok {l : List Obj} {a b d : Option Obj} {o : Obj} {rv : Int} {s : Fsr}
    (h : s.held = a.toList ++ (b.toList ++ (d.toList ++ o :: l))) :
    (do
      let s ← s.put a
      let s ← s.put b
      let s ← s.put (some o)
      let s ← s.put d
      pure (rv, s) : Except Crash (Int × Fsr)) = .ok (rv, { s with held := l }) := by
  rw [Fsr.put_head h, except_ok_bind, Fsr.put_head rfl, except_ok_bind, Fsr.put_under rfl,
    except_ok_bind, Fsr.put_head rfl, except_ok_bind]
  rfl

/-- Between two directories and two different roots, `rfs_fsrename` runs its
phases on `s` with the references of the lookups taken, and its exit drops
them again. -/
theorem rfsFsrename_phases (ω : Outcomes) {oldDir oldDentry newDir : Nat} {s : Fsr} (hmove : oldDir ≠ newDir)
    (hne : srcOf (s.dentry oldDentry) ≠ dstOf (s.inode newDir)) : ∃ H : List Obj,
    (∀ e, rfsFsrenamePhases ω (srcOf (s.dentry oldDentry)) (dstOf (s.inode newDir)) oldDentry
      { s with held := H } = .error e → rfsFsrename ω oldDir oldDentry newDir s = .error e) ∧
    (∀ rv s', rfsFsrenamePhases ω (srcOf (s.dentry oldDentry)) (dstOf (s.inode newDir)) oldDentry
      { s with held := H } = .ok (rv, s') → s'.held = H →
      rfsFsrename ω oldDir oldDentry newDir s = .ok (rv, { s' with held := s.held })) := by
  refine ⟨((srcOf (s.dentry oldDentry)).map Obj.root).toList ++
    (((dstOf (s.inode newDir)).map Obj.root).toList ++
    (((s.dentry oldDentry).map fun _ => Obj.dentry oldDentry).toList ++ Obj.inode newDir :: s.held)),
    fun e he => ?_, fun rv s' hp hh => ?_⟩ <;>
  simp only [rfsFsrename, if_neg hmove, Fsr.inodeFind, Fsr.dentryFind, Fsr.rootGet, Fsr.acquire,
    Fsr.get_eq, if_neg hne, List.append_assoc]
  · rw [he]
    rfl
  · rw [hp]
    exact exit_ok hh

/-- The source root `rfs_fsrename` finds comes from a record with a chain. -/
theorem srcOf_eq_some {rdentry : Option RfsInfo} {r : Nat} (h : srcOf rdentry = some r) :
    ∃ c, rdentry.map RfsInfo.rchain = some (some c) := by
  cases rdentry with
  | none => cases h
  | some rinfo =>
    simp only [srcOf] at h
    split_ifs at h with hc
    exact ⟨rinfo.rchain.get hc, by simp⟩

/-- **What a rename hands to the namespace.** Between two directories, from a
source root with chain `S` to a different destination root with chain `D`
(either absent, each without duplicates), a run in which no collaborator
fails either stops at the NULL chain of `rfs_fsrename_set`, exactly in the
`RedirFS.Rename.NullAtSet` case, or returns `0` having made the calls `l`
of a `RedirFS.Rename.Propagates` log at the scope of the moved entry. At entry
scope, when the entry's record held `S` on the way in, every `rfs_chain_add`
adds a filter its input lacks and the entry ends with the filters of `D`. -/
theorem rfsFsrename_propagates {oldDir oldDentry newDir : Nat} {src dst : Option Nat} {s : Fsr}
    (hmove : oldDir ≠ newDir) (hsrc : srcOf (s.dentry oldDentry) = src)
    (hdst : dstOf (s.inode newDir) = dst) (hne : src ≠ dst)
    (hS : (s.rootFlts src).Nodup) (hD : (s.rootFlts dst).Nodup) :
    (NullAtSet s src dst oldDentry →
      rfsFsrename noFail oldDir oldDentry newDir s = .error .nullChain) ∧
    (¬ NullAtSet s src dst oldDentry → ∃ s' l,
      rfsFsrename noFail oldDir oldDentry newDir s = .ok (0, s') ∧ s'.log = s.log ++ l ∧
      Propagates (rootScope s src oldDentry) (s.rootFlts src) (s.rootFlts dst) l ∧
      (rootScope s src oldDentry = false →
        flts ((s.dentry oldDentry).bind RfsInfo.rchain) = s.rootFlts src →
        Recomputes (s.rootFlts dst) l (s'.dentry oldDentry))) := by
  obtain ⟨H, herr, hok⟩ := rfsFsrename_phases noFail hmove (hsrc ▸ hdst ▸ hne)
  rw [hsrc, hdst] at herr hok
  cases src with
  | none =>
    obtain ⟨d, rfl⟩ := Option.ne_none_iff_exists'.1 (Ne.symm hne)
    obtain ⟨s', l, hp, hh, hl, hprop, hrec⟩ :=
      rfsFsrenamePhases_noSrc oldDentry (s := { s with held := H }) hD
    exact ⟨fun ⟨_, _, h, _⟩ => (nomatch h), fun _ => ⟨_, l, hok 0 s' hp hh, hl, hprop, fun _ => hrec⟩⟩
  | some r =>
    by_cases hroot : s.rootDentry r = oldDentry
    · have hscope : rootScope s (some r) oldDentry = true := by simp [rootScope, hroot]
      obtain ⟨s', l, hp, hh, hl, hprop⟩ :=
        rfsFsrenamePhases_root (s := { s with held := H }) hroot (Ne.symm hne)
      refine ⟨fun ⟨_, _, h, _, hr, _⟩ => by cases h; exact absurd hroot hr, fun _ => ?_⟩
      exact ⟨_, l, hok 0 s' hp hh, hl, hscope ▸ hprop, by simp [hscope]⟩
    · have hscope : rootScope s (some r) oldDentry = false := by simp [rootScope, hroot]
      obtain ⟨hnull, hret⟩ :=
        rfsFsrenamePhases_entry (s := { s with held := H }) hroot (srcOf_eq_some hsrc) hS hD
      refine ⟨fun h => herr _ (hnull h), fun h => ?_⟩
      obtain ⟨s', l, hp, hh, hl, hprop, hrec⟩ := hret h
      exact ⟨_, l, hok 0 s' hp hh, hl, hscope ▸ hprop, fun _ => hrec⟩

/-- The world of the NULL chain: entry `5` moves out of directory `1` into
directory `2`. Its record is under root `0`, whose chain holds filter `1`, and
directory `2` is under root `1`, whose chain holds filter `2`. -/
def nullWorld : Fsr where
  inode := fun _ => ⟨10, some 1, some ⟨21, [2]⟩⟩
  dentry := fun _ => some ⟨11, some 0, some ⟨20, [1]⟩⟩
  rootDentry := fun r => r + 100
  rootInfo := fun r => if r = 0 then ⟨12, some 0, some ⟨20, [1]⟩⟩ else ⟨13, some 1, some ⟨21, [2]⟩⟩
  next := 30
  calls := 0
  held := []
  log := []

theorem rfsFsrename_nullWorld :
    NullAtSet nullWorld (some 0) (some 1) 5 ∧ rfsFsrename noFail 1 5 2 nullWorld = .error .nullChain :=
  have h : NullAtSet nullWorld (some 0) (some 1) 5 :=
    ⟨0, 1, rfl, rfl, by decide, by decide, by decide⟩
  ⟨h, (rfsFsrename_propagates (by decide) rfl rfl (by decide) (by decide) (by decide)).1 h⟩

end Rename

end RedirFS
