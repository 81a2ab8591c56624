import RedirFS.Rename.Propagate

/-!
# Rename propagation: every reference taken is dropped

The three phases of `rfs_fsrename` leave each loop iteration through two or
three failure exits. Each exit swaps the chain references in its own order
(`rchrem`/`rchadd` against `rchnew`, then the `rfs_info` of the iteration).
This file proves that on every path, for every combination of outcomes `ω`
of the collaborator calls, the rename drops exactly the references it takes:

* `RedirFS.Rename.rfsFsrename_keeps`: a run that returns leaves the ledger
  `held` as it found it. A run that does not return stopped at the NULL chain
  of `rfs_fsrename_set`, never at the put of a reference it did not hold.

The proof follows the call tree. The helpers that cannot fail
(`rfs_fsrename_rem`, `rfs_fsrename_add` and their scopes) return with the
ledger unchanged. The two chain loops hold one chain reference more than they
started with, the one their caller drops after `exit:`. `RedirFS.Rename.Keeps`
carries the statement through the binds of the code.
-/

namespace RedirFS

namespace Rename

variable {ω : Outcomes} {s s' : Fsr}

/-! ### The ledger operations -/

@[simp] theorem Fsr.get_held (s : Fsr) (o : Option Obj) : (s.get o).held = o.toList ++ s.held := by
  cases o <;> rfl

@[simp] theorem Fsr.chainGet_held (s : Fsr) (c : Option RfsChain) :
    (s.chainGet c).held = (chainObj c).toList ++ s.held :=
  s.get_held _

/-- The put of the second of two references on top of the ledger leaves the
first: the swap of `rchrem` against `rchnew`, and the put of the `rfs_inode`
under the `rfs_dentry`. -/
theorem Fsr.put_swap {a b : Option Obj} {l : List Obj} (h : s.held = a.toList ++ b.toList ++ l) :
    s.put b = .ok { s with held := a.toList ++ l } := by
  cases b with
  | none =>
    simp only [Option.toList_none, List.append_nil] at h
    rw [Fsr.put, ← h]
  | some y =>
    have hy : y ∈ s.held := by simp [h]
    simp only [Fsr.put, Fsr.release, hy, if_true, Except.ok.injEq]
    congr
    cases a with
    | none => simp [h]
    | some x => by_cases hxy : x = y <;> simp [h, List.erase_cons, hxy]

theorem Fsr.put_head {o : Option Obj} {l : List Obj} (h : s.held = o.toList ++ l) :
    s.put o = .ok { s with held := l } :=
  Fsr.put_swap (a := none) (by simpa using h)

theorem Fsr.put_some_head {o : Obj} {l : List Obj} (h : s.held = o :: l) :
    s.put (some o) = .ok { s with held := l } :=
  Fsr.put_head h

/-- The put of the `rfs_inode` from under the `rfs_dentry`. -/
theorem Fsr.put_under {d : Option Obj} {o : Obj} {l : List Obj} (h : s.held = d.toList ++ o :: l) :
    s.put (some o) = .ok { s with held := d.toList ++ l } :=
  Fsr.put_swap (by simpa using h)

/-! ### The collaborators -/

theorem Fsr.chainOp_error {ev : List Event} {fs : List Flt} {e : Errno}
    (h : s.chainOp ω ev fs = (.error e, s')) : s'.held = s.held := by
  unfold Fsr.chainOp Fsr.call at h
  cases hω : ω s.calls <;> rw [hω] at h <;> cases h
  rfl

theorem Fsr.chainOp_ok {ev : List Event} {fs : List Flt} {c : Option RfsChain}
    (h : s.chainOp ω ev fs = (.ok c, s')) : s'.held = (chainObj c).toList ++ s.held := by
  unfold Fsr.chainOp Fsr.call at h
  cases hω : ω s.calls <;> rw [hω] at h <;> cases h
  exact Fsr.chainGet_held _ _

theorem Fsr.infoAlloc_error {rroot : Nat} {c : Option RfsChain} {e : Errno}
    (h : s.infoAlloc ω rroot c = (.error e, s')) : s'.held = s.held := by
  unfold Fsr.infoAlloc Fsr.call at h
  cases hω : ω s.calls <;> rw [hω] at h <;> cases h
  rfl

theorem Fsr.infoAlloc_ok {rroot : Nat} {c : Option RfsChain} {rinfo : RfsInfo}
    (h : s.infoAlloc ω rroot c = (.ok rinfo, s')) : s'.held = .info rinfo.id :: s.held := by
  unfold Fsr.infoAlloc Fsr.call at h
  cases hω : ω s.calls <;> rw [hω] at h <;> cases h
  rfl

theorem Fsr.phaseChain_error {a : Nat} {b : Option Nat} {e : Errno}
    (h : s.phaseChain ω a b = (.error e, s')) : s'.held = s.held := by
  cases b with
  | none => cases h
  | some b => exact Fsr.chainOp_error h

theorem Fsr.phaseChain_ok {a : Nat} {b : Option Nat} {c : Option RfsChain}
    (h : s.phaseChain ω a b = (.ok c, s')) : s'.held = (chainObj c).toList ++ s.held := by
  cases b with
  | none =>
    cases h
    exact Fsr.chainGet_held _ _
  | some b => exact Fsr.chainOp_ok h

@[simp] theorem Fsr.infoHand_held (s : Fsr) (ev : Event) (dentry : Nat) (rinfo : RfsInfo) :
    (s.infoHand ω ev dentry rinfo).2.held = s.held := by
  unfold Fsr.infoHand Fsr.call
  cases ω s.calls <;> rfl

theorem Fsr.held_of_infoHand {ev : Event} {dentry : Nat} {rinfo : RfsInfo} {p : Int × Fsr}
    (h : s.infoHand ω ev dentry rinfo = p) : p.2.held = s.held :=
  h ▸ s.infoHand_held ev dentry rinfo

@[simp] theorem Fsr.rootFlt_held (ω : Outcomes) (s : Fsr) (add : Bool) (rroot : Nat) (f : Flt) :
    (s.rootFlt ω add rroot f).2.held = s.held := by
  unfold Fsr.rootFlt Fsr.call
  cases ω s.calls <;> rfl

@[simp] theorem Fsr.rootWalk_held (ω : Outcomes) (s : Fsr) (add : Bool) (f : Flt) :
    (s.rootWalk ω add f).2.held = s.held := by
  unfold Fsr.rootWalk Fsr.call
  cases ω s.calls <;> rfl

/-! ### The loops -/

theorem rrootLoop_held (add : Bool) (rroot : Nat) :
    ∀ (fs : List Flt) (s : Fsr), (rrootLoop ω add rroot fs s).2.held = s.held
  | [], _ => rfl
  | f :: fs, s => by
    have h₁ := s.rootFlt_held ω add rroot f
    rcases hf : s.rootFlt ω add rroot f with ⟨rv, s₁⟩
    rw [hf] at h₁
    have h₂ := s₁.rootWalk_held ω add f
    rcases hw : s₁.rootWalk ω add f with ⟨rv', s₂⟩
    rw [hw] at h₂
    simp only [rrootLoop, hf, hw]
    split_ifs
    · exact h₁
    · exact h₂.trans h₁
    · exact (rrootLoop_held add rroot fs s₂).trans (h₂.trans h₁)

theorem dentryLoop_held (ω : Outcomes) (add : Bool) (rroot dentry : Nat) {l : List Obj} :
    ∀ (fs : List Flt) (c : Option RfsChain) (s : Fsr), s.held = (chainObj c).toList ++ l →
      ∃ rv c' s', dentryLoop ω add rroot dentry fs c s = .ok (rv, c', s') ∧
        s'.held = (chainObj c').toList ++ l
  | [], c, s, h => ⟨0, c, s, rfl, h⟩
  | f :: fs, c, s, h => by
    rcases hc : s.chainStep ω add c f with ⟨e | cnew, s₁⟩
    · exact ⟨e.rv, c, s₁, by simp only [dentryLoop, hc]; rfl, by rw [Fsr.chainOp_error hc, h]⟩
    have h₁ : s₁.held = (chainObj cnew).toList ++ (chainObj c).toList ++ l := by
      rw [Fsr.chainOp_ok hc, h, List.append_assoc]
    rcases ha : ({ s₁ with held := (chainObj cnew).toList ++ l } : Fsr).infoAlloc ω rroot cnew
      with ⟨e | rinfo, s₃⟩
    · refine ⟨e.rv, cnew, s₃, ?_, by rw [Fsr.infoAlloc_error ha]⟩
      simp only [dentryLoop, hc, Fsr.chainPut, Fsr.put_swap h₁, except_ok_bind, ha]
      rfl
    have h₃ : s₃.held = .info rinfo.id :: ((chainObj cnew).toList ++ l) := Fsr.infoAlloc_ok ha
    rcases hi : s₃.infoStep ω add dentry rinfo f with ⟨rv, s₄⟩
    have h₄ : s₄.held = .info rinfo.id :: ((chainObj cnew).toList ++ l) :=
      (Fsr.held_of_infoHand hi).trans h₃
    simp only [dentryLoop, hc, Fsr.chainPut, Fsr.put_swap h₁, except_ok_bind, ha, hi, Fsr.infoPut,
      Fsr.put_some_head h₄]
    split_ifs
    · exact ⟨rv, cnew, _, rfl, rfl⟩
    · exact dentryLoop_held ω add rroot dentry fs cnew _ rfl

theorem setLoop_held (ω : Outcomes) (rroot dentry : Nat) (rchainSrc rchainDst : Option RfsChain) :
    ∀ (fs : List Flt) (s : Fsr), ∃ rv s', setLoop ω rroot dentry rchainSrc rchainDst fs s =
      .ok (rv, s') ∧ s'.held = s.held
  | [], s => ⟨0, s, rfl, rfl⟩
  | f :: fs, s => by
    by_cases hf : rfsChainFind (flts rchainDst) f = -1
    · simpa only [setLoop, hf, if_true] using setLoop_held ω rroot dentry rchainSrc rchainDst fs s
    rcases ha : s.infoAlloc ω rroot rchainSrc with ⟨e | rinfo, s₁⟩
    · exact ⟨e.rv, s₁, by simp only [setLoop, hf, if_false, ha]; rfl, Fsr.infoAlloc_error ha⟩
    rcases hi : s₁.infoSet ω dentry rinfo f with ⟨rv, s₂⟩
    have h₂ : s₂.held = .info rinfo.id :: s.held :=
      (Fsr.held_of_infoHand hi).trans (Fsr.infoAlloc_ok ha)
    simp only [setLoop, hf, if_false, ha, hi, Fsr.infoPut, Fsr.put_some_head h₂, except_ok_bind]
    split_ifs
    · exact ⟨rv, _, rfl, rfl⟩
    · exact setLoop_held ω rroot dentry rchainSrc rchainDst fs _

/-! ### Carrying the ledger through the code -/

/-- What a run leaves of the ledger: one that returns holds `held`; one that
does not return stopped at the NULL chain of `rfs_fsrename_set`. -/
def Keeps {α : Type} (held : List Obj) : Except Crash (α × Fsr) → Prop
  | .ok p => p.2.held = held
  | .error e => e = .nullChain

theorem Keeps.bind {α β : Type} {m l : List Obj} {x : Except Crash (α × Fsr)}
    {k : α × Fsr → Except Crash (β × Fsr)}
    (hx : Keeps m x) (hk : ∀ a s, s.held = m → Keeps l (k (a, s))) : Keeps l (x >>= k) :=
  match x, hx with
  | .ok (a, s), hx => hk a s hx
  | .error _, hx => hx

theorem Keeps.put {β : Type} {l : List Obj} {o : Option Obj} {k : Fsr → Except Crash (β × Fsr)}
    (h : s.put o = .ok s') (hk : Keeps l (k s')) : Keeps l (s.put o >>= k) := by
  rw [h]
  exact hk

/-- The tail of `rfs_fsrename_rem` and `rfs_fsrename_add`: the put of the
chain the phase worked through, which the phase took on top of `l`. -/
theorem Keeps.putChain {m l : List Obj} {x : Except Crash (Int × Fsr)} {c : Option RfsChain}
    (hx : Keeps m x) (h : m = (chainObj c).toList ++ l) :
    Keeps l (x >>= fun y => do let s ← y.2.chainPut c; pure (y.1, s)) :=
  Keeps.bind hx fun _ _ h₂ => Keeps.put (Fsr.put_head (h₂.trans h)) rfl

/-- The exit of `rfs_fsrename`: the puts of the two roots, the `rfs_inode` and
the `rfs_dentry` drop what the lookups took on top of `l`. The `rfs_inode` is
put from under the `rfs_dentry`. -/
theorem Keeps.exit {l : List Obj} {a b d : Option Obj} {o : Obj} {x : Except Crash (Int × Fsr)}
    (hx : Keeps (a.toList ++ b.toList ++ d.toList ++ o :: l) x) :
    Keeps l (x >>= fun y => do
      let s ← y.2.put a
      let s ← s.put b
      let s ← s.put (some o)
      let s ← s.put d
      pure (y.1, s)) :=
  Keeps.bind hx fun _ _ h =>
    Keeps.put (Fsr.put_head (h.trans (by simp))) <|
    Keeps.put (Fsr.put_head rfl) <| Keeps.put (Fsr.put_swap rfl) <| Keeps.put (Fsr.put_head rfl) rfl

theorem rfsFsrenameRroot_held (add : Bool) (rroot : Nat) (rchain : Option RfsChain) (s : Fsr) :
    (rfsFsrenameRroot ω add rroot rchain s).2.held = s.held := by
  cases rchain with
  | none => rfl
  | some c => exact rrootLoop_held add rroot c.rflts s

theorem rfsFsrenameRemDentry_keeps (rroot : Nat) (rchain : Option RfsChain) (dentry : Nat)
    (s : Fsr) : Keeps s.held (rfsFsrenameRemDentry ω rroot rchain dentry s) := by
  cases rchain with
  | none => rfl
  | some c =>
    obtain ⟨rv, c', s₁, h, h₁⟩ :=
      dentryLoop_held ω false rroot dentry c.rflts _ _ (s.chainGet_held (s.rootChain rroot))
    simp only [rfsFsrenameRemDentry, h, except_ok_bind]
    exact Keeps.put (Fsr.put_head h₁) rfl

theorem rfsFsrenameAddDentry_keeps (rroot : Nat) (rchain : Option RfsChain) (dentry : Nat)
    (s : Fsr) : Keeps s.held (rfsFsrenameAddDentry ω rroot rchain dentry s) := by
  cases rchain with
  | none => exact s.infoHand_held _ _ _
  | some c =>
    let s₀ := s.get ((s.dentry dentry).map fun _ => .dentry dentry)
    obtain ⟨rv, c', s₁, h, h₁⟩ := dentryLoop_held ω true rroot dentry c.rflts _ _
      (s₀.chainGet_held ((s.dentry dentry).bind (·.rchain)))
    have h₁ : s₁.held = (chainObj c').toList ++ ((s.dentry dentry).map fun _ => .dentry dentry).toList
        ++ s.held := by
      rw [h₁, Fsr.get_held, List.append_assoc]
    simp only [rfsFsrenameAddDentry, Fsr.dentryFind, h, except_ok_bind]
    split_ifs
    · exact Keeps.put (Fsr.put_swap h₁) (Keeps.put (Fsr.put_head rfl) rfl)
    · exact Keeps.put (Fsr.put_swap ((s₁.infoHand_held _ _ _).trans h₁))
        (Keeps.put (Fsr.put_head rfl) rfl)

theorem rfsFsrenameRem_keeps (src dst : Option Nat) (dentry : Nat) (s : Fsr) :
    Keeps s.held (rfsFsrenameRem ω src dst dentry s) := by
  cases src with
  | none => rfl
  | some src =>
    rcases hp : s.phaseChain ω src dst with ⟨e | c, s₁⟩
    · simpa only [rfsFsrenameRem, hp] using Fsr.phaseChain_error hp
    simp only [rfsFsrenameRem, hp]
    split_ifs
    · exact Keeps.putChain (rfsFsrenameRroot_held false src c s₁) (Fsr.phaseChain_ok hp)
    · exact Keeps.putChain (rfsFsrenameRemDentry_keeps src c dentry s₁) (Fsr.phaseChain_ok hp)

theorem rfsFsrenameSet_keeps (src dst : Option Nat) (dentry : Nat) (s : Fsr) :
    Keeps s.held (rfsFsrenameSet ω src dst dentry s) := by
  unfold rfsFsrenameSet
  split
  next src dst =>
    split_ifs
    · rfl
    cases hd : s.dentry dentry with
    | none => simp only [Fsr.dentryFind, hd]; rfl
    | some rinfo =>
      cases hc : rinfo.rchain with
      | none => simp only [Fsr.dentryFind, hd, hc]; rfl
      | some c =>
        let s₀ := s.get (some (.dentry dentry))
        obtain ⟨rv, s₁, h, h₁⟩ := setLoop_held ω dst dentry (some c) (s₀.rootChain dst) c.rflts s₀
        simp only [Fsr.dentryFind, hd, hc, Option.map_some', h, except_ok_bind]
        exact Keeps.put (Fsr.put_head (h₁.trans (Fsr.get_held _ _))) rfl
  · rfl

theorem rfsFsrenameAdd_keeps (src dst : Option Nat) (dentry : Nat) (s : Fsr) :
    Keeps s.held (rfsFsrenameAdd ω src dst dentry s) := by
  cases dst with
  | none => rfl
  | some dst =>
    rcases hp : s.phaseChain ω dst src with ⟨e | c, s₁⟩
    · simpa only [rfsFsrenameAdd, hp] using Fsr.phaseChain_error hp
    simp only [rfsFsrenameAdd, hp]
    split
    · split_ifs
      · exact Keeps.putChain (rfsFsrenameRroot_held true _ c s₁) (Fsr.phaseChain_ok hp)
      · exact Keeps.putChain (rfsFsrenameAddDentry_keeps dst c dentry s₁) (Fsr.phaseChain_ok hp)
    · exact Keeps.putChain (rfsFsrenameAddDentry_keeps dst c dentry s₁) (Fsr.phaseChain_ok hp)

theorem rfsFsrenamePhases_keeps (src dst : Option Nat) (dentry : Nat) (s : Fsr) :
    Keeps s.held (rfsFsrenamePhases ω src dst dentry s) := by
  refine Keeps.bind (rfsFsrenameRem_keeps src dst dentry s) fun rv s₁ h₁ => ?_
  dsimp only
  split_ifs
  · exact h₁
  · refine Keeps.bind (rfsFsrenameSet_keeps src dst dentry s₁) fun rv' s₂ h₂ => ?_
    dsimp only
    split_ifs
    · exact h₂.trans h₁
    · exact h₁ ▸ h₂ ▸ rfsFsrenameAdd_keeps src dst dentry s₂

/-- **Every reference `rfs_fsrename` takes, it drops, once.** For every
combination of outcomes of the collaborator calls, a run that returns leaves
the ledger as it found it, and no run stops at the put of a reference it does
not hold: the only way a run does not return is the NULL chain of
`rfs_fsrename_set`. -/
theorem rfsFsrename_keeps (ω : Outcomes) (oldDir oldDentry newDir : Nat) (s : Fsr) :
    Keeps s.held (rfsFsrename ω oldDir oldDentry newDir s) := by
  unfold rfsFsrename
  split_ifs
  · rfl
  simp only [Fsr.inodeFind, Fsr.dentryFind, Fsr.rootGet]
  split_ifs
  · exact Keeps.exit (by simp [Keeps])
  · refine Keeps.exit ?_
    convert rfsFsrenamePhases_keeps _ _ oldDentry _ using 1
    simp

end Rename

end RedirFS
