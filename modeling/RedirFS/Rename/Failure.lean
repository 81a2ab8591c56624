import RedirFS.Rename.Delta

/-!
# Rename propagation: the first failure ends the rename

`rfs_fsrename` makes its collaborator calls one after another and tests each
result. The spec says that a per-filter step that fails aborts the phase and
returns the failure to the caller, and that nothing done before is rolled
back. This file compares, for every combination of outcomes `ω`, the run
under `ω` with the run from the same state in which no call fails
(`RedirFS.Rename.noFail`):

* `RedirFS.Rename.rfsFsrename_cut_of_noFail`: when the run with no failure
  returns, the run under `ω` returns too, and it is *cut* from it
  (`RedirFS.Rename.Cut`). Either no call it made failed and it is that run, or
  it stopped at its first failing call: it made no call after it, returned
  its error, and its log of namespace calls is a prefix of the log of the run
  with no failure. What it had detached or attached by then stays so.

Together with `RedirFS.Rename.Propagates`, which says what the run with no
failure logs, this is what a failed rename leaves behind.

## The proof

Every call that can fail goes through `RedirFS.Rename.Fsr.call`, which reads
`ω` at the number of calls made so far (`RedirFS.Rename.Fsr.call_split`). The
two runs make the same calls until the first one that `ω` fails. Each
function of the code gets one lemma, from the innermost loop out, and
`RedirFS.Rename.Cut` carries the comparison through the binds of the code:
`RedirFS.Rename.Cut.cont` where the code goes on after a part returned `0`,
`RedirFS.Rename.Cut.stop` where it returns the error of a part, and
`RedirFS.Rename.Cut.put` for the puts on the way out. A run under `ω` returns
because the puts it makes after a failure find the references that the
ledger of `RedirFS.Rename.Keeps` says it holds.
-/

namespace RedirFS

namespace Rename

/-! ### Runs cut at their first failure -/

/-- No call numbered from `a` up to `b` fails, and `a ≤ b`. -/
def Fine (ω : Outcomes) (a b : Nat) : Prop := a ≤ b ∧ ∀ k, a ≤ k → k < b → ω k = none

/-- The run from `s` that returned `rv` in `s₁` stopped at its first failing
call: its last call, number `n`, failed with `e`, every call before it
succeeded, and `rv` is the error of `e`. -/
def Stopped (ω : Outcomes) (s : Fsr) (rv : Int) (s₁ : Fsr) : Prop :=
  ∃ n e, s₁.calls = n + 1 ∧ Fine ω s.calls n ∧ ω n = some e ∧ rv = e.rv

/-- How the run under `ω` from `s`, which returned `rv` in `s₁`, stands to the
run from `s` in which no call fails, which ended in `s₀`. It only added to
the log, and either no call of it failed and it is that run, or it stopped
at its first failing call with a log that the run with no failure extends. -/
def Cut (ω : Outcomes) (s s₀ : Fsr) (rv : Int) (s₁ : Fsr) : Prop :=
  s.log <+: s₁.log ∧
    (rv = 0 ∧ s₁ = s₀ ∧ Fine ω s.calls s₁.calls ∨ Stopped ω s rv s₁ ∧ s₁.log <+: s₀.log)

variable {ω : Outcomes} {s t s₀ s₁ : Fsr}

theorem Fine.refl (ω : Outcomes) (a : Nat) : Fine ω a a :=
  ⟨le_rfl, fun _ h₁ h₂ => absurd h₂ (by omega)⟩

theorem Fine.trans {a b c : Nat} (h₁ : Fine ω a b) (h₂ : Fine ω b c) : Fine ω a c :=
  ⟨h₁.1.trans h₂.1, fun k ha hc => if hb : k < b then h₁.2 k ha hb else h₂.2 k (by omega) hc⟩

theorem Fine.step {a b : Nat} (hb : b = a + 1) (h : ω a = none) : Fine ω a b :=
  ⟨by omega, fun k h₁ h₂ => by rwa [show k = a by omega]⟩

/-- A bind of the code that returns: its first part returned. -/
theorem bind_eq_ok {ε α β : Type} {x : Except ε α} {k : α → Except ε β} {b : β}
    (h : x >>= k = .ok b) : ∃ a, x = .ok a ∧ k a = .ok b :=
  match x, h with
  | .ok a, h => ⟨a, rfl, h⟩

/-- A part of the code that makes no call. -/
theorem Cut.refl (ω : Outcomes) (s : Fsr) : Cut ω s s 0 s :=
  ⟨List.prefix_refl _, .inl ⟨rfl, rfl, Fine.refl ω _⟩⟩

/-- The run in which no call fails only adds to the log and makes calls, and returns `0`. -/
theorem Cut.noFail_grows {rv : Int} (h : Cut noFail s s₀ rv s₀) :
    s.log <+: s₀.log ∧ s.calls ≤ s₀.calls ∧ rv = 0 := by
  obtain ⟨hl, ⟨rfl, -, hf⟩ | ⟨⟨n, e, -, -, he, -⟩, -⟩⟩ := h
  · exact ⟨hl, hf.1, rfl⟩
  · cases he

/-- A run that returned `0` is the run with no failure. -/
theorem Cut.eq_of_zero (h : Cut ω s s₀ 0 s₁) : s₁ = s₀ := by
  obtain ⟨-, ⟨-, h, -⟩ | ⟨⟨n, e, -, -, -, he⟩, -⟩⟩ := h
  · exact h
  · exact absurd he.symm e.rv_ne_zero

/-- A run whose first part returned an error stops there: it is cut where that part was. -/
theorem Cut.stop {t₀ : Fsr} {rv : Int} (h : Cut ω s t₀ rv t) (hrv : rv ≠ 0)
    (h₀ : t₀.log <+: s₀.log) : Cut ω s s₀ rv t := by
  obtain ⟨hl, ⟨rfl, -, -⟩ | ⟨hs, ht⟩⟩ := h
  · exact absurd rfl hrv
  · exact ⟨hl, .inr ⟨hs, ht.trans h₀⟩⟩

/-- A run whose first part returned `0` goes on as the run without failures. -/
theorem Cut.cont {t₀ : Fsr} {rv : Int} (h : Cut ω s t₀ 0 t) (h' : Cut ω t₀ s₀ rv s₁) :
    Cut ω s s₀ rv s₁ := by
  obtain ⟨hl, ⟨-, rfl, hf⟩ | ⟨⟨n, e, -, -, -, he⟩, -⟩⟩ := h
  · obtain ⟨hl', ⟨rfl, rfl, hf'⟩ | ⟨⟨n, e, hn, hf', hω, rfl⟩, hp⟩⟩ := h'
    · exact ⟨hl.trans hl', .inl ⟨rfl, rfl, hf.trans hf'⟩⟩
    · exact ⟨hl.trans hl', .inr ⟨⟨n, e, hn, hf.trans hf', hω, rfl⟩, hp⟩⟩
  · exact absurd he.symm (Errno.rv_ne_zero e)

/-- What changes no log and makes no call keeps a cut. -/
theorem Cut.frame {t₀ t' : Fsr} {rv : Int} (h : Cut ω s t₀ rv t) (hl : t'.log = t.log)
    (hc : t'.calls = t.calls) (hl₀ : s₀.log = t₀.log) (h0 : rv = 0 → t = t₀ → t' = s₀) :
    Cut ω s s₀ rv t' := by
  obtain ⟨hl', ⟨rfl, rfl, hf⟩ | ⟨⟨n, e, hn, hf, hω, he⟩, hp⟩⟩ := h
  · exact ⟨hl ▸ hl', .inl ⟨rfl, h0 rfl rfl, hc ▸ hf⟩⟩
  · exact ⟨hl ▸ hl', .inr ⟨⟨n, e, hc ▸ hn, hf, hω, he⟩, hl ▸ hl₀ ▸ hp⟩⟩

/-- A run that stops at a failing call numbered `t.calls`, all calls before it fine. -/
theorem Cut.fail {e : Errno} {ev : List Event} (hl : s.log <+: t.log) (hf : Fine ω s.calls t.calls)
    (he : ω t.calls = some e) (h₀ : t.log ++ ev <+: s₀.log) :
    Cut ω s s₀ e.rv { t with calls := t.calls + 1, log := t.log ++ ev } :=
  ⟨hl.trans (List.prefix_append _ _), .inr ⟨⟨t.calls, e, rfl, hf, he, rfl⟩, h₀⟩⟩

/-! ### The calls and the puts -/

/-- A call under `ω` is the call with no failure, or it fails. -/
theorem Fsr.call_split (ω : Outcomes) (t : Fsr) (ev : List Event) :
    (ω t.calls = none ∧ t.call ω ev = t.call noFail ev) ∨
      ∃ e, ω t.calls = some e ∧
        t.call ω ev = (some e, { t with calls := t.calls + 1, log := t.log ++ ev }) := by
  unfold Fsr.call
  cases h : ω t.calls
  · exact .inl ⟨rfl, rfl⟩
  · exact .inr ⟨_, rfl, rfl⟩

@[simp] theorem Fsr.call_noFail (t : Fsr) (ev : List Event) :
    t.call noFail ev = (none, { t with calls := t.calls + 1, log := t.log ++ ev }) := rfl

theorem Fsr.put_eq {o : Option Obj} (h : t.put o = .ok s₁) : s₁ = { t with held := s₁.held } := by
  cases o with
  | none => cases h; rfl
  | some o =>
    simp only [Fsr.put, Fsr.release] at h
    split_ifs at h
    cases h
    rfl

theorem Fsr.put_log {o : Option Obj} (h : t.put o = .ok s₁) : s₁.log = t.log := by
  rw [Fsr.put_eq h]

theorem Fsr.put_calls {o : Option Obj} (h : t.put o = .ok s₁) : s₁.calls = t.calls := by
  rw [Fsr.put_eq h]

/-- Whether a put succeeds depends only on the ledger. -/
theorem Fsr.put_of_held {u u' : Fsr} {o : Option Obj} (h : t.held = u.held) (hu : u.put o = .ok u') :
    t.put o = .ok { t with held := u'.held } := by
  cases o with
  | none =>
    cases hu
    rw [← h]
    rfl
  | some o =>
    simp only [Fsr.put, Fsr.release] at hu ⊢
    split_ifs at hu with ho
    cases hu
    rw [h, if_pos ho]

/-- The puts that end a part of the code keep a cut, when the run with no
failure puts the same object. -/
theorem Cut.put {t₀ t' : Fsr} {rv : Int} {o o₀ : Option Obj} (h : Cut ω s t₀ rv t)
    (hp : t.put o = .ok t') (hp₀ : t₀.put o₀ = .ok s₀) (ho : rv = 0 → o = o₀) : Cut ω s s₀ rv t' :=
  h.frame (Fsr.put_log hp) (Fsr.put_calls hp) (Fsr.put_log hp₀) fun h0 ht => by
      subst ht
      rw [ho h0, hp₀] at hp
      exact (Except.ok.inj hp).symm

/-- The run with no failure is cut from itself. -/
theorem Cut.grows {x : Except Crash (Int × Fsr)} {rv₀ : Int}
    (h : ∃ rv s₁, x = .ok (rv, s₁) ∧ Cut noFail s s₀ rv s₁) (h₀ : x = .ok (rv₀, s₀)) :
    Cut noFail s s₀ rv₀ s₀ := by
  obtain ⟨rv, s₁, h, hc⟩ := h
  rw [h₀] at h
  cases h
  exact hc

/-- One call that hands an info to the entry. -/
theorem Fsr.infoHand_cut (ω : Outcomes) (t : Fsr) (ev : Event) (dentry : Nat) (rinfo : RfsInfo) :
    Cut ω t (t.infoHand noFail ev dentry rinfo).2 (t.infoHand ω ev dentry rinfo).1
      (t.infoHand ω ev dentry rinfo).2 := by
  rcases Fsr.call_split ω t [ev] with ⟨hn, hc⟩ | ⟨e, he, hc⟩
  · simp only [Fsr.infoHand, hc, Fsr.call_noFail]
    exact ⟨List.prefix_append _ _, .inl ⟨rfl, rfl, Fine.step rfl hn⟩⟩
  · simp only [Fsr.infoHand, hc, Fsr.call_noFail]
    exact Cut.fail (List.prefix_refl _) (Fine.refl ω _) he (List.prefix_refl _)

/-- A call that hands an info to the entry and fails, and the put of the info
after it. -/
theorem Fsr.infoHand_fail {e : Errno} {ev : Event} {dentry : Nat} {rinfo : RfsInfo} {u : Fsr}
    (he : ω t.calls = some e) (hp : (t.infoHand noFail ev dentry rinfo).2.infoPut rinfo = .ok u) :
    ∃ t', t.infoHand ω ev dentry rinfo = (e.rv, t') ∧
      t'.infoPut rinfo = .ok { t' with held := u.held } ∧ Cut ω t u e.rv { t' with held := u.held } :=
  ⟨{ t with calls := t.calls + 1, log := t.log ++ [ev] }, by simp only [Fsr.infoHand, Fsr.call, he],
    Fsr.put_of_held (u := (t.infoHand noFail ev dentry rinfo).2) rfl hp,
    (Cut.fail (List.prefix_refl _) (Fine.refl ω _) he (Fsr.put_log hp ▸ List.prefix_refl _)).frame
      rfl rfl rfl fun h => absurd h e.rv_ne_zero⟩

/-- A part that only takes references keeps the cut of what follows it. -/
theorem Cut.get {o : Option Obj} {rv : Int} (h : Cut ω (s.get o) s₀ rv s₁) : Cut ω s s₀ rv s₁ := by
  rw [Fsr.get_eq] at h
  exact h

/-- The chain a phase works through: the call of `rfs_chain_diff`, when there
is one, succeeds as with no failure, or fails. -/
theorem Fsr.phaseChain_split (ω : Outcomes) (t : Fsr) (a : Nat) (b : Option Nat) :
    (t.phaseChain ω a b = t.phaseChain noFail a b ∧
      Cut ω t (t.phaseChain noFail a b).2 0 (t.phaseChain noFail a b).2) ∨
    ∃ e, ω t.calls = some e ∧
      t.phaseChain ω a b = (.error e, { t with calls := t.calls + 1, log := t.log ++ [] }) := by
  cases b with
  | none =>
    refine .inl ⟨rfl, ?_⟩
    simp only [Fsr.phaseChain, Fsr.chainGet, Fsr.get_eq]
    exact ⟨List.prefix_refl _, .inl ⟨rfl, rfl, Fine.refl ω _⟩⟩
  | some b =>
    rcases Fsr.call_split ω t [] with ⟨hn, hc⟩ | ⟨e, he, hc⟩
    · refine .inl ⟨by simp only [Fsr.phaseChain, Fsr.chainDiff, Fsr.chainOp, hc], ?_⟩
      simp only [Fsr.phaseChain, Fsr.chainDiff, Fsr.chainOp, Fsr.call_noFail, Fsr.chainGet,
        Fsr.get_eq]
      exact ⟨List.prefix_append _ _, .inl ⟨rfl, rfl, Fine.step rfl hn⟩⟩
    · exact .inr ⟨e, he, by simp only [Fsr.phaseChain, Fsr.chainDiff, Fsr.chainOp, hc]⟩

/-! ### The loops -/

theorem rrootLoop_cut (add : Bool) (rroot : Nat) : ∀ (fs : List Flt) (ω : Outcomes) (s : Fsr),
    Cut ω s (rrootLoop noFail add rroot fs s).2 (rrootLoop ω add rroot fs s).1
      (rrootLoop ω add rroot fs s).2
  | [], ω, s => Cut.refl ω s
  | f :: fs, ω, s => by
    set u := (s.rootFlt noFail add rroot f).2
    set u' := (u.rootWalk noFail add f).2
    have h₀ : rrootLoop noFail add rroot (f :: fs) s = rrootLoop noFail add rroot fs u' := rfl
    have hg := (rrootLoop_cut add rroot fs noFail u').noFail_grows.1
    rw [h₀]
    rcases Fsr.call_split ω s [rootEv add rroot f] with ⟨hn, hc⟩ | ⟨e, he, hc⟩
    · have h₁ : s.rootFlt ω add rroot f = (0, u) := by simp only [Fsr.rootFlt, hc]; rfl
      rcases Fsr.call_split ω u [.rootWalk add f] with ⟨hn', hc'⟩ | ⟨e, he, hc'⟩
      · have h₂ : u.rootWalk ω add f = (0, u') := by simp only [Fsr.rootWalk, hc']; rfl
        simp only [rrootLoop, h₁, h₂, ne_eq, not_true_eq_false, if_false]
        refine Cut.cont ⟨?_, .inl ⟨rfl, rfl, (Fine.step rfl hn).trans (Fine.step rfl hn')⟩⟩
          (rrootLoop_cut add rroot fs ω u')
        exact (List.prefix_append s.log [rootEv add rroot f]).trans (List.prefix_append _ _)
      · simp only [rrootLoop, h₁, Fsr.rootWalk, hc', ne_eq, not_true_eq_false, if_false,
          Errno.rv_ne_zero, not_false_eq_true, if_true]
        exact Cut.fail (List.prefix_append _ _) (Fine.step rfl hn) he hg
    · simp only [rrootLoop, Fsr.rootFlt, hc, ne_eq, Errno.rv_ne_zero, not_false_eq_true, if_true]
      exact Cut.fail (List.prefix_refl _) (Fine.refl ω _) he ((List.prefix_append _ _).trans hg)

theorem dentryLoop_cut (add : Bool) (rroot dentry : Nat) :
    ∀ (fs : List Flt) (ω : Outcomes) (c : Option RfsChain) (s : Fsr) {rv₀ : Int}
      {c₀ : Option RfsChain} {s₀ : Fsr},
      dentryLoop noFail add rroot dentry fs c s = .ok (rv₀, c₀, s₀) →
      ∃ rv c' s₁, dentryLoop ω add rroot dentry fs c s = .ok (rv, c', s₁) ∧ Cut ω s s₀ rv s₁ ∧
        (rv = 0 → c' = c₀)
  | [], ω, c, s, _, _, _, h₀ => by
    cases h₀
    exact ⟨0, c, s, rfl, Cut.refl ω s, fun _ => rfl⟩
  | f :: fs, ω, c, s, rv₀, c₀, s₀, h₀ => by
    -- the run with no failure
    set ev := chainEv add (flts c) f
    set cnew := mkChain s.next (chainFn add (flts c) f)
    set u₁ : Fsr := { s with
      calls := s.calls + 1, log := s.log ++ [ev], next := s.next + 1,
      held := (chainObj cnew).toList ++ s.held }
    have e₁ : s.chainStep noFail add c f = (.ok cnew, u₁) := by
      simp only [Fsr.chainStep, Fsr.chainOp, Fsr.call_noFail, Fsr.chainGet, Fsr.get_eq]
    simp only [dentryLoop, e₁] at h₀
    obtain ⟨u₂, hp₂, h₀⟩ := bind_eq_ok h₀
    set rinfo : RfsInfo := ⟨u₂.next, some rroot, cnew⟩
    set u₃ : Fsr := Fsr.acquire { u₂ with calls := u₂.calls + 1, log := u₂.log ++ [], next := u₂.next + 1 }
      (.info u₂.next)
    have e₃ : u₂.infoAlloc noFail rroot cnew = (.ok rinfo, u₃) := rfl
    set u₄ : Fsr := { u₃ with
      calls := u₃.calls + 1, log := u₃.log ++ [infoEv add f],
      dentry := Function.update u₃.dentry dentry (some rinfo) }
    have e₄ : u₃.infoStep noFail add dentry rinfo f = (0, u₄) := rfl
    simp only [e₃, e₄] at h₀
    obtain ⟨u₅, hp₅, h₀⟩ := bind_eq_ok h₀
    simp only [ne_eq, not_true_eq_false, if_false] at h₀
    have hl₂ : u₂.log = s.log ++ [ev] := Fsr.put_log hp₂
    have hc₂ : u₂.calls = s.calls + 1 := Fsr.put_calls hp₂
    have hl₅ : u₅.log = u₃.log ++ [infoEv add f] := Fsr.put_log hp₅
    have hg : u₅.log <+: s₀.log := by
      obtain ⟨_, _, _, h, hc, -⟩ := dentryLoop_cut add rroot dentry fs noFail cnew u₅ h₀
      rw [h₀] at h
      cases h
      exact hc.noFail_grows.1
    have hg₃ : u₃.log <+: s₀.log := (List.prefix_append _ _).trans (hl₅ ▸ hg)
    have hg₂ : u₂.log ++ [] <+: s₀.log := hg₃
    -- the run under `ω`
    rcases Fsr.call_split ω s [ev] with ⟨hn, hc⟩ | ⟨e, he, hc⟩
    · have e₁' : s.chainStep ω add c f = (.ok cnew, u₁) := by
        rw [Fsr.chainStep, Fsr.chainOp, hc]; exact e₁
      have hf₂ : Fine ω s.calls u₂.calls := Fine.step hc₂ hn
      have hs₂ : s.log <+: u₂.log := hl₂ ▸ List.prefix_append _ _
      rcases Fsr.call_split ω u₂ [] with ⟨hn₂, hc'⟩ | ⟨e, he, hc'⟩
      · have e₃' : u₂.infoAlloc ω rroot cnew = (.ok rinfo, u₃) := by
          simp only [Fsr.infoAlloc, hc']; rfl
        have hf₃ : Fine ω s.calls u₃.calls := hf₂.trans (Fine.step rfl hn₂)
        have hs₃ : s.log <+: u₃.log := hs₂.trans (List.prefix_append _ _)
        rcases Fsr.call_split ω u₃ [infoEv add f] with ⟨hn₃, hc''⟩ | ⟨e, he, hc''⟩
        · have e₄' : u₃.infoStep ω add dentry rinfo f = (0, u₄) := by
            simp only [Fsr.infoStep, Fsr.infoHand, hc'']; rfl
          obtain ⟨rv, c', s₁, h, hcut, hc'⟩ := dentryLoop_cut add rroot dentry fs ω cnew u₅ h₀
          refine ⟨rv, c', s₁, ?_, Cut.cont ⟨?_, .inl ⟨rfl, rfl, ?_⟩⟩ hcut, hc'⟩
          · simp only [dentryLoop, e₁', hp₂, e₃', e₄', hp₅, except_ok_bind, ne_eq,
              not_true_eq_false, if_false, h]
          · exact hl₅ ▸ hs₃.trans (List.prefix_append _ _)
          · exact hf₃.trans (Fine.step (Fsr.put_calls hp₅) hn₃)
        · obtain ⟨t₄, e₄', hp₅', hcut⟩ := Fsr.infoHand_fail he hp₅
          refine ⟨e.rv, cnew, _, ?_, Cut.cont ⟨hs₃, .inl ⟨rfl, rfl, hf₃⟩⟩ (hcut.stop e.rv_ne_zero hg),
            fun h => absurd h e.rv_ne_zero⟩
          simp only [dentryLoop, e₁', hp₂, e₃', Fsr.infoStep, e₄', except_ok_bind, hp₅', ne_eq,
            Errno.rv_ne_zero, not_false_eq_true, if_true]
          rfl
      · refine ⟨e.rv, cnew, _, ?_, Cut.fail hs₂ hf₂ he hg₂, fun h => absurd h e.rv_ne_zero⟩
        simp only [dentryLoop, e₁', hp₂, except_ok_bind, Fsr.infoAlloc, hc']
        rfl
    · refine ⟨e.rv, c, _, ?_, Cut.fail (List.prefix_refl _) (Fine.refl ω _) he
        (hl₂ ▸ (List.prefix_append _ _).trans hg₂), fun h => absurd h e.rv_ne_zero⟩
      simp only [dentryLoop, Fsr.chainStep, Fsr.chainOp, hc]
      rfl

theorem setLoop_cut (rroot dentry : Nat) (rchainSrc rchainDst : Option RfsChain) :
    ∀ (fs : List Flt) (ω : Outcomes) (s : Fsr) {rv₀ : Int} {s₀ : Fsr},
      setLoop noFail rroot dentry rchainSrc rchainDst fs s = .ok (rv₀, s₀) →
      ∃ rv s₁, setLoop ω rroot dentry rchainSrc rchainDst fs s = .ok (rv, s₁) ∧ Cut ω s s₀ rv s₁
  | [], ω, s, _, _, h₀ => by
    cases h₀
    exact ⟨0, s, rfl, Cut.refl ω s⟩
  | f :: fs, ω, s, rv₀, s₀, h₀ => by
    by_cases hf : rfsChainFind (flts rchainDst) f = -1
    · simp only [setLoop, hf, if_true] at h₀ ⊢
      exact setLoop_cut rroot dentry rchainSrc rchainDst fs ω s h₀
    -- the run with no failure
    set rinfo : RfsInfo := ⟨s.next, some rroot, rchainSrc⟩
    set u₁ : Fsr := Fsr.acquire { s with calls := s.calls + 1, log := s.log ++ [], next := s.next + 1 }
      (.info s.next)
    have e₁ : s.infoAlloc noFail rroot rchainSrc = (.ok rinfo, u₁) := rfl
    set u₂ : Fsr := { u₁ with
      calls := u₁.calls + 1, log := u₁.log ++ [.infoSet f],
      dentry := Function.update u₁.dentry dentry (some rinfo) }
    have e₂ : u₁.infoSet noFail dentry rinfo f = (0, u₂) := rfl
    simp only [setLoop, hf, if_false, e₁, e₂] at h₀
    obtain ⟨u₃, hp₃, h₀⟩ := bind_eq_ok h₀
    simp only [ne_eq, not_true_eq_false, if_false] at h₀
    have hl₃ : u₃.log = u₁.log ++ [.infoSet f] := Fsr.put_log hp₃
    have hg : u₃.log <+: s₀.log :=
      (Cut.grows (setLoop_cut rroot dentry rchainSrc rchainDst fs noFail u₃ h₀) h₀).noFail_grows.1
    -- the run under `ω`
    rcases Fsr.call_split ω s [] with ⟨hn, hc⟩ | ⟨e, he, hc⟩
    · have e₁' : s.infoAlloc ω rroot rchainSrc = (.ok rinfo, u₁) := by
        rw [Fsr.infoAlloc, hc]; exact e₁
      rcases Fsr.call_split ω u₁ [.infoSet f] with ⟨hn₁, hc'⟩ | ⟨e, he, hc'⟩
      · have e₂' : u₁.infoSet ω dentry rinfo f = (0, u₂) := by
          rw [Fsr.infoSet, Fsr.infoHand, hc']; exact e₂
        obtain ⟨rv, s₁, h, hcut⟩ := setLoop_cut rroot dentry rchainSrc rchainDst fs ω u₃ h₀
        refine ⟨rv, s₁, ?_, Cut.cont ⟨?_, .inl ⟨rfl, rfl, ?_⟩⟩ hcut⟩
        · simp only [setLoop, hf, if_false, e₁', e₂', hp₃, except_ok_bind, ne_eq, not_true_eq_false,
            if_false, h]
        · exact hl₃ ▸ (List.prefix_append _ _).trans (List.prefix_append _ _)
        · exact (Fine.step rfl hn).trans (Fine.step (Fsr.put_calls hp₃) hn₁)
      · obtain ⟨t₂, e₂', hp₃', hcut⟩ := Fsr.infoHand_fail he hp₃
        refine ⟨e.rv, _, ?_, Cut.cont ⟨List.prefix_append _ _, .inl ⟨rfl, rfl, Fine.step rfl hn⟩⟩
          (hcut.stop e.rv_ne_zero hg)⟩
        simp only [setLoop, hf, if_false, e₁', Fsr.infoSet, e₂', except_ok_bind, hp₃', ne_eq,
          Errno.rv_ne_zero, not_false_eq_true, if_true]
        rfl
    · refine ⟨e.rv, _, ?_, Cut.fail (List.prefix_refl _) (Fine.refl ω _) he
        ((List.prefix_append _ _).trans (hl₃ ▸ hg))⟩
      simp only [setLoop, hf, if_false, Fsr.infoAlloc, hc]
      rfl

/-! ### The phases -/

theorem rfsFsrenameRroot_cut (ω : Outcomes) (add : Bool) (rroot : Nat) (rchain : Option RfsChain)
    (s : Fsr) {rv₀ : Int} {s₀ : Fsr}
    (h₀ : (pure (rfsFsrenameRroot noFail add rroot rchain s) : Except Crash (Int × Fsr)) =
      .ok (rv₀, s₀)) :
    ∃ rv s₁, (pure (rfsFsrenameRroot ω add rroot rchain s) : Except Crash (Int × Fsr)) =
      .ok (rv, s₁) ∧
      Cut ω s s₀ rv s₁ ∧ s₁.held = s.held := by
  obtain rfl : (rfsFsrenameRroot noFail add rroot rchain s).2 = s₀ :=
    congrArg Prod.snd (Except.ok.inj h₀)
  refine ⟨_, _, rfl, ?_, rfsFsrenameRroot_held add rroot rchain s⟩
  cases rchain with
  | none => exact Cut.refl ω s
  | some c => exact rrootLoop_cut add rroot c.rflts ω s

theorem rfsFsrenameRemDentry_cut (ω : Outcomes) (rroot : Nat) (rchain : Option RfsChain)
    (dentry : Nat) (s : Fsr) {rv₀ : Int} {s₀ : Fsr}
    (h₀ : rfsFsrenameRemDentry noFail rroot rchain dentry s = .ok (rv₀, s₀)) :
    ∃ rv s₁, rfsFsrenameRemDentry ω rroot rchain dentry s = .ok (rv, s₁) ∧ Cut ω s s₀ rv s₁ ∧
      s₁.held = s.held := by
  cases rchain with
  | none =>
    cases h₀
    exact ⟨0, s, rfl, Cut.refl ω s, rfl⟩
  | some c =>
    simp only [rfsFsrenameRemDentry] at h₀ ⊢
    obtain ⟨⟨rv₁, c₀, t₀⟩, hl₀, h₀⟩ := bind_eq_ok h₀
    obtain ⟨s₀', hp₀, h₀⟩ := bind_eq_ok h₀
    cases h₀
    obtain ⟨rv, c', t, hl, hcut, hc'⟩ := dentryLoop_cut false rroot dentry c.rflts ω _ _ hl₀
    obtain ⟨_, _, _, hl', hh⟩ :=
      dentryLoop_held ω false rroot dentry c.rflts _ _ (s.chainGet_held (s.rootChain rroot))
    rw [hl] at hl'
    cases hl'
    refine ⟨rv, { t with held := s.held }, ?_, ?_, rfl⟩
    · simp only [hl, except_ok_bind, Fsr.chainPut, Fsr.put_head hh]
      rfl
    exact Cut.get (hcut.put (Fsr.put_head hh) hp₀ fun h => congrArg chainObj (hc' h))

/-- The tail of `rfs_fsrename_rem` and `rfs_fsrename_add`: the put of the
chain the phase worked through, which the phase took on top of `l`. -/
theorem Cut.putChain {x₀ x : Except Crash (Int × Fsr)} {u : Fsr} {c : Option RfsChain}
    {l : List Obj} {rv₀ : Int} (hu : u.held = (chainObj c).toList ++ l)
    (hx : ∀ {rv₁ t₀}, x₀ = .ok (rv₁, t₀) →
      ∃ rv t, x = .ok (rv, t) ∧ Cut ω u t₀ rv t ∧ t.held = u.held)
    (h₀ : (x₀ >>= fun y => do let s ← y.2.chainPut c; pure (y.1, s)) = .ok (rv₀, s₀)) :
    ∃ rv s₁, (x >>= fun y => do let s ← y.2.chainPut c; pure (y.1, s)) = .ok (rv, s₁) ∧
      Cut ω u s₀ rv s₁ := by
  obtain ⟨⟨rv₁, t₀⟩, hb₀, h₀⟩ := bind_eq_ok h₀
  obtain ⟨s₀', hp₀, h₀⟩ := bind_eq_ok h₀
  cases h₀
  obtain ⟨rv, t, hb, hcut, hh⟩ := hx hb₀
  have hp := Fsr.put_head (hh.trans hu)
  refine ⟨rv, _, ?_, hcut.put hp hp₀ fun _ => rfl⟩
  simp only [hb, except_ok_bind, Fsr.chainPut, hp]
  rfl

theorem rfsFsrenameRem_cut (ω : Outcomes) (src dst : Option Nat) (dentry : Nat) (s : Fsr)
    {rv₀ : Int} {s₀ : Fsr} (h₀ : rfsFsrenameRem noFail src dst dentry s = .ok (rv₀, s₀)) :
    ∃ rv s₁, rfsFsrenameRem ω src dst dentry s = .ok (rv, s₁) ∧ Cut ω s s₀ rv s₁ := by
  cases src with
  | none =>
    cases h₀
    exact ⟨0, s, rfl, Cut.refl ω s⟩
  | some src =>
    rcases hpc : s.phaseChain noFail src dst with ⟨r, u⟩
    obtain ⟨c, rfl, -, hu, -, hm⟩ := Fsr.phaseChain_noFail hpc
    have key : ∀ ω : Outcomes, s.phaseChain ω src dst = (.ok c, u) →
        ∃ rv s₁, rfsFsrenameRem ω (some src) dst dentry s = .ok (rv, s₁) ∧ Cut ω u s₀ rv s₁ := by
      intro ω hpc'
      simp only [rfsFsrenameRem, hpc] at h₀
      simp only [rfsFsrenameRem, hpc']
      split_ifs at h₀ ⊢
      · exact Cut.putChain hu (rfsFsrenameRroot_cut ω false src c u) h₀
      · exact Cut.putChain hu (rfsFsrenameRemDentry_cut ω src c dentry u) h₀
    rcases Fsr.phaseChain_split ω s src dst with ⟨hpc', hcut₀⟩ | ⟨e, he, hpc'⟩
    · rw [hpc] at hpc' hcut₀
      obtain ⟨rv, s₁, h, hcut⟩ := key ω hpc'
      exact ⟨rv, s₁, h, Cut.cont hcut₀ hcut⟩
    · refine ⟨e.rv, _, by simp only [rfsFsrenameRem, hpc']; rfl,
        Cut.fail (List.prefix_refl _) (Fine.refl ω _) he ?_⟩
      rw [← hm.log]
      exact (Cut.grows (key noFail hpc) h₀).noFail_grows.1

theorem rfsFsrenameAddDentry_cut (ω : Outcomes) (rroot : Nat) (rchain : Option RfsChain)
    (dentry : Nat) (s : Fsr) {rv₀ : Int} {s₀ : Fsr}
    (h₀ : rfsFsrenameAddDentry noFail rroot rchain dentry s = .ok (rv₀, s₀)) :
    ∃ rv s₁, rfsFsrenameAddDentry ω rroot rchain dentry s = .ok (rv, s₁) ∧ Cut ω s s₀ rv s₁ ∧
      s₁.held = s.held := by
  cases rchain with
  | none =>
    cases h₀
    exact ⟨_, _, rfl, Fsr.infoHand_cut ω s .infoReset dentry (s.rootInfo rroot),
      s.infoHand_held _ _ _⟩
  | some c =>
    simp only [rfsFsrenameAddDentry, Fsr.dentryFind] at h₀ ⊢
    obtain ⟨⟨rv₁, c₀, t₀⟩, hl₀, h₀⟩ := bind_eq_ok h₀
    obtain ⟨rv, c', t, hl, hcut, hc'⟩ := dentryLoop_cut true rroot dentry c.rflts ω _ _ hl₀
    have hrv₁ : rv₁ = 0 := by
      obtain ⟨_, _, _, h, hc, -⟩ := dentryLoop_cut true rroot dentry c.rflts noFail _ _ hl₀
      rw [hl₀] at h
      cases h
      exact hc.noFail_grows.2.2
    subst hrv₁
    simp only [ne_eq, not_true_eq_false, if_false] at h₀
    obtain ⟨t₂₀, hd₀, h₀⟩ := bind_eq_ok h₀
    obtain ⟨s₀', hp₀, h₀⟩ := bind_eq_ok h₀
    cases h₀
    set d := (s.dentry dentry).map fun _ => Obj.dentry dentry
    obtain ⟨_, _, _, hl', hh⟩ := dentryLoop_held ω true rroot dentry c.rflts _ _
      ((s.get d).chainGet_held ((s.dentry dentry).bind RfsInfo.rchain))
    rw [hl] at hl'
    cases hl'
    set r : Int × Fsr := if rv ≠ 0 then (rv, t) else t.infoReset ω dentry (t.rootInfo rroot) with hr
    have hrh : r.2.held = (chainObj c').toList ++ d.toList ++ s.held := by
      have : r.2.held = t.held := by
        rw [hr]
        split_ifs <;> simp only [Fsr.infoReset, Fsr.infoHand_held]
      rw [this, hh, Fsr.get_held, List.append_assoc]
    have hrc : Cut ω (s.get d) (t₀.infoReset noFail dentry (t₀.rootInfo rroot)).2 r.1 r.2 := by
      by_cases hrv : rv = 0
      · subst hrv
        obtain rfl := hcut.eq_of_zero
        simp only [hr, ne_eq, not_true_eq_false, if_false]
        exact Cut.get (Cut.cont hcut (Fsr.infoHand_cut ω _ .infoReset dentry _))
      · simp only [hr, ne_eq, hrv, not_false_eq_true, if_true]
        exact Cut.get (hcut.stop hrv (Fsr.infoHand_cut noFail _ .infoReset dentry _).noFail_grows.1)
    have hd := Fsr.put_swap hrh
    have hp := Fsr.put_head (s := { r.2 with held := (chainObj c').toList ++ s.held }) rfl
    refine ⟨r.1, { r.2 with held := s.held }, ?_, Cut.get ((hrc.put hd hd₀ fun _ => rfl).put hp hp₀
      fun h => congrArg chainObj (hc' ?_)), rfl⟩
    · simp only [hl, except_ok_bind]
      rw [← hr, Fsr.dentryPut, hd, except_ok_bind, Fsr.chainPut, hp]
      rfl
    · by_contra hrv
      rw [hr, if_pos hrv] at h
      exact hrv h

theorem rfsFsrenameAdd_cut (ω : Outcomes) (src dst : Option Nat) (dentry : Nat) (s : Fsr)
    {rv₀ : Int} {s₀ : Fsr} (h₀ : rfsFsrenameAdd noFail src dst dentry s = .ok (rv₀, s₀)) :
    ∃ rv s₁, rfsFsrenameAdd ω src dst dentry s = .ok (rv, s₁) ∧ Cut ω s s₀ rv s₁ := by
  cases dst with
  | none =>
    cases h₀
    exact ⟨0, s, rfl, Cut.refl ω s⟩
  | some dst =>
    rcases hpc : s.phaseChain noFail dst src with ⟨r, u⟩
    obtain ⟨c, rfl, -, hu, -, hm⟩ := Fsr.phaseChain_noFail hpc
    have key : ∀ ω : Outcomes, s.phaseChain ω dst src = (.ok c, u) →
        ∃ rv s₁, rfsFsrenameAdd ω src (some dst) dentry s = .ok (rv, s₁) ∧ Cut ω u s₀ rv s₁ := by
      intro ω hpc'
      simp only [rfsFsrenameAdd, hpc] at h₀
      simp only [rfsFsrenameAdd, hpc']
      split at h₀
      · split_ifs at h₀ ⊢
        · exact Cut.putChain hu (rfsFsrenameRroot_cut ω true _ c u) h₀
        · exact Cut.putChain hu (rfsFsrenameAddDentry_cut ω dst c dentry u) h₀
      · exact Cut.putChain hu (rfsFsrenameAddDentry_cut ω dst c dentry u) h₀
    rcases Fsr.phaseChain_split ω s dst src with ⟨hpc', hcut₀⟩ | ⟨e, he, hpc'⟩
    · rw [hpc] at hpc' hcut₀
      obtain ⟨rv, s₁, h, hcut⟩ := key ω hpc'
      exact ⟨rv, s₁, h, Cut.cont hcut₀ hcut⟩
    · refine ⟨e.rv, _, by simp only [rfsFsrenameAdd, hpc']; rfl,
        Cut.fail (List.prefix_refl _) (Fine.refl ω _) he ?_⟩
      rw [← hm.log]
      exact (Cut.grows (key noFail hpc) h₀).noFail_grows.1

theorem rfsFsrenameSet_cut (ω : Outcomes) (src dst : Option Nat) (dentry : Nat) (s : Fsr)
    {rv₀ : Int} {s₀ : Fsr} (h₀ : rfsFsrenameSet noFail src dst dentry s = .ok (rv₀, s₀)) :
    ∃ rv s₁, rfsFsrenameSet ω src dst dentry s = .ok (rv, s₁) ∧ Cut ω s s₀ rv s₁ := by
  rcases src with _ | src
  · cases h₀
    exact ⟨0, s, rfl, Cut.refl ω s⟩
  rcases dst with _ | dst
  · cases h₀
    exact ⟨0, s, rfl, Cut.refl ω s⟩
  simp only [rfsFsrenameSet] at h₀ ⊢
  split_ifs at h₀ ⊢
  · cases h₀
    exact ⟨0, s, rfl, Cut.refl ω s⟩
  cases hd : s.dentry dentry with
  | none =>
    simp only [Fsr.dentryFind, hd] at h₀ ⊢
    cases h₀
    exact ⟨0, _, rfl, Cut.refl ω s⟩
  | some rinfo =>
    cases hc : rinfo.rchain with
    | none => simp only [Fsr.dentryFind, hd, hc] at h₀; cases h₀
    | some cs =>
      simp only [Fsr.dentryFind, hd, hc, Option.map_some'] at h₀ ⊢
      obtain ⟨⟨rv₁, t₀⟩, hl₀, h₀⟩ := bind_eq_ok h₀
      obtain ⟨s₀', hp₀, h₀⟩ := bind_eq_ok h₀
      cases h₀
      obtain ⟨rv, t, hl, hcut⟩ := setLoop_cut dst dentry (some cs) _ cs.rflts ω _ hl₀
      obtain ⟨_, _, hl', hh⟩ := setLoop_held ω dst dentry (some cs)
        ((s.get (some (.dentry dentry))).rootChain dst) cs.rflts (s.get (some (.dentry dentry)))
      rw [hl] at hl'
      cases hl'
      have hp := Fsr.put_head (hh.trans (Fsr.get_held _ _))
      exact ⟨rv, _, by simp only [hl, except_ok_bind, Fsr.dentryPut, Option.map_some', hp]; rfl,
        Cut.get (hcut.put hp hp₀ fun _ => rfl)⟩

/-- The first two phases of a run that no failure stops return `0`, and the
three phases only add to the log. -/
theorem rfsFsrenamePhases_cut (ω : Outcomes) (src dst : Option Nat) (dentry : Nat) (s : Fsr)
    {rv₀ : Int} {s₀ : Fsr} (h₀ : rfsFsrenamePhases noFail src dst dentry s = .ok (rv₀, s₀)) :
    ∃ rv s₁, rfsFsrenamePhases ω src dst dentry s = .ok (rv, s₁) ∧ Cut ω s s₀ rv s₁ ∧
      s₁.held = s.held := by
  suffices h : ∃ rv s₁, rfsFsrenamePhases ω src dst dentry s = .ok (rv, s₁) ∧ Cut ω s s₀ rv s₁ by
    obtain ⟨rv, s₁, h, hc⟩ := h
    have hk := rfsFsrenamePhases_keeps (ω := ω) src dst dentry s
    rw [h] at hk
    exact ⟨rv, s₁, h, hc, hk⟩
  simp only [rfsFsrenamePhases] at h₀ ⊢
  obtain ⟨⟨rv₁, t₀⟩, hr₀, h₀⟩ := bind_eq_ok h₀
  have c₁ := Cut.grows (rfsFsrenameRem_cut noFail src dst dentry s hr₀) hr₀
  obtain ⟨-, -, rfl⟩ := c₁.noFail_grows
  simp only [ne_eq, not_true_eq_false, if_false] at h₀
  obtain ⟨⟨rv₂, t₁⟩, hs₀, h₀⟩ := bind_eq_ok h₀
  have c₂ := Cut.grows (rfsFsrenameSet_cut noFail src dst dentry t₀ hs₀) hs₀
  obtain ⟨-, -, rfl⟩ := c₂.noFail_grows
  simp only [ne_eq, not_true_eq_false, if_false] at h₀
  have c₃ := Cut.grows (rfsFsrenameAdd_cut noFail src dst dentry t₁ h₀) h₀
  obtain ⟨-, -, rfl⟩ := c₃.noFail_grows
  obtain ⟨rv, t, hr, hcut⟩ := rfsFsrenameRem_cut ω src dst dentry s hr₀
  by_cases hrv : rv = 0
  · subst hrv
    obtain rfl := hcut.eq_of_zero
    obtain ⟨rv', t', hs, hcut'⟩ := rfsFsrenameSet_cut ω src dst dentry t hs₀
    by_cases hrv' : rv' = 0
    · subst hrv'
      obtain rfl := hcut'.eq_of_zero
      obtain ⟨rv'', s₁, ha, hcut''⟩ := rfsFsrenameAdd_cut ω src dst dentry t' h₀
      refine ⟨rv'', s₁, ?_, hcut.cont (hcut'.cont hcut'')⟩
      simp only [hr, hs, ha, except_ok_bind, ne_eq, not_true_eq_false, if_false]
    · refine ⟨rv', t', ?_, hcut.cont (hcut'.stop hrv' c₃.noFail_grows.1)⟩
      simp only [hr, hs, except_ok_bind, ne_eq, not_true_eq_false, if_false, hrv', not_false_eq_true,
        if_true]
      rfl
  · refine ⟨rv, t, ?_, hcut.stop hrv (c₂.cont c₃).noFail_grows.1⟩
    simp only [hr, except_ok_bind, ne_eq, hrv, not_false_eq_true, if_true]
    rfl

/-! ### The rename -/

/-- The exit of `rfs_fsrename`: the puts of the two roots, the `rfs_inode` and
the `rfs_dentry` drop what the lookups took on top of `l`. -/
theorem Cut.exit {l : List Obj} {a b d : Option Obj} {o : Obj} {x₀ x : Except Crash (Int × Fsr)}
    {rv₀ : Int}
    (hx : ∀ {rv₁ t₀}, x₀ = .ok (rv₁, t₀) → ∃ rv t, x = .ok (rv, t) ∧ Cut ω s t₀ rv t ∧
      t.held = a.toList ++ (b.toList ++ (d.toList ++ o :: l)))
    (h₀ : (x₀ >>= fun y => do
      let s ← y.2.put a
      let s ← s.put b
      let s ← s.put (some o)
      let s ← s.put d
      pure (y.1, s)) = .ok (rv₀, s₀)) :
    ∃ rv s₁, (x >>= fun y => do
      let s ← y.2.put a
      let s ← s.put b
      let s ← s.put (some o)
      let s ← s.put d
      pure (y.1, s)) = .ok (rv, s₁) ∧ Cut ω s s₀ rv s₁ := by
  obtain ⟨⟨rv₁, t₀⟩, hb₀, h₀⟩ := bind_eq_ok h₀
  obtain ⟨t₁₀, hp₁, h₀⟩ := bind_eq_ok h₀
  obtain ⟨t₂₀, hp₂, h₀⟩ := bind_eq_ok h₀
  obtain ⟨t₃₀, hp₃, h₀⟩ := bind_eq_ok h₀
  obtain ⟨s₀', hp₄, h₀⟩ := bind_eq_ok h₀
  cases h₀
  obtain ⟨rv, t, hb, hcut, hh⟩ := hx hb₀
  have q₁ := Fsr.put_head hh
  have q₂ := Fsr.put_head (s := { t with held := b.toList ++ (d.toList ++ o :: l) }) rfl
  have q₃ := Fsr.put_swap (s := { t with held := d.toList ++ o :: l }) (a := d) (b := some o) (l := l)
    (by simp)
  have q₄ := Fsr.put_head (s := { t with held := d.toList ++ l }) rfl
  refine ⟨rv, _, ?_, (((hcut.put q₁ hp₁ fun _ => rfl).put q₂ hp₂ fun _ => rfl).put q₃ hp₃
    fun _ => rfl).put q₄ hp₄ fun _ => rfl⟩
  simp only [hb, except_ok_bind, q₁, q₂, q₃, q₄]
  rfl

/-- **The first failure ends a rename, and nothing is rolled back.** For
every combination of outcomes `ω` of the collaborator calls, when the run of
`rfs_fsrename` in which no call fails returns, ending in `s₀`, the run under
`ω` returns too. Either no call of it failed and it is that run, or it made
the calls of that run up to the first that failed, made none after it,
returned that call's error, and left the log of the namespace calls a prefix
of the log of that run: the filters it had detached or attached by then stay
so. -/
theorem rfsFsrename_cut_of_noFail (ω : Outcomes) (oldDir oldDentry newDir : Nat) (s : Fsr) {rv₀ : Int}
    {s₀ : Fsr} (h₀ : rfsFsrename noFail oldDir oldDentry newDir s = .ok (rv₀, s₀)) :
    ∃ rv s₁, rfsFsrename ω oldDir oldDentry newDir s = .ok (rv, s₁) ∧ Cut ω s s₀ rv s₁ := by
  unfold rfsFsrename at h₀ ⊢
  split_ifs at h₀ ⊢
  · cases h₀
    exact ⟨0, s, rfl, Cut.refl ω s⟩
  simp only [Fsr.inodeFind, Fsr.dentryFind, Fsr.rootGet, Fsr.acquire, Fsr.get_eq] at h₀ ⊢
  split_ifs at h₀ ⊢
  · refine Cut.exit (l := s.held) (fun hb₀ => ?_) h₀
    cases hb₀
    exact ⟨0, _, rfl, ⟨List.prefix_refl _, .inl ⟨rfl, rfl, Fine.refl ω _⟩⟩, by simp⟩
  · refine Cut.exit (l := s.held) (fun hb₀ => ?_) h₀
    exact rfsFsrenamePhases_cut ω _ _ oldDentry _ hb₀

/-- A world in which a rename returns: entry `5` moves out of directory `1`
into directory `2`. Its record is under root `0`, whose chain holds filters
`1` and `3`, and directory `2` is under root `1`, whose chain holds `3` and
`2`. The entry keeps filter `3`. -/
def keepWorld : Fsr where
  inode := fun _ => ⟨10, some 1, some ⟨21, [3, 2]⟩⟩
  dentry := fun _ => some ⟨11, some 0, some ⟨20, [1, 3]⟩⟩
  rootDentry := fun r => r + 100
  rootInfo := fun r =>
    if r = 0 then ⟨12, some 0, some ⟨20, [1, 3]⟩⟩ else ⟨13, some 1, some ⟨21, [3, 2]⟩⟩
  next := 30
  calls := 0
  held := []
  log := []

/-- The outcomes in which the fourth call, the `rfs_info_rem` of filter `1`,
fails with `-ENOMEM`. -/
def infoRemFails : Outcomes := fun n => if n = 3 then some ⟨12, by decide⟩ else none

theorem rfsFsrename_cut_of_noFail_keepWorld : ∃ rv₀ s₀,
    rfsFsrename noFail 1 5 2 keepWorld = .ok (rv₀, s₀) ∧ ∃ rv s₁,
      rfsFsrename infoRemFails 1 5 2 keepWorld = .ok (rv, s₁) ∧ Cut infoRemFails keepWorld s₀ rv s₁ :=
  ⟨_, _, rfl, rfsFsrename_cut_of_noFail infoRemFails 1 5 2 keepWorld rfl⟩

/- With no failure the rename detaches `1`, sets `3` again and attaches `2`; when
`rfs_info_rem` fails, it stops there, with `1` taken out of the chain. -/
example : (rfsFsrename noFail 1 5 2 keepWorld).toOption.map (fun r => (r.1, r.2.log)) =
    some (0, [.chainRem [1, 3] 1, .infoRem 1, .infoSet 3, .chainAdd [3] 2, .infoAdd 2,
      .infoReset]) := by
  decide

example : (rfsFsrename infoRemFails 1 5 2 keepWorld).toOption.map (fun r => (r.1, r.2.log)) =
    some (-12, [.chainRem [1, 3] 1, .infoRem 1]) := by
  decide

end Rename

end RedirFS
