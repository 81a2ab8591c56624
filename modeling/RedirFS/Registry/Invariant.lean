import RedirFS.Registry.Spec

/-!
# The invariant of the registry

`RedirFS.RegInv` is what holds of every reachable state
(`RedirFS.RegInv.of_reachable`, in `RedirFS.Registry.Preserve`):

* no two Paths on `rfs_path_list` have the same `(mnt, dentry)`;
* every registered Path has a root and a filter, and its two chains are
  duplicate-free and share no filter (`RedirFS.PathWf`);
* a Path that is allocated but not registered has no chain and no root, and a
  caller holds it: nothing leaks;
* the reference count of every Path is two for the two lists when it is
  registered, plus one per handle the callers hold;
* a root's list is the registered Paths whose root it is, in list order;
* `paths_nr` of a filter is the number of registered Paths citing it.

This file states it, shows the empty registry has it, and proves the facts
about a single Path that the step lemmas use. The three per-Path views the
global parts read (`RedirFS.keyOf`, `RedirFS.inRoot`, `RedirFS.citesAt`) read
the heap alone, and only the part of a record that a change of its count
leaves alone, which is what makes the frame lemmas cheap.
-/

namespace RedirFS

/-- What holds of a registered Path. -/
structure PathWf (r : RfsPath) : Prop where
  rroot : r.rroot ≠ none
  cites : r.rinch ≠ [] ∨ r.rexch ≠ []
  nodupIn : r.rinch.Nodup
  nodupEx : r.rexch.Nodup
  disjoint : ∀ f ∈ r.rinch, f ∉ r.rexch

/-- The `(mnt, dentry)` of the Path at an address. -/
def keyOf (heap : Nat → Option RfsPath) (p : Nat) : Option (Nat × Nat) :=
  (heap p).map fun r => (r.mnt, r.dentry)

/-- Whether the Path at an address has root `rt`. -/
def inRoot (heap : Nat → Option RfsPath) (rt p : Nat) : Bool :=
  (heap p).any (·.rroot == some rt)

/-- Whether the Path at an address cites a filter. -/
def citesAt (heap : Nat → Option RfsPath) (f : Flt) (p : Nat) : Bool :=
  (heap p).any (·.cites f)

/-- **The invariant of the registry.** -/
structure RegInv (s : Reg) : Prop where
  keys : (s.list.map (keyOf s.heap)).Nodup
  fresh : ∀ p, s.next ≤ p → s.heap p = none
  registered : ∀ p ∈ s.list, ∃ r, s.heap p = some r ∧ PathWf r
  unregistered : ∀ p r, s.heap p = some r → p ∉ s.list →
    r.rinch = [] ∧ r.rexch = [] ∧ r.rroot = none ∧ p ∈ s.handles
  count : ∀ p r, s.heap p = some r → r.count = (if p ∈ s.list then 2 else 0) + s.handles.count p
  handles : ∀ p ∈ s.handles, s.heap p ≠ none
  roots : ∀ rt, (s.roots rt).rpaths = s.list.filter (inRoot s.heap rt)
  pathsNr : ∀ f, s.pathsNr f = s.list.countP (citesAt s.heap f)

theorem RegInv.init (rootOf : Nat → Nat) : RegInv (Reg.init rootOf) where
  keys := List.nodup_nil
  fresh _ _ := rfl
  registered _ h := absurd h (List.not_mem_nil _)
  unregistered _ _ h := by simp [Reg.init] at h
  count _ _ h := by simp [Reg.init] at h
  handles _ h := absurd h (List.not_mem_nil _)
  roots _ := rfl
  pathsNr _ := rfl

section Facts

variable {s : Reg} {p : Nat} {r : RfsPath} (hs : RegInv s)
include hs

theorem RegInv.nodup : s.list.Nodup := hs.keys.of_map _

theorem RegInv.lt_next (h : s.heap p = some r) : p < s.next := by
  by_contra hn
  simp [hs.fresh p (by omega)] at h

theorem RegInv.wf (hp : p ∈ s.list) (h : s.heap p = some r) : PathWf r := by
  obtain ⟨r', h', hw⟩ := hs.registered p hp
  rw [h] at h'
  cases h'
  exact hw

/-- A registered Path holds the references of its two lists. -/
theorem RegInv.two_le_count (hp : p ∈ s.list) (h : s.heap p = some r) : 2 ≤ r.count := by
  rw [hs.count p r h, if_pos hp]
  omega

/-- A Path a caller holds has a reference for it. -/
theorem RegInv.count_of_held (hh : p ∈ s.handles) (h : s.heap p = some r) :
    (if p ∈ s.list then 2 else 0) < r.count := by
  rw [hs.count p r h]
  have := List.count_pos_iff.2 hh
  omega

theorem RegInv.count_ne_zero (h : s.heap p = some r) : r.count ≠ 0 := by
  by_cases hp : p ∈ s.list
  · have := hs.two_le_count hp h
    omega
  · have := hs.count_of_held (hs.unregistered p r h hp).2.2.2 h
    omega

/-- An address a caller holds is allocated. -/
theorem RegInv.heap_of_held (hh : p ∈ s.handles) : ∃ r, s.heap p = some r :=
  Option.ne_none_iff_exists'.1 (hs.handles p hh)

/-- The address the allocator hands out next holds no registered Path. -/
theorem RegInv.next_not_mem : s.next ∉ s.list := fun hp => by
  obtain ⟨r, hr, -⟩ := hs.registered _ hp
  rw [hs.fresh _ le_rfl] at hr
  cases hr

end Facts

/-! ### Frame lemmas for the views -/

variable {s : Reg} {p : Nat} {r r' : RfsPath}

theorem keyOf_update_same (h : s.heap p = some r) (hk : r'.mnt = r.mnt ∧ r'.dentry = r.dentry) :
    keyOf (Function.update s.heap p (some r')) = keyOf s.heap := by
  funext q
  by_cases hq : q = p
  · subst hq
    simp [keyOf, h, hk.1, hk.2]
  · simp [keyOf, hq]

theorem inRoot_update_same (h : s.heap p = some r) (hr : r'.rroot = r.rroot) :
    inRoot (Function.update s.heap p (some r')) = inRoot s.heap := by
  funext rt q
  by_cases hq : q = p
  · subst hq
    simp [inRoot, h, hr]
  · simp [inRoot, hq]

theorem citesAt_update_same (h : s.heap p = some r) {f : Flt} (hc : r'.cites f = r.cites f) :
    citesAt (Function.update s.heap p (some r')) f = citesAt s.heap f := by
  funext q
  by_cases hq : q = p
  · subst hq
    simp [citesAt, h, hc]
  · simp [citesAt, hq]

theorem PathWf.of_sameShape (hw : PathWf r) (hi : r'.rinch = r.rinch) (he : r'.rexch = r.rexch)
    (hr : r'.rroot = r.rroot) : PathWf r' :=
  ⟨hr ▸ hw.rroot, hi ▸ he ▸ hw.cites, hi ▸ hw.nodupIn, he ▸ hw.nodupEx, hi ▸ he ▸ hw.disjoint⟩

section Congr

variable {h h' : Nat → Option RfsPath} {l : List Nat}

/-- The views of the Paths of a list only read the heap at its members. -/
theorem map_keyOf_congr (he : ∀ q ∈ l, h' q = h q) : l.map (keyOf h') = l.map (keyOf h) :=
  List.map_congr_left fun q hq => by simp [keyOf, he q hq]

theorem filter_inRoot_congr (he : ∀ q ∈ l, h' q = h q) (rt : Nat) :
    l.filter (inRoot h' rt) = l.filter (inRoot h rt) :=
  List.filter_congr fun q hq => by simp [inRoot, he q hq]

theorem countP_citesAt_congr (he : ∀ q ∈ l, h' q = h q) (f : Flt) :
    l.countP (citesAt h' f) = l.countP (citesAt h f) :=
  List.countP_congr fun q hq => by simp [citesAt, he q hq]

end Congr

/-! ### Taking and giving back a handle -/

/-- The state after a caller takes a reference to the Path at `p` (record
`r`). -/
def Reg.grab (s : Reg) (p : Nat) (r : RfsPath) : Reg :=
  { s.setPath p { r with count := r.count + 1 } with handles := s.handles ++ [p] }

/-- The state after a caller gives back a reference to the Path at `p`
(record `r`); the last reference frees it. -/
def Reg.release (s : Reg) (p : Nat) (r : RfsPath) : Reg :=
  { (if r.count = 1 then s.free p else s.setPath p { r with count := r.count - 1 }) with
    handles := s.handles.erase p }

/-- **Recounting one Path.** A state that differs from an invariant one only in
the count of one allocated Path and in the callers' handles keeps the
invariant, as long as that count is still two per list plus one per handle and
the Path is still registered or held. -/
theorem RegInv.recount (hs : RegInv s) (h : s.heap p = some r) {c : Nat} {hd : List Nat}
    (hc : c = (if p ∈ s.list then 2 else 0) + hd.count p) (hcov : p ∈ s.list ∨ p ∈ hd)
    (hother : ∀ q, q ≠ p → hd.count q = s.handles.count q) :
    RegInv { s.setPath p { r with count := c } with handles := hd } := by
  have hk : keyOf (Function.update s.heap p (some { r with count := c })) = keyOf s.heap :=
    keyOf_update_same h ⟨rfl, rfl⟩
  have hr : inRoot (Function.update s.heap p (some { r with count := c })) = inRoot s.heap :=
    inRoot_update_same h rfl
  have hf : ∀ f, citesAt (Function.update s.heap p (some { r with count := c })) f =
      citesAt s.heap f := fun f => citesAt_update_same h rfl
  have hmem : ∀ q, q ≠ p → (q ∈ hd ↔ q ∈ s.handles) := fun q hq => by
    rw [← List.count_pos_iff, ← List.count_pos_iff, hother q hq]
  have hlt := hs.lt_next h
  constructor
  · simpa [hk] using hs.keys
  · intro q hq
    have hq' : s.next ≤ q := hq
    simpa [show q ≠ p by omega] using hs.fresh q hq'
  · intro q hq
    by_cases hqp : q = p
    · subst hqp
      exact ⟨{ r with count := c }, by simp, (hs.wf hq h).of_sameShape rfl rfl rfl⟩
    · simpa [hqp] using hs.registered q hq
  · intro q r' hq hnl
    by_cases hqp : q = p
    · subst hqp
      simp only [Reg.setPath_heap, Function.update_same, Option.some.injEq] at hq
      subst hq
      have := hs.unregistered q r h hnl
      exact ⟨this.1, this.2.1, this.2.2.1, hcov.resolve_left hnl⟩
    · simp only [Reg.setPath_heap, Function.update_noteq hqp] at hq
      have := hs.unregistered q r' hq hnl
      exact ⟨this.1, this.2.1, this.2.2.1, (hmem q hqp).2 this.2.2.2⟩
  · intro q r' hq
    by_cases hqp : q = p
    · subst hqp
      simp only [Reg.setPath_heap, Function.update_same, Option.some.injEq] at hq
      subst hq
      exact hc
    · simp only [Reg.setPath_heap, Function.update_noteq hqp] at hq
      simpa [hother q hqp] using hs.count q r' hq
  · intro q hq
    by_cases hqp : q = p
    · subst hqp; simp
    · simpa [hqp] using hs.handles q ((hmem q hqp).1 hq)
  · intro rt
    simpa [hr] using hs.roots rt
  · intro f
    simpa [hf] using hs.pathsNr f

theorem RegInv.grab (hs : RegInv s) (h : s.heap p = some r) : RegInv (s.grab p r) := by
  refine hs.recount h ?_ (.inr (by simp)) fun q hq => by simp [List.count_singleton, hq]
  rw [hs.count p r h, List.count_append, List.count_singleton_self]
  omega

theorem RegInv.release (hs : RegInv s) (h : s.heap p = some r) (hh : p ∈ s.handles) :
    RegInv (s.release p r) := by
  have hpos := hs.count_of_held hh h
  have hcount := hs.count p r h
  have hother : ∀ q, q ≠ p → (s.handles.erase p).count q = s.handles.count q :=
    fun q hq => List.count_erase_of_ne hq _
  by_cases h1 : r.count = 1
  · have hnl : p ∉ s.list := fun hp => by have := hs.two_le_count hp h; omega
    have hc1 : s.handles.count p = 1 := by rw [if_neg hnl] at hcount; omega
    have hne : p ∉ s.handles.erase p := by
      rw [← List.count_eq_zero, List.count_erase_self, hc1]
    have hne' : ∀ q ∈ s.list, q ≠ p := fun q hq e => hnl (e ▸ hq)
    have he : ∀ q ∈ s.list, Function.update s.heap p none q = s.heap q := fun q hq =>
      Function.update_noteq (hne' q hq) _ _
    simp only [Reg.release, if_pos h1]
    constructor
    · simpa [map_keyOf_congr he] using hs.keys
    · intro q hq
      have hq' : s.next ≤ q := hq
      by_cases hqp : q = p
      · subst hqp; simp
      · simpa [hqp] using hs.fresh q hq'
    · intro q hq
      simpa [hne' q hq] using hs.registered q hq
    · intro q r' hq hnl'
      by_cases hqp : q = p
      · subst hqp; simp at hq
      · simp only [Reg.free_heap, Function.update_noteq hqp] at hq
        have := hs.unregistered q r' hq hnl'
        exact ⟨this.1, this.2.1, this.2.2.1, (List.mem_erase_of_ne hqp).2 this.2.2.2⟩
    · intro q r' hq
      by_cases hqp : q = p
      · subst hqp; simp at hq
      · simp only [Reg.free_heap, Function.update_noteq hqp] at hq
        simpa [List.count_erase_of_ne hqp] using hs.count q r' hq
    · intro q hq
      have hqp : q ≠ p := fun e => hne (e ▸ hq)
      simpa [hqp] using hs.handles q (List.mem_of_mem_erase hq)
    · intro rt
      simpa [filter_inRoot_congr he] using hs.roots rt
    · intro f
      simpa [countP_citesAt_congr he] using hs.pathsNr f
  · simp only [Reg.release, if_neg h1]
    refine hs.recount h ?_ ?_ hother
    · rw [List.count_erase_self]
      omega
    · by_cases hp : p ∈ s.list
      · exact .inl hp
      · right
        rw [if_neg hp] at hcount hpos
        rw [← List.count_pos_iff, List.count_erase_self]
        omega

/-! ### Adding and removing a filter -/

/-- A count over a list, split at one of its members. -/
theorem countP_eq_erase {l : List Nat} {P : Nat → Bool} (hp : p ∈ l) :
    l.countP P = (l.erase p).countP P + if P p then 1 else 0 := by
  rw [(List.perm_cons_erase hp).countP_eq, List.countP_cons]

/-- A count over a duplicate-free list whose test changes at one member only. -/
theorem countP_change {l : List Nat} {P Q : Nat → Bool} (hl : l.Nodup) (hp : p ∈ l)
    (h : ∀ q ∈ l, q ≠ p → Q q = P q) :
    l.countP Q + (if P p then 1 else 0) = l.countP P + (if Q p then 1 else 0) := by
  have hc : (l.erase p).countP Q = (l.erase p).countP P :=
    List.countP_congr fun q hq => by
      rw [h q (List.mem_of_mem_erase hq) (hl.mem_erase_iff.1 hq).1]
  rw [countP_eq_erase hp, countP_eq_erase (P := P) hp, hc]
  omega

variable {m : Mode} {f : Flt}

theorem PathWf.addFlt (hw : PathWf r) (hf : f ∉ r.chain m) (hf' : f ∉ r.chain m.other) :
    PathWf (r.setChain m (rfsChainAdd (r.chain m) f)) := by
  cases m
  · simp only [RfsPath.chain_include, Mode.other_include, RfsPath.chain_exclude] at hf hf'
    exact ⟨hw.rroot, .inl (by simp [RfsPath.setChain, rfsChainAdd]), nodup_rfsChainAdd hw.nodupIn hf,
      hw.nodupEx,
      fun g hg => by rcases mem_rfsChainAdd.1 hg with hg | rfl; exacts [hw.disjoint g hg, hf']⟩
  · simp only [RfsPath.chain_exclude, Mode.other_exclude, RfsPath.chain_include] at hf hf'
    exact ⟨hw.rroot, .inr (by simp [RfsPath.setChain, rfsChainAdd]), hw.nodupIn,
      nodup_rfsChainAdd hw.nodupEx hf,
      fun g hg hg' => by
        rcases mem_rfsChainAdd.1 hg' with hg' | rfl; exacts [hw.disjoint g hg hg', hf' hg]⟩

theorem PathWf.remFlt (hw : PathWf r)
    (hc : (r.setChain m (rfsChainRem (r.chain m) f)).rinch ≠ [] ∨
      (r.setChain m (rfsChainRem (r.chain m) f)).rexch ≠ []) :
    PathWf (r.setChain m (rfsChainRem (r.chain m) f)) := by
  cases m
  · exact ⟨hw.rroot, hc, nodup_rfsChainRem hw.nodupIn f, hw.nodupEx,
      fun g hg => hw.disjoint g (List.mem_of_mem_erase hg)⟩
  · exact ⟨hw.rroot, hc, hw.nodupIn, nodup_rfsChainRem hw.nodupEx f,
      fun g hg hg' => hw.disjoint g hg (List.mem_of_mem_erase hg')⟩

theorem RfsPath.cites_addFlt (r : RfsPath) (m : Mode) (f g : Flt) :
    (r.setChain m (rfsChainAdd (r.chain m) f)).cites g = (r.cites g || g == f) := by
  rw [Bool.eq_iff_iff]
  cases m <;> simp [RfsPath.cites, RfsPath.setChain, rfsChainAdd] <;> tauto

theorem RfsPath.cites_remFlt (hw : PathWf r) (hf : f ∈ r.chain m) (g : Flt) :
    (r.setChain m (rfsChainRem (r.chain m) f)).cites g = (r.cites g && g != f) := by
  cases m
  · have := hw.disjoint f hf
    simp only [RfsPath.cites, RfsPath.setChain, rfsChainRem, hw.nodupIn.mem_erase_iff]
    by_cases hg : g = f
    · subst hg; simp [this, hw.nodupIn.not_mem_erase]
    · simp [hg]
  · have : f ∉ r.rinch := fun h => hw.disjoint f h hf
    simp only [RfsPath.cites, RfsPath.setChain, rfsChainRem, hw.nodupEx.mem_erase_iff]
    by_cases hg : g = f
    · subst hg; simp [this, hw.nodupEx.not_mem_erase]
    · simp [hg]

/-- A change of the chains of a registered Path keeps every part of the
invariant but `paths_nr` and the Path's own well-formedness. -/
theorem RegInv.rechain (hs : RegInv s) (hp : p ∈ s.list) (h : s.heap p = some r)
    {s' : Reg} {r' : RfsPath} (hheap : s'.heap = Function.update s.heap p (some r'))
    (hlist : s'.list = s.list) (hnext : s'.next = s.next) (hhd : s'.handles = s.handles)
    (hroots : ∀ rt, (s'.roots rt).rpaths = (s.roots rt).rpaths)
    (hkey : r'.mnt = r.mnt ∧ r'.dentry = r.dentry) (hrr : r'.rroot = r.rroot)
    (hcount : r'.count = r.count) (hw : PathWf r')
    (hnr : ∀ f, s'.pathsNr f = s'.list.countP (citesAt s'.heap f)) : RegInv s' := by
  have hne : ∀ q, q ∉ s.list → q ≠ p := fun q hq e => hq (e ▸ hp)
  have hlt := hs.lt_next h
  constructor
  · simpa [hheap, hlist, keyOf_update_same h hkey] using hs.keys
  · intro q hq
    rw [hnext] at hq
    simpa [hheap, show q ≠ p by omega] using hs.fresh q hq
  · intro q hq
    rw [hlist] at hq
    by_cases hqp : q = p
    · subst hqp; exact ⟨r', by simp [hheap], hw⟩
    · simpa [hheap, hqp] using hs.registered q hq
  · intro q r'' hq hnl
    rw [hlist] at hnl
    simp only [hheap, Function.update_noteq (hne q hnl)] at hq
    simpa [hhd] using hs.unregistered q r'' hq hnl
  · intro q r'' hq
    by_cases hqp : q = p
    · subst hqp
      simp only [hheap, Function.update_same, Option.some.injEq] at hq
      subst hq
      simpa [hlist, hhd, hcount] using hs.count q r h
    · simp only [hheap, Function.update_noteq hqp] at hq
      simpa [hlist, hhd] using hs.count q r'' hq
  · intro q hq
    rw [hhd] at hq
    by_cases hqp : q = p
    · subst hqp; simp [hheap]
    · simpa [hheap, hqp] using hs.handles q hq
  · intro rt
    simpa [hroots, hheap, hlist, inRoot_update_same h hrr] using hs.roots rt
  · exact hnr

theorem RegInv.addFlt (hs : RegInv s) (hp : p ∈ s.list) (h : s.heap p = some r) {rt : Nat}
    (hf : f ∉ r.chain m) (hf' : f ∉ r.chain m.other) :
    RegInv (s.addFlt p r m f rt) := by
  refine hs.rechain hp h (by simp) (by simp) (by simp) (by simp) (by simp) (by simp) (by simp)
    (by simp) ((hs.wf hp h).addFlt hf hf') fun g => ?_
  simp only [Reg.addFlt_pathsNr, Reg.addFlt_list, Reg.addFlt_heap]
  by_cases hg : g = f
  · subst hg
    have hc := countP_change (P := citesAt s.heap g)
      (Q := citesAt (Function.update s.heap p (some (r.setChain m (rfsChainAdd (r.chain m) g)))) g)
      hs.nodup hp fun q _ hq => by simp [citesAt, hq]
    have hnot : r.cites g = false := by
      cases m <;> simp_all [RfsPath.cites]
    simp only [citesAt, h, Option.any_some, hnot, Function.update_same, RfsPath.cites_addFlt,
      beq_self_eq_true, Bool.or_true, if_true, Bool.false_eq_true, if_false] at hc
    simp only [Function.update_same, hs.pathsNr g, citesAt]
    omega
  · rw [Function.update_noteq hg, citesAt_update_same h (by simp [RfsPath.cites_addFlt, hg]),
      hs.pathsNr g]

theorem RegInv.remFlt (hs : RegInv s) (hp : p ∈ s.list) (h : s.heap p = some r) {rt : Nat}
    (hf : f ∈ r.chain m)
    (hc : (r.setChain m (rfsChainRem (r.chain m) f)).rinch ≠ [] ∨
      (r.setChain m (rfsChainRem (r.chain m) f)).rexch ≠ []) :
    RegInv (s.remFlt p r m f rt) := by
  have hw := hs.wf hp h
  refine hs.rechain hp h (by simp) (by simp) (by simp) (by simp) (by simp) (by simp) (by simp)
    (by simp) (hw.remFlt hc) fun g => ?_
  simp only [Reg.remFlt_pathsNr, Reg.remFlt_list, Reg.remFlt_heap]
  by_cases hg : g = f
  · subst hg
    have hc := countP_change (P := citesAt s.heap g)
      (Q := citesAt (Function.update s.heap p (some (r.setChain m (rfsChainRem (r.chain m) g)))) g)
      hs.nodup hp fun q _ hq => by simp [citesAt, hq]
    have hyes : r.cites g = true := by
      cases m <;> simp_all [RfsPath.cites]
    simp only [citesAt, h, Option.any_some, hyes, Function.update_same,
      RfsPath.cites_remFlt hw hf, bne_self_eq_false, Bool.and_false, if_true,
      Bool.false_eq_true, if_false] at hc
    simp only [Function.update_same, hs.pathsNr g, citesAt]
    omega
  · rw [Function.update_noteq hg, citesAt_update_same h (by simp [RfsPath.cites_remFlt hw hf, hg]),
      hs.pathsNr g]

/-- **Unregistering a Path.** When the filter removed was the last one of a
Path a caller holds, `rfs_path_rem` takes it off both lists, and the state keeps
the invariant with the Path now unregistered and held. -/
theorem RegInv.unlink (hs : RegInv s) (hp : p ∈ s.list) (h : s.heap p = some r) {rt : Nat}
    (hr : r.rroot = some rt) (hf : f ∈ r.chain m)
    (hi : (r.setChain m (rfsChainRem (r.chain m) f)).rinch = [])
    (he : (r.setChain m (rfsChainRem (r.chain m) f)).rexch = []) (hh : p ∈ s.handles) :
    RegInv ((s.remFlt p r m f rt).unlink p (r.setChain m (rfsChainRem (r.chain m) f)) rt) := by
  have hw := hs.wf hp h
  have hnd := hs.nodup
  set r' := r.setChain m (rfsChainRem (r.chain m) f)
  have hheap : Function.update (Function.update s.heap p (some r')) p
      (some { r' with count := r'.count - 2, rroot := none }) =
      Function.update s.heap p (some { r' with count := r.count - 2, rroot := none }) := by
    simp [r']
  have hmem : ∀ q ∈ s.list.erase p, q ≠ p := fun q hq => (hnd.mem_erase_iff.1 hq).1
  have heq : ∀ q ∈ s.list.erase p,
      Function.update s.heap p (some { r' with count := r.count - 2, rroot := none }) q =
        s.heap q := fun q hq => Function.update_noteq (hmem q hq) _ _
  have hcount := hs.count p r h
  rw [if_pos hp] at hcount
  have hlt := hs.lt_next h
  constructor
  · simp only [Reg.unlink_list, Reg.remFlt_list, Reg.unlink_heap, Reg.remFlt_heap, hheap,
      map_keyOf_congr heq]
    exact hs.keys.sublist ((List.erase_sublist p s.list).map _)
  · intro q hq
    simp only [Reg.unlink_next, Reg.remFlt_next] at hq
    simpa [hheap, show q ≠ p by omega] using hs.fresh q hq
  · intro q hq
    simp only [Reg.unlink_list, Reg.remFlt_list] at hq
    simpa [hheap, hmem q hq] using hs.registered q (List.mem_of_mem_erase hq)
  · intro q r'' hq hnl
    simp only [Reg.unlink_list, Reg.remFlt_list, Reg.unlink_heap, Reg.remFlt_heap, hheap,
      Reg.unlink_handles, Reg.remFlt_handles] at hq hnl ⊢
    by_cases hqp : q = p
    · subst hqp
      simp only [Function.update_same, Option.some.injEq] at hq
      subst hq
      exact ⟨hi, he, rfl, hh⟩
    · rw [Function.update_noteq hqp] at hq
      exact hs.unregistered q r'' hq fun hq' => hnl ((List.mem_erase_of_ne hqp).2 hq')
  · intro q r'' hq
    simp only [Reg.unlink_list, Reg.remFlt_list, Reg.unlink_heap, Reg.remFlt_heap, hheap,
      Reg.unlink_handles, Reg.remFlt_handles] at hq ⊢
    by_cases hqp : q = p
    · subst hqp
      simp only [Function.update_same, Option.some.injEq] at hq
      subst hq
      simp only [hnd.not_mem_erase, if_false]
      omega
    · rw [Function.update_noteq hqp] at hq
      simpa [List.mem_erase_of_ne hqp] using hs.count q r'' hq
  · intro q hq
    simp only [Reg.unlink_handles, Reg.remFlt_handles] at hq
    by_cases hqp : q = p
    · subst hqp; simp
    · simpa [hqp] using hs.handles q hq
  · intro x
    simp only [Reg.unlink_rpaths, Reg.remFlt_rpaths, Reg.unlink_list, Reg.remFlt_list,
      Reg.unlink_heap, Reg.remFlt_heap, hheap, filter_inRoot_congr heq, ← List.erase_filter]
    split_ifs with hx
    · subst hx; rw [hs.roots]
    · rw [hs.roots, List.erase_of_not_mem]
      simp [inRoot, h, hr, Ne.symm hx]
  · intro g
    simp only [Reg.unlink_pathsNr, Reg.remFlt_pathsNr, Reg.unlink_list, Reg.remFlt_list,
      Reg.unlink_heap, Reg.remFlt_heap, hheap, countP_citesAt_congr heq]
    have hsplit := countP_eq_erase (P := citesAt s.heap g) hp
    have hcg : r.cites g = (g == f) := by
      by_cases hg : g = f
      · subst hg; cases m <;> simp_all [RfsPath.cites]
      · have h0 : r'.cites g = false := by simp [RfsPath.cites, hi, he]
        rw [RfsPath.cites_remFlt hw hf] at h0
        simpa [beq_false_of_ne hg, hg] using h0
    simp only [citesAt, h, Option.any_some, hcg] at hsplit
    by_cases hg : g = f
    · subst hg
      simp only [Function.update_same, hs.pathsNr g, citesAt, beq_self_eq_true, if_true] at hsplit ⊢
      omega
    · simp only [Function.update_noteq hg, hs.pathsNr g, citesAt, beq_iff_eq, hg,
        if_false] at hsplit ⊢
      omega

/-! ### Registering a new Path -/

theorem PathWf.newPath (s : Reg) (mnt dentry : Nat) (m : Mode) (f : Flt) :
    PathWf (s.newPath mnt dentry m f) := by
  cases m <;> exact ⟨by simp, by simp [Reg.newPath, RfsPath.setChain],
    by simp [Reg.newPath, RfsPath.setChain], by simp [Reg.newPath, RfsPath.setChain],
    by simp [Reg.newPath, RfsPath.setChain]⟩

theorem Reg.newPath_cites (s : Reg) (mnt dentry : Nat) (m : Mode) (f g : Flt) :
    (s.newPath mnt dentry m f).cites g = (g == f) := by
  cases m <;> simp [Reg.newPath, RfsPath.cites, RfsPath.setChain, Bool.beq_eq_decide_eq]

/-- **Registering a new Path.** A Path made for a key no registered Path has,
with one filter and its caller's handle, keeps the invariant. -/
theorem RegInv.register (hs : RegInv s) {mnt dentry : Nat}
    (hk : s.firstOn (fun r => r.isAt mnt dentry) = none) (m : Mode) (f : Flt) :
    RegInv (s.register mnt dentry m f) := by
  have hfr := hs.fresh s.next le_rfl
  have hnl : s.next ∉ s.list := fun h => by
    obtain ⟨r, hr, -⟩ := hs.registered _ h
    simp [hfr] at hr
  have hnh : s.next ∉ s.handles := fun h => hs.handles _ h hfr
  have hne : ∀ q, s.heap q ≠ none → q ≠ s.next := fun q hq hq' => hq (hq' ▸ hfr)
  have heq : ∀ q ∈ s.list, Function.update s.heap s.next (some (s.newPath mnt dentry m f)) q =
      s.heap q := fun q hq => by
    obtain ⟨r, hr, -⟩ := hs.registered q hq
    exact Function.update_noteq (hne q (by simp [hr])) _ _
  constructor
  · simp only [Reg.register_list, Reg.register_heap, List.map_append, map_keyOf_congr heq]
    refine List.nodup_append.2 ⟨hs.keys, List.nodup_singleton _, ?_⟩
    simp only [List.disjoint_singleton, List.mem_map, not_exists, not_and, List.map_cons,
      List.map_nil]
    intro q hq hkq
    obtain ⟨r, hr, -⟩ := hs.registered q hq
    have := firstOn_none hk q hq r hr
    simp [keyOf, hr, RfsPath.isAt, keyOf] at hkq this
    exact this hkq.1 hkq.2
  · intro q hq
    simp only [Reg.register_next] at hq
    simpa [show q ≠ s.next by omega] using hs.fresh q (by omega)
  · intro q hq
    simp only [Reg.register_list, List.mem_append, List.mem_singleton] at hq
    rcases hq with hq | rfl
    · simpa [heq q hq] using hs.registered q hq
    · exact ⟨_, by simp, PathWf.newPath s mnt dentry m f⟩
  · intro q r hq hnq
    simp only [Reg.register_list, List.mem_append, List.mem_singleton, not_or,
      Reg.register_heap, Reg.register_handles] at hq hnq ⊢
    rw [Function.update_noteq hnq.2] at hq
    obtain ⟨h1, h2, h3, h4⟩ := hs.unregistered q r hq hnq.1
    exact ⟨h1, h2, h3, .inl h4⟩
  · intro q r hq
    simp only [Reg.register_list, List.mem_append, List.mem_singleton, Reg.register_heap,
      Reg.register_handles, List.count_append, List.count_singleton'] at hq ⊢
    by_cases hqn : q = s.next
    · subst hqn
      simp only [Function.update_same, Option.some.injEq] at hq
      subst hq
      simp [List.count_eq_zero_of_not_mem hnh]
    · rw [Function.update_noteq hqn] at hq
      simpa [hqn, Ne.symm hqn] using hs.count q r hq
  · intro q hq
    simp only [Reg.register_handles, List.mem_append, List.mem_singleton] at hq
    by_cases hqn : q = s.next
    · simp [hqn]
    · rcases hq with hq | hq
      · simpa [hqn] using hs.handles q hq
      · exact absurd hq hqn
  · intro x
    simp only [Reg.register_rpaths, Reg.register_list, Reg.register_heap, List.filter_append,
      filter_inRoot_congr heq, ← hs.roots x]
    by_cases hx : x = s.rootOf dentry
    · simp [hx, inRoot]
    · simp [hx, inRoot, Ne.symm hx]
  · intro g
    simp only [Reg.register_pathsNr, Reg.register_list, Reg.register_heap, List.countP_append,
      countP_citesAt_congr heq, hs.pathsNr]
    by_cases hg : g = f
    · subst hg; simp [citesAt, Reg.newPath_cites]
    · simp [citesAt, Reg.newPath_cites, hg, hs.pathsNr]

/-- A failed registration of a new Path moves the allocator past the address
it took, and nothing else. -/
theorem RegInv.bump (hs : RegInv s) {n : Nat} (hn : s.next ≤ n) : RegInv { s with next := n } :=
  { hs with fresh := fun q hq => hs.fresh q (le_trans hn hq) }

end RedirFS
