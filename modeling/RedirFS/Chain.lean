import Mathlib.Data.List.Nodup

/-!
# Filter chains

A chain is the ordered list of filters active at a place of the namespace: an
include or exclude chain of a Path, the merged chain of a root, the resolved
chain cached at an entry. `rfs_chain.c` is not part of this development, so the
four operations `rfs_path.c` calls are modelled here from the spec's chain
algebra: a chain is a list of filters, the distinguished value "no chain" is the
empty list, `rfs_chain_add` appends at the tail, `rfs_chain_rem` deletes, and
`rfs_chain_diff` keeps, in order, the members of its first argument that are not
in its second.

The operations are pure; an allocation that fails is an outcome the callers
receive from outside (see `RedirFS.Faults`), not something a chain decides.
None of them checks that its result is duplicate-free: `rfs_path.c` keeps its
chains so by testing with `rfs_chain_find` before every add, and the rename
propagation does so without testing, which is what
`RedirFS.Rename.chainAdd_absent` proves.
-/

namespace RedirFS

/-- A filter, by the identity of its `rfs_flt` object. -/
abbrev Flt := Nat

/-- Modelled from the spec: `rfs_chain_find`, the position of a filter in a
chain, or `-1` when it is not there (in particular in "no chain"). -/
def rfsChainFind (c : List Flt) (f : Flt) : Int :=
  if f ∈ c then c.indexOf f else -1

/-- Modelled from the spec: `rfs_chain_add` appends the filter at the tail, the
lowest priority, keeping the order of the others. -/
def rfsChainAdd (c : List Flt) (f : Flt) : List Flt := c ++ [f]

/-- Modelled from the spec: `rfs_chain_rem` deletes the filter; removing the
last one gives "no chain". -/
def rfsChainRem (c : List Flt) (f : Flt) : List Flt := c.erase f

/-- Modelled from the spec: `rfs_chain_diff a b`, the members of `a` that are not
in `b`, in the order of `a`. -/
def rfsChainDiff (a b : List Flt) : List Flt := a.filter fun f => f ∉ b

@[simp] theorem rfsChainFind_eq_neg_one {c : List Flt} {f : Flt} :
    rfsChainFind c f = -1 ↔ f ∉ c := by
  unfold rfsChainFind
  split
  · next h => simp only [h, not_true_eq_false, iff_false]; omega
  · next h => simp [h]

theorem rfsChainFind_ne_neg_one {c : List Flt} {f : Flt} :
    rfsChainFind c f ≠ -1 ↔ f ∈ c := by
  simp

@[simp] theorem mem_rfsChainAdd {c : List Flt} {f g : Flt} :
    g ∈ rfsChainAdd c f ↔ g ∈ c ∨ g = f := by
  simp [rfsChainAdd]

@[simp] theorem mem_rfsChainDiff {a b : List Flt} {f : Flt} :
    f ∈ rfsChainDiff a b ↔ f ∈ a ∧ f ∉ b := by
  simp [rfsChainDiff]

theorem mem_rfsChainRem {c : List Flt} (hc : c.Nodup) {f g : Flt} :
    g ∈ rfsChainRem c f ↔ g ∈ c ∧ g ≠ f := by
  rw [rfsChainRem, hc.mem_erase_iff, and_comm]

theorem nodup_rfsChainAdd {c : List Flt} {f : Flt} (hc : c.Nodup) (hf : f ∉ c) :
    (rfsChainAdd c f).Nodup :=
  List.nodup_append.2 ⟨hc, List.nodup_singleton f, by simpa using hf⟩

theorem nodup_rfsChainRem {c : List Flt} (hc : c.Nodup) (f : Flt) :
    (rfsChainRem c f).Nodup :=
  hc.erase f

theorem nodup_rfsChainDiff {a : List Flt} (ha : a.Nodup) (b : List Flt) :
    (rfsChainDiff a b).Nodup :=
  ha.filter _

end RedirFS
