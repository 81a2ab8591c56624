import RedirFS.Dump

/-!
# `rfs_path_get_info` stays inside the caller's buffer

`RedirFS.rfsPathGetInfo_dump` says what the dump holds when the names are
found and `len` never wraps. Here neither is assumed: whatever `d_parent` and
`follow_up` give, and however far `len` goes, the function never reads or
writes outside the page and the caller's `size` bytes, and it returns at most
`size`, or `0` when `size` is negative (`RedirFS.rfsPathGetInfo_in_bounds`).

The argument follows `len` through three regimes (`RedirFS.LenSafe`):

* while `0 ≤ len < size`, the room `size - len` is positive, and `snprintf`
  writes inside `buf[len, size)`;
* a buffer of no room at all (`size ≤ 0`) stops the loop at its first record;
* once `len + n + 1` passes `INT_MAX` it wraps to just above `INT_MIN`. Then
  `size - len` is above `INT_MAX`, negative as an `int`, so `snprintf` writes
  nothing and returns `0`, and `len` climbs by one a record.

A record takes at most `4109` bytes: an `int` prints in eleven characters and
the name fits in the page. So `len` stays in the third regime for more than
`2 ^ 31 - 4109` records. Past them `size - len` would come back to `INT_MAX`,
with `len` still negative unless `size = INT_MAX`, and `snprintf` would write
in front of `buf`; the theorem assumes at most `2 ^ 30` Paths.
-/

namespace RedirFS

/-! ### Lengths -/

theorem wrapInt_of_gt {x : Int} (h₁ : INT_MAX < x) (h₂ : x < 3 * (INT_MAX + 1)) :
    wrapInt x = x - 2 * (INT_MAX + 1) := by
  unfold wrapInt INT_MAX at *
  omega

/-- `%d` of an `int` takes at most eleven characters. -/
theorem length_repr_le {id : Int} (h₁ : -(INT_MAX + 1) ≤ id) (h₂ : id ≤ INT_MAX) :
    id.repr.toList.length ≤ 11 := by
  unfold INT_MAX at h₁ h₂
  cases id with
  | ofNat m =>
    rw [Int.ofNat_eq_coe] at h₂
    have := Nat.repr_length m 10 (by decide) (by norm_num; omega)
    show (Nat.repr m).length ≤ 11
    omega
  | negSucc m =>
    rw [Int.negSucc_coe] at h₁
    have := Nat.repr_length (m + 1) 10 (by decide) (by norm_num; omega)
    show ("-" ++ Nat.repr (m + 1)).length ≤ 11
    rw [String.length_append]
    show 1 + (Nat.repr (m + 1)).length ≤ 11
    omega

/-- The record of an `int` id and a name that fits in a page takes at most
`4109` bytes. -/
theorem length_infoRecord_le (t : Char) {id : Int} (h₁ : -(INT_MAX + 1) ≤ id) (h₂ : id ≤ INT_MAX)
    {name : List Char} (hn : (name.length : Int) < PAGE_SIZE) :
    (infoRecord t id name).length ≤ 4109 := by
  have := length_repr_le h₁ h₂
  simp only [infoRecord, List.length_cons, List.length_append, PAGE_SIZE] at hn ⊢
  omega

theorem length_takeWhile_lt {xs : List Char} (h : NUL ∈ xs) :
    (xs.takeWhile (· ≠ NUL)).length < xs.length := by
  have hd : xs.dropWhile (· ≠ NUL) ≠ [] := by
    rw [Ne, List.dropWhile_eq_nil_iff]
    exact fun hall => by simpa using hall NUL h
  have := congrArg List.length (List.takeWhile_append_dropWhile (· ≠ NUL) xs)
  rw [List.length_append] at this
  have := List.length_pos.2 hd
  omega

/-- **`redirfs_get_filename` on the page, whatever the trees**: it is still
climbing, or it returns `-ENAMETOOLONG`, or it returns `0` with a name that
`%s` reads within the page. -/
theorem getFilename_page (fs : Fs) (mnt dentry : Nat) (path : Nat → Char) (fuel : Nat) :
    redirfsGetFilename fs mnt dentry path PAGE_SIZE fuel = none ∨
    ∃ rv page, redirfsGetFilename fs mnt dentry path PAGE_SIZE fuel = some (.ok (rv, page)) ∧
      (rv = 0 ∧ (∃ name, cString PAGE_SIZE page 0 (PAGE_SIZE.toNat + 1) = .ok name ∧
        (name.length : Int) < PAGE_SIZE) ∨ rv = -ENAMETOOLONG) := by
  obtain ⟨hstart, h₀⟩ := redirfsGetFilename_start fs mnt dentry path
    (show (2 : Int) ≤ PAGE_SIZE by decide) fuel (k := 4095) (by decide)
  rw [hstart]
  rcases getFilenameLoop_in_bounds fs PAGE_SIZE (by decide) fuel mnt dentry 4095 _ [NUL] (by decide) h₀
    (.inl rfl) with h | ⟨v, page, h, hv, hstr⟩
  · exact .inl h
  refine .inr ⟨v, page, h, ?_⟩
  rcases hv with rfl | rfl
  · obtain ⟨xs, hh, -, hn, hl⟩ := hstr rfl
    have hlt := length_takeWhile_lt hn
    have hpage : PAGE_SIZE = (4096 : Nat) := rfl
    rw [hpage] at hl ⊢
    exact .inl ⟨rfl, _, cString_holds hh hn (by simpa using hl) (by simp only [Int.toNat_ofNat]; omega),
      by omega⟩
  · exact .inr rfl

/-! ### Where `len` may stand -/

/-- Where `len` may stand with `k` Paths left: inside the buffer, at `0` in a
buffer of no room, or wrapped so far below `size` that `k` more records leave
`size - len` above `INT_MAX`. -/
def LenSafe (size len : Int) (k : Nat) : Prop :=
  0 ≤ len ∧ len < size ∨ len = 0 ∧ size ≤ 0 ∨ -(INT_MAX + 1) ≤ len ∧ len + k < size - INT_MAX

theorem LenSafe.tail {size len : Int} {k : Nat} (h : LenSafe size len (k + 1)) : LenSafe size len k := by
  unfold LenSafe at *
  omega

/-- **One record, wherever `len` stands.** The `snprintf` of a record of at
most `4109` bytes writes nothing at or past `size`, and the new `len` either
stops the loop or stands where the next record may be printed. -/
theorem snprintf_record {size len : Int} {k : Nat} (hlo : -(INT_MAX + 1) ≤ size)
    (hhi : size ≤ INT_MAX) (hk : k ≤ 2 ^ 30) (hsafe : LenSafe size len (k + 1)) (buf : Nat → Char)
    {xs : List Char} (hxs : xs.length ≤ 4109) :
    ∃ m buf', snprintf size buf len (wrapInt (size - len)) xs = .ok (m, buf') ∧
      (∀ j : Nat, size ≤ j → buf' j = buf j) ∧
      (size ≤ wrapInt (len + (m + 1)) ∨ LenSafe size (wrapInt (len + (m + 1))) k) := by
  unfold LenSafe at hsafe ⊢
  rcases hsafe with ⟨h0, hlt⟩ | ⟨rfl, hs0⟩ | ⟨hl, hw⟩
  · -- inside the buffer: `snprintf` writes in `buf[len, size)`
    lift len to Nat using h0
    obtain ⟨buf', hsn, -, hfr⟩ := snprintf_ok size buf len (size - len) (by omega) (by omega) xs
    refine ⟨xs.length, buf', by rw [wrapInt_of_le (by omega) (by omega), hsn],
      fun j hj => hfr j (.inr (by simp only [List.length_take]; omega)), ?_⟩
    by_cases hno : (len : Int) + (xs.length + 1) ≤ INT_MAX
    · rw [wrapInt_of_le (by omega) hno]
      omega
    · rw [wrapInt_of_gt (by omega) (by unfold INT_MAX at *; omega)]
      unfold INT_MAX at *
      omega
  · -- no room: the first record stops the loop
    rw [Int.sub_zero, wrapInt_of_le hlo hhi]
    by_cases hneg : size < 0
    · refine ⟨0, buf, by rw [snprintf, if_pos hneg], fun _ _ => rfl, .inl ?_⟩
      rw [wrapInt_of_le (by unfold INT_MAX; omega) (by unfold INT_MAX; omega)]
      omega
    · obtain rfl : size = 0 := by omega
      refine ⟨xs.length, buf, rfl, fun _ _ => rfl, .inl ?_⟩
      rw [wrapInt_of_le (by unfold INT_MAX; omega) (by unfold INT_MAX at *; omega)]
      omega
  · -- wrapped: `size - len` is negative as an `int`, and `len` climbs by one
    have hroom : wrapInt (size - len) < 0 := by
      rw [wrapInt_of_gt (by omega) (by unfold INT_MAX at *; omega)]
      unfold INT_MAX at *
      omega
    refine ⟨0, buf, by rw [snprintf, if_pos hroom], fun _ _ => rfl, .inr (.inr (.inr ?_))⟩
    rw [wrapInt_of_le (by omega) (by unfold INT_MAX at *; omega)]
    omega

/-! ### The loop -/

section Loop

variable {fs : Fs} {fuel : Nat} {f : Flt} {size : Int} {s : Reg}

/-- **The loop stays inside the buffer.** Over Paths with `int` ids, at most
`2 ^ 30` of them, from wherever `len` may stand, the loop is still climbing a
name or returns at most `size` (or `0`), having written nothing at or past
`size`. -/
theorem getInfoLoop_in_bounds (hlo : -(INT_MAX + 1) ≤ size) (hhi : size ≤ INT_MAX) :
    ∀ (ps : List Nat) (len : Int) (path buf : Nat → Char),
      (∀ p ∈ ps, ∃ r, s.heap p = some r ∧ -(INT_MAX + 1) ≤ r.id ∧ r.id ≤ INT_MAX) →
      ps.length ≤ 2 ^ 30 → LenSafe size len ps.length →
      getInfoLoop fs fuel f size s ps len path buf = none ∨
      ∃ v buf', getInfoLoop fs fuel f size s ps len path buf = some (.ok (v, buf')) ∧
        v ≤ max size 0 ∧ ∀ j : Nat, size ≤ j → buf' j = buf j
  | [], len, _, buf, _, _, hsafe =>
    .inr ⟨len, buf, rfl, by unfold LenSafe INT_MAX at hsafe; omega, fun _ _ => rfl⟩
  | p :: ps, len, path, buf, hps, hlen, hsafe => by
    obtain ⟨r, hr, hid₁, hid₂⟩ := hps p (List.mem_cons_self _ _)
    have hps' := fun q hq => hps q (List.mem_cons_of_mem _ hq)
    rw [List.length_cons] at hlen hsafe
    have ih := getInfoLoop_in_bounds hlo hhi ps
    cases ht : infoType r f with
    | none =>
      rw [getInfoLoop_skip hr ht]
      exact ih len path buf hps' (by omega) hsafe.tail
    | some t =>
      rcases getFilename_page fs r.mnt r.dentry path fuel with
        hg | ⟨rv, page, hg, ⟨rfl, name, hname, hnl⟩ | rfl⟩
      · exact .inl (by simp only [getInfoLoop, Reg.deref_of_heap hr, ht, hg])
      · -- the name is found: one record
        obtain ⟨m, buf₁, hsn, hfr₁, hnext⟩ := snprintf_record hlo hhi (by omega) hsafe buf
          (length_infoRecord_le t hid₁ hid₂ hnl)
        have hstep : getInfoLoop fs fuel f size s (p :: ps) len path buf =
            if size ≤ wrapInt (len + (m + 1)) then some (.ok (size, buf₁))
            else getInfoLoop fs fuel f size s ps (wrapInt (len + (m + 1))) page buf₁ := by
          simp only [getInfoLoop, Reg.deref_of_heap hr, ht, hg, ne_eq, not_true_eq_false, if_false,
            hname, except_ok_bind, hsn]
        rw [hstep]
        split_ifs with hstop
        · exact .inr ⟨size, buf₁, rfl, le_max_left _ _, hfr₁⟩
        · rcases ih _ page buf₁ hps' (by omega) (hnext.resolve_left hstop) with
            h | ⟨v, buf', h, hv, hfr⟩
          · exact .inl h
          · exact .inr ⟨v, buf', h, hv, fun j hj => (hfr j hj).trans (hfr₁ j hj)⟩
      · -- the name does not fit in the page
        refine .inr ⟨-ENAMETOOLONG, buf, ?_, by unfold ENAMETOOLONG; omega, fun _ _ => rfl⟩
        simp only [getInfoLoop, Reg.deref_of_heap hr, ht, hg]
        rw [if_pos (by decide)]

end Loop

/-! ### The function -/

/-- **`rfs_path_get_info` stays inside the buffer.** In every reachable state
with at most `2 ^ 30` Paths, whose ids are `int`s, for every filter, every
state of the dentry and mount trees, every fault of the allocation and every
`int` size: the function is still climbing a name, or it returns at most
`size` (at most `0` when `size` is negative) with no read or write outside the
page and `buf[0, size)`. It does so also when `len` wraps. -/
theorem rfsPathGetInfo_in_bounds {s : Reg} (hs : Reachable s) (φ : Faults) (fs : Fs) (fuel : Nat)
    (f : Flt) (buf : Nat → Char) {size : Int} (hlo : -(INT_MAX + 1) ≤ size) (hhi : size ≤ INT_MAX)
    (hid : ∀ p ∈ s.list, ∀ r, s.heap p = some r → -(INT_MAX + 1) ≤ r.id ∧ r.id ≤ INT_MAX)
    (hlen : s.list.length ≤ 2 ^ 30) :
    rfsPathGetInfo φ fs fuel f buf size s = none ∨
      ∃ v buf', rfsPathGetInfo φ fs fuel f buf size s = some (.ok (v, buf')) ∧
        v ≤ max size 0 ∧ ∀ j : Nat, size ≤ j → buf' j = buf j := by
  unfold rfsPathGetInfo
  split_ifs
  · exact .inr ⟨-ENOMEM, buf, rfl, by unfold ENOMEM; omega, fun _ _ => rfl⟩
  · refine getInfoLoop_in_bounds hlo hhi s.list 0 _ buf (fun p hp => ?_) hlen (by unfold LenSafe; omega)
    obtain ⟨r, hr, -⟩ := (RegInv.of_reachable hs).alive p hp
    exact ⟨r, hr, hid p hp r hr⟩

theorem rfsPathGetInfo_in_bounds_dump :
    Reachable dumpReg ∧ -(INT_MAX + 1) ≤ (5 : Int) ∧ (5 : Int) ≤ INT_MAX ∧
      (∀ p ∈ dumpReg.list, ∀ r, dumpReg.heap p = some r → -(INT_MAX + 1) ≤ r.id ∧ r.id ≤ INT_MAX) ∧
      dumpReg.list.length ≤ 2 ^ 30 ∧
      (rfsPathGetInfo noFaults dumpFs 4 7 (fun _ => 'x') 5 dumpReg = none ∨
        ∃ v buf', rfsPathGetInfo noFaults dumpFs 4 7 (fun _ => 'x') 5 dumpReg = some (.ok (v, buf')) ∧
          v ≤ max 5 0 ∧ ∀ j : Nat, (5 : Int) ≤ j → buf' j = 'x') :=
  have hs : Reachable dumpReg := @Reachable.run _ _ dumpHistory (.init fun _ => 0) rfl rfl
  have hid : ∀ p ∈ dumpReg.list, ∀ r, dumpReg.heap p = some r →
      -(INT_MAX + 1) ≤ r.id ∧ r.id ≤ INT_MAX := by
    intro p hp r hr
    obtain rfl : p = 0 := by simpa [show dumpReg.list = [0] from rfl] using hp
    obtain rfl : r = ⟨0, 1, 10, [7], [], some 0, 3⟩ :=
      (Option.some.inj ((show dumpReg.heap 0 = some ⟨0, 1, 10, [7], [], some 0, 3⟩ from rfl).symm.trans
        hr)).symm
    decide
  have hlen : dumpReg.list.length ≤ 2 ^ 30 := by
    rw [show dumpReg.list = [0] from rfl]
    decide
  ⟨hs, by decide, by decide, hid, hlen,
    rfsPathGetInfo_in_bounds hs noFaults dumpFs 4 7 (fun _ => 'x') (by decide) (by decide) hid hlen⟩

end RedirFS
