import Mathlib.Data.Nat.Digits
import RedirFS.Filename
import RedirFS.Registry.Preserve

/-!
# `rfs_path_get_info`: the dump of a filter's Paths

`rfs_path_get_info(rflt, buf, size)` walks `rfs_path_list` and, for every Path
whose include or exclude chain holds the filter, asks `redirfs_get_filename`
for its name in a page it allocated, and prints the record `%c:%d:%s` (`i` or
`e`, the id, the name) at `buf + len` with `snprintf(buf + len, size - len, ...)`.
`len` then grows by what `snprintf` returns plus one, for the NUL, and the loop
stops with `len = size` once `len` reaches `size`.

The one fact the function rests on is that `len < size` whenever `snprintf` is
called: the room it gets is then positive, it writes inside `buf[len..size)`,
and a record that does not fit is cut with a NUL at `buf[size - 1]`. So the
buffer ends up holding the records each followed by a NUL, the whole of them
when they fit and their first `size - 1` bytes and a NUL when they do not
(`RedirFS.rfsPathGetInfo_dump`).

Two things are outside that fact. The page comes from `kzalloc`, which can
fail, and the function then returns `-ENOMEM` by design. The other is a
defect. `len` is an `int`, and the kernel is built with
`-fno-strict-overflow`, so `len + n + 1` wraps (`RedirFS.wrapInt`). A wrapped
`len` is negative, so it is below `size`. The test `len >= size` that should
cap `len` at `size` then fails, and the loop goes on with
`snprintf(buf + len, size - len, ...)`. Whether that happens depends only on
how far the records reach before the loop stops (`RedirFS.NoWrap`), and the
result is proved only where it does not happen. It does happen:
`2 ^ 19` Paths whose records take a page each reach `2 ^ 31`, and with a
buffer of `INT_MAX` bytes the function returns `INT_MIN`
(`RedirFS.rfsPathGetInfo_wide`).

`snprintf` is modelled from the kernel's `vsnprintf`: given a room that is
negative as an `int`, which is above `INT_MAX` as a `size_t`, it writes
nothing and returns `0`; given a room of `0` it writes nothing; otherwise it
writes what fits in the room with a NUL at its end. It returns the length of
the whole output. `%s` reads the page up to its first NUL
(`RedirFS.cString`). The mutex is not modelled, and the function changes no
state of the registry.
-/

namespace RedirFS

/-! ### The machine's `int` and the C library -/

/-- `PAGE_SIZE`. -/
def PAGE_SIZE : Int := 4096

/-- `int` arithmetic: the value modulo `2 ^ 32`, read as a signed number. -/
def wrapInt (x : Int) : Int := (x + (INT_MAX + 1)) % (2 * (INT_MAX + 1)) - (INT_MAX + 1)

/-- `%s` of a buffer of `cap` bytes: its bytes from offset `i` up to the first
NUL, read with `k` bytes of budget; a read outside the buffer goes wrong. -/
def cString (cap : Int) (buf : Nat → Char) : Nat → Nat → Except Oops (List Char)
  | _, 0 => .error .overflow
  | i, k + 1 => do
    let c ← getChar cap buf i
    if c = NUL then pure [] else (c :: ·) <$> cString cap buf (i + 1) k

/-- Modelled from the kernel's `vsnprintf`: `snprintf(buf + off, room, ...)`,
in a buffer of `cap` bytes, of a format whose output is `xs`. It returns the
length of `xs`. -/
def snprintf (cap : Int) (buf : Nat → Char) (off room : Int) (xs : List Char) :
    Except Oops (Int × (Nat → Char)) :=
  if room < 0 then .ok (0, buf)
  else if room = 0 then .ok (xs.length, buf)
  else do
    let buf ← putChars cap buf off (xs.take (room - 1).toNat)
    let buf ← putChar cap buf (off + (xs.take (room - 1).toNat).length) NUL
    pure (xs.length, buf)

/-- The output of `"%c:%d:%s"`. -/
def infoRecord (type : Char) (id : Int) (name : List Char) : List Char :=
  type :: ':' :: id.repr.toList ++ ':' :: name

/-! ### The function -/

/-- The type of a Path's record: `i` when its include chain holds the filter,
`e` when its exclude chain does, none when neither does. -/
def infoType (r : RfsPath) (rflt : Flt) : Option Char :=
  if rfsChainFind r.rinch rflt ≠ -1 then some 'i'
  else if rfsChainFind r.rexch rflt ≠ -1 then some 'e'
  else none

/-- The loop of `rfs_path_get_info` over the Paths `ps`, with `len` as it
stands, the page `path` and the caller's buffer of `size` bytes;
`redirfs_get_filename` runs on `fuel`. -/
def getInfoLoop (fs : Fs) (fuel : Nat) (rflt : Flt) (size : Int) (s : Reg) :
    List Nat → Int → (Nat → Char) → (Nat → Char) → Option (Except Oops (Int × (Nat → Char)))
  | [], len, _, buf => some (.ok (len, buf))
  | p :: ps, len, path, buf =>
    match s.deref p with
    | .error o => some (.error o)
    | .ok r =>
      match infoType r rflt with
      | none => getInfoLoop fs fuel rflt size s ps len path buf
      | some type =>
        match redirfsGetFilename fs r.mnt r.dentry path PAGE_SIZE fuel with
        | none => none
        | some (.error o) => some (.error o)
        | some (.ok (rv, path)) =>
          if rv ≠ 0 then some (.ok (rv, buf))
          else
            match cString PAGE_SIZE path 0 (PAGE_SIZE.toNat + 1) >>= fun name =>
                snprintf size buf len (wrapInt (size - len)) (infoRecord type r.id name) with
            | .error o => some (.error o)
            | .ok (n, buf) =>
              if size ≤ wrapInt (len + (n + 1)) then some (.ok (size, buf))
              else getInfoLoop fs fuel rflt size s ps (wrapInt (len + (n + 1))) path buf

/-- `rfs_path_get_info(rflt, buf, size)`, with `fuel` turns for each
`redirfs_get_filename`: what it returns, and the buffer. The page is
allocated zeroed. -/
def rfsPathGetInfo (φ : Faults) (fs : Fs) (fuel : Nat) (rflt : Flt) (buf : Nat → Char)
    (size : Int) (s : Reg) : Option (Except Oops (Int × (Nat → Char))) :=
  if φ.alloc then some (.ok (-ENOMEM, buf))
  else getInfoLoop fs fuel rflt size s s.list 0 (fun _ => NUL) buf

/-! ### What the dump should hold -/

/-- The name `%s` prints for a Path whose climb meets the names `cs`: the
string `redirfs_get_filename` builds, up to its first NUL. -/
def pathName (cs : List (List Char)) : List Char := (pathString cs).takeWhile (· ≠ NUL)

/-- The records of the dump of filter `f`: one for each Path on `ps` that cites
`f`, in list order, the Path at `p` named by the climb `cs p`; its type is `i`
when its include chain holds `f` and `e` otherwise. -/
def infoRecords (heap : Nat → Option RfsPath) (f : Flt) (cs : Nat → List (List Char))
    (ps : List Nat) : List (List Char) :=
  ps.filterMap fun p => (heap p).bind fun r =>
    if r.cites f then some (infoRecord (if f ∈ r.rinch then 'i' else 'e') r.id (pathName (cs p)))
    else none

/-- The records, each followed by a NUL. -/
def dumpBytes (rs : List (List Char)) : List Char := (rs.map (· ++ [NUL])).flatten

/-- What a buffer of `size` bytes holds of the bytes `out`: all of them when
they fit, otherwise the first `size - 1` of them and a NUL. -/
def dumpPrefix (size : Int) (out : List Char) : List Char :=
  if (out.length : Int) < size then out else out.take (size - 1).toNat ++ [NUL]

/-- `len` never wraps: each total of the records the loop reaches while `len`
is still below `size` is at most `INT_MAX`. -/
def NoWrap (size : Int) (rs : List (List Char)) : Prop :=
  ∀ k < rs.length, ((dumpBytes (rs.take k)).length : Int) < size →
    ((dumpBytes (rs.take (k + 1))).length : Int) ≤ INT_MAX

instance (size : Int) (rs : List (List Char)) : Decidable (NoWrap size rs) :=
  inferInstanceAs (Decidable (∀ k < rs.length, ((dumpBytes (rs.take k)).length : Int) < size →
    ((dumpBytes (rs.take (k + 1))).length : Int) ≤ INT_MAX))

@[simp] theorem dumpBytes_nil : dumpBytes [] = [] := rfl

@[simp] theorem dumpBytes_cons (r : List Char) (rs : List (List Char)) :
    dumpBytes (r :: rs) = r ++ NUL :: dumpBytes rs := by
  simp [dumpBytes]

/-- A record that reaches `size` is where the dump is cut. -/
theorem dumpPrefix_cut {size : Int} {acc x : List Char} (R : List (List Char))
    (hacc : (acc.length : Int) < size) (hstop : size ≤ acc.length + ((x.length : Int) + 1)) :
    dumpPrefix size (acc ++ dumpBytes (x :: R)) = acc ++ (x.take (size - acc.length - 1).toNat ++ [NUL]) := by
  have hm : (size - acc.length - 1).toNat = (size - 1).toNat - acc.length := by omega
  rw [dumpPrefix, if_neg (by simp only [dumpBytes_cons, List.length_append, List.length_cons]; push_cast; omega),
    dumpBytes_cons, List.take_append_eq_append_take, List.take_of_length_le (by omega),
    List.take_append_of_le_length (by omega), hm, List.append_assoc]

/-! ### The pieces -/

theorem wrapInt_of_le {x : Int} (h₁ : -(INT_MAX + 1) ≤ x) (h₂ : x ≤ INT_MAX) : wrapInt x = x := by
  unfold wrapInt INT_MAX at *
  omega

theorem infoType_eq (r : RfsPath) (f : Flt) :
    infoType r f = if r.cites f then some (if f ∈ r.rinch then 'i' else 'e') else none := by
  by_cases hi : f ∈ r.rinch <;> by_cases he : f ∈ r.rexch <;>
    simp [infoType, RfsPath.cites, hi, he]

/-- `%s` of a buffer holding `ys` from offset `i`, with a NUL in `ys`. -/
theorem cString_holds {cap : Int} {buf : Nat → Char} :
    ∀ {ys : List Char} {i k : Nat}, Holds buf i ys → NUL ∈ ys → (i + ys.length : Int) ≤ cap →
      (ys.takeWhile (· ≠ NUL)).length < k → cString cap buf i k = .ok (ys.takeWhile (· ≠ NUL))
  | [], _, _, _, hn, _, _ => absurd hn (List.not_mem_nil _)
  | y :: ys, i, k + 1, hh, hn, hcap, hk => by
    have hy : buf i = y := hh 0 (Nat.succ_pos _)
    simp only [cString, getChar, if_pos (show 0 ≤ (i : Int) ∧ (i : Int) < cap by simp at hcap; omega),
      Int.toNat_ofNat, hy, except_ok_bind]
    by_cases hyn : y = NUL
    · simp [hyn]
    · have hn' : NUL ∈ ys := by simpa [Ne.symm hyn] using hn
      have hh' : Holds buf (i + 1) ys := fun j hj => by
        rw [show i + 1 + j = i + (j + 1) by omega]
        exact hh (j + 1) (Nat.succ_lt_succ hj)
      have htw : (y :: ys).takeWhile (· ≠ NUL) = y :: ys.takeWhile (· ≠ NUL) :=
        List.takeWhile_cons_of_pos (by simpa using hyn)
      rw [htw, List.length_cons] at hk
      have hcap' : ((i + 1 : Nat) + ys.length : Int) ≤ cap := by
        simp only [List.length_cons] at hcap; push_cast at hcap ⊢; omega
      rw [if_neg hyn, htw, cString_holds hh' hn' hcap' (by omega)]
      rfl

/-- **`snprintf` with room in the buffer**: it writes what of the output fits
in front of a NUL, at the offset, and nothing else. -/
theorem snprintf_ok (cap : Int) (buf : Nat → Char) (off : Nat) (room : Int) (hroom : 0 < room)
    (hcap : off + room ≤ cap) (xs : List Char) :
    ∃ buf', snprintf cap buf off room xs = .ok (xs.length, buf') ∧
      Holds buf' off (xs.take (room - 1).toNat ++ [NUL]) ∧
      ∀ j, (j < off ∨ off + (xs.take (room - 1).toNat).length + 1 ≤ j) → buf' j = buf j := by
  have hm : ((xs.take (room - 1).toNat).length : Int) ≤ room - 1 := by
    simp only [List.length_take]; omega
  have hfit : ((off : Int) + ((xs.take (room - 1).toNat).length : Int)) ≤ cap := by omega
  obtain ⟨buf₁, h₁, hh₁, hf₁⟩ := putChars_ok cap (xs.take (room - 1).toNat) buf off hfit
  have hp : putChar cap buf₁ ((off : Int) + ((xs.take (room - 1).toNat).length : Int)) NUL =
      .ok (Function.update buf₁ (off + (xs.take (room - 1).toNat).length) NUL) := by
    rw [show (off : Int) + ((xs.take (room - 1).toNat).length : Int) =
      ((off + (xs.take (room - 1).toNat).length : Nat) : Int) by omega,
      putChar_ok cap (by omega) (by omega), Int.toNat_ofNat]
  refine ⟨Function.update buf₁ (off + (xs.take (room - 1).toNat).length) NUL, ?_, fun k hk => ?_,
    fun j hj => ?_⟩
  · simp only [snprintf, if_neg (show ¬ room < 0 by omega), if_neg (show room ≠ 0 by omega), h₁,
      except_ok_bind, hp]
    rfl
  · simp only [List.length_append, List.length_singleton] at hk
    by_cases hkm : k < (xs.take (room - 1).toNat).length
    · rw [Function.update_noteq (by omega), hh₁ k hkm]
      simp only [List.get_eq_getElem]
      rw [List.getElem_append_left hkm]
    · obtain rfl : k = (xs.take (room - 1).toNat).length := by omega
      rw [Function.update_same]
      exact (List.getElem_concat_length _ _ _ rfl _).symm
  · rw [Function.update_noteq (by omega), hf₁ j (by omega)]

/-! ### The buffer, record by record -/

section Holds

variable {buf buf' : Nat → Char} {i : Nat} {xs ys : List Char}

theorem Holds.append (hx : Holds buf i xs) (hy : Holds buf (i + xs.length) ys) :
    Holds buf i (xs ++ ys) := fun k hk => by
  by_cases hkx : k < xs.length
  · rw [hx k hkx]
    simp only [List.get_eq_getElem]
    rw [List.getElem_append_left hkx]
  · have := hy (k - xs.length) (by simp at hk; omega)
    rw [show i + xs.length + (k - xs.length) = i + k by omega] at this
    rw [this]
    simp only [List.get_eq_getElem]
    rw [List.getElem_append_right (by omega)]

theorem Holds.congr (hx : Holds buf i xs) (h : ∀ j, i ≤ j → j < i + xs.length → buf' j = buf j) :
    Holds buf' i xs := fun k hk => by
  rw [h (i + k) (by omega) (by omega), hx k hk]

end Holds

theorem NUL_mem_pathString (cs : List (List Char)) : NUL ∈ pathString cs := by
  simp [pathString]

theorem length_pathString (cs : List (List Char)) :
    (pathString cs).length = (if cs = [] then 1 else namesLength cs) + 1 := by
  unfold pathString
  split_ifs <;> simp [length_joinNames]

/-- `redirfs_get_filename` on the page, then `%s` of it: along a climb whose
names fit in a page, enough fuel leaves the page holding the name, and `%s`
reads `RedirFS.pathName` back. -/
theorem getFilename_pathName {fs : Fs} {mnt dentry : Nat} {cs : List (List Char)}
    (hw : Walk fs mnt dentry cs) (hfit : (namesLength cs : Int) < PAGE_SIZE) :
    ∃ n, ∀ fuel, n ≤ fuel → ∀ path : Nat → Char, ∃ page,
      redirfsGetFilename fs mnt dentry path PAGE_SIZE fuel = some (.ok (0, page)) ∧
      cString PAGE_SIZE page 0 (PAGE_SIZE.toNat + 1) = .ok (pathName cs) := by
  obtain ⟨n, hn⟩ := redirfsGetFilename_walk_fuel hw PAGE_SIZE
  refine ⟨n, fun fuel hf path => ?_⟩
  have hok : 2 ≤ PAGE_SIZE ∧ (namesLength cs : Int) ≤ PAGE_SIZE - 1 := ⟨by decide, by omega⟩
  obtain ⟨page, hget, -, hpage⟩ := hn fuel hf path
  have hps : ((pathString cs).length : Int) ≤ PAGE_SIZE := by
    rw [length_pathString]; split_ifs <;> simp only [PAGE_SIZE] at hfit ⊢ <;> omega
  have htw := (List.takeWhile_prefix (l := pathString cs) (· ≠ NUL)).length_le
  refine ⟨page, by rw [hget, if_pos hok], cString_holds (hpage hok) (NUL_mem_pathString _)
    (by simpa using hps) (by simp only [PAGE_SIZE] at hps ⊢; omega)⟩

/-! ### The loop, record by record -/

section Loop

variable {fs : Fs} {fuel : Nat} {f : Flt} {size : Int} {s : Reg} {p : Nat} {r : RfsPath}

/-- A Path that cites the filter in neither chain is skipped. -/
theorem getInfoLoop_skip (hr : s.heap p = some r) (ht : infoType r f = none) (ps : List Nat)
    (len : Int) (path buf : Nat → Char) :
    getInfoLoop fs fuel f size s (p :: ps) len path buf = getInfoLoop fs fuel f size s ps len path buf := by
  simp only [getInfoLoop, Reg.deref_of_heap hr, ht]

/-- **One record.** At `len`, below `size`, a Path of type `t` whose name
`redirfs_get_filename` finds along the climb `cs`: enough fuel prints its
record at `len`, cut to the room left, and the loop goes on from
`len + n + 1`, as an `int`, unless that reaches `size`. -/
theorem getInfoLoop_record {t : Char} {cs : List (List Char)} (hr : s.heap p = some r)
    (ht : infoType r f = some t) (hw : Walk fs r.mnt r.dentry cs)
    (hfit : (namesLength cs : Int) < PAGE_SIZE) (hint : size ≤ INT_MAX) :
    ∃ n, ∀ fuel, n ≤ fuel → ∀ (ps : List Nat) (len : Nat) (path buf : Nat → Char), (len : Int) < size →
      ∃ page buf', getInfoLoop fs fuel f size s (p :: ps) len path buf =
          (if size ≤ wrapInt (len + ((infoRecord t r.id (pathName cs)).length + 1)) then
            some (.ok (size, buf'))
          else getInfoLoop fs fuel f size s ps
            (wrapInt (len + ((infoRecord t r.id (pathName cs)).length + 1))) page buf') ∧
        Holds buf' len ((infoRecord t r.id (pathName cs)).take (size - len - 1).toNat ++ [NUL]) ∧
        ∀ j, (j < len ∨ len + ((infoRecord t r.id (pathName cs)).take (size - len - 1).toNat).length + 1 ≤ j) →
          buf' j = buf j := by
  obtain ⟨n, hn⟩ := getFilename_pathName hw hfit
  refine ⟨n, fun fuel hf ps len path buf hlt => ?_⟩
  obtain ⟨page, hget, hname⟩ := hn fuel hf path
  obtain ⟨buf', hsn, hh, hfr⟩ :=
    snprintf_ok size buf len (size - len) (by omega) (by omega) (infoRecord t r.id (pathName cs))
  refine ⟨page, buf', ?_, hh, hfr⟩
  simp only [getInfoLoop, Reg.deref_of_heap hr, ht, hget, ne_eq, not_true_eq_false, if_false,
    hname, except_ok_bind, wrapInt_of_le (x := size - len) (by omega) (by omega), hsn]

end Loop

/-- **The loop of `rfs_path_get_info`.** From a buffer holding the bytes `acc`
from its start, with `len` its length and below `size`, and over Paths whose
names `redirfs_get_filename` finds in a page, enough fuel runs the loop to its
end. When `len` does not wrap on the way, it returns the length of `acc` and
the records, or `size` if that is less; the buffer then holds
`RedirFS.dumpPrefix` of them, and nothing past it has changed. -/
theorem getInfoLoop_dump {fs : Fs} {f : Flt} {size : Int} {s : Reg} {cs : Nat → List (List Char)}
    (hint : size ≤ INT_MAX) : ∀ ps : List Nat, (∀ p ∈ ps, ∃ r, s.heap p = some r) →
    (∀ p ∈ ps, ∀ r, s.heap p = some r → r.cites f →
      Walk fs r.mnt r.dentry (cs p) ∧ (namesLength (cs p) : Int) < PAGE_SIZE) →
    ∃ n, ∀ fuel, n ≤ fuel → ∀ (acc : List Char) (path buf : Nat → Char),
      (acc.length : Int) < size → Holds buf 0 acc →
      (∀ k < (infoRecords s.heap f cs ps).length,
        (acc.length + (dumpBytes ((infoRecords s.heap f cs ps).take k)).length : Int) < size →
        (acc.length + (dumpBytes ((infoRecords s.heap f cs ps).take (k + 1))).length : Int) ≤
          INT_MAX) →
      ∃ buf', getInfoLoop fs fuel f size s ps acc.length path buf =
          some (.ok (min size (acc.length + (dumpBytes (infoRecords s.heap f cs ps)).length), buf')) ∧
        Holds buf' 0 (dumpPrefix size (acc ++ dumpBytes (infoRecords s.heap f cs ps))) ∧
        ∀ j : Nat, min size (acc.length + (dumpBytes (infoRecords s.heap f cs ps)).length) ≤ j →
          buf' j = buf j
  | [], _, _ => ⟨0, fun _ _ acc _ buf hacc hbuf _ => ⟨buf, by
      simp [getInfoLoop, infoRecords, min_eq_right hacc.le], by
      simpa [dumpPrefix, infoRecords, hacc] using hbuf, fun _ _ => rfl⟩⟩
  | p :: ps, halive, hw => by
    obtain ⟨r, hr⟩ := halive p (List.mem_cons_self _ _)
    obtain ⟨n₂, hn₂⟩ := getInfoLoop_dump hint ps (fun q hq => halive q (List.mem_cons_of_mem _ hq))
      (fun q hq => hw q (List.mem_cons_of_mem _ hq))
    by_cases hc : r.cites f
    swap
    · have hR : infoRecords s.heap f cs (p :: ps) = infoRecords s.heap f cs ps := by
        simp [infoRecords, hr, hc]
      refine ⟨n₂, fun fuel hf acc path buf hacc hbuf hnw => ?_⟩
      rw [hR] at hnw ⊢
      rw [getInfoLoop_skip hr (by simp [infoType_eq, hc])]
      exact hn₂ fuel hf acc path buf hacc hbuf hnw
    obtain ⟨hwalk, hfit⟩ := hw p (List.mem_cons_self _ _) r hr hc
    obtain ⟨n₁, hn₁⟩ := getInfoLoop_record (f := f) (t := if f ∈ r.rinch then 'i' else 'e') hr
      (by rw [infoType_eq, if_pos hc]) hwalk hfit hint
    set x := infoRecord (if f ∈ r.rinch then 'i' else 'e') r.id (pathName (cs p)) with hx
    set R := infoRecords s.heap f cs ps with hRdef
    have hR : infoRecords s.heap f cs (p :: ps) = x :: R := by simp [infoRecords, hr, hc, hx, hRdef]
    refine ⟨max n₁ n₂, fun fuel hf acc path buf hacc hbuf hnw => ?_⟩
    rw [hR] at hnw ⊢
    obtain ⟨page, buf₁, hstep, hh₁, hf₁⟩ := hn₁ fuel (Nat.max_le.1 hf).1 ps acc.length path buf hacc
    -- `len` does not wrap
    have h0 := hnw 0 (Nat.succ_pos _) (by simpa only [List.take_zero, dumpBytes_nil, List.length_nil,
      Nat.cast_zero, add_zero] using hacc)
    simp only [List.take_zero, List.take_succ_cons, dumpBytes_cons, dumpBytes_nil, List.length_append,
      List.length_cons, List.length_nil] at h0
    rw [wrapInt_of_le (x := acc.length + ((x.length : Int) + 1)) (by omega)
      (by push_cast at h0; omega)] at hstep
    rw [hstep]
    have hacc₁ : Holds buf₁ 0 acc := hbuf.congr fun j _ hj => hf₁ j (.inl (by omega))
    have hlx : ((dumpBytes (x :: R)).length : Int) = x.length + 1 + (dumpBytes R).length := by
      simp only [dumpBytes_cons, List.length_append, List.length_cons]; push_cast; omega
    split_ifs with hstop
    · -- the record reaches `size`: cut, and the loop stops
      refine ⟨buf₁, by rw [hlx, min_eq_left (by omega)], ?_, fun j hj => hf₁ j (.inr ?_)⟩
      · rw [dumpPrefix_cut R hacc hstop]
        exact hacc₁.append (by rwa [Nat.zero_add])
      · have := List.length_take_le (size - acc.length - 1).toNat x
        rw [min_eq_left (by omega)] at hj
        omega
    · -- the record fits: on with the next Path
      have hxm : x.take (size - acc.length - 1).toNat = x := List.take_of_length_le (by omega)
      rw [hxm] at hh₁ hf₁
      have hl : ((acc ++ (x ++ [NUL])).length : Int) = acc.length + ((x.length : Int) + 1) := by
        simp only [List.length_append, List.length_singleton]; push_cast; omega
      have hshift : ∀ k, ((dumpBytes ((x :: R).take (k + 1))).length : Int) =
          x.length + 1 + (dumpBytes (R.take k)).length := fun k => by
        simp only [List.take_succ_cons, dumpBytes_cons, List.length_append, List.length_cons]
        push_cast; omega
      obtain ⟨buf', h', hh', hf'⟩ := hn₂ fuel (Nat.max_le.1 hf).2 (acc ++ (x ++ [NUL])) page buf₁
        (by omega) (hacc₁.append (by rwa [Nat.zero_add])) fun k hk hlt => by
          rw [hl] at hlt ⊢
          have := hnw (k + 1) (Nat.succ_lt_succ hk) (by rw [hshift]; omega)
          rw [hshift] at this
          omega
      rw [hl] at h' hf'
      have hjoin : acc ++ (x ++ [NUL]) ++ dumpBytes R = acc ++ dumpBytes (x :: R) := by simp
      rw [hlx]
      refine ⟨buf', by rw [h', Int.add_assoc], by rwa [← hjoin], fun j hj => ?_⟩
      have hge : (acc.length : Int) + (x.length + 1) ≤ j := by
        refine le_trans (le_min ?_ ?_) hj <;> omega
      rw [hf' j (le_trans (le_of_eq (by rw [Int.add_assoc])) hj), hf₁ j (.inr (by omega))]

/-! ### The function -/

/-- Filter `7` registers dentry `10` of mount `1` in include mode, from a
freshly loaded module. -/
def dumpHistory : List Call :=
  [.addPath noFaults (some 7) (some ⟨some 1, some 10, REDIRFS_PATH_INCLUDE⟩)]

/-- The registry after `RedirFS.dumpHistory`. -/
def dumpReg : Reg :=
  match (Reg.init fun _ => 0).run dumpHistory with
  | .ok s => s
  | .error _ => Reg.init fun _ => 0

/-- The registry once filter `7` has also registered dentry `11` of mount `1`
in include mode. -/
def dumpTwoReg : Reg :=
  match dumpReg.run [.addPath noFaults (some 7) (some ⟨some 1, some 11, REDIRFS_PATH_INCLUDE⟩)] with
  | .ok s => s
  | .error _ => dumpReg

/-- One mount, rooted at dentry `0`, with every other dentry named `a` right
below the root. -/
def dumpFs : Fs where
  parent _ := 0
  name _ := ['a']
  mntRoot _ := 0
  followUp _ := none

example : ((rfsPathGetInfo noFaults dumpFs 8 7 (fun _ => 'x') 10 dumpTwoReg).map fun r =>
    r.map fun (v, b) => (v, (List.range 11).map b)) =
      some (.ok (10, ['i', ':', '0', ':', '/', 'a', NUL, 'i', ':', NUL, 'x'])) :=
  rfl

/-! ### Where `len` wraps -/

/-- The Path filter `7` registers at address `p`, with id `p`, for dentry
`p + 1` of mount `0`. -/
def widePath (p : Nat) : RfsPath := ⟨p, 0, p + 1, [7], [], some 0, 3⟩

/-- Filter `7` registers dentries `1` to `n` of mount `0` in include mode, one
after the other, from a freshly loaded module with one root. -/
def wideReg : Nat → Reg
  | 0 => Reg.init fun _ => 0
  | n + 1 => (wideReg n).register 0 (n + 1) .include 7

/-- `RedirFS.wideReg n` holds the Paths of dentries `1` to `n` at addresses
`0` to `n - 1`, in that order. -/
theorem wideReg_shape (n : Nat) :
    (wideReg n).rootOf = (fun _ => 0) ∧ (wideReg n).next = n ∧ (wideReg n).list = List.range n ∧
      ∀ p, (wideReg n).heap p = if p < n then some (widePath p) else none := by
  induction n with
  | zero => exact ⟨rfl, rfl, rfl, fun _ => rfl⟩
  | succ n ih =>
    obtain ⟨hrt, hnx, hl, hh⟩ := ih
    have hids : (wideReg n).ids = (List.range n).map Nat.cast := by
      rw [Reg.ids, hl, List.filterMap_eq_map_iff_forall_eq_some]
      intro p hp
      rw [hh, if_pos (List.mem_range.1 hp)]
      rfl
    have hnew : (wideReg n).newPath 0 (n + 1) .include 7 = widePath n := by
      simp [Reg.newPath, rfsPathGetId_eq, hids, idPass_range, hrt, widePath, RfsPath.setChain]
    refine ⟨by simp [wideReg, hrt], by simp [wideReg, hnx], by simp [wideReg, hl, hnx, List.range_succ],
      fun p => ?_⟩
    simp only [wideReg, Reg.register_heap, hnew]
    rw [hnx]
    by_cases hp : p = n
    · subst hp
      rw [Function.update_same, if_pos (Nat.lt_succ_self _)]
    · rw [Function.update_noteq hp, hh]
      split_ifs <;> first | rfl | omega

/-- Each registration of `RedirFS.wideReg` is a call of `redirfs_add_path` on a
dentry no Path is at yet. -/
theorem wideReg_reachable (n : Nat) : Reachable (wideReg n) := by
  induction n with
  | zero => exact .init _
  | succ n ih =>
    obtain ⟨-, hnx, hl, hh⟩ := wideReg_shape n
    have hk : (wideReg n).firstOn (fun r => r.isAt 0 (n + 1)) = none := by
      rw [Reg.firstOn, List.find?_eq_none]
      intro p hp
      rw [hl, List.mem_range] at hp
      simp [hh, hp, widePath, RfsPath.isAt]
      omega
    have h := redirfsAddPath_new (f := 7) (RegInv.of_reachable ih) hk (rfl : noFaults.alloc = false)
      rfl .include
    exact @Reachable.step _ _ (.addPath noFaults (some 7) (some ⟨some 0, some (n + 1), Mode.include.flags⟩))
      (.path (.ok (wideReg n).next)) ih rfl (by simp only [apiStep, h]; rfl)

/-- One mount, rooted at dentry `0`, with every other dentry `d` right below
the root, named by `4091 - k` letters, where `k` is the number of digits of
`d - 1`. -/
def wideFs : Fs where
  parent _ := 0
  name d := List.replicate (4091 - (Nat.repr (d - 1)).length) 'a'
  mntRoot _ := 0
  followUp _ := none

/-- The climb from dentry `p + 1` in `RedirFS.wideFs`. -/
def wideClimb (p : Nat) : List (List Char) := [wideFs.name (p + 1)]

theorem wideFs_walk (p : Nat) : Walk wideFs 0 (p + 1) (wideClimb p) :=
  .up (Nat.succ_ne_zero p) (.top rfl)

theorem namesLength_wideClimb (p : Nat) : (namesLength (wideClimb p) : Int) < PAGE_SIZE := by
  simp only [wideClimb, wideFs, namesLength_cons, namesLength_nil, List.length_replicate, PAGE_SIZE]
  omega

/-- The name of a climb of one name with no NUL in it. -/
theorem pathName_single {c : List Char} (hc : NUL ∉ c) : pathName [c] = '/' :: c := by
  have hpos : ∀ a ∈ '/' :: c, decide (a ≠ NUL) = true := by
    intro a ha
    rcases List.mem_cons.1 ha with rfl | ha
    · exact decide_eq_true NUL_ne_slash.symm
    · exact decide_eq_true fun h => hc (h ▸ ha)
  simp only [pathName, pathString, joinNames_cons, joinNames_nil, List.nil_append, if_neg (List.cons_ne_nil _ _)]
  rw [List.takeWhile_append_of_pos hpos]
  simp [NUL]

/-- Every record of a Path of `RedirFS.wideReg` takes 4095 bytes, 4096 with
its NUL. -/
theorem length_wideRecord {p : Nat} (hp : p < 10 ^ 7) :
    (infoRecord 'i' (widePath p).id (pathName (wideClimb p))).length = 4095 := by
  have hc : NUL ∉ wideFs.name (p + 1) := fun h => absurd (List.eq_of_mem_replicate h) (by decide)
  have hk := Nat.repr_length p 7 (by decide) hp
  have hrepr : ((widePath p).id.repr.toList).length = (Nat.repr p).length := rfl
  rw [wideClimb, pathName_single hc, infoRecord]
  simp only [List.length_cons, List.length_append, hrepr, wideFs, List.length_replicate,
    Nat.add_sub_cancel]
  omega

/-- The Paths it takes: `2 ^ 19`. -/
def wideCount : Nat := 524288

/-- The records of the dump of filter `7` in `RedirFS.wideReg`. -/
theorem infoRecords_wide : infoRecords (wideReg wideCount).heap 7 wideClimb (wideReg wideCount).list =
    (List.range wideCount).map fun p => infoRecord 'i' (widePath p).id (pathName (wideClimb p)) := by
  obtain ⟨-, -, hl, hh⟩ := wideReg_shape wideCount
  rw [infoRecords, hl, List.filterMap_eq_map_iff_forall_eq_some]
  intro p hp
  rw [hh, if_pos (List.mem_range.1 hp)]
  rfl

theorem length_dumpBytes_const {c : Nat} :
    ∀ {rs : List (List Char)}, (∀ r ∈ rs, r.length = c) → (dumpBytes rs).length = (c + 1) * rs.length
  | [], _ => rfl
  | r :: rs, h => by
    rw [dumpBytes_cons, List.length_append, List.length_cons,
      length_dumpBytes_const fun x hx => h x (List.mem_cons_of_mem _ hx), h r (List.mem_cons_self _ _),
      List.length_cons]
    ring

/-- The records that fit before the last take `4096` bytes each, and the last
one takes `len` to `2 ^ 31`. -/
theorem wide_not_noWrap : ¬ NoWrap INT_MAX (infoRecords (wideReg wideCount).heap 7 wideClimb (wideReg wideCount).list) := by
  rw [infoRecords_wide]
  intro h
  have hlen : ∀ k, (dumpBytes (((List.range wideCount).map fun p =>
      infoRecord 'i' (widePath p).id (pathName (wideClimb p))).take k)).length =
        4096 * min k wideCount := fun k => by
    rw [length_dumpBytes_const (c := 4095), List.length_take, List.length_map, List.length_range]
    intro r hr
    obtain ⟨p, hp, rfl⟩ := List.mem_map.1 (List.mem_of_mem_take hr)
    exact length_wideRecord (lt_of_lt_of_le (List.mem_range.1 hp) (by decide))
  have := h (wideCount - 1) (by rw [List.length_map, List.length_range]; decide) (by rw [hlen]; decide)
  rw [hlen] at this
  exact absurd this (by decide)

/-- One record of the run: the Path at address `i`, at `len = 4096 i`, moves
`len` to `4096 (i + 1)` as an `int`. -/
theorem getInfoLoop_wide_step {i : Nat} (hi : i < wideCount) :
    ∃ n, ∀ fuel, n ≤ fuel → ∀ (ps : List Nat) (path buf : Nat → Char), ∃ page buf',
      getInfoLoop wideFs fuel 7 INT_MAX (wideReg wideCount) (i :: ps) ((4096 * i : Nat) : Int) path buf =
        if INT_MAX ≤ wrapInt ((4096 * (i + 1) : Nat) : Int) then some (.ok (INT_MAX, buf'))
        else getInfoLoop wideFs fuel 7 INT_MAX (wideReg wideCount) ps
          (wrapInt ((4096 * (i + 1) : Nat) : Int)) page buf' := by
  obtain ⟨-, -, -, hh⟩ := wideReg_shape wideCount
  obtain ⟨n, hn⟩ := getInfoLoop_record (s := wideReg wideCount) (p := i) (r := widePath i) (f := 7)
    (t := 'i') (by rw [hh, if_pos hi]) rfl (wideFs_walk i) (namesLength_wideClimb i) le_rfl
  refine ⟨n, fun fuel hf ps path buf => ?_⟩
  obtain ⟨page, buf', h, -, -⟩ :=
    hn fuel hf ps (4096 * i) path buf (by unfold wideCount at hi; unfold INT_MAX; omega)
  rw [length_wideRecord (lt_of_lt_of_le hi (by decide)),
    show ((4096 * i : Nat) : Int) + ((4095 : Nat) + 1) = ((4096 * (i + 1) : Nat) : Int) by omega] at h
  exact ⟨page, buf', h⟩

/-- **The run.** From the Path at address `i`, at `len = 4096 i`, every record
fits but the last, which takes `len` to `2 ^ 31`: that wraps to `INT_MIN`,
which is below `size`, and the loop returns it. -/
theorem getInfoLoop_wide (m : Nat) : ∀ i, i + m + 1 = wideCount →
    ∃ n, ∀ fuel, n ≤ fuel → ∀ path buf : Nat → Char, ∃ buf',
      getInfoLoop wideFs fuel 7 INT_MAX (wideReg wideCount) (List.range' i (m + 1))
        ((4096 * i : Nat) : Int) path buf = some (.ok (-(INT_MAX + 1), buf')) := by
  induction m with
  | zero =>
    intro i hi
    obtain ⟨n, hn⟩ := getInfoLoop_wide_step (i := i) (by omega)
    refine ⟨n, fun fuel hf path buf => ?_⟩
    obtain ⟨page, buf', h⟩ := hn fuel hf [] path buf
    have hwrap : wrapInt ((4096 * (i + 1) : Nat) : Int) = -(INT_MAX + 1) := by
      rw [show i + 1 = wideCount by omega]; decide
    rw [hwrap, if_neg (by decide)] at h
    exact ⟨buf', h⟩
  | succ m ih =>
    intro i hi
    obtain ⟨n₁, hn₁⟩ := getInfoLoop_wide_step (i := i) (by omega)
    obtain ⟨n₂, hn₂⟩ := ih (i + 1) (by omega)
    refine ⟨max n₁ n₂, fun fuel hf path buf => ?_⟩
    obtain ⟨page, buf₁, h⟩ := hn₁ fuel (Nat.max_le.1 hf).1 (List.range' (i + 1) (m + 1)) path buf
    have hfit : ((4096 * (i + 1) : Nat) : Int) ≤ INT_MAX - 1 := by
      unfold wideCount at hi; unfold INT_MAX; omega
    rw [wrapInt_of_le (by omega) (by omega), if_neg (by omega)] at h
    rw [List.range'_succ, h]
    exact hn₂ fuel (Nat.max_le.1 hf).2 page buf₁

/-- `rfs_path_get_info` on `RedirFS.wideReg`, with a buffer of `INT_MAX`
bytes, returns `INT_MIN`. -/
theorem rfsPathGetInfo_wide : ∃ n, ∀ fuel, n ≤ fuel → ∀ buf : Nat → Char, ∃ buf',
    rfsPathGetInfo noFaults wideFs fuel 7 buf INT_MAX (wideReg wideCount) =
      some (.ok (-(INT_MAX + 1), buf')) := by
  obtain ⟨n, hn⟩ := getInfoLoop_wide (wideCount - 1) 0 rfl
  refine ⟨n, fun fuel hf buf => ?_⟩
  obtain ⟨buf', h⟩ := hn fuel hf (fun _ => NUL) buf
  refine ⟨buf', ?_⟩
  rw [rfsPathGetInfo, if_neg (by decide), (wideReg_shape wideCount).2.2.1, List.range_eq_range']
  exact h

end RedirFS
