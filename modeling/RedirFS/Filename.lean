import RedirFS.Registry.State

/-!
# `redirfs_get_filename`

The function builds the name of a dentry backwards from the end of the
caller's buffer: a NUL at the last byte, then, climbing `d_parent` to the root
of the mount and crossing to the parent mount with `follow_up` until the top,
`/name` in front of what is there. `end` stays `size` bytes past the start of
the buffer (`RedirFS.getFilenameLoop`), so the check `size < 0` is the only
bounds check the writes need. At the top it puts a `/` in front of a name
that has no component, and moves the string to the start of the buffer
(`RedirFS.getFilenameEnd`).

The model reads the two trees through `RedirFS.Fs` and writes the buffer
through `RedirFS.putChar`, which refuses a write outside it
(`RedirFS.Oops.overflow`). The loops run on fuel. `RedirFS.Walk` is the climb
the trees allow, with the names it meets; given one, enough fuel gives the
result, and the result is the one the spec describes
(`RedirFS.redirfsGetFilename_walk`). The references the function takes and
drops on the dentries and mounts it crosses are not modelled.
-/

namespace RedirFS

/-! ### The trees and the buffer -/

/-- What `redirfs_get_filename` reads of the dentry and mount trees. -/
structure Fs where
  /-- `dentry->d_parent`. -/
  parent : Nat → Nat
  /-- `dentry->d_name`. -/
  name : Nat → List Char
  /-- `mnt->mnt_root`. -/
  mntRoot : Nat → Nat
  /-- `follow_up`: the parent mount and the mountpoint in it, or nothing at the
  top mount. -/
  followUp : Nat → Option (Nat × Nat)

/-- The NUL byte. -/
def NUL : Char := Char.ofNat 0

/-- `buf[i] = c`, in a buffer of `cap` bytes. -/
def putChar (cap : Int) (buf : Nat → Char) (i : Int) (c : Char) : Except Oops (Nat → Char) :=
  if 0 ≤ i ∧ i < cap then .ok (Function.update buf i.toNat c) else .error .overflow

/-- `buf[i]`, in a buffer of `cap` bytes. -/
def getChar (cap : Int) (buf : Nat → Char) (i : Int) : Except Oops Char :=
  if 0 ≤ i ∧ i < cap then .ok (buf i.toNat) else .error .overflow

/-- `memcpy(buf + i, cs, length cs)`. -/
def putChars (cap : Int) : (Nat → Char) → Int → List Char → Except Oops (Nat → Char)
  | buf, _, [] => .ok buf
  | buf, i, c :: cs => do
    let buf ← putChar cap buf i c
    putChars cap buf (i + 1) cs

/-- `memmove(buf + dst, buf + src, n)`: the bytes are read before any is
written. -/
def moveChars (cap : Int) (buf : Nat → Char) (dst src n : Int) : Except Oops (Nat → Char) :=
  if 0 ≤ n ∧ 0 ≤ dst ∧ dst + n ≤ cap ∧ 0 ≤ src ∧ src + n ≤ cap then
    .ok fun i => if dst ≤ i ∧ (i : Int) < dst + n then buf (i - dst + src).toNat else buf i
  else .error .overflow

/-! ### The function -/

/-- The end of `redirfs_get_filename`, with `end` at offset `e`: a `/` in
front of a string that does not start with one, then the string moved to the
start of the buffer. -/
def getFilenameEnd (len e size : Int) (buf : Nat → Char) : Except Oops (Int × (Nat → Char)) := do
  let c ← getChar len buf e
  let (e, size, buf) ←
    if c ≠ '/' then do
      let buf ← putChar len buf (e - 1) '/'
      pure (e - 1, size - 1, buf)
    else pure (e, size, buf)
  let buf ← moveChars len buf 0 e (len - size)
  pure (0, buf)

/-- The two loops of `redirfs_get_filename` from `again:`, one turn per unit of
fuel, with `end` at offset `e`: the inner loop climbs `d_parent` to the root of
the mount, writing `/name` in front of `end`; then `follow_up` crosses to the
parent mount, or the function ends at the top. -/
def getFilenameLoop (fs : Fs) (len : Int) : Nat → Nat → Nat → Int → Int → (Nat → Char) →
    Option (Except Oops (Int × (Nat → Char)))
  | 0, _, _, _, _, _ => none
  | fuel + 1, mnt, dentry, e, size, buf =>
    if dentry ≠ fs.mntRoot mnt then
      let n := fs.name dentry
      let size := size - (n.length + 1)
      if size < 0 then some (.ok (-ENAMETOOLONG, buf))
      else
        let e := e - n.length
        match putChars len buf e n >>= fun buf => putChar len buf (e - 1) '/' with
        | .error o => some (.error o)
        | .ok buf => getFilenameLoop fs len fuel mnt (fs.parent dentry) (e - 1) size buf
    else
      match fs.followUp mnt with
      | some (m, d) => getFilenameLoop fs len fuel m d e size buf
      | none => some (getFilenameEnd len e size buf)

/-- `redirfs_get_filename(mnt, dentry, buf, size)`, with `fuel` turns of its
loops: what it returns, and the buffer. -/
def redirfsGetFilename (fs : Fs) (mnt dentry : Nat) (buf : Nat → Char) (size : Int)
    (fuel : Nat) : Option (Except Oops (Int × (Nat → Char))) :=
  if size < 2 then some (.ok (-ENAMETOOLONG, buf))
  else
    match putChar size buf (size - 1) NUL with
    | .error o => some (.error o)
    | .ok buf => getFilenameLoop fs size fuel mnt dentry (size - 1) (size - 1) buf

/-! ### The climb the trees allow -/

/-- The climb from a dentry of a mount to the top mount that the trees allow,
with the names `redirfs_get_filename` meets on it, innermost first: the
dentries strictly below the root of each mount, across every mount crossing. -/
inductive Walk (fs : Fs) : Nat → Nat → List (List Char) → Prop
  /-- At the root of the top mount. -/
  | top {mnt : Nat} : fs.followUp mnt = none → Walk fs mnt (fs.mntRoot mnt) []
  /-- At the root of a mount below the top: on to the mountpoint in the parent
  mount. -/
  | cross {mnt m d : Nat} {cs : List (List Char)} : fs.followUp mnt = some (m, d) →
      Walk fs m d cs → Walk fs mnt (fs.mntRoot mnt) cs
  /-- Below the root of a mount: on to the parent dentry. -/
  | up {mnt dentry : Nat} {cs : List (List Char)} : dentry ≠ fs.mntRoot mnt →
      Walk fs mnt (fs.parent dentry) cs → Walk fs mnt dentry (fs.name dentry :: cs)

/-- The bytes the names take, each with its slash. -/
def namesLength : List (List Char) → Nat
  | [] => 0
  | c :: cs => c.length + 1 + namesLength cs

/-- The names from the outermost to the innermost, each after a slash. -/
def joinNames (cs : List (List Char)) : List Char := (cs.reverse.map fun c => '/' :: c).flatten

/-- The name the spec gives: `/`, the names from the outermost to the
innermost joined by `/`, and a NUL. -/
def pathString (cs : List (List Char)) : List Char :=
  (if cs = [] then ['/'] else joinNames cs) ++ [NUL]

@[simp] theorem namesLength_nil : namesLength [] = 0 := rfl

@[simp] theorem namesLength_cons (c : List Char) (cs : List (List Char)) :
    namesLength (c :: cs) = c.length + 1 + namesLength cs := rfl

@[simp] theorem joinNames_nil : joinNames [] = [] := rfl

@[simp] theorem joinNames_cons (c : List Char) (cs : List (List Char)) :
    joinNames (c :: cs) = joinNames cs ++ '/' :: c := by
  simp [joinNames]

theorem length_joinNames (cs : List (List Char)) : (joinNames cs).length = namesLength cs := by
  induction cs with
  | nil => rfl
  | cons c cs ih => simp [ih]; omega

/-! ### Writing the buffer -/

/-- The buffer holds `xs` from offset `i` on. -/
def Holds (buf : Nat → Char) (i : Nat) (xs : List Char) : Prop :=
  ∀ k (hk : k < xs.length), buf (i + k) = xs.get ⟨k, hk⟩

theorem putChar_ok (cap : Int) {i : Int} (h0 : 0 ≤ i) (h1 : i < cap) (buf : Nat → Char) (c : Char) :
    putChar cap buf i c = .ok (Function.update buf i.toNat c) := by
  simp [putChar, h0, h1]

/-- `memcpy` inside the buffer writes the bytes there and nothing else. -/
theorem putChars_ok (cap : Int) : ∀ (cs : List Char) (buf : Nat → Char) (i : Nat),
    (i + cs.length : Int) ≤ cap →
    ∃ buf', putChars cap buf i cs = .ok buf' ∧ Holds buf' i cs ∧
      ∀ j, (j < i ∨ i + cs.length ≤ j) → buf' j = buf j
  | [], buf, _, _ => ⟨buf, rfl, fun k hk => absurd hk (Nat.not_lt_zero k), fun _ _ => rfl⟩
  | c :: cs, buf, i, hcap => by
    simp only [List.length_cons] at hcap
    push_cast at hcap
    obtain ⟨buf', h', hh, hf⟩ := putChars_ok cap cs (Function.update buf i c) (i + 1)
      (by push_cast; omega)
    refine ⟨buf', ?_, fun k hk => ?_, fun j hj => ?_⟩
    · simp only [putChars, putChar_ok cap (Int.ofNat_nonneg i) (by omega), Int.toNat_ofNat,
        except_ok_bind]
      exact_mod_cast h'
    · cases k with
      | zero =>
        rw [Nat.add_zero, hf i (.inl (Nat.lt_succ_self i)), Function.update_same]
        rfl
      | succ k =>
        rw [show i + (k + 1) = i + 1 + k by omega]
        exact hh k (by simpa using hk)
    · rw [hf j (by simp at hj; omega), Function.update_noteq (by simp at hj; omega)]

/-- **One name written in front of `end`**: the buffer then holds `/name` in
front of what it held. -/
theorem putName_ok (cap : Int) (c acc : List Char) (buf : Nat → Char) (k : Nat)
    (hk : c.length + 1 ≤ k) (hcap : (k : Int) ≤ cap) (hacc : Holds buf k acc) :
    ∃ buf', (putChars cap buf ((k : Int) - c.length) c >>= fun buf =>
        putChar cap buf ((k : Int) - c.length - 1) '/') = .ok buf' ∧
      Holds buf' (k - c.length - 1) ('/' :: c ++ acc) := by
  obtain ⟨buf₁, h₁, hh₁, hf₁⟩ := putChars_ok cap c buf (k - c.length) (by omega)
  have hi : ((k - c.length : Nat) : Int) = (k : Int) - c.length := by omega
  rw [← hi, h₁, except_ok_bind, show ((k - c.length : Nat) : Int) - 1 = ((k - c.length - 1 : Nat) : Int)
    by omega, putChar_ok cap (by omega) (by omega), Int.toNat_ofNat]
  refine ⟨_, rfl, fun j hj => ?_⟩
  rcases j with _ | j
  · simp
  · rw [Function.update_noteq (by omega)]
    simp only [List.cons_append, List.length_cons, List.length_append] at hj
    by_cases hjc : j < c.length
    · have := hh₁ j hjc
      rw [show k - c.length - 1 + (j + 1) = k - c.length + j by omega, this]
      simp [List.getElem_append_left hjc]
    · have := hacc (j - c.length) (by omega)
      rw [hf₁ _ (by omega), show k - c.length - 1 + (j + 1) = k + (j - c.length) by omega, this]
      simp [List.getElem_append_right (by omega : c.length ≤ j)]

/-- `memmove` of the string at offset `k` to the start of the buffer. -/
theorem moveChars_ok (cap : Int) {buf : Nat → Char} {k : Nat} {xs : List Char}
    (hlen : (k + xs.length : Int) = cap) (hxs : Holds buf k xs) :
    ∃ buf', moveChars cap buf 0 k (cap - k) = .ok buf' ∧ Holds buf' 0 xs := by
  refine ⟨_, by rw [moveChars, if_pos (by omega)], fun j hj => ?_⟩
  rw [if_pos (by omega), show ((0 + j : Nat) : Int) - 0 + k = ((k + j : Nat) : Int) by omega,
    Int.toNat_ofNat]
  exact hxs j hj

/-! ### The loops -/

/-- **The loops along a climb.** With `end` at offset `k`, `size` equal to
it, and the buffer holding `acc` from there to its end, enough fuel runs the
loops to the top. If the names fit in front of `end`, the buffer then holds
them in front of `acc` and the function goes on to its end; otherwise it
returns `-ENAMETOOLONG`. -/
theorem getFilenameLoop_walk {fs : Fs} (len : Int) {mnt dentry : Nat} {cs : List (List Char)}
    (hw : Walk fs mnt dentry cs) : ∃ n, ∀ fuel, n ≤ fuel →
      ∀ (k : Nat) (buf : Nat → Char) (acc : List Char), (k + acc.length : Int) = len →
        Holds buf k acc →
      (namesLength cs ≤ k → ∃ buf', getFilenameLoop fs len fuel mnt dentry k k buf =
          some (getFilenameEnd len (k - namesLength cs : Nat) (k - namesLength cs : Nat) buf') ∧
        Holds buf' (k - namesLength cs) (joinNames cs ++ acc)) ∧
      (k < namesLength cs → ∃ buf', getFilenameLoop fs len fuel mnt dentry k k buf =
          some (.ok (-ENAMETOOLONG, buf'))) := by
  induction hw with
  | top hu =>
    refine ⟨1, fun fuel hf k buf acc _ hacc => ⟨fun _ => ⟨buf, ?_, by simpa using hacc⟩,
      fun h => absurd h (by simp)⟩⟩
    obtain ⟨f, rfl⟩ : ∃ f, fuel = f + 1 := ⟨fuel - 1, by omega⟩
    simp [getFilenameLoop, hu]
  | cross hu _ ih =>
    obtain ⟨n, hn⟩ := ih
    refine ⟨n + 1, fun fuel hf k buf acc hlen hacc => ?_⟩
    obtain ⟨f, rfl⟩ : ∃ f, fuel = f + 1 := ⟨fuel - 1, by omega⟩
    simp only [getFilenameLoop, ne_eq, not_true_eq_false, if_false, hu]
    exact hn f (by omega) k buf acc hlen hacc
  | @up mnt dentry cs hne _ ih =>
    obtain ⟨n, hn⟩ := ih
    refine ⟨n + 1, fun fuel hf k buf acc hlen hacc => ?_⟩
    obtain ⟨f, rfl⟩ : ∃ f, fuel = f + 1 := ⟨fuel - 1, by omega⟩
    by_cases hfit : (fs.name dentry).length + 1 ≤ k
    · obtain ⟨buf₁, h₁, hh₁⟩ := putName_ok len (fs.name dentry) acc buf k hfit
        (by omega) hacc
      have hstep : getFilenameLoop fs len (f + 1) mnt dentry k k buf =
          getFilenameLoop fs len f mnt (fs.parent dentry) (k - (fs.name dentry).length - 1 : Nat)
            (k - (fs.name dentry).length - 1 : Nat) buf₁ := by
        simp only [getFilenameLoop, ne_eq, hne, not_false_eq_true, if_true]
        rw [if_neg (show ¬((k : Int) - ((fs.name dentry).length + 1) < 0) by omega), h₁]
        dsimp only
        congr 1 <;> omega
      have hlen₁ : ((k - (fs.name dentry).length - 1 : Nat) +
          ('/' :: (fs.name dentry ++ acc)).length : Int) = len := by
        simp only [List.length_cons, List.length_append]; push_cast; omega
      obtain ⟨h₂, h₃⟩ := hn f (by omega) _ buf₁ _ hlen₁ hh₁
      rw [hstep]
      refine ⟨fun hk => ?_, fun hk => h₃ (by simp at hk; omega)⟩
      obtain ⟨buf', h', hh'⟩ := h₂ (by simp at hk; omega)
      refine ⟨buf', ?_, ?_⟩
      · rw [h']; congr 3 <;> simp <;> omega
      · have : k - (fs.name dentry).length - 1 - namesLength cs =
            k - namesLength (fs.name dentry :: cs) := by simp; omega
        simpa [this] using hh'
    · refine ⟨fun hk => absurd hk (by simp; omega), fun _ => ⟨buf, ?_⟩⟩
      simp only [getFilenameLoop, ne_eq, hne, not_false_eq_true, if_true]
      rw [if_pos (by omega)]

/-! ### The end of the function -/

theorem NUL_ne_slash : NUL ≠ '/' := by decide

theorem joinNames_head {cs : List (List Char)} (hcs : cs ≠ []) : ∃ ys, joinNames cs = '/' :: ys := by
  induction cs with
  | nil => exact absurd rfl hcs
  | cons c cs ih =>
    by_cases hn : cs = []
    · exact ⟨c, by simp [hn]⟩
    · obtain ⟨ys, hys⟩ := ih hn
      exact ⟨ys ++ '/' :: c, by simp [hys]⟩

/-- A string that starts with `/` is moved to the start of the buffer as it
is. -/
theorem getFilenameEnd_slash {len : Int} {k : Nat} {buf : Nat → Char} {ys : List Char}
    (hlen : (k + ('/' :: ys).length : Int) = len) (hxs : Holds buf k ('/' :: ys)) :
    ∃ buf', getFilenameEnd len k k buf = .ok (0, buf') ∧ Holds buf' 0 ('/' :: ys) := by
  obtain ⟨buf', h', hh'⟩ := moveChars_ok len hlen hxs
  have hc : buf k = '/' := by simpa using hxs 0 (by simp)
  refine ⟨buf', ?_, hh'⟩
  simp only [getFilenameEnd, getChar, Int.toNat_ofNat, hc]
  rw [if_pos (by simp at hlen; omega)]
  simp only [ne_eq, not_true_eq_false, if_false, except_ok_bind, except_pure]
  rw [h']
  rfl

/-- A name with no component gets its `/` in front of the NUL. -/
theorem getFilenameEnd_bare {len : Int} {k : Nat} {buf : Nat → Char} (hk : 1 ≤ k)
    (hlen : (k + 1 : Int) = len) (hxs : Holds buf k [NUL]) :
    ∃ buf', getFilenameEnd len k k buf = .ok (0, buf') ∧ Holds buf' 0 ['/', NUL] := by
  have hc : buf k = NUL := by simpa using hxs 0 (by simp)
  have h₁ : Holds (Function.update buf (k - 1) '/') (k - 1) ['/', NUL] := by
    intro j hj
    rcases j with _ | _ | j
    · simp
    · rw [Function.update_noteq (by omega), show k - 1 + (0 + 1) = k by omega, hc]; rfl
    · exact absurd hj (by simp)
  obtain ⟨buf', h', hh'⟩ := moveChars_ok len (by simp; omega) h₁
  refine ⟨buf', ?_, hh'⟩
  simp only [getFilenameEnd, getChar, Int.toNat_ofNat, hc]
  rw [if_pos (by omega)]
  simp only [except_ok_bind, ne_eq, NUL_ne_slash, not_false_eq_true, if_true]
  rw [putChar_ok len (by omega) (by omega), show ((k : Int) - 1).toNat = k - 1 by omega]
  simp only [except_ok_bind, except_pure]
  rw [show (k : Int) - 1 = ((k - 1 : Nat) : Int) by omega, h']
  rfl

/-! ### Nothing is written past the end of the buffer -/

section Frame

variable {cap : Int} {buf buf' : Nat → Char}

theorem putChar_frame {i : Int} {c : Char} (h : putChar cap buf i c = .ok buf') (j : Nat)
    (hj : cap ≤ j) : buf' j = buf j := by
  unfold putChar at h
  split at h
  · cases h; exact Function.update_noteq (by omega) _ _
  · cases h

theorem putChars_frame : ∀ {cs : List Char} {buf buf' : Nat → Char} {i : Int},
    putChars cap buf i cs = .ok buf' → ∀ j : Nat, cap ≤ j → buf' j = buf j
  | [], _, _, _, h, _, _ => by cases h; rfl
  | c :: cs, buf, buf', i, h, j, hj => by
    simp only [putChars] at h
    cases h₁ : putChar cap buf i c with
    | error e => rw [h₁] at h; cases h
    | ok b =>
      rw [h₁, except_ok_bind] at h
      rw [putChars_frame h j hj, putChar_frame h₁ j hj]

theorem moveChars_frame {dst src n : Int} (h : moveChars cap buf dst src n = .ok buf') (j : Nat)
    (hj : cap ≤ j) : buf' j = buf j := by
  unfold moveChars at h
  split at h
  · cases h; simp only; rw [if_neg (by omega)]
  · cases h

theorem getFilenameEnd_frame {e size v : Int} (h : getFilenameEnd cap e size buf = .ok (v, buf'))
    (j : Nat) (hj : cap ≤ j) : buf' j = buf j := by
  simp only [getFilenameEnd] at h
  cases hc : getChar cap buf e with
  | error o => rw [hc] at h; cases h
  | ok c =>
    rw [hc, except_ok_bind] at h
    split_ifs at h
    · cases h₁ : putChar cap buf (e - 1) '/' with
      | error o => rw [h₁] at h; cases h
      | ok b =>
        simp only [h₁, except_ok_bind, except_pure] at h
        cases h₂ : moveChars cap b 0 (e - 1) (cap - (size - 1)) with
        | error o => rw [h₂] at h; cases h
        | ok b' =>
          rw [h₂] at h; cases h
          rw [moveChars_frame h₂ j hj, putChar_frame h₁ j hj]
    · simp only [except_pure, except_ok_bind] at h
      cases h₂ : moveChars cap buf 0 e (cap - size) with
      | error o => rw [h₂] at h; cases h
      | ok b' => rw [h₂] at h; cases h; exact moveChars_frame h₂ j hj

theorem getFilenameLoop_frame (fs : Fs) : ∀ {fuel mnt dentry : Nat} {e size v : Int}
    {buf buf' : Nat → Char}, getFilenameLoop fs cap fuel mnt dentry e size buf = some (.ok (v, buf')) →
    ∀ j : Nat, cap ≤ j → buf' j = buf j
  | 0, _, _, _, _, _, _, _, h, _, _ => by cases h
  | fuel + 1, mnt, dentry, e, size, v, buf, buf', h, j, hj => by
    simp only [getFilenameLoop] at h
    split_ifs at h with hd hs
    · cases h; rfl
    · split at h
      · cases h
      · rename_i b hb
        rw [getFilenameLoop_frame fs h j hj]
        cases h₁ : putChars cap buf (e - (fs.name dentry).length) (fs.name dentry) with
        | error o => rw [h₁] at hb; cases hb
        | ok b₁ =>
          rw [h₁, except_ok_bind] at hb
          rw [putChar_frame hb j hj, putChars_frame h₁ j hj]
    · split at h
      · exact getFilenameLoop_frame fs h j hj
      · exact getFilenameEnd_frame (Option.some.inj h) j hj

end Frame

/-! ### The function -/

/-- `redirfs_get_filename` along a climb, with one bound on the fuel for every
buffer. -/
theorem redirfsGetFilename_walk_fuel {fs : Fs} {mnt dentry : Nat} {cs : List (List Char)}
    (hw : Walk fs mnt dentry cs) (size : Int) :
    ∃ n, ∀ fuel, n ≤ fuel → ∀ buf : Nat → Char, ∃ buf',
      redirfsGetFilename fs mnt dentry buf size fuel =
        some (.ok (if 2 ≤ size ∧ (namesLength cs : Int) ≤ size - 1 then 0 else -ENAMETOOLONG,
          buf')) ∧
      (∀ j : Nat, size ≤ j → buf' j = buf j) ∧
      (2 ≤ size ∧ (namesLength cs : Int) ≤ size - 1 → Holds buf' 0 (pathString cs)) := by
  obtain ⟨n, hn⟩ := getFilenameLoop_walk size hw
  refine ⟨n, fun fuel hf buf => ?_⟩
  by_cases hs : size < 2
  · refine ⟨buf, by simp [redirfsGetFilename, hs, show ¬ 2 ≤ size by omega], fun _ _ => rfl,
      fun h => absurd h.1 (by omega)⟩
  obtain ⟨k, hk⟩ : ∃ k : Nat, size - 1 = k := ⟨(size - 1).toNat, by omega⟩
  have h₀ : Holds (Function.update buf k NUL) k [NUL] := fun j hj => by
    rcases j with _ | j
    · simp
    · exact absurd hj (by simp)
  have hstart : redirfsGetFilename fs mnt dentry buf size fuel =
      getFilenameLoop fs size fuel mnt dentry k k (Function.update buf k NUL) := by
    rw [redirfsGetFilename, if_neg hs, putChar_ok size (by omega) (by omega), hk, Int.toNat_ofNat]
  obtain ⟨hfit, hlong⟩ := hn fuel hf k _ [NUL] (by simp; omega) h₀
  have hframe : ∀ v buf', redirfsGetFilename fs mnt dentry buf size fuel = some (.ok (v, buf')) →
      ∀ j : Nat, size ≤ j → buf' j = buf j := fun v buf' h j hj => by
    rw [hstart] at h
    rw [getFilenameLoop_frame fs h j hj, Function.update_noteq (by omega)]
  by_cases hL : namesLength cs ≤ k
  · obtain ⟨buf₁, h₁, hh₁⟩ := hfit hL
    have hend : ∃ buf', getFilenameEnd size (k - namesLength cs : Nat) (k - namesLength cs : Nat)
        buf₁ = .ok (0, buf') ∧ Holds buf' 0 (pathString cs) := by
      by_cases hcs : cs = []
      · subst hcs
        simpa [pathString] using getFilenameEnd_bare (by simp; omega) (by simp; omega) hh₁
      · obtain ⟨ys, hys⟩ := joinNames_head hcs
        have hLy : namesLength cs = ys.length + 1 := by rw [← length_joinNames, hys]; simp
        rw [hys] at hh₁
        simpa [pathString, hcs, hys] using
          getFilenameEnd_slash (by simp; omega) hh₁
    obtain ⟨buf', h', hh'⟩ := hend
    have hres : redirfsGetFilename fs mnt dentry buf size fuel = some (.ok (0, buf')) := by
      rw [hstart, h₁, h']
    refine ⟨buf', ?_, hframe _ _ hres, fun _ => hh'⟩
    rw [hres, if_pos ⟨by omega, by omega⟩]
  · obtain ⟨buf', h'⟩ := hlong (by omega)
    have hres : redirfsGetFilename fs mnt dentry buf size fuel = some (.ok (-ENAMETOOLONG, buf')) :=
      by rw [hstart, h']
    refine ⟨buf', ?_, hframe _ _ hres, fun h => absurd h.2 (by omega)⟩
    rw [hres, if_neg (by omega)]

/-- **`redirfs_get_filename` along a climb the trees allow.** Enough fuel
gives its result: it returns `0` exactly when the buffer has room for two bytes
and for every name with its slash in front of the NUL, and `-ENAMETOOLONG`
otherwise. It never writes outside the buffer. When it returns `0` the buffer
starts with `/`, the names from the outermost to the innermost joined by `/`,
and a NUL. -/
theorem redirfsGetFilename_walk {fs : Fs} {mnt dentry : Nat} {cs : List (List Char)}
    (hw : Walk fs mnt dentry cs) (buf : Nat → Char) (size : Int) :
    ∃ n, ∀ fuel, n ≤ fuel → ∃ buf', redirfsGetFilename fs mnt dentry buf size fuel =
        some (.ok (if 2 ≤ size ∧ (namesLength cs : Int) ≤ size - 1 then 0 else -ENAMETOOLONG,
          buf')) ∧
      (∀ j : Nat, size ≤ j → buf' j = buf j) ∧
      (2 ≤ size ∧ (namesLength cs : Int) ≤ size - 1 → Holds buf' 0 (pathString cs)) :=
  let ⟨n, hn⟩ := redirfsGetFilename_walk_fuel hw size
  ⟨n, fun fuel hf => hn fuel hf buf⟩

/-- Mount 1, rooted at dentry 5, is mounted on dentry 1 (`a`) of the top
mount 0; dentry 6 (`bc`) lies below dentry 5. The name of dentry 6 on mount 1
is `/a/bc`. -/
def crossingFs : Fs where
  parent d := if d = 6 then 5 else 0
  name d := if d = 1 then ['a'] else if d = 6 then ['b', 'c'] else []
  mntRoot m := if m = 1 then 5 else 0
  followUp m := if m = 1 then some (0, 1) else none

theorem crossingFs_walk : Walk crossingFs 1 6 [['b', 'c'], ['a']] :=
  .up (by decide) (.cross (m := 0) (d := 1) rfl (.up (by decide) (.top rfl)))

theorem redirfsGetFilename_crossing :
    Walk crossingFs 1 6 [['b', 'c'], ['a']] ∧
      ∃ n, ∀ fuel, n ≤ fuel → ∃ buf', redirfsGetFilename crossingFs 1 6 (fun _ => NUL) 6 fuel =
          some (.ok (if 2 ≤ (6 : Int) ∧ (namesLength [['b', 'c'], ['a']] : Int) ≤ 6 - 1 then 0
            else -ENAMETOOLONG, buf')) ∧
        (∀ j : Nat, (6 : Int) ≤ j → buf' j = NUL) ∧
        (2 ≤ (6 : Int) ∧ (namesLength [['b', 'c'], ['a']] : Int) ≤ 6 - 1 →
          Holds buf' 0 (pathString [['b', 'c'], ['a']])) :=
  ⟨crossingFs_walk, redirfsGetFilename_walk crossingFs_walk _ 6⟩

example : ((redirfsGetFilename crossingFs 1 6 (fun _ => NUL) 6 4).map fun r =>
    r.map fun (v, b) => (v, (List.range 6).map b)) = some (.ok (0, ['/', 'a', '/', 'b', 'c', NUL])) :=
  rfl

/-! ### Any trees

The results above follow a climb the trees allow. The code checks nothing of
the kind: it climbs whatever `d_parent` and `follow_up` give, and a cycle makes
it loop. Its bounds rest on one fact only, that `end` stays `size` bytes past
the start of the buffer; so, whatever the trees, it never reads or writes
outside the buffer, and whenever it returns `0` it has left a string there
that starts with `/` and ends within the buffer. -/

/-- **The loops on any trees.** With `end` at offset `k` and the buffer
holding from there to its end the NUL alone or a string that starts with `/`
and holds a NUL, the loops either run out of turns or return `0` or
`-ENAMETOOLONG` with no access outside the buffer, and on `0` the buffer holds
from its start a string that starts with `/`, holds a NUL and fits. -/
theorem getFilenameLoop_in_bounds (fs : Fs) (len : Int) (hlen : 2 ≤ len) :
    ∀ (fuel mnt dentry k : Nat) (buf : Nat → Char) (acc : List Char),
      (k + acc.length : Int) = len → Holds buf k acc →
      (acc = [NUL] ∨ acc.head? = some '/' ∧ NUL ∈ acc) →
      getFilenameLoop fs len fuel mnt dentry k k buf = none ∨
      ∃ v buf', getFilenameLoop fs len fuel mnt dentry k k buf = some (.ok (v, buf')) ∧
        (v = 0 ∨ v = -ENAMETOOLONG) ∧
        (v = 0 → ∃ xs, Holds buf' 0 xs ∧ xs.head? = some '/' ∧ NUL ∈ xs ∧ (xs.length : Int) ≤ len)
  | 0, _, _, _, _, _, _, _, _ => .inl rfl
  | fuel + 1, mnt, dentry, k, buf, acc, hk, hacc, htail => by
    by_cases hd : dentry = fs.mntRoot mnt
    · -- at the root of a mount: across to the parent mount, or the end
      subst hd
      cases hu : fs.followUp mnt with
      | some md =>
        simpa only [getFilenameLoop, ne_eq, not_true_eq_false, if_false, hu] using
          getFilenameLoop_in_bounds fs len hlen fuel md.1 md.2 k buf acc hk hacc htail
      | none =>
        simp only [getFilenameLoop, ne_eq, not_true_eq_false, if_false, hu]
        rcases htail with rfl | ⟨hhead, hnul⟩
        · obtain ⟨buf', h', hh'⟩ := getFilenameEnd_bare (by simp at hk; omega) (by simpa using hk) hacc
          exact .inr ⟨0, buf', by rw [h'], .inl rfl, fun _ => ⟨_, hh', rfl, by simp, by simp; omega⟩⟩
        · obtain ⟨ys, rfl⟩ : ∃ ys, acc = '/' :: ys := by
            cases acc with
            | nil => cases hhead
            | cons c ys => cases hhead; exact ⟨ys, rfl⟩
          obtain ⟨buf', h', hh'⟩ := getFilenameEnd_slash hk hacc
          exact .inr ⟨0, buf', by rw [h'], .inl rfl, fun _ => ⟨_, hh', rfl, hnul, by omega⟩⟩
    · by_cases hfit : (fs.name dentry).length + 1 ≤ k
      · -- below the root: `/name` in front of `end`, and on to the parent
        obtain ⟨buf₁, h₁, hh₁⟩ := putName_ok len (fs.name dentry) acc buf k hfit (by omega) hacc
        have hstep : getFilenameLoop fs len (fuel + 1) mnt dentry k k buf =
            getFilenameLoop fs len fuel mnt (fs.parent dentry) (k - (fs.name dentry).length - 1 : Nat)
              (k - (fs.name dentry).length - 1 : Nat) buf₁ := by
          simp only [getFilenameLoop, ne_eq, hd, not_false_eq_true, if_true]
          rw [if_neg (show ¬((k : Int) - ((fs.name dentry).length + 1) < 0) by omega), h₁]
          dsimp only
          congr 1 <;> omega
        have hnul : NUL ∈ acc := by rcases htail with rfl | h <;> simp_all
        rw [hstep]
        exact getFilenameLoop_in_bounds fs len hlen fuel mnt (fs.parent dentry) _ buf₁ _
          (by simp only [List.length_cons, List.length_append]; push_cast; omega) hh₁
          (.inr ⟨rfl, by simp [hnul]⟩)
      · -- no room for the name
        refine .inr ⟨-ENAMETOOLONG, buf, ?_, .inr rfl, fun h => absurd h (by decide)⟩
        simp only [getFilenameLoop, ne_eq, hd, not_false_eq_true, if_true]
        rw [if_pos (by omega)]

/-- The start of `redirfs_get_filename` on a buffer of at least two bytes: a
NUL in its last byte, and the loops from there. -/
theorem redirfsGetFilename_start (fs : Fs) (mnt dentry : Nat) (buf : Nat → Char) {size : Int}
    (hs : 2 ≤ size) (fuel : Nat) {k : Nat} (hk : size - 1 = k) :
    redirfsGetFilename fs mnt dentry buf size fuel =
      getFilenameLoop fs size fuel mnt dentry k k (Function.update buf k NUL) ∧
    Holds (Function.update buf k NUL) k [NUL] := by
  refine ⟨?_, fun j hj => ?_⟩
  · rw [redirfsGetFilename, if_neg (by omega), putChar_ok size (by omega) (by omega), hk,
      Int.toNat_ofNat]
  · rcases j with _ | j
    · simp
    · exact absurd hj (by simp)

/-- **`redirfs_get_filename` stays inside the buffer, whatever the trees.** For
every state of the dentry and mount trees, cyclic ones included, every buffer
size and every number of turns of its loops, the function either is still
climbing or returns `0` or `-ENAMETOOLONG`; it never reads or writes a byte
outside `buf[0, size)`, and when it returns `0` the buffer starts with a
string that begins with `/` and holds a NUL within its `size` bytes. -/
theorem redirfsGetFilename_in_bounds (fs : Fs) (mnt dentry : Nat) (buf : Nat → Char) (size : Int)
    (fuel : Nat) :
    redirfsGetFilename fs mnt dentry buf size fuel = none ∨
    ∃ v buf', redirfsGetFilename fs mnt dentry buf size fuel = some (.ok (v, buf')) ∧
      (v = 0 ∨ v = -ENAMETOOLONG) ∧ (∀ j : Nat, size ≤ j → buf' j = buf j) ∧
      (v = 0 → ∃ xs, Holds buf' 0 xs ∧ xs.head? = some '/' ∧ NUL ∈ xs ∧ (xs.length : Int) ≤ size) := by
  by_cases hs : size < 2
  · exact .inr ⟨_, buf, by simp [redirfsGetFilename, hs], .inr rfl, fun _ _ => rfl,
      fun h => absurd h (by decide)⟩
  obtain ⟨k, hk⟩ : ∃ k : Nat, size - 1 = k := ⟨(size - 1).toNat, by omega⟩
  obtain ⟨hstart, h₀⟩ := redirfsGetFilename_start fs mnt dentry buf (by omega) fuel hk
  rw [hstart]
  rcases getFilenameLoop_in_bounds fs size (by omega) fuel mnt dentry k _ [NUL] (by simp; omega) h₀
    (.inl rfl) with h | ⟨v, buf', h, hv, hstr⟩
  · exact .inl h
  · refine .inr ⟨v, buf', h, hv, fun j hj => ?_, hstr⟩
    rw [getFilenameLoop_frame fs h j hj, Function.update_noteq (by omega)]

end RedirFS
