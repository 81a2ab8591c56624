import RedirFS.Dump

/-!
# Reading the dump back

`rfs_path_get_info` writes, for each Path that cites the filter, the record
`"%c:%d:%s"` of its type, its id and its name, each record ended by the NUL of
its `snprintf` (`RedirFS.infoRecord`, `RedirFS.dumpBytes`). This file shows
that the format can be read back without loss: cutting the bytes at each NUL,
and each record at its first two `:`, gives every Path's type, id and name
(`RedirFS.readDump_dumpBytes`), although a name may itself hold a `:`. Two
facts make it work: a name never holds a NUL, since `%s` stops at the first
one, and `%d` writes only digits and a minus sign, so the `:` after the id is
the first `:` of the record after the type.

Joined to the loop of `rfs_path_get_info`: in every reachable state, when the
records fit in the caller's buffer, the bytes the function reports it wrote
read back as the type, id and name of every Path citing the filter, in list
order (`RedirFS.rfsPathGetInfo_readDump`).
-/

namespace RedirFS

/-! ### Decimal numbers as `%d` prints them -/

/-- The value of decimal digits, read from the left after the value `a`. -/
def digitsValue (ds : List Char) (a : Nat) : Nat :=
  ds.foldl (fun n c => 10 * n + (c.toNat - '0'.toNat)) a

/-- A natural number as `%d` prints it: at least one decimal digit. -/
def readNat (ds : List Char) : Option Nat :=
  if ds ≠ [] ∧ ds.all Char.isDigit then some (digitsValue ds 0) else none

/-- An `int` as `%d` prints it: a minus sign or not, then its digits. -/
def readInt : List Char → Option Int
  | [] => none
  | c :: cs => if c = '-' then (readNat cs).map fun n => -(n : Int) else (readNat (c :: cs)).map Int.ofNat

theorem digitChar_digit {d : Nat} (h : d < 10) :
    (Nat.digitChar d).isDigit = true ∧ (Nat.digitChar d).toNat - '0'.toNat = d :=
  (by decide : ∀ d < 10, (Nat.digitChar d).isDigit = true ∧ (Nat.digitChar d).toNat - '0'.toNat = d) d h

/-- The digits in front of `ds` do not depend on `ds`. -/
theorem toDigitsCore_append : ∀ (fuel n : Nat) (ds : List Char),
    Nat.toDigitsCore 10 fuel n ds = Nat.toDigitsCore 10 fuel n [] ++ ds
  | 0, _, _ => rfl
  | fuel + 1, n, ds => by
    simp only [Nat.toDigitsCore]
    split
    · rfl
    · rw [toDigitsCore_append fuel _ (_ :: ds), toDigitsCore_append fuel _ [_]]
      simp

/-- With enough fuel, the digits of `n` are decimal digits, at least one, of
value `n`. -/
theorem toDigitsCore_read : ∀ (fuel n : Nat), n < fuel →
    Nat.toDigitsCore 10 fuel n [] ≠ [] ∧ (Nat.toDigitsCore 10 fuel n []).all Char.isDigit ∧
      digitsValue (Nat.toDigitsCore 10 fuel n []) 0 = n
  | 0, _, h => absurd h (Nat.not_lt_zero _)
  | fuel + 1, n, h => by
    obtain ⟨hd, hv⟩ := digitChar_digit (Nat.mod_lt n (by decide : 10 > 0))
    simp only [Nat.toDigitsCore]
    split
    · next h0 =>
      refine ⟨List.cons_ne_nil _ _, by simp [hd], ?_⟩
      show 10 * 0 + ((Nat.digitChar (n % 10)).toNat - '0'.toNat) = n
      rw [hv]
      omega
    · next h0 =>
      obtain ⟨-, hall, hval⟩ := toDigitsCore_read fuel (n / 10) (by omega)
      rw [toDigitsCore_append]
      refine ⟨by simp, by simp [hall, hd], ?_⟩
      simp only [digitsValue, List.foldl_append, List.foldl_cons, List.foldl_nil] at hval ⊢
      rw [hval, hv]
      omega

theorem readNat_toDigits (n : Nat) : readNat (Nat.toDigits 10 n) = some n := by
  obtain ⟨hne, hall, hval⟩ := toDigitsCore_read (n + 1) n (Nat.lt_succ_self n)
  simp [readNat, Nat.toDigits, hne, hall, hval]

/-- The characters `%d` writes are digits or a minus sign. -/
theorem mem_repr {id : Int} {c : Char} (hc : c ∈ id.repr.toList) : c.isDigit = true ∨ c = '-' := by
  cases id with
  | ofNat m =>
    exact .inl (List.all_eq_true.1 (toDigitsCore_read (m + 1) m (Nat.lt_succ_self m)).2.1 c hc)
  | negSucc m =>
    rcases List.mem_cons.1 (show c ∈ '-' :: Nat.toDigits 10 (m + 1) from hc) with rfl | hc
    · exact .inr rfl
    · exact .inl (List.all_eq_true.1 (toDigitsCore_read (m + 2) (m + 1) (Nat.lt_succ_self _)).2.1 c hc)

/-- **`%d` reads back.** -/
theorem readInt_repr (id : Int) : readInt id.repr.toList = some id := by
  cases id with
  | ofNat m =>
    obtain ⟨hne, hall, -⟩ := toDigitsCore_read (m + 1) m (Nat.lt_succ_self m)
    obtain ⟨c, cs, hcs⟩ := List.exists_cons_of_ne_nil hne
    have hc : c ≠ '-' := by
      rintro rfl
      rw [hcs] at hall
      simp at hall
    show readInt (Nat.toDigits 10 m) = _
    rw [Nat.toDigits, hcs, readInt, if_neg hc, ← hcs, ← Nat.toDigits, readNat_toDigits]
    rfl
  | negSucc m =>
    show readInt ('-' :: Nat.toDigits 10 (m + 1)) = _
    simp only [readInt, if_true, readNat_toDigits, Option.map_some']
    rfl

/-! ### Records and dumps -/

/-- One record `"%c:%d:%s"`: its type, then after a `:` the id up to the next
`:`, and the name after that. -/
def readRecord : List Char → Option (Char × Int × List Char)
  | t :: c :: rest =>
    if c = ':' then
      match rest.dropWhile (· ≠ ':') with
      | _ :: name => (readInt (rest.takeWhile (· ≠ ':'))).map fun id => (t, id, name)
      | [] => none
    else none
  | _ => none

/-- The records of a dump: its bytes cut at each NUL, the bytes of the record
under way kept reversed in `acc`; bytes after the last NUL make no record. -/
def splitDump : List Char → List Char → List (List Char)
  | [], _ => []
  | c :: cs, acc => if c = NUL then acc.reverse :: splitDump cs [] else splitDump cs (c :: acc)

/-- Type, id and name of every record of a dump. -/
def readDump (bytes : List Char) : List (Option (Char × Int × List Char)) :=
  (splitDump bytes []).map readRecord

theorem readRecord_infoRecord (t : Char) (id : Int) (name : List Char) :
    readRecord (infoRecord t id name) = some (t, id, name) := by
  have hid : ∀ c ∈ id.repr.toList, decide (c ≠ ':') = true := fun c hc => by
    rcases mem_repr hc with h | rfl
    · exact decide_eq_true fun e => by subst e; exact absurd h (by decide)
    · decide
  rw [infoRecord, List.cons_append, List.cons_append, readRecord, if_pos rfl,
    List.dropWhile_append_of_pos hid, List.takeWhile_append_of_pos hid]
  simpa using readInt_repr id

theorem splitDump_record (rest : List Char) : ∀ (r acc : List Char), NUL ∉ r →
    splitDump (r ++ NUL :: rest) acc = (acc.reverse ++ r) :: splitDump rest []
  | [], acc, _ => by simp [splitDump]
  | c :: r, acc, h => by
    rw [List.mem_cons, not_or] at h
    rw [List.cons_append, splitDump, if_neg (Ne.symm h.1), splitDump_record rest r (c :: acc) h.2]
    simp

/-- **The dump reads back.** Cutting the bytes of records at each NUL and each
record at its first two `:` gives back the type, id and name of every record,
when no type is a NUL and no name holds one. -/
theorem readDump_dumpBytes : ∀ (es : List (Char × Int × List Char)), (∀ e ∈ es, NUL ∉ e.2.2) →
    (∀ e ∈ es, e.1 ≠ NUL) → readDump (dumpBytes (es.map fun e => infoRecord e.1 e.2.1 e.2.2)) = es.map some
  | [], _, _ => rfl
  | e :: es, hn, ht => by
    have hr : NUL ∉ infoRecord e.1 e.2.1 e.2.2 := by
      have hid : NUL ∉ e.2.1.repr.toList := fun h => by
        rcases mem_repr h with h | h
        · exact absurd h (by decide)
        · exact absurd h (by decide)
      simp only [infoRecord, List.mem_append, List.mem_cons, not_or]
      exact ⟨⟨Ne.symm (ht e (List.mem_cons_self _ _)), by decide, hid⟩, by decide,
        hn e (List.mem_cons_self _ _)⟩
    have ih := readDump_dumpBytes es (fun e he => hn e (List.mem_cons_of_mem _ he))
      (fun e he => ht e (List.mem_cons_of_mem _ he))
    simp only [readDump] at ih ⊢
    rw [List.map_cons, dumpBytes_cons, splitDump_record _ _ _ hr, List.map_cons, ih]
    simp [readRecord_infoRecord]

example : readDump ['i', ':', '-', '1', '2', ':', '/', 'a', ':', 'b', NUL] = [some ('i', -12, ['/', 'a', ':', 'b'])] := by
  decide

/-! ### What `rfs_path_get_info` writes, read back -/

/-- What a reader of the dump of filter `f` should find: for each Path on
`ps` that cites `f`, in list order, its type, its id and its name. -/
def infoEntries (heap : Nat → Option RfsPath) (f : Flt) (cs : Nat → List (List Char)) (ps : List Nat) :
    List (Char × Int × List Char) :=
  ps.filterMap fun p => (heap p).bind fun r =>
    if r.cites f then some (if f ∈ r.rinch then 'i' else 'e', r.id, pathName (cs p)) else none

theorem infoRecords_eq (heap : Nat → Option RfsPath) (f : Flt) (cs : Nat → List (List Char)) (ps : List Nat) :
    infoRecords heap f cs ps = (infoEntries heap f cs ps).map fun e => infoRecord e.1 e.2.1 e.2.2 := by
  rw [infoEntries, List.map_filterMap, infoRecords]
  refine List.filterMap_congr fun p _ => ?_
  cases heap p with
  | none => rfl
  | some r => by_cases h : r.cites f <;> simp [h]

/-- An entry has a type that is no NUL, and a name without one. -/
theorem mem_infoEntries {heap : Nat → Option RfsPath} {f : Flt} {cs : Nat → List (List Char)} {ps : List Nat}
    {e : Char × Int × List Char} (he : e ∈ infoEntries heap f cs ps) : e.1 ≠ NUL ∧ NUL ∉ e.2.2 := by
  obtain ⟨p, -, he⟩ := List.mem_filterMap.1 he
  cases hp : heap p with
  | none => simp [hp] at he
  | some r =>
    by_cases hc : r.cites f <;> simp only [hp, hc, Option.some_bind, if_true, if_false] at he
    · cases he
      refine ⟨?_, fun h => by simpa using List.mem_takeWhile_imp h⟩
      dsimp only
      split_ifs <;> decide
    · cases he

/-- A buffer that holds `xs` from its start: its first bytes are `xs`. -/
theorem Holds.map_range {buf : Nat → Char} {xs : List Char} (h : Holds buf 0 xs) :
    (List.range xs.length).map buf = xs :=
  List.ext_get (by simp) fun k h₁ _ => by simpa using h k (by simpa using h₁)

/-- **What `rfs_path_get_info` reports it wrote reads back.** In every
reachable state, for a filter `f` and a buffer of `size ≤ INT_MAX` bytes: when
the page can be allocated, `redirfs_get_filename` succeeds on every Path
citing `f` (along the climb `cs p`, whose names fit in a page), and the
records fit in the buffer, enough fuel gives a result `len`, and the first
`len` bytes of the buffer read back as the type, id and name of every Path
citing `f`, in the order of `rfs_path_list`. -/
theorem rfsPathGetInfo_readDump {s : Reg} (hs : Reachable s) {φ : Faults} (hφ : φ.alloc = false)
    {fs : Fs} {cs : Nat → List (List Char)} {f : Flt} {size : Int} (hint : size ≤ INT_MAX)
    (hw : ∀ p ∈ s.list, ∀ r, s.heap p = some r → r.cites f →
      Walk fs r.mnt r.dentry (cs p) ∧ (namesLength (cs p) : Int) < PAGE_SIZE)
    (hfit : ((dumpBytes (infoRecords s.heap f cs s.list)).length : Int) < size) (buf : Nat → Char) :
    ∃ n, ∀ fuel, n ≤ fuel → ∃ len buf', rfsPathGetInfo φ fs fuel f buf size s = some (.ok (len, buf')) ∧
      readDump ((List.range len.toNat).map buf') = (infoEntries s.heap f cs s.list).map some := by
  have hinv := RegInv.of_reachable hs
  set T := (dumpBytes (infoRecords s.heap f cs s.list)).length
  obtain ⟨n, hn⟩ := getInfoLoop_dump hint s.list
    (fun p hp => let ⟨r, hr, _⟩ := hinv.alive p hp; ⟨r, hr⟩) hw
  refine ⟨n, fun fuel hf => ?_⟩
  -- the records fit, so `len` never reaches `size` and never wraps
  have hle : ∀ k, ((dumpBytes ((infoRecords s.heap f cs s.list).take k)).length : Int) ≤ T := fun k => by
    have := congrArg List.length (congrArg dumpBytes (List.take_append_drop k (infoRecords s.heap f cs s.list)))
    simp only [dumpBytes, List.map_append, List.flatten_append, List.length_append] at this
    exact_mod_cast this ▸ Nat.le_add_right _ _
  obtain ⟨buf', h, hh, -⟩ := hn fuel hf [] (fun _ => NUL) buf (by simp; omega)
    (fun k hk => absurd hk (Nat.not_lt_zero _))
    (fun k _ _ => by simpa using (hle (k + 1)).trans (by omega))
  simp only [List.length_nil, Nat.cast_zero, zero_add, List.nil_append, min_eq_right hfit.le] at h hh
  rw [dumpPrefix, if_pos hfit] at hh
  refine ⟨T, buf', by rw [rfsPathGetInfo, hφ]; exact h, ?_⟩
  rw [Int.toNat_natCast, hh.map_range, infoRecords_eq]
  exact readDump_dumpBytes _ (fun _ he => (mem_infoEntries he).2) fun _ he => (mem_infoEntries he).1

theorem rfsPathGetInfo_readDump_dumpReg :
    Reachable dumpReg ∧ noFaults.alloc = false ∧ (8 : Int) ≤ INT_MAX ∧
      (∀ p ∈ dumpReg.list, ∀ r, dumpReg.heap p = some r → r.cites 7 →
        Walk dumpFs r.mnt r.dentry [['a']] ∧ (namesLength [['a']] : Int) < PAGE_SIZE) ∧
      ((dumpBytes (infoRecords dumpReg.heap 7 (fun _ => [['a']]) dumpReg.list)).length : Int) < 8 ∧
      ∃ n, ∀ fuel, n ≤ fuel → ∃ len buf', rfsPathGetInfo noFaults dumpFs fuel 7 (fun _ => 'x') 8 dumpReg =
          some (.ok (len, buf')) ∧
        readDump ((List.range len.toNat).map buf') =
          (infoEntries dumpReg.heap 7 (fun _ => [['a']]) dumpReg.list).map some :=
  have hs : Reachable dumpReg := @Reachable.run _ _ dumpHistory (.init fun _ => 0) rfl rfl
  have hw : ∀ p ∈ dumpReg.list, ∀ r, dumpReg.heap p = some r → r.cites 7 →
      Walk dumpFs r.mnt r.dentry [['a']] ∧ (namesLength [['a']] : Int) < PAGE_SIZE := by
    intro p hp r hr _
    obtain rfl : p = 0 := by simpa [show dumpReg.list = [0] from rfl] using hp
    obtain rfl : r = ⟨0, 1, 10, [7], [], some 0, 3⟩ :=
      (Option.some.inj ((show dumpReg.heap 0 = some ⟨0, 1, 10, [7], [], some 0, 3⟩ from rfl).symm.trans
        hr)).symm
    exact ⟨.up (by decide) (.top rfl), by decide⟩
  ⟨hs, rfl, by decide, hw, by decide,
    rfsPathGetInfo_readDump hs (rfl : noFaults.alloc = false) (by decide) hw (by decide) (fun _ => 'x')⟩

end RedirFS
