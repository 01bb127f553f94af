import Mathlib.Data.List.Lex
import Mathlib.Data.Fin.Basic
import Mathlib.Order.Fin.Basic
import CosmosDb.Lib.Lex
import CosmosDb.Lib.BigEndian

/-!
# CosmosDb — bytes, errors and the helpers of `util.go`

Go's `byte` is `Fin 256` and a `[]byte` is a list of them. Where the code
tells a nil slice from an empty one (range bounds, values, `GetAppend`'s
destination), the slice is an `Option Bytes` with `none` for nil. The order
of `bytes.Compare` is Mathlib's lexicographic order on lists.

A call either returns or panics; a returned Go `error` is a `DbError`.
`Go α` is the outcome of a call: a value, an error, or a panic with its
message.

`cpIncr` is translated with its carry loop. `cpIncr_successor` says what
it computes: nil exactly on 0xFF bytes throughout, and otherwise the
same-length string whose big-endian value is one more; `cpIncr_bound` is the
fact the prefix iterators rely on: every extension of `bz` sorts below
`cpIncr bz`.
-/

namespace CosmosDb

/-- Go's `byte`. -/
abbrev Byte := Fin 256

/-- `256 ≠ 0`, for byte literals, as one named instance: a literal then refers
to it and carries no proof of its own. -/
instance instNeZeroByteSize : NeZero (256 : Nat) := ⟨by decide⟩

/-- Go's `[]byte`, where nil and empty need not be told apart. -/
abbrev Bytes := List Byte

/-- The errors the database code returns. -/
inductive DbError where
  /-- `errBatchClosed` of `types.go`. -/
  | errBatchClosed
  /-- `errKeyEmpty` of `types.go`. -/
  | errKeyEmpty
  /-- `errValueNil` of `types.go`. -/
  | errValueNil
  /-- `treedb.ErrClosed` of the TreeDB library. -/
  | errClosed
  /-- `tree.ErrKeyNotFound` of the TreeDB library. -/
  | errKeyNotFound
  /-- The error `prefixDBIterator.Valid` records for a key outside its prefix. -/
  | invalidKeyFromBackend (key pfx : Bytes)
  /-- Any other error a backend passes up. -/
  | backend (code : Nat)
  deriving DecidableEq, Repr

/-- Lower-case hexadecimal, two digits a byte, as `%x` prints a `[]byte`. -/
def hexBytes (bz : Bytes) : String :=
  String.join (bz.map fun b =>
    String.ofList [Nat.digitChar (b.val / 16), Nat.digitChar (b.val % 16)])

/-- The text of an error, as `Error()` returns it where the repository defines it. -/
def DbError.message : DbError → Option String
  | .errBatchClosed => some "batch has been written or closed"
  | .errKeyEmpty => some "key cannot be empty"
  | .errValueNil => some "value cannot be nil"
  | .invalidKeyFromBackend key pfx =>
    some ("received invalid key from backend: " ++ hexBytes key ++
      " (expected prefix " ++ hexBytes pfx ++ ")")
  | _ => none

/-- How a call ends other than by returning a value. -/
inductive Failure where
  | panic (msg : String)
  | error (err : DbError)
  deriving DecidableEq, Repr

/-- The outcome of a call. -/
abbrev Go := Except Failure

/-- Return a Go error. -/
def throwErr {α : Type} (e : DbError) : Go α := .error (.error e)

/-! ## `util.go` -/

/-- `cp`: a fresh copy. Copies are invisible in a model without aliasing. -/
def cp (bz : Bytes) : Bytes := bz

/-- The carry loop of `cpIncr` at index `i`: a byte below 0xFF is incremented
and the result returned; a 0xFF byte is zeroed and the loop moves left, and at
index 0 that is the overflow, reported as nil. -/
def cpIncrLoop (ret : Bytes) : Nat → Option Bytes
  | 0 => if ret.getD 0 0 < 0xFF then some (ret.set 0 (ret.getD 0 0 + 1)) else none
  | i + 1 =>
    if ret.getD (i + 1) 0 < 0xFF then some (ret.set (i + 1) (ret.getD (i + 1) 0 + 1))
    else cpIncrLoop (ret.set (i + 1) 0) i

/-- `cpIncr`: the same-length big-endian successor, nil on overflow; it panics
on an empty slice (its CONTRACT asks for `len(bz) > 0`). -/
def cpIncr (bz : Bytes) : Go (Option Bytes) :=
  if bz.length = 0 then .error (.panic "cpIncr expects non-zero bz length")
  else .ok (cpIncrLoop (cp bz) (bz.length - 1))

/-- `IsKeyInDomain`: `start ≤ key`, a nil start comparing as the empty key,
and `key < end` unless `end` is nil. -/
def isKeyInDomain (key : Bytes) (start «end» : Option Bytes) : Bool :=
  if key < start.getD [] then false
  else
    match «end» with
    | some e => if e ≤ key then false else true
    | none => true

/-- The bound check every `Iterator` and `ReverseIterator` starts with:
`(start != nil && len(start) == 0) || (end != nil && len(end) == 0)`. -/
def hasEmptyBound (start «end» : Option Bytes) : Bool :=
  start == some [] || «end» == some []

/-- `bytes.HasPrefix(key, prefix)`. -/
def hasPrefix (key pfx : Bytes) : Bool := pfx.isPrefixOf key

/-! ## Go slices -/

/-- `s[:0]`: a nil slice stays nil, any other becomes empty. -/
def sliceToZero : Option Bytes → Option Bytes
  | none => none
  | some _ => some []

/-- `append(s, xs...)`: appending nothing to a nil slice leaves it nil. -/
def appendBytes : Option Bytes → Bytes → Option Bytes
  | none, [] => none
  | none, x :: xs => some (x :: xs)
  | some s, xs => some (s ++ xs)

/-! ## Lemmas -/

theorem isKeyInDomain_iff (key : Bytes) (start «end» : Option Bytes) :
    isKeyInDomain key start «end» = true ↔
      start.getD [] ≤ key ∧ ∀ e, «end» = some e → key < e := by
  unfold isKeyInDomain
  cases «end» with
  | none => by_cases h : key < start.getD [] <;> simp_all [not_lt]
  | some e =>
    by_cases h : key < start.getD [] <;> by_cases h' : e ≤ key <;> simp_all [not_lt]

theorem hasPrefix_iff (key pfx : Bytes) : hasPrefix key pfx = true ↔ pfx <+: key := by
  simp [hasPrefix]

theorem hasEmptyBound_eq_false {start «end» : Option Bytes} :
    hasEmptyBound start «end» = false ↔ start ≠ some [] ∧ «end» ≠ some [] := by
  simp [hasEmptyBound]

/-- What the carry loop returns: an index `j ≤ i` whose byte is below 0xFF,
kept before `j` and incremented at `j`, in a list of the same length. -/
theorem cpIncrLoop_some {ret q : Bytes} :
    ∀ {i : Nat}, i < ret.length → cpIncrLoop ret i = some q →
      ∃ j ≤ i, ret.getD j 0 < 0xFF ∧ q.take j = ret.take j ∧
        q.getD j 0 = ret.getD j 0 + 1 ∧ q.length = ret.length
  | 0, hi, h => by
    rw [cpIncrLoop] at h
    split_ifs at h with hlt
    cases h
    exact ⟨0, le_rfl, hlt, by simp, by simp [List.getD_eq_getElem?_getD, hi], by simp⟩
  | i + 1, hi, h => by
    rw [cpIncrLoop] at h
    split_ifs at h with hlt
    · cases h
      refine ⟨i + 1, le_rfl, hlt, ?_, ?_, by simp⟩
      · exact List.take_set_of_le (le_refl _)
      · simp [List.getD_eq_getElem?_getD, hi]
    · -- a 0xFF byte: zeroed, and the loop continues one index to the left
      have hi' : i < (ret.set (i + 1) 0).length := by simp; omega
      obtain ⟨j, hj, hb, htake, hget, hlen⟩ := cpIncrLoop_some hi' h
      have hji : j ≠ i + 1 := by omega
      have hgetj : (ret.set (i + 1) 0).getD j 0 = ret.getD j 0 := by
        simp [List.getD_eq_getElem?_getD, Ne.symm hji]
      refine ⟨j, by omega, hgetj ▸ hb, ?_, hgetj ▸ hget, by simpa using hlen⟩
      rw [htake, List.take_set_of_le (by omega)]

/-- `cpIncr` returns on every nonempty slice. -/
theorem cpIncr_ok {bz : Bytes} (h : bz ≠ []) : ∃ q, cpIncr bz = .ok q :=
  ⟨cpIncrLoop (cp bz) (bz.length - 1), by simp [cpIncr, h]⟩

/-- Every extension of `bz` sorts below `cpIncr bz`: the two agree up to the
byte `cpIncr` increments, and there the extension is smaller. -/
theorem cpIncr_bound {bz q : Bytes} (h : cpIncr bz = .ok (some q)) {k : Bytes}
    (hk : bz <+: k) : k < q := by
  unfold cpIncr at h
  split_ifs at h with h0
  simp only [cp, Except.ok.injEq] at h
  obtain ⟨j, hj, hb, htake, hget, hlen⟩ := cpIncrLoop_some (by omega) h
  have hjlen : j < bz.length := by omega
  have hjq : j < q.length := by omega
  obtain ⟨t, rfl⟩ := hk
  have hk_split : bz ++ t = bz.take j ++ bz[j] :: (bz.drop (j + 1) ++ t) := by
    rw [← List.cons_append, ← List.append_assoc, ← List.drop_eq_getElem_cons hjlen,
      List.take_append_drop]
  have hq_split : q = q.take j ++ q[j] :: q.drop (j + 1) := by
    rw [← List.drop_eq_getElem_cons hjq, List.take_append_drop]
  have hlt : bz[j] < q[j] := by
    have hq : q[j] = bz[j] + 1 := by
      simpa [List.getD_eq_getElem?_getD, hjq, hjlen] using hget
    have hb' : bz[j] < 0xFF := by
      simpa [List.getD_eq_getElem?_getD, hjlen] using hb
    rw [hq, Fin.lt_def, Fin.val_add_one_of_lt hb']
    omega
  rw [hk_split, hq_split, htake]
  exact Lex.append_cons_lt_append_cons _ hlt _ _

/-! ## The carry loop -/

/-- The big-endian value of a byte string. -/
def bigEndianValue (bz : Bytes) : Nat := valueBE 256 (bz.map Fin.val)

theorem cpIncrLoop_of_lt {ret : Bytes} {i : Nat} (h : ret.getD i 0 < 0xFF) :
    cpIncrLoop ret i = some (ret.set i (ret.getD i 0 + 1)) := by
  cases i with
  | zero => rw [cpIncrLoop, if_pos h]
  | succ i => rw [cpIncrLoop, if_pos h]

theorem cpIncrLoop_of_max {ret : Bytes} {i : Nat} (h : ret.getD (i + 1) 0 = 0xFF) :
    cpIncrLoop ret (i + 1) = cpIncrLoop (ret.set (i + 1) 0) i := by
  rw [cpIncrLoop, if_neg (by rw [h]; decide)]

theorem getD_append_cons {c : Bytes} {i : Nat} (hi : c.length = i) (x : Byte) (s : Bytes) :
    (c ++ x :: s).getD i 0 = x := by
  subst hi
  simp [List.getD_eq_getElem?_getD]

theorem set_append_cons {c : Bytes} {i : Nat} (hi : c.length = i) (x y : Byte) (s : Bytes) :
    (c ++ x :: s).set i y = c ++ y :: s := by
  subst hi
  simp

/-- Over 0xFF bytes up to index `i`, the loop zeroes them all and overflows. -/
theorem cpIncrLoop_replicate_max : ∀ (i : Nat) (s : Bytes),
    cpIncrLoop (List.replicate (i + 1) 0xFF ++ s) i = none
  | 0, s => by simp [cpIncrLoop]
  | i + 1, s => by
    -- the byte at `i + 1` is the last 0xFF: zeroed, and the loop moves left
    have hsplit : List.replicate (i + 2) (0xFF : Byte) ++ s =
        List.replicate (i + 1) 0xFF ++ 0xFF :: s := by
      rw [List.replicate_succ', List.append_assoc, List.singleton_append]
    have hlen : (List.replicate (i + 1) (0xFF : Byte)).length = i + 1 := List.length_replicate
    rw [hsplit, cpIncrLoop_of_max (getD_append_cons hlen _ _), set_append_cons hlen]
    exact cpIncrLoop_replicate_max i (0 :: s)

/-- Before `m` bytes 0xFF, a byte `d` below 0xFF: the loop zeroes the 0xFF
bytes, increments `d` and returns. -/
theorem cpIncrLoop_carry {d : Byte} (hd : d < 0xFF) (c : Bytes) : ∀ (m : Nat) (s : Bytes),
    cpIncrLoop (c ++ d :: (List.replicate m 0xFF ++ s)) (c.length + m) =
      some (c ++ (d + 1) :: (List.replicate m 0 ++ s))
  | 0, s => by
    have hget := getD_append_cons (rfl : c.length = c.length) d s
    have hlt : (c ++ d :: s).getD c.length 0 < 0xFF := by
      rw [hget]
      exact hd
    rw [List.replicate_zero, List.nil_append, Nat.add_zero, cpIncrLoop_of_lt hlt, hget,
      set_append_cons rfl, List.replicate_zero, List.nil_append]
  | m + 1, s => by
    -- the last 0xFF byte is zeroed, and the loop goes on from the one before
    have hsplit : c ++ d :: (List.replicate (m + 1) (0xFF : Byte) ++ s) =
        (c ++ d :: List.replicate m 0xFF) ++ 0xFF :: s := by
      simp [List.replicate_succ']
    have hlen : (c ++ d :: List.replicate m (0xFF : Byte)).length = c.length + m + 1 := by
      simp
      omega
    rw [hsplit, ← Nat.add_assoc, cpIncrLoop_of_max (getD_append_cons hlen _ _),
      set_append_cons hlen, List.append_assoc, List.cons_append, cpIncrLoop_carry hd c m (0 :: s)]
    simp [List.replicate_succ']

theorem lt_max_of_ne {d : Byte} (hd : d ≠ 0xFF) : d < 0xFF := by
  rw [Fin.lt_def]
  have hval : d.val ≠ 255 := fun h => hd (Fin.ext h)
  have := d.isLt
  show d.val < 255
  omega

/-- `cpIncr` of 0xFF bytes overflows. -/
theorem cpIncr_all_max {bz : Bytes} (hne : bz ≠ []) (hall : ∀ x ∈ bz, x = 0xFF) :
    cpIncr bz = .ok none := by
  obtain ⟨n, hn⟩ : ∃ n, bz.length = n + 1 := ⟨bz.length - 1, by
    have := List.length_pos_iff.mpr hne
    omega⟩
  have hrep : bz = List.replicate (n + 1) 0xFF ++ [] := by
    rw [List.append_nil, ← hn]
    exact List.eq_replicate_iff.mpr ⟨rfl, hall⟩
  have := cpIncrLoop_replicate_max n []
  rw [← hrep] at this
  simp [cpIncr, cp, hn, this]

/-- Otherwise `cpIncr` zeroes the trailing 0xFF bytes and increments the
byte before them. -/
theorem cpIncr_carry {c : Bytes} {d : Byte} (hd : d ≠ 0xFF) (m : Nat) :
    cpIncr (c ++ d :: List.replicate m 0xFF) = .ok (some (c ++ (d + 1) :: List.replicate m 0)) := by
  have hloop := cpIncrLoop_carry (lt_max_of_ne hd) c m []
  simp only [List.append_nil] at hloop
  have hlen : (c ++ d :: List.replicate m (0xFF : Byte)).length - 1 = c.length + m := by
    simp
  simp [cpIncr, cp, hloop]

/-- The carry adds one to the big-endian value. -/
theorem bigEndianValue_carry (c : Bytes) {d : Byte} (hd : d < 0xFF) (m : Nat) :
    bigEndianValue (c ++ (d + 1) :: List.replicate m 0) =
      bigEndianValue (c ++ d :: List.replicate m 0xFF) + 1 := by
  simp only [bigEndianValue, List.map_append, List.map_cons, List.map_replicate,
    Fin.val_add_one_of_lt hd]
  exact valueBE_carry (by norm_num) _ _ _

/-- `cpIncr` on a nonempty slice returns; it returns nil exactly when every
byte is 0xFF, and otherwise a string of the same length whose big-endian value
is one more, above the slice and above every extension of it. -/
theorem cpIncr_successor (bz : Bytes) (hne : bz ≠ []) :
    ∃ r, cpIncr bz = .ok r ∧ (r = none ↔ ∀ x ∈ bz, x = 0xFF) ∧
      ∀ q, r = some q → q.length = bz.length ∧ bigEndianValue q = bigEndianValue bz + 1 ∧
        bz < q ∧ ∀ k, bz <+: k → k < q := by
  rcases eq_replicate_or_append_cons_replicate (0xFF : Byte) bz with hall | ⟨c, d, m, hd, rfl⟩
  · exact ⟨none, cpIncr_all_max hne hall, iff_of_true rfl hall, fun q hq => by cases hq⟩
  · have hq := cpIncr_carry (c := c) hd m
    refine ⟨_, hq, iff_of_false (by simp) fun hall => hd (hall d (by simp)), ?_⟩
    intro q hsome
    cases hsome
    refine ⟨by simp, bigEndianValue_carry c (lt_max_of_ne hd) m, cpIncr_bound hq (List.prefix_refl _),
      fun k hk => cpIncr_bound hq hk⟩

theorem cpIncr_successor_carry :
    ([1, 0xFF] : Bytes) ≠ [] ∧
      ∃ r, cpIncr [1, 0xFF] = .ok r ∧ (r = none ↔ ∀ x ∈ ([1, 0xFF] : Bytes), x = 0xFF) ∧
        ∀ q, r = some q → q.length = ([1, 0xFF] : Bytes).length ∧
          bigEndianValue q = bigEndianValue [1, 0xFF] + 1 ∧ ([1, 0xFF] : Bytes) < q ∧
            ∀ k, ([1, 0xFF] : Bytes) <+: k → k < q :=
  ⟨by decide, cpIncr_successor [1, 0xFF] (by decide)⟩

end CosmosDb
