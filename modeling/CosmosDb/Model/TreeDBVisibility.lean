import CosmosDb.Model.TreeDBIterator

/-!
# CosmosDb — the IAVL key formats TreeDB recognises

`treedb_visibility_debug.go` recognises two formats of the keys an IAVL store
writes under its prefix. The root node keys are a prefix followed by `'s'`,
the version in 8 big-endian bytes and the nonce 1 in 4
(`prefixedIAVLRootVersion`, which also returns the version and the prefix);
the debug trace reports reads and writes of them. The scans over an IAVL
store's versions run from a prefix, `'s'` and a start version to the same
prefix, `'s'` and `math.MaxInt64` (`isPrefixedIAVLVersionRange`); on such a
range `Iterator` falls back to a local scan when the library answers empty.

Both are parsers of a key format. The results are that each accepts exactly
the keys of its format and reads the fields back:

* `prefixedIAVLRootVersion_eq_iff` — the parser returns a version and a
  prefix exactly for that prefix followed by that version's root node key,
  when the prefix holds the traced prefix;
* `isPrefixedIAVLVersionRange_iff` — the ranges accepted are exactly those
  from a version key of a version other than 0 to the version key of
  `math.MaxInt64`, under one prefix.

The prefix to trace, read once from the environment, is a parameter
(`visibilityPrefix`); the trace itself, lines written to standard error, and
the tests of `treedbVisibilityTrackKey` and `isRootMultiMetaKey`, which only
decide which lines it writes, are not modelled.
-/

namespace CosmosDb

/-! ## Big-endian bytes -/

/-- The `n`-byte big-endian encoding of `v`, as `binary.BigEndian` writes it. -/
def bytesBE (n v : Nat) : Bytes := (digitsBE 256 n v).map (Fin.ofNat 256)

/-- `binary.BigEndian.Uint32` on the 4 bytes it is given: the same reading as
`bigEndianUint64`. -/
def bigEndianUint32 (b : Bytes) : Nat := bigEndianUint64 b

theorem foldl_bigEndian (b : Bytes) (a : Nat) :
    b.foldl (fun acc x => acc * 256 + x.val) a = a * 256 ^ b.length + valueBE 256 (b.map Fin.val) := by
  induction b generalizing a with
  | nil => simp
  | cons x b ih =>
    rw [List.foldl_cons, ih, List.map_cons, valueBE_cons, List.length_cons, List.length_map]
    ring

theorem bigEndianUint64_eq (b : Bytes) : bigEndianUint64 b = valueBE 256 (b.map Fin.val) := by
  rw [bigEndianUint64, foldl_bigEndian]
  simp

@[simp] theorem length_bytesBE (n v : Nat) : (bytesBE n v).length = n := by
  simp [bytesBE]

theorem map_val_bytesBE (n v : Nat) : (bytesBE n v).map Fin.val = digitsBE 256 n v := by
  rw [bytesBE, List.map_map]
  -- every digit is below 256, so it survives the cast to a byte
  conv_rhs => rw [← List.map_id (digitsBE 256 n v)]
  exact List.map_congr_left fun d hd => by
    simp [Nat.mod_eq_of_lt (digitsBE_lt (by norm_num) n v d hd)]

/-- Reading `n` big-endian bytes of `v` back gives `v` modulo `256 ^ n`. -/
theorem bigEndianUint64_bytesBE (n v : Nat) : bigEndianUint64 (bytesBE n v) = v % 256 ^ n := by
  rw [bigEndianUint64_eq, map_val_bytesBE, valueBE_digitsBE]

/-- Bytes are the big-endian encoding of the value they read as. -/
theorem bytesBE_bigEndianUint64 (b : Bytes) : bytesBE b.length (bigEndianUint64 b) = b := by
  have hdigits := digitsBE_valueBE (b := 256) (l := b.map Fin.val) fun d hd => by
    obtain ⟨x, -, rfl⟩ := List.mem_map.mp hd
    exact x.isLt
  rw [List.length_map] at hdigits
  rw [bigEndianUint64_eq, bytesBE, hdigits, List.map_map]
  conv_rhs => rw [← List.map_id b]
  exact List.map_congr_left fun x _ => Fin.ofNat_val_eq_self x

theorem bigEndianUint64_lt (b : Bytes) : bigEndianUint64 b < 256 ^ b.length := by
  rw [bigEndianUint64_eq, ← List.length_map (f := Fin.val)]
  exact valueBE_lt (by norm_num) fun d hd => by
    obtain ⟨x, -, rfl⟩ := List.mem_map.mp hd
    exact x.isLt

/-! ## IAVL root node keys -/

/-- The key of an IAVL root node: `'s'`, the version in 8 big-endian bytes,
and the nonce 1 in 4. -/
def iavlRootNodeKey (version : Nat) : Bytes := 115 :: (bytesBE 8 version ++ bytesBE 4 1)

/-- `prefixedIAVLRootVersion`, with `visibilityPrefix` the prefix to trace:
the version and the prefix of a key that ends in an IAVL root node key, if
the prefix holds the traced one. -/
def prefixedIAVLRootVersion (visibilityPrefix key : Bytes) : Nat × Bytes × Bool :=
  if key.length < 13 then (0, [], false)
  else
    let tail := key.drop (key.length - 13)
    if tail.head? ≠ some 115 ∨ bigEndianUint32 ((tail.drop 9).take 4) ≠ 1 then (0, [], false)
    else
      let version := bigEndianUint64 ((tail.drop 1).take 8)
      let pfx := key.take (key.length - 13)
      if visibilityPrefix = [] then (version, pfx, true)
      else if visibilityPrefix <:+: pfx then (version, pfx, true)
      else (0, [], false)

@[simp] theorem length_iavlRootNodeKey (version : Nat) : (iavlRootNodeKey version).length = 13 := by
  simp [iavlRootNodeKey]

/-- Thirteen bytes are a root node key exactly when they start with `'s'`
and end with the nonce 1; the version is what the 8 bytes between read as. -/
theorem eq_iavlRootNodeKey_iff {tail : Bytes} (ht : tail.length = 13) :
    (tail.head? = some 115 ∧ bigEndianUint32 ((tail.drop 9).take 4) = 1) ↔
      tail = iavlRootNodeKey (bigEndianUint64 ((tail.drop 1).take 8)) := by
  obtain ⟨c, rest, rfl⟩ : ∃ c rest, tail = c :: rest := List.exists_cons_of_ne_nil (by
    rintro rfl
    cases ht)
  have hrest : rest.length = 12 := by simpa using ht
  -- the eight version bytes and the four nonce bytes
  have h8 : (rest.take 8).length = 8 := by simp [hrest]
  have h4 : (rest.drop 8).length = 4 := by simp [hrest]
  have hsplit : rest = rest.take 8 ++ rest.drop 8 := (List.take_append_drop 8 rest).symm
  simp only [List.head?_cons, Option.some.injEq, List.drop_succ_cons, List.drop_zero,
    iavlRootNodeKey, List.cons.injEq, bigEndianUint32]
  rw [List.take_of_length_le (by simp [hrest] : (rest.drop 8).length ≤ 4)]
  constructor
  · rintro ⟨rfl, hnonce⟩
    refine ⟨rfl, ?_⟩
    have e8 := bytesBE_bigEndianUint64 (rest.take 8)
    have e4 := bytesBE_bigEndianUint64 (rest.drop 8)
    rw [h8] at e8
    rw [h4, hnonce] at e4
    rw [e8, e4, List.take_append_drop]
  · rintro ⟨rfl, hkey⟩
    refine ⟨rfl, ?_⟩
    rw [hkey, List.drop_left' (length_bytesBE 8 _), bigEndianUint64_bytesBE]
    norm_num

theorem prefixedIAVLRootVersion_of_lt {visibilityPrefix key : Bytes} (hk : key.length < 13) :
    prefixedIAVLRootVersion visibilityPrefix key = (0, [], false) := by
  simp [prefixedIAVLRootVersion, hk]

/-- The parser on a key that splits into a prefix and thirteen bytes. -/
theorem prefixedIAVLRootVersion_append (visibilityPrefix pfx tail : Bytes) (ht : tail.length = 13) :
    prefixedIAVLRootVersion visibilityPrefix (pfx ++ tail) =
      if tail = iavlRootNodeKey (bigEndianUint64 ((tail.drop 1).take 8)) ∧ visibilityPrefix <:+: pfx then
        (bigEndianUint64 ((tail.drop 1).take 8), pfx, true)
      else (0, [], false) := by
  have hlen : (pfx ++ tail).length - 13 = pfx.length := by simp [ht]
  have hnot : ¬(pfx ++ tail).length < 13 := by simp [ht]
  rw [prefixedIAVLRootVersion, if_neg hnot]
  simp only [hlen, List.drop_left, List.take_left]
  by_cases hkey : tail.head? = some 115 ∧ bigEndianUint32 ((tail.drop 9).take 4) = 1
  · rw [if_neg fun h => h.elim (· hkey.1) (· hkey.2)]
    -- the traced prefix is checked only when one is set; the empty one is in every prefix
    by_cases hvp : visibilityPrefix <:+: pfx
    · have hfmt : tail = iavlRootNodeKey (bigEndianUint64 ((tail.drop 1).take 8)) ∧
          visibilityPrefix <:+: pfx := ⟨(eq_iavlRootNodeKey_iff ht).mp hkey, hvp⟩
      rw [if_pos hfmt]
      split_ifs <;> rfl
    · have hne : visibilityPrefix ≠ [] := fun h => hvp (h ▸ List.nil_infix)
      rw [if_neg hne, if_neg hvp, if_neg fun h => hvp h.2]
  · rw [if_pos (not_and_or.mp hkey), if_neg fun h => hkey ((eq_iavlRootNodeKey_iff ht).mpr h.1)]

/-- Eight bytes read as a number below `2 ^ 64`. -/
theorem bigEndianUint64_lt_two_pow {b : Bytes} (hb : b.length = 8) : bigEndianUint64 b < 2 ^ 64 := by
  have hlt := bigEndianUint64_lt b
  rw [hb] at hlt
  calc bigEndianUint64 b < 256 ^ 8 := hlt
    _ = 2 ^ 64 := by norm_num

/-- The version bytes of a thirteen-byte tail read as a number below `2 ^ 64`. -/
theorem bigEndianUint64_version_lt {tail : Bytes} (ht : tail.length = 13) :
    bigEndianUint64 ((tail.drop 1).take 8) < 2 ^ 64 :=
  bigEndianUint64_lt_two_pow (by simp [ht])

/-- The version bytes of a root node key read back as its version. -/
theorem version_iavlRootNodeKey {version : Nat} (hv : version < 2 ^ 64) :
    bigEndianUint64 (((iavlRootNodeKey version).drop 1).take 8) = version := by
  simp only [iavlRootNodeKey, List.drop_succ_cons, List.drop_zero]
  rw [List.take_left' (length_bytesBE 8 version), bigEndianUint64_bytesBE,
    Nat.mod_eq_of_lt (by norm_num at hv ⊢; exact hv)]

/-- `prefixedIAVLRootVersion` returns a version and a prefix exactly for the
prefix followed by the root node key of that version, when the prefix holds
the traced prefix. -/
theorem prefixedIAVLRootVersion_eq_iff (visibilityPrefix key pfx : Bytes) (version : Nat) :
    prefixedIAVLRootVersion visibilityPrefix key = (version, pfx, true) ↔
      version < 2 ^ 64 ∧ key = pfx ++ iavlRootNodeKey version ∧ visibilityPrefix <:+: pfx := by
  constructor
  · intro h
    by_cases hk : key.length < 13
    · rw [prefixedIAVLRootVersion_of_lt hk] at h
      simp at h
    · -- split the key into what comes before the last thirteen bytes, and them
      have hsplit := List.take_append_drop (key.length - 13) key
      have ht : (key.drop (key.length - 13)).length = 13 := by simp; omega
      rw [← hsplit, prefixedIAVLRootVersion_append _ _ _ ht] at h
      split_ifs at h with hfmt
      · simp only [Prod.mk.injEq] at h
        obtain ⟨rfl, rfl, -⟩ := h
        refine ⟨bigEndianUint64_version_lt ht, ?_, hfmt.2⟩
        rw [← hfmt.1]
        exact hsplit.symm
      · simp at h
  · rintro ⟨hv, rfl, hvp⟩
    rw [prefixedIAVLRootVersion_append _ _ _ (length_iavlRootNodeKey version), version_iavlRootNodeKey hv]
    simp [hvp]

/-- The root node key of version 300 under the prefix `s/k:bank/`, traced by
the prefix `bank`; a store traced by `acc` does not match it. -/
example :
    prefixedIAVLRootVersion [98, 97, 110, 107] ([115, 47, 107, 58, 98, 97, 110, 107, 47] ++ iavlRootNodeKey 300) =
        (300, [115, 47, 107, 58, 98, 97, 110, 107, 47], true) ∧
      prefixedIAVLRootVersion [97, 99, 99] ([115, 47, 107, 58, 98, 97, 110, 107, 47] ++ iavlRootNodeKey 300) =
        (0, [], false) := by
  decide

/-! ## IAVL version ranges -/

/-- The key of a version of an IAVL store under `pfx`: `'s'` and the version
in 8 big-endian bytes. -/
def iavlVersionKey (pfx : Bytes) (version : Nat) : Bytes := pfx ++ 115 :: bytesBE 8 version

@[simp] theorem length_iavlVersionKey (pfx : Bytes) (version : Nat) :
    (iavlVersionKey pfx version).length = pfx.length + 9 := by
  simp [iavlVersionKey]

/-- What `isPrefixedIAVLVersionRange` reads of a version key: the byte `'s'`
nine from the end, the prefix before it and the version after it. -/
theorem iavlVersionKey_fields (pfx : Bytes) (version : Nat) :
    (iavlVersionKey pfx version).getD ((iavlVersionKey pfx version).length - 9) 0 = 115 ∧
      (iavlVersionKey pfx version).take ((iavlVersionKey pfx version).length - 9) = pfx ∧
      bigEndianUint64 ((iavlVersionKey pfx version).drop ((iavlVersionKey pfx version).length - 8)) =
        version % 2 ^ 64 := by
  have h9 : (iavlVersionKey pfx version).length - 9 = pfx.length := by simp
  have h8 : (iavlVersionKey pfx version).length - 8 = pfx.length + 1 := by simp
  refine ⟨?_, ?_, ?_⟩
  · rw [h9, iavlVersionKey, getD_append_cons rfl]
  · rw [h9, iavlVersionKey, List.take_left' rfl]
  · -- the last eight bytes are the version's
    have hdrop : (iavlVersionKey pfx version).drop (pfx.length + 1) = bytesBE 8 version := by
      simp [iavlVersionKey, List.drop_append]
    rw [h8, hdrop, bigEndianUint64_bytesBE]
    norm_num

/-- A key with `'s'` nine bytes from its end is the version key of what
comes before the `'s'` and of what its last eight bytes read as. -/
theorem eq_iavlVersionKey {key : Bytes} (hlen : 9 ≤ key.length)
    (hs : key.getD (key.length - 9) 0 = 115) :
    key = iavlVersionKey (key.take (key.length - 9)) (bigEndianUint64 (key.drop (key.length - 8))) := by
  have hdrop : key.drop (key.length - 9) = 115 :: key.drop (key.length - 8) := by
    rw [List.drop_eq_getElem_cons (by omega)]
    have hget : key[key.length - 9] = 115 := by
      simpa [List.getD_eq_getElem?_getD, show key.length - 9 < key.length by omega] using hs
    rw [hget, show key.length - 9 + 1 = key.length - 8 by omega]
  have h8 : (key.drop (key.length - 8)).length = 8 := by
    simp only [List.length_drop]
    omega
  have hbytes := bytesBE_bigEndianUint64 (key.drop (key.length - 8))
  rw [h8] at hbytes
  rw [iavlVersionKey, hbytes, ← hdrop, List.take_append_drop]

/-- `isPrefixedIAVLVersionRange` accepts exactly the scans of an IAVL store's
versions: both bounds are version keys under one prefix, from a version
other than 0 below `2 ^ 64` to `math.MaxInt64`. -/
theorem isPrefixedIAVLVersionRange_iff (start «end» : Bytes) :
    isPrefixedIAVLVersionRange start «end» = true ↔
      ∃ pfx version, 0 < version ∧ version < 2 ^ 64 ∧
        start = iavlVersionKey pfx version ∧ «end» = iavlVersionKey pfx maxInt64 := by
  constructor
  · intro h
    unfold isPrefixedIAVLVersionRange at h
    split_ifs at h with hlen hs hpfx
    dsimp only at h
    split_ifs at h with hv hmax
    simp only [not_or, not_lt, not_not] at hlen hs hpfx hmax
    -- the prefix is the one before the start's `'s'`, the version what follows it
    refine ⟨start.take (start.length - 9), bigEndianUint64 (start.drop (start.length - 8)),
      Nat.pos_of_ne_zero hv, bigEndianUint64_lt_two_pow (by simp only [List.length_drop]; omega),
      eq_iavlVersionKey hlen.1 hs.1, ?_⟩
    rw [hpfx, ← hmax]
    exact eq_iavlVersionKey hlen.2.1 hs.2
  · rintro ⟨pfx, version, hpos, hlt, rfl, rfl⟩
    obtain ⟨hs, hpfx, hv⟩ := iavlVersionKey_fields pfx version
    obtain ⟨hs', hpfx', hmax⟩ := iavlVersionKey_fields pfx maxInt64
    have hmax' : maxInt64 % 2 ^ 64 = maxInt64 := by
      rw [maxInt64]
      norm_num
    -- each check of the definition in turn
    unfold isPrefixedIAVLVersionRange
    rw [if_neg (by simp), if_neg (by rw [hs, hs']; simp), if_neg (by rw [hpfx, hpfx']; simp)]
    dsimp only
    rw [hv, hmax, Nat.mod_eq_of_lt hlt, hmax', if_neg hpos.ne', if_neg (by simp)]

end CosmosDb
