import Mathlib.Data.List.TakeWhile
import CosmosDb.Model.DB
import CosmosDb.Lib.Iterator

/-!
# CosmosDb — `PrefixDB`

`prefixdb.go`, `prefixdb_iterator.go` and `prefixdb_batch.go`: a namespace of
another database, every key stored under `prefix ++ key`.

The wrapped database is any `D : DB σ β`. Its iterators are represented by
the entries they yield, which `prefixDBIterator` reads as its `source`.
Iterator methods keep Go's capitalised names (`Valid`, `Next`, `Key`,
`Value`), since the iterator structs have fields named like them.

The keys of the namespace are the proper extensions of the prefix
(`inNamespace`): the key equal to the prefix is the namespace's empty key,
which `seekToPrefix` skips. `stripNamespace` is what the prefix iterator
yields from a source (`yields_newPrefixIterator`): the namespace's entries
in source order, prefix removed. Over a whole run, on any source, it never
records its own error and is valid exactly on keys of the namespace
(`PrefixRunInv`, `prefixDBIterator_run`).
-/

namespace CosmosDb

/-- A key of the namespace of `pfx`: a proper extension of it. -/
def inNamespace (pfx key : Bytes) : Bool := key != pfx && hasPrefix key pfx

/-- The entries of the namespace of `pfx`, in order, with `pfx` removed. -/
def stripNamespace (pfx : Bytes) (l : List (Bytes × Bytes)) : List (Bytes × Bytes) :=
  l.filterMap fun e => if inNamespace pfx e.1 then some (e.1.drop pfx.length, e.2) else none

/-- `prefixed`: the key under which the namespace stores `key`. -/
def prefixed (pfx key : Bytes) : Bytes := cp pfx ++ key

/-! ## `prefixDBIterator` -/

/-- `prefixDBIterator`; `source` is what the wrapped iterator has still to
yield and `pfx` is the field `prefix`. -/
structure PrefixDBIterator where
  pfx : Bytes
  start : Option Bytes
  «end» : Option Bytes
  source : List (Bytes × Bytes)
  valid : Bool
  err : Option DbError

/-- The loop of `seekToPrefix` over the source: skip the key equal to the
prefix and keys outside it, stop at a key of the namespace. -/
def seekToPrefixLoop (pfx : Bytes) : List (Bytes × Bytes) → Bool × List (Bytes × Bytes)
  | [] => (false, [])
  | (key, value) :: rest =>
    if key == pfx then seekToPrefixLoop pfx rest
    else if hasPrefix key pfx then (true, (key, value) :: rest)
    else seekToPrefixLoop pfx rest

namespace PrefixDBIterator

/-- `seekToPrefix`. -/
def seekToPrefix (itr : PrefixDBIterator) : Bool × PrefixDBIterator :=
  let r := seekToPrefixLoop itr.pfx itr.source
  (r.1, { itr with source := r.2 })

/-- `Valid`: a key outside the prefix is recorded as an error. -/
def Valid (itr : PrefixDBIterator) : Bool × PrefixDBIterator :=
  if !itr.valid || itr.err.isSome || itr.source.isEmpty then (false, itr)
  else
    let key := (itr.source.headD ([], [])).1
    if key.length < itr.pfx.length || !(key.take itr.pfx.length == itr.pfx) then
      (false, { itr with err := some (.invalidKeyFromBackend key itr.pfx) })
    else (true, itr)

/-- `Next`, at a valid position: advance the source, then seek. -/
def Next (itr : PrefixDBIterator) : PrefixDBIterator :=
  let r := ({ itr with source := itr.source.tail } : PrefixDBIterator).seekToPrefix
  if r.1 then r.2 else { r.2 with valid := false }

/-- `Key`: the source key with the prefix cut off. -/
def Key (itr : PrefixDBIterator) : Bytes := (itr.source.headD ([], [])).1.drop itr.pfx.length

/-- `Value`. -/
def Value (itr : PrefixDBIterator) : Bytes := (itr.source.headD ([], [])).2

end PrefixDBIterator

/-- `newPrefixIterator`: seek once; if nothing is found, the iterator returned
is invalid and shares the exhausted source. -/
def newPrefixIterator (pfx : Bytes) (start «end» : Option Bytes)
    (source : List (Bytes × Bytes)) : PrefixDBIterator :=
  let itr : PrefixDBIterator := ⟨pfx, start, «end», source, true, none⟩
  let r := itr.seekToPrefix
  if r.1 then r.2 else { r.2 with valid := false }

/-- `prefixDBIterator` as an iterator. -/
def prefixIterOps : IterOps PrefixDBIterator (Bytes × Bytes) where
  valid := PrefixDBIterator.Valid
  current itr := (itr.Key, itr.Value)
  next := PrefixDBIterator.Next

/-- Everything a new prefix iterator over `source` yields. Each entry it
yields consumes one of the source, so `source.length + 1` reads suffice. -/
def prefixIteratorEntries (pfx : Bytes) (start «end» : Option Bytes)
    (source : List (Bytes × Bytes)) : List (Bytes × Bytes) :=
  prefixIterOps.drain (source.length + 1) (newPrefixIterator pfx start «end» source)

/-! ## `PrefixDB` -/

section PrefixDB

variable {σ β : Type} (D : DB σ β) (pfx : Bytes)

/-- The backend range of `Iterator` and `ReverseIterator`: from `prefix ++
start` up to `prefix ++ end`, or up to `cpIncr(prefix)` for a nil end. -/
def prefixRange (start «end» : Option Bytes) : Go (Option Bytes × Option Bytes) := do
  let pStart := cp pfx ++ start.getD []
  let pEnd ← match «end» with
    | none => cpIncr pfx
    | some e => pure (some (cp pfx ++ e))
  pure (some pStart, pEnd)

/-- `PrefixDB.Iterator` and `PrefixDB.ReverseIterator`, which differ only in
the backend iterator `open_` they open. -/
def prefixIterator (open_ : σ → Option Bytes → Option Bytes → Go (List (Bytes × Bytes)))
    (s : σ) (start «end» : Option Bytes) : Go (List (Bytes × Bytes)) :=
  if hasEmptyBound start «end» then throwErr .errKeyEmpty
  else do
    let r ← prefixRange pfx start «end»
    let itr ← open_ s r.1 r.2
    pure (prefixIteratorEntries pfx start «end» itr)

/-- `PrefixDB.GetAppend`: forwarded to the wrapped database when it has
`GetAppend`, otherwise `Get` copied into `dst` with `append(dst[:0], value...)`. -/
def prefixGetAppend (s : σ) (key : Bytes) (dst : Option Bytes) : Go (Option Bytes) :=
  if key.length = 0 then throwErr .errKeyEmpty
  else
    let pkey := prefixed pfx key
    match D.getAppend with
    | some getter => getter s pkey dst
    | none =>
      match D.get s pkey with
      | .error e => .error e
      | .ok none => .ok none
      | .ok (some value) => .ok (appendBytes (sliceToZero dst) value)

/-- `PrefixDB.Set` and `PrefixDB.SetSync`, forwarding to the wrapped `write`. -/
def prefixSet (write : σ → Bytes → Option Bytes → Go Unit × σ) (s : σ) (key : Bytes)
    (value : Option Bytes) : Go Unit × σ :=
  if key.length = 0 then (throwErr .errKeyEmpty, s)
  else if value = none then (throwErr .errValueNil, s)
  else write s (prefixed pfx key) value

/-- `PrefixDB.Delete` and `PrefixDB.DeleteSync`. -/
def prefixDelete (write : σ → Bytes → Go Unit × σ) (s : σ) (key : Bytes) : Go Unit × σ :=
  if key.length = 0 then (throwErr .errKeyEmpty, s) else write s (prefixed pfx key)

/-- `prefixDBBatch.Set`. -/
def prefixBatchSet (b : β) (key : Bytes) (value : Option Bytes) : Go Unit × β :=
  if key.length = 0 then (throwErr .errKeyEmpty, b)
  else if value = none then (throwErr .errValueNil, b)
  else D.batchSet b (cp pfx ++ key) value

/-- `prefixDBBatch.Delete`. -/
def prefixBatchDelete (b : β) (key : Bytes) : Go Unit × β :=
  if key.length = 0 then (throwErr .errKeyEmpty, b) else D.batchDelete b (cp pfx ++ key)

/-- `PrefixDB`, with `prefixDBBatch` as its batches: a batch is the wrapped
database's batch (its `source`), and `Write`, `WriteSync`, `Close` and
`GetByteSize` forward to it. -/
def prefixDB : DB σ β where
  get s key := if key.length = 0 then throwErr .errKeyEmpty else D.get s (prefixed pfx key)
  has s key := if key.length = 0 then throwErr .errKeyEmpty else D.has s (prefixed pfx key)
  set := prefixSet pfx D.set
  setSync := prefixSet pfx D.setSync
  delete := prefixDelete pfx D.delete
  deleteSync := prefixDelete pfx D.deleteSync
  iterator := prefixIterator pfx D.iterator
  reverseIterator := prefixIterator pfx D.reverseIterator
  newBatch := D.newBatch
  newBatchWithSize := D.newBatchWithSize
  batchSet := prefixBatchSet D pfx
  batchDelete := prefixBatchDelete D pfx
  batchWrite := D.batchWrite
  batchWriteSync := D.batchWriteSync
  batchClose := D.batchClose
  batchGetByteSize := D.batchGetByteSize
  getAppend := some (prefixGetAppend D pfx)

end PrefixDB

-- With the fallback copy, a stored empty value read into a nil `dst` comes
-- back nil, the documented result for a missing key, while `Get` returns it.
theorem prefixGetAppend_empty_value_reads_missing :
    prefixGetAppend mapDB [1] ((SortedMap.empty : KVMap).set [1, 2] []) [2] none = .ok none ∧
      (prefixDB mapDB [1]).get ((SortedMap.empty : KVMap).set [1, 2] []) [2] = .ok (some []) := by
  decide

-- The empty prefix: a nil end reaches `cpIncr` of the empty slice, and a nil
-- start becomes the empty start key the backend refuses.
theorem prefixDB_iterator_empty_prefix_fails :
    (prefixDB mapDB []).iterator (SortedMap.empty : KVMap) none none =
        .error (.panic "cpIncr expects non-zero bz length") ∧
      (prefixDB mapDB []).iterator (SortedMap.empty : KVMap) none (some [5]) =
        throwErr .errKeyEmpty := by
  decide

/-- `IteratePrefix`: the backend iterator over `[prefix, cpIncr(prefix))`, or
over everything for the empty prefix, returned as it is. -/
def iteratePrefix {σ β : Type} (D : DB σ β) (s : σ) (pfx : Bytes) : Go (List (Bytes × Bytes)) :=
  if pfx.length = 0 then D.iterator s none none
  else do
    let «end» ← cpIncr pfx
    D.iterator s (some (cp pfx)) «end»

-- For a prefix ending in 0xFF, `cpIncr` carries into a shorter key's range:
-- `[0x01 0xFF, 0x02 0x00)` holds the key `0x02`, which `IteratePrefix` yields.
theorem iteratePrefix_yields_outside_prefix :
    iteratePrefix mapDB ((SortedMap.empty : KVMap).set [2] [7]) [1, 255] = .ok [([2], [7])] ∧
      hasPrefix [2] [1, 255] = false := by
  decide

theorem prefixRange_some (pfx : Bytes) (start : Option Bytes) (e : Bytes) :
    prefixRange pfx start (some e) = .ok (some (pfx ++ start.getD []), some (pfx ++ e)) := rfl

theorem prefixRange_none (pfx : Bytes) (start : Option Bytes) :
    prefixRange pfx start none = (cpIncr pfx).map fun q => (some (pfx ++ start.getD []), q) := by
  unfold prefixRange
  cases cpIncr pfx <;> rfl

/-! ## What the prefix iterator yields -/

theorem seekToPrefixLoop_cons (pfx key value : Bytes) (rest : List (Bytes × Bytes)) :
    seekToPrefixLoop pfx ((key, value) :: rest) =
      if inNamespace pfx key then (true, (key, value) :: rest)
      else seekToPrefixLoop pfx rest := by
  simp only [seekToPrefixLoop, inNamespace]
  by_cases h : key = pfx
  · simp [h]
  · by_cases h' : hasPrefix key pfx = true <;> simp [h, h']

/-- The seek stops exactly at the next key of the namespace. -/
theorem seekToPrefixLoop_spec (pfx : Bytes) (l : List (Bytes × Bytes)) :
    (seekToPrefixLoop pfx l = (false, []) ∧ stripNamespace pfx l = []) ∨
      ∃ e rest, seekToPrefixLoop pfx l = (true, e :: rest) ∧ inNamespace pfx e.1 = true ∧
        stripNamespace pfx l = stripNamespace pfx (e :: rest) := by
  induction l with
  | nil => exact Or.inl ⟨rfl, rfl⟩
  | cons e l ih =>
    obtain ⟨key, value⟩ := e
    rw [seekToPrefixLoop_cons]
    by_cases h : inNamespace pfx key = true
    · exact Or.inr ⟨(key, value), l, by simp [h], h, rfl⟩
    · -- the key is skipped, and contributes nothing to the namespace
      have hskip : stripNamespace pfx ((key, value) :: l) = stripNamespace pfx l := by
        simp [stripNamespace, h]
      simp only [h, if_false, Bool.false_eq_true]
      rw [hskip]
      exact ih

theorem stripNamespace_cons_of_inNamespace {pfx key value : Bytes}
    (h : inNamespace pfx key = true) (rest : List (Bytes × Bytes)) :
    stripNamespace pfx ((key, value) :: rest) =
      (key.drop pfx.length, value) :: stripNamespace pfx rest := by
  simp [stripNamespace, h]

theorem take_eq_of_inNamespace {pfx key : Bytes} (h : inNamespace pfx key = true) :
    pfx.length ≤ key.length ∧ key.take pfx.length = pfx := by
  simp only [inNamespace, Bool.and_eq_true, bne_iff_ne, ne_eq, hasPrefix_iff] at h
  obtain ⟨t, rfl⟩ := h.2
  simp

/-- `Valid` at a valid iterator with no error, resting on a key of the
namespace: the prefix check passes and nothing is recorded. -/
theorem valid_of_inNamespace {itr : PrefixDBIterator} (hvalid : itr.valid = true)
    (herr : itr.err = none) {e : Bytes × Bytes} {rest : List (Bytes × Bytes)}
    (hsrc : itr.source = e :: rest) (he : inNamespace itr.pfx e.1 = true) :
    prefixIterOps.valid itr = (true, itr) := by
  obtain ⟨hlen, htake⟩ := take_eq_of_inNamespace he
  simp [prefixIterOps, PrefixDBIterator.Valid, hvalid, herr, hsrc, htake, not_lt.mpr hlen]

/-- The invariant of a prefix iterator that still has `l` to yield: either
it rests on a key of the namespace (or on an exhausted source) and `l` is the
namespace part of its source, or it is invalid and `l` is empty. -/
def PrefixIterYields (pfx : Bytes) (itr : PrefixDBIterator) (l : List (Bytes × Bytes)) : Prop :=
  itr.pfx = pfx ∧ itr.err = none ∧
    ((itr.valid = true ∧ (∀ e ∈ itr.source.head?, inNamespace pfx e.1 = true) ∧
        l = stripNamespace pfx itr.source) ∨
      (itr.valid = false ∧ l = []))

/-- The state a seek leaves, from a valid iterator, satisfies the invariant. -/
theorem prefixIterYields_seek {pfx : Bytes} (itr : PrefixDBIterator) (hpfx : itr.pfx = pfx)
    (herr : itr.err = none) (hvalid : itr.valid = true) :
    PrefixIterYields pfx
      (if itr.seekToPrefix.1 then itr.seekToPrefix.2
        else { itr.seekToPrefix.2 with valid := false })
      (stripNamespace pfx itr.source) := by
  subst hpfx
  unfold PrefixDBIterator.seekToPrefix
  rcases seekToPrefixLoop_spec itr.pfx itr.source with ⟨hs, hnil⟩ | ⟨e, rest, hs, he, hstrip⟩
  · -- nothing left in the namespace: the iterator is made invalid
    rw [hs, hnil]
    exact ⟨rfl, herr, Or.inr ⟨rfl, rfl⟩⟩
  · -- the seek stopped on a key of the namespace and only moved the source
    simp only [hs, if_true]
    exact ⟨rfl, herr, Or.inl ⟨hvalid, by simpa using he, hstrip⟩⟩

theorem prefixIterYields_nil {pfx : Bytes} {itr : PrefixDBIterator}
    (h : PrefixIterYields pfx itr []) : (prefixIterOps.valid itr).1 = false := by
  obtain ⟨-, -, ⟨hvalid, hhead, hstrip⟩ | ⟨hvalid, -⟩⟩ := h
  · -- a key of the namespace at the head would be yielded, so the source is empty
    cases hsrc : itr.source with
    | nil => simp [prefixIterOps, PrefixDBIterator.Valid, hsrc]
    | cons e rest =>
      have he := hhead e (by simp [hsrc])
      obtain ⟨key, value⟩ := e
      rw [hsrc, stripNamespace_cons_of_inNamespace he] at hstrip
      cases hstrip
  · simp [prefixIterOps, PrefixDBIterator.Valid, hvalid]

theorem prefixIterYields_cons {pfx : Bytes} {itr : PrefixDBIterator}
    {a : Bytes × Bytes} {l : List (Bytes × Bytes)} (h : PrefixIterYields pfx itr (a :: l)) :
    ∃ itr', prefixIterOps.valid itr = (true, itr') ∧ prefixIterOps.current itr' = a ∧
      PrefixIterYields pfx (prefixIterOps.next itr') l := by
  obtain ⟨hpfx, herr, ⟨hvalid, hhead, hstrip⟩ | ⟨-, hnil⟩⟩ := h
  · cases hsrc : itr.source with
    | nil => rw [hsrc] at hstrip; cases hstrip
    | cons e rest =>
      have he := hhead e (by simp [hsrc])
      obtain ⟨key, value⟩ := e
      rw [hsrc, stripNamespace_cons_of_inNamespace he] at hstrip
      obtain ⟨rfl, rfl⟩ := List.cons.inj hstrip
      -- the head key carries the prefix, so `Valid` accepts without recording an error
      have hv := valid_of_inNamespace hvalid herr hsrc (hpfx ▸ he)
      refine ⟨itr, hv, ?_, ?_⟩
      · simp [prefixIterOps, PrefixDBIterator.Key, PrefixDBIterator.Value, hsrc, hpfx]
      · have := prefixIterYields_seek ({ itr with source := itr.source.tail } : PrefixDBIterator)
          hpfx herr hvalid
        simpa [prefixIterOps, PrefixDBIterator.Next, hsrc] using this
  · cases hnil

/-- An iterator satisfying the invariant yields the entries it names. -/
theorem yields_of_prefixIterYields {pfx : Bytes} {itr : PrefixDBIterator}
    {l : List (Bytes × Bytes)} (h : PrefixIterYields pfx itr l) : prefixIterOps.Yields itr l :=
  IterOps.yields_of_simulation (PrefixIterYields pfx) (fun _ hs => prefixIterYields_nil hs)
    (fun _ _ _ hs => prefixIterYields_cons hs) h

/-- A new prefix iterator yields the namespace part of its source, in source
order, with the prefix removed; this holds for any source, sorted or not. -/
theorem yields_newPrefixIterator (pfx : Bytes) (start «end» : Option Bytes)
    (source : List (Bytes × Bytes)) :
    prefixIterOps.Yields (newPrefixIterator pfx start «end» source)
      (stripNamespace pfx source) :=
  yields_of_prefixIterYields
    (prefixIterYields_seek ⟨pfx, start, «end», source, true, none⟩ rfl rfl rfl)

theorem prefixIteratorEntries_eq (pfx : Bytes) (start «end» : Option Bytes)
    (source : List (Bytes × Bytes)) :
    prefixIteratorEntries pfx start «end» source = stripNamespace pfx source := by
  unfold prefixIteratorEntries
  refine (yields_newPrefixIterator pfx start «end» source).drain_eq _ ?_
  have : (stripNamespace pfx source).length ≤ source.length := List.length_filterMap_le _ _
  omega

/-! ## A run of the prefix iterator -/

/-- The keys `seekToPrefix` skips are those outside the namespace: the prefix
itself, and keys without it. -/
theorem skip_eq_not_inNamespace (pfx key : Bytes) :
    (key == pfx || !hasPrefix key pfx) = !inNamespace pfx key := by
  unfold inNamespace bne
  cases key == pfx <;> cases hasPrefix key pfx <;> rfl

/-- The loop of `seekToPrefix` consumes the leading entries outside the
namespace and reports whether an entry inside it is left. -/
theorem seekToPrefixLoop_eq (pfx : Bytes) : ∀ l : List (Bytes × Bytes),
    seekToPrefixLoop pfx l =
      (l.any fun e => inNamespace pfx e.1, l.dropWhile fun e => !inNamespace pfx e.1)
  | [] => rfl
  | (key, value) :: rest => by
    rw [seekToPrefixLoop_cons]
    by_cases h : inNamespace pfx key = true
    · simp [h]
    · simp [h, seekToPrefixLoop_eq pfx rest]

theorem stripNamespace_eq_map_filter (pfx : Bytes) (l : List (Bytes × Bytes)) :
    stripNamespace pfx l =
      (l.filter fun e => inNamespace pfx e.1).map fun e => (e.1.drop pfx.length, e.2) := by
  induction l with
  | nil => rfl
  | cons e l ih =>
    by_cases h : inNamespace pfx e.1 = true
    · simp only [List.filter_cons, h, if_true, List.map_cons, ← ih]
      simp [stripNamespace, h]
    · simp only [List.filter_cons, h, Bool.false_eq_true, if_false, ← ih]
      simp [stripNamespace, h]

/-- What holds at every state a run of the prefix iterator over `L` reaches:
no error recorded, a source that is what is left of `L` and rests on a key of
the namespace, and an exhausted source once the iterator is marked invalid. -/
structure PrefixRunInv (pfx : Bytes) (L : List (Bytes × Bytes)) (itr : PrefixDBIterator) :
    Prop where
  pfx_eq : itr.pfx = pfx
  err : itr.err = none
  suffix : itr.source <:+ L
  head : ∀ e ∈ itr.source.head?, inNamespace pfx e.1 = true
  exhausted : itr.valid = false → itr.source = []

/-- On such a state `Valid` records nothing and answers whether the source has
an entry left. -/
theorem PrefixRunInv.valid {pfx : Bytes} {L : List (Bytes × Bytes)} {itr : PrefixDBIterator}
    (h : PrefixRunInv pfx L itr) : prefixIterOps.valid itr = (!itr.source.isEmpty, itr) := by
  cases hv : itr.valid
  · -- marked invalid, on an exhausted source
    simp [prefixIterOps, PrefixDBIterator.Valid, hv, h.exhausted hv]
  · cases hsrc : itr.source with
    | nil => simp [prefixIterOps, PrefixDBIterator.Valid, hsrc]
    | cons e rest =>
      -- the current key carries the prefix, so the check in `Valid` passes
      rw [valid_of_inNamespace hv h.err hsrc (h.pfx_eq ▸ h.head e (by simp [hsrc]))]
      rfl

/-- A seek from a valid iterator over what is left of `L`, as the constructor
and `Next` make it, leaves a state of the run invariant. -/
theorem prefixRunInv_seek {pfx : Bytes} {L : List (Bytes × Bytes)} (itr : PrefixDBIterator)
    (hpfx : itr.pfx = pfx) (herr : itr.err = none) (hvalid : itr.valid = true)
    (hsuffix : itr.source <:+ L) :
    PrefixRunInv pfx L
      (if itr.seekToPrefix.1 then itr.seekToPrefix.2
        else { itr.seekToPrefix.2 with valid := false }) := by
  subst hpfx
  by_cases hany : (itr.source.any fun e => inNamespace itr.pfx e.1) = true
  · -- stopped on a key of the namespace, still valid
    simp only [PrefixDBIterator.seekToPrefix, seekToPrefixLoop_eq, hany, if_true]
    refine ⟨rfl, herr, (List.dropWhile_suffix _).trans hsuffix, ?_, fun h => by simp [hvalid] at h⟩
    intro e he
    have hhead := List.head?_dropWhile_not (fun e => !inNamespace itr.pfx e.1) itr.source
    rw [Option.mem_def.mp he] at hhead
    simpa using hhead
  · -- nothing of the namespace is left: the source is exhausted, and the iterator invalid
    have hnone : (itr.source.any fun e => inNamespace itr.pfx e.1) = false := by
      simpa using hany
    have hnil : (itr.source.dropWhile fun e => !inNamespace itr.pfx e.1) = [] := by
      rw [List.dropWhile_eq_nil_iff]
      intro x hx
      have hx' := List.any_eq_false.mp hnone x hx
      simpa using hx'
    simp only [PrefixDBIterator.seekToPrefix, seekToPrefixLoop_eq, hany, hnil, Bool.false_eq_true,
      if_false]
    exact ⟨rfl, herr, List.nil_suffix, by simp, fun _ => rfl⟩

/-- Every state a caller reaches from a new prefix iterator over `L` keeps the
run invariant. -/
theorem prefixRunInv_of_reaches {pfx : Bytes} {start «end» : Option Bytes}
    {L : List (Bytes × Bytes)} {t : PrefixDBIterator}
    (h : prefixIterOps.Reaches (newPrefixIterator pfx start «end» L) t) : PrefixRunInv pfx L t := by
  refine IterOps.Reaches.invariant (PrefixRunInv pfx L) ?_ ?_ ?_ h
  · exact prefixRunInv_seek ⟨pfx, start, «end», L, true, none⟩ rfl rfl rfl (List.suffix_refl L)
  · -- `Valid` changes nothing on such a state
    intro t ht
    rw [ht.valid]
    exact ht
  · -- `Next` at a valid position: the source moves on, then a seek
    intro t t' ht hv
    rw [ht.valid] at hv
    obtain ⟨hne, rfl⟩ := Prod.mk.inj hv
    have hvalid : t.valid = true := by
      cases hval : t.valid
      · simp [ht.exhausted hval] at hne
      · rfl
    exact prefixRunInv_seek { t with source := t.source.tail } ht.pfx_eq ht.err hvalid
      ((List.tail_suffix _).trans ht.suffix)

/-- `seekToPrefix` consumes the leading entries whose key is the prefix or
lacks it, and reports whether it stopped on a key that has the prefix as a
proper prefix. Over a whole run from `newPrefixIterator` on any source, sorted
or not, the iterator yields the source's entries of the namespace, in order,
with the prefix removed; and at every state a caller reaches, no error is
recorded, the source is what is left of `L`, and `Valid` holds exactly on a
key of the namespace. -/
theorem prefixDBIterator_run (pfx : Bytes) (start «end» : Option Bytes)
    (L : List (Bytes × Bytes)) :
    (∀ itr : PrefixDBIterator, itr.seekToPrefix =
        (itr.source.any fun e => inNamespace itr.pfx e.1,
          { itr with
            source := itr.source.dropWhile fun e => e.1 == itr.pfx || !hasPrefix e.1 itr.pfx })) ∧
      prefixIterOps.Yields (newPrefixIterator pfx start «end» L)
        ((L.filter fun e => inNamespace pfx e.1).map fun e => (e.1.drop pfx.length, e.2)) ∧
      ∀ t, prefixIterOps.Reaches (newPrefixIterator pfx start «end» L) t →
        t.err = none ∧ t.source <:+ L ∧
          ((prefixIterOps.valid t).1 = true ↔ ∃ e ∈ t.source.head?, inNamespace pfx e.1 = true) := by
  refine ⟨fun itr => ?_, ?_, fun t ht => ?_⟩
  · simp only [PrefixDBIterator.seekToPrefix, seekToPrefixLoop_eq, skip_eq_not_inNamespace]
  · rw [← stripNamespace_eq_map_filter]
    exact yields_newPrefixIterator pfx start «end» L
  · have hinv := prefixRunInv_of_reaches ht
    refine ⟨hinv.err, hinv.suffix, ?_⟩
    rw [hinv.valid]
    cases hsrc : t.source with
    | nil => simp
    | cons e rest => simpa using hinv.head e (by simp [hsrc])

end CosmosDb
