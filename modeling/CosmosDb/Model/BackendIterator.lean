import CosmosDb.Model.DB
import CosmosDb.Lib.Iterator
import CosmosDb.Lib.Cursor

/-!
# CosmosDb — the goleveldb, RocksDB and Pebble iterator adapters

`goleveldb_iterator.go`, `rocksdb_iterator.go` and `pebble.go` wrap a
backend's cursor (`First`, `Last`, `Seek`, `Next`, `Prev`, `Valid`, `Key`,
`Value`, `Error`) into the repository's `Iterator`. The backend packages are
not part of the repository: a cursor is the parameter `ops : CursorOps C`,
and `IsEntryCursor ops abs` states the usual semantics — through `abs`, the
cursor is a position in a fixed sorted list of entries (`ListCursor`), and
`Seek(k)` lands on the first key at least `k`.

The three adapters have the same fields and the same `Valid`, `Key`,
`Value` and `Next`; they differ in how they position the cursor:
goleveldb and RocksDB seek (`seekPosition`), Pebble relies on the caller's
`First` or `Last`. `Valid` checks only one bound in each direction and
relies on that starting position for the other.
-/

namespace CosmosDb

/-- The calls the adapters make on a backend cursor. -/
structure CursorOps (C : Type) where
  first : C → C
  last : C → C
  seek : C → Bytes → C
  next : C → C
  prev : C → C
  valid : C → Bool
  key : C → Bytes
  value : C → Bytes
  error : C → Option DbError

/-- The usual semantics of a backend cursor, through `abs`: a position in a
fixed list of entries; `Seek(k)` goes to the first key at least `k`; no I/O
error is reported. -/
structure IsEntryCursor {C : Type} (ops : CursorOps C) (abs : C → ListCursor (Bytes × Bytes)) :
    Prop where
  first : ∀ c, abs (ops.first c) = (abs c).first
  last : ∀ c, abs (ops.last c) = (abs c).last
  seek : ∀ c k, abs (ops.seek c k) = (abs c).seek fun e => decide (k ≤ e.1)
  next : ∀ c, abs (ops.next c) = (abs c).next
  prev : ∀ c, abs (ops.prev c) = (abs c).prev
  valid : ∀ c, ops.valid c = (abs c).valid
  key : ∀ c e, (abs c).current = some e → ops.key c = e.1
  value : ∀ c e, (abs c).current = some e → ops.value c = e.2
  error : ∀ c, ops.error c = none

/-- A list cursor as a backend cursor. -/
def listCursorOps : CursorOps (ListCursor (Bytes × Bytes)) where
  first c := c.first
  last c := c.last
  seek c k := c.seek fun e => decide (k ≤ e.1)
  next c := c.next
  prev c := c.prev
  valid c := c.valid
  key c := (c.current.getD ([], [])).1
  value c := (c.current.getD ([], [])).2
  error _ := none

theorem listCursorOps_isEntryCursor : IsEntryCursor listCursorOps id where
  first _ := rfl
  last _ := rfl
  seek _ _ := rfl
  next _ := rfl
  prev _ := rfl
  valid _ := rfl
  key c _ h := by
    rw [id] at h
    simp [listCursorOps, h]
  value c _ h := by
    rw [id] at h
    simp [listCursorOps, h]
  error _ := rfl

/-! ## The adapters -/

/-- `goLevelDBIterator`, `rocksDBIterator` and `pebbleDBIterator`, which have
these same fields. -/
structure BackendIterator (C : Type) where
  source : C
  start : Option Bytes
  «end» : Option Bytes
  isReverse : Bool
  isInvalid : Bool

namespace BackendIterator

variable {C : Type} (ops : CursorOps C)

/-- `Valid`, the same in the three adapters: once invalid, forever invalid;
otherwise invalid on a source error, an exhausted source, or a key past the
bound of the iterator's direction. -/
def Valid (itr : BackendIterator C) : Bool × BackendIterator C :=
  if itr.isInvalid then (false, itr)
  else if (ops.error itr.source).isSome then (false, { itr with isInvalid := true })
  else if !ops.valid itr.source then (false, { itr with isInvalid := true })
  else
    let key := ops.key itr.source
    if itr.isReverse then
      if itr.start.any fun s => decide (key < s) then (false, { itr with isInvalid := true })
      else (true, itr)
    else
      if itr.«end».any fun e => decide (e ≤ key) then (false, { itr with isInvalid := true })
      else (true, itr)

/-- `Key`, at a valid position: a copy of the source's key. -/
def Key (itr : BackendIterator C) : Bytes := cp (ops.key itr.source)

/-- `Value`, at a valid position. -/
def Value (itr : BackendIterator C) : Bytes := cp (ops.value itr.source)

/-- `Next`, at a valid position: the source moves in the iterator's direction. -/
def Next (itr : BackendIterator C) : BackendIterator C :=
  if itr.isReverse then { itr with source := ops.prev itr.source }
  else { itr with source := ops.next itr.source }

end BackendIterator

/-- The adapters as iterators. -/
def backendIterOps {C : Type} (ops : CursorOps C) : IterOps (BackendIterator C) (Bytes × Bytes) where
  valid := BackendIterator.Valid ops
  current itr := (BackendIterator.Key ops itr, BackendIterator.Value ops itr)
  next := BackendIterator.Next ops

section Constructors

variable {C : Type} (ops : CursorOps C)

/-- The positioning of `newGoLevelDBIterator` and `newRocksDBIterator`.
Forward: the first key at least `start`. Reverse with an `end`: seek `end`
and step back from the key found, the "end or after" key, or go to the
last key when there is none. -/
def seekPosition (source : C) (start «end» : Option Bytes) (isReverse : Bool) : C :=
  if isReverse then
    match «end» with
    | none => ops.last source
    | some e =>
      let s := ops.seek source e
      if ops.valid s then
        if e ≤ ops.key s then ops.prev s else s
      else ops.last s
  else
    match start with
    | none => ops.first source
    | some k => ops.seek source k

/-- `newGoLevelDBIterator`. -/
def newGoLevelDBIterator (source : C) (start «end» : Option Bytes) (isReverse : Bool) :
    BackendIterator C :=
  ⟨seekPosition ops source start «end» isReverse, start, «end», isReverse, false⟩

/-- `newRocksDBIterator`. -/
def newRocksDBIterator (source : C) (start «end» : Option Bytes) (isReverse : Bool) :
    BackendIterator C :=
  ⟨seekPosition ops source start «end» isReverse, start, «end», isReverse, false⟩

/-- `newPebbleDBIterator`: it positions the source only for an open bound. -/
def newPebbleDBIterator (source : C) (start «end» : Option Bytes) (isReverse : Bool) :
    BackendIterator C :=
  let positioned :=
    if isReverse then (if «end» = none then ops.last source else source)
    else (if start = none then ops.first source else source)
  ⟨positioned, start, «end», isReverse, false⟩

/-- `PebbleDB.Iterator` and `PebbleDB.ReverseIterator`, over the iterator
`NewIter` returned for `LowerBound = start`, `UpperBound = end`: `First` or
`Last`, then the adapter. -/
def pebbleDBNewIterator (source : C) (start «end» : Option Bytes) (isReverse : Bool) :
    Go (BackendIterator C) :=
  if hasEmptyBound start «end» then throwErr .errKeyEmpty
  else .ok (newPebbleDBIterator ops (if isReverse then ops.last source else ops.first source)
    start «end» isReverse)

/-- `GoLevelDB.Iterator` and `GoLevelDB.ReverseIterator`, over the iterator
`NewIterator` returned for `util.Range{Start: start, Limit: end}`. -/
def goLevelDBNewIterator (source : C) (start «end» : Option Bytes) (isReverse : Bool) :
    Go (BackendIterator C) :=
  if hasEmptyBound start «end» then throwErr .errKeyEmpty
  else .ok (newGoLevelDBIterator ops source start «end» isReverse)

end Constructors

end CosmosDb
