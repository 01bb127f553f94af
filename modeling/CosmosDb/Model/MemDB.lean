import CosmosDb.Model.DB
import CosmosDb.Lib.Iterator

/-!
# CosmosDb — `MemDB`

`memdb.go`, `memdb_batch.go` and `memdb_iterator.go`: an in-memory database
over a `google/btree` B-tree of items ordered by key.

The B-tree is not part of the repository. It is the parameter `bt : BTreeOps T`
(a tree has type `T`), and `IsOrderedBTree bt contents` states the behaviour
the package documents: the tree holds the sorted map `contents t`, writes
change it as a map, and each traversal calls its visitor on the items of its
range in order until the visitor answers false. `sortedMapBTree` is such a
tree, the map itself.

The iterator's goroutine sends the items its visitor accepts into a channel
and the iterator reads them back; with no concurrent writer (the iterator
holds the read lock) the channel carries what the traversal sends, so here
the channel is the list of those items. `MemDBGoroutine` models the goroutine,
the bounded channel and `Close`'s cancellation, and shows that this view of
the channel is what every interleaving amounts to.
-/

namespace CosmosDb

/-! ## The B-tree -/

/-- The operations of `google/btree` that `MemDB` uses, on a tree of type `T`
whose items are key/value pairs. A traversal takes the visitor and the
visitor's state. -/
structure BTreeOps (T : Type) where
  new : Nat → T
  replaceOrInsert : T → Bytes × Bytes → T
  delete : T → Bytes → T
  get : T → Bytes → Option (Bytes × Bytes)
  has : T → Bytes → Bool
  ascend : {S : Type} → T → (S → Bytes × Bytes → Bool × S) → S → S
  descend : {S : Type} → T → (S → Bytes × Bytes → Bool × S) → S → S
  ascendGreaterOrEqual : {S : Type} → T → Bytes → (S → Bytes × Bytes → Bool × S) → S → S
  ascendRange : {S : Type} → T → Bytes → Bytes → (S → Bytes × Bytes → Bool × S) → S → S
  descendLessOrEqual : {S : Type} → T → Bytes → (S → Bytes × Bytes → Bool × S) → S → S

/-- The documented behaviour of `google/btree` for items ordered by key:
`New` is empty, `ReplaceOrInsert` and `Delete` write the map, `Get` and `Has`
look a key up, and each traversal visits its range (`[pivot, last]`,
`[greaterOrEqual, lessThan)`, `[pivot, first]`) in its direction. -/
structure IsOrderedBTree {T : Type} (bt : BTreeOps T) (contents : T → KVMap) : Prop where
  new : ∀ degree, contents (bt.new degree) = SortedMap.empty
  replaceOrInsert : ∀ t k v, contents (bt.replaceOrInsert t (k, v)) = (contents t).set k v
  delete : ∀ t k, contents (bt.delete t k) = (contents t).delete k
  get : ∀ t k, bt.get t k = ((contents t).get k).map fun v => (k, v)
  has : ∀ t k, bt.has t k = ((contents t).get k).isSome
  ascend : ∀ {S : Type} t (f : S → Bytes × Bytes → Bool × S) s,
    bt.ascend t f s = visit f s (contents t).entries
  descend : ∀ {S : Type} t (f : S → Bytes × Bytes → Bool × S) s,
    bt.descend t f s = visit f s (contents t).entries.reverse
  ascendGreaterOrEqual : ∀ {S : Type} t pivot (f : S → Bytes × Bytes → Bool × S) s,
    bt.ascendGreaterOrEqual t pivot f s =
      visit f s ((contents t).entries.filter fun e => decide (pivot ≤ e.1))
  ascendRange : ∀ {S : Type} t ge lt (f : S → Bytes × Bytes → Bool × S) s,
    bt.ascendRange t ge lt f s =
      visit f s ((contents t).entries.filter fun e => decide (ge ≤ e.1 ∧ e.1 < lt))
  descendLessOrEqual : ∀ {S : Type} t pivot (f : S → Bytes × Bytes → Bool × S) s,
    bt.descendLessOrEqual t pivot f s =
      visit f s ((contents t).entries.filter fun e => decide (e.1 ≤ pivot)).reverse

/-- A B-tree that is the sorted map itself. -/
def sortedMapBTree : BTreeOps KVMap where
  new _ := SortedMap.empty
  replaceOrInsert t i := t.set i.1 i.2
  delete t k := t.delete k
  get t k := (t.get k).map fun v => (k, v)
  has t k := (t.get k).isSome
  ascend t f s := visit f s t.entries
  descend t f s := visit f s t.entries.reverse
  ascendGreaterOrEqual t pivot f s := visit f s (t.entries.filter fun e => decide (pivot ≤ e.1))
  ascendRange t ge lt f s := visit f s (t.entries.filter fun e => decide (ge ≤ e.1 ∧ e.1 < lt))
  descendLessOrEqual t pivot f s :=
    visit f s (t.entries.filter fun e => decide (e.1 ≤ pivot)).reverse

theorem sortedMapBTree_isOrdered : IsOrderedBTree sortedMapBTree id where
  new _ := rfl
  replaceOrInsert _ _ _ := rfl
  delete _ _ := rfl
  get _ _ := rfl
  has _ _ := rfl
  ascend _ _ _ := rfl
  descend _ _ _ := rfl
  ascendGreaterOrEqual _ _ _ _ := rfl
  ascendRange _ _ _ _ _ := rfl
  descendLessOrEqual _ _ _ _ := rfl

/-! ## `memDBIterator` -/

/-- The variables the traversal goroutine's visitor closes over, and what it
has sent into the channel so far. -/
structure VisitorState where
  skipEqual : Option Bytes
  abortLessThan : Option Bytes
  sent : List (Bytes × Bytes)

/-- The goroutine's `visitor`: skip the item equal to `skipEqual` once, stop
at a key below `abortLessThan`, send everything else. -/
def memDBVisitor (st : VisitorState) (item : Bytes × Bytes) : Bool × VisitorState :=
  if st.skipEqual == some item.1 then (true, { st with skipEqual := none })
  else if st.abortLessThan.any fun a => decide (item.1 < a) then (false, st)
  else (true, { st with sent := st.sent ++ [item] })

/-- What the goroutine sends, by the six cases of its `switch`. The B-tree's
ranges are `(start, end]` going down, so the reverse cases skip `end` and
stop below `start` themselves. A nil `start` is the key nil, which compares as
empty. -/
def memDBTraverse {T : Type} (bt : BTreeOps T) (t : T) (start «end» : Option Bytes)
    (reverse : Bool) : List (Bytes × Bytes) :=
  let st : VisitorState := ⟨none, none, []⟩
  let final :=
    match start, «end», reverse with
    | none, none, false => bt.ascend t memDBVisitor st
    | none, none, true => bt.descend t memDBVisitor st
    | some s, none, false => bt.ascendGreaterOrEqual t s memDBVisitor st
    | _, some e, false => bt.ascendRange t (start.getD []) e memDBVisitor st
    | some s, none, true => bt.descend t memDBVisitor { st with abortLessThan := some s }
    | _, some e, true =>
      bt.descendLessOrEqual t e memDBVisitor { st with skipEqual := some e, abortLessThan := start }
  final.sent

/-- `memDBIterator`: `ch` is what is still in the channel and `item` the
current item, nil when the iterator is invalid. -/
structure MemDBIterator where
  ch : List (Bytes × Bytes)
  item : Option (Bytes × Bytes)
  start : Option Bytes
  «end» : Option Bytes
  useMtx : Bool

/-- Receive from the channel: the next item, or nil once it is drained and closed. -/
def MemDBIterator.receive (ch : List (Bytes × Bytes)) : Option (Bytes × Bytes) × List (Bytes × Bytes) :=
  match ch with
  | item :: rest => (some item, rest)
  | [] => (none, [])

/-- `newMemDBIteratorMtxChoice`: start the traversal and prime the iterator
with the first item. `useMtx` only chooses whether the read lock is taken. -/
def newMemDBIteratorMtxChoice {T : Type} (bt : BTreeOps T) (t : T) (start «end» : Option Bytes)
    (reverse useMtx : Bool) : MemDBIterator :=
  let r := MemDBIterator.receive (memDBTraverse bt t start «end» reverse)
  ⟨r.2, r.1, start, «end», useMtx⟩

namespace MemDBIterator

/-- `Valid`. -/
def Valid (i : MemDBIterator) : Bool × MemDBIterator := (i.item.isSome, i)

/-- `Next`, at a valid position. -/
def Next (i : MemDBIterator) : MemDBIterator :=
  let r := receive i.ch
  { i with ch := r.2, item := r.1 }

/-- `Key`, at a valid position. -/
def Key (i : MemDBIterator) : Bytes := (i.item.getD ([], [])).1

/-- `Value`, at a valid position. -/
def Value (i : MemDBIterator) : Bytes := (i.item.getD ([], [])).2

end MemDBIterator

/-- `memDBIterator` as an iterator. -/
def memIterOps : IterOps MemDBIterator (Bytes × Bytes) where
  valid := MemDBIterator.Valid
  current i := (i.Key, i.Value)
  next := MemDBIterator.Next

/-- Everything an iterator yields; each entry takes one item off the channel. -/
def memDBIteratorEntries (i : MemDBIterator) : List (Bytes × Bytes) :=
  memIterOps.drain (i.ch.length + 2) i

/-! ## `MemDB` and `memDBBatch` -/

/-- `MemDB`; the mutex is not modelled. -/
structure MemDB (T : Type) where
  btree : T

/-- `bTreeDegree`. -/
def bTreeDegree : Nat := 32

/-- `NewMemDB`. -/
def newMemDB {T : Type} (bt : BTreeOps T) : MemDB T := ⟨bt.new bTreeDegree⟩

/-- `opType`. -/
inductive OpType where
  | opTypeSet
  | opTypeDelete
  deriving DecidableEq, Repr

/-- `operation`. A delete records the nil value, which `Write` never reads. -/
structure Operation where
  opType : OpType
  key : Bytes
  value : Bytes
  deriving DecidableEq, Repr

/-- `memDBBatch`: `ops` is nil once the batch is written or closed. The batch's
database is the one it is used with. -/
structure MemDBBatch where
  ops : Option (List Operation)
  size : Nat
  deriving DecidableEq, Repr

/-- `newMemDBBatch`. -/
def newMemDBBatch : MemDBBatch := ⟨some [], 0⟩

namespace MemDB

variable {T : Type} (bt : BTreeOps T)

/-- `set`, without the lock. -/
def set (db : MemDB T) (key value : Bytes) : MemDB T := ⟨bt.replaceOrInsert db.btree (key, value)⟩

/-- `delete`, without the lock. -/
def delete (db : MemDB T) (key : Bytes) : MemDB T := ⟨bt.delete db.btree key⟩

/-- `Set`, and `SetSync`, which calls it. -/
def Set (db : MemDB T) (key : Bytes) (value : Option Bytes) : Go Unit × MemDB T :=
  if key.length = 0 then (throwErr .errKeyEmpty, db)
  else
    match value with
    | none => (throwErr .errValueNil, db)
    | some v => (.ok (), set bt db key v)

/-- `Delete`, and `DeleteSync`, which calls it. -/
def Delete (db : MemDB T) (key : Bytes) : Go Unit × MemDB T :=
  if key.length = 0 then (throwErr .errKeyEmpty, db) else (.ok (), delete bt db key)

/-- The four iterator constructors, which differ in the direction and in
whether the iterator takes the read lock (`Iterator` and `ReverseIterator` go
through `newMemDBIterator`, which takes it). -/
def newIterator (db : MemDB T) (start «end» : Option Bytes) (reverse useMtx : Bool) :
    Go MemDBIterator :=
  if hasEmptyBound start «end» then throwErr .errKeyEmpty
  else .ok (newMemDBIteratorMtxChoice bt db.btree start «end» reverse useMtx)

/-- `Iterator`. -/
def Iterator (db : MemDB T) (start «end» : Option Bytes) : Go MemDBIterator :=
  newIterator bt db start «end» false true

/-- `ReverseIterator`. -/
def ReverseIterator (db : MemDB T) (start «end» : Option Bytes) : Go MemDBIterator :=
  newIterator bt db start «end» true true

/-- `IteratorNoMtx`. -/
def IteratorNoMtx (db : MemDB T) (start «end» : Option Bytes) : Go MemDBIterator :=
  newIterator bt db start «end» false false

/-- `ReverseIteratorNoMtx`. -/
def ReverseIteratorNoMtx (db : MemDB T) (start «end» : Option Bytes) : Go MemDBIterator :=
  newIterator bt db start «end» true false

end MemDB

namespace MemDBBatch

/-- `Set`. -/
def Set (b : MemDBBatch) (key : Bytes) (value : Option Bytes) : Go Unit × MemDBBatch :=
  if key.length = 0 then (throwErr .errKeyEmpty, b)
  else
    match value with
    | none => (throwErr .errValueNil, b)
    | some v =>
      match b.ops with
      | none => (throwErr .errBatchClosed, b)
      | some ops => (.ok (), ⟨some (ops ++ [⟨.opTypeSet, key, v⟩]), b.size + (key.length + v.length)⟩)

/-- `Delete`. -/
def Delete (b : MemDBBatch) (key : Bytes) : Go Unit × MemDBBatch :=
  if key.length = 0 then (throwErr .errKeyEmpty, b)
  else
    match b.ops with
    | none => (throwErr .errBatchClosed, b)
    | some ops => (.ok (), ⟨some (ops ++ [⟨.opTypeDelete, key, []⟩]), b.size + key.length⟩)

/-- `Close`. -/
def Close (_ : MemDBBatch) : MemDBBatch := ⟨none, 0⟩

/-- One pass of `Write`'s loop. -/
def writeOp {T : Type} (bt : BTreeOps T) (db : MemDB T) (op : Operation) : MemDB T :=
  match op.opType with
  | .opTypeSet => db.set bt op.key op.value
  | .opTypeDelete => db.delete bt op.key

/-- `Write`, and `WriteSync`, which calls it: replay the operations under the
lock, then close the batch. -/
def Write {T : Type} (bt : BTreeOps T) (db : MemDB T) (b : MemDBBatch) :
    Go Unit × MemDB T × MemDBBatch :=
  match b.ops with
  | none => (throwErr .errBatchClosed, db, b)
  | some ops => (.ok (), ops.foldl (writeOp bt) db, Close b)

/-- `GetByteSize`. -/
def GetByteSize (b : MemDBBatch) : Go Nat :=
  match b.ops with
  | none => throwErr .errBatchClosed
  | some _ => .ok b.size

end MemDBBatch

/-- `MemDB` with `memDBBatch` as its batches. -/
def memDB {T : Type} (bt : BTreeOps T) : DB (MemDB T) MemDBBatch where
  get db key :=
    if key.length = 0 then throwErr .errKeyEmpty
    else .ok ((bt.get db.btree key).map Prod.snd)
  has db key := if key.length = 0 then throwErr .errKeyEmpty else .ok (bt.has db.btree key)
  set := MemDB.Set bt
  setSync := MemDB.Set bt
  delete := MemDB.Delete bt
  deleteSync := MemDB.Delete bt
  iterator db start «end» := (MemDB.Iterator bt db start «end»).map memDBIteratorEntries
  reverseIterator db start «end» := (MemDB.ReverseIterator bt db start «end»).map memDBIteratorEntries
  newBatch _ := newMemDBBatch
  newBatchWithSize _ _ := newMemDBBatch
  batchSet := MemDBBatch.Set
  batchDelete := MemDBBatch.Delete
  batchWrite := MemDBBatch.Write bt
  batchWriteSync := MemDBBatch.Write bt
  batchClose b := (.ok (), MemDBBatch.Close b)
  batchGetByteSize := MemDBBatch.GetByteSize
  getAppend := none

end CosmosDb
