import CosmosDb.Model.BackendIterator
import CosmosDb.Model.TreeDB

/-!
# CosmosDb — the goleveldb, Pebble and RocksDB backends

`goleveldb.go` with `goleveldb_batch.go`, `pebble.go`, and `rocksdb.go` with
`rocksdb_batch.go` each wrap a third-party engine. Their methods follow one
pattern: check the arguments as `types.go` documents (empty key, nil value,
empty bound, closed batch), call the engine, and report the engine's
not-found error as a missing value. The shared steps are `backendSet`,
`backendDelete`, `backendBatchSet`, `backendBatchDelete`, `backendBatchWrite`
and `backendGetByteSize`. Each backend's methods are these applied to its
own engine calls, and keep bodies of their own where they differ:

* `PebbleDB.Has` and `RocksDB.Has` read through `Get`, and `RocksDB.Has`
  makes no check of its own;
* pebble's batch `Close` can fail, and the batch then stays open;
* `rocksDBBatch.Write` drops the outcome of the `Close` after the write,
  where `WriteSync` returns it.

The engines are parameters (`LevelDBLib`, `PebbleLib`, `RocksDBLib`): the
calls the wrappers make, over an engine state `E` and write batches `WB`.
Each engine's not-found error is `DbError.errKeyNotFound` here. An engine
iterator is a cursor over the entries of the range it was opened on, which
the adapters of `BackendIterator` walk; a method that opens one answers with
what the adapter yields. A batch of these backends is its engine batch, nil
once closed; the write options only choose whether the engine syncs.
-/

namespace CosmosDb

/-- What an adapter over an engine cursor yields, read to its end. Each entry
moves the cursor on, so the cursor's length bounds the reads. -/
def backendIteratorEntries (itr : BackendIterator (ListCursor (Bytes × Bytes))) :
    List (Bytes × Bytes) :=
  (backendIterOps listCursorOps).drain (itr.source.entries.length + 2) itr

/-! ## The methods the backends share -/

section Shared

variable {σ WB : Type}

/-- `Set` and `SetSync`: the key and value checks, then the engine's write. -/
def backendSet (put : σ → Bytes → Bytes → Except DbError Unit × σ) (db : σ) (key : Bytes)
    (value : Option Bytes) : Go Unit × σ :=
  if key.length = 0 then (throwErr .errKeyEmpty, db)
  else
    match value with
    | none => (throwErr .errValueNil, db)
    | some v =>
      let r := put db key v
      (liftLib r.1, r.2)

/-- `Delete` and `DeleteSync`: the key check, then the engine's delete. -/
def backendDelete (delete : σ → Bytes → Except DbError Unit × σ) (db : σ) (key : Bytes) :
    Go Unit × σ :=
  if key.length = 0 then (throwErr .errKeyEmpty, db)
  else
    let r := delete db key
    (liftLib r.1, r.2)

/-- A batch's `Set`: the key and value checks, the closed check, then the
engine batch's put. -/
def backendBatchSet (put : WB → Bytes → Bytes → Except DbError Unit × WB) (batch : Option WB)
    (key : Bytes) (value : Option Bytes) : Go Unit × Option WB :=
  if key.length = 0 then (throwErr .errKeyEmpty, batch)
  else
    match value with
    | none => (throwErr .errValueNil, batch)
    | some v =>
      match batch with
      | none => (throwErr .errBatchClosed, batch)
      | some wb =>
        let r := put wb key v
        (liftLib r.1, some r.2)

/-- A batch's `Delete`: the key check, the closed check, then the engine
batch's delete. -/
def backendBatchDelete (delete : WB → Bytes → Except DbError Unit × WB) (batch : Option WB)
    (key : Bytes) : Go Unit × Option WB :=
  if key.length = 0 then (throwErr .errKeyEmpty, batch)
  else
    match batch with
    | none => (throwErr .errBatchClosed, batch)
    | some wb =>
      let r := delete wb key
      (liftLib r.1, some r.2)

/-- A batch's `Write` or `WriteSync`: the closed check, the engine's write,
then the batch's `Close`, whose outcome is returned. -/
def backendBatchWrite (write : σ → WB → Except DbError Unit × σ)
    (close : Option WB → Go Unit × Option WB) (db : σ) (batch : Option WB) :
    Go Unit × σ × Option WB :=
  match batch with
  | none => (throwErr .errBatchClosed, db, batch)
  | some wb =>
    let r := write db wb
    match r.1 with
    | .error e => (throwErr e, r.2, batch)
    | .ok () =>
      let c := close batch
      (c.1, r.2, c.2)

/-- A batch's `GetByteSize`: the closed check, then the engine batch's size. -/
def backendGetByteSize (size : WB → Nat) (batch : Option WB) : Go Nat :=
  match batch with
  | none => throwErr .errBatchClosed
  | some wb => .ok (size wb)

end Shared

/-! ## goleveldb -/

/-- The calls of goleveldb the wrapper makes, on a `leveldb.DB` with state
`E` and a `leveldb.Batch` `WB`. `newIterator` is `NewIterator` on
`util.Range{Start, Limit}`. -/
structure LevelDBLib (E WB : Type) where
  get : E → Bytes → Except DbError Bytes
  has : E → Bytes → Except DbError Bool
  put : E → Bytes → Bytes → (sync : Bool) → Except DbError Unit × E
  delete : E → Bytes → (sync : Bool) → Except DbError Unit × E
  write : E → WB → (sync : Bool) → Except DbError Unit × E
  newIterator : E → Option Bytes → Option Bytes → ListCursor (Bytes × Bytes)
  newBatch : WB
  makeBatch : Int → WB
  batchPut : WB → Bytes → Bytes → WB
  batchDelete : WB → Bytes → WB
  batchDump : WB → Bytes

namespace GoLevelDB

variable {E WB : Type} (lib : LevelDBLib E WB)

/-- `Get`: a missing key, reported as `ErrNotFound`, reads as nil. -/
def Get (db : E) (key : Bytes) : Go (Option Bytes) :=
  if key.length = 0 then throwErr .errKeyEmpty
  else notFoundAsNil ((lib.get db key).map some)

/-- `Has`. -/
def Has (db : E) (key : Bytes) : Go Bool :=
  if key.length = 0 then throwErr .errKeyEmpty else liftLib (lib.has db key)

/-- `Set`. -/
def Set : E → Bytes → Option Bytes → Go Unit × E := backendSet fun e k v => lib.put e k v false

/-- `SetSync`. -/
def SetSync : E → Bytes → Option Bytes → Go Unit × E := backendSet fun e k v => lib.put e k v true

/-- `Delete`. -/
def Delete : E → Bytes → Go Unit × E := backendDelete fun e k => lib.delete e k false

/-- `DeleteSync`. -/
def DeleteSync : E → Bytes → Go Unit × E := backendDelete fun e k => lib.delete e k true

/-- `Iterator`. -/
def Iterator (db : E) (start «end» : Option Bytes) : Go (List (Bytes × Bytes)) :=
  (goLevelDBNewIterator listCursorOps (lib.newIterator db start «end») start «end» false).map
    backendIteratorEntries

/-- `ReverseIterator`. -/
def ReverseIterator (db : E) (start «end» : Option Bytes) : Go (List (Bytes × Bytes)) :=
  (goLevelDBNewIterator listCursorOps (lib.newIterator db start «end») start «end» true).map
    backendIteratorEntries

/-- `NewBatch`: `newGoLevelDBBatch`, a `new(leveldb.Batch)`. -/
def NewBatch : Option WB := some lib.newBatch

/-- `NewBatchWithSize`: `newGoLevelDBBatchWithSize`, a `leveldb.MakeBatch(size)`. -/
def NewBatchWithSize (size : Int) : Option WB := some (lib.makeBatch size)

end GoLevelDB

namespace GoLevelDBBatch

variable {E WB : Type} (lib : LevelDBLib E WB)

/-- `Set`. -/
def Set : Option WB → Bytes → Option Bytes → Go Unit × Option WB :=
  backendBatchSet fun wb k v => (.ok (), lib.batchPut wb k v)

/-- `Delete`. -/
def Delete : Option WB → Bytes → Go Unit × Option WB :=
  backendBatchDelete fun wb k => (.ok (), lib.batchDelete wb k)

/-- `Close`: the engine batch is reset and dropped; it never fails. -/
def Close (_batch : Option WB) : Go Unit × Option WB := (.ok (), none)

/-- `write`, for `Write` and `WriteSync`. -/
def write (sync : Bool) : E → Option WB → Go Unit × E × Option WB :=
  backendBatchWrite (fun e wb => lib.write e wb sync) Close

/-- `Write`. -/
def Write : E → Option WB → Go Unit × E × Option WB := write lib false

/-- `WriteSync`. -/
def WriteSync : E → Option WB → Go Unit × E × Option WB := write lib true

/-- `GetByteSize`: the length of the batch's `Dump`. -/
def GetByteSize : Option WB → Go Nat := backendGetByteSize fun wb => (lib.batchDump wb).length

end GoLevelDBBatch

/-- `GoLevelDB` through the `DB` interface. -/
def goLevelDB {E WB : Type} (lib : LevelDBLib E WB) : DB E (Option WB) where
  get := GoLevelDB.Get lib
  has := GoLevelDB.Has lib
  set := GoLevelDB.Set lib
  setSync := GoLevelDB.SetSync lib
  delete := GoLevelDB.Delete lib
  deleteSync := GoLevelDB.DeleteSync lib
  iterator := GoLevelDB.Iterator lib
  reverseIterator := GoLevelDB.ReverseIterator lib
  newBatch _ := GoLevelDB.NewBatch lib
  newBatchWithSize _ size := GoLevelDB.NewBatchWithSize lib size
  batchSet := GoLevelDBBatch.Set lib
  batchDelete := GoLevelDBBatch.Delete lib
  batchWrite := GoLevelDBBatch.Write lib
  batchWriteSync := GoLevelDBBatch.WriteSync lib
  batchClose := GoLevelDBBatch.Close
  batchGetByteSize := GoLevelDBBatch.GetByteSize lib
  getAppend := none

/-! ## Pebble -/

/-- `ForceSync`, set at link time; the default. -/
def ForceSync : String := "0"

/-- `isForceSync`, as `init` sets it. -/
def isForceSync : Bool := ForceSync == "1"

/-- The calls of pebble the wrapper makes, on a `pebble.DB` with state `E` and
a `pebble.Batch` `WB`. `newIter` is `NewIter` with `LowerBound = start` and
`UpperBound = end`; a batch commits to the database it was made on. -/
structure PebbleLib (E WB : Type) where
  get : E → Bytes → Except DbError Bytes
  set : E → Bytes → Bytes → (sync : Bool) → Except DbError Unit × E
  delete : E → Bytes → (sync : Bool) → Except DbError Unit × E
  newIter : E → Option Bytes → Option Bytes → Except DbError (ListCursor (Bytes × Bytes))
  newBatch : E → WB
  batchSet : WB → Bytes → Bytes → Except DbError Unit × WB
  batchDelete : WB → Bytes → Except DbError Unit × WB
  batchCommit : E → WB → (sync : Bool) → Except DbError Unit × E
  batchClose : WB → Except DbError Unit
  batchLen : WB → Nat

namespace PebbleDB

variable {E WB : Type} (lib : PebbleLib E WB)

/-- `Get`: a copy of the value; a missing key, reported as `ErrNotFound`,
reads as nil. -/
def Get (db : E) (key : Bytes) : Go (Option Bytes) :=
  if key.length = 0 then throwErr .errKeyEmpty
  else notFoundAsNil ((lib.get db key).map fun res => some (cp res))

/-- `Has`: through `Get`, a present key being one whose value is not nil. -/
def Has (db : E) (key : Bytes) : Go Bool :=
  if key.length = 0 then throwErr .errKeyEmpty
  else (Get lib db key).map Option.isSome

/-- `Set`, with `Sync` only when `isForceSync`. -/
def Set : E → Bytes → Option Bytes → Go Unit × E := backendSet fun e k v => lib.set e k v isForceSync

/-- `SetSync`. -/
def SetSync : E → Bytes → Option Bytes → Go Unit × E := backendSet fun e k v => lib.set e k v true

/-- `Delete`, with `Sync` only when `isForceSync`. -/
def Delete : E → Bytes → Go Unit × E := backendDelete fun e k => lib.delete e k isForceSync

/-- `DeleteSync`. -/
def DeleteSync : E → Bytes → Go Unit × E := backendDelete fun e k => lib.delete e k true

/-- `Iterator` and `ReverseIterator`: the bound checks, `NewIter` on the
bounds, then `First` or `Last` and the adapter (`pebbleDBNewIterator`, whose
own check then passes). -/
def newIterator (db : E) (start «end» : Option Bytes) (isReverse : Bool) :
    Go (List (Bytes × Bytes)) :=
  if hasEmptyBound start «end» then throwErr .errKeyEmpty
  else
    match lib.newIter db start «end» with
    | .error e => throwErr e
    | .ok src => (pebbleDBNewIterator listCursorOps src start «end» isReverse).map backendIteratorEntries

/-- `Iterator`. -/
def Iterator (db : E) (start «end» : Option Bytes) : Go (List (Bytes × Bytes)) :=
  newIterator lib db start «end» false

/-- `ReverseIterator`. -/
def ReverseIterator (db : E) (start «end» : Option Bytes) : Go (List (Bytes × Bytes)) :=
  newIterator lib db start «end» true

/-- `NewBatch` and `NewBatchWithSize`: `newPebbleDBBatch`. -/
def NewBatch (db : E) : Option WB := some (lib.newBatch db)

end PebbleDB

namespace PebbleDBBatch

variable {E WB : Type} (lib : PebbleLib E WB)

/-- `Set`. -/
def Set : Option WB → Bytes → Option Bytes → Go Unit × Option WB := backendBatchSet lib.batchSet

/-- `Delete`. -/
def Delete : Option WB → Bytes → Go Unit × Option WB := backendBatchDelete lib.batchDelete

/-- `Close`: close the engine batch; if that fails, the batch stays open. -/
def Close (batch : Option WB) : Go Unit × Option WB :=
  match batch with
  | none => (.ok (), none)
  | some wb =>
    match lib.batchClose wb with
    | .error e => (throwErr e, batch)
    | .ok () => (.ok (), none)

/-- `Write`: `Commit`, with `Sync` only when `isForceSync`, then `Close`. -/
def Write : E → Option WB → Go Unit × E × Option WB :=
  backendBatchWrite (fun e wb => lib.batchCommit e wb isForceSync) (Close lib)

/-- `WriteSync`. -/
def WriteSync : E → Option WB → Go Unit × E × Option WB :=
  backendBatchWrite (fun e wb => lib.batchCommit e wb true) (Close lib)

/-- `GetByteSize`: the batch's `Len`. -/
def GetByteSize : Option WB → Go Nat := backendGetByteSize lib.batchLen

end PebbleDBBatch

/-- `PebbleDB` through the `DB` interface. -/
def pebbleDB {E WB : Type} (lib : PebbleLib E WB) : DB E (Option WB) where
  get := PebbleDB.Get lib
  has := PebbleDB.Has lib
  set := PebbleDB.Set lib
  setSync := PebbleDB.SetSync lib
  delete := PebbleDB.Delete lib
  deleteSync := PebbleDB.DeleteSync lib
  iterator := PebbleDB.Iterator lib
  reverseIterator := PebbleDB.ReverseIterator lib
  newBatch := PebbleDB.NewBatch lib
  newBatchWithSize db _ := PebbleDB.NewBatch lib db
  batchSet := PebbleDBBatch.Set lib
  batchDelete := PebbleDBBatch.Delete lib
  batchWrite := PebbleDBBatch.Write lib
  batchWriteSync := PebbleDBBatch.WriteSync lib
  batchClose := PebbleDBBatch.Close lib
  batchGetByteSize := PebbleDBBatch.GetByteSize lib
  getAppend := none

/-! ## RocksDB -/

/-- The calls of grocksdb the wrapper makes, on a `grocksdb.DB` with state `E`
and a `grocksdb.WriteBatch` `WB`. `get` answers a slice that may not exist;
`newIterator` opens an iterator over the whole database. -/
structure RocksDBLib (E WB : Type) where
  get : E → Bytes → Except DbError (Option Bytes)
  put : E → Bytes → Bytes → (sync : Bool) → Except DbError Unit × E
  delete : E → Bytes → (sync : Bool) → Except DbError Unit × E
  write : E → WB → (sync : Bool) → Except DbError Unit × E
  newIterator : E → ListCursor (Bytes × Bytes)
  newWriteBatch : WB
  batchPut : WB → Bytes → Bytes → WB
  batchDelete : WB → Bytes → WB
  batchData : WB → Bytes

/-- `moveSliceToBytes`: a copy of the slice's data, nil for a slice that does
not exist. -/
def moveSliceToBytes : Option Bytes → Option Bytes
  | none => none
  | some data => some (cp data)

namespace RocksDB

variable {E WB : Type} (lib : RocksDBLib E WB)

/-- `Get`. -/
def Get (db : E) (key : Bytes) : Go (Option Bytes) :=
  if key.length = 0 then throwErr .errKeyEmpty
  else liftLib ((lib.get db key).map moveSliceToBytes)

/-- `Has`: through `Get`, with no check of its own. -/
def Has (db : E) (key : Bytes) : Go Bool := (Get lib db key).map Option.isSome

/-- `Set`. -/
def Set : E → Bytes → Option Bytes → Go Unit × E := backendSet fun e k v => lib.put e k v false

/-- `SetSync`. -/
def SetSync : E → Bytes → Option Bytes → Go Unit × E := backendSet fun e k v => lib.put e k v true

/-- `Delete`. -/
def Delete : E → Bytes → Go Unit × E := backendDelete fun e k => lib.delete e k false

/-- `DeleteSync`. -/
def DeleteSync : E → Bytes → Go Unit × E := backendDelete fun e k => lib.delete e k true

/-- `Iterator` and `ReverseIterator`: the bound checks, then the adapter over
an iterator of the whole database. -/
def newIterator (db : E) (start «end» : Option Bytes) (isReverse : Bool) :
    Go (List (Bytes × Bytes)) :=
  if hasEmptyBound start «end» then throwErr .errKeyEmpty
  else .ok (backendIteratorEntries (newRocksDBIterator listCursorOps (lib.newIterator db) start «end» isReverse))

/-- `Iterator`. -/
def Iterator (db : E) (start «end» : Option Bytes) : Go (List (Bytes × Bytes)) :=
  newIterator lib db start «end» false

/-- `ReverseIterator`. -/
def ReverseIterator (db : E) (start «end» : Option Bytes) : Go (List (Bytes × Bytes)) :=
  newIterator lib db start «end» true

/-- `NewBatch` and `NewBatchWithSize`: `newRocksDBBatch`. -/
def NewBatch : Option WB := some lib.newWriteBatch

end RocksDB

namespace RocksDBBatch

variable {E WB : Type} (lib : RocksDBLib E WB)

/-- `Set`. -/
def Set : Option WB → Bytes → Option Bytes → Go Unit × Option WB :=
  backendBatchSet fun wb k v => (.ok (), lib.batchPut wb k v)

/-- `Delete`. -/
def Delete : Option WB → Bytes → Go Unit × Option WB :=
  backendBatchDelete fun wb k => (.ok (), lib.batchDelete wb k)

/-- `Close`: the engine batch is destroyed and dropped; it never fails. -/
def Close (_batch : Option WB) : Go Unit × Option WB := (.ok (), none)

/-- `Write`: the write, then `Close`, whose outcome it drops. -/
def Write (db : E) (batch : Option WB) : Go Unit × E × Option WB :=
  match batch with
  | none => (throwErr .errBatchClosed, db, batch)
  | some wb =>
    let r := lib.write db wb false
    match r.1 with
    | .error e => (throwErr e, r.2, batch)
    | .ok () => (.ok (), r.2, (Close batch).2)

/-- `WriteSync`. -/
def WriteSync : E → Option WB → Go Unit × E × Option WB :=
  backendBatchWrite (fun e wb => lib.write e wb true) Close

/-- `GetByteSize`: the length of the batch's `Data`. -/
def GetByteSize : Option WB → Go Nat := backendGetByteSize fun wb => (lib.batchData wb).length

end RocksDBBatch

/-- `RocksDB` through the `DB` interface. -/
def rocksDB {E WB : Type} (lib : RocksDBLib E WB) : DB E (Option WB) where
  get := RocksDB.Get lib
  has := RocksDB.Has lib
  set := RocksDB.Set lib
  setSync := RocksDB.SetSync lib
  delete := RocksDB.Delete lib
  deleteSync := RocksDB.DeleteSync lib
  iterator := RocksDB.Iterator lib
  reverseIterator := RocksDB.ReverseIterator lib
  newBatch _ := RocksDB.NewBatch lib
  newBatchWithSize _ _ := RocksDB.NewBatch lib
  batchSet := RocksDBBatch.Set lib
  batchDelete := RocksDBBatch.Delete lib
  batchWrite := RocksDBBatch.Write lib
  batchWriteSync := RocksDBBatch.WriteSync lib
  batchClose := RocksDBBatch.Close
  batchGetByteSize := RocksDBBatch.GetByteSize lib
  getAppend := none

end CosmosDb
