import CosmosDb.Model.TreeDBIterator
import CosmosDb.Lib.Machine

/-!
# CosmosDb — the TreeDB adapter and its batches

`treedb.go` and `treedb_batch.go`. A `TreeDB` holds three handles into the
TreeDB library, any of which may be nil: the database `db`, the kvstore
adapter `kv` and a pinned snapshot `snap`. `Close` clears `db` and `kv`
after unpinning the snapshot; every method checks the handle it is about to
use. A `coreBatch` wraps a `kvstore.Batch` `kb`, counts the bytes it has
recorded, and is closed once `done` is set or `kb` is nil; its `Write`
commits through `withSerializedBatchWrite`, which refuses once the owning
TreeDB's `kv` is nil.

The library is the parameter `lib : TreeDBLib D K S B W`: its handle types
and a state `W` behind them, which every call may change, so that any
sequence of outcomes can be played against the adapter. `TreeDBLib.logged`
records every call made: the system `TreeSys` runs the TreeDB and each of
its batches against the logged library, each with a log of its own, so that
the logs say which calls were made, and by whom.

Against a library exact except that it may answer an IAVL version range with
nothing, `Iterator` yields exactly the stored range, or panics in `cpIncr`,
and it panics exactly on an IAVL version range with no prefix before its
`'s'` and nothing stored in it (`treeDB_iterator_yields_or_panics`).
-/

namespace CosmosDb

-- ---------------------------------------------------------------------------
-- The library
-- ---------------------------------------------------------------------------

/-- The calls the adapter makes on the TreeDB library: on the database
handle `D`, the kvstore adapter `K`, a snapshot `S` and a kvstore batch `B`,
with the library's state `W`. `batchSetView` and `batchDeleteView` are the
optional `batchSetViewer` and `batchDeleteViewer` interfaces of a batch. -/
structure TreeDBLib (D K S B W : Type) where
  acquireSnapshot : Option D → W → Go S × W
  dbGetAppend : D → Bytes → Option Bytes → W → Except DbError (Option Bytes) × W
  dbClose : D → W → Except DbError Unit × W
  snapshotClose : S → W → W
  snapshotGetUnsafe : S → Bytes → W → Except DbError (Option Bytes) × W
  snapshotGetAppend : S → Bytes → Option Bytes → W → Except DbError (Option Bytes) × W
  snapshotHas : S → Bytes → W → Except DbError Bool × W
  kvGetUnsafe : K → Bytes → W → Except DbError (Option Bytes) × W
  kvHas : K → Bytes → W → Except DbError Bool × W
  kvSet : K → Bytes → Bytes → W → Except DbError Unit × W
  kvSetSync : K → Bytes → Bytes → W → Except DbError Unit × W
  kvDelete : K → Bytes → W → Except DbError Unit × W
  kvDeleteSync : K → Bytes → W → Except DbError Unit × W
  kvIterator : K → Option Bytes → Option Bytes → W → Except DbError KVIterator × W
  kvReverseIterator : K → Option Bytes → Option Bytes → W → Except DbError KVIterator × W
  kvCheckpoint : K → W → Except DbError Unit × W
  kvNewBatch : K → W → Except DbError B × W
  batchSet : B → Bytes → Bytes → W → Except DbError Unit × W
  batchSetView : B → Option (Bytes → Bytes → W → Except DbError Unit × W)
  batchDelete : B → Bytes → W → Except DbError Unit × W
  batchDeleteView : B → Option (Bytes → W → Except DbError Unit × W)
  batchCommit : B → W → Except DbError Unit × W
  batchCommitSync : B → W → Except DbError Unit × W
  batchClose : B → W → Except DbError Unit × W

/-- A call on the library, as a log records it. -/
inductive LibCall where
  | acquireSnapshot
  | snapshotClose
  | snapshotRead
  | dbRead
  | dbClose
  | kvRead
  | kvWrite
  | kvIterator
  | kvCheckpoint
  | kvNewBatch
  | batchRecord
  | batchCommit (ok : Bool)
  | batchClose
  deriving DecidableEq, Repr

section Logging

variable {W α : Type}

/-- Make a call and record it, the record chosen from the outcome. -/
def logCallWith (c : α → LibCall) (f : W → α × W) : W × List LibCall → α × (W × List LibCall) :=
  fun w => ((f w.1).1, ((f w.1).2, w.2 ++ [c (f w.1).1]))

/-- Make a call and record it. -/
def logCall (c : LibCall) (f : W → α × W) : W × List LibCall → α × (W × List LibCall) :=
  logCallWith (fun _ => c) f

@[simp] theorem logCallWith_fst (c : α → LibCall) (f : W → α × W) (w : W × List LibCall) :
    (logCallWith c f w).1 = (f w.1).1 := rfl

@[simp] theorem logCallWith_world (c : α → LibCall) (f : W → α × W) (w : W × List LibCall) :
    (logCallWith c f w).2.1 = (f w.1).2 := rfl

@[simp] theorem logCallWith_log (c : α → LibCall) (f : W → α × W) (w : W × List LibCall) :
    (logCallWith c f w).2.2 = w.2 ++ [c (f w.1).1] := rfl

/-- The library with every call recorded in a log kept beside its state. -/
def TreeDBLib.logged {D K S B : Type} (lib : TreeDBLib D K S B W) :
    TreeDBLib D K S B (W × List LibCall) where
  acquireSnapshot d := logCall .acquireSnapshot (lib.acquireSnapshot d)
  dbGetAppend d key dst := logCall .dbRead (lib.dbGetAppend d key dst)
  dbClose d := logCall .dbClose (lib.dbClose d)
  snapshotClose s w := (logCall .snapshotClose (fun w => ((), lib.snapshotClose s w)) w).2
  snapshotGetUnsafe s key := logCall .snapshotRead (lib.snapshotGetUnsafe s key)
  snapshotGetAppend s key dst := logCall .snapshotRead (lib.snapshotGetAppend s key dst)
  snapshotHas s key := logCall .snapshotRead (lib.snapshotHas s key)
  kvGetUnsafe k key := logCall .kvRead (lib.kvGetUnsafe k key)
  kvHas k key := logCall .kvRead (lib.kvHas k key)
  kvSet k key value := logCall .kvWrite (lib.kvSet k key value)
  kvSetSync k key value := logCall .kvWrite (lib.kvSetSync k key value)
  kvDelete k key := logCall .kvWrite (lib.kvDelete k key)
  kvDeleteSync k key := logCall .kvWrite (lib.kvDeleteSync k key)
  kvIterator k start «end» := logCall .kvIterator (lib.kvIterator k start «end»)
  kvReverseIterator k start «end» := logCall .kvIterator (lib.kvReverseIterator k start «end»)
  kvCheckpoint k := logCall .kvCheckpoint (lib.kvCheckpoint k)
  kvNewBatch k := logCall .kvNewBatch (lib.kvNewBatch k)
  batchSet b key value := logCall .batchRecord (lib.batchSet b key value)
  batchSetView b := (lib.batchSetView b).map fun sv key value => logCall .batchRecord (sv key value)
  batchDelete b key := logCall .batchRecord (lib.batchDelete b key)
  batchDeleteView b := (lib.batchDeleteView b).map fun dv key => logCall .batchRecord (dv key)
  batchCommit b := logCallWith (fun r => .batchCommit r.isOk) (lib.batchCommit b)
  batchCommitSync b := logCallWith (fun r => .batchCommit r.isOk) (lib.batchCommitSync b)
  batchClose b := logCall .batchClose (lib.batchClose b)

end Logging

-- ---------------------------------------------------------------------------
-- The adapter
-- ---------------------------------------------------------------------------

/-- `TreeDB`, without its mutex: calls are modelled one at a time. -/
structure TreeDB (D K S : Type) where
  db : Option D
  kv : Option K
  snap : Option S
  reuseReads : Bool
  readBuf : Option Bytes

/-- `coreBatch`. `db` says whether the batch holds a TreeDB (`b.db != nil`). -/
structure CoreBatch (B : Type) where
  db : Bool
  kb : Option B
  size : Nat
  done : Bool

/-- A method called through a nil pointer. -/
def nilPointer {α : Type} : Go α := .error (.panic "invalid memory address or nil pointer dereference")

/-- A library error, returned as it is. -/
def liftLib {α : Type} (r : Except DbError α) : Go α := r.mapError .error

/-- A library read whose `tree.ErrKeyNotFound` is reported as a missing value. -/
def notFoundAsNil : Except DbError (Option Bytes) → Go (Option Bytes)
  | .ok val => .ok val
  | .error .errKeyNotFound => .ok none
  | .error e => throwErr e

/-- `coreIterator`: the library's iterator and the bounds it was opened with.
`Key` and `Value` return copies. -/
structure CoreIterator where
  iter : FallbackIterator
  start : Option Bytes
  «end» : Option Bytes

/-- `coreIterator` through the `Iterator` interface. -/
def coreIterOps : IterOps CoreIterator (Bytes × Bytes) where
  valid it := (it.iter.Valid, it)
  current it := (cp it.iter.Key, cp it.iter.Value)
  next it := { it with iter := it.iter.Next }

namespace TreeDB

variable {D K S B W : Type} (lib : TreeDBLib D K S B W)

/-- `PinSnapshot`: close the pinned snapshot, if any, and pin a new one. -/
def PinSnapshot (d : TreeDB D K S) (w : W) : Go Unit × TreeDB D K S × W :=
  let w := match d.snap with
    | some s => lib.snapshotClose s w
    | none => w
  let r := lib.acquireSnapshot d.db w
  match r.1 with
  | .ok s => (.ok (), { d with snap := some s }, r.2)
  | .error f => (.error f, d, r.2)

/-- `UnpinSnapshot`. -/
def UnpinSnapshot (d : TreeDB D K S) (w : W) : TreeDB D K S × W :=
  match d.snap with
  | some s => ({ d with snap := none }, lib.snapshotClose s w)
  | none => (d, w)

/-- `withSerializedBatchWrite`: run `fn` unless the TreeDB is nil or closed. -/
def withSerializedBatchWrite (d : Option (TreeDB D K S)) (fn : W → Except DbError Unit × W)
    (w : W) : Except DbError Unit × W :=
  match d with
  | none => (.error .errClosed, w)
  | some d =>
    match d.kv with
    | none => (.error .errClosed, w)
    | some _ => fn w

/-- `Get`: from the pinned snapshot if there is one; otherwise from the
database, through `GetAppend` into `readBuf` when reads are reused, and from
the kvstore adapter when not. -/
def Get (d : TreeDB D K S) (key : Bytes) (w : W) : Go (Option Bytes) × TreeDB D K S × W :=
  if key.length = 0 then (throwErr .errKeyEmpty, d, w)
  else
    match d.snap with
    | some s =>
      let r := lib.snapshotGetUnsafe s key w
      (notFoundAsNil r.1, d, r.2)
    | none =>
      match d.db with
      | none => (throwErr .errClosed, d, w)
      | some h =>
        if d.reuseReads then
          let r := lib.dbGetAppend h key (sliceToZero d.readBuf) w
          match r.1 with
          | .ok val => (.ok val, { d with readBuf := sliceToZero val }, r.2)
          | .error e => (notFoundAsNil (.error e), d, r.2)
        else
          -- `d.kv.GetUnsafe` with `kv` checked by no one: `Close` clears it with `db`
          match d.kv with
          | none => (nilPointer, d, w)
          | some k =>
            let r := lib.kvGetUnsafe k key w
            (liftLib r.1, d, r.2)

/-- `GetAppend`. -/
def GetAppend (d : TreeDB D K S) (key : Bytes) (dst : Option Bytes) (w : W) :
    Go (Option Bytes) × W :=
  if key.length = 0 then (throwErr .errKeyEmpty, w)
  else
    match d.snap with
    | some s =>
      let r := lib.snapshotGetAppend s key dst w
      (notFoundAsNil r.1, r.2)
    | none =>
      match d.db with
      | none => (throwErr .errClosed, w)
      | some h =>
        let r := lib.dbGetAppend h key dst w
        (notFoundAsNil r.1, r.2)

/-- `Has`. -/
def Has (d : TreeDB D K S) (key : Bytes) (w : W) : Go Bool × W :=
  if key.length = 0 then (throwErr .errKeyEmpty, w)
  else
    match d.snap with
    | some s =>
      let r := lib.snapshotHas s key w
      (liftLib r.1, r.2)
    | none =>
      match d.kv with
      | none => (throwErr .errClosed, w)
      | some k =>
        let r := lib.kvHas k key w
        (liftLib r.1, r.2)

/-- `Set` and `SetSync`, which differ in the library call only. -/
def setWith (write : K → Bytes → Bytes → W → Except DbError Unit × W) (d : TreeDB D K S)
    (key : Bytes) (value : Option Bytes) (w : W) : Go Unit × W :=
  if key.length = 0 then (throwErr .errKeyEmpty, w)
  else
    match value with
    | none => (throwErr .errValueNil, w)
    | some v =>
      match d.kv with
      | none => (throwErr .errClosed, w)
      | some k =>
        let r := write k key v w
        (liftLib r.1, r.2)

/-- `Set`. -/
def Set (d : TreeDB D K S) (key : Bytes) (value : Option Bytes) (w : W) : Go Unit × W :=
  setWith lib.kvSet d key value w

/-- `SetSync`. -/
def SetSync (d : TreeDB D K S) (key : Bytes) (value : Option Bytes) (w : W) : Go Unit × W :=
  setWith lib.kvSetSync d key value w

/-- `Delete` and `DeleteSync`, which differ in the library call only. -/
def deleteWith (delete : K → Bytes → W → Except DbError Unit × W) (d : TreeDB D K S)
    (key : Bytes) (w : W) : Go Unit × W :=
  if key.length = 0 then (throwErr .errKeyEmpty, w)
  else
    match d.kv with
    | none => (throwErr .errClosed, w)
    | some k =>
      let r := delete k key w
      (liftLib r.1, r.2)

/-- `Delete`. -/
def Delete (d : TreeDB D K S) (key : Bytes) (w : W) : Go Unit × W :=
  deleteWith lib.kvDelete d key w

/-- `DeleteSync`. -/
def DeleteSync (d : TreeDB D K S) (key : Bytes) (w : W) : Go Unit × W :=
  deleteWith lib.kvDeleteSync d key w

/-- `Iterator`: the forward iterator, with the IAVL fallback. -/
def Iterator (d : TreeDB D K S) (start «end» : Option Bytes) (w : W) : Go CoreIterator × W :=
  if hasEmptyBound start «end» then (throwErr .errKeyEmpty, w)
  else
    match d.kv with
    | none => (throwErr .errClosed, w)
    | some k =>
      let r := forwardIteratorWithIAVLFallback (lib.kvIterator k) start «end» w
      (r.1.map fun it => ⟨it, start, «end»⟩, r.2)

/-- `ReverseIterator`. -/
def ReverseIterator (d : TreeDB D K S) (start «end» : Option Bytes) (w : W) :
    Go CoreIterator × W :=
  if hasEmptyBound start «end» then (throwErr .errKeyEmpty, w)
  else
    match d.kv with
    | none => (throwErr .errClosed, w)
    | some k =>
      let r := lib.kvReverseIterator k start «end» w
      ((liftLib r.1).map fun it => ⟨.kv it, start, «end»⟩, r.2)

/-- `Close`: nothing once closed; otherwise unpin the snapshot, close the
database, and clear `db` and `kv` whatever the database's `Close` returned. -/
def Close (d : TreeDB D K S) (w : W) : Go Unit × TreeDB D K S × W :=
  match d.db with
  | none => (.ok (), d, w)
  | some h =>
    let u := d.UnpinSnapshot lib w
    let r := lib.dbClose h u.2
    (liftLib r.1, { u.1 with db := none, kv := none }, r.2)

/-- `NewBatchWithSize`: the size hint does not reach the batch. A batch made
on a closed TreeDB, or whose kv batch could not be made, is closed. -/
def NewBatchWithSize (d : TreeDB D K S) (_size : Int) (w : W) : CoreBatch B × W :=
  match d.kv with
  | none => (⟨true, none, 0, false⟩, w)
  | some k =>
    let r := lib.kvNewBatch k w
    match r.1 with
    | .ok kb => (⟨true, some kb, 0, false⟩, r.2)
    | .error _ => (⟨true, none, 0, false⟩, r.2)

/-- `NewBatch`. -/
def NewBatch (d : TreeDB D K S) (w : W) : CoreBatch B × W := d.NewBatchWithSize lib 16 w

/-- `Checkpoint`. -/
def Checkpoint (d : TreeDB D K S) (w : W) : Go Unit × W :=
  match d.kv with
  | none => (throwErr .errClosed, w)
  | some k =>
    let r := lib.kvCheckpoint k w
    (liftLib r.1, r.2)

end TreeDB

/-- The TreeDB `NewTreeDBAdapter` returns, over the database and the kvstore
adapter that `treedbkv.Open` opened: no snapshot pinned, reads not reused.
The opening, and the profile check before it, are the library's. -/
def newTreeDBAdapter {D K S : Type} (h : D) (k : K) : TreeDB D K S :=
  ⟨some h, some k, none, false, none⟩

namespace CoreBatch

variable {D K S B W : Type} (lib : TreeDBLib D K S B W)

/-- Written or closed: `b.done || b.kb == nil`. -/
def closed (b : CoreBatch B) : Bool := b.done || b.kb.isNone

/-- What `Set`, `SetView`, `Delete` and `DeleteView` do after their argument
checks: refuse on a closed batch, make the kv batch call, and count `added`
bytes once it has succeeded. -/
def record (b : CoreBatch B) (call : B → W → Except DbError Unit × W) (added : Nat) (w : W) :
    Go Unit × CoreBatch B × W :=
  if b.done then (throwErr .errBatchClosed, b, w)
  else
    match b.kb with
    | none => (throwErr .errBatchClosed, b, w)
    | some kb =>
      let r := call kb w
      match r.1 with
      | .ok () => (.ok (), { b with size := b.size + added }, r.2)
      | .error e => (throwErr e, b, r.2)

/-- `Set`. -/
def Set (b : CoreBatch B) (key : Bytes) (value : Option Bytes) (w : W) :
    Go Unit × CoreBatch B × W :=
  if key.length = 0 then (throwErr .errKeyEmpty, b, w)
  else
    match value with
    | none => (throwErr .errValueNil, b, w)
    | some v => b.record (fun kb => lib.batchSet kb key v) (key.length + v.length) w

/-- `SetView`: through the kv batch's `SetView` where it has one. -/
def SetView (b : CoreBatch B) (key : Bytes) (value : Option Bytes) (w : W) :
    Go Unit × CoreBatch B × W :=
  if key.length = 0 then (throwErr .errKeyEmpty, b, w)
  else
    match value with
    | none => (throwErr .errValueNil, b, w)
    | some v =>
      b.record (fun kb => match lib.batchSetView kb with
        | some sv => sv key v
        | none => lib.batchSet kb key v) (key.length + v.length) w

/-- `Delete`. -/
def Delete (b : CoreBatch B) (key : Bytes) (w : W) : Go Unit × CoreBatch B × W :=
  if key.length = 0 then (throwErr .errKeyEmpty, b, w)
  else b.record (fun kb => lib.batchDelete kb key) key.length w

/-- `DeleteView`: through the kv batch's `DeleteView` where it has one. -/
def DeleteView (b : CoreBatch B) (key : Bytes) (w : W) : Go Unit × CoreBatch B × W :=
  if key.length = 0 then (throwErr .errKeyEmpty, b, w)
  else
    b.record (fun kb => match lib.batchDeleteView kb with
      | some dv => dv key
      | none => lib.batchDelete kb key) key.length w

/-- `Write` and `WriteSync`, which differ in the commit only: on an open
batch, commit, through `withSerializedBatchWrite` when the batch holds its
TreeDB `d`, and mark the batch done once the commit has succeeded. -/
def writeWith (commit : B → W → Except DbError Unit × W) (d : TreeDB D K S) (b : CoreBatch B)
    (w : W) : Go Unit × CoreBatch B × W :=
  if b.done then (throwErr .errBatchClosed, b, w)
  else
    match b.kb with
    | none => (throwErr .errBatchClosed, b, w)
    | some kb =>
      let r := if b.db then TreeDB.withSerializedBatchWrite (some d) (commit kb) w
        else commit kb w
      match r.1 with
      | .ok () => (.ok (), { b with done := true }, r.2)
      | .error e => (throwErr e, b, r.2)

/-- `Write`. -/
def Write (d : TreeDB D K S) (b : CoreBatch B) (w : W) : Go Unit × CoreBatch B × W :=
  writeWith lib.batchCommit d b w

/-- `WriteSync`. -/
def WriteSync (d : TreeDB D K S) (b : CoreBatch B) (w : W) : Go Unit × CoreBatch B × W :=
  writeWith lib.batchCommitSync d b w

/-- `Close`: close the kv batch, if any, and mark the batch done. The kv
batch's error is returned only if the batch had not been written. -/
def Close (b : CoreBatch B) (w : W) : Go Unit × CoreBatch B × W :=
  match b.kb with
  | none => (.ok (), { b with done := true }, w)
  | some kb =>
    let alreadyDone := b.done
    let r := lib.batchClose kb w
    let b' := { b with kb := none, done := true }
    if alreadyDone then (.ok (), b', r.2) else (liftLib r.1, b', r.2)

/-- `GetByteSize`. -/
def GetByteSize (b : CoreBatch B) : Go Nat :=
  if b.done then throwErr .errBatchClosed
  else
    match b.kb with
    | none => throwErr .errBatchClosed
    | some _ => .ok b.size

end CoreBatch

-- ---------------------------------------------------------------------------
-- The system: a TreeDB, its batches, and the library
-- ---------------------------------------------------------------------------

/-- A call on the TreeDB or on one of its batches, the batch named by the
order of creation. -/
inductive TreeCall where
  | pinSnapshot
  | unpinSnapshot
  | get (key : Bytes)
  | getAppend (key : Bytes) (dst : Option Bytes)
  | has (key : Bytes)
  | set (key : Bytes) (value : Option Bytes)
  | setSync (key : Bytes) (value : Option Bytes)
  | delete (key : Bytes)
  | deleteSync (key : Bytes)
  | iterator (start «end» : Option Bytes)
  | reverseIterator (start «end» : Option Bytes)
  | checkpoint
  | close
  | newBatch
  | newBatchWithSize (size : Int)
  | batchSet (b : Nat) (key : Bytes) (value : Option Bytes)
  | batchSetView (b : Nat) (key : Bytes) (value : Option Bytes)
  | batchDelete (b : Nat) (key : Bytes)
  | batchDeleteView (b : Nat) (key : Bytes)
  | batchWrite (b : Nat)
  | batchWriteSync (b : Nat)
  | batchClose (b : Nat)
  | batchGetByteSize (b : Nat)

/-- What a call returns besides an error. -/
inductive TreeReply where
  | done
  | value (v : Option Bytes)
  | found (b : Bool)
  | iterator (it : CoreIterator)
  | batch (b : Nat)
  | size (n : Nat)

/-- The TreeDB, its batches, and the library's state. The library is logged:
`log` holds the calls the TreeDB's methods made, and each batch carries the
calls its own methods made. -/
structure TreeSys (D K S B W : Type) where
  tree : TreeDB D K S
  batches : List (CoreBatch B × List LibCall)
  world : W
  log : List LibCall

namespace TreeSys

variable {D K S B W : Type} (lib : TreeDBLib D K S B W)

/-- A fresh system: a TreeDB with no batches and nothing logged. -/
def init (tree : TreeDB D K S) (world : W) : TreeSys D K S B W := ⟨tree, [], world, []⟩

/-- A call on the TreeDB that leaves it as it is. -/
def onTree {α : Type} (s : TreeSys D K S B W)
    (f : TreeDB D K S → W × List LibCall → Go α × (W × List LibCall))
    (reply : α → TreeReply) : TreeSys D K S B W × Go TreeReply :=
  let r := f s.tree (s.world, s.log)
  ({ s with world := r.2.1, log := r.2.2 }, r.1.map reply)

/-- A call on the TreeDB that changes it. -/
def onTreeUpdate {α : Type} (s : TreeSys D K S B W)
    (f : TreeDB D K S → W × List LibCall → Go α × TreeDB D K S × (W × List LibCall))
    (reply : α → TreeReply) : TreeSys D K S B W × Go TreeReply :=
  let r := f s.tree (s.world, s.log)
  ({ s with tree := r.2.1, world := r.2.2.1, log := r.2.2.2 }, r.1.map reply)

/-- A new batch, added at the end with an empty log. -/
def addBatch (s : TreeSys D K S B W)
    (f : TreeDB D K S → W × List LibCall → CoreBatch B × (W × List LibCall)) :
    TreeSys D K S B W × Go TreeReply :=
  let r := f s.tree (s.world, s.log)
  ({ s with batches := s.batches ++ [(r.1, [])], world := r.2.1, log := r.2.2 },
    .ok (.batch s.batches.length))

/-- A call on batch `i`, logged in the batch's own log; a batch never
created is a nil pointer. -/
def onBatch (s : TreeSys D K S B W) (i : Nat)
    (f : CoreBatch B → W × List LibCall → Go Unit × CoreBatch B × (W × List LibCall)) :
    TreeSys D K S B W × Go TreeReply :=
  match s.batches[i]? with
  | none => (s, nilPointer)
  | some (b, log) =>
    let r := f b (s.world, log)
    ({ s with batches := s.batches.set i (r.2.1, r.2.2.2), world := r.2.2.1 },
      r.1.map fun _ => .done)

/-- Dispatch one call. -/
def step (s : TreeSys D K S B W) : TreeCall → TreeSys D K S B W × Go TreeReply
  | .pinSnapshot => s.onTreeUpdate (TreeDB.PinSnapshot lib.logged) fun _ => .done
  | .unpinSnapshot =>
    s.onTreeUpdate (fun d w => (.ok (), TreeDB.UnpinSnapshot lib.logged d w)) fun _ => .done
  | .get key => s.onTreeUpdate (fun d => d.Get lib.logged key) .value
  | .getAppend key dst => s.onTree (fun d => d.GetAppend lib.logged key dst) .value
  | .has key => s.onTree (fun d => d.Has lib.logged key) .found
  | .set key value => s.onTree (fun d => d.Set lib.logged key value) fun _ => .done
  | .setSync key value => s.onTree (fun d => d.SetSync lib.logged key value) fun _ => .done
  | .delete key => s.onTree (fun d => d.Delete lib.logged key) fun _ => .done
  | .deleteSync key => s.onTree (fun d => d.DeleteSync lib.logged key) fun _ => .done
  | .iterator start «end» => s.onTree (fun d => d.Iterator lib.logged start «end») .iterator
  | .reverseIterator start «end» =>
    s.onTree (fun d => d.ReverseIterator lib.logged start «end») .iterator
  | .checkpoint => s.onTree (fun d => d.Checkpoint lib.logged) fun _ => .done
  | .close => s.onTreeUpdate (TreeDB.Close lib.logged) fun _ => .done
  | .newBatch => s.addBatch (TreeDB.NewBatch lib.logged)
  | .newBatchWithSize size => s.addBatch fun d => d.NewBatchWithSize lib.logged size
  | .batchSet i key value => s.onBatch i fun b => b.Set lib.logged key value
  | .batchSetView i key value => s.onBatch i fun b => b.SetView lib.logged key value
  | .batchDelete i key => s.onBatch i fun b => b.Delete lib.logged key
  | .batchDeleteView i key => s.onBatch i fun b => b.DeleteView lib.logged key
  | .batchWrite i => s.onBatch i (CoreBatch.Write lib.logged s.tree)
  | .batchWriteSync i => s.onBatch i (CoreBatch.WriteSync lib.logged s.tree)
  | .batchClose i => s.onBatch i (CoreBatch.Close lib.logged)
  | .batchGetByteSize i =>
    match s.batches[i]? with
    | none => (s, nilPointer)
    | some (b, _) => (s, b.GetByteSize.map .size)

end TreeSys

-- ---------------------------------------------------------------------------
-- The forward iterator against a library exact except on IAVL ranges
-- ---------------------------------------------------------------------------

/-- `coreIterator` yields what the iterator it wraps yields. -/
theorem coreIterOps_yields {it : FallbackIterator} {l : List (Bytes × Bytes)}
    (h : fallbackIterOps.Yields it l) (start «end» : Option Bytes) :
    coreIterOps.Yields ⟨it, start, «end»⟩ l := by
  induction h with
  | @done s s' hv =>
    simp only [fallbackIterOps, Prod.mk.injEq] at hv
    have hvalid : coreIterOps.valid ⟨s, start, «end»⟩ = (false, ⟨s, start, «end»⟩) := by
      simp [coreIterOps, hv.1]
    exact .done hvalid
  | @step s s' l hv _ ih =>
    simp only [fallbackIterOps, Prod.mk.injEq] at hv
    obtain ⟨hvalid, rfl⟩ := hv
    have hvalid' : coreIterOps.valid ⟨s, start, «end»⟩ = (true, ⟨s, start, «end»⟩) := by
      simp [coreIterOps, hvalid]
    exact .step hvalid' ih

section IteratorFallback

variable {D K S B W : Type} {lib : TreeDBLib D K S B W} {stored : W → KVMap}

/-- On an open TreeDB whose library answers every range but IAVL version
ranges exactly, `Iterator` yields exactly the stored range, ascending,
unless the range is an IAVL version range with nothing in it and `start` is
9 bytes long. -/
theorem iterator_yields (hkv : ∀ k, ExactUnlessIAVL (lib.kvIterator k) stored)
    {d : TreeDB D K S} {k : K} (hk : d.kv = some k) {start «end» : Option Bytes}
    (hb : hasEmptyBound start «end» = false) (w : W)
    (hsafe : isPrefixedIAVLVersionRange (start.getD []) («end».getD []) = true →
      (start.getD []).length = 9 → mapRange (stored w) start «end» ≠ []) :
    ∃ it, d.Iterator lib start «end» w = (.ok it, w) ∧
      coreIterOps.Yields it (mapRange (stored w) start «end») := by
  obtain ⟨it, hit, hy⟩ := forwardIteratorWithIAVLFallback_yields (hkv k) start «end» w hsafe
  refine ⟨⟨it, start, «end»⟩, ?_, coreIterOps_yields hy start «end»⟩
  simp [TreeDB.Iterator, hb, hk, hit, Except.map]

/-- With 9-byte IAVL version bounds and nothing stored between them,
`Iterator` on an open TreeDB panics in `cpIncr`. -/
theorem iterator_panics (hkv : ∀ k, ExactUnlessIAVL (lib.kvIterator k) stored)
    {d : TreeDB D K S} {k : K} (hk : d.kv = some k) {start «end» : Bytes} {w : W}
    (hiavl : isPrefixedIAVLVersionRange start «end» = true) (hlen : start.length = 9)
    (hR : mapRange (stored w) (some start) (some «end») = []) :
    d.Iterator lib (some start) (some «end») w =
      (.error (.panic "cpIncr expects non-zero bz length"), w) := by
  -- both bounds are 9 bytes, so neither is empty
  have hb : hasEmptyBound (some start) (some «end») = false := by
    have hend : 9 ≤ «end».length := by
      unfold isPrefixedIAVLVersionRange at hiavl
      split_ifs at hiavl with h1
      omega
    rw [hasEmptyBound_eq_false]
    constructor
    · intro h
      simp [Option.some.injEq] at h
      simp [h] at hlen
    · intro h
      simp [Option.some.injEq] at h
      simp [h] at hend
  have hpanic : forwardIteratorWithIAVLFallback (lib.kvIterator k) (some start) (some «end») w =
      (.error (.panic "cpIncr expects non-zero bz length"), w) :=
    forwardIteratorWithIAVLFallback_panics (hkv k) hiavl hlen hR
  simp [TreeDB.Iterator, hb, hk, hpanic, Except.map]

end IteratorFallback

-- ---------------------------------------------------------------------------
-- A reference library
-- ---------------------------------------------------------------------------

/-- The state of `refLib`: the store, and the writes each kv batch has
recorded. -/
structure RefWorld where
  store : KVMap
  pending : List (List BatchOp)

/-- `GetAppend` on a map: the value appended to `dst`, or not found. -/
def refGetAppend (m : KVMap) (key : Bytes) (dst : Option Bytes) : Except DbError (Option Bytes) :=
  match m.get key with
  | some v => .ok (appendBytes dst v)
  | none => .error .errKeyNotFound

/-- A library to run the adapter against: a sorted map as the store,
snapshots as copies of it, kv batches as indices into the recorded writes,
replayed on commit; iterators are exact. -/
def refLib : TreeDBLib Unit Unit KVMap Nat RefWorld where
  acquireSnapshot _ w := (.ok w.store, w)
  dbGetAppend _ key dst w := (refGetAppend w.store key dst, w)
  dbClose _ w := (.ok (), w)
  snapshotClose _ w := w
  snapshotGetUnsafe s key w := (refGetAppend s key none, w)
  snapshotGetAppend s key dst w := (refGetAppend s key dst, w)
  snapshotHas s key w := (.ok (s.get key).isSome, w)
  kvGetUnsafe _ key w := (.ok (w.store.get key), w)
  kvHas _ key w := (.ok (w.store.get key).isSome, w)
  kvSet _ key value w := (.ok (), { w with store := w.store.set key value })
  kvSetSync _ key value w := (.ok (), { w with store := w.store.set key value })
  kvDelete _ key w := (.ok (), { w with store := w.store.delete key })
  kvDeleteSync _ key w := (.ok (), { w with store := w.store.delete key })
  kvIterator _ start «end» w := (.ok ⟨mapRange w.store start «end», none⟩, w)
  kvReverseIterator _ start «end» w := (.ok ⟨(mapRange w.store start «end»).reverse, none⟩, w)
  kvCheckpoint _ w := (.ok (), w)
  kvNewBatch _ w := (.ok w.pending.length, { w with pending := w.pending ++ [[]] })
  batchSet b key value w :=
    (.ok (), { w with pending := w.pending.modify b (· ++ [.set key value]) })
  batchSetView _ := none
  batchDelete b key w := (.ok (), { w with pending := w.pending.modify b (· ++ [.delete key]) })
  batchDeleteView _ := none
  batchCommit b w := (.ok (), { w with store := w.store.applyOps (w.pending.getD b []) })
  batchCommitSync b w := (.ok (), { w with store := w.store.applyOps (w.pending.getD b []) })
  batchClose _ w := (.ok (), w)

/-- The bounds `iavlVersionScanBounds` (`treedb_reverse_iavl_test.go`)
builds: `'s'` and the big-endian versions 1 and `math.MaxInt64`, with
nothing before the `'s'`. -/
def iavlVersionScanBounds : Bytes × Bytes :=
  ([115, 0, 0, 0, 0, 0, 0, 0, 1], [115, 127, 255, 255, 255, 255, 255, 255, 255])

theorem treeDB_iterator_iavl_scan_bounds_panics :
    ExactUnlessIAVL (refLib.kvIterator ()) RefWorld.store ∧
      isPrefixedIAVLVersionRange iavlVersionScanBounds.1 iavlVersionScanBounds.2 = true ∧
      (TreeDB.Iterator refLib (⟨some (), some (), none, false, none⟩ : TreeDB Unit Unit KVMap)
        (some iavlVersionScanBounds.1) (some iavlVersionScanBounds.2)
        (⟨SortedMap.empty, []⟩ : RefWorld)).1 =
        .error (.panic "cpIncr expects non-zero bz length") := by
  -- the reference library answers every range exactly
  have hkv : ∀ k, ExactUnlessIAVL (refLib.kvIterator k) RefWorld.store :=
    fun _ _ _ _ => Or.inl rfl
  have hiavl : isPrefixedIAVLVersionRange iavlVersionScanBounds.1 iavlVersionScanBounds.2 = true := by
    decide
  refine ⟨hkv (), hiavl, ?_⟩
  rw [iterator_panics hkv rfl hiavl rfl rfl]

section IteratorExact

variable {D K S B W : Type} {lib : TreeDBLib D K S B W} {stored : W → KVMap}

/-- On an open TreeDB whose library answers ranges exactly, except that it
may answer an IAVL version range with nothing, `Iterator` with nonempty
bounds panics in `cpIncr` on an IAVL version range with no prefix before the
`'s'` (a 9-byte start) and nothing stored in it, and on every other range
yields exactly the stored range. -/
theorem treeDB_iterator_yields_or_panics (hkv : ∀ k, ExactUnlessIAVL (lib.kvIterator k) stored)
    {d : TreeDB D K S} {k : K} (hk : d.kv = some k) {start «end» : Option Bytes}
    (hb : hasEmptyBound start «end» = false) (w : W) :
    (isPrefixedIAVLVersionRange (start.getD []) («end».getD []) = true ∧
        (start.getD []).length = 9 ∧ mapRange (stored w) start «end» = [] →
      d.Iterator lib start «end» w = (.error (.panic "cpIncr expects non-zero bz length"), w)) ∧
    (¬(isPrefixedIAVLVersionRange (start.getD []) («end».getD []) = true ∧
        (start.getD []).length = 9 ∧ mapRange (stored w) start «end» = []) →
      ∃ it, d.Iterator lib start «end» w = (.ok it, w) ∧
        coreIterOps.Yields it (mapRange (stored w) start «end»)) := by
  constructor
  · rintro ⟨hiavl, hlen, hR⟩
    -- both bounds are given: a nil start reads as the empty key, a nil end as no IAVL range
    obtain ⟨s, rfl⟩ : ∃ s, start = some s := by
      cases start with
      | none => simp at hlen
      | some s => exact ⟨s, rfl⟩
    obtain ⟨e, rfl⟩ : ∃ e, «end» = some e := by
      cases «end» with
      | none => simp [isPrefixedIAVLVersionRange] at hiavl
      | some e => exact ⟨e, rfl⟩
    exact iterator_panics hkv hk hiavl hlen hR
  · intro hnot
    exact iterator_yields hkv hk hb w fun hiavl hlen hR => hnot ⟨hiavl, hlen, hR⟩

end IteratorExact

/-- The scan of `iavlVersionScanBounds` on an empty store is the range on
which `Iterator` panics. -/
theorem treeDB_iterator_yields_or_panics_scan :
    (∀ k, ExactUnlessIAVL (refLib.kvIterator k) RefWorld.store) ∧
      (⟨some (), some (), none, false, none⟩ : TreeDB Unit Unit KVMap).kv = some () ∧
      hasEmptyBound (some iavlVersionScanBounds.1) (some iavlVersionScanBounds.2) = false ∧
      ((isPrefixedIAVLVersionRange iavlVersionScanBounds.1 iavlVersionScanBounds.2 = true ∧
          iavlVersionScanBounds.1.length = 9 ∧
          mapRange (RefWorld.store ⟨SortedMap.empty, []⟩) (some iavlVersionScanBounds.1)
            (some iavlVersionScanBounds.2) = [] →
        TreeDB.Iterator refLib (⟨some (), some (), none, false, none⟩ : TreeDB Unit Unit KVMap)
            (some iavlVersionScanBounds.1) (some iavlVersionScanBounds.2) ⟨SortedMap.empty, []⟩ =
          (.error (.panic "cpIncr expects non-zero bz length"), ⟨SortedMap.empty, []⟩)) ∧
      (¬(isPrefixedIAVLVersionRange iavlVersionScanBounds.1 iavlVersionScanBounds.2 = true ∧
          iavlVersionScanBounds.1.length = 9 ∧
          mapRange (RefWorld.store ⟨SortedMap.empty, []⟩) (some iavlVersionScanBounds.1)
            (some iavlVersionScanBounds.2) = []) →
        ∃ it, TreeDB.Iterator refLib (⟨some (), some (), none, false, none⟩ : TreeDB Unit Unit KVMap)
            (some iavlVersionScanBounds.1) (some iavlVersionScanBounds.2) ⟨SortedMap.empty, []⟩ =
            (.ok it, ⟨SortedMap.empty, []⟩) ∧
          coreIterOps.Yields it (mapRange (RefWorld.store ⟨SortedMap.empty, []⟩)
            (some iavlVersionScanBounds.1) (some iavlVersionScanBounds.2)))) :=
  have hkv : ∀ k, ExactUnlessIAVL (refLib.kvIterator k) RefWorld.store := fun _ _ _ _ => Or.inl rfl
  ⟨hkv, rfl, by decide,
    @treeDB_iterator_yields_or_panics Unit Unit KVMap ℕ RefWorld refLib RefWorld.store hkv
      ⟨some (), some (), none, false, none⟩ () rfl (some iavlVersionScanBounds.1)
      (some iavlVersionScanBounds.2) (by decide) ⟨SortedMap.empty, []⟩⟩

end CosmosDb
