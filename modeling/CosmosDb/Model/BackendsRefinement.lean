import CosmosDb.Model.Backends
import CosmosDb.Model.BackendIteratorRange
import CosmosDb.Model.MapDBRefinement

/-!
# CosmosDb — the engine backends refine the sorted map

Over an engine that behaves as a sorted map, each of `GoLevelDB`, `PebbleDB`
and `RocksDB` answers every call as the specification `mapDB` does
(`AnswersAsMapDB`), so that over every run it gives the specification's
replies, byte sizes apart, and leaves the engine holding the specification's
map (`goLevelDB_refines_mapDB`, `pebbleDB_refines_mapDB`,
`rocksDB_refines_mapDB`). The engines over the sorted map itself
(`mapLevelDBLib` and its siblings) meet each specification.

What an engine does is stated per engine (`IsLevelDBMap`, `IsPebbleMap`,
`IsRocksDBMap`), in the terms of its own calls: a read finds the map's
value, answering its not-found error or a slice that does not exist for a
missing key; a write changes the map; a write batch records its writes and
replays them in order when written; an iterator is opened on the entries of
its range (goleveldb, Pebble) or of the whole database (RocksDB).

The argument checks are the wrappers' own, and are those of the
specification. The methods the backends share are proved once
(`backendSet_sim` and its siblings).
-/

namespace CosmosDb

/-! ## The shared methods -/

section Shared

variable {σ WB : Type} (view : σ → KVMap) (ops : WB → List BatchOp)

theorem ne_nil_of_length_ne_zero {key : Bytes} (hk : ¬key.length = 0) : key ≠ [] := by
  rintro rfl
  exact hk rfl

theorem liftLib_ok {α : Type} (a : α) : liftLib (.ok a : Except DbError α) = .ok a := rfl

theorem backendSet_sim {put : σ → Bytes → Bytes → Except DbError Unit × σ}
    (hput : ∀ db key v, key ≠ [] →
      (put db key v).1 = .ok () ∧ view (put db key v).2 = (view db).set key v)
    (db : σ) (key : Bytes) (value : Option Bytes) :
    (backendSet put db key value).1 = (mapSet (view db) key value).1 ∧
      view (backendSet put db key value).2 = (mapSet (view db) key value).2 := by
  unfold backendSet mapSet
  by_cases hk : key.length = 0
  · simp only [hk, if_true, and_self]
  · cases value with
    | none => simp only [hk, if_false, and_self]
    | some v =>
      obtain ⟨h1, h2⟩ := hput db key v (ne_nil_of_length_ne_zero hk)
      simp only [hk, if_false, h1, h2, liftLib_ok, and_self]

theorem backendDelete_sim {delete : σ → Bytes → Except DbError Unit × σ}
    (hdelete : ∀ db key, key ≠ [] →
      (delete db key).1 = .ok () ∧ view (delete db key).2 = (view db).delete key)
    (db : σ) (key : Bytes) :
    (backendDelete delete db key).1 = (mapDelete (view db) key).1 ∧
      view (backendDelete delete db key).2 = (mapDelete (view db) key).2 := by
  unfold backendDelete mapDelete
  by_cases hk : key.length = 0
  · simp only [hk, if_true, and_self]
  · obtain ⟨h1, h2⟩ := hdelete db key (ne_nil_of_length_ne_zero hk)
    simp only [hk, if_false, h1, h2, liftLib_ok, and_self]

theorem backendBatchSet_sim {put : WB → Bytes → Bytes → Except DbError Unit × WB}
    (hput : ∀ wb key v, key ≠ [] →
      (put wb key v).1 = .ok () ∧ ops (put wb key v).2 = ops wb ++ [.set key v])
    (batch : Option WB) (key : Bytes) (value : Option Bytes) :
    (backendBatchSet put batch key value).1 = (mapDB.batchSet (batch.map ops) key value).1 ∧
      (backendBatchSet put batch key value).2.map ops =
        (mapDB.batchSet (batch.map ops) key value).2 := by
  simp only [mapDB, mapBatchRecord, backendBatchSet]
  by_cases hk : key.length = 0
  · simp only [hk, if_true, and_self]
  · cases value with
    | none => simp only [hk, if_false, if_true, and_self]
    | some v =>
      cases batch with
      | none => simp [hk]
      | some wb =>
        -- the checks pass: the engine batch records the write
        obtain ⟨h1, h2⟩ := hput wb key v (ne_nil_of_length_ne_zero hk)
        simp [hk, h1, h2, liftLib_ok]

theorem backendBatchDelete_sim {delete : WB → Bytes → Except DbError Unit × WB}
    (hdelete : ∀ wb key, key ≠ [] →
      (delete wb key).1 = .ok () ∧ ops (delete wb key).2 = ops wb ++ [.delete key])
    (batch : Option WB) (key : Bytes) :
    (backendBatchDelete delete batch key).1 = (mapDB.batchDelete (batch.map ops) key).1 ∧
      (backendBatchDelete delete batch key).2.map ops = (mapDB.batchDelete (batch.map ops) key).2 := by
  simp only [mapDB, mapBatchRecord, backendBatchDelete]
  by_cases hk : key.length = 0
  · simp only [hk, if_true, and_self]
  · cases batch with
    | none => simp [hk]
    | some wb =>
      obtain ⟨h1, h2⟩ := hdelete wb key (ne_nil_of_length_ne_zero hk)
      simp [hk, h1, h2, liftLib_ok]

/-- A batch write through an engine that replays the recorded writes, and a
`Close` that succeeds on an open batch, is the specification's write. -/
theorem backendBatchWrite_sim {write : σ → WB → Except DbError Unit × σ}
    {close : Option WB → Go Unit × Option WB}
    (hwrite : ∀ db wb, (write db wb).1 = .ok () ∧ view (write db wb).2 = (view db).applyOps (ops wb))
    (hclose : ∀ wb, close (some wb) = (.ok (), none)) (db : σ) (batch : Option WB) :
    (backendBatchWrite write close db batch).1 = (mapBatchWrite (view db) (batch.map ops)).1 ∧
      view (backendBatchWrite write close db batch).2.1 =
        (mapBatchWrite (view db) (batch.map ops)).2.1 ∧
      (backendBatchWrite write close db batch).2.2.map ops =
        (mapBatchWrite (view db) (batch.map ops)).2.2 := by
  cases batch with
  | none => exact ⟨rfl, rfl, rfl⟩
  | some wb =>
    obtain ⟨h1, h2⟩ := hwrite db wb
    simp [backendBatchWrite, mapBatchWrite, h1, h2, hclose]

theorem backendGetByteSize_sim (size : WB → Nat) (batch : Option WB) :
    (backendGetByteSize size batch).map (fun _ => ()) =
      (mapDB.batchGetByteSize (batch.map ops)).map fun _ => () := by
  cases batch <;> rfl

end Shared

/-! ## What the adapters answer -/

theorem backendIteratorEntries_eq {itr : BackendIterator (ListCursor (Bytes × Bytes))}
    {l : List (Bytes × Bytes)} (h : (backendIterOps listCursorOps).Yields itr l)
    (hl : l.length ≤ itr.source.entries.length) : backendIteratorEntries itr = l :=
  h.drain_eq _ (by omega)

theorem seekPosition_entries (src : ListCursor (Bytes × Bytes)) (start «end» : Option Bytes)
    (isReverse : Bool) : (seekPosition listCursorOps src start «end» isReverse).entries = src.entries := by
  cases isReverse with
  | false => cases start <;> rfl
  | true =>
    cases «end» with
    | none => rfl
    | some e =>
      simp only [seekPosition, ↓reduceIte]
      -- every cursor move keeps the entries
      split
      · split <;> rfl
      · rfl

/-- The entries of a range are all in it. -/
theorem mapRange_filter_self (m : KVMap) (start «end» : Option Bytes) :
    ((mapRange m start «end»).filter fun e => isKeyInDomain e.1 start «end») = mapRange m start «end» := by
  unfold mapRange
  rw [List.filter_filter]
  simp

/-- The goleveldb and RocksDB adapters over a cursor on ascending entries
answer the entries of `[start, end)` among them, in the iterator's direction. -/
theorem backendIteratorEntries_seekPosition (src : ListCursor (Bytes × Bytes))
    {E : List (Bytes × Bytes)} (hE : E.Pairwise fun x y => x.1 < y.1) (hsrc : src.entries = E)
    (start «end» : Option Bytes) (isReverse : Bool) :
    backendIteratorEntries ⟨seekPosition listCursorOps src start «end» isReverse, start, «end», isReverse, false⟩ =
      if isReverse then (E.filter fun e => isKeyInDomain e.1 start «end»).reverse
      else E.filter fun e => isKeyInDomain e.1 start «end» := by
  apply backendIteratorEntries_eq (seekPosition_yields listCursorOps_isEntryCursor src hE hsrc start «end» isReverse)
  -- the adapter answers part of the cursor's entries
  have hlen : (E.filter fun e => isKeyInDomain e.1 start «end»).length ≤ E.length :=
    List.length_filter_le _ _
  rw [seekPosition_entries, hsrc]
  split <;> simpa using hlen

/-- The Pebble adapter over a cursor on the entries of `[start, end)` answers
them, in the iterator's direction. -/
theorem backendIteratorEntries_pebble (src : ListCursor (Bytes × Bytes)) (S : KVMap)
    (start «end» : Option Bytes) (hsrc : src.entries = mapRange S start «end») (isReverse : Bool) :
    backendIteratorEntries (newPebbleDBIterator listCursorOps
        (if isReverse then listCursorOps.last src else listCursorOps.first src) start «end» isReverse) =
      if isReverse then (mapRange S start «end»).reverse else mapRange S start «end» := by
  apply backendIteratorEntries_eq (pebble_yields listCursorOps_isEntryCursor src S start «end» hsrc isReverse)
  cases isReverse <;> simp [newPebbleDBIterator, listCursorOps] <;> split_ifs <;> simp [hsrc]

/-- A read of the engine's map that reports a missing key as the engine's
not-found error, as goleveldb's and Pebble's `Get` do. -/
def mapLookup (m : KVMap) (key : Bytes) : Except DbError Bytes :=
  match m.get key with
  | some v => .ok v
  | none => .error .errKeyNotFound

/-- Mapping the not-found error back to a missing value reads the map. -/
theorem notFoundAsNil_mapLookup (m : KVMap) (key : Bytes) :
    notFoundAsNil ((mapLookup m key).map some) = .ok (m.get key) := by
  unfold mapLookup
  cases m.get key <;> rfl

/-- A cursor over `l`, off its entries: what the reference engines below open. -/
def cursorOn (l : List (Bytes × Bytes)) : ListCursor (Bytes × Bytes) :=
  ⟨l, none, fun _ h => by cases h⟩

/-- A run that writes, batches, scans both ways and reads. -/
def backendCalls : List Call :=
  [.set [1] (some [2]), .newBatch, .batchSet 0 [3] (some [4]), .batchDelete 0 [1], .batchWrite 0,
    .iterator none none, .setSync [5] (some [6]), .reverseIterator (some [3]) none, .get [1],
    .has [5], .batchGetByteSize 0]

/-! ## goleveldb -/

section GoLevelDB

variable {E WB : Type}

/-- goleveldb behaving as the sorted map `view e`, its batches as the lists of
writes `ops` reads off them. -/
structure IsLevelDBMap (lib : LevelDBLib E WB) (view : E → KVMap) (ops : WB → List BatchOp) :
    Prop where
  get : ∀ e key, key ≠ [] → lib.get e key = mapLookup (view e) key
  has : ∀ e key, key ≠ [] → lib.has e key = .ok ((view e).get key).isSome
  put : ∀ e key v sync, key ≠ [] →
    (lib.put e key v sync).1 = .ok () ∧ view (lib.put e key v sync).2 = (view e).set key v
  delete : ∀ e key sync, key ≠ [] →
    (lib.delete e key sync).1 = .ok () ∧ view (lib.delete e key sync).2 = (view e).delete key
  write : ∀ e wb sync,
    (lib.write e wb sync).1 = .ok () ∧ view (lib.write e wb sync).2 = (view e).applyOps (ops wb)
  newIterator : ∀ e lo hi, (lib.newIterator e lo hi).entries = mapRange (view e) lo hi
  newBatch : ops lib.newBatch = []
  makeBatch : ∀ size, ops (lib.makeBatch size) = []
  batchPut : ∀ wb key v, ops (lib.batchPut wb key v) = ops wb ++ [.set key v]
  batchDelete : ∀ wb key, ops (lib.batchDelete wb key) = ops wb ++ [.delete key]

variable {lib : LevelDBLib E WB} {view : E → KVMap} {ops : WB → List BatchOp}

theorem goLevelDB_iterator_eq (hlib : IsLevelDBMap lib view ops) (db : E) (start «end» : Option Bytes)
    (isReverse : Bool) :
    (goLevelDBNewIterator listCursorOps (lib.newIterator db start «end») start «end» isReverse).map
        backendIteratorEntries =
      if hasEmptyBound start «end» then throwErr .errKeyEmpty
      else .ok (if isReverse then (mapRange (view db) start «end»).reverse
        else mapRange (view db) start «end») := by
  unfold goLevelDBNewIterator
  by_cases hb : hasEmptyBound start «end» = true
  · rw [if_pos hb, if_pos hb]
    rfl
  · -- the engine's cursor holds the range already; the adapter cuts nothing more
    have h := backendIteratorEntries_seekPosition (lib.newIterator db start «end»)
      (mapRange_ascend (view db) start «end») (hlib.newIterator db start «end») start «end» isReverse
    rw [mapRange_filter_self] at h
    rw [if_neg hb, if_neg hb]
    exact congrArg Except.ok h

theorem goLevelDB_answersAsMapDB (hlib : IsLevelDBMap lib view ops) :
    AnswersAsMapDB (goLevelDB lib) view (Option.map ops) where
  get db key := by
    simp only [goLevelDB, GoLevelDB.Get, mapDB]
    split_ifs with hk
    · rfl
    · rw [hlib.get db key (ne_nil_of_length_ne_zero hk), notFoundAsNil_mapLookup]
  has db key := by
    simp only [goLevelDB, GoLevelDB.Has, mapDB]
    split_ifs with hk
    · rfl
    · rw [hlib.has db key (ne_nil_of_length_ne_zero hk), liftLib_ok]
  set := backendSet_sim view fun db key v hk => hlib.put db key v false hk
  setSync := backendSet_sim view fun db key v hk => hlib.put db key v true hk
  delete := backendDelete_sim view fun db key hk => hlib.delete db key false hk
  deleteSync := backendDelete_sim view fun db key hk => hlib.delete db key true hk
  iterator db start «end» := goLevelDB_iterator_eq hlib db start «end» false
  reverseIterator db start «end» := goLevelDB_iterator_eq hlib db start «end» true
  newBatch _ := by simp [goLevelDB, GoLevelDB.NewBatch, hlib.newBatch]
  newBatchWithSize _ size := by simp [goLevelDB, GoLevelDB.NewBatchWithSize, hlib.makeBatch]
  batchSet := backendBatchSet_sim ops fun wb key v _ => ⟨rfl, hlib.batchPut wb key v⟩
  batchDelete := backendBatchDelete_sim ops fun wb key _ => ⟨rfl, hlib.batchDelete wb key⟩
  batchWrite := backendBatchWrite_sim view ops (fun db wb => hlib.write db wb false) fun _ => rfl
  batchWriteSync := backendBatchWrite_sim view ops (fun db wb => hlib.write db wb true) fun _ => rfl
  batchClose _ := ⟨rfl, rfl⟩
  batchGetByteSize := backendGetByteSize_sim ops _

/-- goleveldb over the sorted map itself, its batches the lists of writes. -/
def mapLevelDBLib : LevelDBLib KVMap (List BatchOp) where
  get := mapLookup
  has m key := .ok (m.get key).isSome
  put m key v _ := (.ok (), m.set key v)
  delete m key _ := (.ok (), m.delete key)
  write m ops _ := (.ok (), m.applyOps ops)
  newIterator m lo hi := cursorOn (mapRange m lo hi)
  newBatch := []
  makeBatch _ := []
  batchPut ops key v := ops ++ [.set key v]
  batchDelete ops key := ops ++ [.delete key]
  batchDump _ := []

theorem mapLevelDBLib_isLevelDBMap : IsLevelDBMap mapLevelDBLib id id where
  get _ _ _ := rfl
  has _ _ _ := rfl
  put _ _ _ _ _ := ⟨rfl, rfl⟩
  delete _ _ _ _ := ⟨rfl, rfl⟩
  write _ _ _ := ⟨rfl, rfl⟩
  newIterator _ _ _ := rfl
  newBatch := rfl
  makeBatch _ := rfl
  batchPut _ _ _ := rfl
  batchDelete _ _ := rfl

theorem goLevelDB_refines_mapDB (hlib : IsLevelDBMap lib view ops) (db : E) (calls : List Call) :
    ((goLevelDB lib).runFrom db calls).2.map (·.map Reply.sizeless) =
        (mapDB.runFrom (view db) calls).2.map (·.map Reply.sizeless) ∧
      view ((goLevelDB lib).runFrom db calls).1.db = (mapDB.runFrom (view db) calls).1.db :=
  answersAsMapDB_refines (goLevelDB_answersAsMapDB hlib) db calls

theorem goLevelDB_refines_mapDB_ref :
    IsLevelDBMap mapLevelDBLib id id ∧
      (((goLevelDB mapLevelDBLib).runFrom SortedMap.empty backendCalls).2.map
          (·.map Reply.sizeless) =
        (mapDB.runFrom SortedMap.empty backendCalls).2.map (·.map Reply.sizeless) ∧
      ((goLevelDB mapLevelDBLib).runFrom SortedMap.empty backendCalls).1.db =
        (mapDB.runFrom SortedMap.empty backendCalls).1.db) :=
  ⟨mapLevelDBLib_isLevelDBMap, goLevelDB_refines_mapDB mapLevelDBLib_isLevelDBMap _ _⟩

end GoLevelDB

/-! ## Pebble -/

section Pebble

variable {E WB : Type}

/-- Pebble behaving as the sorted map `view e`, its batches as the lists of
writes `ops` reads off them; closing a batch succeeds. -/
structure IsPebbleMap (lib : PebbleLib E WB) (view : E → KVMap) (ops : WB → List BatchOp) :
    Prop where
  get : ∀ e key, key ≠ [] → lib.get e key = mapLookup (view e) key
  set : ∀ e key v sync, key ≠ [] →
    (lib.set e key v sync).1 = .ok () ∧ view (lib.set e key v sync).2 = (view e).set key v
  delete : ∀ e key sync, key ≠ [] →
    (lib.delete e key sync).1 = .ok () ∧ view (lib.delete e key sync).2 = (view e).delete key
  newIter : ∀ e lo hi, ∃ c, lib.newIter e lo hi = .ok c ∧ c.entries = mapRange (view e) lo hi
  newBatch : ∀ e, ops (lib.newBatch e) = []
  batchSet : ∀ wb key v, key ≠ [] →
    (lib.batchSet wb key v).1 = .ok () ∧ ops (lib.batchSet wb key v).2 = ops wb ++ [.set key v]
  batchDelete : ∀ wb key, key ≠ [] →
    (lib.batchDelete wb key).1 = .ok () ∧ ops (lib.batchDelete wb key).2 = ops wb ++ [.delete key]
  batchCommit : ∀ e wb sync,
    (lib.batchCommit e wb sync).1 = .ok () ∧
      view (lib.batchCommit e wb sync).2 = (view e).applyOps (ops wb)
  batchClose : ∀ wb, lib.batchClose wb = .ok ()

variable {lib : PebbleLib E WB} {view : E → KVMap} {ops : WB → List BatchOp}

theorem pebbleDB_get_eq (hlib : IsPebbleMap lib view ops) (db : E) (key : Bytes) :
    PebbleDB.Get lib db key = mapDB.get (view db) key := by
  simp only [PebbleDB.Get, mapDB]
  split_ifs with hk
  · rfl
  · rw [hlib.get db key (ne_nil_of_length_ne_zero hk), mapLookup]
    cases (view db).get key <;> rfl

theorem pebbleDB_newIterator_eq (hlib : IsPebbleMap lib view ops) (db : E)
    (start «end» : Option Bytes) (isReverse : Bool) :
    PebbleDB.newIterator lib db start «end» isReverse =
      if hasEmptyBound start «end» then throwErr .errKeyEmpty
      else .ok (if isReverse then (mapRange (view db) start «end»).reverse
        else mapRange (view db) start «end») := by
  unfold PebbleDB.newIterator
  by_cases hb : hasEmptyBound start «end» = true
  · rw [if_pos hb, if_pos hb]
  · obtain ⟨c, hc, hentries⟩ := hlib.newIter db start «end»
    rw [if_neg hb, if_neg hb, hc]
    simp only [pebbleDBNewIterator, if_neg hb]
    exact congrArg Except.ok (backendIteratorEntries_pebble c (view db) start «end» hentries isReverse)

/-- `Close` of an open batch succeeds and closes it. -/
theorem pebbleDBBatch_close_some (hlib : IsPebbleMap lib view ops) (wb : WB) :
    PebbleDBBatch.Close lib (some wb) = (.ok (), none) := by
  simp [PebbleDBBatch.Close, hlib.batchClose wb]

theorem pebbleDB_answersAsMapDB (hlib : IsPebbleMap lib view ops) :
    AnswersAsMapDB (pebbleDB lib) view (Option.map ops) where
  get := pebbleDB_get_eq hlib
  has db key := by
    simp only [pebbleDB, PebbleDB.Has, mapDB]
    split_ifs with hk
    · rfl
    · rw [pebbleDB_get_eq hlib, mapDB]
      simp [hk, Except.map]
  set := backendSet_sim view fun db key v hk => hlib.set db key v isForceSync hk
  setSync := backendSet_sim view fun db key v hk => hlib.set db key v true hk
  delete := backendDelete_sim view fun db key hk => hlib.delete db key isForceSync hk
  deleteSync := backendDelete_sim view fun db key hk => hlib.delete db key true hk
  iterator db start «end» := pebbleDB_newIterator_eq hlib db start «end» false
  reverseIterator db start «end» := pebbleDB_newIterator_eq hlib db start «end» true
  newBatch db := by simp [pebbleDB, PebbleDB.NewBatch, hlib.newBatch]
  newBatchWithSize db _ := by simp [pebbleDB, PebbleDB.NewBatch, hlib.newBatch]
  batchSet := backendBatchSet_sim ops hlib.batchSet
  batchDelete := backendBatchDelete_sim ops hlib.batchDelete
  batchWrite := backendBatchWrite_sim view ops (fun db wb => hlib.batchCommit db wb isForceSync)
    (pebbleDBBatch_close_some hlib)
  batchWriteSync := backendBatchWrite_sim view ops (fun db wb => hlib.batchCommit db wb true)
    (pebbleDBBatch_close_some hlib)
  batchClose b := by
    cases b with
    | none => exact ⟨rfl, rfl⟩
    | some wb => simp [pebbleDB, pebbleDBBatch_close_some hlib wb]
  batchGetByteSize := backendGetByteSize_sim ops _

/-- Pebble over the sorted map itself, its batches the lists of writes. -/
def mapPebbleLib : PebbleLib KVMap (List BatchOp) where
  get := mapLookup
  set m key v _ := (.ok (), m.set key v)
  delete m key _ := (.ok (), m.delete key)
  newIter m lo hi := .ok (cursorOn (mapRange m lo hi))
  newBatch _ := []
  batchSet ops key v := (.ok (), ops ++ [.set key v])
  batchDelete ops key := (.ok (), ops ++ [.delete key])
  batchCommit m ops _ := (.ok (), m.applyOps ops)
  batchClose _ := .ok ()
  batchLen ops := ops.length

theorem mapPebbleLib_isPebbleMap : IsPebbleMap mapPebbleLib id id where
  get _ _ _ := rfl
  set _ _ _ _ _ := ⟨rfl, rfl⟩
  delete _ _ _ _ := ⟨rfl, rfl⟩
  newIter _ _ _ := ⟨_, rfl, rfl⟩
  newBatch _ := rfl
  batchSet _ _ _ _ := ⟨rfl, rfl⟩
  batchDelete _ _ _ := ⟨rfl, rfl⟩
  batchCommit _ _ _ := ⟨rfl, rfl⟩
  batchClose _ := rfl

theorem pebbleDB_refines_mapDB (hlib : IsPebbleMap lib view ops) (db : E) (calls : List Call) :
    ((pebbleDB lib).runFrom db calls).2.map (·.map Reply.sizeless) =
        (mapDB.runFrom (view db) calls).2.map (·.map Reply.sizeless) ∧
      view ((pebbleDB lib).runFrom db calls).1.db = (mapDB.runFrom (view db) calls).1.db :=
  answersAsMapDB_refines (pebbleDB_answersAsMapDB hlib) db calls

theorem pebbleDB_refines_mapDB_ref :
    IsPebbleMap mapPebbleLib id id ∧
      (((pebbleDB mapPebbleLib).runFrom SortedMap.empty backendCalls).2.map
          (·.map Reply.sizeless) =
        (mapDB.runFrom SortedMap.empty backendCalls).2.map (·.map Reply.sizeless) ∧
      ((pebbleDB mapPebbleLib).runFrom SortedMap.empty backendCalls).1.db =
        (mapDB.runFrom SortedMap.empty backendCalls).1.db) :=
  ⟨mapPebbleLib_isPebbleMap, pebbleDB_refines_mapDB mapPebbleLib_isPebbleMap _ _⟩

end Pebble

/-! ## RocksDB -/

section RocksDB

variable {E WB : Type}

/-- RocksDB behaving as the sorted map `view e`, its write batches as the
lists of writes `ops` reads off them. -/
structure IsRocksDBMap (lib : RocksDBLib E WB) (view : E → KVMap) (ops : WB → List BatchOp) :
    Prop where
  get : ∀ e key, key ≠ [] → lib.get e key = .ok ((view e).get key)
  put : ∀ e key v sync, key ≠ [] →
    (lib.put e key v sync).1 = .ok () ∧ view (lib.put e key v sync).2 = (view e).set key v
  delete : ∀ e key sync, key ≠ [] →
    (lib.delete e key sync).1 = .ok () ∧ view (lib.delete e key sync).2 = (view e).delete key
  write : ∀ e wb sync,
    (lib.write e wb sync).1 = .ok () ∧ view (lib.write e wb sync).2 = (view e).applyOps (ops wb)
  newIterator : ∀ e, (lib.newIterator e).entries = (view e).entries
  newWriteBatch : ops lib.newWriteBatch = []
  batchPut : ∀ wb key v, ops (lib.batchPut wb key v) = ops wb ++ [.set key v]
  batchDelete : ∀ wb key, ops (lib.batchDelete wb key) = ops wb ++ [.delete key]

variable {lib : RocksDBLib E WB} {view : E → KVMap} {ops : WB → List BatchOp}

theorem moveSliceToBytes_eq (s : Option Bytes) : moveSliceToBytes s = s := by
  cases s <;> rfl

theorem rocksDB_get_eq (hlib : IsRocksDBMap lib view ops) (db : E) (key : Bytes) :
    RocksDB.Get lib db key = mapDB.get (view db) key := by
  simp only [RocksDB.Get, mapDB]
  split_ifs with hk
  · rfl
  · rw [hlib.get db key (ne_nil_of_length_ne_zero hk)]
    simp [Except.map, moveSliceToBytes_eq, liftLib_ok]

theorem rocksDB_newIterator_eq (hlib : IsRocksDBMap lib view ops) (db : E)
    (start «end» : Option Bytes) (isReverse : Bool) :
    RocksDB.newIterator lib db start «end» isReverse =
      if hasEmptyBound start «end» then throwErr .errKeyEmpty
      else .ok (if isReverse then (mapRange (view db) start «end»).reverse
        else mapRange (view db) start «end») := by
  unfold RocksDB.newIterator
  by_cases hb : hasEmptyBound start «end» = true
  · rw [if_pos hb, if_pos hb]
  · -- the adapter cuts the range out of the whole database
    rw [if_neg hb, if_neg hb, newRocksDBIterator, backendIteratorEntries_seekPosition _ (view db).ascend
      (hlib.newIterator db) start «end» isReverse]
    rfl

/-- Dropping the outcome of `Close` after the write changes nothing: `Close`
never fails. -/
theorem rocksDBBatch_write_eq (db : E) (batch : Option WB) :
    RocksDBBatch.Write lib db batch =
      backendBatchWrite (fun e wb => lib.write e wb false) RocksDBBatch.Close db batch := by
  cases batch with
  | none => rfl
  | some wb =>
    simp only [RocksDBBatch.Write, backendBatchWrite]
    split <;> rfl

theorem rocksDB_answersAsMapDB (hlib : IsRocksDBMap lib view ops) :
    AnswersAsMapDB (rocksDB lib) view (Option.map ops) where
  get := rocksDB_get_eq hlib
  has db key := by
    simp only [rocksDB, RocksDB.Has, rocksDB_get_eq hlib, mapDB]
    split_ifs <;> rfl
  set := backendSet_sim view fun db key v hk => hlib.put db key v false hk
  setSync := backendSet_sim view fun db key v hk => hlib.put db key v true hk
  delete := backendDelete_sim view fun db key hk => hlib.delete db key false hk
  deleteSync := backendDelete_sim view fun db key hk => hlib.delete db key true hk
  iterator db start «end» := rocksDB_newIterator_eq hlib db start «end» false
  reverseIterator db start «end» := rocksDB_newIterator_eq hlib db start «end» true
  newBatch _ := by simp [rocksDB, RocksDB.NewBatch, hlib.newWriteBatch]
  newBatchWithSize _ _ := by simp [rocksDB, RocksDB.NewBatch, hlib.newWriteBatch]
  batchSet := backendBatchSet_sim ops fun wb key v _ => ⟨rfl, hlib.batchPut wb key v⟩
  batchDelete := backendBatchDelete_sim ops fun wb key _ => ⟨rfl, hlib.batchDelete wb key⟩
  batchWrite db b := by
    simp only [rocksDB]
    rw [rocksDBBatch_write_eq]
    exact backendBatchWrite_sim view ops (fun db wb => hlib.write db wb false) (fun _ => rfl) db b
  batchWriteSync := backendBatchWrite_sim view ops (fun db wb => hlib.write db wb true) fun _ => rfl
  batchClose _ := ⟨rfl, rfl⟩
  batchGetByteSize := backendGetByteSize_sim ops _

/-- RocksDB over the sorted map itself, its write batches the lists of writes. -/
def mapRocksDBLib : RocksDBLib KVMap (List BatchOp) where
  get m key := .ok (m.get key)
  put m key v _ := (.ok (), m.set key v)
  delete m key _ := (.ok (), m.delete key)
  write m ops _ := (.ok (), m.applyOps ops)
  newIterator m := cursorOn m.entries
  newWriteBatch := []
  batchPut ops key v := ops ++ [.set key v]
  batchDelete ops key := ops ++ [.delete key]
  batchData _ := []

theorem mapRocksDBLib_isRocksDBMap : IsRocksDBMap mapRocksDBLib id id where
  get _ _ _ := rfl
  put _ _ _ _ _ := ⟨rfl, rfl⟩
  delete _ _ _ _ := ⟨rfl, rfl⟩
  write _ _ _ := ⟨rfl, rfl⟩
  newIterator _ := rfl
  newWriteBatch := rfl
  batchPut _ _ _ := rfl
  batchDelete _ _ := rfl

theorem rocksDB_refines_mapDB (hlib : IsRocksDBMap lib view ops) (db : E) (calls : List Call) :
    ((rocksDB lib).runFrom db calls).2.map (·.map Reply.sizeless) =
        (mapDB.runFrom (view db) calls).2.map (·.map Reply.sizeless) ∧
      view ((rocksDB lib).runFrom db calls).1.db = (mapDB.runFrom (view db) calls).1.db :=
  answersAsMapDB_refines (rocksDB_answersAsMapDB hlib) db calls

theorem rocksDB_refines_mapDB_ref :
    IsRocksDBMap mapRocksDBLib id id ∧
      (((rocksDB mapRocksDBLib).runFrom SortedMap.empty backendCalls).2.map
          (·.map Reply.sizeless) =
        (mapDB.runFrom SortedMap.empty backendCalls).2.map (·.map Reply.sizeless) ∧
      ((rocksDB mapRocksDBLib).runFrom SortedMap.empty backendCalls).1.db =
        (mapDB.runFrom SortedMap.empty backendCalls).1.db) :=
  ⟨mapRocksDBLib_isRocksDBMap, rocksDB_refines_mapDB mapRocksDBLib_isRocksDBMap _ _⟩

end RocksDB

end CosmosDb
