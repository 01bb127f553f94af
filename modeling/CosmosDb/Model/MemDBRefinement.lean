import CosmosDb.Model.MemDBIterator

/-!
# CosmosDb — `MemDB` refines a sorted map

Over a B-tree that behaves as documented, `MemDB` with `memDBBatch` answers
every sequence of calls as the specification `mapDB` answers it on the tree's
contents: the same replies, errors included, and the same map after every
call. A batch is related to the list of writes it recorded
(`MemDBBatch.recorded`), and its `size` counts their bytes (`SizeOk`), which is
what `GetByteSize` returns.

Results:

* `memDB_isSortedMapDB` — `MemDB` is a database that `PrefixDB` can wrap;
* `memDB_failsCleanly` — a failed write leaves the database and the batch;
* `memDB_step_sim` — one call, on related systems.
-/

namespace CosmosDb

/-- The write an `operation` stands for. -/
def Operation.toBatchOp (op : Operation) : BatchOp :=
  match op.opType with
  | .opTypeSet => .set op.key op.value
  | .opTypeDelete => .delete op.key

namespace MemDBBatch

/-- The writes the batch recorded, nil once it is written or closed. -/
def recorded (b : MemDBBatch) : Option (List BatchOp) := b.ops.map (List.map Operation.toBatchOp)

/-- While the batch is open, `size` is the byte count of its writes. -/
def SizeOk (b : MemDBBatch) : Prop :=
  ∀ ops, b.ops = some ops → b.size = (ops.map fun op => op.toBatchOp.byteSize).sum

theorem set_sim (b : MemDBBatch) (key : Bytes) (value : Option Bytes) :
    (b.Set key value).1 = (mapDB.batchSet b.recorded key value).1 ∧
      (b.Set key value).2.recorded = (mapDB.batchSet b.recorded key value).2 := by
  simp only [MemDBBatch.Set, mapDB, mapBatchRecord]
  by_cases hk : key.length = 0
  · simp [hk]
  · cases value with
    | none => simp [hk]
    | some v =>
      cases hops : b.ops with
      | none => simp [hk, recorded, hops]
      | some ops => simp [hk, recorded, hops, Operation.toBatchOp]

theorem delete_sim (b : MemDBBatch) (key : Bytes) :
    (b.Delete key).1 = (mapDB.batchDelete b.recorded key).1 ∧
      (b.Delete key).2.recorded = (mapDB.batchDelete b.recorded key).2 := by
  simp only [MemDBBatch.Delete, mapDB, mapBatchRecord]
  by_cases hk : key.length = 0
  · simp [hk]
  · cases hops : b.ops with
    | none => simp [hk, recorded, hops]
    | some ops => simp [hk, recorded, hops, Operation.toBatchOp]

theorem set_sizeOk {b : MemDBBatch} (hb : b.SizeOk) (key : Bytes) (value : Option Bytes) :
    (b.Set key value).2.SizeOk := by
  unfold MemDBBatch.Set
  split_ifs with hk
  · exact hb
  · cases value with
    | none => exact hb
    | some v =>
      cases hops : b.ops with
      | none => simpa [hops] using hb
      | some ops =>
        -- the new write adds its key and value to the count
        intro ops' hops'
        simp only [Option.some.injEq] at hops'
        subst hops'
        simp [hb ops hops, Operation.toBatchOp, BatchOp.byteSize]

theorem delete_sizeOk {b : MemDBBatch} (hb : b.SizeOk) (key : Bytes) :
    (b.Delete key).2.SizeOk := by
  unfold MemDBBatch.Delete
  split_ifs with hk
  · exact hb
  · cases hops : b.ops with
    | none => simpa [hops] using hb
    | some ops =>
      intro ops' hops'
      simp only [Option.some.injEq] at hops'
      subst hops'
      simp [hb ops hops, Operation.toBatchOp, BatchOp.byteSize]

theorem close_sizeOk (b : MemDBBatch) : (Close b).SizeOk := by
  intro ops h
  cases h

theorem getByteSize_eq {b : MemDBBatch} (hb : b.SizeOk) :
    b.GetByteSize = mapDB.batchGetByteSize b.recorded := by
  cases hops : b.ops with
  | none => simp [GetByteSize, mapDB, recorded, hops]
  | some ops => simp [GetByteSize, mapDB, recorded, hops, hb ops hops, Function.comp_def]

section Write

variable {T : Type} {bt : BTreeOps T} {contents : T → KVMap}

/-- `Write`'s loop writes the tree as the recorded writes write the map. -/
theorem foldl_writeOp (hbt : IsOrderedBTree bt contents) (ops : List Operation) (db : MemDB T) :
    contents (ops.foldl (writeOp bt) db).btree =
      (contents db.btree).applyOps (ops.map Operation.toBatchOp) := by
  induction ops generalizing db with
  | nil => rfl
  | cons op ops ih =>
    rw [List.foldl_cons, ih, List.map_cons, SortedMap.applyOps_cons]
    congr 1
    obtain ⟨opType, key, value⟩ := op
    cases opType with
    | opTypeSet =>
      simp [writeOp, MemDB.set, hbt.replaceOrInsert, Operation.toBatchOp, SortedMap.applyOp]
    | opTypeDelete =>
      simp [writeOp, MemDB.delete, hbt.delete, Operation.toBatchOp, SortedMap.applyOp]

theorem write_sim (hbt : IsOrderedBTree bt contents) (db : MemDB T) (b : MemDBBatch) :
    (Write bt db b).1 = (mapBatchWrite (contents db.btree) b.recorded).1 ∧
      contents (Write bt db b).2.1.btree = (mapBatchWrite (contents db.btree) b.recorded).2.1 ∧
      (Write bt db b).2.2.recorded = (mapBatchWrite (contents db.btree) b.recorded).2.2 := by
  cases hops : b.ops with
  | none => simp [Write, mapBatchWrite, recorded, hops]
  | some ops => simp [Write, mapBatchWrite, recorded, hops, foldl_writeOp hbt, Close]

end Write

end MemDBBatch

/-! ## The database -/

section Methods

variable {T : Type} {bt : BTreeOps T} {contents : T → KVMap}

theorem memDB_get_eq (hbt : IsOrderedBTree bt contents) (db : MemDB T) (key : Bytes) :
    (memDB bt).get db key = mapDB.get (contents db.btree) key := by
  simp only [memDB, mapDB]
  split_ifs
  · rfl
  · simp [hbt.get, Option.map_map, Function.comp_def]

theorem memDB_has_eq (hbt : IsOrderedBTree bt contents) (db : MemDB T) (key : Bytes) :
    (memDB bt).has db key = mapDB.has (contents db.btree) key := by
  simp only [memDB, mapDB]
  split_ifs
  · rfl
  · simp [hbt.has]

theorem memDB_set_sim (hbt : IsOrderedBTree bt contents) (db : MemDB T) (key : Bytes)
    (value : Option Bytes) :
    (MemDB.Set bt db key value).1 = (mapSet (contents db.btree) key value).1 ∧
      contents (MemDB.Set bt db key value).2.btree = (mapSet (contents db.btree) key value).2 := by
  unfold MemDB.Set mapSet
  split_ifs
  · exact ⟨rfl, rfl⟩
  · cases value with
    | none => exact ⟨rfl, rfl⟩
    | some v => exact ⟨rfl, hbt.replaceOrInsert _ _ _⟩

theorem memDB_delete_sim (hbt : IsOrderedBTree bt contents) (db : MemDB T) (key : Bytes) :
    (MemDB.Delete bt db key).1 = (mapDelete (contents db.btree) key).1 ∧
      contents (MemDB.Delete bt db key).2.btree = (mapDelete (contents db.btree) key).2 := by
  unfold MemDB.Delete mapDelete
  split_ifs
  · exact ⟨rfl, rfl⟩
  · exact ⟨rfl, hbt.delete _ _⟩

/-- `MemDB` behaves as a sorted map, so `PrefixDB` over it refines the
specification. -/
theorem memDB_isSortedMapDB (hbt : IsOrderedBTree bt contents) :
    IsSortedMapDB (memDB bt) (fun db => contents db.btree) MemDBBatch.recorded where
  get db key _ := memDB_get_eq hbt db key
  has db key _ := memDB_has_eq hbt db key
  set db key v hk := by
    have hk' : key.length ≠ 0 := by simpa using hk
    exact ⟨by simp [memDB, MemDB.Set, hk'], (memDB_set_sim hbt db key (some v)).2.trans
      (by simp [mapSet, hk'])⟩
  setSync db key v hk := by
    have hk' : key.length ≠ 0 := by simpa using hk
    exact ⟨by simp [memDB, MemDB.Set, hk'], (memDB_set_sim hbt db key (some v)).2.trans
      (by simp [mapSet, hk'])⟩
  delete db key hk := by
    have hk' : key.length ≠ 0 := by simpa using hk
    exact ⟨by simp [memDB, MemDB.Delete, hk'], (memDB_delete_sim hbt db key).2.trans
      (by simp [mapDelete, hk'])⟩
  deleteSync db key hk := by
    have hk' : key.length ≠ 0 := by simpa using hk
    exact ⟨by simp [memDB, MemDB.Delete, hk'], (memDB_delete_sim hbt db key).2.trans
      (by simp [mapDelete, hk'])⟩
  iterator db start «end» _ := memDB_iterator_eq hbt db start «end»
  reverseIterator db start «end» _ := memDB_reverseIterator_eq hbt db start «end»
  newBatch _ := rfl
  newBatchWithSize _ _ := rfl
  batchSet b key v _ := MemDBBatch.set_sim b key (some v)
  batchDelete b key _ := MemDBBatch.delete_sim b key
  batchWrite db b := MemDBBatch.write_sim hbt db b
  batchWriteSync db b := MemDBBatch.write_sim hbt db b
  batchClose _ := ⟨rfl, rfl⟩

/-! ## Failed calls -/

theorem memDB_set_error {db : MemDB T} {key : Bytes} {value : Option Bytes} {e : Failure}
    (h : (MemDB.Set bt db key value).1 = .error e) : (MemDB.Set bt db key value).2 = db := by
  unfold MemDB.Set at h ⊢
  split_ifs at h ⊢
  · rfl
  · cases value with
    | none => rfl
    | some v => simp at h

theorem memDB_delete_error {db : MemDB T} {key : Bytes} {e : Failure}
    (h : (MemDB.Delete bt db key).1 = .error e) : (MemDB.Delete bt db key).2 = db := by
  unfold MemDB.Delete at h ⊢
  -- only the empty-key check fails, and it returns the database as it was
  split_ifs at h ⊢
  rfl

theorem memDBBatch_set_error {b : MemDBBatch} {key : Bytes} {value : Option Bytes} {e : Failure}
    (h : (b.Set key value).1 = .error e) : (b.Set key value).2 = b := by
  unfold MemDBBatch.Set at h ⊢
  split_ifs at h ⊢
  · rfl
  · cases value with
    | none => rfl
    | some v =>
      cases hops : b.ops with
      | none => simp
      | some ops => simp [hops] at h

theorem memDBBatch_delete_error {b : MemDBBatch} {key : Bytes} {e : Failure}
    (h : (b.Delete key).1 = .error e) : (b.Delete key).2 = b := by
  unfold MemDBBatch.Delete at h ⊢
  split_ifs at h ⊢
  · rfl
  · cases hops : b.ops with
    | none => simp
    | some ops => simp [hops] at h

theorem memDBBatch_write_error {db : MemDB T} {b : MemDBBatch} {e : Failure}
    (h : (MemDBBatch.Write bt db b).1 = .error e) : (MemDBBatch.Write bt db b).2 = (db, b) := by
  unfold MemDBBatch.Write at h ⊢
  cases hops : b.ops with
  | none => simp
  | some ops => simp [hops] at h

/-- Every write of `MemDB` and of its batches that fails changes nothing. -/
theorem memDB_failsCleanly : DB.FailsCleanly (memDB bt) where
  set _ _ _ _ h := memDB_set_error h
  setSync _ _ _ _ h := memDB_set_error h
  delete _ _ _ h := memDB_delete_error h
  deleteSync _ _ _ h := memDB_delete_error h
  batchSet _ _ _ _ h := memDBBatch_set_error h
  batchDelete _ _ _ h := memDBBatch_delete_error h
  batchWrite _ _ _ h := memDBBatch_write_error h
  batchWriteSync _ _ _ h := memDBBatch_write_error h
  batchClose _ _ h := by cases h

end Methods

/-! ## One call -/

section Refinement

variable {T : Type} {bt : BTreeOps T} {contents : T → KVMap}

/-- The simulation relation: the tree holds the specification's map, each
batch recorded the specification batch's writes, and every batch's `size`
counts its bytes. -/
structure MemSim (contents : T → KVMap) (sC : Sys (MemDB T) MemDBBatch)
    (sA : Sys KVMap (Option (List BatchOp))) : Prop where
  db : contents sC.db.btree = sA.db
  batches : sC.batches.map MemDBBatch.recorded = sA.batches
  sizes : ∀ b ∈ sC.batches, b.SizeOk

theorem MemSim.with_db {sC : Sys (MemDB T) MemDBBatch} {sA : Sys KVMap (Option (List BatchOp))}
    (hR : MemSim contents sC sA) {d : MemDB T} {m : KVMap} (h : contents d.btree = m) :
    MemSim contents { sC with db := d } { sA with db := m } :=
  ⟨h, hR.batches, hR.sizes⟩

theorem MemSim.batches_map_id {sC : Sys (MemDB T) MemDBBatch}
    {sA : Sys KVMap (Option (List BatchOp))} (hR : MemSim contents sC sA) :
    sC.batches.map MemDBBatch.recorded = sA.batches.map id := by
  rw [List.map_id]
  exact hR.batches

/-- A call on batch `b` by a method that records what the specification's
records and keeps the size invariant: the relation is kept, with the same
reply. -/
theorem MemSim.onBatch {sC : Sys (MemDB T) MemDBBatch} {sA : Sys KVMap (Option (List BatchOp))}
    (hR : MemSim contents sC sA) (b : Nat) (f : MemDBBatch → Go Unit × MemDBBatch)
    (g : Option (List BatchOp) → Go Unit × Option (List BatchOp))
    (hfg : ∀ x, (f x).1 = (g x.recorded).1 ∧ (f x).2.recorded = (g x.recorded).2)
    (hsize : ∀ x, x.SizeOk → (f x).2.SizeOk) :
    MemSim contents (DB.onBatch sC b f).1 (DB.onBatch sA b g).1 ∧
      (DB.onBatch sC b f).2 = (DB.onBatch sA b g).2 := by
  have hfg' : ∀ x y, y ∈ sA.batches → x.recorded = id y →
      (f x).1 = (g y).1 ∧ (f x).2.recorded = id (g y).2 := by
    intro x y _ hxy
    rw [id] at hxy
    rw [← hxy]
    exact hfg x
  obtain ⟨hr, hbs, hdbC, hdbA⟩ := DB.onBatch_sim hR.batches_map_id b hfg'
  refine ⟨⟨by rw [hdbC, hdbA]; exact hR.db, by rw [hbs, List.map_id], ?_⟩, hr⟩
  exact DB.onBatch_forall MemDBBatch.SizeOk b hsize hR.sizes

/-- `Write` and `WriteSync` of batch `b`: the tree takes the writes the
specification replays, and the relation is kept. -/
theorem MemSim.onBatchWrite (hbt : IsOrderedBTree bt contents) {sC : Sys (MemDB T) MemDBBatch}
    {sA : Sys KVMap (Option (List BatchOp))} (hR : MemSim contents sC sA) (b : Nat) :
    MemSim contents (DB.onBatchWrite sC b (MemDBBatch.Write bt)).1
        (DB.onBatchWrite sA b mapBatchWrite).1 ∧
      (DB.onBatchWrite sC b (MemDBBatch.Write bt)).2 = (DB.onBatchWrite sA b mapBatchWrite).2 := by
  have hfg : ∀ x y, y ∈ sA.batches → x.recorded = id y →
      (MemDBBatch.Write bt sC.db x).1 = (mapBatchWrite sA.db y).1 ∧
        contents (MemDBBatch.Write bt sC.db x).2.1.btree = (mapBatchWrite sA.db y).2.1 ∧
        (MemDBBatch.Write bt sC.db x).2.2.recorded = id (mapBatchWrite sA.db y).2.2 := by
    intro x y _ hxy
    rw [id] at hxy
    rw [← hxy, ← hR.db]
    exact MemDBBatch.write_sim hbt sC.db x
  obtain ⟨hr, hbs, hdb⟩ := DB.onBatchWrite_sim hR.batches_map_id b
    (fun d m => contents d.btree = m) hR.db hfg
  refine ⟨⟨hdb, by rw [hbs, List.map_id], ?_⟩, hr⟩
  -- a written batch is closed; a failed write leaves the batch
  refine DB.onBatchWrite_forall MemDBBatch.SizeOk b (fun x hx => ?_) hR.sizes
  unfold MemDBBatch.Write
  cases hops : x.ops with
  | none => simpa [hops] using hx
  | some ops => exact MemDBBatch.close_sizeOk x

/-- One call on `MemDB` and on the specification over its contents: related
systems stay related and give the same reply, whatever the call. -/
theorem memDB_step_sim (hbt : IsOrderedBTree bt contents) {sC : Sys (MemDB T) MemDBBatch}
    {sA : Sys KVMap (Option (List BatchOp))} (hR : MemSim contents sC sA) (c : Call) :
    MemSim contents ((memDB bt).step sC c).1 (mapDB.step sA c).1 ∧
      ((memDB bt).step sC c).2 = (mapDB.step sA c).2 := by
  cases c with
  | get key =>
    refine ⟨hR, ?_⟩
    simp only [DB.step]
    rw [memDB_get_eq hbt, hR.db]
  | has key =>
    refine ⟨hR, ?_⟩
    simp only [DB.step]
    rw [memDB_has_eq hbt, hR.db]
  | set key value | setSync key value =>
    obtain ⟨h1, h2⟩ := memDB_set_sim hbt sC.db key value
    rw [hR.db] at h1 h2
    exact ⟨hR.with_db h2, by simp only [DB.step, memDB, mapDB, h1]⟩
  | delete key | deleteSync key =>
    obtain ⟨h1, h2⟩ := memDB_delete_sim hbt sC.db key
    rw [hR.db] at h1 h2
    exact ⟨hR.with_db h2, by simp only [DB.step, memDB, mapDB, h1]⟩
  | iterator start «end» =>
    refine ⟨hR, ?_⟩
    simp only [DB.step]
    rw [memDB_iterator_eq hbt, hR.db]
  | reverseIterator start «end» =>
    refine ⟨hR, ?_⟩
    simp only [DB.step]
    rw [memDB_reverseIterator_eq hbt, hR.db]
  | newBatch | newBatchWithSize size =>
    -- the new batch is open and empty on both sides
    have hlen : sC.batches.length = sA.batches.length := by
      rw [← hR.batches, List.length_map]
    refine ⟨⟨hR.db, ?_, ?_⟩, ?_⟩
    · simp [DB.step, memDB, mapDB, hR.batches, MemDBBatch.recorded, newMemDBBatch]
    · intro b hb
      simp only [DB.step, memDB, List.mem_append, List.mem_singleton] at hb
      rcases hb with hb | rfl
      · exact hR.sizes b hb
      · intro ops h
        cases h
        rfl
    · simp [DB.step, memDB, mapDB, hlen]
  | batchSet b key value =>
    exact hR.onBatch b _ _ (fun x => MemDBBatch.set_sim x key value)
      (fun x hx => MemDBBatch.set_sizeOk hx key value)
  | batchDelete b key =>
    exact hR.onBatch b _ _ (fun x => MemDBBatch.delete_sim x key)
      (fun x hx => MemDBBatch.delete_sizeOk hx key)
  | batchWrite b => exact hR.onBatchWrite hbt b
  | batchWriteSync b => exact hR.onBatchWrite hbt b
  | batchClose b =>
    exact hR.onBatch b _ _ (fun _ => ⟨rfl, rfl⟩) (fun x _ => MemDBBatch.close_sizeOk x)
  | batchGetByteSize b =>
    -- the batch looked up on both sides is the same, and its size is its byte count
    have hi := DB.getElem?_map_eq hR.batches_map_id b
    simp only [DB.step]
    cases hC : sC.batches[b]? with
    | none =>
      cases hA : sA.batches[b]? with
      | none => exact ⟨hR, rfl⟩
      | some y => rw [hC, hA] at hi; cases hi
    | some x =>
      cases hA : sA.batches[b]? with
      | none => rw [hC, hA] at hi; cases hi
      | some y =>
        rw [hC, hA] at hi
        have hxy : x.recorded = y := Option.some.inj hi
        have hx : x.SizeOk := hR.sizes x (List.mem_of_getElem? hC)
        refine ⟨hR, ?_⟩
        simp only [memDB, MemDBBatch.getByteSize_eq hx, hxy]

end Refinement

/-! ## Every run -/

/-- `MemDB` over a B-tree that behaves as documented answers every sequence
of calls as the sorted map that starts as its contents: the same replies
(errors and byte sizes included), the same map after the run, and batches
that recorded the same writes. A call that fails changes nothing. -/
theorem memDB_refines_mapDB {T : Type} (bt : BTreeOps T) (contents : T → KVMap)
    (hbt : IsOrderedBTree bt contents) (db : MemDB T) (calls : List Call) :
    ((memDB bt).runFrom db calls).2 = (mapDB.runFrom (contents db.btree) calls).2 ∧
      contents ((memDB bt).runFrom db calls).1.db.btree =
        (mapDB.runFrom (contents db.btree) calls).1.db ∧
      ((memDB bt).runFrom db calls).1.batches.map MemDBBatch.recorded =
        (mapDB.runFrom (contents db.btree) calls).1.batches ∧
      ∀ (s : Sys (MemDB T) MemDBBatch) (c : Call) (e : Failure),
        ((memDB bt).step s c).2 = .error e → ((memDB bt).step s c).1 = s := by
  -- no batches yet on either side
  have hinit : MemSim contents ⟨db, []⟩ ⟨contents db.btree, []⟩ := ⟨rfl, rfl, by simp⟩
  obtain ⟨hR, hout⟩ := run_simulation (memDB bt).step mapDB.step (fun _ => True) (MemSim contents)
    (fun _ _ c _ hR => memDB_step_sim hbt hR c) calls (fun _ _ => trivial) hinit
  exact ⟨hout, hR.db, hR.batches, fun _ _ _ h => DB.step_error memDB_failsCleanly h⟩

theorem memDB_refines_mapDB_batches :
    ((memDB sortedMapBTree).runFrom ⟨SortedMap.empty⟩
        [.newBatch, .batchSet 0 [1] (some [7]), .batchDelete 0 [1], .set [2] (some []),
          .batchWrite 0, .batchSet 0 [3] (some [1]), .get [1], .get [2]]).2 =
      (mapDB.runFrom (id (SortedMap.empty : KVMap))
        [.newBatch, .batchSet 0 [1] (some [7]), .batchDelete 0 [1], .set [2] (some []),
          .batchWrite 0, .batchSet 0 [3] (some [1]), .get [1], .get [2]]).2 ∧
    id ((memDB sortedMapBTree).runFrom ⟨SortedMap.empty⟩
        [.newBatch, .batchSet 0 [1] (some [7]), .batchDelete 0 [1], .set [2] (some []),
          .batchWrite 0, .batchSet 0 [3] (some [1]), .get [1], .get [2]]).1.db.btree =
      (mapDB.runFrom (id (SortedMap.empty : KVMap))
        [.newBatch, .batchSet 0 [1] (some [7]), .batchDelete 0 [1], .set [2] (some []),
          .batchWrite 0, .batchSet 0 [3] (some [1]), .get [1], .get [2]]).1.db ∧
    ((memDB sortedMapBTree).runFrom ⟨SortedMap.empty⟩
        [.newBatch, .batchSet 0 [1] (some [7]), .batchDelete 0 [1], .set [2] (some []),
          .batchWrite 0, .batchSet 0 [3] (some [1]), .get [1], .get [2]]).1.batches.map
        MemDBBatch.recorded =
      (mapDB.runFrom (id (SortedMap.empty : KVMap))
        [.newBatch, .batchSet 0 [1] (some [7]), .batchDelete 0 [1], .set [2] (some []),
          .batchWrite 0, .batchSet 0 [3] (some [1]), .get [1], .get [2]]).1.batches ∧
    ∀ (s : Sys (MemDB KVMap) MemDBBatch) (c : Call) (e : Failure),
      ((memDB sortedMapBTree).step s c).2 = .error e → ((memDB sortedMapBTree).step s c).1 = s :=
  memDB_refines_mapDB sortedMapBTree id sortedMapBTree_isOrdered ⟨SortedMap.empty⟩
    [.newBatch, .batchSet 0 [1] (some [7]), .batchDelete 0 [1], .set [2] (some []),
      .batchWrite 0, .batchSet 0 [3] (some [1]), .get [1], .get [2]]

end CosmosDb
