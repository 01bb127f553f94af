import CosmosDb.Model.DB

/-!
# CosmosDb — databases that answer as the sorted map does

`AnswersAsMapDB D view recorded` says that every method of `D`, on every
argument, answers as the specification `mapDB` answers on the map `view s`,
errors included, and leaves the map and the writes each batch recorded as
`mapDB` leaves them. Only the byte size an open batch reports is free: each
backend counts the bytes of its own encoding. `GetByteSize` still has to
succeed and fail as the specification's does.

`answersAsMapDB_refines` lifts those per-call facts to every run. Over every
sequence of calls, batches addressed by handle, `D` gives the replies
`mapDB` gives, byte sizes blanked out, and ends with the map `mapDB` ends
with.
-/

namespace CosmosDb

/-- A reply with the byte size a batch reported blanked out. -/
def Reply.sizeless : Reply → Reply
  | .size _ => .size 0
  | r => r

/-- `D` answers every call as the sorted map `view s` does, and its batches as
the lists of writes `recorded` reads off them; a batch's byte size apart. -/
structure AnswersAsMapDB {σ β : Type} (D : DB σ β) (view : σ → KVMap)
    (recorded : β → Option (List BatchOp)) : Prop where
  get : ∀ s key, D.get s key = mapDB.get (view s) key
  has : ∀ s key, D.has s key = mapDB.has (view s) key
  set : ∀ s key value, (D.set s key value).1 = (mapSet (view s) key value).1 ∧
    view (D.set s key value).2 = (mapSet (view s) key value).2
  setSync : ∀ s key value, (D.setSync s key value).1 = (mapSet (view s) key value).1 ∧
    view (D.setSync s key value).2 = (mapSet (view s) key value).2
  delete : ∀ s key, (D.delete s key).1 = (mapDelete (view s) key).1 ∧
    view (D.delete s key).2 = (mapDelete (view s) key).2
  deleteSync : ∀ s key, (D.deleteSync s key).1 = (mapDelete (view s) key).1 ∧
    view (D.deleteSync s key).2 = (mapDelete (view s) key).2
  iterator : ∀ s start «end», D.iterator s start «end» = mapDB.iterator (view s) start «end»
  reverseIterator : ∀ s start «end»,
    D.reverseIterator s start «end» = mapDB.reverseIterator (view s) start «end»
  newBatch : ∀ s, recorded (D.newBatch s) = some []
  newBatchWithSize : ∀ s size, recorded (D.newBatchWithSize s size) = some []
  batchSet : ∀ b key value,
    (D.batchSet b key value).1 = (mapDB.batchSet (recorded b) key value).1 ∧
      recorded (D.batchSet b key value).2 = (mapDB.batchSet (recorded b) key value).2
  batchDelete : ∀ b key,
    (D.batchDelete b key).1 = (mapDB.batchDelete (recorded b) key).1 ∧
      recorded (D.batchDelete b key).2 = (mapDB.batchDelete (recorded b) key).2
  batchWrite : ∀ s b,
    (D.batchWrite s b).1 = (mapBatchWrite (view s) (recorded b)).1 ∧
      view (D.batchWrite s b).2.1 = (mapBatchWrite (view s) (recorded b)).2.1 ∧
      recorded (D.batchWrite s b).2.2 = (mapBatchWrite (view s) (recorded b)).2.2
  batchWriteSync : ∀ s b,
    (D.batchWriteSync s b).1 = (mapBatchWrite (view s) (recorded b)).1 ∧
      view (D.batchWriteSync s b).2.1 = (mapBatchWrite (view s) (recorded b)).2.1 ∧
      recorded (D.batchWriteSync s b).2.2 = (mapBatchWrite (view s) (recorded b)).2.2
  batchClose : ∀ b, (D.batchClose b).1 = .ok () ∧ recorded (D.batchClose b).2 = none
  batchGetByteSize : ∀ b,
    (D.batchGetByteSize b).map (fun _ => ()) = (mapDB.batchGetByteSize (recorded b)).map fun _ => ()

section Refinement

variable {σ β : Type} {D : DB σ β} {view : σ → KVMap} {recorded : β → Option (List BatchOp)}

/-- A system of `D` against one of the specification: the map it holds, and
batch by batch the writes recorded. -/
structure MapSim (view : σ → KVMap) (recorded : β → Option (List BatchOp)) (sC : Sys σ β)
    (sA : Sys KVMap (Option (List BatchOp))) : Prop where
  db : view sC.db = sA.db
  batches : sC.batches.map recorded = sA.batches

theorem MapSim.batches_map_id {sC : Sys σ β} {sA : Sys KVMap (Option (List BatchOp))}
    (hR : MapSim view recorded sC sA) : sC.batches.map recorded = sA.batches.map id := by
  rw [List.map_id]
  exact hR.batches

/-- A write through a method that answers as the specification's write
`spec` on the map the system holds: the relation is kept, with the same reply. -/
theorem MapSim.onWrite {sC : Sys σ β} {sA : Sys KVMap (Option (List BatchOp))}
    (hR : MapSim view recorded sC sA) {r : Go Unit × σ} (spec : KVMap → Go Unit × KVMap)
    (h : r.1 = (spec (view sC.db)).1 ∧ view r.2 = (spec (view sC.db)).2) :
    MapSim view recorded { sC with db := r.2 } { sA with db := (spec sA.db).2 } ∧
      (r.1.map fun _ => Reply.done).map Reply.sizeless =
        ((spec sA.db).1.map fun _ => Reply.done).map Reply.sizeless := by
  rw [hR.db] at h
  refine ⟨⟨h.2, hR.batches⟩, ?_⟩
  rw [h.1]

theorem MapSim.onBatch {sC : Sys σ β} {sA : Sys KVMap (Option (List BatchOp))}
    (hR : MapSim view recorded sC sA) (b : Nat) (f : β → Go Unit × β)
    (g : Option (List BatchOp) → Go Unit × Option (List BatchOp))
    (hfg : ∀ x, (f x).1 = (g (recorded x)).1 ∧ recorded (f x).2 = (g (recorded x)).2) :
    MapSim view recorded (DB.onBatch sC b f).1 (DB.onBatch sA b g).1 ∧
      (DB.onBatch sC b f).2.map Reply.sizeless = (DB.onBatch sA b g).2.map Reply.sizeless := by
  have hfg' : ∀ x y, y ∈ sA.batches → recorded x = id y →
      (f x).1 = (g y).1 ∧ recorded (f x).2 = id (g y).2 := by
    intro x y _ hxy
    rw [id] at hxy
    rw [← hxy]
    exact hfg x
  obtain ⟨hr, hbs, hdbC, hdbA⟩ := DB.onBatch_sim hR.batches_map_id b hfg'
  refine ⟨⟨by rw [hdbC, hdbA]; exact hR.db, by rw [hbs, List.map_id]⟩, ?_⟩
  rw [hr]

theorem MapSim.onBatchWrite {sC : Sys σ β} {sA : Sys KVMap (Option (List BatchOp))}
    (hR : MapSim view recorded sC sA) (b : Nat) (f : σ → β → Go Unit × σ × β)
    (hf : ∀ s x, (f s x).1 = (mapBatchWrite (view s) (recorded x)).1 ∧
      view (f s x).2.1 = (mapBatchWrite (view s) (recorded x)).2.1 ∧
      recorded (f s x).2.2 = (mapBatchWrite (view s) (recorded x)).2.2) :
    MapSim view recorded (DB.onBatchWrite sC b f).1 (DB.onBatchWrite sA b mapBatchWrite).1 ∧
      (DB.onBatchWrite sC b f).2.map Reply.sizeless =
        (DB.onBatchWrite sA b mapBatchWrite).2.map Reply.sizeless := by
  have hfg : ∀ x y, y ∈ sA.batches → recorded x = id y →
      (f sC.db x).1 = (mapBatchWrite sA.db y).1 ∧
        view (f sC.db x).2.1 = (mapBatchWrite sA.db y).2.1 ∧
        recorded (f sC.db x).2.2 = id (mapBatchWrite sA.db y).2.2 := by
    intro x y _ hxy
    rw [id] at hxy
    rw [← hxy, ← hR.db]
    exact hf sC.db x
  obtain ⟨hr, hbs, hdb⟩ := DB.onBatchWrite_sim hR.batches_map_id b (fun d m => view d = m) hR.db hfg
  refine ⟨⟨hdb, by rw [hbs, List.map_id]⟩, ?_⟩
  rw [hr]

/-- Two byte-size lookups that succeed together and fail alike give the same
replies once sizes are blanked out. -/
theorem sizeless_map_size {x y : Go Nat} (h : x.map (fun _ => ()) = y.map fun _ => ()) :
    (x.map Reply.size).map Reply.sizeless = (y.map Reply.size).map Reply.sizeless := by
  cases x <;> cases y <;> simp only [Except.map, Except.error.injEq, reduceCtorEq] at h ⊢
  · rw [h]
  · rfl

/-- One call on `D` and on the specification over its map: related systems
stay related, and the replies agree once byte sizes are blanked out. -/
theorem answersAsMapDB_step (hD : AnswersAsMapDB D view recorded) {sC : Sys σ β}
    {sA : Sys KVMap (Option (List BatchOp))} (hR : MapSim view recorded sC sA) (c : Call) :
    MapSim view recorded (D.step sC c).1 (mapDB.step sA c).1 ∧
      (D.step sC c).2.map Reply.sizeless = (mapDB.step sA c).2.map Reply.sizeless := by
  cases c with
  | get key => exact ⟨hR, by simp only [DB.step, hD.get, hR.db]⟩
  | has key => exact ⟨hR, by simp only [DB.step, hD.has, hR.db]⟩
  | set key value => exact hR.onWrite (mapSet · key value) (hD.set sC.db key value)
  | setSync key value => exact hR.onWrite (mapSet · key value) (hD.setSync sC.db key value)
  | delete key => exact hR.onWrite (mapDelete · key) (hD.delete sC.db key)
  | deleteSync key => exact hR.onWrite (mapDelete · key) (hD.deleteSync sC.db key)
  | iterator start «end» => exact ⟨hR, by simp only [DB.step, hD.iterator, hR.db]⟩
  | reverseIterator start «end» => exact ⟨hR, by simp only [DB.step, hD.reverseIterator, hR.db]⟩
  | newBatch | newBatchWithSize size =>
    -- the new batch is open and empty on both sides
    have hlen : sC.batches.length = sA.batches.length := by
      rw [← hR.batches, List.length_map]
    refine ⟨⟨hR.db, ?_⟩, ?_⟩
    · simp [DB.step, mapDB, hR.batches, hD.newBatch, hD.newBatchWithSize]
    · simp [DB.step, hlen]
  | batchSet b key value => exact hR.onBatch b _ _ fun x => hD.batchSet x key value
  | batchDelete b key => exact hR.onBatch b _ _ fun x => hD.batchDelete x key
  | batchWrite b => exact hR.onBatchWrite b D.batchWrite hD.batchWrite
  | batchWriteSync b => exact hR.onBatchWrite b D.batchWriteSync hD.batchWriteSync
  | batchClose b =>
    exact hR.onBatch b _ _ fun x => ⟨(hD.batchClose x).1, (hD.batchClose x).2⟩
  | batchGetByteSize b =>
    -- the batch looked up on both sides records the same writes, so both
    -- succeed or both fail with the same error
    have hi := DB.getElem?_map_eq hR.batches_map_id b
    simp only [DB.step]
    cases hC : sC.batches[b]? with
    | none =>
      cases hA : sA.batches[b]? with
      | none => exact ⟨hR, rfl⟩
      | some y => rw [hC, hA] at hi; cases hi
    | some x =>
      cases hA : sA.batches[b]? with
      | none => rw [hC, hA] at hi; cases hi
      | some y =>
        rw [hC, hA] at hi
        have hxy : recorded x = y := Option.some.inj hi
        have h := hD.batchGetByteSize x
        rw [hxy] at h
        exact ⟨hR, sizeless_map_size h⟩

/-- A database that answers every call as the sorted map does refines it:
over every sequence of calls, the same replies (byte sizes blanked out) and
the same map at the end. -/
theorem answersAsMapDB_refines (hD : AnswersAsMapDB D view recorded) (db : σ) (calls : List Call) :
    (D.runFrom db calls).2.map (·.map Reply.sizeless) =
        (mapDB.runFrom (view db) calls).2.map (·.map Reply.sizeless) ∧
      view (D.runFrom db calls).1.db = (mapDB.runFrom (view db) calls).1.db := by
  obtain ⟨hR, hout⟩ := run_simulation_map D.step mapDB.step id (fun _ => True)
    (MapSim view recorded) (fun r r' => r.map Reply.sizeless = r'.map Reply.sizeless)
    (fun _ _ c _ hR => answersAsMapDB_step hD hR c) calls (fun _ _ => trivial)
    (⟨rfl, rfl⟩ : MapSim view recorded ⟨db, []⟩ ⟨view db, []⟩)
  rw [List.map_id] at hR hout
  have heq : List.Forall₂ (· = ·) ((D.runFrom db calls).2.map (·.map Reply.sizeless))
      ((mapDB.runFrom (view db) calls).2.map (·.map Reply.sizeless)) :=
    List.forall₂_map_left_iff.mpr (List.forall₂_map_right_iff.mpr hout)
  rw [List.forall₂_eq_eq_eq] at heq
  exact ⟨heq, hR.db⟩

end Refinement

end CosmosDb
