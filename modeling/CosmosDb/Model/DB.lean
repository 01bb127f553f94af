import CosmosDb.Model.Basic
import CosmosDb.Lib.SortedMap
import CosmosDb.Lib.Machine

/-!
# CosmosDb — the `DB` and `Batch` interfaces, and the sorted map they specify

`types.go` declares the interfaces every backend implements. `DB σ β` is
that pair of interfaces for a database whose state is `σ` and whose batches
have state `β`: a method that writes returns its outcome together with the
new state, so that what a failed call leaves behind is visible. An
`Iterator` is represented by the entries it yields when read to its end (the
interface forbids writes within its domain while it is open).

A program talks to a database through a sequence of `Call`s; `DB.step`
dispatches one call, creating batches on `NewBatch` and addressing them by
handle afterwards, and `DB.run` runs a sequence.

`mapDB` is the specification: a sorted finite map from keys to values, each
batch the list of writes it recorded, replayed in order at `Write`, with the
argument checks `types.go` documents (empty key, nil value, empty bound,
closed batch). `IsSortedMapDB D view recorded` says that `D` behaves as that
map when given valid arguments, seen through `view` and `recorded`.
-/

namespace CosmosDb

/-- The contents of a store: values under keys, ascending by `bytes.Compare`. -/
abbrev KVMap := SortedMap Bytes Bytes

/-- A recorded batch write. -/
abbrev BatchOp := MapOp Bytes Bytes

/-- The `DB` interface together with the `Batch` interface of its batches.
`getAppend` is the optional `appendGetter` interface of `prefixdb.go`. -/
structure DB (σ β : Type) where
  get : σ → Bytes → Go (Option Bytes)
  has : σ → Bytes → Go Bool
  set : σ → Bytes → Option Bytes → Go Unit × σ
  setSync : σ → Bytes → Option Bytes → Go Unit × σ
  delete : σ → Bytes → Go Unit × σ
  deleteSync : σ → Bytes → Go Unit × σ
  iterator : σ → Option Bytes → Option Bytes → Go (List (Bytes × Bytes))
  reverseIterator : σ → Option Bytes → Option Bytes → Go (List (Bytes × Bytes))
  newBatch : σ → β
  newBatchWithSize : σ → Int → β
  batchSet : β → Bytes → Option Bytes → Go Unit × β
  batchDelete : β → Bytes → Go Unit × β
  batchWrite : σ → β → Go Unit × σ × β
  batchWriteSync : σ → β → Go Unit × σ × β
  batchClose : β → Go Unit × β
  batchGetByteSize : β → Go Nat
  getAppend : Option (σ → Bytes → Option Bytes → Go (Option Bytes))

/-- A call a program makes on a database or on one of its batches, the batch
named by the order in which it was created. -/
inductive Call where
  | get (key : Bytes)
  | has (key : Bytes)
  | set (key : Bytes) (value : Option Bytes)
  | setSync (key : Bytes) (value : Option Bytes)
  | delete (key : Bytes)
  | deleteSync (key : Bytes)
  | iterator (start «end» : Option Bytes)
  | reverseIterator (start «end» : Option Bytes)
  | newBatch
  | newBatchWithSize (size : Int)
  | batchSet (b : Nat) (key : Bytes) (value : Option Bytes)
  | batchDelete (b : Nat) (key : Bytes)
  | batchWrite (b : Nat)
  | batchWriteSync (b : Nat)
  | batchClose (b : Nat)
  | batchGetByteSize (b : Nat)
  deriving DecidableEq, Repr

/-- `GetByteSize` on a batch. -/
def Call.isBatchGetByteSize : Call → Bool
  | .batchGetByteSize _ => true
  | _ => false

/-- What a call returns besides an error. -/
inductive Reply where
  | value (v : Option Bytes)
  | found (b : Bool)
  | done
  | batch (b : Nat)
  | entries (l : List (Bytes × Bytes))
  | size (n : Nat)
  deriving DecidableEq, Repr

/-- A database and the batches created on it so far. -/
structure Sys (σ β : Type) where
  db : σ
  batches : List β

/-- Calling a method on a batch handle that was never created dereferences nil. -/
def nilBatch : Go Reply := .error (.panic "invalid memory address or nil pointer dereference")

namespace DB

variable {σ β : Type}

/-- A write on a batch: the batch is replaced by the state the call leaves. -/
def onBatch (s : Sys σ β) (b : Nat) (f : β → Go Unit × β) : Sys σ β × Go Reply :=
  match s.batches[b]? with
  | none => (s, nilBatch)
  | some bs =>
    let r := f bs
    ({ s with batches := s.batches.set b r.2 }, r.1.map fun _ => .done)

/-- `Write` or `WriteSync` on a batch, which changes the database too. -/
def onBatchWrite (s : Sys σ β) (b : Nat) (f : σ → β → Go Unit × σ × β) :
    Sys σ β × Go Reply :=
  match s.batches[b]? with
  | none => (s, nilBatch)
  | some bs =>
    let r := f s.db bs
    ({ db := r.2.1, batches := s.batches.set b r.2.2 }, r.1.map fun _ => .done)

/-- Dispatch one call. -/
def step (D : DB σ β) (s : Sys σ β) : Call → Sys σ β × Go Reply
  | .get key => (s, (D.get s.db key).map .value)
  | .has key => (s, (D.has s.db key).map .found)
  | .set key value =>
    let r := D.set s.db key value
    ({ s with db := r.2 }, r.1.map fun _ => .done)
  | .setSync key value =>
    let r := D.setSync s.db key value
    ({ s with db := r.2 }, r.1.map fun _ => .done)
  | .delete key =>
    let r := D.delete s.db key
    ({ s with db := r.2 }, r.1.map fun _ => .done)
  | .deleteSync key =>
    let r := D.deleteSync s.db key
    ({ s with db := r.2 }, r.1.map fun _ => .done)
  | .iterator start «end» => (s, (D.iterator s.db start «end»).map .entries)
  | .reverseIterator start «end» => (s, (D.reverseIterator s.db start «end»).map .entries)
  | .newBatch =>
    ({ s with batches := s.batches ++ [D.newBatch s.db] }, .ok (.batch s.batches.length))
  | .newBatchWithSize size =>
    ({ s with batches := s.batches ++ [D.newBatchWithSize s.db size] },
      .ok (.batch s.batches.length))
  | .batchSet b key value => onBatch s b fun bs => D.batchSet bs key value
  | .batchDelete b key => onBatch s b fun bs => D.batchDelete bs key
  | .batchWrite b => onBatchWrite s b D.batchWrite
  | .batchWriteSync b => onBatchWrite s b D.batchWriteSync
  | .batchClose b => onBatch s b D.batchClose
  | .batchGetByteSize b =>
    match s.batches[b]? with
    | none => (s, nilBatch)
    | some bs => (s, (D.batchGetByteSize bs).map .size)

/-! ### Batch calls on two systems

Two systems whose batch lists correspond entry by entry (through `F` and
`G`) answer a batch call alike when the method does so on corresponding
batches; a handle that is missing in one is missing in the other. -/

theorem getElem?_map_eq {γ σ' β' : Type} {s : Sys σ β} {t : Sys σ' β'} {F : β → γ}
    {G : β' → γ} (hb : s.batches.map F = t.batches.map G) (b : Nat) :
    (s.batches[b]?).map F = (t.batches[b]?).map G := by
  rw [← List.getElem?_map, hb, List.getElem?_map]

theorem onBatch_sim {γ σ' β' : Type} {s : Sys σ β} {t : Sys σ' β'} {F : β → γ}
    {G : β' → γ} (hb : s.batches.map F = t.batches.map G) (b : Nat)
    {f : β → Go Unit × β} {g : β' → Go Unit × β'}
    (hfg : ∀ x y, y ∈ t.batches → F x = G y → (f x).1 = (g y).1 ∧ F (f x).2 = G (g y).2) :
    (onBatch s b f).2 = (onBatch t b g).2 ∧
      (onBatch s b f).1.batches.map F = (onBatch t b g).1.batches.map G ∧
      (onBatch s b f).1.db = s.db ∧ (onBatch t b g).1.db = t.db := by
  have hi := getElem?_map_eq hb b
  unfold onBatch
  cases hs : s.batches[b]? with
  | none =>
    cases ht : t.batches[b]? with
    | none => exact ⟨rfl, hb, rfl, rfl⟩
    | some y => rw [hs, ht] at hi; cases hi
  | some x =>
    cases ht : t.batches[b]? with
    | none => rw [hs, ht] at hi; cases hi
    | some y =>
      rw [hs, ht] at hi
      obtain ⟨h1, h2⟩ := hfg x y (List.mem_of_getElem? ht) (Option.some.inj hi)
      refine ⟨by simp only [h1], ?_, rfl, rfl⟩
      simp only [List.map_set, hb, h2]

theorem onBatchWrite_sim {γ σ' β' : Type} {s : Sys σ β} {t : Sys σ' β'} {F : β → γ}
    {G : β' → γ} (hb : s.batches.map F = t.batches.map G) (b : Nat)
    (Rdb : σ → σ' → Prop) (hdb : Rdb s.db t.db)
    {f : σ → β → Go Unit × σ × β} {g : σ' → β' → Go Unit × σ' × β'}
    (hfg : ∀ x y, y ∈ t.batches → F x = G y → (f s.db x).1 = (g t.db y).1 ∧
      Rdb (f s.db x).2.1 (g t.db y).2.1 ∧ F (f s.db x).2.2 = G (g t.db y).2.2) :
    (onBatchWrite s b f).2 = (onBatchWrite t b g).2 ∧
      (onBatchWrite s b f).1.batches.map F = (onBatchWrite t b g).1.batches.map G ∧
      Rdb (onBatchWrite s b f).1.db (onBatchWrite t b g).1.db := by
  have hi := getElem?_map_eq hb b
  unfold onBatchWrite
  cases hs : s.batches[b]? with
  | none =>
    cases ht : t.batches[b]? with
    | none => exact ⟨rfl, hb, hdb⟩
    | some y => rw [hs, ht] at hi; cases hi
  | some x =>
    cases ht : t.batches[b]? with
    | none => rw [hs, ht] at hi; cases hi
    | some y =>
      rw [hs, ht] at hi
      obtain ⟨h1, h2, h3⟩ := hfg x y (List.mem_of_getElem? ht) (Option.some.inj hi)
      refine ⟨by simp only [h1], ?_, h2⟩
      simp only [List.map_set, hb, h3]

theorem onBatch_forall (P : β → Prop) {s : Sys σ β} (b : Nat) {f : β → Go Unit × β}
    (hf : ∀ x, P x → P (f x).2) (hs : ∀ x ∈ s.batches, P x) :
    ∀ x ∈ (onBatch s b f).1.batches, P x := by
  unfold onBatch
  cases hb : s.batches[b]? with
  | none => exact hs
  | some bs =>
    intro x hx
    rcases List.mem_or_eq_of_mem_set hx with hx | rfl
    · exact hs x hx
    · exact hf bs (hs bs (List.mem_of_getElem? hb))

theorem onBatchWrite_forall (P : β → Prop) {s : Sys σ β} (b : Nat)
    {f : σ → β → Go Unit × σ × β} (hf : ∀ x, P x → P (f s.db x).2.2)
    (hs : ∀ x ∈ s.batches, P x) : ∀ x ∈ (onBatchWrite s b f).1.batches, P x := by
  unfold onBatchWrite
  cases hb : s.batches[b]? with
  | none => exact hs
  | some bs =>
    intro x hx
    rcases List.mem_or_eq_of_mem_set hx with hx | rfl
    · exact hs x hx
    · exact hf bs (hs bs (List.mem_of_getElem? hb))

/-! ### Failed calls -/

theorem set_of_getElem?_eq {l : List β} {i : Nat} {x : β} (h : l[i]? = some x) :
    l.set i x = l := by
  obtain ⟨hi, rfl⟩ := List.getElem?_eq_some_iff.mp h
  exact List.set_getElem_self hi

theorem map_eq_error {α γ : Type} {x : Go α} {g : α → γ} {e : Failure}
    (h : x.map g = .error e) : x = .error e := by
  cases x with
  | error e' => simpa [Except.map] using h
  | ok a => cases h

/-- Every write of `D` that fails leaves what it was called on as it was. -/
structure FailsCleanly (D : DB σ β) : Prop where
  set : ∀ s key value e, (D.set s key value).1 = .error e → (D.set s key value).2 = s
  setSync : ∀ s key value e, (D.setSync s key value).1 = .error e → (D.setSync s key value).2 = s
  delete : ∀ s key e, (D.delete s key).1 = .error e → (D.delete s key).2 = s
  deleteSync : ∀ s key e, (D.deleteSync s key).1 = .error e → (D.deleteSync s key).2 = s
  batchSet : ∀ b key value e,
    (D.batchSet b key value).1 = .error e → (D.batchSet b key value).2 = b
  batchDelete : ∀ b key e, (D.batchDelete b key).1 = .error e → (D.batchDelete b key).2 = b
  batchWrite : ∀ s b e, (D.batchWrite s b).1 = .error e → (D.batchWrite s b).2 = (s, b)
  batchWriteSync : ∀ s b e,
    (D.batchWriteSync s b).1 = .error e → (D.batchWriteSync s b).2 = (s, b)
  batchClose : ∀ b e, (D.batchClose b).1 = .error e → (D.batchClose b).2 = b

theorem onBatch_error {s : Sys σ β} {b : Nat} {f : β → Go Unit × β}
    (hf : ∀ x e, (f x).1 = .error e → (f x).2 = x) {e : Failure}
    (h : (onBatch s b f).2 = .error e) : (onBatch s b f).1 = s := by
  unfold onBatch at h ⊢
  cases hb : s.batches[b]? with
  | none => rfl
  | some x =>
    simp only [hb] at h ⊢
    -- the batch method failed, so the batch is left in place
    rw [hf x e (map_eq_error h), set_of_getElem?_eq hb]

theorem onBatchWrite_error {s : Sys σ β} {b : Nat} {f : σ → β → Go Unit × σ × β}
    (hf : ∀ x e, (f s.db x).1 = .error e → (f s.db x).2 = (s.db, x)) {e : Failure}
    (h : (onBatchWrite s b f).2 = .error e) : (onBatchWrite s b f).1 = s := by
  unfold onBatchWrite at h ⊢
  cases hb : s.batches[b]? with
  | none => rfl
  | some x =>
    simp only [hb] at h ⊢
    rw [hf x e (map_eq_error h), set_of_getElem?_eq hb]

/-- On a database whose writes fail cleanly, a call that fails (with an
error or a panic) leaves the database and all its batches as they were. -/
theorem step_error (hD : FailsCleanly D) {s : Sys σ β} {c : Call} {e : Failure}
    (h : (D.step s c).2 = .error e) : (D.step s c).1 = s := by
  cases c with
  | set key value => simp only [step] at h ⊢; rw [hD.set _ _ _ _ (map_eq_error h)]
  | setSync key value => simp only [step] at h ⊢; rw [hD.setSync _ _ _ _ (map_eq_error h)]
  | delete key => simp only [step] at h ⊢; rw [hD.delete _ _ _ (map_eq_error h)]
  | deleteSync key => simp only [step] at h ⊢; rw [hD.deleteSync _ _ _ (map_eq_error h)]
  | newBatch | newBatchWithSize _ => simp [step] at h
  | batchSet b key value => exact onBatch_error (fun x e => hD.batchSet x key value e) h
  | batchDelete b key => exact onBatch_error (fun x e => hD.batchDelete x key e) h
  | batchWrite b => exact onBatchWrite_error (fun x e => hD.batchWrite s.db x e) h
  | batchWriteSync b => exact onBatchWrite_error (fun x e => hD.batchWriteSync s.db x e) h
  | batchClose b => exact onBatch_error (fun x e => hD.batchClose x e) h
  | batchGetByteSize b =>
    simp only [step]
    split <;> rfl
  | get _ | has _ | iterator _ _ | reverseIterator _ _ => rfl

/-- Run a sequence of calls from a database state with no batches yet. -/
def runFrom (D : DB σ β) (db : σ) (calls : List Call) : Sys σ β × List (Go Reply) :=
  run D.step ⟨db, []⟩ calls

end DB

/-! ## The specification: a sorted map -/

/-- The bytes a batch write accounts for: key and value of a set, key of a delete. -/
def BatchOp.byteSize : BatchOp → Nat
  | .set k v => k.length + v.length
  | .delete k => k.length

/-- `Set` on the map. -/
def mapSet (m : KVMap) (key : Bytes) (value : Option Bytes) : Go Unit × KVMap :=
  if key.length = 0 then (throwErr .errKeyEmpty, m)
  else
    match value with
    | none => (throwErr .errValueNil, m)
    | some v => (.ok (), m.set key v)

/-- `Delete` on the map. -/
def mapDelete (m : KVMap) (key : Bytes) : Go Unit × KVMap :=
  if key.length = 0 then (throwErr .errKeyEmpty, m) else (.ok (), m.delete key)

/-- The entries of the map in `[start, end)`, ascending. -/
def mapRange (m : KVMap) (start «end» : Option Bytes) : List (Bytes × Bytes) :=
  m.entries.filter fun e => isKeyInDomain e.1 start «end»

theorem mapRange_none_none (m : KVMap) : mapRange m none none = m.entries := by
  apply List.filter_eq_self.mpr
  intro x _
  exact (isKeyInDomain_iff _ _ _).mpr ⟨Lex.nil_le x.1, by simp⟩

theorem mapRange_some_none (m : KVMap) (s : Bytes) :
    mapRange m (some s) none = m.entries.filter fun x => decide (s ≤ x.1) := by
  apply List.filter_congr
  intro x _
  rw [Bool.eq_iff_iff, isKeyInDomain_iff]
  simp

theorem mapRange_some (m : KVMap) (start : Option Bytes) (e : Bytes) :
    mapRange m start (some e) = m.entries.filter fun x => decide (start.getD [] ≤ x.1 ∧ x.1 < e) := by
  apply List.filter_congr
  intro x _
  rw [Bool.eq_iff_iff, isKeyInDomain_iff]
  simp

/-- A range of the map ascends by key. -/
theorem mapRange_ascend (m : KVMap) (start «end» : Option Bytes) :
    (mapRange m start «end»).Pairwise fun x y => x.1 < y.1 :=
  m.ascend.filter _

/-- Bounding the range from `start` on to `[start, end)`. -/
theorem mapRange_filter (m : KVMap) (start «end» : Option Bytes) :
    (mapRange m start none).filter (fun e => isKeyInDomain e.1 start «end») =
      mapRange m start «end» := by
  rw [mapRange, List.filter_filter]
  apply List.filter_congr
  intro x _
  -- a key in `[start, end)` is in `[start, nil)`
  cases h : isKeyInDomain x.1 start «end»
  · simp
  · have hopen : isKeyInDomain x.1 start none = true :=
      (isKeyInDomain_iff _ _ _).mpr ⟨((isKeyInDomain_iff _ _ _).mp h).1, fun e he => by cases he⟩
    simp [hopen]

/-- A batch write of the specification: the checks, then the write recorded. -/
def mapBatchRecord (b : Option (List BatchOp)) (key : Bytes) (value : Option Bytes)
    (op : BatchOp) : Go Unit × Option (List BatchOp) :=
  if key.length = 0 then (throwErr .errKeyEmpty, b)
  else if value = none then (throwErr .errValueNil, b)
  else
    match b with
    | none => (throwErr .errBatchClosed, b)
    | some ops => (.ok (), some (ops ++ [op]))

/-- `Write` of the specification: replay the recorded writes in order, then
close the batch. -/
def mapBatchWrite (m : KVMap) (b : Option (List BatchOp)) :
    Go Unit × KVMap × Option (List BatchOp) :=
  match b with
  | none => (throwErr .errBatchClosed, m, b)
  | some ops => (.ok (), m.applyOps ops, none)

/-- The sorted map as a database: the specification the backends and
`PrefixDB` are compared with. -/
def mapDB : DB KVMap (Option (List BatchOp)) where
  get m key := if key.length = 0 then throwErr .errKeyEmpty else .ok (m.get key)
  has m key := if key.length = 0 then throwErr .errKeyEmpty else .ok (m.get key).isSome
  set := mapSet
  setSync := mapSet
  delete := mapDelete
  deleteSync := mapDelete
  iterator m start «end» :=
    if hasEmptyBound start «end» then throwErr .errKeyEmpty else .ok (mapRange m start «end»)
  reverseIterator m start «end» :=
    if hasEmptyBound start «end» then throwErr .errKeyEmpty
    else .ok (mapRange m start «end»).reverse
  newBatch _ := some []
  newBatchWithSize _ _ := some []
  batchSet b key value := mapBatchRecord b key value (.set key (value.getD []))
  batchDelete b key := mapBatchRecord b key (some []) (.delete key)
  batchWrite := mapBatchWrite
  batchWriteSync := mapBatchWrite
  batchClose _ := (.ok (), none)
  batchGetByteSize b :=
    match b with
    | none => throwErr .errBatchClosed
    | some ops => .ok (ops.map BatchOp.byteSize).sum
  getAppend := none

/-- The key a batch write is about. -/
def BatchOp.key : BatchOp → Bytes
  | .set k _ => k
  | .delete k => k

/-- Every write the batch recorded has a nonempty key. -/
def RecordsNonemptyKeys (a : Option (List BatchOp)) : Prop :=
  ∀ ops ∈ a, ∀ op ∈ ops, op.key ≠ []

theorem mapBatchRecord_keys {b : Option (List BatchOp)} (hb : RecordsNonemptyKeys b)
    (key : Bytes) (value : Option Bytes) {op : BatchOp} (hop : op.key = key) :
    RecordsNonemptyKeys (mapBatchRecord b key value op).2 := by
  unfold mapBatchRecord
  split_ifs with hk
  · exact hb
  · exact hb
  · cases b with
    | none => exact hb
    | some ops =>
      -- the recorded write passed the empty-key check
      rintro _ ⟨⟩ o ho
      rcases List.mem_append.mp ho with ho | ho
      · exact hb ops rfl o ho
      · rw [List.mem_singleton.mp ho, hop]
        simpa using hk

/-- The batches of the specification only ever record writes to nonempty keys. -/
theorem mapDB_step_keys (s : Sys KVMap (Option (List BatchOp))) (c : Call)
    (hs : ∀ a ∈ s.batches, RecordsNonemptyKeys a) :
    ∀ a ∈ (mapDB.step s c).1.batches, RecordsNonemptyKeys a := by
  have hnone : RecordsNonemptyKeys none := by rintro _ ⟨⟩
  cases c with
  | newBatch | newBatchWithSize =>
    intro a ha
    rcases List.mem_append.mp ha with ha | ha
    · exact hs a ha
    · rw [List.mem_singleton.mp ha]
      rintro _ ⟨⟩ o ho
      cases ho
  | batchSet b key value =>
    exact DB.onBatch_forall _ b (fun x hx => mapBatchRecord_keys hx _ _ rfl) hs
  | batchDelete b key =>
    exact DB.onBatch_forall _ b (fun x hx => mapBatchRecord_keys hx _ _ rfl) hs
  | batchWrite b | batchWriteSync b =>
    refine DB.onBatchWrite_forall _ b (fun x hx => ?_) hs
    cases x <;> simp [mapDB, mapBatchWrite, hnone]
  | batchClose b => exact DB.onBatch_forall _ b (fun _ _ => hnone) hs
  | batchGetByteSize b =>
    simp only [DB.step]
    split <;> exact hs
  | _ => exact hs

/-- `D` behaves as the sorted map `view s` on valid arguments: nonempty keys,
non-nil values and bounds that are nil or nonempty. Its batches behave as the
lists of writes `recorded` reads off them. -/
structure IsSortedMapDB {σ β : Type} (D : DB σ β) (view : σ → KVMap)
    (recorded : β → Option (List BatchOp)) : Prop where
  get : ∀ s key, key ≠ [] → D.get s key = mapDB.get (view s) key
  has : ∀ s key, key ≠ [] → D.has s key = mapDB.has (view s) key
  set : ∀ s key v, key ≠ [] →
    (D.set s key (some v)).1 = .ok () ∧ view (D.set s key (some v)).2 = (view s).set key v
  setSync : ∀ s key v, key ≠ [] →
    (D.setSync s key (some v)).1 = .ok () ∧
      view (D.setSync s key (some v)).2 = (view s).set key v
  delete : ∀ s key, key ≠ [] →
    (D.delete s key).1 = .ok () ∧ view (D.delete s key).2 = (view s).delete key
  deleteSync : ∀ s key, key ≠ [] →
    (D.deleteSync s key).1 = .ok () ∧ view (D.deleteSync s key).2 = (view s).delete key
  iterator : ∀ s start «end», hasEmptyBound start «end» = false →
    D.iterator s start «end» = mapDB.iterator (view s) start «end»
  reverseIterator : ∀ s start «end», hasEmptyBound start «end» = false →
    D.reverseIterator s start «end» = mapDB.reverseIterator (view s) start «end»
  newBatch : ∀ s, recorded (D.newBatch s) = some []
  newBatchWithSize : ∀ s size, recorded (D.newBatchWithSize s size) = some []
  batchSet : ∀ b key v, key ≠ [] →
    (D.batchSet b key (some v)).1 = (mapDB.batchSet (recorded b) key (some v)).1 ∧
      recorded (D.batchSet b key (some v)).2 = (mapDB.batchSet (recorded b) key (some v)).2
  batchDelete : ∀ b key, key ≠ [] →
    (D.batchDelete b key).1 = (mapDB.batchDelete (recorded b) key).1 ∧
      recorded (D.batchDelete b key).2 = (mapDB.batchDelete (recorded b) key).2
  batchWrite : ∀ s b,
    (D.batchWrite s b).1 = (mapBatchWrite (view s) (recorded b)).1 ∧
      view (D.batchWrite s b).2.1 = (mapBatchWrite (view s) (recorded b)).2.1 ∧
      recorded (D.batchWrite s b).2.2 = (mapBatchWrite (view s) (recorded b)).2.2
  batchWriteSync : ∀ s b,
    (D.batchWriteSync s b).1 = (mapBatchWrite (view s) (recorded b)).1 ∧
      view (D.batchWriteSync s b).2.1 = (mapBatchWrite (view s) (recorded b)).2.1 ∧
      recorded (D.batchWriteSync s b).2.2 = (mapBatchWrite (view s) (recorded b)).2.2
  batchClose : ∀ b, (D.batchClose b).1 = .ok () ∧ recorded (D.batchClose b).2 = none

/-- The specification behaves as itself. -/
theorem mapDB_isSortedMapDB : IsSortedMapDB mapDB id id where
  get _ _ _ := rfl
  has _ _ _ := rfl
  set m key v hk := by simp [mapDB, mapSet, hk]
  setSync m key v hk := by simp [mapDB, mapSet, hk]
  delete m key hk := by simp [mapDB, mapDelete, hk]
  deleteSync m key hk := by simp [mapDB, mapDelete, hk]
  iterator _ _ _ _ := rfl
  reverseIterator _ _ _ _ := rfl
  newBatch _ := rfl
  newBatchWithSize _ _ := rfl
  batchSet _ _ _ _ := ⟨rfl, rfl⟩
  batchDelete _ _ _ := ⟨rfl, rfl⟩
  batchWrite _ _ := ⟨rfl, rfl, rfl⟩
  batchWriteSync _ _ := ⟨rfl, rfl, rfl⟩
  batchClose _ := ⟨rfl, rfl⟩

end CosmosDb
