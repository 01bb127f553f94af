import CosmosDb.Model.TreeDBBatch

/-!
# CosmosDb — TreeDB refines a sorted map

Over a library that behaves as a sorted map (`IsStoreLib`), the TreeDB that
`NewTreeDBAdapter` opens answers every sequence of `DB` calls as the
specification `mapDB` answers it on the library's map: the same errors, the
same values, iterators that yield the specified entries, and batches that
record, count, commit and close as the specification's do. The exception is
the forward scan of an IAVL version range with nothing before its `'s'`,
on which `Iterator` panics when the range is empty (`iterator_panics`); the
calls are required to avoid it (`Call.avoidsIAVLScanPanic`).

The library is observed through `StoreState`: the map it stores, and the
writes each kv batch has recorded, `none` for a handle never issued. What it
keeps besides (a log, caches) is free, so the logged library the system
runs against is such a library too (`IsStoreLib.logged`). Batches are
related by `BatchMatches`; every kv batch a batch holds is issued, and no
two batches hold the same one, so that a call on one batch leaves the
writes of the others as they were.

Main results:

* `forwardIteratorWithIAVLFallback_exact` — over a library that answers
  every range exactly, the forward iterator yields the range;
* `treeDB_step_sim` — one call keeps the relation and gives matching replies;
* `treeDB_refines_mapDB` — over every run of calls from a fresh system.
-/

namespace CosmosDb

-- ---------------------------------------------------------------------------
-- The forward iterator over a library that answers every range exactly
-- ---------------------------------------------------------------------------

section ExactFallback

variable {W α : Type} {kvIterator : Option Bytes → Option Bytes → W → Except DbError KVIterator × W}
  {obs : W → α} {stored : α → KVMap}

/-- The library's `Iterator(lo, hi)` answers every range exactly, over the
store `stored (obs w)`, and keeps what `obs` sees of its state, whatever
else it changes. -/
def ExactIterator (kvIterator : Option Bytes → Option Bytes → W → Except DbError KVIterator × W)
    (obs : W → α) (stored : α → KVMap) : Prop :=
  ∀ lo hi w, (kvIterator lo hi w).1 = .ok ⟨mapRange (stored (obs w)) lo hi, none⟩ ∧
    obs (kvIterator lo hi w).2 = obs w

/-- The prefix scan, run once the range is known to be empty, yields nothing. -/
theorem prefixScanFallback_exact (hkv : ExactIterator kvIterator obs stored)
    {start «end» : Option Bytes} {w : W} (hpfx : 9 < (start.getD []).length)
    (hR : mapRange (stored (obs w)) start «end» = []) :
    ∃ it, (prefixScanFallback kvIterator start «end» w).1 = .ok it ∧
      obs (prefixScanFallback kvIterator start «end» w).2 = obs w ∧
      fallbackIterOps.Yields it [] := by
  have hne : (start.getD []).take ((start.getD []).length - 9) ≠ [] := by
    simp only [ne_eq, List.take_eq_nil_iff, not_or]
    constructor
    · omega
    · intro h
      simp [h] at hpfx
  obtain ⟨prefixEnd, hq⟩ := cpIncr_ok hne
  obtain ⟨hit, hobs⟩ :=
    hkv (some ((start.getD []).take ((start.getD []).length - 9))) prefixEnd w
  rcases hscan : kvIterator (some ((start.getD []).take ((start.getD []).length - 9))) prefixEnd w
    with ⟨r, w₁⟩
  rw [hscan] at hit hobs
  dsimp only at hit hobs
  subst hit
  let src : KVIterator :=
    ⟨mapRange (stored (obs w)) (some ((start.getD []).take ((start.getD []).length - 9)))
      prefixEnd, none⟩
  refine ⟨.bounded (newBoundedKVIterator start «end» src),
    by simp [prefixScanFallback, hq, hscan, src], by simp [prefixScanFallback, hq, hscan, hobs], ?_⟩
  -- the scan, bounded to the empty range, lets nothing through
  have hy := bounded_yields (newBoundedKVIterator start «end» src)
  rwa [remaining_newBoundedKVIterator, boundedEntries_mapRange_nil hR] at hy

/-- The open-end retry yields the range: bounded locally when it is
nonempty, through the prefix scan when it is empty. -/
theorem openEndFallback_exact (hkv : ExactIterator kvIterator obs stored)
    (start «end» : Option Bytes) (w : W) (hpfx : 9 < (start.getD []).length) :
    ∃ it, (openEndFallback kvIterator start «end» w).1 = .ok it ∧
      obs (openEndFallback kvIterator start «end» w).2 = obs w ∧
      fallbackIterOps.Yields it (mapRange (stored (obs w)) start «end») := by
  obtain ⟨hit, hobs⟩ := hkv start none w
  rcases hopen : kvIterator start none w with ⟨r, w₁⟩
  rw [hopen] at hit hobs
  dsimp only at hit hobs
  subst hit
  have hb : (newBoundedKVIterator start «end» ⟨mapRange (stored (obs w)) start none, none⟩).remaining =
      mapRange (stored (obs w)) start «end» := by
    rw [remaining_newBoundedKVIterator, boundedEntries_mapRange, mapRange_filter]
  by_cases hv : (newBoundedKVIterator start «end» ⟨mapRange (stored (obs w)) start none, none⟩).Valid
  · refine ⟨.bounded (newBoundedKVIterator start «end» ⟨mapRange (stored (obs w)) start none, none⟩),
      by simp [openEndFallback, hopen, hv], by simp [openEndFallback, hopen, hv, hobs], ?_⟩
    rw [← hb]
    exact bounded_yields _
  · -- nothing in the range: the prefix scan, from the state the first call left
    have hR : mapRange (stored (obs w₁)) start «end» = [] := by
      rw [hobs, ← hb]
      exact BoundedKVIterator.remaining_of_valid_false (by simpa using hv)
    obtain ⟨it, hit, hobs', hy⟩ := prefixScanFallback_exact hkv hpfx hR
    have hscan : openEndFallback kvIterator start «end» w =
        prefixScanFallback kvIterator start «end» w₁ := by
      simp [openEndFallback, hopen, hv]
    refine ⟨it, by rw [hscan, hit], by rw [hscan, hobs', hobs], ?_⟩
    rw [← hobs, hR]
    exact hy

/-- Over a library that answers every range exactly, the forward iterator
yields the range, unless it is an IAVL version range whose start is 9 bytes
long (`forwardIteratorWithIAVLFallback_panics`). -/
theorem forwardIteratorWithIAVLFallback_exact (hkv : ExactIterator kvIterator obs stored)
    (start «end» : Option Bytes) (w : W)
    (hsafe : isPrefixedIAVLVersionRange (start.getD []) («end».getD []) = true →
      (start.getD []).length ≠ 9) :
    ∃ it, (forwardIteratorWithIAVLFallback kvIterator start «end» w).1 = .ok it ∧
      obs (forwardIteratorWithIAVLFallback kvIterator start «end» w).2 = obs w ∧
      fallbackIterOps.Yields it (mapRange (stored (obs w)) start «end») := by
  obtain ⟨hit, hobs⟩ := hkv start «end» w
  rcases hfirst : kvIterator start «end» w with ⟨r, w₁⟩
  rw [hfirst] at hit hobs
  dsimp only at hit hobs
  subst hit
  by_cases hretry : isPrefixedIAVLVersionRange (start.getD []) («end».getD []) = true ∧
      mapRange (stored (obs w)) start «end» = []
  · -- an empty IAVL version range: the retries, from the state the first call left
    obtain ⟨hiavl, hnil⟩ := hretry
    have hlen : 9 < (start.getD []).length := by
      have := isPrefixedIAVLVersionRange_length hiavl
      have := hsafe hiavl
      omega
    obtain ⟨it, hit, hobs', hy⟩ := openEndFallback_exact hkv start «end» w₁ hlen
    have hopen : forwardIteratorWithIAVLFallback kvIterator start «end» w =
        openEndFallback kvIterator start «end» w₁ := by
      simp [forwardIteratorWithIAVLFallback, hfirst, hiavl, hnil, KVIterator.Valid,
        KVIterator.Error]
    refine ⟨it, by rw [hopen, hit], by rw [hopen, hobs', hobs], ?_⟩
    rwa [hobs] at hy
  · -- the first answer is kept
    have hkeep : forwardIteratorWithIAVLFallback kvIterator start «end» w =
        (.ok (.kv ⟨mapRange (stored (obs w)) start «end», none⟩), w₁) := by
      by_cases hiavl : isPrefixedIAVLVersionRange (start.getD []) («end».getD []) = true
      · have hne : mapRange (stored (obs w)) start «end» ≠ [] := fun hnil => hretry ⟨hiavl, hnil⟩
        simp [forwardIteratorWithIAVLFallback, hfirst, hiavl, KVIterator.Valid, hne]
      · simp [forwardIteratorWithIAVLFallback, hfirst, hiavl]
    exact ⟨_, by rw [hkeep], by rw [hkeep, hobs], kv_yields _⟩

end ExactFallback

-- ---------------------------------------------------------------------------
-- A library that behaves as a sorted map
-- ---------------------------------------------------------------------------

/-- What the adapter observes of the library's state: the map it stores, and
the writes each kv batch has recorded, `none` for a handle never issued. -/
structure StoreState (B : Type) where
  store : KVMap
  ops : B → Option (List BatchOp)

namespace StoreState

variable {B : Type} [DecidableEq B]

/-- The same state, with `l` as the writes of the kv batch `kb`. -/
def record (σ : StoreState B) (kb : B) (l : List BatchOp) : StoreState B :=
  { σ with ops := Function.update σ.ops kb (some l) }

@[simp] theorem record_store (σ : StoreState B) (kb : B) (l : List BatchOp) :
    (σ.record kb l).store = σ.store := rfl

@[simp] theorem record_ops_self (σ : StoreState B) (kb : B) (l : List BatchOp) :
    (σ.record kb l).ops kb = some l := by
  simp [record]

theorem record_ops_ne (σ : StoreState B) {kb kb' : B} (l : List BatchOp) (h : kb' ≠ kb) :
    (σ.record kb l).ops kb' = σ.ops kb' := by
  simp [record, h]

/-- Recording issues no handle away. -/
theorem record_ops_ne_none (σ : StoreState B) (kb : B) (l : List BatchOp) {kb' : B}
    (h : σ.ops kb' ≠ none) : (σ.record kb l).ops kb' ≠ none := by
  by_cases hk : kb' = kb
  · subst hk
    simp
  · rwa [record_ops_ne σ l hk]

end StoreState

section Library

variable {D K S B W : Type} [DecidableEq B]

/-- The library behaves, through the kvstore adapter `k`, as the store
`view w`: reads and iterators answer from its map and change nothing the
adapter observes; each write changes the map as written; a new kv batch is a
handle never issued, with nothing recorded; a kv batch records each write
and commits them in order; every call returns nil. -/
structure IsStoreLib (lib : TreeDBLib D K S B W) (k : K) (view : W → StoreState B) : Prop where
  kvGetUnsafe : ∀ key w, (lib.kvGetUnsafe k key w).1 = .ok ((view w).store.get key) ∧
    view (lib.kvGetUnsafe k key w).2 = view w
  kvHas : ∀ key w, (lib.kvHas k key w).1 = .ok ((view w).store.get key).isSome ∧
    view (lib.kvHas k key w).2 = view w
  kvSet : ∀ key v w, key ≠ [] → (lib.kvSet k key v w).1 = .ok () ∧
    view (lib.kvSet k key v w).2 = { view w with store := (view w).store.set key v }
  kvSetSync : ∀ key v w, key ≠ [] → (lib.kvSetSync k key v w).1 = .ok () ∧
    view (lib.kvSetSync k key v w).2 = { view w with store := (view w).store.set key v }
  kvDelete : ∀ key w, key ≠ [] → (lib.kvDelete k key w).1 = .ok () ∧
    view (lib.kvDelete k key w).2 = { view w with store := (view w).store.delete key }
  kvDeleteSync : ∀ key w, key ≠ [] → (lib.kvDeleteSync k key w).1 = .ok () ∧
    view (lib.kvDeleteSync k key w).2 = { view w with store := (view w).store.delete key }
  kvIterator : ExactIterator (lib.kvIterator k) view StoreState.store
  kvReverseIterator : ∀ lo hi w,
    (lib.kvReverseIterator k lo hi w).1 = .ok ⟨(mapRange (view w).store lo hi).reverse, none⟩ ∧
      view (lib.kvReverseIterator k lo hi w).2 = view w
  kvNewBatch : ∀ w, ∃ kb, (lib.kvNewBatch k w).1 = .ok kb ∧ (view w).ops kb = none ∧
    view (lib.kvNewBatch k w).2 = (view w).record kb []
  batchSet : ∀ kb l key v w, (view w).ops kb = some l → key ≠ [] →
    (lib.batchSet kb key v w).1 = .ok () ∧
      view (lib.batchSet kb key v w).2 = (view w).record kb (l ++ [.set key v])
  batchDelete : ∀ kb l key w, (view w).ops kb = some l → key ≠ [] →
    (lib.batchDelete kb key w).1 = .ok () ∧
      view (lib.batchDelete kb key w).2 = (view w).record kb (l ++ [.delete key])
  batchCommit : ∀ kb l w, (view w).ops kb = some l → (lib.batchCommit kb w).1 = .ok () ∧
    view (lib.batchCommit kb w).2 = { view w with store := (view w).store.applyOps l }
  batchCommitSync : ∀ kb l w, (view w).ops kb = some l → (lib.batchCommitSync kb w).1 = .ok () ∧
    view (lib.batchCommitSync kb w).2 = { view w with store := (view w).store.applyOps l }
  batchClose : ∀ kb w, (view w).ops kb ≠ none → (lib.batchClose kb w).1 = .ok () ∧
    view (lib.batchClose kb w).2 = view w

/-- Logging changes nothing the adapter observes: the logged library is a
store as the library is. -/
theorem IsStoreLib.logged {lib : TreeDBLib D K S B W} {k : K} {view : W → StoreState B}
    (hlib : IsStoreLib lib k view) : IsStoreLib lib.logged k fun w => view w.1 where
  kvGetUnsafe key w := hlib.kvGetUnsafe key w.1
  kvHas key w := hlib.kvHas key w.1
  kvSet key v w hk := hlib.kvSet key v w.1 hk
  kvSetSync key v w hk := hlib.kvSetSync key v w.1 hk
  kvDelete key w hk := hlib.kvDelete key w.1 hk
  kvDeleteSync key w hk := hlib.kvDeleteSync key w.1 hk
  kvIterator lo hi w := hlib.kvIterator lo hi w.1
  kvReverseIterator lo hi w := hlib.kvReverseIterator lo hi w.1
  kvNewBatch w := hlib.kvNewBatch w.1
  batchSet kb l key v w hl hk := hlib.batchSet kb l key v w.1 hl hk
  batchDelete kb l key w hl hk := hlib.batchDelete kb l key w.1 hl hk
  batchCommit kb l w hl := hlib.batchCommit kb l w.1 hl
  batchCommitSync kb l w hl := hlib.batchCommitSync kb l w.1 hl
  batchClose kb w hl := hlib.batchClose kb w.1 hl

end Library

-- ---------------------------------------------------------------------------
-- Replies
-- ---------------------------------------------------------------------------

/-- Two outcomes agree: the same failure, or values related by `R`. -/
def GoRel {α β : Type} (R : α → β → Prop) : Go α → Go β → Prop
  | .ok a, .ok b => R a b
  | .error e, .error e' => e = e'
  | _, _ => False

/-- A reply of the adapter against one of the specification: the same
value, and an iterator that yields the specified entries. -/
def TreeReply.Matches : TreeReply → Reply → Prop
  | .done, .done => True
  | .value v, .value v' => v = v'
  | .found x, .found y => x = y
  | .iterator it, .entries l => coreIterOps.Yields it l
  | .batch i, .batch j => i = j
  | .size n, .size m => n = m
  | _, _ => False

/-- The same outcome, mapped to matching replies. -/
theorem GoRel.refl {α : Type} (x : Go α) : GoRel (· = ·) x x := by
  cases x <;> rfl

theorem goRel_map_self {α : Type} {f : α → TreeReply} {g : α → Reply}
    (hfg : ∀ a, (f a).Matches (g a)) (x : Go α) : GoRel TreeReply.Matches (x.map f) (x.map g) := by
  cases x with
  | ok a => exact hfg a
  | error e => rfl

/-- The same outcome of a write, replied as nil on both sides. -/
theorem goRel_map_done (x : Go Unit) :
    GoRel TreeReply.Matches (x.map fun _ => .done) (x.map fun _ => .done) := by
  apply goRel_map_self
  intro _
  trivial

/-- Related outcomes, mapped to matching replies. -/
theorem GoRel.map {α β : Type} {R : α → β → Prop} {f : α → TreeReply} {g : β → Reply}
    {x : Go α} {y : Go β} (h : GoRel R x y) (hfg : ∀ a b, R a b → (f a).Matches (g b)) :
    GoRel TreeReply.Matches (x.map f) (y.map g) := by
  cases x <;> cases y <;> simp_all [GoRel, Except.map]

-- ---------------------------------------------------------------------------
-- The adapter's methods over a store
-- ---------------------------------------------------------------------------

section Adapter

variable {D K S B W : Type} [DecidableEq B] {lib : TreeDBLib D K S B W} {k : K}
  {view : W → StoreState B} (hlib : IsStoreLib lib k view) (h : D)
include hlib

theorem get_adapter (key : Bytes) (w : W) :
    ((newTreeDBAdapter h k : TreeDB D K S).Get lib key w).1 = mapDB.get (view w).store key ∧
      ((newTreeDBAdapter h k : TreeDB D K S).Get lib key w).2.1 = newTreeDBAdapter h k ∧
      view ((newTreeDBAdapter h k : TreeDB D K S).Get lib key w).2.2 = view w := by
  by_cases hk : key = []
  · simp [TreeDB.Get, mapDB, hk]
  · -- through the kvstore adapter, reads not reused
    simp [TreeDB.Get, newTreeDBAdapter, mapDB, hk, liftLib, Except.mapError,
      (hlib.kvGetUnsafe key w).1, (hlib.kvGetUnsafe key w).2]

theorem has_adapter (key : Bytes) (w : W) :
    ((newTreeDBAdapter h k : TreeDB D K S).Has lib key w).1 = mapDB.has (view w).store key ∧
      view ((newTreeDBAdapter h k : TreeDB D K S).Has lib key w).2 = view w := by
  by_cases hk : key = []
  · simp [TreeDB.Has, mapDB, hk]
  · simp [TreeDB.Has, newTreeDBAdapter, mapDB, hk, liftLib, Except.mapError,
      (hlib.kvHas key w).1, (hlib.kvHas key w).2]

omit hlib [DecidableEq B] in
/-- `Set` and `SetSync` through a write that sets the map. -/
theorem setWith_adapter (view : W → StoreState B)
    {write : K → Bytes → Bytes → W → Except DbError Unit × W}
    (hwrite : ∀ key v w, key ≠ [] → (write k key v w).1 = .ok () ∧
      view (write k key v w).2 = { view w with store := (view w).store.set key v })
    (key : Bytes) (value : Option Bytes) (w : W) :
    ((newTreeDBAdapter h k : TreeDB D K S).setWith write key value w).1 =
        (mapSet (view w).store key value).1 ∧
      view ((newTreeDBAdapter h k : TreeDB D K S).setWith write key value w).2 =
        { view w with store := (mapSet (view w).store key value).2 } := by
  by_cases hk : key.length = 0
  · simp [TreeDB.setWith, mapSet, hk]
  · cases value with
    | none => simp [TreeDB.setWith, mapSet, hk]
    | some v =>
      have hne : key ≠ [] := by simpa using hk
      simp [TreeDB.setWith, newTreeDBAdapter, mapSet, hk, liftLib, Except.mapError,
        (hwrite key v w hne).1, (hwrite key v w hne).2]

omit hlib [DecidableEq B] in
/-- `Delete` and `DeleteSync` through a write that deletes from the map. -/
theorem deleteWith_adapter (view : W → StoreState B)
    {delete : K → Bytes → W → Except DbError Unit × W}
    (hdelete : ∀ key w, key ≠ [] → (delete k key w).1 = .ok () ∧
      view (delete k key w).2 = { view w with store := (view w).store.delete key })
    (key : Bytes) (w : W) :
    ((newTreeDBAdapter h k : TreeDB D K S).deleteWith delete key w).1 =
        (mapDelete (view w).store key).1 ∧
      view ((newTreeDBAdapter h k : TreeDB D K S).deleteWith delete key w).2 =
        { view w with store := (mapDelete (view w).store key).2 } := by
  by_cases hk : key.length = 0
  · simp [TreeDB.deleteWith, mapDelete, hk]
  · have hne : key ≠ [] := by simpa using hk
    simp [TreeDB.deleteWith, newTreeDBAdapter, mapDelete, hk, liftLib, Except.mapError,
      (hdelete key w hne).1, (hdelete key w hne).2]

theorem iterator_adapter (start «end» : Option Bytes) (w : W)
    (hsafe : isPrefixedIAVLVersionRange (start.getD []) («end».getD []) = true →
      (start.getD []).length ≠ 9) :
    GoRel (fun it l => coreIterOps.Yields it l)
        ((newTreeDBAdapter h k : TreeDB D K S).Iterator lib start «end» w).1
        (mapDB.iterator (view w).store start «end») ∧
      view ((newTreeDBAdapter h k : TreeDB D K S).Iterator lib start «end» w).2 = view w := by
  by_cases hb : hasEmptyBound start «end» = true
  · simp [TreeDB.Iterator, mapDB, hb, GoRel, throwErr]
  · obtain ⟨it, hit, hobs, hy⟩ := forwardIteratorWithIAVLFallback_exact hlib.kvIterator start «end» w hsafe
    simp only [TreeDB.Iterator, newTreeDBAdapter, mapDB, hb, hit, hobs, Bool.false_eq_true,
      if_false, Except.map, and_true]
    exact coreIterOps_yields hy start «end»

theorem reverseIterator_adapter (start «end» : Option Bytes) (w : W) :
    GoRel (fun it l => coreIterOps.Yields it l)
        ((newTreeDBAdapter h k : TreeDB D K S).ReverseIterator lib start «end» w).1
        (mapDB.reverseIterator (view w).store start «end») ∧
      view ((newTreeDBAdapter h k : TreeDB D K S).ReverseIterator lib start «end» w).2 = view w := by
  by_cases hb : hasEmptyBound start «end» = true
  · simp [TreeDB.ReverseIterator, mapDB, hb, GoRel, throwErr]
  · simp only [TreeDB.ReverseIterator, newTreeDBAdapter, mapDB, hb, Bool.false_eq_true, if_false,
      (hlib.kvReverseIterator start «end» w).1, (hlib.kvReverseIterator start «end» w).2, liftLib,
      Except.mapError, Except.map, and_true]
    exact coreIterOps_yields (kv_yields _) start «end»

/-- `NewBatchWithSize` wraps a kv batch never issued before, with nothing
recorded. -/
theorem newBatchWithSize_adapter (size : Int) (w : W) :
    ∃ kb, ((newTreeDBAdapter h k : TreeDB D K S).NewBatchWithSize lib size w).1 =
        ⟨true, some kb, 0, false⟩ ∧ (view w).ops kb = none ∧
      view ((newTreeDBAdapter h k : TreeDB D K S).NewBatchWithSize lib size w).2 =
        (view w).record kb [] := by
  obtain ⟨kb, hkb, hfresh, hview⟩ := hlib.kvNewBatch w
  refine ⟨kb, ?_, hfresh, ?_⟩
  · simp [TreeDB.NewBatchWithSize, newTreeDBAdapter, hkb]
  · simp [TreeDB.NewBatchWithSize, newTreeDBAdapter, hkb, hview]

end Adapter

-- ---------------------------------------------------------------------------
-- Batches
-- ---------------------------------------------------------------------------

section Batches

variable {D K S B W : Type}

/-- An adapter batch against a batch of the specification, with `ops` the
writes each kv batch has recorded: an open batch of the specification is an
undone batch whose kv batch has recorded its writes and which counts their
bytes; a closed one is a closed batch. -/
def BatchMatches (ops : B → Option (List BatchOp)) (b : CoreBatch B) :
    Option (List BatchOp) → Prop
  | none => b.closed = true
  | some l => b.done = false ∧ ∃ kb, b.kb = some kb ∧ ops kb = some l ∧
      b.size = (l.map BatchOp.byteSize).sum

/-- A match reads the writes of the batch's own kv batch only. -/
theorem BatchMatches.congr {ops ops' : B → Option (List BatchOp)} {b : CoreBatch B}
    {a : Option (List BatchOp)} (h : BatchMatches ops b a)
    (hops : ∀ kb, b.kb = some kb → ops' kb = ops kb) : BatchMatches ops' b a := by
  cases a with
  | none => exact h
  | some l =>
    obtain ⟨hd, kb, hkb, hl, hsize⟩ := h
    exact ⟨hd, kb, hkb, by rw [hops kb hkb, hl], hsize⟩

/-- `GetByteSize` on matching batches. -/
theorem getByteSize_matches {ops : B → Option (List BatchOp)} {b : CoreBatch B}
    {a : Option (List BatchOp)} (hb : BatchMatches ops b a) :
    b.GetByteSize = mapDB.batchGetByteSize a := by
  cases a with
  | none =>
    rw [CoreBatch.getByteSize_of_closed hb]
    rfl
  | some l =>
    obtain ⟨hd, kb, hkb, -, hsize⟩ := hb
    simp [CoreBatch.GetByteSize, mapDB, hd, hkb, hsize]

/-- One call on the batch `b` in the state `w`, with outcome `r`, against the
specification's outcome `s` (reply, map, batch) on the matching batch: the
same reply; the batches match after it; the map is the specification's; the
batch keeps its kv batch or drops it; no other kv batch's writes change, and
no handle stops being issued. -/
structure BatchStep (view : W → StoreState B) (b : CoreBatch B) (w : W)
    (r : Go Unit × CoreBatch B × W) (s : Go Unit × KVMap × Option (List BatchOp)) : Prop where
  reply : r.1 = s.1
  batch : BatchMatches (view r.2.2).ops r.2.1 s.2.2
  store : (view r.2.2).store = s.2.1
  handle : r.2.1.kb = b.kb ∨ r.2.1.kb = none
  others : ∀ kb, b.kb ≠ some kb → (view r.2.2).ops kb = (view w).ops kb
  issued : ∀ kb, (view w).ops kb ≠ none → (view r.2.2).ops kb ≠ none

/-- A call refused with `e` on both sides, touching nothing. -/
theorem BatchStep.refuse {view : W → StoreState B} {b : CoreBatch B} {w : W}
    {a : Option (List BatchOp)} (hb : BatchMatches (view w).ops b a) (e : DbError) :
    BatchStep view b w (throwErr e, b, w) (throwErr e, (view w).store, a) :=
  ⟨rfl, hb, rfl, .inl rfl, fun _ _ => rfl, fun _ h => h⟩

variable [DecidableEq B] {lib : TreeDBLib D K S B W} {k : K} {view : W → StoreState B}

/-- What `record` does after the argument checks: refuse a closed batch, or
record `op` in the open kv batch and count its bytes. -/
theorem record_batchStep {call : B → W → Except DbError Unit × W} {op : BatchOp}
    (hcall : ∀ kb l w, (view w).ops kb = some l →
      (call kb w).1 = .ok () ∧ view (call kb w).2 = (view w).record kb (l ++ [op]))
    {b : CoreBatch B} {a : Option (List BatchOp)} {w : W} (hb : BatchMatches (view w).ops b a) :
    BatchStep view b w (b.record call op.byteSize w)
      (match a with
        | none => (throwErr .errBatchClosed, (view w).store, none)
        | some l => (.ok (), (view w).store, some (l ++ [op]))) := by
  cases a with
  | none =>
    -- a closed batch is refused before its kv batch is called
    rw [CoreBatch.record_of_closed hb]
    exact BatchStep.refuse hb _
  | some l =>
    obtain ⟨hd, kb, hkb, hl, hsize⟩ := hb
    obtain ⟨hok, hview⟩ := hcall kb l w hl
    rcases CoreBatch.record_cases b call op.byteSize w with
      ⟨hc, -⟩ | ⟨kb', hkb', -, ⟨-, hr⟩ | ⟨e, herr, -⟩⟩
    · simp [CoreBatch.closed, hd, hkb] at hc
    · obtain rfl : kb' = kb := Option.some.inj (hkb'.symm.trans hkb)
      rw [hr]
      refine ⟨rfl, ⟨hd, kb', hkb, by rw [hview]; simp, by simp [hsize]⟩, by rw [hview]; simp,
        .inl rfl, fun kb'' hne => ?_, fun kb'' hiss => ?_⟩
      · -- another kv batch
        rw [hview]
        exact StoreState.record_ops_ne _ _ fun h => hne (by rw [hkb, h])
      · rw [hview]
        exact StoreState.record_ops_ne_none _ _ _ hiss
    · obtain rfl : kb' = kb := Option.some.inj (hkb'.symm.trans hkb)
      rw [hok] at herr
      cases herr

theorem set_batchStep (hlib : IsStoreLib lib k view) {b : CoreBatch B}
    {a : Option (List BatchOp)} {w : W} (hb : BatchMatches (view w).ops b a) (key : Bytes)
    (value : Option Bytes) :
    BatchStep view b w (b.Set lib key value w)
      ((mapDB.batchSet a key value).1, (view w).store, (mapDB.batchSet a key value).2) := by
  by_cases hk : key = []
  · subst hk
    simpa [CoreBatch.Set, mapDB, mapBatchRecord] using BatchStep.refuse hb .errKeyEmpty
  · cases value with
    | none => simpa [CoreBatch.Set, mapDB, mapBatchRecord, hk] using BatchStep.refuse hb .errValueNil
    | some v =>
      -- the checks pass: the write is recorded
      have hset : b.Set lib key (some v) w =
          b.record (fun kb => lib.batchSet kb key v) (BatchOp.byteSize (.set key v)) w := by
        simp [CoreBatch.Set, hk, BatchOp.byteSize]
      rw [hset]
      cases a <;>
        simpa [mapDB, mapBatchRecord, hk] using
          record_batchStep (fun kb l w hl => hlib.batchSet kb l key v w hl hk) hb

theorem delete_batchStep (hlib : IsStoreLib lib k view) {b : CoreBatch B}
    {a : Option (List BatchOp)} {w : W} (hb : BatchMatches (view w).ops b a) (key : Bytes) :
    BatchStep view b w (b.Delete lib key w)
      ((mapDB.batchDelete a key).1, (view w).store, (mapDB.batchDelete a key).2) := by
  by_cases hk : key = []
  · subst hk
    simpa [CoreBatch.Delete, mapDB, mapBatchRecord] using BatchStep.refuse hb .errKeyEmpty
  · have hdelete : b.Delete lib key w =
        b.record (fun kb => lib.batchDelete kb key) (BatchOp.byteSize (.delete key)) w := by
      simp [CoreBatch.Delete, hk, BatchOp.byteSize]
    rw [hdelete]
    cases a <;>
      simpa [mapDB, mapBatchRecord, hk] using
        record_batchStep (fun kb l w hl => hlib.batchDelete kb l key w hl hk) hb

omit [DecidableEq B] in
/-- `Write` and `WriteSync` through a commit that replays the recorded
writes, on a batch of the open adapter. -/
theorem writeWith_batchStep {commit : B → W → Except DbError Unit × W}
    (hcommit : ∀ kb l w, (view w).ops kb = some l → (commit kb w).1 = .ok () ∧
      view (commit kb w).2 = { view w with store := (view w).store.applyOps l })
    (h : D) {b : CoreBatch B} {a : Option (List BatchOp)} {w : W}
    (hb : BatchMatches (view w).ops b a) :
    BatchStep view b w (b.writeWith commit (newTreeDBAdapter h k : TreeDB D K S) w)
      (mapBatchWrite (view w).store a) := by
  cases a with
  | none =>
    rw [CoreBatch.writeWith_of_closed hb]
    exact BatchStep.refuse hb _
  | some l =>
    obtain ⟨hd, kb, hkb, hl, -⟩ := hb
    obtain ⟨hok, hview⟩ := hcommit kb l w hl
    -- the TreeDB is open, so the commit is made, and it succeeds
    rcases CoreBatch.writeWith_cases commit (newTreeDBAdapter h k : TreeDB D K S) b w with
      ⟨hc, -⟩ | ⟨-, -, hkv, -⟩ | ⟨kb', hkb', -, -, ⟨-, hr⟩ | ⟨e, herr, -⟩⟩
    · simp [CoreBatch.closed, hd, hkb] at hc
    · simp [newTreeDBAdapter] at hkv
    · obtain rfl : kb' = kb := Option.some.inj (hkb'.symm.trans hkb)
      rw [hr]
      refine ⟨rfl, by simp [mapBatchWrite, BatchMatches, CoreBatch.closed], by rw [hview]; rfl,
        .inl rfl, fun _ _ => by rw [hview], fun _ h => by rw [hview]; exact h⟩
    · obtain rfl : kb' = kb := Option.some.inj (hkb'.symm.trans hkb)
      rw [hok] at herr
      cases herr

/-- `Close` returns nil and closes the batch; it closes an issued kv batch,
which changes nothing observed. -/
theorem close_batchStep (hlib : IsStoreLib lib k view) {b : CoreBatch B} {w : W}
    (hiss : ∀ kb, b.kb = some kb → (view w).ops kb ≠ none) :
    BatchStep view b w (b.Close lib w) (.ok (), (view w).store, none) := by
  rcases CoreBatch.close_cases lib b w with ⟨-, hr⟩ | ⟨kb, hkb, hr⟩
  · -- no kv batch: marked done
    rw [hr]
    exact ⟨rfl, by simp [BatchMatches, CoreBatch.closed], rfl, .inl rfl, fun _ _ => rfl,
      fun _ h => h⟩
  · obtain ⟨hok, hview⟩ := hlib.batchClose kb w (hiss kb hkb)
    rw [hr]
    refine ⟨?_, by simp [BatchMatches, CoreBatch.closed], by rw [hview], .inr rfl,
      fun _ _ => by rw [hview], fun _ h => by rw [hview]; exact h⟩
    -- the kv batch's nil, or nothing read from it after a write
    split <;> simp [liftLib, Except.mapError, hok]

end Batches

-- ---------------------------------------------------------------------------
-- The system against the specification
-- ---------------------------------------------------------------------------

/-- A call of the `DB` interface, made on the TreeDB. -/
def Call.toTreeCall : Call → TreeCall
  | .get key => .get key
  | .has key => .has key
  | .set key value => .set key value
  | .setSync key value => .setSync key value
  | .delete key => .delete key
  | .deleteSync key => .deleteSync key
  | .iterator start «end» => .iterator start «end»
  | .reverseIterator start «end» => .reverseIterator start «end»
  | .newBatch => .newBatch
  | .newBatchWithSize size => .newBatchWithSize size
  | .batchSet b key value => .batchSet b key value
  | .batchDelete b key => .batchDelete b key
  | .batchWrite b => .batchWrite b
  | .batchWriteSync b => .batchWriteSync b
  | .batchClose b => .batchClose b
  | .batchGetByteSize b => .batchGetByteSize b

/-- Every call but a forward scan of an IAVL version range with nothing
before its `'s'`, the one on which `Iterator` panics when the range is
empty. -/
def Call.avoidsIAVLScanPanic : Call → Bool
  | .iterator start «end» =>
    !(isPrefixedIAVLVersionRange (start.getD []) («end».getD []) && (start.getD []).length == 9)
  | _ => true

theorem DB.onBatch_eq_onBatchWrite {σ β : Type} (s : Sys σ β) (b : Nat) (f : β → Go Unit × β) :
    DB.onBatch s b f = DB.onBatchWrite s b fun db x => ((f x).1, db, (f x).2) := by
  unfold DB.onBatch DB.onBatchWrite
  split <;> rfl

section Simulation

variable {D K S B W : Type}

/-- The adapter's system against the specification's: the TreeDB is the one
`NewTreeDBAdapter` opened on `h` and `k`; the library's map is the
specification's; index by index, the adapter's batches match the
specification's; every kv batch a batch holds is issued, and no two batches
hold the same one. -/
structure TreeSim (h : D) (k : K) (view : W → StoreState B) (sC : TreeSys D K S B W)
    (sA : Sys KVMap (Option (List BatchOp))) : Prop where
  tree : sC.tree = newTreeDBAdapter h k
  store : (view sC.world).store = sA.db
  length : sC.batches.length = sA.batches.length
  batches : ∀ (i : Nat) (e : CoreBatch B × List LibCall) (a : Option (List BatchOp)),
    sC.batches[i]? = some e → sA.batches[i]? = some a → BatchMatches (view sC.world).ops e.1 a
  issued : ∀ (i : Nat) (e : CoreBatch B × List LibCall) (kb : B),
    sC.batches[i]? = some e → e.1.kb = some kb → (view sC.world).ops kb ≠ none
  distinct : ∀ (i j : Nat) (e e' : CoreBatch B × List LibCall) (kb : B),
    sC.batches[i]? = some e → sC.batches[j]? = some e' → e.1.kb = some kb → e'.1.kb = some kb →
      i = j

variable {h : D} {k : K} {view : W → StoreState B} {sC : TreeSys D K S B W}
  {sA : Sys KVMap (Option (List BatchOp))}

theorem TreeSim.init (h : D) (k : K) (view : W → StoreState B) (w : W) :
    TreeSim h k view (TreeSys.init (newTreeDBAdapter h k : TreeDB D K S) w) ⟨(view w).store, []⟩ :=
  ⟨rfl, rfl, rfl, fun _ _ _ he => by simp [TreeSys.init] at he,
    fun _ _ _ he => by simp [TreeSys.init] at he, fun _ _ _ _ _ he => by simp [TreeSys.init] at he⟩

/-- Leaving the TreeDB and its batches, and the library's batches, with the
map as `m` on both sides. -/
theorem TreeSim.with_store (hR : TreeSim h k view sC sA) {sC' : TreeSys D K S B W} (m : KVMap)
    (htree : sC'.tree = sC.tree) (hbatches : sC'.batches = sC.batches)
    (hview : view sC'.world = { view sC.world with store := m }) :
    TreeSim h k view sC' { sA with db := m } := by
  have hops : (view sC'.world).ops = (view sC.world).ops := by rw [hview]
  refine ⟨htree.trans hR.tree, by rw [hview], by rw [hbatches]; exact hR.length, ?_, ?_, ?_⟩
  · intro i e a he ha
    rw [hops]
    exact hR.batches i e a (hbatches ▸ he) ha
  · intro i e kb he hkb
    rw [hops]
    exact hR.issued i e kb (hbatches ▸ he) hkb
  · intro i j e e' kb he he' hk hk'
    exact hR.distinct i j e e' kb (hbatches ▸ he) (hbatches ▸ he') hk hk'

/-- A call on the TreeDB that leaves it, with an outcome related by `R` to the
specification's, leaving the library's map as `m` and its batches. -/
theorem TreeSim.onTree {α β : Type} (hR : TreeSim h k view sC sA)
    {f : TreeDB D K S → W × List LibCall → Go α × (W × List LibCall)} {reply : α → TreeReply}
    {R : α → β → Prop} {x : Go β} {entry : β → Reply} (m : KVMap)
    (hres : GoRel R (f sC.tree (sC.world, sC.log)).1 x)
    (hview : view (f sC.tree (sC.world, sC.log)).2.1 = { view sC.world with store := m })
    (hmatch : ∀ a b, R a b → (reply a).Matches (entry b)) :
    TreeSim h k view (sC.onTree f reply).1 { sA with db := m } ∧
      GoRel TreeReply.Matches (sC.onTree f reply).2 (x.map entry) :=
  ⟨hR.with_store m rfl rfl hview, hres.map hmatch⟩

/-- A read on the TreeDB: the library's store is left as it was. -/
theorem TreeSim.onRead {α β : Type} (hR : TreeSim h k view sC sA)
    {f : TreeDB D K S → W × List LibCall → Go α × (W × List LibCall)} {reply : α → TreeReply}
    {R : α → β → Prop} {x : Go β} {entry : β → Reply}
    (hres : GoRel R (f sC.tree (sC.world, sC.log)).1 x)
    (hview : view (f sC.tree (sC.world, sC.log)).2.1 = view sC.world)
    (hmatch : ∀ a b, R a b → (reply a).Matches (entry b)) :
    TreeSim h k view (sC.onTree f reply).1 sA ∧
      GoRel TreeReply.Matches (sC.onTree f reply).2 (x.map entry) :=
  hR.onTree sA.db hres (by rw [hview, ← hR.store]) hmatch

/-- A call on the TreeDB that may change it, and here leaves it. -/
theorem TreeSim.onTreeUpdate {α β : Type} (hR : TreeSim h k view sC sA)
    {f : TreeDB D K S → W × List LibCall → Go α × TreeDB D K S × (W × List LibCall)}
    {reply : α → TreeReply} {R : α → β → Prop} {x : Go β} {entry : β → Reply} (m : KVMap)
    (htree : (f sC.tree (sC.world, sC.log)).2.1 = sC.tree)
    (hres : GoRel R (f sC.tree (sC.world, sC.log)).1 x)
    (hview : view (f sC.tree (sC.world, sC.log)).2.2.1 = { view sC.world with store := m })
    (hmatch : ∀ a b, R a b → (reply a).Matches (entry b)) :
    TreeSim h k view (sC.onTreeUpdate f reply).1 { sA with db := m } ∧
      GoRel TreeReply.Matches (sC.onTreeUpdate f reply).2 (x.map entry) :=
  ⟨hR.with_store m htree rfl hview, hres.map hmatch⟩

/-- A write on the TreeDB with the specification's outcome and map `r`. -/
theorem TreeSim.onWrite (hR : TreeSim h k view sC sA)
    {f : TreeDB D K S → W × List LibCall → Go Unit × (W × List LibCall)} (r : Go Unit × KVMap)
    (hres : (f sC.tree (sC.world, sC.log)).1 = r.1)
    (hview : view (f sC.tree (sC.world, sC.log)).2.1 = { view sC.world with store := r.2 }) :
    TreeSim h k view (sC.onTree f fun _ => .done).1 { sA with db := r.2 } ∧
      GoRel TreeReply.Matches (sC.onTree f fun _ => .done).2 (r.1.map fun _ => .done) := by
  have hrel : GoRel (· = ·) (f sC.tree (sC.world, sC.log)).1 r.1 := by
    rw [hres]
    exact GoRel.refl _
  exact hR.onTree r.2 hrel hview fun _ _ _ => trivial

/-- A new batch on a kv batch never issued before, with nothing recorded,
against a new empty batch. -/
theorem TreeSim.addBatch [DecidableEq B] (hR : TreeSim h k view sC sA)
    {f : TreeDB D K S → W × List LibCall → CoreBatch B × (W × List LibCall)} {kb : B}
    (hnew : (f sC.tree (sC.world, sC.log)).1 = ⟨true, some kb, 0, false⟩)
    (hfresh : (view sC.world).ops kb = none)
    (hview : view (f sC.tree (sC.world, sC.log)).2.1 = (view sC.world).record kb []) :
    TreeSim h k view (sC.addBatch f).1 { sA with batches := sA.batches ++ [some []] } ∧
      GoRel TreeReply.Matches (sC.addBatch f).2 (.ok (.batch sA.batches.length)) := by
  -- every batch already there holds an issued kv batch, so not the new one
  have hold : ∀ (i : Nat) (e : CoreBatch B × List LibCall) (kb' : B),
      sC.batches[i]? = some e → e.1.kb = some kb' → kb' ≠ kb :=
    fun i e kb' he hkb' heq => hR.issued i e kb' he hkb' (heq ▸ hfresh)
  refine ⟨⟨hR.tree, by simp [TreeSys.addBatch, hview, hR.store], by simp [TreeSys.addBatch, hR.length],
    ?_, ?_, ?_⟩, hR.length⟩
  · intro i e a he ha
    simp only [TreeSys.addBatch, hview] at he ⊢
    rcases getElem?_concat_eq_some he with he | ⟨rfl, rfl⟩
    · -- a batch already there, whose kv batch is not the new one
      have hi : i < sA.batches.length := hR.length ▸ (List.getElem?_eq_some_iff.mp he).1
      rw [List.getElem?_append_left hi] at ha
      refine (hR.batches i e a he ha).congr fun kb' hkb' => ?_
      exact StoreState.record_ops_ne _ _ (hold i e kb' he hkb')
    · -- the new batch
      rw [hR.length, List.getElem?_concat_length, Option.some.injEq] at ha
      subst ha
      show BatchMatches _ (f sC.tree (sC.world, sC.log)).1 (some [])
      rw [hnew]
      exact ⟨rfl, kb, rfl, StoreState.record_ops_self _ _ _, rfl⟩
  · intro i e kb' he hkb'
    simp only [TreeSys.addBatch, hview] at he ⊢
    rcases getElem?_concat_eq_some he with he | ⟨-, rfl⟩
    · exact StoreState.record_ops_ne_none _ _ _ (hR.issued i e kb' he hkb')
    · have hkb : kb' = kb := by simpa [hnew] using hkb'.symm
      simp [hkb]
  · intro i j e e' kb' he he' hk hk'
    simp only [TreeSys.addBatch] at he he'
    rcases getElem?_concat_eq_some he with he | ⟨hi, rfl⟩ <;>
      rcases getElem?_concat_eq_some he' with he' | ⟨hj, rfl⟩
    · exact hR.distinct i j e e' kb' he he' hk hk'
    · -- an old batch and the new one cannot share a kv batch
      exact absurd (by simpa [hnew] using hk'.symm) (hold i e kb' he hk)
    · exact absurd (by simpa [hnew] using hk.symm) (hold j e' kb' he' hk')
    · rw [hi, hj]

/-- The two systems have batches at the same indices. -/
theorem TreeSim.exists_batch (hR : TreeSim h k view sC sA) {i : Nat}
    {e : CoreBatch B × List LibCall} (he : sC.batches[i]? = some e) :
    ∃ a, sA.batches[i]? = some a := by
  have hi := (List.getElem?_eq_some_iff.mp he).1
  exact ⟨_, List.getElem?_eq_getElem (hR.length ▸ hi)⟩

theorem TreeSim.batch_none (hR : TreeSim h k view sC sA) {i : Nat}
    (he : sC.batches[i]? = none) : sA.batches[i]? = none := by
  rw [List.getElem?_eq_none_iff] at he ⊢
  rw [← hR.length]
  exact he

/-- A call on batch `i` that steps as the specification on matching batches
keeps the relation and gives matching replies; on a batch never made, both
dereference nil. -/
theorem TreeSim.onBatch (hR : TreeSim h k view sC sA) (i : Nat) (f : BatchMethod B W)
    (g : KVMap → Option (List BatchOp) → Go Unit × KVMap × Option (List BatchOp))
    (hfg : ∀ b log a, sC.batches[i]? = some (b, log) → sA.batches[i]? = some a →
      BatchStep (fun w => view w.1) b (sC.world, log) (f b (sC.world, log))
        (g (view sC.world).store a)) :
    TreeSim h k view (sC.onBatch i f).1 (DB.onBatchWrite sA i g).1 ∧
      GoRel TreeReply.Matches (sC.onBatch i f).2 (DB.onBatchWrite sA i g).2 := by
  cases he : sC.batches[i]? with
  | none =>
    rw [TreeSys.onBatch_of_none he]
    simp only [DB.onBatchWrite, hR.batch_none he]
    exact ⟨hR, rfl⟩
  | some e =>
    obtain ⟨b, log⟩ := e
    obtain ⟨a, ha⟩ := hR.exists_batch he
    have hs := hfg b log a he ha
    rw [TreeSys.onBatch_of_some he]
    simp only [DB.onBatchWrite, ha]
    rw [← hR.store]
    -- a kv batch held after the call was held at the same index before
    have hheld : ∀ (j : Nat) (e' : CoreBatch B × List LibCall) (kb : B),
        (sC.batches.set i ((f b (sC.world, log)).2.1, (f b (sC.world, log)).2.2.2))[j]? = some e' →
        e'.1.kb = some kb → ∃ e₀, sC.batches[j]? = some e₀ ∧ e₀.1.kb = some kb := by
      intro j e' kb he' hkb
      rcases getElem?_set_eq_some he' with ⟨rfl, rfl⟩ | ⟨-, he'⟩
      · rcases hs.handle with hkeep | hnone
        · exact ⟨(b, log), he, hkeep ▸ hkb⟩
        · simp [hnone] at hkb
      · exact ⟨e', he', hkb⟩
    refine ⟨⟨hR.tree, hs.store, by simp [hR.length], ?_, ?_, ?_⟩, ?_⟩
    · intro j e' a' he' ha'
      rcases getElem?_set_eq_some he' with ⟨rfl, rfl⟩ | ⟨hji, he'⟩
      · rcases getElem?_set_eq_some ha' with ⟨-, rfl⟩ | ⟨hne, -⟩
        · exact hs.batch
        · exact absurd rfl hne
      · -- another batch: its kv batch is not this one, so its writes stay
        rcases getElem?_set_eq_some ha' with ⟨hij, -⟩ | ⟨-, ha'⟩
        · exact absurd hij hji
        · refine (hR.batches j e' a' he' ha').congr fun kb hkb => hs.others kb fun hbk => ?_
          exact hji (hR.distinct j i e' (b, log) kb he' he hkb hbk)
    · intro j e' kb he' hkb
      obtain ⟨e₀, he₀, hkb₀⟩ := hheld j e' kb he' hkb
      exact hs.issued kb (hR.issued j e₀ kb he₀ hkb₀)
    · intro j₁ j₂ e₁ e₂ kb he₁ he₂ hk₁ hk₂
      obtain ⟨e₁', he₁', hk₁'⟩ := hheld j₁ e₁ kb he₁ hk₁
      obtain ⟨e₂', he₂', hk₂'⟩ := hheld j₂ e₂ kb he₂ hk₂
      exact hR.distinct j₁ j₂ e₁' e₂' kb he₁' he₂' hk₁' hk₂'
    · rw [hs.reply]
      exact goRel_map_done _

end Simulation

-- ---------------------------------------------------------------------------
-- The refinement
-- ---------------------------------------------------------------------------

section Refinement

variable {D K S B W : Type} [DecidableEq B] {lib : TreeDBLib D K S B W} {h : D} {k : K}
  {view : W → StoreState B}

/-- A call that avoids the panicking scan: its bounds are safe for
`forwardIteratorWithIAVLFallback_exact`. -/
theorem Call.iavl_safe {start «end» : Option Bytes}
    (hc : (Call.iterator start «end»).avoidsIAVLScanPanic = true) :
    isPrefixedIAVLVersionRange (start.getD []) («end».getD []) = true →
      (start.getD []).length ≠ 9 := by
  intro hiavl hlen
  simp [Call.avoidsIAVLScanPanic, hiavl, hlen] at hc

omit [DecidableEq B] in
/-- A write of the adapter that changes the library's map as `spec` changes
the specification's map, with the same outcome. -/
theorem TreeSim.onAdapterWrite {sC : TreeSys D K S B W} {sA : Sys KVMap (Option (List BatchOp))}
    (hR : TreeSim h k view sC sA)
    {f : TreeDB D K S → W × List LibCall → Go Unit × (W × List LibCall)} (spec : KVMap → Go Unit × KVMap)
    (hf : ∀ w, (f (newTreeDBAdapter h k) w).1 = (spec (view w.1).store).1 ∧
      view (f (newTreeDBAdapter h k) w).2.1 = { view w.1 with store := (spec (view w.1).store).2 }) :
    TreeSim h k view (sC.onTree f fun _ => .done).1 { sA with db := (spec sA.db).2 } ∧
      GoRel TreeReply.Matches (sC.onTree f fun _ => .done).2 ((spec sA.db).1.map fun _ => .done) := by
  obtain ⟨hres, hview⟩ := hf (sC.world, sC.log)
  rw [← hR.tree, hR.store] at hres hview
  exact hR.onWrite (spec sA.db) hres hview

/-- One call of the `DB` interface on the adapter, against the same call on
the specification: the relation is kept and the replies match. -/
theorem treeDB_step_sim (hlib : IsStoreLib lib k view) {sC : TreeSys D K S B W}
    {sA : Sys KVMap (Option (List BatchOp))} (hR : TreeSim h k view sC sA) (c : Call)
    (hc : c.avoidsIAVLScanPanic = true) :
    TreeSim h k view (TreeSys.step lib sC c.toTreeCall).1 (mapDB.step sA c).1 ∧
      GoRel TreeReply.Matches (TreeSys.step lib sC c.toTreeCall).2 (mapDB.step sA c).2 := by
  -- the system runs the logged library, itself a store; its TreeDB is the adapter
  have hl := hlib.logged
  have htree := hR.tree
  have hstore := hR.store
  cases c with
  | get key =>
    obtain ⟨hres, hd, hview⟩ := get_adapter hl h key (sC.world, sC.log)
    rw [← htree] at hres hd hview
    dsimp only at hres hview
    exact hR.onTreeUpdate sA.db hd (by rw [hres, hstore]; exact GoRel.refl _)
      (by rw [hview, ← hstore]) fun _ _ hab => hab
  | has key =>
    obtain ⟨hres, hview⟩ := has_adapter hl h key (sC.world, sC.log)
    rw [← htree] at hres hview
    dsimp only at hres hview
    exact hR.onRead (by rw [hres, hstore]; exact GoRel.refl _) hview fun _ _ hab => hab
  | set key value =>
    exact hR.onAdapterWrite (mapSet · key value)
      (setWith_adapter h (fun w : W × List LibCall => view w.1) hl.kvSet key value)
  | setSync key value =>
    exact hR.onAdapterWrite (mapSet · key value)
      (setWith_adapter h (fun w : W × List LibCall => view w.1) hl.kvSetSync key value)
  | delete key =>
    exact hR.onAdapterWrite (mapDelete · key) (deleteWith_adapter h (fun w : W × List LibCall => view w.1) hl.kvDelete key)
  | deleteSync key =>
    exact hR.onAdapterWrite (mapDelete · key)
      (deleteWith_adapter h (fun w : W × List LibCall => view w.1) hl.kvDeleteSync key)
  | iterator start «end» =>
    obtain ⟨hres, hview⟩ :=
      iterator_adapter hl h start «end» (sC.world, sC.log) (Call.iavl_safe hc)
    rw [← htree] at hres hview
    dsimp only at hres hview
    rw [hstore] at hres
    exact hR.onRead hres hview fun _ _ hy => hy
  | reverseIterator start «end» =>
    obtain ⟨hres, hview⟩ := reverseIterator_adapter hl h start «end» (sC.world, sC.log)
    rw [← htree] at hres hview
    dsimp only at hres hview
    rw [hstore] at hres
    exact hR.onRead hres hview fun _ _ hy => hy
  | newBatch =>
    obtain ⟨kb, hnew, hfresh, hview⟩ := newBatchWithSize_adapter hl h 16 (sC.world, sC.log)
    rw [← htree] at hnew hview
    exact hR.addBatch hnew hfresh hview
  | newBatchWithSize size =>
    obtain ⟨kb, hnew, hfresh, hview⟩ := newBatchWithSize_adapter hl h size (sC.world, sC.log)
    rw [← htree] at hnew hview
    exact hR.addBatch hnew hfresh hview
  | batchSet i key value =>
    simp only [Call.toTreeCall, TreeSys.step, DB.step]
    rw [DB.onBatch_eq_onBatchWrite]
    exact hR.onBatch i _ _ fun b log a he ha =>
      set_batchStep hl (hR.batches i (b, log) a he ha) key value
  | batchDelete i key =>
    simp only [Call.toTreeCall, TreeSys.step, DB.step]
    rw [DB.onBatch_eq_onBatchWrite]
    exact hR.onBatch i _ _ fun b log a he ha =>
      delete_batchStep hl (hR.batches i (b, log) a he ha) key
  | batchWrite i =>
    simp only [Call.toTreeCall, TreeSys.step, DB.step, htree]
    exact hR.onBatch i _ _ fun b log a he ha =>
      writeWith_batchStep hl.batchCommit h (hR.batches i (b, log) a he ha)
  | batchWriteSync i =>
    simp only [Call.toTreeCall, TreeSys.step, DB.step, htree]
    exact hR.onBatch i _ _ fun b log a he ha =>
      writeWith_batchStep hl.batchCommitSync h (hR.batches i (b, log) a he ha)
  | batchClose i =>
    simp only [Call.toTreeCall, TreeSys.step, DB.step]
    rw [DB.onBatch_eq_onBatchWrite]
    exact hR.onBatch i _ _ fun b log _ he _ =>
      close_batchStep hl fun kb hkb => hR.issued i (b, log) kb he hkb
  | batchGetByteSize i =>
    simp only [Call.toTreeCall, TreeSys.step, DB.step]
    cases he : sC.batches[i]? with
    | none =>
      simp only [hR.batch_none he]
      exact ⟨hR, rfl⟩
    | some e =>
      obtain ⟨b, log⟩ := e
      obtain ⟨a, ha⟩ := hR.exists_batch he
      simp only [ha]
      refine ⟨hR, ?_⟩
      -- the byte counts of matching batches agree
      rw [getByteSize_matches (hR.batches i (b, log) a he ha)]
      apply goRel_map_self
      intro _
      rfl

/-- Over every run of `DB` calls on the TreeDB that `NewTreeDBAdapter` opens,
against a library that behaves as a sorted map, the adapter answers as the
specification answers on the library's map, call by call, and leaves the
library's map as the specification leaves it; the calls avoid the one
forward scan that panics. -/
theorem treeDB_refines_mapDB (lib : TreeDBLib D K S B W) (h : D) (k : K)
    (view : W → StoreState B) (hlib : IsStoreLib lib k view) (w : W) (calls : List Call)
    (hcalls : ∀ c ∈ calls, c.avoidsIAVLScanPanic = true) :
    List.Forall₂ (GoRel TreeReply.Matches)
        (run (TreeSys.step lib) (TreeSys.init (newTreeDBAdapter h k : TreeDB D K S) w)
          (calls.map Call.toTreeCall)).2
        (mapDB.runFrom (view w).store calls).2 ∧
      (view (run (TreeSys.step lib) (TreeSys.init (newTreeDBAdapter h k : TreeDB D K S) w)
          (calls.map Call.toTreeCall)).1.world).store =
        (mapDB.runFrom (view w).store calls).1.db := by
  obtain ⟨hR, hout⟩ := run_simulation_map (TreeSys.step lib) mapDB.step Call.toTreeCall
    (fun c => c.avoidsIAVLScanPanic = true) (TreeSim h k view) (GoRel TreeReply.Matches)
    (fun _ _ c hc hR => treeDB_step_sim hlib hR c hc) calls hcalls (TreeSim.init h k view w)
  exact ⟨hout, hR.store⟩

end Refinement

/-- `refLib`'s state as a store: its map, and the writes of each kv batch
handed out so far. -/
def refView (w : RefWorld) : StoreState Nat := ⟨w.store, fun kb => w.pending[kb]?⟩

/-- The reference library behaves as a sorted map. -/
theorem refLib_isStoreLib : IsStoreLib refLib () refView where
  kvGetUnsafe _ _ := ⟨rfl, rfl⟩
  kvHas _ _ := ⟨rfl, rfl⟩
  kvSet _ _ _ _ := ⟨rfl, rfl⟩
  kvSetSync _ _ _ _ := ⟨rfl, rfl⟩
  kvDelete _ _ _ := ⟨rfl, rfl⟩
  kvDeleteSync _ _ _ := ⟨rfl, rfl⟩
  kvIterator _ _ _ := ⟨rfl, rfl⟩
  kvReverseIterator _ _ _ := ⟨rfl, rfl⟩
  kvNewBatch w := by
    refine ⟨w.pending.length, rfl, by simp [refView], ?_⟩
    -- the new handle is the next index
    simp only [refLib, refView, StoreState.record, StoreState.mk.injEq, true_and]
    funext kb
    by_cases hkb : kb = w.pending.length
    · subst hkb
      simp
    · rw [Function.update_of_ne hkb, List.getElem?_append]
      split_ifs with hlt
      · rfl
      · rw [List.getElem?_singleton, if_neg (by omega), List.getElem?_eq_none (by omega)]
  batchSet kb l key v w hl _ := by
    refine ⟨rfl, ?_⟩
    simp only [refLib, refView, StoreState.record, StoreState.mk.injEq, true_and]
    funext kb'
    by_cases hkb : kb' = kb
    · subst hkb
      simp [List.getElem?_modify_eq, show w.pending[kb']? = some l from hl]
    · rw [Function.update_of_ne hkb, List.getElem?_modify_ne _ _ (Ne.symm hkb)]
  batchDelete kb l key w hl _ := by
    refine ⟨rfl, ?_⟩
    simp only [refLib, refView, StoreState.record, StoreState.mk.injEq, true_and]
    funext kb'
    by_cases hkb : kb' = kb
    · subst hkb
      simp [List.getElem?_modify_eq, show w.pending[kb']? = some l from hl]
    · rw [Function.update_of_ne hkb, List.getElem?_modify_ne _ _ (Ne.symm hkb)]
  batchCommit kb l w hl := by
    refine ⟨rfl, ?_⟩
    simp [refLib, refView, List.getD_eq_getElem?_getD, show w.pending[kb]? = some l from hl]
  batchCommitSync kb l w hl := by
    refine ⟨rfl, ?_⟩
    simp [refLib, refView, List.getD_eq_getElem?_getD, show w.pending[kb]? = some l from hl]
  batchClose _ _ _ := ⟨rfl, rfl⟩

theorem treeDB_refines_mapDB_ref :
    IsStoreLib refLib () refView ∧
      (∀ c ∈ [Call.set [1] (some [2]), .newBatch, .batchSet 0 [3] (some [4]), .batchWrite 0,
          .iterator none none, .batchGetByteSize 0], c.avoidsIAVLScanPanic = true) ∧
      (List.Forall₂ (GoRel TreeReply.Matches)
          (run (TreeSys.step refLib) (TreeSys.init (newTreeDBAdapter () ()) ⟨SortedMap.empty, []⟩)
            ([Call.set [1] (some [2]), .newBatch, .batchSet 0 [3] (some [4]), .batchWrite 0,
              .iterator none none, .batchGetByteSize 0].map Call.toTreeCall)).2
          (mapDB.runFrom (refView ⟨SortedMap.empty, []⟩).store
            [Call.set [1] (some [2]), .newBatch, .batchSet 0 [3] (some [4]), .batchWrite 0,
              .iterator none none, .batchGetByteSize 0]).2 ∧
        (refView (run (TreeSys.step refLib)
            (TreeSys.init (newTreeDBAdapter () ()) ⟨SortedMap.empty, []⟩)
            ([Call.set [1] (some [2]), .newBatch, .batchSet 0 [3] (some [4]), .batchWrite 0,
              .iterator none none, .batchGetByteSize 0].map Call.toTreeCall)).1.world).store =
          (mapDB.runFrom (refView ⟨SortedMap.empty, []⟩).store
            [Call.set [1] (some [2]), .newBatch, .batchSet 0 [3] (some [4]), .batchWrite 0,
              .iterator none none, .batchGetByteSize 0]).1.db) :=
  ⟨refLib_isStoreLib, by decide,
    treeDB_refines_mapDB refLib () () refView refLib_isStoreLib _ _ (by decide)⟩

end CosmosDb
