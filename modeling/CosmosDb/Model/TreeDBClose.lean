import CosmosDb.Model.TreeDBBatch

/-!
# CosmosDb — a TreeDB after `Close`

`Close` unpins the snapshot and clears `db` and `kv` together; every method
checks the handle it is about to use. So the state invariant `Consistent`
(`db` and `kv` nil together, no snapshot without a database) holds along
every run in which `PinSnapshot` is not called on a closed TreeDB, and once
`Close` has returned every `DB` call with valid arguments returns
`treedb.ErrClosed` without calling the library, every later `Close` returns
nil, and every batch, made before or after, fails `Write` and `WriteSync`
without committing (`treeDB_after_close`).

The run is cut at the first `Close`: before it, no call changes `db` or
`kv` (`step_db_kv`); after it, no call but `PinSnapshot` pins a snapshot
(`step_snap`).
-/

namespace CosmosDb

namespace TreeDB

variable {D K S B W : Type} (lib : TreeDBLib D K S B W)

/-- The state invariant of a `TreeDB`. -/
structure Consistent (d : TreeDB D K S) : Prop where
  db_iff_kv : d.db = none ↔ d.kv = none
  snap_of_db : d.db = none → d.snap = none

/-- Closed: no database, no kvstore adapter, no snapshot. -/
structure IsClosed (d : TreeDB D K S) : Prop where
  db : d.db = none
  kv : d.kv = none
  snap : d.snap = none

theorem IsClosed.consistent {d : TreeDB D K S} (h : d.IsClosed) : d.Consistent :=
  ⟨by simp [h.db, h.kv], fun _ => h.snap⟩

variable {d : TreeDB D K S} (hd : d.IsClosed) {w : W}
include hd

-- Each method on a closed TreeDB: the check it makes before the library.

theorem get_of_closed {key : Bytes} (hk : key.length ≠ 0) :
    d.Get lib key w = (throwErr .errClosed, d, w) := by
  simp [Get, hk, hd.snap, hd.db]

theorem getAppend_of_closed {key : Bytes} (hk : key.length ≠ 0) (dst : Option Bytes) :
    d.GetAppend lib key dst w = (throwErr .errClosed, w) := by
  simp [GetAppend, hk, hd.snap, hd.db]

theorem has_of_closed {key : Bytes} (hk : key.length ≠ 0) :
    d.Has lib key w = (throwErr .errClosed, w) := by
  simp [Has, hk, hd.snap, hd.kv]

theorem setWith_of_closed (write : K → Bytes → Bytes → W → Except DbError Unit × W) {key : Bytes}
    (hk : key.length ≠ 0) (v : Bytes) : d.setWith write key (some v) w = (throwErr .errClosed, w) := by
  simp [setWith, hk, hd.kv]

theorem deleteWith_of_closed (delete : K → Bytes → W → Except DbError Unit × W) {key : Bytes}
    (hk : key.length ≠ 0) : d.deleteWith delete key w = (throwErr .errClosed, w) := by
  simp [deleteWith, hk, hd.kv]

theorem iterator_of_closed {start «end» : Option Bytes} (hb : hasEmptyBound start «end» = false) :
    d.Iterator lib start «end» w = (throwErr .errClosed, w) := by
  simp [Iterator, hb, hd.kv]

theorem reverseIterator_of_closed {start «end» : Option Bytes}
    (hb : hasEmptyBound start «end» = false) :
    d.ReverseIterator lib start «end» w = (throwErr .errClosed, w) := by
  simp [ReverseIterator, hb, hd.kv]

theorem checkpoint_of_closed : d.Checkpoint lib w = (throwErr .errClosed, w) := by
  simp [Checkpoint, hd.kv]

theorem close_of_closed : d.Close lib w = (.ok (), d, w) := by
  simp [Close, hd.db]

omit hd

/-- `Close` on a TreeDB with a database leaves it closed, whatever the
database's `Close` returns. -/
theorem close_isClosed (h : d.db ≠ none) (w : W) : (d.Close lib w).2.1.IsClosed := by
  obtain ⟨h', hdb⟩ := Option.ne_none_iff_exists'.mp h
  -- the snapshot is unpinned first
  have hsnap : (d.UnpinSnapshot lib w).1.snap = none := by
    unfold UnpinSnapshot
    split <;> simp_all
  simp only [Close, hdb]
  exact ⟨rfl, rfl, hsnap⟩

/-- `Get` changes no handle, only `readBuf`. -/
theorem get_handles (d : TreeDB D K S) (key : Bytes) (w : W) :
    (d.Get lib key w).2.1.db = d.db ∧ (d.Get lib key w).2.1.kv = d.kv ∧
      (d.Get lib key w).2.1.snap = d.snap := by
  unfold Get
  dsimp only
  repeat' split
  all_goals simp

/-- `PinSnapshot` changes neither `db` nor `kv`. -/
theorem pinSnapshot_db_kv (d : TreeDB D K S) (w : W) :
    (d.PinSnapshot lib w).2.1.db = d.db ∧ (d.PinSnapshot lib w).2.1.kv = d.kv := by
  unfold PinSnapshot
  dsimp only
  split <;> simp

/-- `UnpinSnapshot` leaves no snapshot, and changes nothing else. -/
theorem unpinSnapshot_handles (d : TreeDB D K S) (w : W) :
    (d.UnpinSnapshot lib w).1.db = d.db ∧ (d.UnpinSnapshot lib w).1.kv = d.kv ∧
      (d.UnpinSnapshot lib w).1.snap = none := by
  unfold UnpinSnapshot
  split <;> simp_all

end TreeDB

-- ---------------------------------------------------------------------------
-- One step on the TreeDB
-- ---------------------------------------------------------------------------

/-- The calls of the `DB` interface that need an open TreeDB, with a
nonempty key, a non-nil value and bounds that are nil or nonempty. -/
def TreeCall.needsOpen : TreeCall → Bool
  | .get key | .getAppend key _ | .has key | .delete key | .deleteSync key => key.length != 0
  | .set key value | .setSync key value => key.length != 0 && value.isSome
  | .iterator start «end» | .reverseIterator start «end» => !hasEmptyBound start «end»
  | .checkpoint => true
  | _ => false

namespace TreeSys

variable {D K S B W : Type} (lib : TreeDBLib D K S B W)

/-- Every batch holds its TreeDB. -/
def Owned (s : TreeSys D K S B W) : Prop :=
  ∀ (i : Nat) (b : CoreBatch B) (log : List LibCall), s.batches[i]? = some (b, log) → b.db = true

theorem onTree_refuse {α : Type} {s : TreeSys D K S B W}
    {f : TreeDB D K S → W × List LibCall → Go α × (W × List LibCall)} {reply : α → TreeReply}
    {e : DbError} (hf : f s.tree (s.world, s.log) = (throwErr e, (s.world, s.log))) :
    s.onTree f reply = (s, throwErr e) := by
  simp [onTree, hf, throwErr, Except.map]

theorem onTreeUpdate_refuse {α : Type} {s : TreeSys D K S B W}
    {f : TreeDB D K S → W × List LibCall → Go α × TreeDB D K S × (W × List LibCall)}
    {reply : α → TreeReply} {e : DbError}
    (hf : f s.tree (s.world, s.log) = (throwErr e, s.tree, (s.world, s.log))) :
    s.onTreeUpdate f reply = (s, throwErr e) := by
  simp [onTreeUpdate, hf, throwErr, Except.map]

theorem onBatch_tree (s : TreeSys D K S B W) (i : Nat) (f : BatchMethod B W) :
    (s.onBatch i f).1.tree = s.tree := by
  unfold onBatch
  split <;> rfl

/-- Only `PinSnapshot`, `UnpinSnapshot`, `Get` and `Close` change the TreeDB. -/
theorem step_tree (s : TreeSys D K S B W) {c : TreeCall}
    (hc : c ≠ .pinSnapshot ∧ c ≠ .unpinSnapshot ∧ (∀ key, c ≠ .get key) ∧ c ≠ .close) :
    (step lib s c).1.tree = s.tree := by
  obtain ⟨hpin, hunpin, hget, hclose⟩ := hc
  cases c
  case pinSnapshot => exact absurd rfl hpin
  case unpinSnapshot => exact absurd rfl hunpin
  case get key => exact absurd rfl (hget key)
  case close => exact absurd rfl hclose
  case batchGetByteSize i =>
    simp only [step]
    split <;> rfl
  case batchSet | batchSetView | batchDelete | batchDeleteView | batchWrite | batchWriteSync |
      batchClose => exact onBatch_tree ..
  all_goals rfl

/-- Only `Close` changes `db` or `kv`. -/
theorem step_db_kv (s : TreeSys D K S B W) {c : TreeCall} (hc : c ≠ .close) :
    (step lib s c).1.tree.db = s.tree.db ∧ (step lib s c).1.tree.kv = s.tree.kv := by
  by_cases hpin : c = .pinSnapshot
  · subst hpin
    exact TreeDB.pinSnapshot_db_kv _ _ _
  by_cases hunpin : c = .unpinSnapshot
  · subst hunpin
    exact ⟨(TreeDB.unpinSnapshot_handles _ _ _).1, (TreeDB.unpinSnapshot_handles _ _ _).2.1⟩
  by_cases hget : ∃ key, c = .get key
  · obtain ⟨key, rfl⟩ := hget
    exact ⟨(TreeDB.get_handles _ _ _ _).1, (TreeDB.get_handles _ _ _ _).2.1⟩
  rw [step_tree lib s ⟨hpin, hunpin, fun key h => hget ⟨key, h⟩, hc⟩]
  exact ⟨rfl, rfl⟩

/-- No call but `PinSnapshot` pins a snapshot: outside `Close`, the snapshot
stays or goes. -/
theorem step_snap (s : TreeSys D K S B W) {c : TreeCall} (hc : c ≠ .close)
    (hp : c ≠ .pinSnapshot) :
    (step lib s c).1.tree.snap = s.tree.snap ∨ (step lib s c).1.tree.snap = none := by
  by_cases hunpin : c = .unpinSnapshot
  · subst hunpin
    exact .inr (TreeDB.unpinSnapshot_handles _ _ _).2.2
  by_cases hget : ∃ key, c = .get key
  · obtain ⟨key, rfl⟩ := hget
    exact .inl (TreeDB.get_handles _ _ _ _).2.2
  rw [step_tree lib s ⟨hp, hunpin, fun key h => hget ⟨key, h⟩, hc⟩]
  exact .inl rfl

/-- Every step keeps the batches holding their TreeDB. -/
theorem step_owned {s : TreeSys D K S B W} (h : s.Owned) (c : TreeCall) : (step lib s c).1.Owned := by
  intro i b log hb
  cases he : s.batches[i]? with
  | some e =>
    rcases step_entry lib he c with ⟨f, hm, hb', -⟩ | ⟨-, hb'⟩
    · obtain ⟨rfl, -⟩ := pair_eq_of_eq_some hb' hb
      rw [(TreeCall.batchMethod_effect lib hm).db]
      exact h i e.1 e.2 he
    · rw [hb'] at hb
      obtain rfl := Option.some.inj hb
      exact h i _ _ he
  | none =>
    -- a batch that was not there is a new one
    exact (step_missing lib he hb).2.1

end TreeSys

-- ---------------------------------------------------------------------------
-- The run, cut at the first `Close`
-- ---------------------------------------------------------------------------

section AfterClose

variable {D K S B W : Type} (lib : TreeDBLib D K S B W)

/-- Before the first `Close`: consistent, with a database, every batch holding
its TreeDB. -/
structure OpenInv (s : TreeSys D K S B W) : Prop where
  consistent : s.tree.Consistent
  db : s.tree.db ≠ none
  owned : s.Owned

/-- After it: closed, every batch holding its TreeDB. -/
structure ClosedInv (s : TreeSys D K S B W) : Prop where
  closed : s.tree.IsClosed
  owned : s.Owned

/-- What holds once `Close` has returned: the invariant; every `DB` call with
valid arguments returns `ErrClosed` and changes nothing, so calls no library
function and reads no snapshot; `Close` returns nil; `Write` and `WriteSync`
on every batch fail and change nothing, so commit nothing. -/
structure AfterClose (s : TreeSys D K S B W) : Prop where
  consistent : s.tree.Consistent
  closed : s.tree.IsClosed
  refuses : ∀ c, c.needsOpen = true → TreeSys.step lib s c = (s, throwErr .errClosed)
  closeReturnsNil : TreeSys.step lib s .close = (s, .ok .done)
  writesFail : ∀ i c, i < s.batches.length → c.writes i = true →
    ∃ e, TreeSys.step lib s c = (s, throwErr e)

theorem openInv_step {s : TreeSys D K S B W} (h : OpenInv s) {c : TreeCall} (hc : c ≠ .close) :
    OpenInv (TreeSys.step lib s c).1 := by
  obtain ⟨hdb, hkv⟩ := TreeSys.step_db_kv lib s hc
  refine ⟨⟨?_, ?_⟩, by rw [hdb]; exact h.db, TreeSys.step_owned lib h.owned c⟩
  · rw [hdb, hkv]
    exact h.consistent.db_iff_kv
  · -- the database is still there
    intro hnone
    rw [hdb] at hnone
    exact absurd hnone h.db

theorem closedInv_close {s : TreeSys D K S B W} (h : OpenInv s) :
    ClosedInv (TreeSys.step lib s .close).1 :=
  ⟨TreeDB.close_isClosed lib.logged h.db _, TreeSys.step_owned lib h.owned _⟩

theorem step_close_of_closed {s : TreeSys D K S B W} (h : s.tree.IsClosed) :
    TreeSys.step lib s .close = (s, .ok .done) := by
  simp [TreeSys.step, TreeSys.onTreeUpdate, TreeDB.close_of_closed lib.logged h, Except.map]

theorem closedInv_step {s : TreeSys D K S B W} (h : ClosedInv s) {c : TreeCall}
    (hp : c ≠ .pinSnapshot) : ClosedInv (TreeSys.step lib s c).1 := by
  refine ⟨?_, TreeSys.step_owned lib h.owned c⟩
  by_cases hc : c = .close
  · -- `Close` again changes nothing
    subst hc
    rw [step_close_of_closed lib h.closed]
    exact h.closed
  · obtain ⟨hdb, hkv⟩ := TreeSys.step_db_kv lib s hc
    refine ⟨by rw [hdb]; exact h.closed.db, by rw [hkv]; exact h.closed.kv, ?_⟩
    rcases TreeSys.step_snap lib s hc hp with hs | hs
    · rw [hs]
      exact h.closed.snap
    · exact hs

/-- `Write` through a closed TreeDB fails and changes nothing. -/
theorem writeWith_of_kv_none {commit : B → W → Except DbError Unit × W} {d : TreeDB D K S}
    (hkv : d.kv = none) {b : CoreBatch B} (hdb : b.db = true) (w : W) :
    ∃ e, CoreBatch.writeWith commit d b w = (throwErr e, b, w) := by
  rcases CoreBatch.writeWith_cases commit d b w with
    ⟨-, h⟩ | ⟨-, -, -, h⟩ | ⟨kb, -, -, hopen, -⟩
  · exact ⟨_, h⟩
  · exact ⟨_, h⟩
  · -- a batch holding a closed TreeDB never reaches the commit
    have hsome := hopen hdb
    rw [hkv] at hsome
    cases hsome

theorem afterClose_of_closedInv {s : TreeSys D K S B W} (h : ClosedInv s) : AfterClose lib s where
  consistent := h.closed.consistent
  closed := h.closed
  refuses c hc := by
    have hd := h.closed
    -- each call checks its arguments, then finds no handle
    cases c
    case get key =>
      have hk : key.length ≠ 0 := by simpa [TreeCall.needsOpen] using hc
      show s.onTreeUpdate (fun d => d.Get lib.logged key) .value = _
      exact TreeSys.onTreeUpdate_refuse (TreeDB.get_of_closed _ hd hk)
    case getAppend key dst =>
      have hk : key.length ≠ 0 := by simpa [TreeCall.needsOpen] using hc
      show s.onTree (fun d => d.GetAppend lib.logged key dst) .value = _
      exact TreeSys.onTree_refuse (TreeDB.getAppend_of_closed _ hd hk dst)
    case has key =>
      have hk : key.length ≠ 0 := by simpa [TreeCall.needsOpen] using hc
      show s.onTree (fun d => d.Has lib.logged key) .found = _
      exact TreeSys.onTree_refuse (TreeDB.has_of_closed _ hd hk)
    case set key value =>
      obtain ⟨hk, v, rfl⟩ : key.length ≠ 0 ∧ ∃ v, value = some v := by
        simpa [TreeCall.needsOpen, Option.isSome_iff_exists] using hc
      show s.onTree (fun d => d.Set lib.logged key (some v)) (fun _ => .done) = _
      exact TreeSys.onTree_refuse (TreeDB.setWith_of_closed hd _ hk v)
    case setSync key value =>
      obtain ⟨hk, v, rfl⟩ : key.length ≠ 0 ∧ ∃ v, value = some v := by
        simpa [TreeCall.needsOpen, Option.isSome_iff_exists] using hc
      show s.onTree (fun d => d.SetSync lib.logged key (some v)) (fun _ => .done) = _
      exact TreeSys.onTree_refuse (TreeDB.setWith_of_closed hd _ hk v)
    case delete key =>
      have hk : key.length ≠ 0 := by simpa [TreeCall.needsOpen] using hc
      show s.onTree (fun d => d.Delete lib.logged key) (fun _ => .done) = _
      exact TreeSys.onTree_refuse (TreeDB.deleteWith_of_closed hd _ hk)
    case deleteSync key =>
      have hk : key.length ≠ 0 := by simpa [TreeCall.needsOpen] using hc
      show s.onTree (fun d => d.DeleteSync lib.logged key) (fun _ => .done) = _
      exact TreeSys.onTree_refuse (TreeDB.deleteWith_of_closed hd _ hk)
    case iterator start «end» =>
      have hb : hasEmptyBound start «end» = false := by simpa [TreeCall.needsOpen] using hc
      show s.onTree (fun d => d.Iterator lib.logged start «end») .iterator = _
      exact TreeSys.onTree_refuse (TreeDB.iterator_of_closed _ hd hb)
    case reverseIterator start «end» =>
      have hb : hasEmptyBound start «end» = false := by simpa [TreeCall.needsOpen] using hc
      show s.onTree (fun d => d.ReverseIterator lib.logged start «end») .iterator = _
      exact TreeSys.onTree_refuse (TreeDB.reverseIterator_of_closed _ hd hb)
    case checkpoint =>
      show s.onTree (fun d => d.Checkpoint lib.logged) (fun _ => .done) = _
      exact TreeSys.onTree_refuse (TreeDB.checkpoint_of_closed _ hd)
    all_goals simp [TreeCall.needsOpen] at hc
  closeReturnsNil := step_close_of_closed lib h.closed
  writesFail i c hi hw := by
    obtain ⟨⟨b, log⟩, he⟩ : ∃ e, s.batches[i]? = some e := ⟨_, List.getElem?_eq_getElem hi⟩
    have hdb := h.owned i b log he
    -- both writes go through `withSerializedBatchWrite`, which finds no `kv`
    cases c <;> simp only [TreeCall.writes, beq_iff_eq, reduceCtorEq] at hw <;> subst hw
    · obtain ⟨e, hf⟩ := writeWith_of_kv_none h.closed.kv hdb (s.world, log)
      exact ⟨e, TreeSys.onBatch_refuse he hf⟩
    · obtain ⟨e, hf⟩ := writeWith_of_kv_none h.closed.kv hdb (s.world, log)
      exact ⟨e, TreeSys.onBatch_refuse he hf⟩

/-- Along every run from an open, consistent TreeDB whose batches hold it:
the invariant holds until the first `Close`, and once it has returned, with
no `PinSnapshot` after it, the TreeDB behaves as closed. -/
theorem treeDB_after_close (lib : TreeDBLib D K S B W) (s₀ : TreeSys D K S B W)
    (hcons : s₀.tree.Consistent) (hopen : s₀.tree.db ≠ none) (howned : s₀.Owned)
    (calls₁ calls₂ : List TreeCall) (h₁ : TreeCall.close ∉ calls₁)
    (h₂ : TreeCall.pinSnapshot ∉ calls₂) :
    (run (TreeSys.step lib) s₀ calls₁).1.tree.Consistent ∧
      AfterClose lib (run (TreeSys.step lib) s₀ (calls₁ ++ .close :: calls₂)).1 := by
  -- up to the first `Close`
  have hpre : OpenInv (run (TreeSys.step lib) s₀ calls₁).1 :=
    run_invariant (TreeSys.step lib) (· ≠ .close) OpenInv (fun s c hc h => openInv_step lib h hc)
      calls₁ (fun c hc heq => h₁ (heq ▸ hc)) ⟨hcons, hopen, howned⟩
  -- from it on
  have hpost : ClosedInv (run (TreeSys.step lib)
      (TreeSys.step lib (run (TreeSys.step lib) s₀ calls₁).1 .close).1 calls₂).1 :=
    run_invariant (TreeSys.step lib) (· ≠ .pinSnapshot) ClosedInv
      (fun s c hc h => closedInv_step lib h hc) calls₂ (fun c hc heq => h₂ (heq ▸ hc))
      (closedInv_close lib hpre)
  refine ⟨hpre.consistent, ?_⟩
  rw [run_append, run_cons]
  exact afterClose_of_closedInv lib hpost

end AfterClose

/-- A TreeDB just opened on the reference library, with no batch. -/
def refTreeSys : TreeSys Unit Unit KVMap Nat RefWorld :=
  ⟨⟨some (), some (), none, false, none⟩, [], ⟨SortedMap.empty, []⟩, []⟩

theorem treeDB_after_close_pinned :
    refTreeSys.tree.Consistent ∧ refTreeSys.tree.db ≠ none ∧ refTreeSys.Owned ∧
      TreeCall.close ∉ [TreeCall.newBatch, .pinSnapshot, .batchSet 0 [1] (some [2])] ∧
      TreeCall.pinSnapshot ∉ [TreeCall.newBatch, .get [1]] ∧
      ((run (TreeSys.step refLib) refTreeSys
          [TreeCall.newBatch, .pinSnapshot, .batchSet 0 [1] (some [2])]).1.tree.Consistent ∧
        AfterClose refLib (run (TreeSys.step refLib) refTreeSys
          ([TreeCall.newBatch, .pinSnapshot, .batchSet 0 [1] (some [2])] ++
            .close :: [TreeCall.newBatch, .get [1]])).1) := by
  have hcons : refTreeSys.tree.Consistent := ⟨by simp [refTreeSys], by simp [refTreeSys]⟩
  have hopen : refTreeSys.tree.db ≠ none := by simp [refTreeSys]
  have howned : refTreeSys.Owned := fun i b log h => by simp [refTreeSys] at h
  have h₁ : TreeCall.close ∉ [TreeCall.newBatch, .pinSnapshot, .batchSet 0 [1] (some [2])] := by
    simp
  have h₂ : TreeCall.pinSnapshot ∉ [TreeCall.newBatch, .get [1]] := by simp
  exact ⟨hcons, hopen, howned, h₁, h₂,
    treeDB_after_close refLib refTreeSys hcons hopen howned _ _ h₁ h₂⟩

end CosmosDb
