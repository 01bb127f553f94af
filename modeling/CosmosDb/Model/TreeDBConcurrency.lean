import CosmosDb.Model.TreeDBClose
import CosmosDb.Lib.RWMutex

/-!
# CosmosDb — TreeDB's batch writes and `Close` under concurrent callers

`TreeDB` has one lock, `batchWriteMu`, a `sync.Mutex`. A batch's `Write` and
`WriteSync` take it in `withSerializedBatchWrite`, around the check that the
TreeDB still has its kvstore adapter and the commit after it; `Close` takes
it around all it does: the check of `db`, `UnpinSnapshot`, the database's
`Close`, and clearing `db` and `kv`. Without the lock a commit could pass the
check, the database be closed, and the commit then reach a closed library.

Here any number of goroutines call `Write`, `WriteSync` and `Close` on one
TreeDB at once. A step is one goroutine's, from one point where another may
run to the next: taking the lock, each check, each call on the library, each
update of the TreeDB, releasing the lock. The lock is `Lib/RWMutex`'s `Lock`
and `Unlock` (a `sync.Mutex` is an `RWMutex` without readers), read off what
each goroutine is doing. A batch belongs to the goroutine that writes it and
was made by the TreeDB's `NewBatch`, so it holds its TreeDB (`TreeBatch`);
`Write`'s checks of `done` and `kb`, before the lock, read only the batch.
The other methods of `TreeDB` take no lock and are not among the calls here.
The ghost `log` holds the calls that have returned, with their replies, in
the order they returned.

Results, over every interleaving:

* `treeDB_batchWrite_linearizable` — the log is what the sequential TreeDB
  of `TreeDB.lean` answers, run in the log's order; at most one goroutine
  holds `batchWriteMu`; and while no goroutine is in a call, the TreeDB and
  the library are where that run leaves them;
* `treeDB_commits_before_close` — in the log of the library's calls, every
  commit comes before the database's `Close`;
* `treeDB_write_after_close_fails` — from a consistent TreeDB, a `Write` or
  `WriteSync` that returns after a `Close` has returned fails, with
  `errBatchClosed` or `treedb.ErrClosed`.
-/

namespace CosmosDb

namespace TreeDBConcurrency

open RWMutex

/-- A batch made by the TreeDB's `NewBatch`: it holds its TreeDB
(`b.db != nil`), as `newBatchWithSize_fresh` shows of every such batch. -/
def TreeBatch (B : Type) : Type := {b : CoreBatch B // b.db = true}

/-- A call that takes `batchWriteMu`: `Write` (`sync` false) or `WriteSync`
(`sync` true) on a batch, or the TreeDB's `Close`. -/
inductive Op (B : Type) where
  | write (sync : Bool) (b : TreeBatch B)
  | close

/-- What a call returns: `Write`'s error with the batch after it, or
`Close`'s error. -/
inductive Reply (B : Type) where
  | written (r : Go Unit) (b : CoreBatch B)
  | closed (r : Go Unit)

variable {D K S B W : Type} (lib : TreeDBLib D K S B W)

/-- `Write`, or `WriteSync` when `sync`. -/
def batchWrite (sync : Bool) (d : TreeDB D K S) (b : CoreBatch B) (w : W) :
    Go Unit × CoreBatch B × W :=
  if sync then CoreBatch.WriteSync lib d b w else CoreBatch.Write lib d b w

/-- The kv batch's commit that `Write` or `WriteSync` makes. -/
def commitWith (sync : Bool) : B → W → Except DbError Unit × W :=
  if sync then lib.batchCommitSync else lib.batchCommit

/-- One call on its own: the sequential TreeDB. -/
def seqStep (x : TreeDB D K S × W) : Op B → (TreeDB D K S × W) × Reply B
  | .write sync b =>
    let r := batchWrite lib sync x.1 b.1 x.2
    ((x.1, r.2.2), .written r.1 r.2.1)
  | .close =>
    let r := TreeDB.Close lib x.1 x.2
    ((r.2.1, r.2.2), .closed r.1)

/-- What `Write` returns once `withSerializedBatchWrite` has returned `r`: its
error, or nil with the batch marked done. -/
def returned (b : CoreBatch B) : Except DbError Unit → Reply B
  | .ok () => .written (.ok ()) { b with done := true }
  | .error e => .written (throwErr e) b

/-! ## The sequential calls, piece by piece -/

theorem batchWrite_eq (sync : Bool) (d : TreeDB D K S) (b : CoreBatch B) (w : W) :
    batchWrite lib sync d b w = CoreBatch.writeWith (commitWith lib sync) d b w := by
  cases sync <;> rfl

/-- A `Write` on a written or closed batch changes nothing. -/
theorem seqStep_write_of_closed (x : TreeDB D K S × W) {sync : Bool} {b : TreeBatch B}
    (hb : b.1.closed = true) : seqStep lib x (.write sync b) = (x, .written (throwErr .errBatchClosed) b.1) := by
  simp only [seqStep, batchWrite_eq, CoreBatch.writeWith_of_closed hb]

/-- A `Write` on an open batch is `withSerializedBatchWrite` around its commit. -/
theorem seqStep_write_of_open (x : TreeDB D K S × W) {sync : Bool} {b : TreeBatch B} {kb : B}
    (hd : b.1.done = false) (hk : b.1.kb = some kb) :
    seqStep lib x (.write sync b) =
      ((x.1, (TreeDB.withSerializedBatchWrite (some x.1) (commitWith lib sync kb) x.2).2),
        returned b.1 (TreeDB.withSerializedBatchWrite (some x.1) (commitWith lib sync kb) x.2).1) := by
  simp only [seqStep, batchWrite_eq, CoreBatch.writeWith, hd, hk, b.2, Bool.false_eq_true, ↓reduceIte]
  split <;> simp_all [returned, b.2]

/-! ## The goroutines -/

/-- What one goroutine is doing. In every state but `idle` it holds
`batchWriteMu`. -/
inductive Goroutine (B : Type) where
  /-- between calls -/
  | idle
  /-- in `withSerializedBatchWrite`, holding the lock: the check of `d.kv` is next -/
  | locked (sync : Bool) (b : TreeBatch B) (kb : B)
  /-- `d.kv` is not nil: the commit is next -/
  | committing (sync : Bool) (b : TreeBatch B) (kb : B)
  /-- `withSerializedBatchWrite` returns `r` at its deferred `Unlock` -/
  | unlocking (sync : Bool) (b : TreeBatch B) (r : Except DbError Unit)
  /-- in `Close`, holding the lock: the check of `d.db` is next -/
  | closeLocked
  /-- `d.db` is not nil: `UnpinSnapshot` is next -/
  | unpinning
  /-- the database's `Close` is next -/
  | dbClosing
  /-- the database's `Close` returned `r`: clearing `db` and `kv` is next -/
  | clearing (r : Except DbError Unit)
  /-- `Close` returns `r` at its deferred `Unlock` -/
  | closeUnlocking (r : Go Unit)

/-- What a goroutine holds of `batchWriteMu`. -/
def Goroutine.hold : Goroutine B → Hold
  | .idle => .free
  | _ => .exclusive

/-- The TreeDB, the library's state, the goroutines, and the calls that have
returned, with their replies, in the order they did. -/
structure State (D K S B W : Type) where
  tree : TreeDB D K S
  world : W
  threads : List (Goroutine B)
  log : List (Op B × Reply B)

/-- What each goroutine holds of the lock. -/
def State.holds (s : State D K S B W) : List Hold := s.threads.map Goroutine.hold

/-- `n` goroutines, none of them in a call. -/
def init (tree : TreeDB D K S) (world : W) (n : Nat) : State D K S B W :=
  ⟨tree, world, List.replicate n .idle, []⟩

/-- One step of the goroutine `i`. -/
inductive Step : State D K S B W → State D K S B W → Prop
  /-- `Write` on a written or closed batch returns `errBatchClosed` without the lock -/
  | refuse {s : State D K S B W} {i : Nat} {sync : Bool} {b : TreeBatch B}
      (hi : s.threads[i]? = some .idle) (hb : b.1.closed = true) :
      Step s { s with log := s.log ++ [(.write sync b, .written (throwErr .errBatchClosed) b.1)] }
  /-- `Write` on an open batch: `withSerializedBatchWrite` takes the lock -/
  | lockWrite {s : State D K S B W} {i : Nat} {sync : Bool} {b : TreeBatch B} {kb : B}
      (hi : s.threads[i]? = some .idle) (hd : b.1.done = false) (hk : b.1.kb = some kb)
      (hl : CanLock s.holds) :
      Step s { s with threads := s.threads.set i (.locked sync b kb) }
  /-- `d.kv` is nil: `treedb.ErrClosed` -/
  | kvNil {s : State D K S B W} {i : Nat} {sync : Bool} {b : TreeBatch B} {kb : B}
      (hi : s.threads[i]? = some (.locked sync b kb)) (hkv : s.tree.kv = none) :
      Step s { s with threads := s.threads.set i (.unlocking sync b (.error .errClosed)) }
  | kvOpen {s : State D K S B W} {i : Nat} {sync : Bool} {b : TreeBatch B} {kb : B}
      (hi : s.threads[i]? = some (.locked sync b kb)) (hkv : s.tree.kv.isSome = true) :
      Step s { s with threads := s.threads.set i (.committing sync b kb) }
  /-- `b.kb.Commit()` or `b.kb.CommitSync()` -/
  | commit {s : State D K S B W} {i : Nat} {sync : Bool} {b : TreeBatch B} {kb : B}
      (hi : s.threads[i]? = some (.committing sync b kb)) :
      Step s { s with
        world := (commitWith lib sync kb s.world).2
        threads := s.threads.set i (.unlocking sync b (commitWith lib sync kb s.world).1) }
  /-- the deferred `Unlock`; `Write` marks the batch done if the commit
  succeeded, and returns -/
  | unlockWrite {s : State D K S B W} {i : Nat} {sync : Bool} {b : TreeBatch B}
      {r : Except DbError Unit} (hi : s.threads[i]? = some (.unlocking sync b r)) :
      Step s { s with threads := s.threads.set i .idle, log := s.log ++ [(.write sync b, returned b.1 r)] }
  /-- `Close` takes the lock -/
  | lockClose {s : State D K S B W} {i : Nat} (hi : s.threads[i]? = some .idle) (hl : CanLock s.holds) :
      Step s { s with threads := s.threads.set i .closeLocked }
  /-- `d.db` is nil: `Close` returns nil -/
  | dbNil {s : State D K S B W} {i : Nat} (hi : s.threads[i]? = some .closeLocked)
      (hdb : s.tree.db = none) :
      Step s { s with threads := s.threads.set i (.closeUnlocking (.ok ())) }
  | dbOpen {s : State D K S B W} {i : Nat} (hi : s.threads[i]? = some .closeLocked)
      (hdb : s.tree.db.isSome = true) :
      Step s { s with threads := s.threads.set i .unpinning }
  | unpin {s : State D K S B W} {i : Nat} (hi : s.threads[i]? = some .unpinning) :
      Step s { s with
        tree := (TreeDB.UnpinSnapshot lib s.tree s.world).1
        world := (TreeDB.UnpinSnapshot lib s.tree s.world).2
        threads := s.threads.set i .dbClosing }
  /-- `d.db.Close()`, on the database `d.db` holds -/
  | dbClose {s : State D K S B W} {i : Nat} {h : D} (hi : s.threads[i]? = some .dbClosing)
      (hdb : s.tree.db = some h) :
      Step s { s with
        world := (lib.dbClose h s.world).2
        threads := s.threads.set i (.clearing (lib.dbClose h s.world).1) }
  /-- `d.db = nil; d.kv = nil` -/
  | clear {s : State D K S B W} {i : Nat} {r : Except DbError Unit}
      (hi : s.threads[i]? = some (.clearing r)) :
      Step s { s with
        tree := { s.tree with db := none, kv := none }
        threads := s.threads.set i (.closeUnlocking (liftLib r)) }
  /-- the deferred `Unlock`; `Close` returns -/
  | unlockClose {s : State D K S B W} {i : Nat} {r : Go Unit}
      (hi : s.threads[i]? = some (.closeUnlocking r)) :
      Step s { s with threads := s.threads.set i .idle, log := s.log ++ [(.close, .closed r)] }

/-! ## What a goroutine in a call has done -/

/-- What a goroutine's state says of the TreeDB and the library, `x` being
where the sequential run of the calls that have returned leaves them: how far
into its call's sequential steps the goroutine is. -/
def Sound (x : TreeDB D K S × W) (tree : TreeDB D K S) (world : W) : Goroutine B → Prop
  | .idle => True
  | .locked _ b kb => b.1.done = false ∧ b.1.kb = some kb ∧ (tree, world) = x
  | .committing _ b kb => b.1.done = false ∧ b.1.kb = some kb ∧ (tree, world) = x ∧ tree.kv.isSome = true
  | .unlocking sync b r => ∃ kb, b.1.done = false ∧ b.1.kb = some kb ∧ tree = x.1 ∧
      TreeDB.withSerializedBatchWrite (some x.1) (commitWith lib sync kb) x.2 = (r, world)
  | .closeLocked => (tree, world) = x
  | .unpinning => (tree, world) = x ∧ tree.db.isSome = true
  | .dbClosing => x.1.db.isSome = true ∧ (tree, world) = TreeDB.UnpinSnapshot lib x.1 x.2
  | .clearing r => ∃ h, x.1.db = some h ∧ tree = (TreeDB.UnpinSnapshot lib x.1 x.2).1 ∧
      lib.dbClose h (TreeDB.UnpinSnapshot lib x.1 x.2).2 = (r, world)
  | .closeUnlocking r => TreeDB.Close lib x.1 x.2 = (r, tree, world)

section Sound

variable {lib} {x : TreeDB D K S × W} {tree : TreeDB D K S} {world : W} {sync : Bool}
  {b : TreeBatch B} {kb : B}

-- One lemma per step a goroutine takes inside its call.

theorem Sound.kvNil (h : Sound lib x tree world (.locked sync b kb)) (hkv : tree.kv = none) :
    Sound lib x tree world (.unlocking sync b (.error .errClosed)) := by
  obtain ⟨hd, hk, rfl⟩ := h
  exact ⟨kb, hd, hk, rfl, by simp [TreeDB.withSerializedBatchWrite, hkv]⟩

theorem Sound.kvOpen (h : Sound lib x tree world (.locked sync b kb)) (hkv : tree.kv.isSome = true) :
    Sound lib x tree world (.committing sync b kb) := by
  obtain ⟨hd, hk, hx⟩ := h
  exact ⟨hd, hk, hx, hkv⟩

theorem Sound.commit (h : Sound lib x tree world (.committing sync b kb)) :
    Sound lib x tree (commitWith lib sync kb world).2 (.unlocking sync b (commitWith lib sync kb world).1) := by
  obtain ⟨hd, hk, rfl, hkv⟩ := h
  obtain ⟨k, hk'⟩ := Option.isSome_iff_exists.mp hkv
  exact ⟨kb, hd, hk, rfl, by simp [TreeDB.withSerializedBatchWrite, hk']⟩

/-- Back from `withSerializedBatchWrite`, the goroutine has made the
sequential `Write`. -/
theorem Sound.unlockWrite {r : Except DbError Unit} (h : Sound lib x tree world (.unlocking sync b r)) :
    seqStep lib x (.write sync b) = ((tree, world), returned b.1 r) := by
  obtain ⟨kb, hd, hk, rfl, hw⟩ := h
  rw [seqStep_write_of_open lib x hd hk, hw]

theorem Sound.dbNil (h : Sound lib x tree world .closeLocked) (hdb : tree.db = none) :
    Sound lib x tree world (.closeUnlocking (.ok ())) := by
  subst h
  simp [Sound, TreeDB.Close, hdb]

theorem Sound.unpin (h : Sound lib x tree world .unpinning) :
    Sound lib x (TreeDB.UnpinSnapshot lib tree world).1 (TreeDB.UnpinSnapshot lib tree world).2 .dbClosing := by
  obtain ⟨rfl, hdb⟩ := h
  exact ⟨hdb, rfl⟩

theorem Sound.dbClose {h : D} (hs : Sound lib x tree world .dbClosing) (hdb : tree.db = some h) :
    Sound lib x tree (lib.dbClose h world).2 (.clearing (lib.dbClose h world).1) := by
  obtain ⟨-, hu⟩ := hs
  obtain ⟨htree, hworld⟩ := Prod.ext_iff.mp hu
  -- `UnpinSnapshot` keeps the database handle, so `d.db` is the one `Close` checked
  have hdb' : x.1.db = some h := by
    rw [← (TreeDB.unpinSnapshot_handles lib x.1 x.2).1, ← htree, hdb]
  exact ⟨h, hdb', htree, by rw [← hworld]⟩

theorem Sound.clear {r : Except DbError Unit} (h : Sound lib x tree world (.clearing r)) :
    Sound lib x { tree with db := none, kv := none } world (.closeUnlocking (liftLib r)) := by
  obtain ⟨h, hdb, rfl, hclose⟩ := h
  show TreeDB.Close lib x.1 x.2 = _
  simp only [TreeDB.Close, hdb, hclose]

/-- Back from `Close`'s critical section, the goroutine has made the
sequential `Close`. -/
theorem Sound.unlockClose {r : Go Unit} (h : Sound lib x tree world (.closeUnlocking r)) :
    seqStep lib x .close = ((tree, world), .closed r) := by
  have hc : TreeDB.Close lib x.1 x.2 = (r, tree, world) := h
  simp only [seqStep, hc]

end Sound

/-! ## The invariant -/

/-- The invariant of every reachable state: the lock's law, the log explained
by the sequential TreeDB, the TreeDB and the library where the log leaves them
while no goroutine holds the lock, and each goroutine sound. -/
structure Inv (x0 : TreeDB D K S × W) (s : State D K S B W) : Prop where
  exclusive : Exclusive s.holds
  explains : Explains (seqStep lib) x0 s.log
  committed : CanLock s.holds → (s.tree, s.world) = after (seqStep lib) x0 s.log
  sound : ∀ (j : Nat) g, s.threads[j]? = some g →
    Sound lib (after (seqStep lib) x0 s.log) s.tree s.world g

section Steps

variable {lib} {x0 : TreeDB D K S × W} {s : State D K S B W}

theorem holds_getElem? {i : Nat} {g : Goroutine B} (hi : s.threads[i]? = some g) :
    s.holds[i]? = some g.hold := by
  simp [State.holds, hi]

theorem idle_of_free {g : Goroutine B} (hg : g.hold = .free) : g = .idle := by
  cases g <;> simp_all [Goroutine.hold]

/-- While the goroutine `i` holds the lock, every other one is idle. -/
theorem Inv.idle_of_holder (hinv : Inv lib x0 s) {i j : Nat} {g g' : Goroutine B}
    (hi : s.threads[i]? = some g) (hg : g.hold = .exclusive) (hj : s.threads[j]? = some g')
    (hji : j ≠ i) : g' = .idle := by
  refine idle_of_free (by_contra fun hfree => hji ?_)
  have hgi := holds_getElem? hi
  rw [hg] at hgi
  exact (hinv.exclusive.eq_of_held hgi (holds_getElem? hj) hfree).symm

/-- `Write`'s refusal changes nothing, so the log's run moves nowhere. -/
theorem Inv.refuse (hinv : Inv lib x0 s) {op : Op B} {o : Reply B} (hseq : ∀ x, seqStep lib x op = (x, o)) :
    Inv lib x0 { s with log := s.log ++ [(op, o)] } := by
  have hafter : after (seqStep lib) x0 (s.log ++ [(op, o)]) = after (seqStep lib) x0 s.log := by
    rw [after_concat, hseq]
  refine ⟨hinv.exclusive, hinv.explains.concat (by rw [hseq]), ?_, ?_⟩
  · intro hl
    rw [hafter]
    exact hinv.committed hl
  · intro j g hj
    rw [hafter]
    exact hinv.sound j g hj

/-- Taking the lock: the goroutine starts its call where the log leaves the
TreeDB. -/
theorem Inv.lock (hinv : Inv lib x0 s) {i : Nat} {g' : Goroutine B} (hg' : g'.hold = .exclusive)
    (hl : CanLock s.holds)
    (hsound : (s.tree, s.world) = after (seqStep lib) x0 s.log →
      Sound lib (after (seqStep lib) x0 s.log) s.tree s.world g') :
    Inv lib x0 { s with threads := s.threads.set i g' } := by
  refine ⟨?_, hinv.explains, fun _ => hinv.committed hl, ?_⟩
  · show Exclusive ((s.threads.set i g').map Goroutine.hold)
    rw [List.map_set, hg']
    exact hl.set_exclusive i
  · intro j g hj
    rcases getElem?_set_eq_some hj with ⟨-, rfl⟩ | ⟨-, hj'⟩
    · exact hsound (hinv.committed hl)
    · -- every other goroutine was free
      rw [idle_of_free (hl _ (List.mem_map_of_mem (List.mem_of_getElem? hj')))]
      trivial

/-- A step inside a call: the goroutine keeps the lock, and every other one
stays idle. -/
theorem Inv.internal (hinv : Inv lib x0 s) {i : Nat} {g g' : Goroutine B} (hi : s.threads[i]? = some g)
    (hg : g.hold = .exclusive) (hg' : g'.hold = .exclusive) {tree : TreeDB D K S} {world : W}
    (hsound : Sound lib (after (seqStep lib) x0 s.log) s.tree s.world g →
      Sound lib (after (seqStep lib) x0 s.log) tree world g') :
    Inv lib x0 { s with tree := tree, world := world, threads := s.threads.set i g' } := by
  have hholds : (s.threads.set i g').map Goroutine.hold = s.holds :=
    map_set_of_getElem? hi (hg'.trans hg.symm)
  refine ⟨?_, hinv.explains, ?_, ?_⟩
  · show Exclusive ((s.threads.set i g').map Goroutine.hold)
    rw [hholds]
    exact hinv.exclusive
  · -- the goroutine still holds the lock
    show CanLock ((s.threads.set i g').map Goroutine.hold) → _
    rw [hholds]
    intro hl
    have hfree := hl _ (List.mem_map_of_mem (List.mem_of_getElem? hi))
    rw [hg] at hfree
    cases hfree
  · intro j g'' hj
    rcases getElem?_set_eq_some hj with ⟨-, rfl⟩ | ⟨hji, hj'⟩
    · exact hsound (hinv.sound i g hi)
    · rw [hinv.idle_of_holder hi hg hj' hji]
      trivial

/-- Releasing the lock: the call returns, its sequential step made. -/
theorem Inv.unlock (hinv : Inv lib x0 s) {i : Nat} {g : Goroutine B} (hi : s.threads[i]? = some g)
    (hg : g.hold = .exclusive) {op : Op B} {o : Reply B}
    (hseq : Sound lib (after (seqStep lib) x0 s.log) s.tree s.world g →
      seqStep lib (after (seqStep lib) x0 s.log) op = ((s.tree, s.world), o)) :
    Inv lib x0 { s with threads := s.threads.set i .idle, log := s.log ++ [(op, o)] } := by
  have hstep := hseq (hinv.sound i g hi)
  have hafter : after (seqStep lib) x0 (s.log ++ [(op, o)]) = (s.tree, s.world) := by
    rw [after_concat, hstep]
  refine ⟨?_, hinv.explains.concat (by rw [hstep]), fun _ => hafter.symm, ?_⟩
  · show Exclusive ((s.threads.set i .idle).map Goroutine.hold)
    rw [List.map_set]
    exact hinv.exclusive.set_free i
  · intro j g' hj
    rcases getElem?_set_eq_some hj with ⟨-, rfl⟩ | ⟨hji, hj'⟩
    · trivial
    · rw [hinv.idle_of_holder hi hg hj' hji]
      trivial

theorem Inv.step (hinv : Inv lib x0 s) {s' : State D K S B W} (h : Step lib s s') : Inv lib x0 s' := by
  cases h with
  | refuse _ hb => exact hinv.refuse fun x => seqStep_write_of_closed lib x hb
  | lockWrite _ hd hk hl => exact hinv.lock rfl hl fun hx => ⟨hd, hk, hx⟩
  | kvNil hi hkv => exact hinv.internal hi rfl rfl fun h => h.kvNil hkv
  | kvOpen hi hkv => exact hinv.internal hi rfl rfl fun h => h.kvOpen hkv
  | commit hi => exact hinv.internal hi rfl rfl Sound.commit
  | unlockWrite hi => exact hinv.unlock hi rfl Sound.unlockWrite
  | lockClose _ hl => exact hinv.lock rfl hl id
  | dbNil hi hdb => exact hinv.internal hi rfl rfl fun h => h.dbNil hdb
  | dbOpen hi hdb => exact hinv.internal hi rfl rfl fun h => ⟨h, hdb⟩
  | unpin hi => exact hinv.internal hi rfl rfl Sound.unpin
  | dbClose hi hdb => exact hinv.internal hi rfl rfl fun h => h.dbClose hdb
  | clear hi => exact hinv.internal hi rfl rfl Sound.clear
  | unlockClose hi => exact hinv.unlock hi rfl Sound.unlockClose

end Steps

theorem inv_init (tree : TreeDB D K S) (world : W) (n : Nat) :
    Inv lib (tree, world) (init tree world n : State D K S B W) := by
  refine ⟨?_, explains_nil, fun _ => rfl, ?_⟩
  · refine CanRLock.exclusive fun hx => ?_
    simp [State.holds, init, List.mem_replicate, Goroutine.hold] at hx
  · intro j g hj
    rw [init, List.getElem?_replicate] at hj
    split_ifs at hj
    cases hj
    trivial

theorem inv_of_reachable {tree : TreeDB D K S} {world : W} {n : Nat} {s : State D K S B W}
    (hs : Relation.ReflTransGen (Step lib) (init tree world n) s) : Inv lib (tree, world) s := by
  induction hs with
  | refl => exact inv_init lib tree world n
  | tail _ hstep ih => exact ih.step hstep

/-! ## Every interleaving -/

/-- `Write`, `WriteSync` and `Close` are linearizable: in every interleaving of
any number of goroutines, the calls that have returned, in the log's order,
are a run of the sequential TreeDB that gives each call its reply; no
goroutine holds `batchWriteMu` while another does; and while no goroutine is
in a call, the TreeDB and the library are where that run leaves them. -/
theorem treeDB_batchWrite_linearizable (tree : TreeDB D K S) (world : W) (n : Nat)
    {s : State D K S B W} (hs : Relation.ReflTransGen (Step lib) (init tree world n) s) :
    Explains (seqStep lib) (tree, world) s.log ∧ Exclusive s.holds ∧
      ((∀ g ∈ s.threads, g = .idle) → (s.tree, s.world) = after (seqStep lib) (tree, world) s.log) := by
  have hinv := inv_of_reachable lib hs
  refine ⟨hinv.explains, hinv.exclusive, fun hidle => hinv.committed fun h hh => ?_⟩
  obtain ⟨g, hg, rfl⟩ := List.mem_map.mp hh
  rw [hidle g hg]
  rfl

/-- Goroutine 0 writes a batch while goroutine 1 waits to close, then
goroutine 1 closes the TreeDB. -/
theorem treeDB_batchWrite_linearizable_run :
    ∃ s : State Unit Unit KVMap Nat RefWorld,
      Relation.ReflTransGen (Step refLib) (init (newTreeDBAdapter () ()) ⟨SortedMap.empty, [[]]⟩ 2) s ∧
      s.log = [(.write false ⟨⟨true, some 0, 0, false⟩, rfl⟩, .written (.ok ()) ⟨true, some 0, 0, true⟩),
        (.close, .closed (.ok ()))] ∧
      (Explains (seqStep refLib) (newTreeDBAdapter () (), ⟨SortedMap.empty, [[]]⟩) s.log ∧
        Exclusive s.holds ∧
        ((∀ g ∈ s.threads, g = .idle) →
          (s.tree, s.world) = after (seqStep refLib) (newTreeDBAdapter () (), ⟨SortedMap.empty, [[]]⟩) s.log)) := by
  obtain ⟨s, hrun, hlog⟩ : ∃ s : State Unit Unit KVMap Nat RefWorld,
      Relation.ReflTransGen (Step refLib) (init (newTreeDBAdapter () ()) ⟨SortedMap.empty, [[]]⟩ 2) s ∧
        s.log = [(.write false ⟨⟨true, some 0, 0, false⟩, rfl⟩, .written (.ok ()) ⟨true, some 0, 0, true⟩),
          (.close, .closed (.ok ()))] :=
    ⟨_, ((((((((((Relation.ReflTransGen.refl).tail
      (@Step.lockWrite _ _ _ _ _ _ _ 0 false ⟨⟨true, some 0, 0, false⟩, rfl⟩ 0 rfl rfl rfl
        (by unfold CanLock; decide))).tail
      (@Step.kvOpen _ _ _ _ _ _ _ 0 _ _ _ rfl rfl)).tail
      (@Step.commit _ _ _ _ _ _ _ 0 _ _ _ rfl)).tail
      (@Step.unlockWrite _ _ _ _ _ _ _ 0 _ _ _ rfl)).tail
      (@Step.lockClose _ _ _ _ _ _ _ 1 rfl (by unfold CanLock; decide))).tail
      (@Step.dbOpen _ _ _ _ _ _ _ 1 rfl rfl)).tail
      (@Step.unpin _ _ _ _ _ _ _ 1 rfl)).tail
      (@Step.dbClose _ _ _ _ _ _ _ 1 () rfl rfl)).tail
      (@Step.clear _ _ _ _ _ _ _ 1 _ rfl)).tail
      (@Step.unlockClose _ _ _ _ _ _ _ 1 _ rfl), rfl⟩
  exact ⟨s, hrun, hlog, treeDB_batchWrite_linearizable refLib _ _ _ hrun⟩

/-! ## The library's log: no commit after the database's close -/

/-- In a log of library calls, every commit stands before every close of the
database. -/
def CommitsBeforeClose (log : List LibCall) : Prop :=
  ∀ (i j : Nat) (ok : Bool), log[i]? = some .dbClose → log[j]? = some (.batchCommit ok) → j < i

/-- A log without the database's close has every commit before it. -/
theorem commitsBeforeClose_of_not_mem {log : List LibCall} (hn : LibCall.dbClose ∉ log) :
    CommitsBeforeClose log := by
  intro i j ok hi
  exact absurd (List.mem_of_getElem? hi) hn

/-- A call other than a commit keeps the commits before the close. -/
theorem CommitsBeforeClose.concat {log : List LibCall} (h : CommitsBeforeClose log) {c : LibCall}
    (hc : ∀ ok, c ≠ .batchCommit ok) : CommitsBeforeClose (log ++ [c]) := by
  intro i j ok hi hj
  rcases getElem?_concat_eq_some hj with hj | ⟨-, rfl⟩
  · rcases getElem?_concat_eq_some hi with hi | ⟨rfl, -⟩
    · exact h i j ok hi hj
    · exact (List.getElem?_eq_some_iff.mp hj).1
  · exact absurd rfl (hc ok)

section Logged

/-- `UnpinSnapshot` keeps the commits before the close: it logs at most the
snapshot's close. -/
theorem commitsBeforeClose_unpinSnapshot {w : W × List LibCall} (h : CommitsBeforeClose w.2)
    (d : TreeDB D K S) : CommitsBeforeClose (TreeDB.UnpinSnapshot lib.logged d w).2.2 := by
  unfold TreeDB.UnpinSnapshot
  split
  · exact h.concat fun _ => by simp
  · exact h

theorem commitWith_logged_log (sync : Bool) (kb : B) (w : W × List LibCall) :
    ∃ ok, (commitWith lib.logged sync kb w).2.2 = w.2 ++ [.batchCommit ok] := by
  cases sync <;> exact ⟨_, rfl⟩

/-- What the sequential TreeDB keeps of the logged library's calls: commits
before the close, and no kvstore adapter once the database is closed. -/
structure LogInv (x : TreeDB D K S × (W × List LibCall)) : Prop where
  ordered : CommitsBeforeClose x.2.2
  closed : LibCall.dbClose ∈ x.2.2 → x.1.kv = none

theorem logInv_seqStep {x : TreeDB D K S × (W × List LibCall)} (h : LogInv x) (op : Op B) :
    LogInv (seqStep lib.logged x op).1 := by
  cases op with
  | write sync b =>
    have hfst : (seqStep lib.logged x (.write sync b)).1 =
        (x.1, (CoreBatch.writeWith (commitWith lib.logged sync) x.1 b.1 x.2).2.2) := by
      simp only [seqStep, batchWrite_eq]
    rw [hfst]
    rcases CoreBatch.writeWith_cases (commitWith lib.logged sync) x.1 b.1 x.2 with
      ⟨-, hr⟩ | ⟨-, -, -, hr⟩ | ⟨kb, -, -, hkv, hcommit⟩
    · rw [hr]
      exact h
    · rw [hr]
      exact h
    · -- the commit is made while the TreeDB is open, so the database has not been closed
      have hopen : LibCall.dbClose ∉ x.2.2 := fun hc => by
        have := hkv b.2
        simp [h.closed hc] at this
      have hw : (CoreBatch.writeWith (commitWith lib.logged sync) x.1 b.1 x.2).2.2 =
          (commitWith lib.logged sync kb x.2).2 := by
        rcases hcommit with ⟨-, hr⟩ | ⟨e, -, hr⟩ <;> rw [hr]
      obtain ⟨ok, hlog⟩ := commitWith_logged_log lib sync kb x.2
      have hnot : LibCall.dbClose ∉ (CoreBatch.writeWith (commitWith lib.logged sync) x.1 b.1 x.2).2.2.2 := by
        rw [hw, hlog]
        simp [hopen]
      exact ⟨commitsBeforeClose_of_not_mem hnot, fun hc => absurd hc hnot⟩
  | close =>
    cases hdb : x.1.db with
    | none =>
      simp only [seqStep, TreeDB.Close, hdb]
      exact h
    | some hd =>
      -- the close is logged after the snapshot's, and clears the adapter
      simp only [seqStep, TreeDB.Close, hdb]
      refine ⟨?_, fun _ => rfl⟩
      exact (commitsBeforeClose_unpinSnapshot lib h.ordered x.1).concat fun _ => by simp

variable {lib}

theorem logInv_after {x0 : TreeDB D K S × (W × List LibCall)} (h0 : LogInv x0)
    (h : List (Op B × Reply B)) : LogInv (after (seqStep lib.logged) x0 h) :=
  run_invariant (seqStep lib.logged) (fun _ => True) LogInv (fun _ op _ hx => logInv_seqStep lib hx op)
    (h.map Prod.fst) (fun _ _ => trivial) h0

/-- A goroutine in a call has logged, since the log's run, only calls that
keep the commits before the close. -/
theorem Sound.commitsBeforeClose {x : TreeDB D K S × (W × List LibCall)} {tree : TreeDB D K S}
    {world : W × List LibCall} {g : Goroutine B} (hs : Sound lib.logged x tree world g)
    (hx : LogInv x) (hg : g.hold = .exclusive) : CommitsBeforeClose world.2 := by
  cases g with
  | idle => cases hg
  | locked _ _ _ =>
    obtain ⟨-, -, rfl⟩ := hs
    exact hx.ordered
  | committing _ _ _ =>
    obtain ⟨-, -, rfl, -⟩ := hs
    exact hx.ordered
  | closeLocked =>
    subst hs
    exact hx.ordered
  | unpinning =>
    obtain ⟨rfl, -⟩ := hs
    exact hx.ordered
  | unlocking sync b r =>
    -- back from its write, the goroutine has made the sequential `Write`
    have h := (logInv_seqStep lib hx (.write sync b)).ordered
    rw [hs.unlockWrite] at h
    exact h
  | closeUnlocking r =>
    have h := (logInv_seqStep lib hx .close).ordered
    rw [hs.unlockClose] at h
    exact h
  | dbClosing =>
    obtain ⟨-, hu⟩ := hs
    have hworld : world = (TreeDB.UnpinSnapshot lib.logged x.1 x.2).2 := congrArg Prod.snd hu
    rw [hworld]
    exact commitsBeforeClose_unpinSnapshot lib hx.ordered x.1
  | clearing r =>
    obtain ⟨h, -, -, hclose⟩ := hs
    have hworld : world = (lib.logged.dbClose h (TreeDB.UnpinSnapshot lib.logged x.1 x.2).2).2 :=
      (congrArg Prod.snd hclose).symm
    rw [hworld]
    exact (commitsBeforeClose_unpinSnapshot lib hx.ordered x.1).concat fun _ => by simp

end Logged

/-- A goroutine holds the lock unless the lock is free. -/
theorem exists_holder {s : State D K S B W} (hl : ¬CanLock s.holds) :
    ∃ (j : Nat) (g : Goroutine B), s.threads[j]? = some g ∧ g.hold = .exclusive := by
  unfold CanLock at hl
  simp only [not_forall] at hl
  obtain ⟨h, hh, hne⟩ := hl
  obtain ⟨g, hg, rfl⟩ := List.mem_map.mp hh
  obtain ⟨j, hj⟩ := List.mem_iff_getElem?.mp hg
  refine ⟨j, g, hj, ?_⟩
  cases g <;> simp_all [Goroutine.hold]

/-- `batchWriteMu` keeps every commit before the database's close: in every
interleaving, in the log of the calls made on the library, no commit of a
batch comes after the database's `Close`. -/
theorem treeDB_commits_before_close (tree : TreeDB D K S) (world : W) (n : Nat)
    {s : State D K S B (W × List LibCall)}
    (hs : Relation.ReflTransGen (Step lib.logged) (init tree (world, []) n) s) :
    CommitsBeforeClose s.world.2 := by
  have hinv := inv_of_reachable lib.logged hs
  have hlog : LogInv (after (seqStep lib.logged) (tree, (world, [])) s.log) :=
    logInv_after ⟨commitsBeforeClose_of_not_mem List.not_mem_nil, fun h => absurd h List.not_mem_nil⟩ s.log
  by_cases hl : CanLock s.holds
  · -- no goroutine in a call: the library is where the log's run leaves it
    rw [← hinv.committed hl] at hlog
    exact hlog.ordered
  · obtain ⟨j, g, hj, hg⟩ := exists_holder hl
    exact (hinv.sound j g hj).commitsBeforeClose hlog hg

/-- Goroutine 0 writes a batch and goroutine 1 then closes the TreeDB, over
the logged reference library. -/
theorem treeDB_commits_before_close_run :
    ∃ s : State Unit Unit KVMap Nat (RefWorld × List LibCall),
      Relation.ReflTransGen (Step refLib.logged)
        (init (newTreeDBAdapter () ()) (⟨SortedMap.empty, [[]]⟩, []) 2) s ∧
      s.world.2 = [.batchCommit true, .dbClose] ∧ CommitsBeforeClose s.world.2 := by
  obtain ⟨s, hrun, hlog⟩ : ∃ s : State Unit Unit KVMap Nat (RefWorld × List LibCall),
      Relation.ReflTransGen (Step refLib.logged)
        (init (newTreeDBAdapter () ()) (⟨SortedMap.empty, [[]]⟩, []) 2) s ∧
        s.world.2 = [.batchCommit true, .dbClose] :=
    ⟨_, ((((((((((Relation.ReflTransGen.refl).tail
      (@Step.lockWrite _ _ _ _ _ _ _ 0 false ⟨⟨true, some 0, 0, false⟩, rfl⟩ 0 rfl rfl rfl
        (by unfold CanLock; decide))).tail
      (@Step.kvOpen _ _ _ _ _ _ _ 0 _ _ _ rfl rfl)).tail
      (@Step.commit _ _ _ _ _ _ _ 0 _ _ _ rfl)).tail
      (@Step.unlockWrite _ _ _ _ _ _ _ 0 _ _ _ rfl)).tail
      (@Step.lockClose _ _ _ _ _ _ _ 1 rfl (by unfold CanLock; decide))).tail
      (@Step.dbOpen _ _ _ _ _ _ _ 1 rfl rfl)).tail
      (@Step.unpin _ _ _ _ _ _ _ 1 rfl)).tail
      (@Step.dbClose _ _ _ _ _ _ _ 1 () rfl rfl)).tail
      (@Step.clear _ _ _ _ _ _ _ 1 _ rfl)).tail
      (@Step.unlockClose _ _ _ _ _ _ _ 1 _ rfl), rfl⟩
  exact ⟨s, hrun, hlog, treeDB_commits_before_close refLib _ _ _ hrun⟩

/-! ## A write after the close -/

section Closed

/-- `NewTreeDBAdapter` returns a consistent TreeDB. -/
theorem newTreeDBAdapter_consistent (h : D) (k : K) : (newTreeDBAdapter h k : TreeDB D K S).Consistent :=
  ⟨by simp [newTreeDBAdapter], fun _ => rfl⟩

variable {lib} {x : TreeDB D K S × W}

theorem consistent_seqStep (h : x.1.Consistent) (op : Op B) : (seqStep lib x op).1.1.Consistent := by
  cases op with
  | write sync b => exact h
  | close =>
    cases hdb : x.1.db with
    | none =>
      simp only [seqStep, TreeDB.Close, hdb]
      exact h
    | some _ => exact (TreeDB.close_isClosed lib (by simp [hdb]) x.2).consistent

/-- `Close` leaves a consistent TreeDB without kvstore adapter. -/
theorem kv_seqStep_close (h : x.1.Consistent) : (seqStep lib x .close).1.1.kv = none := by
  cases hdb : x.1.db with
  | none =>
    simp only [seqStep, TreeDB.Close, hdb]
    exact h.db_iff_kv.mp hdb
  | some _ => exact (TreeDB.close_isClosed lib (by simp [hdb]) x.2).kv

theorem kv_seqStep_of_kv_none (h : x.1.Consistent) (hkv : x.1.kv = none) (op : Op B) :
    (seqStep lib x op).1.1.kv = none := by
  cases op with
  | write sync b => exact hkv
  | close => exact kv_seqStep_close h

/-- A `Write` on a TreeDB without kvstore adapter fails: the batch is closed,
or the TreeDB is. -/
theorem seqStep_write_of_kv_none (hkv : x.1.kv = none) (sync : Bool) (b : TreeBatch B) :
    (seqStep lib x (.write sync b)).2 = .written (throwErr .errBatchClosed) b.1 ∨
      (seqStep lib x (.write sync b)).2 = .written (throwErr .errClosed) b.1 := by
  have hsnd : (seqStep lib x (.write sync b)).2 =
      .written (CoreBatch.writeWith (commitWith lib sync) x.1 b.1 x.2).1
        (CoreBatch.writeWith (commitWith lib sync) x.1 b.1 x.2).2.1 := by
    simp only [seqStep, batchWrite_eq]
  rcases CoreBatch.writeWith_cases (commitWith lib sync) x.1 b.1 x.2 with
    ⟨-, hr⟩ | ⟨-, -, -, hr⟩ | ⟨kb, -, -, hopen, -⟩
  · exact .inl (by rw [hsnd, hr])
  · exact .inr (by rw [hsnd, hr])
  · -- an open batch commits only through an adapter
    have := hopen b.2
    simp [hkv] at this

variable (lib)

/-- Along the log's run from a consistent TreeDB, the TreeDB stays consistent,
and once a `Close` has returned it has no kvstore adapter. -/
theorem kv_after_of_close {tree : TreeDB D K S} (h0 : tree.Consistent) (world : W)
    (h : List (Op B × Reply B)) :
    (after (seqStep lib) (tree, world) h).1.Consistent ∧
      (∀ r, (Op.close, r) ∈ h → (after (seqStep lib) (tree, world) h).1.kv = none) := by
  induction h using List.reverseRecOn with
  | nil => exact ⟨h0, fun _ hr => absurd hr List.not_mem_nil⟩
  | append_singleton h e ih =>
    rw [after_concat]
    refine ⟨consistent_seqStep ih.1 e.1, fun r hr => ?_⟩
    rcases List.mem_append.mp hr with hr | hr
    · exact kv_seqStep_of_kv_none ih.1 (ih.2 r hr) e.1
    · obtain rfl := List.mem_singleton.mp hr
      exact kv_seqStep_close ih.1

end Closed

/-- `Close` wins over every later write: in every interleaving from a
consistent TreeDB, a `Write` or `WriteSync` that returns after a `Close` has
returned fails, with `errBatchClosed` or `treedb.ErrClosed`. -/
theorem treeDB_write_after_close_fails (tree : TreeDB D K S) (world : W) (hc : tree.Consistent)
    (n : Nat) {s : State D K S B W} (hs : Relation.ReflTransGen (Step lib) (init tree world n) s)
    {i j : Nat} {rc : Reply B} {sync : Bool} {b : TreeBatch B} {r : Go Unit} {b' : CoreBatch B}
    (hi : s.log[i]? = some (.close, rc)) (hj : s.log[j]? = some (.write sync b, .written r b'))
    (hij : i < j) : r = throwErr .errBatchClosed ∨ r = throwErr .errClosed := by
  -- the write got the sequential reply from where the calls before it leave the TreeDB
  have hcall := (inv_of_reachable lib hs).explains.getElem? hj
  -- and the close is among those calls
  have hi' : (s.log.take j)[i]? = some (.close, rc) := by
    rw [List.getElem?_take_of_lt hij]
    exact hi
  have hkv := (kv_after_of_close lib hc world (s.log.take j)).2 rc (List.mem_of_getElem? hi')
  rcases seqStep_write_of_kv_none hkv sync b with h | h <;> rw [h] at hcall <;> cases hcall
  · exact .inl rfl
  · exact .inr rfl

/-- Goroutine 0 closes the TreeDB, then goroutine 1 writes a batch. -/
theorem treeDB_write_after_close_fails_run :
    ∃ s : State Unit Unit KVMap Nat RefWorld,
      Relation.ReflTransGen (Step refLib) (init (newTreeDBAdapter () ()) ⟨SortedMap.empty, [[]]⟩ 2) s ∧
      s.log[0]? = some (.close, .closed (.ok ())) ∧
      s.log[1]? = some (.write false ⟨⟨true, some 0, 0, false⟩, rfl⟩,
        .written (throwErr .errClosed) ⟨true, some 0, 0, false⟩) ∧
      ((throwErr .errClosed : Go Unit) = throwErr .errBatchClosed ∨
        (throwErr .errClosed : Go Unit) = throwErr .errClosed) := by
  obtain ⟨s, hrun, hlog⟩ : ∃ s : State Unit Unit KVMap Nat RefWorld,
      Relation.ReflTransGen (Step refLib) (init (newTreeDBAdapter () ()) ⟨SortedMap.empty, [[]]⟩ 2) s ∧
        s.log = [(.close, .closed (.ok ())), (.write false ⟨⟨true, some 0, 0, false⟩, rfl⟩,
          .written (throwErr .errClosed) ⟨true, some 0, 0, false⟩)] :=
    ⟨_, (((((((((Relation.ReflTransGen.refl).tail
      (@Step.lockClose _ _ _ _ _ _ _ 0 rfl (by unfold CanLock; decide))).tail
      (@Step.dbOpen _ _ _ _ _ _ _ 0 rfl rfl)).tail
      (@Step.unpin _ _ _ _ _ _ _ 0 rfl)).tail
      (@Step.dbClose _ _ _ _ _ _ _ 0 () rfl rfl)).tail
      (@Step.clear _ _ _ _ _ _ _ 0 _ rfl)).tail
      (@Step.unlockClose _ _ _ _ _ _ _ 0 _ rfl)).tail
      (@Step.lockWrite _ _ _ _ _ _ _ 1 false ⟨⟨true, some 0, 0, false⟩, rfl⟩ 0 rfl rfl rfl
        (by unfold CanLock; decide))).tail
      (@Step.kvNil _ _ _ _ _ _ _ 1 _ _ _ rfl rfl)).tail
      (@Step.unlockWrite _ _ _ _ _ _ _ 1 _ _ _ rfl), rfl⟩
  have h0 : s.log[0]? = some (.close, .closed (.ok ())) := by
    rw [hlog]
    rfl
  have h1 : s.log[1]? = some (.write false ⟨⟨true, some 0, 0, false⟩, rfl⟩,
      .written (throwErr .errClosed) ⟨true, some 0, 0, false⟩) := by
    rw [hlog]
    rfl
  exact ⟨s, hrun, h0, h1, treeDB_write_after_close_fails refLib _ _ (newTreeDBAdapter_consistent () ())
    2 hrun h0 h1 (by decide)⟩

end TreeDBConcurrency

end CosmosDb
