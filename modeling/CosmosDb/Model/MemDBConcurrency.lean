import CosmosDb.Model.MemDBGoroutine
import CosmosDb.Lib.RWMutex

/-!
# CosmosDb — `MemDB` under concurrent callers

`types.go` documents that a `DB` is safe for concurrent use. `MemDB` gets
there with one `sync.RWMutex`: `Get` and `Has` hold the read lock around
their look-up, `Set` and `Delete` hold the lock around their write, and a
batch's `Write` holds it while its loop replays the batch's operations one
by one and closes the batch. `Iterator` and `ReverseIterator` take the read
lock and hand it to the traversal goroutine they start, which releases it
when its walk returns; the walk reads the B-tree item by item while the
other goroutines run.

Here any number of goroutines call one `MemDB` at once. A step is one
goroutine's, from one point where another may run to the next: taking a
lock, a look-up, one pass of `Write`'s loop, releasing the lock, a
traversal reading its next item. The lock is `Lib/RWMutex`, read off what
each goroutine is doing. Two ghost records serve the statements: `log`, the
calls that have taken effect with their replies, in that order, each at a
point inside the call; and the tree each traversal started on.

`IteratorNoMtx` and `ReverseIteratorNoMtx` take no lock and leave exclusion
to their caller; they are not among the calls here. A batch belongs to the
goroutine that builds it (`memDBBatch`'s `Set` and `Delete` take no lock), so
a goroutine calls `Write` on a batch of its own: any batch.

Results, over every interleaving:

* `memDB_linearizable` — the log is what the sequential `MemDB` of
  `MemDB.lean` (`seqStep`) answers, run in the log's order, and while no
  goroutine writes the tree is that run's;
* `memDB_iterator_snapshot` — a traversal goroutine reads, for as long as it
  runs, the tree it started on, unchanged: what it has read is a prefix of
  that tree's walk, the walk `MemDBGoroutine` starts the goroutine with, and
  the log holds its iterator's call answered from that tree.
-/

namespace CosmosDb

namespace MemDBConcurrency

open RWMutex

/-- A call of the `DB` interface as a goroutine makes it on a `MemDB`.
`SetSync`, `DeleteSync` and `WriteSync` call `Set`, `Delete` and `Write`. -/
inductive Op where
  | get (key : Bytes)
  | has (key : Bytes)
  | set (key : Bytes) (value : Option Bytes)
  | delete (key : Bytes)
  | iterator (start «end» : Option Bytes) (reverse : Bool)
  | write (b : MemDBBatch)
  deriving DecidableEq

/-- `Get` and `Has`, which hold the read lock around their look-up. -/
def Op.isRead : Op → Bool
  | .get _ | .has _ => true
  | _ => false

/-- `Set`, `Delete` and `Write`, which hold the lock around their writes. -/
def Op.isWrite : Op → Bool
  | .set _ _ | .delete _ | .write _ => true
  | _ => false

/-- The checks a call makes on its arguments before it takes a lock. -/
def Op.check : Op → Go Unit
  | .get key | .has key | .delete key =>
    if key.length = 0 then throwErr .errKeyEmpty else .ok ()
  | .set key value =>
    if key.length = 0 then throwErr .errKeyEmpty
    else if value = none then throwErr .errValueNil
    else .ok ()
  | .iterator start «end» _ => if hasEmptyBound start «end» then throwErr .errKeyEmpty else .ok ()
  | .write b => if b.ops = none then throwErr .errBatchClosed else .ok ()

/-- What a call writes under the lock, one pass of `Write`'s loop each;
`Set` and `Delete` write once. -/
def Op.writes : Op → List Operation
  | .set key value => [⟨.opTypeSet, key, value.getD []⟩]
  | .delete key => [⟨.opTypeDelete, key, []⟩]
  | .write b => b.ops.getD []
  | _ => []

variable {T : Type} (bt : BTreeOps T)

/-- One call on its own: the sequential `MemDB`. -/
def seqStep (db : MemDB T) : Op → MemDB T × Go Reply
  | .get key => (db, ((memDB bt).get db key).map .value)
  | .has key => (db, ((memDB bt).has db key).map .found)
  | .set key value => ((MemDB.Set bt db key value).2, (MemDB.Set bt db key value).1.map fun _ => .done)
  | .delete key => ((MemDB.Delete bt db key).2, (MemDB.Delete bt db key).1.map fun _ => .done)
  | .iterator start «end» reverse =>
    (db, (MemDB.newIterator bt db start «end» reverse true).map fun i => .entries (memDBIteratorEntries i))
  | .write b => ((MemDBBatch.Write bt db b).2.1, (MemDBBatch.Write bt db b).1.map fun _ => .done)

/-! ## What the sequential `MemDB` does with a call the checks refuse or pass -/

/-- A call its checks refuse gets their error and changes nothing. -/
theorem seqStep_of_check_error (db : MemDB T) {op : Op} {e : Failure} (hc : op.check = .error e) :
    seqStep bt db op = (db, .error e) := by
  cases op with
  | get key | has key | delete key =>
    by_cases hk : key.length = 0
    · simp only [Op.check, hk, ↓reduceIte, throwErr, Except.error.injEq] at hc
      subst hc
      obtain rfl : key = [] := List.length_eq_zero_iff.mp hk
      rfl
    · simp [Op.check, hk] at hc
  | set key value =>
    by_cases hk : key.length = 0
    · simp only [Op.check, hk, ↓reduceIte, throwErr, Except.error.injEq] at hc
      subst hc
      simp [seqStep, MemDB.Set, hk, throwErr, Except.map]
    · cases value with
      | none =>
        simp only [Op.check, hk, ↓reduceIte, throwErr, Except.error.injEq] at hc
        subst hc
        simp [seqStep, MemDB.Set, hk, throwErr, Except.map]
      | some v => simp [Op.check, hk] at hc
  | iterator start «end» reverse =>
    by_cases hb : hasEmptyBound start «end» = true
    · simp only [Op.check, hb, ↓reduceIte, throwErr, Except.error.injEq] at hc
      subst hc
      simp [seqStep, MemDB.newIterator, hb, throwErr, Except.map]
    · simp [Op.check, hb] at hc
  | write b =>
    cases hops : b.ops with
    | none =>
      simp only [Op.check, hops, ↓reduceIte, throwErr, Except.error.injEq] at hc
      subst hc
      simp [seqStep, MemDBBatch.Write, hops, throwErr, Except.map]
    | some ops => simp [Op.check, hops] at hc

/-- `Get`, `Has` and the iterators leave the database as it is. -/
theorem seqStep_fst_of_not_isWrite (db : MemDB T) {op : Op} (hop : op.isWrite = false) :
    (seqStep bt db op).1 = db := by
  cases op <;> simp_all [Op.isWrite, seqStep]

/-- A write its checks pass makes its writes in order and answers done. -/
theorem seqStep_of_isWrite (db : MemDB T) {op : Op} (hop : op.isWrite = true) (hc : op.check = .ok ()) :
    seqStep bt db op = (op.writes.foldl (MemDBBatch.writeOp bt) db, .ok .done) := by
  cases op with
  | set key value =>
    by_cases hk : key.length = 0
    · simp [Op.check, hk, throwErr] at hc
    · cases value with
      | none => simp [Op.check, hk, throwErr] at hc
      | some v => simp [seqStep, MemDB.Set, hk, Op.writes, MemDBBatch.writeOp, Except.map]
  | delete key =>
    by_cases hk : key.length = 0
    · simp [Op.check, hk, throwErr] at hc
    · simp [seqStep, MemDB.Delete, hk, Op.writes, MemDBBatch.writeOp, Except.map]
  | write b =>
    cases hops : b.ops with
    | none => simp [Op.check, hops, throwErr] at hc
    | some ops => simp [seqStep, MemDBBatch.Write, hops, Op.writes, Except.map]
  | get _ | has _ | iterator _ _ _ => simp [Op.isWrite] at hop

/-! ## The goroutines -/

/-- What one goroutine is doing. -/
inductive Goroutine (T : Type) where
  /-- between calls -/
  | idle
  /-- in `Get` or `Has`, holding the read lock; the look-up is next -/
  | reading (op : Op)
  /-- the look-up done; `RUnlock` is next, and the call returns its reply -/
  | answered (op : Op) (r : Go Reply)
  /-- in `Set`, `Delete` or `Write`, holding the lock: the writes still to make -/
  | writing (op : Op) (rest : List Operation)
  /-- a traversal goroutine, holding the read lock its iterator took: its
  range and direction, the tree it started on, and the items read so far -/
  | walking (start «end» : Option Bytes) (reverse : Bool) (t0 : T) (sent : List (Bytes × Bytes))
  /-- a traversal goroutine after its deferred `RUnlock` -/
  | exited

/-- What a goroutine holds of the database's lock. -/
def Goroutine.hold : Goroutine T → Hold
  | .reading _ | .answered _ _ | .walking .. => .shared
  | .writing _ _ => .exclusive
  | .idle | .exited => .free

/-- The database, the goroutines using it, and the calls that have taken
effect, with their replies, in the order they did. -/
structure State (T : Type) where
  db : MemDB T
  threads : List (Goroutine T)
  log : List (Op × Go Reply)

/-- What each goroutine holds of the lock. -/
def State.holds (s : State T) : List Hold := s.threads.map Goroutine.hold

/-- `n` goroutines, none of them in a call. -/
def init (db : MemDB T) (n : Nat) : State T := ⟨db, List.replicate n .idle, []⟩

/-- One step of the goroutine `i`. -/
inductive Step : State T → State T → Prop
  /-- a call its checks refuse returns their error without a lock -/
  | refuse {s : State T} {i : Nat} {op : Op} {e : Failure} (hi : s.threads[i]? = some .idle)
      (hc : op.check = .error e) :
      Step s { s with log := s.log ++ [(op, .error e)] }
  /-- `Get` or `Has` takes the read lock -/
  | rLock {s : State T} {i : Nat} {op : Op} (hi : s.threads[i]? = some .idle) (hop : op.isRead = true)
      (hc : op.check = .ok ()) (hl : CanRLock s.holds) :
      Step s { s with threads := s.threads.set i (.reading op) }
  /-- the look-up -/
  | lookUp {s : State T} {i : Nat} {op : Op} (hi : s.threads[i]? = some (.reading op)) :
      Step s { s with threads := s.threads.set i (.answered op (seqStep bt s.db op).2) }
  /-- the deferred `RUnlock`; the call takes effect -/
  | rUnlock {s : State T} {i : Nat} {op : Op} {r : Go Reply} (hi : s.threads[i]? = some (.answered op r)) :
      Step s { s with threads := s.threads.set i .idle, log := s.log ++ [(op, r)] }
  /-- `Set`, `Delete` or `Write` takes the lock -/
  | lock {s : State T} {i : Nat} {op : Op} (hi : s.threads[i]? = some .idle) (hop : op.isWrite = true)
      (hc : op.check = .ok ()) (hl : CanLock s.holds) :
      Step s { s with threads := s.threads.set i (.writing op op.writes) }
  /-- one write: `set` or `delete`, which run under the lock the caller holds -/
  | write {s : State T} {i : Nat} {op : Op} {o : Operation} {rest : List Operation}
      (hi : s.threads[i]? = some (.writing op (o :: rest))) :
      Step s { s with db := MemDBBatch.writeOp bt s.db o, threads := s.threads.set i (.writing op rest) }
  /-- the deferred `Unlock`, after `Write` has closed its batch; the call takes effect -/
  | unlock {s : State T} {i : Nat} {op : Op} (hi : s.threads[i]? = some (.writing op [])) :
      Step s { s with threads := s.threads.set i .idle, log := s.log ++ [(op, .ok .done)] }
  /-- `Iterator` or `ReverseIterator` takes the read lock and starts the
  traversal goroutine, which will release it; the call takes effect -/
  | iterate {s : State T} {i : Nat} {start «end» : Option Bytes} {reverse : Bool}
      (hi : s.threads[i]? = some .idle) (hc : (Op.iterator start «end» reverse).check = .ok ())
      (hl : CanRLock s.holds) :
      Step s { s with
        threads := s.threads ++ [.walking start «end» reverse s.db.btree []]
        log := s.log ++ [(.iterator start «end» reverse, (seqStep bt s.db (.iterator start «end» reverse)).2)] }
  /-- the traversal reads the next item of its walk, from the tree as it is now -/
  | walkRead {s : State T} {i : Nat} {start «end» : Option Bytes} {reverse : Bool} {t0 : T}
      {sent : List (Bytes × Bytes)} {x : Bytes × Bytes}
      (hi : s.threads[i]? = some (.walking start «end» reverse t0 sent))
      (hx : (memDBWalk bt s.db.btree start «end» reverse).1[sent.length]? = some x) :
      Step s { s with threads := s.threads.set i (.walking start «end» reverse t0 (sent ++ [x])) }
  /-- the walk returns (its visitor answered false, or the items ran out) and
  the goroutine runs its deferred `RUnlock` -/
  | walkExit {s : State T} {i : Nat} {start «end» : Option Bytes} {reverse : Bool} {t0 : T}
      {sent : List (Bytes × Bytes)} (hi : s.threads[i]? = some (.walking start «end» reverse t0 sent)) :
      Step s { s with threads := s.threads.set i .exited }

/-! ## The invariant -/

/-- What a goroutine's state says of the database and the log. -/
def Sound (db0 : MemDB T) (s : State T) : Goroutine T → Prop
  | .idle | .exited => True
  | .reading op => op.isRead = true
  | .answered op r => op.isRead = true ∧ r = (seqStep bt s.db op).2
  | .writing op rest => op.isWrite = true ∧ op.check = .ok () ∧
      ∃ done, op.writes = done ++ rest ∧
        s.db = done.foldl (MemDBBatch.writeOp bt) (after (seqStep bt) db0 s.log)
  | .walking start «end» reverse t0 sent => t0 = s.db.btree ∧
      sent <+: (memDBWalk bt t0 start «end» reverse).1 ∧
      (Op.iterator start «end» reverse, (seqStep bt ⟨t0⟩ (.iterator start «end» reverse)).2) ∈ s.log

/-- The invariant of every reachable state: the lock's law, the log
explained by the sequential `MemDB`, the tree the log's when no goroutine
writes, and each goroutine sound. -/
structure Inv (db0 : MemDB T) (s : State T) : Prop where
  exclusive : Exclusive s.holds
  explains : Explains (seqStep bt) db0 s.log
  committed : CanRLock s.holds → s.db = after (seqStep bt) db0 s.log
  sound : ∀ (j : Nat) g, s.threads[j]? = some g → Sound bt db0 s g

section Frame

variable {bt} {db0 : MemDB T}

theorem holds_getElem? {s : State T} {i : Nat} {g : Goroutine T} (hi : s.threads[i]? = some g) :
    s.holds[i]? = some g.hold := by
  simp [State.holds, hi]

theorem mem_holds {s : State T} {i : Nat} {g : Goroutine T} (hi : s.threads[i]? = some g) :
    g.hold ∈ s.holds :=
  List.mem_map_of_mem (List.mem_of_getElem? hi)

/-- The goroutine `i` holding the lock exclusively, every other one is free. -/
theorem Inv.free_of_writer {s : State T} (hinv : Inv bt db0 s) {i j : Nat} {g g' : Goroutine T}
    (hi : s.threads[i]? = some g) (hg : g.hold = .exclusive) (hj : s.threads[j]? = some g')
    (hji : j ≠ i) : g'.hold = .free := by
  by_contra hfree
  have hgi := holds_getElem? hi
  rw [hg] at hgi
  exact hji (hinv.exclusive.eq_of_held hgi (holds_getElem? hj) hfree).symm

/-- While a goroutine holds the read lock, none writes and the tree is the log's. -/
theorem Inv.committed_of_shared {s : State T} (hinv : Inv bt db0 s) {i : Nat} {g : Goroutine T}
    (hi : s.threads[i]? = some g) (hg : g.hold = .shared) : s.db = after (seqStep bt) db0 s.log :=
  hinv.committed (hinv.exclusive.canRLock_of_shared (hg ▸ mem_holds hi))

theorem sound_of_free {s : State T} {g : Goroutine T} (hg : g.hold = .free) : Sound bt db0 s g := by
  cases g <;> simp_all [Goroutine.hold, Sound]

/-- `Sound` reads only the tree and where the log leaves it, besides the
walking goroutine's entry of the log, which stays once made. -/
theorem Sound.frame {s s' : State T} {g : Goroutine T} (h : Sound bt db0 s g) (hdb : s'.db = s.db)
    (hafter : after (seqStep bt) db0 s'.log = after (seqStep bt) db0 s.log)
    (hlog : ∀ e ∈ s.log, e ∈ s'.log) : Sound bt db0 s' g := by
  cases g with
  | idle | exited | reading op => exact h
  | answered op r =>
    simp only [Sound, hdb] at h ⊢
    exact h
  | writing op rest =>
    obtain ⟨hop, hc, done, hw, hdone⟩ := h
    exact ⟨hop, hc, done, hw, by rw [hdb, hafter]; exact hdone⟩
  | walking start «end» reverse t0 sent =>
    obtain ⟨ht0, hpre, hmem⟩ := h
    exact ⟨hdb ▸ ht0, hpre, hlog _ hmem⟩

/-- Every goroutine of the updated list is sound when the updated one is and
the others stay sound. -/
theorem sound_set {s s' : State T} {i : Nat} {g' : Goroutine T}
    (hold : ∀ (j : Nat) g, j ≠ i → s.threads[j]? = some g → Sound bt db0 s' g)
    (hnew : Sound bt db0 s' g') :
    ∀ (j : Nat) g, (s.threads.set i g')[j]? = some g → Sound bt db0 s' g := by
  intro j g hj
  rcases getElem?_set_eq_some hj with ⟨-, rfl⟩ | ⟨hji, hj'⟩
  · exact hnew
  · exact hold j g hji hj'

end Frame

/-! ## One step keeps the invariant -/

section Steps

variable {bt} {db0 : MemDB T} {s : State T}

theorem Inv.refuse (hinv : Inv bt db0 s) {op : Op} {e : Failure} (hc : op.check = .error e) :
    Inv bt db0 { s with log := s.log ++ [(op, .error e)] } := by
  have hstep := seqStep_of_check_error bt (after (seqStep bt) db0 s.log) hc
  have hafter : after (seqStep bt) db0 (s.log ++ [(op, .error e)]) = after (seqStep bt) db0 s.log := by
    rw [after_concat, hstep]
  refine ⟨hinv.exclusive, hinv.explains.concat (by rw [hstep]), ?_, ?_⟩
  · intro hl
    rw [hafter]
    exact hinv.committed hl
  · intro j g hj
    exact (hinv.sound j g hj).frame rfl hafter fun _ he => List.mem_append_left _ he

theorem Inv.rLock (hinv : Inv bt db0 s) {i : Nat} {op : Op} (hop : op.isRead = true)
    (hl : CanRLock s.holds) : Inv bt db0 { s with threads := s.threads.set i (.reading op) } := by
  refine ⟨?_, hinv.explains, fun _ => hinv.committed hl, ?_⟩
  · show Exclusive ((s.threads.set i _).map Goroutine.hold)
    rw [List.map_set]
    exact (hl.set_shared i).exclusive
  · exact sound_set (fun j g _ hj => hinv.sound j g hj) hop

theorem Inv.lookUp (hinv : Inv bt db0 s) {i : Nat} {op : Op} (hi : s.threads[i]? = some (.reading op)) :
    Inv bt db0 { s with threads := s.threads.set i (.answered op (seqStep bt s.db op).2) } := by
  have hholds : (s.threads.set i (.answered op (seqStep bt s.db op).2)).map Goroutine.hold = s.holds :=
    map_set_of_getElem? hi rfl
  have hop : op.isRead = true := hinv.sound i _ hi
  refine ⟨?_, hinv.explains, ?_, ?_⟩
  · show Exclusive ((s.threads.set i _).map Goroutine.hold)
    rw [hholds]
    exact hinv.exclusive
  · show CanRLock ((s.threads.set i _).map Goroutine.hold) → _
    rw [hholds]
    exact hinv.committed
  · exact sound_set (fun j g _ hj => hinv.sound j g hj) ⟨hop, rfl⟩

theorem Inv.rUnlock (hinv : Inv bt db0 s) {i : Nat} {op : Op} {r : Go Reply}
    (hi : s.threads[i]? = some (.answered op r)) :
    Inv bt db0 { s with threads := s.threads.set i .idle, log := s.log ++ [(op, r)] } := by
  obtain ⟨hop, hr⟩ : op.isRead = true ∧ r = (seqStep bt s.db op).2 := hinv.sound i _ hi
  -- the read lock held, the tree is the log's, and a look-up leaves it so
  have hdb := hinv.committed_of_shared hi rfl
  have hwrite : op.isWrite = false := by cases op <;> simp_all [Op.isRead, Op.isWrite]
  have hafter : after (seqStep bt) db0 (s.log ++ [(op, r)]) = after (seqStep bt) db0 s.log := by
    rw [after_concat, seqStep_fst_of_not_isWrite bt _ hwrite]
  refine ⟨?_, hinv.explains.concat (by rw [hr, hdb]), fun _ => hafter ▸ hdb, ?_⟩
  · show Exclusive ((s.threads.set i _).map Goroutine.hold)
    rw [List.map_set]
    exact hinv.exclusive.set_free i
  · refine sound_set (fun j g _ hj => ?_) trivial
    exact (hinv.sound j g hj).frame rfl hafter fun _ he => List.mem_append_left _ he

theorem Inv.lock (hinv : Inv bt db0 s) {i : Nat} {op : Op} (hop : op.isWrite = true)
    (hc : op.check = .ok ()) (hl : CanLock s.holds) :
    Inv bt db0 { s with threads := s.threads.set i (.writing op op.writes) } := by
  have hdb := hinv.committed hl.canRLock
  refine ⟨?_, hinv.explains, fun _ => hdb, ?_⟩
  · show Exclusive ((s.threads.set i _).map Goroutine.hold)
    rw [List.map_set]
    exact hl.set_exclusive i
  · -- nothing written yet
    exact sound_set (fun j g _ hj => hinv.sound j g hj) ⟨hop, hc, [], by simp, hdb⟩

theorem Inv.write (hinv : Inv bt db0 s) {i : Nat} {op : Op} {o : Operation} {rest : List Operation}
    (hi : s.threads[i]? = some (.writing op (o :: rest))) :
    Inv bt db0 { s with
      db := MemDBBatch.writeOp bt s.db o
      threads := s.threads.set i (.writing op rest) } := by
  have hholds : (s.threads.set i (.writing op rest)).map Goroutine.hold = s.holds :=
    map_set_of_getElem? hi rfl
  obtain ⟨hop, hc, done, hw, hdone⟩ := hinv.sound i _ hi
  refine ⟨?_, hinv.explains, ?_, ?_⟩
  · show Exclusive ((s.threads.set i _).map Goroutine.hold)
    rw [hholds]
    exact hinv.exclusive
  · -- the writer still holds the lock
    intro hl
    exact absurd (mem_holds hi) (by rw [← hholds]; exact hl)
  · refine sound_set (fun j g hji hj => sound_of_free (hinv.free_of_writer hi rfl hj hji)) ?_
    refine ⟨hop, hc, done ++ [o], by rw [hw, List.append_assoc, List.singleton_append], ?_⟩
    show MemDBBatch.writeOp bt s.db o = _
    rw [List.foldl_append, List.foldl_cons, List.foldl_nil, hdone]

theorem Inv.unlock (hinv : Inv bt db0 s) {i : Nat} {op : Op} (hi : s.threads[i]? = some (.writing op [])) :
    Inv bt db0 { s with threads := s.threads.set i .idle, log := s.log ++ [(op, .ok .done)] } := by
  obtain ⟨hop, hc, done, hw, hdone⟩ := hinv.sound i _ hi
  rw [List.append_nil] at hw
  -- every write made, the tree is where the sequential call leaves the log's
  have hstep := seqStep_of_isWrite bt (after (seqStep bt) db0 s.log) hop hc
  have hafter : after (seqStep bt) db0 (s.log ++ [(op, .ok .done)]) = s.db := by
    rw [after_concat, hstep, hdone, hw]
  refine ⟨?_, hinv.explains.concat (by rw [hstep]), fun _ => hafter.symm, ?_⟩
  · show Exclusive ((s.threads.set i _).map Goroutine.hold)
    rw [List.map_set]
    exact hinv.exclusive.set_free i
  · exact sound_set (fun j g hji hj => sound_of_free (hinv.free_of_writer hi rfl hj hji)) trivial

theorem Inv.iterate (hinv : Inv bt db0 s) {start «end» : Option Bytes} {reverse : Bool}
    (hl : CanRLock s.holds) :
    Inv bt db0 { s with
      threads := s.threads ++ [.walking start «end» reverse s.db.btree []]
      log := s.log ++ [(.iterator start «end» reverse, (seqStep bt s.db (.iterator start «end» reverse)).2)] } := by
  have hdb := hinv.committed hl
  have hafter : after (seqStep bt) db0
      (s.log ++ [(.iterator start «end» reverse, (seqStep bt s.db (.iterator start «end» reverse)).2)]) =
        after (seqStep bt) db0 s.log := by
    rw [after_concat, seqStep_fst_of_not_isWrite bt _ rfl]
  refine ⟨?_, hinv.explains.concat (by rw [hdb]), fun _ => hafter ▸ hdb, ?_⟩
  · show Exclusive ((s.threads ++ _).map Goroutine.hold)
    rw [List.map_append]
    exact hl.append_shared.exclusive
  · intro j g hj
    rcases getElem?_concat_eq_some hj with hj | ⟨-, rfl⟩
    · exact (hinv.sound j g hj).frame rfl hafter fun _ he => List.mem_append_left _ he
    · exact ⟨rfl, List.nil_prefix, List.mem_append_right _ (List.mem_singleton_self _)⟩

/-- Reading the item at the walk's next position extends a prefix of the walk. -/
theorem prefix_concat_of_getElem? {l L : List (Bytes × Bytes)} {x : Bytes × Bytes} (h : l <+: L)
    (hx : L[l.length]? = some x) : l ++ [x] <+: L := by
  obtain ⟨t, rfl⟩ := h
  rw [List.getElem?_append_right (Nat.le_refl _), Nat.sub_self] at hx
  cases t with
  | nil => simp at hx
  | cons y t =>
    cases hx
    exact ⟨t, by simp⟩

theorem Inv.walkRead (hinv : Inv bt db0 s) {i : Nat} {start «end» : Option Bytes} {reverse : Bool}
    {t0 : T} {sent : List (Bytes × Bytes)} {x : Bytes × Bytes}
    (hi : s.threads[i]? = some (.walking start «end» reverse t0 sent))
    (hx : (memDBWalk bt s.db.btree start «end» reverse).1[sent.length]? = some x) :
    Inv bt db0 { s with threads := s.threads.set i (.walking start «end» reverse t0 (sent ++ [x])) } := by
  have hholds : (s.threads.set i (.walking start «end» reverse t0 (sent ++ [x]))).map Goroutine.hold =
      s.holds :=
    map_set_of_getElem? hi rfl
  obtain ⟨ht0, hpre, hmem⟩ := hinv.sound i _ hi
  refine ⟨?_, hinv.explains, ?_, ?_⟩
  · show Exclusive ((s.threads.set i _).map Goroutine.hold)
    rw [hholds]
    exact hinv.exclusive
  · show CanRLock ((s.threads.set i _).map Goroutine.hold) → _
    rw [hholds]
    exact hinv.committed
  · -- the tree it reads now is the one it started on
    rw [← ht0] at hx
    exact sound_set (fun j g _ hj => hinv.sound j g hj) ⟨ht0, prefix_concat_of_getElem? hpre hx, hmem⟩

theorem Inv.walkExit (hinv : Inv bt db0 s) {i : Nat} {start «end» : Option Bytes} {reverse : Bool}
    {t0 : T} {sent : List (Bytes × Bytes)} (hi : s.threads[i]? = some (.walking start «end» reverse t0 sent)) :
    Inv bt db0 { s with threads := s.threads.set i .exited } := by
  have hdb := hinv.committed_of_shared hi rfl
  refine ⟨?_, hinv.explains, fun _ => hdb, ?_⟩
  · show Exclusive ((s.threads.set i _).map Goroutine.hold)
    rw [List.map_set]
    exact hinv.exclusive.set_free i
  · exact sound_set (fun j g _ hj => hinv.sound j g hj) trivial

theorem Inv.step (hinv : Inv bt db0 s) {s' : State T} (h : Step bt s s') : Inv bt db0 s' := by
  cases h with
  | refuse _ hc => exact hinv.refuse hc
  | rLock _ hop _ hl => exact hinv.rLock hop hl
  | lookUp hi => exact hinv.lookUp hi
  | rUnlock hi => exact hinv.rUnlock hi
  | lock _ hop hc hl => exact hinv.lock hop hc hl
  | write hi => exact hinv.write hi
  | unlock hi => exact hinv.unlock hi
  | iterate _ _ hl => exact hinv.iterate hl
  | walkRead hi hx => exact hinv.walkRead hi hx
  | walkExit hi => exact hinv.walkExit hi

end Steps

theorem inv_init (db0 : MemDB T) (n : Nat) : Inv bt db0 (init db0 n) := by
  refine ⟨?_, explains_nil, fun _ => rfl, ?_⟩
  · refine CanRLock.exclusive fun hx => ?_
    simp [State.holds, init, List.mem_replicate, Goroutine.hold] at hx
  · intro j g hj
    rw [init, List.getElem?_replicate] at hj
    split_ifs at hj
    cases hj
    trivial

theorem inv_of_reachable {db0 : MemDB T} {n : Nat} {s : State T}
    (hs : Relation.ReflTransGen (Step bt) (init db0 n) s) : Inv bt db0 s := by
  induction hs with
  | refl => exact inv_init bt db0 n
  | tail _ hstep ih => exact ih.step hstep

/-! ## Every interleaving -/

/-- `MemDB` is linearizable: in every interleaving of any number of
goroutines, the calls that have taken effect, in the log's order, are a run of
the sequential `MemDB` that gives each call its reply; no goroutine holds the
lock while another holds it in any way; and while none writes, the tree is
where that run leaves it. -/
theorem memDB_linearizable (db0 : MemDB T) (n : Nat) {s : State T}
    (hs : Relation.ReflTransGen (Step bt) (init db0 n) s) :
    Explains (seqStep bt) db0 s.log ∧ Exclusive s.holds ∧
      ((∀ op rest, Goroutine.writing op rest ∉ s.threads) → s.db = after (seqStep bt) db0 s.log) := by
  have hinv := inv_of_reachable bt hs
  refine ⟨hinv.explains, hinv.exclusive, fun hw => hinv.committed fun hx => ?_⟩
  -- an exclusive hold is a goroutine in a write
  obtain ⟨g, hg, hgx⟩ := List.mem_map.mp hx
  cases g with
  | writing op rest => exact hw op rest hg
  | _ => simp [Goroutine.hold] at hgx

/-- Goroutine 0 sets `[1]` while goroutine 1 waits, then goroutine 1 reads it. -/
theorem memDB_linearizable_run :
    ∃ s : State KVMap, Relation.ReflTransGen (Step sortedMapBTree) (init (newMemDB sortedMapBTree) 2) s ∧
      s.log = [(.set [1] (some [2]), .ok .done), (.get [1], .ok (.value (some [2])))] ∧
      (Explains (seqStep sortedMapBTree) (newMemDB sortedMapBTree) s.log ∧ Exclusive s.holds ∧
        ((∀ op rest, Goroutine.writing op rest ∉ s.threads) →
          s.db = after (seqStep sortedMapBTree) (newMemDB sortedMapBTree) s.log)) := by
  obtain ⟨s, hrun, hlog⟩ : ∃ s : State KVMap,
      Relation.ReflTransGen (Step sortedMapBTree) (init (newMemDB sortedMapBTree) 2) s ∧
        s.log = [(.set [1] (some [2]), .ok .done), (.get [1], .ok (.value (some [2])))] :=
    ⟨_, ((((((Relation.ReflTransGen.refl).tail
      (@Step.lock _ _ _ 0 (.set [1] (some [2])) rfl rfl rfl (by unfold CanLock; decide))).tail
      (@Step.write _ _ _ 0 _ ⟨.opTypeSet, [1], [2]⟩ [] rfl)).tail
      (@Step.unlock _ _ _ 0 _ rfl)).tail
      (@Step.rLock _ _ _ 1 (.get [1]) rfl rfl rfl (by unfold CanRLock; decide))).tail
      (@Step.lookUp _ _ _ 1 _ rfl)).tail
      (@Step.rUnlock _ _ _ 1 _ _ rfl), rfl⟩
  exact ⟨s, hrun, hlog, memDB_linearizable sortedMapBTree _ _ hrun⟩

/-- A traversal goroutine reads the tree its iterator started on: for as long
as it runs the tree is that one, what it has read is a prefix of that tree's
walk, and the log holds its iterator's call answered from that tree. -/
theorem memDB_iterator_snapshot (db0 : MemDB T) (n : Nat) {s : State T}
    (hs : Relation.ReflTransGen (Step bt) (init db0 n) s) {j : Nat} {start «end» : Option Bytes}
    {reverse : Bool} {t0 : T} {sent : List (Bytes × Bytes)}
    (hj : s.threads[j]? = some (.walking start «end» reverse t0 sent)) :
    s.db.btree = t0 ∧ sent <+: (memDBWalk bt t0 start «end» reverse).1 ∧
      (Op.iterator start «end» reverse, (seqStep bt ⟨t0⟩ (.iterator start «end» reverse)).2) ∈ s.log := by
  obtain ⟨ht0, hpre, hmem⟩ := (inv_of_reachable bt hs).sound j _ hj
  exact ⟨ht0.symm, hpre, hmem⟩

/-- Goroutine 0 sets `[1]`, goroutine 1 opens an iterator over everything,
and its traversal goroutine reads the one item. -/
theorem memDB_iterator_snapshot_run :
    ∃ (s : State KVMap) (t0 : KVMap),
      Relation.ReflTransGen (Step sortedMapBTree) (init (newMemDB sortedMapBTree) 2) s ∧
      s.threads[2]? = some (.walking none none false t0 [([1], [2])]) ∧
      (s.db.btree = t0 ∧ [([1], [2])] <+: (memDBWalk sortedMapBTree t0 none none false).1 ∧
        (Op.iterator none none false, (seqStep sortedMapBTree ⟨t0⟩ (.iterator none none false)).2) ∈ s.log) := by
  obtain ⟨s, t0, hrun, hj⟩ : ∃ (s : State KVMap) (t0 : KVMap),
      Relation.ReflTransGen (Step sortedMapBTree) (init (newMemDB sortedMapBTree) 2) s ∧
        s.threads[2]? = some (.walking none none false t0 [([1], [2])]) :=
    ⟨_, _, (((((Relation.ReflTransGen.refl).tail
      (@Step.lock _ _ _ 0 (.set [1] (some [2])) rfl rfl rfl (by unfold CanLock; decide))).tail
      (@Step.write _ _ _ 0 _ ⟨.opTypeSet, [1], [2]⟩ [] rfl)).tail
      (@Step.unlock _ _ _ 0 _ rfl)).tail
      (@Step.iterate _ _ _ 1 none none false rfl rfl (by unfold CanRLock; decide))).tail
      (@Step.walkRead _ _ _ 2 none none false _ [] ([1], [2]) rfl rfl), rfl⟩
  exact ⟨s, t0, hrun, hj, memDB_iterator_snapshot sortedMapBTree _ _ hrun hj⟩

end MemDBConcurrency

end CosmosDb
