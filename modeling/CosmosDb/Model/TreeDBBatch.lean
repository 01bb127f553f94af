import CosmosDb.Model.TreeDB

/-!
# CosmosDb — a TreeDB batch over any run

`coreBatch` keeps two fields that say it is closed, `done` and `kb == nil`,
and a byte count. Over every run of the TreeDB system, whatever the library
answers and whatever else is called on the TreeDB in between (its `Close`
included), each batch

* commits successfully at most once, and attempts a commit only while it is
  open and its TreeDB is open;
* once closed, refuses every call that would touch the kv batch, without
  touching it, and stays closed; a successful `Write` and any `Close` close it;
* is left open, with its byte count, by a failed `Write`;
* reports as its byte count the bytes of the calls on it that returned nil.

Each batch method is described once by an inversion lemma (`record_cases`,
`writeWith_cases`, `close_cases`), from which `MethodEffect` collects what
the accounting needs. `BatchInv` relates a batch to the history of calls and
replies; it holds after every run (`batchInv_run`), and the guarantees above
follow from it and one step (`BatchGuarantees`).
-/

namespace CosmosDb

-- ---------------------------------------------------------------------------
-- Commits in a log
-- ---------------------------------------------------------------------------

/-- The successful commits a batch's log records. -/
def commitCount (log : List LibCall) : Nat := log.count (.batchCommit true)

/-- The commits a batch's log records, successful or not. -/
def commitAttempts (log : List LibCall) : Nat :=
  log.count (.batchCommit true) + log.count (.batchCommit false)

theorem commitCount_append (l₁ l₂ : List LibCall) :
    commitCount (l₁ ++ l₂) = commitCount l₁ + commitCount l₂ := List.count_append ..

theorem commitAttempts_append (l₁ l₂ : List LibCall) :
    commitAttempts (l₁ ++ l₂) = commitAttempts l₁ + commitAttempts l₂ := by
  simp only [commitAttempts, List.count_append]
  omega

@[simp] theorem commitCount_batchRecord : commitCount [.batchRecord] = 0 := rfl
@[simp] theorem commitCount_batchClose : commitCount [.batchClose] = 0 := rfl
@[simp] theorem commitAttempts_batchRecord : commitAttempts [.batchRecord] = 0 := rfl
@[simp] theorem commitAttempts_batchClose : commitAttempts [.batchClose] = 0 := rfl

@[simp] theorem commitCount_batchCommit (ok : Bool) :
    commitCount [.batchCommit ok] = if ok then 1 else 0 := by
  cases ok <;> rfl

-- Whether a call returned nil, read through the reply it is mapped to.

@[simp] theorem except_isOk_ok {ε α : Type} (a : α) : (Except.ok a : Except ε α).isOk = true := rfl

@[simp] theorem except_isOk_error {ε α : Type} (e : ε) :
    (Except.error e : Except ε α).isOk = false := rfl

@[simp] theorem except_isOk_map {ε α β : Type} (g : α → β) (r : Except ε α) :
    (r.map g).isOk = r.isOk := by
  cases r <;> rfl

-- ---------------------------------------------------------------------------
-- The batch methods, one inversion lemma each
-- ---------------------------------------------------------------------------

namespace CoreBatch

variable {D K S B W : Type}

/-- What `record` can do: refuse a closed batch as it is, or make the call on
the open kv batch and count the bytes exactly when the call succeeds. -/
theorem record_cases (b : CoreBatch B) (call : B → W → Except DbError Unit × W) (added : Nat)
    (w : W) :
    (b.closed = true ∧ b.record call added w = (throwErr .errBatchClosed, b, w)) ∨
    (∃ kb, b.kb = some kb ∧ b.done = false ∧
      (((call kb w).1 = .ok () ∧
          b.record call added w = (.ok (), { b with size := b.size + added }, (call kb w).2)) ∨
        ∃ e, (call kb w).1 = .error e ∧ b.record call added w = (throwErr e, b, (call kb w).2))) := by
  unfold record
  cases hd : b.done
  · cases hk : b.kb with
    | none => exact .inl ⟨by simp [closed, hk], by simp⟩
    | some kb =>
      refine .inr ⟨kb, rfl, rfl, ?_⟩
      cases hr : (call kb w).1 with
      | ok u => exact .inl ⟨rfl, by simp [hr]⟩
      | error e => exact .inr ⟨e, rfl, by simp [hr]⟩
  · exact .inl ⟨by simp [closed, hd], by simp⟩

/-- What `writeWith` can do: refuse a closed batch; refuse, untouched, when
the batch's TreeDB is closed; or commit, and mark the batch done exactly when
the commit succeeds. -/
theorem writeWith_cases (commit : B → W → Except DbError Unit × W) (d : TreeDB D K S)
    (b : CoreBatch B) (w : W) :
    (b.closed = true ∧ writeWith commit d b w = (throwErr .errBatchClosed, b, w)) ∨
    (b.closed = false ∧ b.db = true ∧ d.kv = none ∧
      writeWith commit d b w = (throwErr .errClosed, b, w)) ∨
    (∃ kb, b.kb = some kb ∧ b.done = false ∧ (b.db = true → d.kv.isSome) ∧
      (((commit kb w).1 = .ok () ∧ writeWith commit d b w = (.ok (), { b with done := true }, (commit kb w).2)) ∨
        ∃ e, (commit kb w).1 = .error e ∧
          writeWith commit d b w = (throwErr e, b, (commit kb w).2))) := by
  unfold writeWith
  cases hd : b.done
  · cases hk : b.kb with
    | none => exact .inl ⟨by simp [closed, hk], by simp⟩
    | some kb =>
      -- the batch is open; the commit goes through `withSerializedBatchWrite` when it has a TreeDB
      have hopen : b.closed = false := by simp [closed, hd, hk]
      by_cases hdb : b.db = true
      · cases hkv : d.kv with
        | none =>
          refine .inr (.inl ⟨hopen, hdb, rfl, ?_⟩)
          simp [hdb, TreeDB.withSerializedBatchWrite, hkv, throwErr]
        | some k =>
          refine .inr (.inr ⟨kb, rfl, rfl, fun _ => rfl, ?_⟩)
          cases hr : (commit kb w).1 with
          | ok u => exact .inl ⟨rfl, by simp [hdb, TreeDB.withSerializedBatchWrite, hkv, hr]⟩
          | error e => exact .inr ⟨e, rfl, by simp [hdb, TreeDB.withSerializedBatchWrite, hkv, hr]⟩
      · have hdb' : b.db = false := by simpa using hdb
        refine .inr (.inr ⟨kb, rfl, rfl, fun h => by simp [hdb'] at h, ?_⟩)
        cases hr : (commit kb w).1 with
        | ok u => exact .inl ⟨rfl, by simp [hdb', hr]⟩
        | error e => exact .inr ⟨e, rfl, by simp [hdb', hr]⟩
  · exact .inl ⟨by simp [closed, hd], by simp⟩

/-- What `Close` can do: mark a batch without kv batch done, or close the kv
batch, drop it and mark the batch done, returning the kv batch's error only
if the batch had not been written. -/
theorem close_cases (lib : TreeDBLib D K S B W) (b : CoreBatch B) (w : W) :
    (b.kb = none ∧ b.Close lib w = (.ok (), { b with done := true }, w)) ∨
    (∃ kb, b.kb = some kb ∧
      b.Close lib w = (if b.done then .ok () else liftLib (lib.batchClose kb w).1,
        { b with kb := none, done := true }, (lib.batchClose kb w).2)) := by
  unfold CoreBatch.Close
  cases hk : b.kb with
  | none => exact .inl ⟨rfl, rfl⟩
  | some kb =>
    refine .inr ⟨kb, rfl, ?_⟩
    cases b.done <;> rfl

theorem record_of_closed {b : CoreBatch B} (h : b.closed = true)
    (call : B → W → Except DbError Unit × W) (added : Nat) (w : W) :
    b.record call added w = (throwErr .errBatchClosed, b, w) := by
  rcases record_cases b call added w with ⟨-, hr⟩ | ⟨kb, hkb, hd, -⟩
  · exact hr
  · simp [closed, hkb, hd] at h

theorem writeWith_of_closed {b : CoreBatch B} (h : b.closed = true)
    (commit : B → W → Except DbError Unit × W) (d : TreeDB D K S) (w : W) :
    writeWith commit d b w = (throwErr .errBatchClosed, b, w) := by
  rcases writeWith_cases commit d b w with ⟨-, hr⟩ | ⟨hc, -⟩ | ⟨kb, hkb, hd, -⟩
  · exact hr
  · simp [hc] at h
  · simp [closed, hkb, hd] at h

/-- A write that fails leaves the batch as it was. -/
theorem writeWith_of_error {commit : B → W → Except DbError Unit × W} {d : TreeDB D K S}
    {b : CoreBatch B} {w : W} (h : (writeWith commit d b w).1.isOk = false) :
    (writeWith commit d b w).2.1 = b := by
  rcases writeWith_cases commit d b w with
    ⟨-, hr⟩ | ⟨-, -, -, hr⟩ | ⟨kb, -, -, -, ⟨-, hr⟩ | ⟨e, -, hr⟩⟩ <;> rw [hr] at h ⊢
  simp at h

/-- After `Close` the batch is closed. -/
theorem close_closed (lib : TreeDBLib D K S B W) (b : CoreBatch B) (w : W) :
    (b.Close lib w).2.1.closed = true := by
  rcases close_cases lib b w with ⟨-, h⟩ | ⟨kb, -, h⟩ <;> simp [h, closed]

/-- `Close` on a closed batch returns nil. -/
theorem close_of_closed (lib : TreeDBLib D K S B W) {b : CoreBatch B} (h : b.closed = true)
    (w : W) : (b.Close lib w).1 = .ok () := by
  rcases close_cases lib b w with ⟨-, hc⟩ | ⟨kb, hkb, hc⟩
  · rw [hc]
  · -- a closed batch with a kv batch has been written
    have hd : b.done = true := by simpa [closed, hkb] using h
    simp [hc, hd]

theorem getByteSize_eq_ok {b : CoreBatch B} {n : Nat} (h : b.GetByteSize = .ok n) :
    b.closed = false ∧ n = b.size := by
  unfold GetByteSize at h
  split_ifs at h with hd
  · simp [throwErr] at h
  · split at h
    · simp [throwErr] at h
    · rename_i kb hkb
      simp only [Except.ok.injEq] at h
      exact ⟨by simp [closed, hd, hkb], h.symm⟩

theorem getByteSize_of_closed {b : CoreBatch B} (h : b.closed = true) :
    b.GetByteSize = throwErr .errBatchClosed := by
  unfold GetByteSize
  cases hd : b.done
  · cases hkb : b.kb with
    | none => rfl
    | some kb => simp [closed, hd, hkb] at h
  · rfl

end CoreBatch

-- ---------------------------------------------------------------------------
-- What each method does to the accounting
-- ---------------------------------------------------------------------------

section Methods

variable {D K S B W : Type}

/-- A batch method, against the logged library. -/
abbrev BatchMethod (B W : Type) :=
  CoreBatch B → W × List LibCall → Go Unit × CoreBatch B × (W × List LibCall)

/-- What a batch method `f` does that the accounting of a batch needs:
`added` bytes are counted exactly when it returns nil; a successful commit
is logged exactly when it is a write (`isWrite`) and returns nil, and then
marks an undone batch done; a commit is attempted only on an open batch, and
through a TreeDB only if that is open (`kvOpen`); a closed or done batch
stays so; the batch keeps its TreeDB. -/
structure MethodEffect (f : BatchMethod B W) (added : Nat) (isWrite kvOpen : Bool) : Prop where
  db : ∀ b w, (f b w).2.1.db = b.db
  size : ∀ b w, (f b w).2.1.size = b.size + if (f b w).1.isOk then added else 0
  commits : ∀ b w,
    commitCount (f b w).2.2.2 = commitCount w.2 + if isWrite && (f b w).1.isOk then 1 else 0
  written : ∀ b w, isWrite = true → (f b w).1.isOk = true → b.done = false ∧ (f b w).2.1.done = true
  attempt : ∀ b w, commitAttempts w.2 < commitAttempts (f b w).2.2.2 →
    b.closed = false ∧ (b.db = true → kvOpen = true)
  done : ∀ b w, b.done = true → (f b w).2.1.done = true
  closed : ∀ b w, b.closed = true → (f b w).2.1.closed = true

/-- A method's effect, checked for one batch and one library state at a time. -/
theorem MethodEffect.of_each {f : BatchMethod B W} {added : Nat} {isWrite kvOpen : Bool}
    (h : ∀ b w, (f b w).2.1.db = b.db ∧
      (f b w).2.1.size = b.size + (if (f b w).1.isOk then added else 0) ∧
      commitCount (f b w).2.2.2 = commitCount w.2 + (if isWrite && (f b w).1.isOk then 1 else 0) ∧
      (isWrite = true → (f b w).1.isOk = true → b.done = false ∧ (f b w).2.1.done = true) ∧
      (commitAttempts w.2 < commitAttempts (f b w).2.2.2 →
        b.closed = false ∧ (b.db = true → kvOpen = true)) ∧
      (b.done = true → (f b w).2.1.done = true) ∧
      (b.closed = true → (f b w).2.1.closed = true)) :
    MethodEffect f added isWrite kvOpen where
  db b w := (h b w).1
  size b w := (h b w).2.1
  commits b w := (h b w).2.2.1
  written b w := (h b w).2.2.2.1
  attempt b w := (h b w).2.2.2.2.1
  done b w := (h b w).2.2.2.2.2.1
  closed b w := (h b w).2.2.2.2.2.2

/-- A method made of `record` over a call that logs no commit. -/
theorem record_effect {call : B → W × List LibCall → Except DbError Unit × (W × List LibCall)}
    (hcall : ∀ kb w, (call kb w).2.2 = w.2 ++ [.batchRecord]) (added : Nat) (kvOpen : Bool) :
    MethodEffect (fun b => b.record call added) added false kvOpen := by
  refine MethodEffect.of_each fun b w => ?_
  rcases CoreBatch.record_cases b call added w with
    ⟨hc, h⟩ | ⟨kb, hkb, hd, ⟨-, h⟩ | ⟨e, -, h⟩⟩ <;> simp only [h]
  · -- a closed batch is refused, untouched
    simp [hc, throwErr]
  · -- the call succeeded: the bytes are counted, and the log gains a record
    simp [hkb, hd, hcall, commitCount_append, commitAttempts_append, CoreBatch.closed]
  · -- the call failed: the batch is as it was, and the log gains a record
    simp [hkb, hd, hcall, commitCount_append, commitAttempts_append, throwErr, CoreBatch.closed]

/-- `writeWith` over a commit that logs its outcome. -/
theorem writeWith_effect {commit : B → W × List LibCall → Except DbError Unit × (W × List LibCall)}
    (hcommit : ∀ kb w, (commit kb w).2.2 = w.2 ++ [.batchCommit (commit kb w).1.isOk])
    (d : TreeDB D K S) :
    MethodEffect (CoreBatch.writeWith commit d) 0 true d.kv.isSome := by
  refine MethodEffect.of_each fun b w => ?_
  rcases CoreBatch.writeWith_cases commit d b w with
    ⟨hc, h⟩ | ⟨hc, -, -, h⟩ | ⟨kb, hkb, hd, hopen, ⟨hok, h⟩ | ⟨e, herr, h⟩⟩ <;> simp only [h]
  · -- a closed batch is refused, untouched
    simp [hc, throwErr]
  · -- the TreeDB is closed: refused before any commit
    simp [hc, throwErr]
  · -- the commit succeeded, is logged as such, and marks the batch done
    simp [hkb, hd, hcommit, hok, commitCount_append, commitAttempts_append, CoreBatch.closed]
    exact fun _ => hopen
  · -- the commit failed: logged as failed, and the batch is as it was
    simp [hkb, hd, hcommit, herr, commitCount_append, commitAttempts_append, throwErr,
      CoreBatch.closed]
    exact fun _ => hopen

/-- `Close` against the logged library. -/
theorem close_effect (lib : TreeDBLib D K S B W) (kvOpen : Bool) :
    MethodEffect (CoreBatch.Close lib.logged) 0 false kvOpen := by
  refine MethodEffect.of_each fun b w => ?_
  rcases CoreBatch.close_cases lib.logged b w with ⟨hkb, h⟩ | ⟨kb, hkb, h⟩ <;> simp only [h]
  · -- no kv batch: marked done, with no library call
    simp [CoreBatch.closed]
  · -- the kv batch is closed and dropped; the log gains a close, no commit
    simp [CoreBatch.closed, TreeDBLib.logged, logCall, commitCount_append, commitAttempts_append]
    -- no bytes either way, whatever the kv batch's close returned
    split_ifs <;> rfl

/-- A method that refuses with `e` and touches nothing. -/
theorem refuse_effect (e : DbError) (added : Nat) (isWrite kvOpen : Bool) :
    MethodEffect (B := B) (W := W) (fun b w => (throwErr e, b, w)) added isWrite kvOpen :=
  MethodEffect.of_each fun _ _ => by simp [throwErr]

/-- A method that first checks its arguments, with no batch involved. -/
theorem MethodEffect.ite {p : Prop} [Decidable p] {f g : BatchMethod B W} {added : Nat}
    {isWrite kvOpen : Bool} (hf : MethodEffect f added isWrite kvOpen)
    (hg : MethodEffect g added isWrite kvOpen) :
    MethodEffect (fun b w => if p then f b w else g b w) added isWrite kvOpen := by
  by_cases hp : p
  · simpa [hp] using hf
  · simpa [hp] using hg

/-- The bytes `Set` and `SetView` count: key and value. -/
def setBytes (key : Bytes) : Option Bytes → Nat
  | some v => key.length + v.length
  | none => 0

variable (lib : TreeDBLib D K S B W) (kvOpen : Bool)

theorem set_effect (key : Bytes) (value : Option Bytes) :
    MethodEffect (fun b => b.Set lib.logged key value) (setBytes key value) false kvOpen := by
  show MethodEffect (fun b w => CoreBatch.Set lib.logged b key value w) _ _ _
  simp only [CoreBatch.Set]
  apply MethodEffect.ite (refuse_effect _ _ _ _)
  cases value with
  | none => exact refuse_effect _ _ _ _
  | some v => exact record_effect (fun _ _ => rfl) _ _

theorem setView_effect (key : Bytes) (value : Option Bytes) :
    MethodEffect (fun b => b.SetView lib.logged key value) (setBytes key value) false kvOpen := by
  show MethodEffect (fun b w => CoreBatch.SetView lib.logged b key value w) _ _ _
  simp only [CoreBatch.SetView]
  apply MethodEffect.ite (refuse_effect _ _ _ _)
  cases value with
  | none => exact refuse_effect _ _ _ _
  | some v =>
    -- through the kv batch's `SetView` or its `Set`, one record is logged
    refine record_effect (fun kb w => ?_) _ _
    cases h : lib.batchSetView kb <;> simp [TreeDBLib.logged, h, logCall]

theorem delete_effect (key : Bytes) :
    MethodEffect (fun b => b.Delete lib.logged key) key.length false kvOpen := by
  show MethodEffect (fun b w => CoreBatch.Delete lib.logged b key w) _ _ _
  simp only [CoreBatch.Delete]
  exact MethodEffect.ite (refuse_effect _ _ _ _) (record_effect (fun _ _ => rfl) _ _)

theorem deleteView_effect (key : Bytes) :
    MethodEffect (fun b => b.DeleteView lib.logged key) key.length false kvOpen := by
  show MethodEffect (fun b w => CoreBatch.DeleteView lib.logged b key w) _ _ _
  simp only [CoreBatch.DeleteView]
  refine MethodEffect.ite (refuse_effect _ _ _ _) (record_effect (fun kb w => ?_) _ _)
  cases h : lib.batchDeleteView kb <;> simp [TreeDBLib.logged, h, logCall]

theorem write_effect (d : TreeDB D K S) :
    MethodEffect (CoreBatch.Write lib.logged d) 0 true d.kv.isSome :=
  writeWith_effect (fun _ _ => rfl) d

theorem writeSync_effect (d : TreeDB D K S) :
    MethodEffect (CoreBatch.WriteSync lib.logged d) 0 true d.kv.isSome :=
  writeWith_effect (fun _ _ => rfl) d

end Methods

-- ---------------------------------------------------------------------------
-- The calls on a batch
-- ---------------------------------------------------------------------------

namespace TreeCall

variable {D K S B W : Type}

/-- The batch a call addresses and the method it runs there, with `d` the
TreeDB; none for the calls on the TreeDB and for `GetByteSize`, which
changes nothing. -/
def batchMethod (lib : TreeDBLib D K S B W) (d : TreeDB D K S) :
    TreeCall → Option (Nat × BatchMethod B W)
  | .batchSet i key value => some (i, fun b => b.Set lib.logged key value)
  | .batchSetView i key value => some (i, fun b => b.SetView lib.logged key value)
  | .batchDelete i key => some (i, fun b => b.Delete lib.logged key)
  | .batchDeleteView i key => some (i, fun b => b.DeleteView lib.logged key)
  | .batchWrite i => some (i, CoreBatch.Write lib.logged d)
  | .batchWriteSync i => some (i, CoreBatch.WriteSync lib.logged d)
  | .batchClose i => some (i, CoreBatch.Close lib.logged)
  | _ => none

/-- `Write` and `WriteSync`. -/
def isWrite : TreeCall → Bool
  | .batchWrite _ | .batchWriteSync _ => true
  | _ => false

/-- `Write` or `WriteSync` on batch `i`. -/
def writes (i : Nat) : TreeCall → Bool
  | .batchWrite j | .batchWriteSync j => j == i
  | _ => false

/-- `NewBatch` and `NewBatchWithSize`. -/
def isNewBatch : TreeCall → Bool
  | .newBatch | .newBatchWithSize _ => true
  | _ => false

/-- The bytes a call records in batch `i` when it returns nil. -/
def recordedBytes (i : Nat) : TreeCall → Nat
  | .batchSet j key value | .batchSetView j key value => if j = i then setBytes key value else 0
  | .batchDelete j key | .batchDeleteView j key => if j = i then key.length else 0
  | _ => 0

/-- The calls on batch `i` that need it open, with a nonempty key and a
non-nil value: `Set`, `SetView`, `Delete`, `DeleteView`, `Write`, `WriteSync`
and `GetByteSize`. -/
def needsOpenBatch (i : Nat) : TreeCall → Bool
  | .batchSet j key (some _) | .batchSetView j key (some _) => j == i && key.length != 0
  | .batchDelete j key | .batchDeleteView j key => j == i && key.length != 0
  | .batchWrite j | .batchWriteSync j | .batchGetByteSize j => j == i
  | _ => false

variable (lib : TreeDBLib D K S B W)

theorem batchMethod_effect {d : TreeDB D K S} {c : TreeCall} {i : Nat} {f : BatchMethod B W}
    (h : c.batchMethod lib d = some (i, f)) :
    MethodEffect f (c.recordedBytes i) c.isWrite d.kv.isSome := by
  cases c <;> simp only [batchMethod, Option.some.injEq, Prod.mk.injEq, reduceCtorEq] at h <;>
    obtain ⟨rfl, rfl⟩ := h
  case batchSet => simpa [recordedBytes, isWrite] using set_effect lib _ _ _
  case batchSetView => simpa [recordedBytes, isWrite] using setView_effect lib _ _ _
  case batchDelete => simpa [recordedBytes, isWrite] using delete_effect lib _ _
  case batchDeleteView => simpa [recordedBytes, isWrite] using deleteView_effect lib _ _
  case batchWrite => exact write_effect lib d
  case batchWriteSync => exact writeSync_effect lib d
  case batchClose => exact close_effect lib _

theorem isNewBatch_of_batchMethod {d : TreeDB D K S} {c : TreeCall} {i : Nat}
    {f : BatchMethod B W} (h : c.batchMethod lib d = some (i, f)) : c.isNewBatch = false := by
  cases c <;> simp_all [batchMethod, isNewBatch]

/-- A call that runs no method on batch `i` records nothing there. -/
theorem recordedBytes_eq_zero {d : TreeDB D K S} {c : TreeCall} {i : Nat}
    (h : ∀ f, c.batchMethod lib d ≠ some (i, f)) : c.recordedBytes i = 0 := by
  cases c <;> simp_all [batchMethod, recordedBytes]

end TreeCall

-- ---------------------------------------------------------------------------
-- One step, seen from one batch
-- ---------------------------------------------------------------------------

/-- Two reads of one slot that both find an entry find the same one. -/
theorem pair_eq_of_eq_some {α β : Type} {o : Option (α × β)} {a a' : α} {b b' : β}
    (h : o = some (a, b)) (h' : o = some (a', b')) : a = a' ∧ b = b' := by
  rw [h] at h'
  exact Prod.mk.inj (Option.some.inj h')

namespace TreeSys

variable {D K S B W : Type} (lib : TreeDBLib D K S B W)

theorem onBatch_of_some {s : TreeSys D K S B W} {i : Nat} {f : BatchMethod B W}
    {e : CoreBatch B × List LibCall} (h : s.batches[i]? = some e) :
    s.onBatch i f = ({ s with batches := s.batches.set i ((f e.1 (s.world, e.2)).2.1,
        (f e.1 (s.world, e.2)).2.2.2), world := (f e.1 (s.world, e.2)).2.2.1 },
      (f e.1 (s.world, e.2)).1.map fun _ => .done) := by
  simp [onBatch, h]

theorem onBatch_of_none {s : TreeSys D K S B W} {i : Nat} {f : BatchMethod B W}
    (h : s.batches[i]? = none) : s.onBatch i f = (s, nilPointer) := by
  simp [onBatch, h]

/-- A call on batch `j` leaves every other batch as it is. -/
theorem onBatch_other {s : TreeSys D K S B W} {i j : Nat} {f : BatchMethod B W} (hji : j ≠ i) :
    (s.onBatch j f).1.batches[i]? = s.batches[i]? := by
  cases hj : s.batches[j]? with
  | none => rw [onBatch_of_none hj]
  | some e => rw [onBatch_of_some hj, List.getElem?_set_ne hji]

/-- A call that runs a batch method is `onBatch` with that method. -/
theorem step_of_batchMethod {s : TreeSys D K S B W} {c : TreeCall} {i : Nat} {f : BatchMethod B W}
    (h : c.batchMethod lib s.tree = some (i, f)) : step lib s c = s.onBatch i f := by
  cases c <;> simp only [TreeCall.batchMethod, Option.some.injEq, Prod.mk.injEq,
    reduceCtorEq] at h <;> obtain ⟨rfl, rfl⟩ := h <;> rfl

/-- A call that runs no batch method and makes no batch leaves the batches
as they are. -/
theorem step_batches {s : TreeSys D K S B W} {c : TreeCall}
    (h : c.batchMethod lib s.tree = none) (hn : c.isNewBatch = false) :
    (step lib s c).1.batches = s.batches := by
  cases c <;> simp only [TreeCall.batchMethod, TreeCall.isNewBatch, reduceCtorEq] at h hn
  case batchGetByteSize i =>
    simp only [step]
    split <;> rfl
  all_goals rfl

theorem newBatchWithSize_fresh (d : TreeDB D K S) (size : Int) (w : W) :
    (d.NewBatchWithSize lib size w).1.db = true ∧ (d.NewBatchWithSize lib size w).1.size = 0 ∧
      (d.NewBatchWithSize lib size w).1.done = false := by
  unfold TreeDB.NewBatchWithSize
  cases d.kv with
  | none => simp
  | some k =>
    dsimp only
    split <;> simp

/-- `NewBatch` adds a fresh batch, with an empty log, that holds its TreeDB. -/
theorem step_newBatch {s : TreeSys D K S B W} {c : TreeCall} (hn : c.isNewBatch = true) :
    ∃ nb : CoreBatch B, (step lib s c).1.batches = s.batches ++ [(nb, [])] ∧
      nb.db = true ∧ nb.size = 0 ∧ nb.done = false := by
  cases c <;> simp only [TreeCall.isNewBatch, reduceCtorEq] at hn
  case newBatch => exact ⟨_, rfl, newBatchWithSize_fresh lib.logged s.tree 16 _⟩
  case newBatchWithSize size => exact ⟨_, rfl, newBatchWithSize_fresh lib.logged s.tree size _⟩

theorem step_length (s : TreeSys D K S B W) (c : TreeCall) :
    (step lib s c).1.batches.length = s.batches.length + if c.isNewBatch then 1 else 0 := by
  rcases hm : c.batchMethod lib s.tree with _ | ⟨j, f⟩
  · cases hn : c.isNewBatch
    · simp [step_batches lib hm hn]
    · obtain ⟨nb, hb, -⟩ := step_newBatch lib (s := s) hn
      simp [hb]
  · rw [step_of_batchMethod lib hm, TreeCall.isNewBatch_of_batchMethod lib hm]
    cases hj : s.batches[j]? with
    | none => simp [onBatch_of_none hj]
    | some e => simp [onBatch_of_some hj]

/-- A batch that one step makes is the fresh one `NewBatch` adds, with an
empty log. -/
theorem step_missing {s : TreeSys D K S B W} {i : Nat} (he : s.batches[i]? = none) {c : TreeCall}
    {b : CoreBatch B} {log : List LibCall} (h : (step lib s c).1.batches[i]? = some (b, log)) :
    log = [] ∧ b.db = true ∧ b.size = 0 ∧ b.done = false := by
  have hl : s.batches.length ≤ i := List.getElem?_eq_none_iff.mp he
  have hi := (List.getElem?_eq_some_iff.mp h).1
  have hlen := step_length lib s c
  cases hn : c.isNewBatch
  · -- no batch is added, so batch `i` is still missing
    simp only [hn, Bool.false_eq_true, if_false, Nat.add_zero] at hlen
    omega
  · obtain ⟨nb, hb, hdb, hsize, hdone⟩ := step_newBatch lib (s := s) hn
    have hi' : i = s.batches.length := by
      simp only [hn, if_true] at hlen
      omega
    rw [hb, List.getElem?_append_right (by omega), hi', Nat.sub_self] at h
    obtain ⟨rfl, rfl⟩ := Prod.mk.inj <| Option.some.inj h
    exact ⟨rfl, hdb, hsize, hdone⟩

/-- What one step does to an existing batch `i`: it runs a method there,
or leaves the batch and its log as they are. -/
theorem step_entry {s : TreeSys D K S B W} {i : Nat} {e : CoreBatch B × List LibCall}
    (h : s.batches[i]? = some e) (c : TreeCall) :
    (∃ f, c.batchMethod lib s.tree = some (i, f) ∧
      (step lib s c).1.batches[i]? = some ((f e.1 (s.world, e.2)).2.1, (f e.1 (s.world, e.2)).2.2.2) ∧
      (step lib s c).2 = (f e.1 (s.world, e.2)).1.map fun _ => .done) ∨
    ((∀ f, c.batchMethod lib s.tree ≠ some (i, f)) ∧ (step lib s c).1.batches[i]? = some e) := by
  have hi : i < s.batches.length := (List.getElem?_eq_some_iff.mp h).1
  rcases hm : c.batchMethod lib s.tree with _ | ⟨j, f⟩
  · -- no method: the batches stay, or a new one is added after `i`
    refine .inr ⟨fun f => by simp, ?_⟩
    cases hn : c.isNewBatch
    · rw [step_batches lib hm hn, h]
    · obtain ⟨nb, hb, -⟩ := step_newBatch lib (s := s) hn
      rw [hb, List.getElem?_append_left hi, h]
  · rw [step_of_batchMethod lib hm]
    by_cases hji : j = i
    · subst hji
      rw [onBatch_of_some h]
      exact .inl ⟨f, rfl, by simp [hi], rfl⟩
    · -- a method on another batch
      exact .inr ⟨fun f' => by simp [hji], by rw [onBatch_other hji, h]⟩

end TreeSys

-- ---------------------------------------------------------------------------
-- The invariant over runs
-- ---------------------------------------------------------------------------

/-- The bytes recorded in batch `i` by the calls of `hist` that returned nil. -/
def acceptedBytes (i : Nat) (hist : List (TreeCall × Go TreeReply)) : Nat :=
  (hist.map fun e => if e.2.isOk then e.1.recordedBytes i else 0).sum

theorem acceptedBytes_append (i : Nat) (hist : List (TreeCall × Go TreeReply)) (c : TreeCall)
    (r : Go TreeReply) :
    acceptedBytes i (hist ++ [(c, r)]) = acceptedBytes i hist + if r.isOk then c.recordedBytes i else 0 := by
  simp [acceptedBytes]

section Invariant

variable {D K S B W : Type} (lib : TreeDBLib D K S B W)

/-- What a run keeps of batch `i`: it holds its TreeDB, its byte count is
what the history accepted for it, its log has at most one successful commit,
after which it is done; before it is made, nothing was accepted for it. -/
structure BatchInv (s : TreeSys D K S B W) (hist : List (TreeCall × Go TreeReply)) (i : Nat) :
    Prop where
  entry : ∀ b log, s.batches[i]? = some (b, log) →
    b.db = true ∧ b.size = acceptedBytes i hist ∧ commitCount log ≤ 1 ∧
      (commitCount log = 1 → b.done = true)
  fresh : s.batches.length ≤ i → acceptedBytes i hist = 0

theorem batchInv_init (tree : TreeDB D K S) (world : W) (i : Nat) :
    BatchInv (TreeSys.init tree world : TreeSys D K S B W) [] i :=
  ⟨fun b log h => by simp [TreeSys.init] at h, fun _ => rfl⟩

/-- One method keeps an entry of the invariant: the count grows by what it
accepted, and a successful commit can only be the first. -/
theorem entry_step {f : BatchMethod B W} {added : Nat} {isWrite kvOpen : Bool}
    (hf : MethodEffect f added isWrite kvOpen) {b : CoreBatch B} {log : List LibCall} {acc : Nat}
    (hdb : b.db = true) (hsize : b.size = acc) (hc : commitCount log ≤ 1)
    (hd : commitCount log = 1 → b.done = true) (w : W) :
    (f b (w, log)).2.1.db = true ∧
      (f b (w, log)).2.1.size = acc + (if (f b (w, log)).1.isOk then added else 0) ∧
      commitCount (f b (w, log)).2.2.2 ≤ 1 ∧
      (commitCount (f b (w, log)).2.2.2 = 1 → (f b (w, log)).2.1.done = true) := by
  have hcount := hf.commits b (w, log)
  dsimp only at hcount
  refine ⟨by rw [hf.db, hdb], by rw [hf.size, hsize], ?_⟩
  by_cases hw : (isWrite && (f b (w, log)).1.isOk) = true
  · -- a successful write: the batch was not done, so nothing was committed before
    obtain ⟨hw1, hw2⟩ := Bool.and_eq_true_iff.mp hw
    obtain ⟨hbd, hdone⟩ := hf.written b (w, log) hw1 hw2
    have h0 : commitCount log = 0 := by
      by_contra hne
      have := hd (by omega)
      simp [hbd] at this
    rw [if_pos hw] at hcount
    exact ⟨by omega, fun _ => hdone⟩
  · -- no commit: the count is the same, and a done batch stays done
    rw [if_neg hw, Nat.add_zero] at hcount
    exact ⟨by omega, fun h1 => hf.done b (w, log) (hd (by omega))⟩

/-- A call that runs no method on a missing batch adds nothing for it. -/
theorem acceptedBytes_step_missing {s : TreeSys D K S B W} {i : Nat}
    (he : s.batches[i]? = none) (hist : List (TreeCall × Go TreeReply)) (c : TreeCall) :
    acceptedBytes i (hist ++ [(c, (TreeSys.step lib s c).2)]) = acceptedBytes i hist := by
  rw [acceptedBytes_append]
  by_cases hm : ∃ f, c.batchMethod lib s.tree = some (i, f)
  · -- a method on the missing batch dereferences nil
    obtain ⟨f, hf⟩ := hm
    rw [TreeSys.step_of_batchMethod lib hf, TreeSys.onBatch_of_none he]
    simp [nilPointer]
  · rw [TreeCall.recordedBytes_eq_zero lib (fun f h => hm ⟨f, h⟩)]
    simp

/-- The invariant of an existing batch after one step. -/
theorem batchInv_step_existing {s : TreeSys D K S B W} {hist : List (TreeCall × Go TreeReply)}
    {i : Nat} (h : BatchInv s hist i) {b : CoreBatch B} {log : List LibCall}
    (he : s.batches[i]? = some (b, log)) (c : TreeCall) :
    BatchInv (TreeSys.step lib s c).1 (hist ++ [(c, (TreeSys.step lib s c).2)]) i := by
  obtain ⟨hdb, hsize, hc, hd⟩ := h.entry b log he
  rcases TreeSys.step_entry lib he c with ⟨f, hm, hb', hr⟩ | ⟨hm, hb'⟩
  · -- the call runs a method on batch `i`
    obtain ⟨hdb', hsize', hc', hd'⟩ :=
      entry_step (TreeCall.batchMethod_effect lib hm) hdb hsize hc hd s.world
    refine ⟨fun b'' log'' h'' => ?_, fun hl => ?_⟩
    · obtain ⟨rfl, rfl⟩ := pair_eq_of_eq_some hb' h''
      refine ⟨hdb', ?_, hc', hd'⟩
      rw [acceptedBytes_append, hr, hsize']
      cases (f b (s.world, log)).1 <;> rfl
    · have := (List.getElem?_eq_some_iff.mp hb').1
      omega
  · -- batch `i` is left as it is, and nothing is recorded there
    have hrec := TreeCall.recordedBytes_eq_zero lib hm
    refine ⟨fun b'' log'' h'' => ?_, fun hl => ?_⟩
    · obtain ⟨rfl, rfl⟩ := pair_eq_of_eq_some hb' h''
      exact ⟨hdb, by simp [acceptedBytes_append, hrec, hsize], hc, hd⟩
    · have := (List.getElem?_eq_some_iff.mp hb').1
      omega

/-- The invariant of a batch not made yet after one step: it stays unmade,
or `NewBatch` makes it fresh. -/
theorem batchInv_step_missing {s : TreeSys D K S B W} {hist : List (TreeCall × Go TreeReply)}
    {i : Nat} (h : BatchInv s hist i) (he : s.batches[i]? = none) (c : TreeCall) :
    BatchInv (TreeSys.step lib s c).1 (hist ++ [(c, (TreeSys.step lib s c).2)]) i := by
  have hl : s.batches.length ≤ i := List.getElem?_eq_none_iff.mp he
  have hacc : acceptedBytes i (hist ++ [(c, (TreeSys.step lib s c).2)]) = 0 := by
    rw [acceptedBytes_step_missing lib he, h.fresh hl]
  refine ⟨fun b log h' => ?_, fun _ => hacc⟩
  -- the batch is the new one
  obtain ⟨rfl, hdb, hsize, -⟩ := TreeSys.step_missing lib he h'
  exact ⟨hdb, by rw [hsize, hacc], by simp [commitCount], by simp [commitCount]⟩

theorem batchInv_step {s : TreeSys D K S B W} {hist : List (TreeCall × Go TreeReply)} {i : Nat}
    (h : BatchInv s hist i) (c : TreeCall) :
    BatchInv (TreeSys.step lib s c).1 (hist ++ [(c, (TreeSys.step lib s c).2)]) i := by
  cases he : s.batches[i]? with
  | none => exact batchInv_step_missing lib h he c
  | some e => exact batchInv_step_existing lib h he c

/-- The invariant holds after every run from a fresh system, with the calls
and their replies as the history. -/
theorem batchInv_run (tree : TreeDB D K S) (world : W) (calls : List TreeCall) (i : Nat) :
    BatchInv (run (TreeSys.step lib) (TreeSys.init tree world) calls).1
      (calls.zip (run (TreeSys.step lib) (TreeSys.init tree world) calls).2) i := by
  have h := run_invariant (withHistory (TreeSys.step lib)) (fun _ => True)
    (fun p => BatchInv p.1 p.2 i) (fun p c _ hp => batchInv_step lib hp c) calls
    (s := (TreeSys.init tree world, [])) (fun _ _ => trivial) (batchInv_init tree world i)
  rw [run_withHistory] at h
  simpa using h

end Invariant

-- ---------------------------------------------------------------------------
-- The guarantees
-- ---------------------------------------------------------------------------

section Guarantees

variable {D K S B W : Type} (lib : TreeDBLib D K S B W)

/-- What holds of batch `i` in the system `s`, reached through the calls and
replies `hist`, for the next call `c`, whatever it is. -/
structure BatchGuarantees (s : TreeSys D K S B W) (hist : List (TreeCall × Go TreeReply))
    (i : Nat) : Prop where
  /-- The kv batch has been committed successfully at most once. -/
  commitsAtMostOnce : ∀ b log, s.batches[i]? = some (b, log) → commitCount log ≤ 1
  /-- A commit is attempted only on an open batch of an open TreeDB. -/
  commitNeedsOpen : ∀ b log c b' log', s.batches[i]? = some (b, log) →
    (TreeSys.step lib s c).1.batches[i]? = some (b', log') →
    commitAttempts log < commitAttempts log' → b.closed = false ∧ s.tree.kv.isSome = true
  /-- A closed batch refuses, untouched, every call that needs it open. -/
  closedRefuses : ∀ b log, s.batches[i]? = some (b, log) → b.closed = true →
    ∀ c, c.needsOpenBatch i = true → TreeSys.step lib s c = (s, throwErr .errBatchClosed)
  /-- `Close` on a closed batch returns nil. -/
  closedCloses : ∀ b log, s.batches[i]? = some (b, log) → b.closed = true →
    (TreeSys.step lib s (.batchClose i)).2 = .ok .done
  /-- A closed batch stays closed. -/
  staysClosed : ∀ b log, s.batches[i]? = some (b, log) → b.closed = true →
    ∀ c b' log', (TreeSys.step lib s c).1.batches[i]? = some (b', log') → b'.closed = true
  /-- `Close`, and a `Write` or `WriteSync` that returns nil, close the batch. -/
  closes : ∀ c b' log', (c = .batchClose i ∨ (c.writes i = true ∧ (TreeSys.step lib s c).2.isOk = true)) →
    (TreeSys.step lib s c).1.batches[i]? = some (b', log') → b'.closed = true
  /-- A failed `Write` or `WriteSync` leaves an open batch open, with its byte count. -/
  failedWrite : ∀ b log c b' log', s.batches[i]? = some (b, log) → b.closed = false →
    c.writes i = true → (TreeSys.step lib s c).2.isOk = false →
    (TreeSys.step lib s c).1.batches[i]? = some (b', log') → b'.closed = false ∧ b'.size = b.size
  /-- `GetByteSize` returns the bytes the calls on the batch that returned nil recorded. -/
  byteSize : ∀ n, (TreeSys.step lib s (.batchGetByteSize i)).2 = .ok (.size n) →
    n = acceptedBytes i hist

theorem TreeCall.batchMethod_of_writes {d : TreeDB D K S} {c : TreeCall} {i : Nat}
    (h : c.writes i = true) :
    ∃ f, c.batchMethod lib d = some (i, f) ∧ c.isWrite = true ∧
      ∀ b w, (f b w).1.isOk = false → (f b w).2.1 = b := by
  cases c <;> simp only [TreeCall.writes, beq_iff_eq, reduceCtorEq] at h <;> subst h
  · exact ⟨_, rfl, rfl, fun b w hw => CoreBatch.writeWith_of_error hw⟩
  · exact ⟨_, rfl, rfl, fun b w hw => CoreBatch.writeWith_of_error hw⟩

/-- A `Write` or `WriteSync` on an existing batch `i`: the batch becomes what
the commit left, the reply is nil exactly when the commit's is, a nil reply
marks the batch done and an error leaves it as it was. -/
theorem step_write {s : TreeSys D K S B W} {i : Nat} {b : CoreBatch B} {log : List LibCall}
    (he : s.batches[i]? = some (b, log)) {c : TreeCall} (hw : c.writes i = true) :
    ∃ r : Go Unit × CoreBatch B × (W × List LibCall),
      (TreeSys.step lib s c).1.batches[i]? = some (r.2.1, r.2.2.2) ∧
      (TreeSys.step lib s c).2.isOk = r.1.isOk ∧
      (r.1.isOk = true → r.2.1.done = true) ∧ (r.1.isOk = false → r.2.1 = b) := by
  obtain ⟨f, hm, hwrite, hkeep⟩ := TreeCall.batchMethod_of_writes lib (d := s.tree) hw
  rcases TreeSys.step_entry lib he c with ⟨f', hm', hb, hr⟩ | ⟨hne, -⟩
  · obtain ⟨-, rfl⟩ := pair_eq_of_eq_some hm hm'
    refine ⟨f b (s.world, log), hb, by rw [hr, except_isOk_map], fun hok => ?_, hkeep b _⟩
    exact ((TreeCall.batchMethod_effect lib hm).written _ _ hwrite hok).2
  · exact absurd hm (hne f)

/-- A method that refuses leaves the system as it is. -/
theorem TreeSys.onBatch_refuse {s : TreeSys D K S B W} {i : Nat} {f : BatchMethod B W}
    {b : CoreBatch B} {log : List LibCall} {e : DbError} (he : s.batches[i]? = some (b, log))
    (hf : f b (s.world, log) = (throwErr e, b, (s.world, log))) :
    s.onBatch i f = (s, throwErr e) := by
  have hi := List.getElem?_eq_some_iff.mp he
  rw [TreeSys.onBatch_of_some he, hf]
  simp only [List.set_getElem_self hi.1 ▸ (congrArg (s.batches.set i) hi.2).symm]
  cases s
  rfl

/-- A call that needs batch `i` open, on a closed batch `i`, refuses. -/
theorem step_of_closed {s : TreeSys D K S B W} {i : Nat} {b : CoreBatch B} {log : List LibCall}
    (he : s.batches[i]? = some (b, log)) (hb : b.closed = true) {c : TreeCall}
    (hc : c.needsOpenBatch i = true) : TreeSys.step lib s c = (s, throwErr .errBatchClosed) := by
  cases c <;> simp only [TreeCall.needsOpenBatch, Bool.and_eq_true, beq_iff_eq, bne_iff_ne,
    ne_eq, reduceCtorEq] at hc
  case batchSet j key value =>
    cases value with
    | none => simp at hc
    | some v =>
      simp only [Bool.and_eq_true, beq_iff_eq, bne_iff_ne, ne_eq] at hc
      obtain ⟨rfl, hk⟩ := hc
      exact TreeSys.onBatch_refuse he (by simp [CoreBatch.Set, hk, CoreBatch.record_of_closed hb])
  case batchSetView j key value =>
    cases value with
    | none => simp at hc
    | some v =>
      simp only [Bool.and_eq_true, beq_iff_eq, bne_iff_ne, ne_eq] at hc
      obtain ⟨rfl, hk⟩ := hc
      exact TreeSys.onBatch_refuse he (by simp [CoreBatch.SetView, hk, CoreBatch.record_of_closed hb])
  case batchDelete j key =>
    obtain ⟨rfl, hk⟩ := hc
    exact TreeSys.onBatch_refuse he (by simp [CoreBatch.Delete, hk, CoreBatch.record_of_closed hb])
  case batchDeleteView j key =>
    obtain ⟨rfl, hk⟩ := hc
    exact TreeSys.onBatch_refuse he
      (by simp [CoreBatch.DeleteView, hk, CoreBatch.record_of_closed hb])
  case batchWrite j =>
    subst hc
    exact TreeSys.onBatch_refuse he (CoreBatch.writeWith_of_closed hb _ _ _)
  case batchWriteSync j =>
    subst hc
    exact TreeSys.onBatch_refuse he (CoreBatch.writeWith_of_closed hb _ _ _)
  case batchGetByteSize j =>
    subst hc
    simp [TreeSys.step, he, CoreBatch.getByteSize_of_closed hb, throwErr, Except.map]

/-- The guarantees follow from the invariant. -/
theorem batchGuarantees_of_inv {s : TreeSys D K S B W} {hist : List (TreeCall × Go TreeReply)}
    {i : Nat} (h : BatchInv s hist i) : BatchGuarantees lib s hist i where
  commitsAtMostOnce b log he := (h.entry b log he).2.2.1
  commitNeedsOpen b log c b' log' he hb' hlt := by
    rcases TreeSys.step_entry lib he c with ⟨f, hm, hb'', -⟩ | ⟨-, hb''⟩
    · -- only the method on batch `i` can add a commit to its log
      obtain ⟨-, rfl⟩ := pair_eq_of_eq_some hb'' hb'
      obtain ⟨hopen, hkv⟩ := (TreeCall.batchMethod_effect lib hm).attempt b (s.world, log) hlt
      exact ⟨hopen, hkv (h.entry b log he).1⟩
    · obtain ⟨-, rfl⟩ := pair_eq_of_eq_some hb'' hb'
      omega
  closedRefuses b log he hb c hc := step_of_closed lib he hb hc
  closedCloses b log he hb := by
    rw [TreeSys.step, TreeSys.onBatch_of_some he, CoreBatch.close_of_closed _ hb]
    rfl
  staysClosed b log he hb c b' log' hb' := by
    rcases TreeSys.step_entry lib he c with ⟨f, hm, hb'', -⟩ | ⟨-, hb''⟩
    · obtain ⟨rfl, -⟩ := pair_eq_of_eq_some hb'' hb'
      exact (TreeCall.batchMethod_effect lib hm).closed b _ hb
    · obtain ⟨rfl, -⟩ := pair_eq_of_eq_some hb'' hb'
      exact hb
  closes c b' log' hc hb' := by
    cases he : s.batches[i]? with
    | none =>
      -- batch `i` was never made, and no call makes it
      rcases hc with rfl | ⟨hw, -⟩
      · rw [TreeSys.step, TreeSys.onBatch_of_none he, he] at hb'
        cases hb'
      · obtain ⟨f, hm, -⟩ := TreeCall.batchMethod_of_writes lib (d := s.tree) hw
        rw [TreeSys.step_of_batchMethod lib hm, TreeSys.onBatch_of_none he, he] at hb'
        cases hb'
    | some e =>
      rcases hc with rfl | ⟨hw, hok⟩
      · rw [TreeSys.step, TreeSys.onBatch_of_some he] at hb'
        simp only [List.getElem?_set_self (List.getElem?_eq_some_iff.mp he).1,
          Option.some.injEq, Prod.mk.injEq] at hb'
        rw [← hb'.1]
        exact CoreBatch.close_closed _ _ _
      · -- a write that returned nil marked the batch done
        obtain ⟨r, hb'', hr, hdone, -⟩ := step_write lib he hw
        obtain ⟨rfl, -⟩ := pair_eq_of_eq_some hb'' hb'
        simp [CoreBatch.closed, hdone (hr ▸ hok)]
  failedWrite b log c b' log' he hb hw hfail hb' := by
    -- the failed write returned the batch as it was
    obtain ⟨r, hb'', hr, -, hkeep⟩ := step_write lib he hw
    obtain ⟨rfl, -⟩ := pair_eq_of_eq_some hb'' hb'
    rw [hkeep (hr ▸ hfail)]
    exact ⟨hb, rfl⟩
  byteSize n hn := by
    simp only [TreeSys.step] at hn
    cases he : s.batches[i]? with
    | none => simp [he, nilPointer] at hn
    | some e =>
      obtain ⟨b, log⟩ := e
      simp only [he] at hn
      cases hg : b.GetByteSize with
      | error f => simp [hg, Except.map] at hn
      | ok m =>
        simp only [hg, Except.map, Except.ok.injEq, TreeReply.size.injEq] at hn
        obtain ⟨-, rfl⟩ := CoreBatch.getByteSize_eq_ok hg
        rw [← hn]
        exact (h.entry b log he).2.1

/-- Over every run of a TreeDB and its batches, from a fresh system, whatever
the library answers: the guarantees of every batch. -/
theorem coreBatch_run_guarantees (lib : TreeDBLib D K S B W) (tree : TreeDB D K S) (world : W)
    (calls : List TreeCall) (i : Nat) :
    BatchGuarantees lib (run (TreeSys.step lib) (TreeSys.init tree world) calls).1
      (calls.zip (run (TreeSys.step lib) (TreeSys.init tree world) calls).2) i :=
  batchGuarantees_of_inv lib (batchInv_run lib tree world calls i)

end Guarantees

end CosmosDb
