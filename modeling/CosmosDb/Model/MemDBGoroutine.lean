import CosmosDb.Model.MemDBIterator
import CosmosDb.Lib.Chan
import Mathlib.Logic.Relation

/-!
# CosmosDb — the `MemDB` iterator's goroutine

`newMemDBIteratorMtxChoice` takes the read lock if asked, starts a goroutine
that walks the B-tree and sends the items its visitor accepts into a channel
of `chBufferSize` slots, and primes the iterator with one receive. `Next`
receives again. `Close` cancels the goroutine's context and drains the
channel. The goroutine's `select` sends while the buffer has room and gives
up once the context is cancelled, and either may happen when both can; a
receive waits for an item or for the channel to close.

Here the goroutine and the iterator's caller are one transition system over
the channel of `Lib/Chan`: `Internal` steps (the goroutine's own, and the
completion of a receive the caller waits in) and `Call`s (the caller invoking
`Next` or `Close`). The goroutine walks the items its traversal offers, in
order (`memDBWalk`); over a tree that behaves as `IsOrderedBTree` says, the
items it would send are what the sequential model's `memDBTraverse` computes
(`future_newMemDBIteratorMtxChoice`).

The sequential model reads the channel as the list of everything the
goroutine sends; `State.abs` is that view of a state.

Results, over every interleaving:

* `memDBIterator_goroutine_refines` — until `Close`, each state stands for one
  the sequential iterator reaches through `Valid` and `Next`;
* `memDBIterator_goroutine_fifo` — no item is lost, duplicated or reordered,
  and an iterator that turns invalid before `Close` has received the whole walk;
* `memDBIterator_calls_return` — a caller waiting in `Next` or `Close` is
  never stuck, and the steps it waits for run out;
* `memDBIterator_close_releases` — the read lock is held exactly while the
  goroutine runs, and when `Close` returns the goroutine has finished its walk;
* `memDBIterator_lock_held_while_undelivered` — over a range of more than
  `chBufferSize + 1` entries, while the caller makes no call the goroutine
  never finishes and the read lock stays held.
-/

namespace CosmosDb

/-- `chBufferSize`. -/
def chBufferSize : ℕ := 64

/-- The goroutine's `switch`: the items the chosen traversal offers its
visitor, in order, and the visitor's initial `skipEqual` and
`abortLessThan`. -/
def memDBWalk {T : Type} (bt : BTreeOps T) (t : T) (start «end» : Option Bytes) (reverse : Bool) :
    List (Bytes × Bytes) × Option Bytes × Option Bytes :=
  match start, «end», reverse with
  | none, none, false => (bt.ascend t recordAll [], none, none)
  | none, none, true => (bt.descend t recordAll [], none, none)
  | some s, none, false => (bt.ascendGreaterOrEqual t s recordAll [], none, none)
  | _, some e, false => (bt.ascendRange t (start.getD []) e recordAll [], none, none)
  | some s, none, true => (bt.descend t recordAll [], none, some s)
  | _, some e, true => (bt.descendLessOrEqual t e recordAll [], some e, start)

namespace MemDBGoroutine

/-- Where the traversal goroutine is. -/
inductive Walk where
  /-- in the B-tree walk: the items still to offer, `skipEqual` and `abortLessThan` -/
  | walking (rest : List (Bytes × Bytes)) (skipEqual abortLessThan : Option Bytes)
  /-- the walk has returned; `close(ch)` is next -/
  | returned
  /-- the channel is closed; the deferred `RUnlock` is next -/
  | closedCh
  /-- the goroutine has exited -/
  | exited
  deriving DecidableEq

/-- Where the iterator's caller is. -/
inductive Caller where
  /-- waiting in `<-i.ch`: the priming receive, or `Next` -/
  | receiving
  /-- between calls -/
  | idle
  /-- in `Close`, after `i.cancel()`, draining the channel -/
  | draining
  /-- `Close` has returned -/
  | closed
  deriving DecidableEq

/-- The iterator, its goroutine, the channel between them and the context.
`rlocked` is whether the goroutine holds the database's read lock. -/
structure State where
  g : Walk
  ch : Chan (Bytes × Bytes) chBufferSize
  ctxDone : Bool
  caller : Caller
  item : Option (Bytes × Bytes)
  start : Option Bytes
  «end» : Option Bytes
  useMtx : Bool
  rlocked : Bool

/-- `newMemDBIteratorMtxChoice`, with the goroutine: the read lock is taken
before the goroutine starts, and the caller waits for the first item. -/
def newMemDBIteratorMtxChoice {T : Type} (bt : BTreeOps T) (t : T) (start «end» : Option Bytes)
    (reverse useMtx : Bool) : State :=
  let w := memDBWalk bt t start «end» reverse
  { g := .walking w.1 w.2.1 w.2.2, ch := Chan.make, ctxDone := false, caller := .receiving,
    item := none, start, «end», useMtx, rlocked := useMtx }

/-- The steps nobody calls for: the goroutine's, and the completion of a
receive the caller waits in. The visitor's tests are those of
`memDBVisitor`. -/
inductive Internal : State → State → Prop
  /-- the item equal to `skipEqual`: the visitor clears it and goes on -/
  | skip {s : State} {x rest ab} (hg : s.g = .walking (x :: rest) (some x.1) ab) :
      Internal s { s with g := .walking rest none ab }
  /-- a key below `abortLessThan`: the visitor answers false and the walk returns -/
  | abort {s : State} {x rest sk ab} (hg : s.g = .walking (x :: rest) sk ab)
      (hsk : (sk == some x.1) = false) (hab : ab.any (fun a => decide (x.1 < a)) = true) :
      Internal s { s with g := .returned }
  /-- the `select` takes `<-ctx.Done()`: the visitor answers false -/
  | cancelled {s : State} {x rest sk ab} (hg : s.g = .walking (x :: rest) sk ab)
      (hsk : (sk == some x.1) = false) (hab : ab.any (fun a => decide (x.1 < a)) = false)
      (hdone : s.ctxDone = true) :
      Internal s { s with g := .returned }
  /-- the `select` takes `ch <- &item`: the visitor answers true -/
  | send {s : State} {x rest sk ab c} (hg : s.g = .walking (x :: rest) sk ab)
      (hsk : (sk == some x.1) = false) (hab : ab.any (fun a => decide (x.1 < a)) = false)
      (hc : s.ch.send x = some c) :
      Internal s { s with g := .walking rest sk ab, ch := c }
  /-- the traversal has offered every item -/
  | walkEnd {s : State} {sk ab} (hg : s.g = .walking [] sk ab) :
      Internal s { s with g := .returned }
  /-- `close(ch)` -/
  | closeCh {s : State} (hg : s.g = .returned) :
      Internal s { s with g := .closedCh, ch := s.ch.close }
  /-- the goroutine returns, running the deferred `RUnlock` if it took the lock -/
  | exit {s : State} (hg : s.g = .closedCh) :
      Internal s { s with g := .exited, rlocked := if s.useMtx then false else s.rlocked }
  /-- the receive the caller waits in completes: an item, or nil once the
  channel is closed and drained -/
  | recv {s : State} {r c} (hc : s.caller = .receiving) (hr : s.ch.recv = some (r, c)) :
      Internal s { s with caller := .idle, item := r, ch := c }
  /-- `for range i.ch {}` takes an item -/
  | drain {s : State} {x c} (hc : s.caller = .draining) (hr : s.ch.recv = some (some x, c)) :
      Internal s { s with ch := c }
  /-- the channel is closed and drained: `i.item = nil`, and `Close` returns -/
  | drained {s : State} {c} (hc : s.caller = .draining) (hr : s.ch.recv = some (none, c)) :
      Internal s { s with caller := .closed, item := none }

/-- The calls of the iterator's user that change it. -/
inductive Call : State → State → Prop
  /-- `Next` at a valid position (`assertIsValid` passes): it waits in `<-i.ch` -/
  | next {s : State} {x} (hc : s.caller = .idle) (hi : s.item = some x) :
      Call s { s with caller := .receiving }
  /-- `Close`: `i.cancel()`, then it drains the channel -/
  | close {s : State} (hc : s.caller = .idle ∨ s.caller = .closed) :
      Call s { s with ctxDone := true, caller := .draining }

/-- One step of the system. -/
def Step (s s' : State) : Prop := Internal s s' ∨ Call s s'

/-! ## What the goroutine will still send -/

/-- What the goroutine will still send if nothing cancels it. -/
def Walk.future : Walk → List (Bytes × Bytes)
  | .walking rest sk ab => (visit memDBVisitor ⟨sk, ab, []⟩ rest).sent
  | _ => []

/-- Whether the goroutine has closed the channel. -/
def Walk.hasClosed : Walk → Bool
  | .closedCh | .exited => true
  | _ => false

/-- Whether the goroutine still runs. -/
def Walk.running : Walk → Bool
  | .exited => false
  | _ => true

/-- Whether `Close` has been called. -/
def Caller.closing : Caller → Bool
  | .draining | .closed => true
  | _ => false

/-- The sequential iterator a state stands for: its channel holds what is
buffered and then what the goroutine will still send, and a receive the
caller waits in counts as done. -/
def State.abs (s : State) : MemDBIterator :=
  let i : MemDBIterator := ⟨s.ch.buf ++ s.g.future, s.item, s.start, s.«end», s.useMtx⟩
  match s.caller with
  | .receiving => i.Next
  | _ => i

/-- The visitor only ever appends to what it has sent. -/
theorem visit_memDBVisitor_sent (ab : Option Bytes) :
    ∀ (sk : Option Bytes) (acc l : List (Bytes × Bytes)),
      (visit memDBVisitor ⟨sk, ab, acc⟩ l).sent = acc ++ (visit memDBVisitor ⟨sk, ab, []⟩ l).sent := by
  intro sk acc l
  induction l generalizing sk acc with
  | nil => simp
  | cons x l ih =>
    by_cases hs : (sk == some x.1) = true
    · have hv : ∀ acc', memDBVisitor ⟨sk, ab, acc'⟩ x = (true, ⟨none, ab, acc'⟩) := by
        intro acc'
        simp [memDBVisitor, hs]
      rw [visit_cons_of_continue (hv acc), visit_cons_of_continue (hv []), ih none acc]
    · by_cases ha : (ab.any fun a => decide (x.1 < a)) = true
      · have hv : ∀ acc', memDBVisitor ⟨sk, ab, acc'⟩ x = (false, ⟨sk, ab, acc'⟩) := by
          intro acc'
          simp only [memDBVisitor, hs, ha, if_true, Bool.false_eq_true, if_false]
        rw [visit_cons_of_stop (hv acc), visit_cons_of_stop (hv [])]
        simp
      · have hv : ∀ acc', memDBVisitor ⟨sk, ab, acc'⟩ x = (true, ⟨sk, ab, acc' ++ [x]⟩) := by
          intro acc'
          simp only [memDBVisitor, hs, ha, Bool.false_eq_true, if_false]
        rw [visit_cons_of_continue (hv acc), visit_cons_of_continue (hv []), ih sk (acc ++ [x]),
          ih sk ([] ++ [x]), List.nil_append, List.append_assoc]

theorem future_skip (x : Bytes × Bytes) (rest : List (Bytes × Bytes)) (ab : Option Bytes) :
    (Walk.walking (x :: rest) (some x.1) ab).future = (Walk.walking rest none ab).future := by
  have hv : memDBVisitor ⟨some x.1, ab, []⟩ x = (true, ⟨none, ab, []⟩) := by
    simp [memDBVisitor]
  simp only [Walk.future, visit_cons_of_continue hv]

theorem future_abort {x : Bytes × Bytes} {rest : List (Bytes × Bytes)} {sk ab : Option Bytes}
    (hsk : (sk == some x.1) = false) (hab : (ab.any fun a => decide (x.1 < a)) = true) :
    (Walk.walking (x :: rest) sk ab).future = [] := by
  have hv : memDBVisitor ⟨sk, ab, []⟩ x = (false, ⟨sk, ab, []⟩) := by
    simp only [memDBVisitor, hsk, hab, Bool.false_eq_true, if_false, if_true]
  simp only [Walk.future, visit_cons_of_stop hv]

theorem future_send {x : Bytes × Bytes} {rest : List (Bytes × Bytes)} {sk ab : Option Bytes}
    (hsk : (sk == some x.1) = false) (hab : (ab.any fun a => decide (x.1 < a)) = false) :
    (Walk.walking (x :: rest) sk ab).future = x :: (Walk.walking rest sk ab).future := by
  have hv : memDBVisitor ⟨sk, ab, []⟩ x = (true, ⟨sk, ab, [x]⟩) := by
    simp only [memDBVisitor, hsk, hab, Bool.false_eq_true, if_false, List.nil_append]
  simp only [Walk.future, visit_cons_of_continue hv]
  rw [visit_memDBVisitor_sent, List.singleton_append]

theorem future_of_hasClosed {g : Walk} (h : g.hasClosed = true) : g.future = [] := by
  cases g <;> simp_all [Walk.hasClosed, Walk.future]

section Start

variable {T : Type} {bt : BTreeOps T} {contents : T → KVMap}

/-- Over a tree that behaves as documented, the goroutine's walk sends what
the sequential model's traversal does. -/
theorem future_newMemDBIteratorMtxChoice (hbt : IsOrderedBTree bt contents) (t : T)
    (start «end» : Option Bytes) (reverse useMtx : Bool) :
    (newMemDBIteratorMtxChoice bt t start «end» reverse useMtx).g.future =
      memDBTraverse bt t start «end» reverse := by
  cases start <;> cases «end» <;> cases reverse <;>
    simp [newMemDBIteratorMtxChoice, memDBWalk, memDBTraverse, Walk.future, hbt.ascend,
      hbt.descend, hbt.ascendGreaterOrEqual, hbt.ascendRange, hbt.descendLessOrEqual,
      visit_recordAll]

theorem abs_newMemDBIteratorMtxChoice (hbt : IsOrderedBTree bt contents) (t : T)
    (start «end» : Option Bytes) (reverse useMtx : Bool) :
    (newMemDBIteratorMtxChoice bt t start «end» reverse useMtx).abs =
      CosmosDb.newMemDBIteratorMtxChoice bt t start «end» reverse useMtx := by
  rw [State.abs, future_newMemDBIteratorMtxChoice hbt]
  rfl

end Start

/-! ## What each step does -/

section Steps

variable {s s' : State}

/-- Only `Close` cancels the context. -/
theorem Internal.ctxDone_eq (h : Internal s s') : s'.ctxDone = s.ctxDone := by
  cases h <;> rfl

/-- An internal step neither enters nor leaves `Close`. -/
theorem Internal.closing_eq (h : Internal s s') : s'.caller.closing = s.caller.closing := by
  cases h <;> simp_all [Caller.closing]

/-- The goroutine sends what it was going to, unless the cancelled context
stops it, and then it sends nothing more. -/
theorem Internal.sent_future (h : Internal s s') :
    s'.ch.sent ++ s'.g.future = s.ch.sent ++ s.g.future ∨
      (s.ctxDone = true ∧ s'.ch.sent ++ s'.g.future = s.ch.sent) := by
  cases h with
  | skip hg => exact .inl (by rw [hg, future_skip])
  | abort hg hsk hab => exact .inl (by rw [hg, future_abort hsk hab]; rfl)
  | cancelled _ _ _ hdone => exact .inr ⟨hdone, List.append_nil _⟩
  | send hg hsk hab hc =>
    obtain ⟨-, -, hsent⟩ := Chan.send_spec hc
    exact .inl (by rw [hg, future_send hsk hab, List.append_cons]; exact congrArg (· ++ _) hsent)
  | walkEnd hg => exact .inl (by rw [hg]; rfl)
  | closeCh hg => exact .inl (by rw [hg]; rfl)
  | exit hg => exact .inl (by rw [hg]; rfl)
  | @recv r c _ hr =>
    cases r with
    | none => exact .inl (by rw [(Chan.recv_none_spec hr).2.2])
    | some x => exact .inl (by rw [← (Chan.recv_some_spec hr).2.2.1])
  | drain _ hr => exact .inl (by rw [← (Chan.recv_some_spec hr).2.2.1])
  | drained => exact .inl rfl

/-- The channel is closed exactly once the goroutine has closed it. -/
theorem Internal.closed_eq (hi : s.ch.closed = s.g.hasClosed) (h : Internal s s') :
    s'.ch.closed = s'.g.hasClosed := by
  cases h with
  | send hg _ _ hc => simpa [(Chan.send_spec hc).2.1, hg, Walk.hasClosed] using hi
  | @recv r c _ hr =>
    cases r with
    | none => rwa [(Chan.recv_none_spec hr).2.2]
    | some x => rwa [(Chan.recv_some_spec hr).2.1]
  | drain _ hr => rwa [(Chan.recv_some_spec hr).2.1]
  | closeCh => rfl
  | exit hg => simpa [hg, Walk.hasClosed] using hi
  | _ => simp_all [Walk.hasClosed]

/-- The goroutine holds the read lock until it exits. -/
theorem Internal.rlocked_eq (hi : s.rlocked = (s.useMtx && s.g.running)) (h : Internal s s') :
    s'.rlocked = (s'.useMtx && s'.g.running) := by
  cases h with
  | exit hg =>
    cases hm : s.useMtx <;> simp_all [Walk.running]
  | _ => simp_all [Walk.running]

end Steps

/-! ## The invariant -/

/-- What holds of every reachable state, for a goroutine that would send
`full` if never cancelled. -/
structure Inv (full : List (Bytes × Bytes)) (s : State) : Prop where
  sent_prefix : s.ch.sent ++ s.g.future <+: full
  sent_eq : s.ctxDone = false → s.ch.sent ++ s.g.future = full
  closed_eq : s.ch.closed = s.g.hasClosed
  ctxDone_eq : s.ctxDone = s.caller.closing
  idle_invalid : s.caller = .idle → s.item = none → s.ch.buf = [] ∧ s.ch.closed = true
  closed_caller : s.caller = .closed → s.ch.buf = [] ∧ s.ch.closed = true ∧ s.item = none
  rlocked_eq : s.rlocked = (s.useMtx && s.g.running)

section Invariant

variable {full : List (Bytes × Bytes)} {s s' : State}

/-- A walk that has not closed the channel leaves it open. -/
theorem Inv.open_of_walking (hi : Inv full s) (hg : s.g.hasClosed = false) :
    s.ch.closed = false := by
  rw [hi.closed_eq, hg]

theorem Internal.idle_invalid (hi : Inv full s) (h : Internal s s') :
    s'.caller = .idle → s'.item = none → s'.ch.buf = [] ∧ s'.ch.closed = true := by
  intro hc hn
  cases h with
  | skip hg | abort hg | cancelled hg | send hg | walkEnd hg | closeCh hg =>
    -- the walk goes on, so the channel is open and the caller was not done
    have hopen := hi.open_of_walking (by simp [hg, Walk.hasClosed])
    exact absurd (hi.idle_invalid hc hn).2 (by simp [hopen])
  | exit => exact hi.idle_invalid hc hn
  | @recv r c _ hr =>
    -- the receive that answered nil found the channel closed and drained
    cases r with
    | none =>
      obtain ⟨hbuf, hclosed, rfl⟩ := Chan.recv_none_spec hr
      exact ⟨hbuf, hclosed⟩
    | some x => simp at hn
  | drain hd => simp_all
  | drained hd => simp at hc

theorem Internal.closed_caller (hi : Inv full s) (h : Internal s s') :
    s'.caller = .closed → s'.ch.buf = [] ∧ s'.ch.closed = true ∧ s'.item = none := by
  intro hc
  cases h with
  | skip hg | abort hg | cancelled hg | send hg | walkEnd hg | closeCh hg =>
    have hopen := hi.open_of_walking (by simp [hg, Walk.hasClosed])
    exact absurd (hi.closed_caller hc).2.1 (by simp [hopen])
  | exit => exact hi.closed_caller hc
  | recv hr => simp at hc
  | drain hd => simp_all
  | drained _ hr =>
    obtain ⟨hbuf, hclosed, -⟩ := Chan.recv_none_spec hr
    exact ⟨hbuf, hclosed, rfl⟩

theorem Inv.internal (hi : Inv full s) (h : Internal s s') : Inv full s' where
  sent_prefix := by
    rcases h.sent_future with heq | ⟨-, heq⟩
    · rw [heq]
      exact hi.sent_prefix
    · rw [heq]
      exact (List.prefix_append _ _).trans hi.sent_prefix
  sent_eq hd := by
    have hd' : s.ctxDone = false := by rwa [h.ctxDone_eq] at hd
    rcases h.sent_future with heq | ⟨hdone, -⟩
    · rw [heq, hi.sent_eq hd']
    · simp [hdone] at hd'
  closed_eq := h.closed_eq hi.closed_eq
  ctxDone_eq := by rw [h.ctxDone_eq, h.closing_eq, hi.ctxDone_eq]
  idle_invalid := h.idle_invalid hi
  closed_caller := h.closed_caller hi
  rlocked_eq := h.rlocked_eq hi.rlocked_eq

theorem Inv.call (hi : Inv full s) (h : Call s s') : Inv full s' := by
  cases h with
  | next hc =>
    exact { hi with
      ctxDone_eq := by simpa [hc, Caller.closing] using hi.ctxDone_eq
      idle_invalid := by simp
      closed_caller := by simp }
  | close =>
    exact { hi with
      sent_eq := by simp
      ctxDone_eq := rfl
      idle_invalid := by simp
      closed_caller := by simp }

theorem Inv.step (hi : Inv full s) (h : Step s s') : Inv full s' :=
  h.elim hi.internal hi.call

/-- The invariant of every state an interleaving reaches from one where it
holds. -/
theorem inv_of_reachable {s₀ : State} (h₀ : Inv full s₀) (hs : Relation.ReflTransGen Step s₀ s) :
    Inv full s := by
  induction hs with
  | refl => exact h₀
  | tail _ hst ih => exact ih.step hst

theorem inv_newMemDBIteratorMtxChoice {T : Type} (bt : BTreeOps T) (t : T)
    (start «end» : Option Bytes) (reverse useMtx : Bool) :
    Inv (newMemDBIteratorMtxChoice bt t start «end» reverse useMtx).g.future
      (newMemDBIteratorMtxChoice bt t start «end» reverse useMtx) where
  sent_prefix := by simp [newMemDBIteratorMtxChoice]
  sent_eq _ := by simp [newMemDBIteratorMtxChoice]
  closed_eq := rfl
  ctxDone_eq := rfl
  idle_invalid := by simp [newMemDBIteratorMtxChoice]
  closed_caller := by simp [newMemDBIteratorMtxChoice]
  rlocked_eq := by simp [newMemDBIteratorMtxChoice, Walk.running]

/-- Only `Close` sets the context's flag, and nothing clears it. -/
theorem Step.ctxDone_of_false (h : Step s s') (hd : s'.ctxDone = false) : s.ctxDone = false := by
  rcases h with h | h
  · rwa [h.ctxDone_eq] at hd
  · cases h with
    | next => exact hd
    | close => simp at hd

end Invariant

/-! ## Refinement of the sequential iterator -/

section Refinement

variable {full : List (Bytes × Bytes)} {s s' : State}

/-- Until `Close`, an internal step does not move the sequential view: the
goroutine's steps only carry items from what it will send into the buffer,
and a receive the caller waits in already counted as done. -/
theorem abs_internal (hi : Inv full s) (hd : s'.ctxDone = false) (h : Internal s s') :
    s'.abs = s.abs := by
  cases h with
  | skip hg => simp only [State.abs, hg, future_skip]
  | abort hg hsk hab =>
    have hfut : s.g.future = [] := by rw [hg, future_abort hsk hab]
    simp only [State.abs, hfut]
    rfl
  | cancelled _ _ _ hdone => simp [hdone] at hd
  | send hg hsk hab hc =>
    simp only [State.abs, hg, future_send hsk hab, (Chan.send_spec hc).1, List.append_assoc,
      List.singleton_append]
  | walkEnd hg => simp only [State.abs, hg, Walk.future, visit_nil]
  | closeCh hg => simp only [State.abs, hg, Walk.future, Chan.close_buf]
  | exit hg => simp only [State.abs, hg, Walk.future]
  | @recv r c hc hr =>
    cases r with
    | none =>
      -- a nil receive: the channel is closed and drained, so nothing more comes
      obtain ⟨hbuf, hclosed, rfl⟩ := Chan.recv_none_spec hr
      have hfut : s.g.future = [] := future_of_hasClosed (by rw [← hi.closed_eq, hclosed])
      simp [State.abs, hc, hbuf, hfut, MemDBIterator.Next, MemDBIterator.receive]
    | some x =>
      obtain ⟨hbuf, -⟩ := Chan.recv_some_spec hr
      simp [State.abs, hc, hbuf, MemDBIterator.Next, MemDBIterator.receive]
  | drain hc => simp [hi.ctxDone_eq, hc, Caller.closing] at hd
  | drained hc => simp [hi.ctxDone_eq, hc, Caller.closing] at hd

/-- `Next` from an idle caller is the sequential iterator's `Next`. -/
theorem abs_call_next {x : Bytes × Bytes} (hc : s.caller = .idle) (hx : s.item = some x) :
    memIterOps.valid s.abs = (true, s.abs) ∧
      ({ s with caller := .receiving } : State).abs = memIterOps.next s.abs := by
  have habs : s.abs = ⟨s.ch.buf ++ s.g.future, s.item, s.start, s.«end», s.useMtx⟩ := by
    simp [State.abs, hc]
  rw [habs]
  exact ⟨by simp [memIterOps, MemDBIterator.Valid, hx], rfl⟩

end Refinement

/-- The goroutine model refines the sequential one: over a tree that
behaves as documented, until `Close` every state an interleaving reaches
stands for a state the sequential iterator reaches from its creation through
`Valid` and `Next`, with the same current item. -/
theorem memDBIterator_goroutine_refines {T : Type} (bt : BTreeOps T) (contents : T → KVMap)
    (hbt : IsOrderedBTree bt contents) (t : T) (start «end» : Option Bytes) (reverse useMtx : Bool)
    (s : State)
    (hs : Relation.ReflTransGen Step (newMemDBIteratorMtxChoice bt t start «end» reverse useMtx) s)
    (hd : s.ctxDone = false) :
    memIterOps.Reaches (CosmosDb.newMemDBIteratorMtxChoice bt t start «end» reverse useMtx) s.abs := by
  induction hs with
  | refl =>
    rw [abs_newMemDBIteratorMtxChoice hbt]
    exact .refl
  | @tail u u' hu hstep ih =>
    have hi := inv_of_reachable (inv_newMemDBIteratorMtxChoice bt t start «end» reverse useMtx) hu
    have hdu := hstep.ctxDone_of_false hd
    rcases hstep with hint | hcall
    · rw [abs_internal hi hd hint]
      exact ih hdu
    · cases hcall with
      | next hc hx =>
        -- the one step that moves the sequential iterator
        obtain ⟨hvalid, habs⟩ := abs_call_next hc hx
        rw [habs]
        exact .next (ih hdu) hvalid
      | close => simp at hd

/-- A reverse iterator from `[1]` over `{[1] ↦ [10], [5] ↦ [50]}`, as the
goroutine model starts it. -/
def sampleStart : State :=
  newMemDBIteratorMtxChoice sortedMapBTree (((SortedMap.empty : KVMap).set [1] [10]).set [5] [50])
    (some [1]) none true true

example : sampleStart.g.future = [([5], [50]), ([1], [10])] := by decide

theorem memDBIterator_goroutine_refines_new :
    memIterOps.Reaches
      (CosmosDb.newMemDBIteratorMtxChoice sortedMapBTree
        (((SortedMap.empty : KVMap).set [1] [10]).set [5] [50]) (some [1]) none true true)
      sampleStart.abs :=
  memDBIterator_goroutine_refines sortedMapBTree id sortedMapBTree_isOrdered
    (((SortedMap.empty : KVMap).set [1] [10]).set [5] [50]) (some [1]) none true true _ .refl rfl

/-- Nothing is lost, duplicated or reordered, whatever the interleaving: what
the caller has taken from the channel, what is buffered and what the
goroutine will still send are, in order, a prefix of the traversal, all of it
unless `Close` cancelled the walk; and an iterator that turns invalid before
`Close` has received every item of the traversal, once. -/
theorem memDBIterator_goroutine_fifo {T : Type} (bt : BTreeOps T) (contents : T → KVMap)
    (hbt : IsOrderedBTree bt contents) (t : T) (start «end» : Option Bytes) (reverse useMtx : Bool)
    (s : State)
    (hs : Relation.ReflTransGen Step (newMemDBIteratorMtxChoice bt t start «end» reverse useMtx) s) :
    s.ch.received ++ s.ch.buf ++ s.g.future <+: memDBTraverse bt t start «end» reverse ∧
      (s.ctxDone = false →
        s.ch.received ++ s.ch.buf ++ s.g.future = memDBTraverse bt t start «end» reverse) ∧
      (s.caller = .idle → s.item = none → s.ch.received = memDBTraverse bt t start «end» reverse) := by
  have hi := inv_of_reachable (inv_newMemDBIteratorMtxChoice bt t start «end» reverse useMtx) hs
  rw [future_newMemDBIteratorMtxChoice hbt] at hi
  rw [s.ch.fifo]
  refine ⟨hi.sent_prefix, hi.sent_eq, fun hc hn => ?_⟩
  -- Valid answered false: the receive found the channel closed and drained
  obtain ⟨hbuf, hclosed⟩ := hi.idle_invalid hc hn
  have hd : s.ctxDone = false := by rw [hi.ctxDone_eq, hc]; rfl
  have hfut : s.g.future = [] := future_of_hasClosed (by rw [← hi.closed_eq, hclosed])
  rw [Chan.received_eq_sent_of_buf_nil hbuf, ← hi.sent_eq hd, hfut, List.append_nil]

theorem memDBIterator_goroutine_fifo_new :
    sampleStart.ch.received ++ sampleStart.ch.buf ++ sampleStart.g.future <+:
        memDBTraverse sortedMapBTree (((SortedMap.empty : KVMap).set [1] [10]).set [5] [50])
          (some [1]) none true ∧
      (sampleStart.ctxDone = false →
        sampleStart.ch.received ++ sampleStart.ch.buf ++ sampleStart.g.future =
          memDBTraverse sortedMapBTree (((SortedMap.empty : KVMap).set [1] [10]).set [5] [50])
            (some [1]) none true) ∧
      (sampleStart.caller = .idle → sampleStart.item = none →
        sampleStart.ch.received =
          memDBTraverse sortedMapBTree (((SortedMap.empty : KVMap).set [1] [10]).set [5] [50])
            (some [1]) none true) :=
  memDBIterator_goroutine_fifo sortedMapBTree id sortedMapBTree_isOrdered
    (((SortedMap.empty : KVMap).set [1] [10]).set [5] [50]) (some [1]) none true true _ .refl

/-! ## `Next` and `Close` return -/

/-- What the goroutine has left to do: an item still to offer costs two
steps (a send, then a receive), a closing walk at most three. -/
def Walk.weight : Walk → ℕ
  | .walking rest _ _ => 2 * rest.length + 3
  | .returned => 2
  | .closedCh => 1
  | .exited => 0

/-- Whether the caller waits in a receive. -/
def Caller.waiting : Caller → ℕ
  | .receiving | .draining => 1
  | _ => 0

/-- A bound on the internal steps left. -/
def State.measure (s : State) : ℕ := s.g.weight + s.ch.buf.length + s.caller.waiting

section Progress

variable {full : List (Bytes × Bytes)} {s s' : State}

theorem Internal.measure_lt (h : Internal s s') : s'.measure < s.measure := by
  cases h with
  | skip hg | abort hg | cancelled hg | walkEnd hg | closeCh hg | exit hg =>
    simp [State.measure, hg, Walk.weight]
  | send hg _ _ hc =>
    simp [State.measure, hg, Walk.weight, (Chan.send_spec hc).1]
    omega
  | @recv r c hc hr =>
    cases r with
    | none =>
      obtain ⟨-, -, rfl⟩ := Chan.recv_none_spec hr
      simp [State.measure, hc, Caller.waiting]
    | some x =>
      simp [State.measure, hc, Caller.waiting, (Chan.recv_some_spec hr).1]
  | drain hc hr =>
    simp [State.measure, hc, (Chan.recv_some_spec hr).1]
  | drained hc hr =>
    obtain ⟨-, -, rfl⟩ := Chan.recv_none_spec hr
    simp [State.measure, hc, Caller.waiting]

/-- While the channel is empty and open the goroutine can always move: it
has an item to offer (and a free slot for it), its walk is over, or it is
about to close the channel. -/
theorem Inv.goroutine_progress (hi : Inv full s) (hbuf : s.ch.buf = [])
    (hopen : s.ch.closed = false) : ∃ s', Internal s s' := by
  cases hg : s.g with
  | walking rest sk ab =>
    cases rest with
    | nil => exact ⟨_, .walkEnd hg⟩
    | cons x rest =>
      by_cases hsk : (sk == some x.1) = true
      · obtain rfl : sk = some x.1 := by simpa using hsk
        exact ⟨_, .skip hg⟩
      · have hsk' : (sk == some x.1) = false := by simpa using hsk
        by_cases hab : (ab.any fun a => decide (x.1 < a)) = true
        · exact ⟨_, .abort hg hsk' hab⟩
        · have hsend : (s.ch.send x).isSome :=
            (Chan.send_isSome _ _).mpr ⟨hopen, by simp [hbuf, chBufferSize]⟩
          obtain ⟨c, hc⟩ := Option.isSome_iff_exists.mp hsend
          exact ⟨_, .send hg hsk' (by simpa using hab) hc⟩
  | returned => exact ⟨_, .closeCh hg⟩
  | closedCh | exited => simp [hi.closed_eq, hg, Walk.hasClosed] at hopen

/-- No deadlock: a caller waiting in a receive can always be served, by an
item, by the closed channel, or by a step of the goroutine. -/
theorem Inv.progress (hi : Inv full s) (hw : s.caller = .receiving ∨ s.caller = .draining) :
    ∃ s', Internal s s' := by
  by_cases hr : s.ch.recv.isSome
  · obtain ⟨⟨r, c⟩, hrc⟩ := Option.isSome_iff_exists.mp hr
    rcases hw with hc | hc
    · exact ⟨_, .recv hc hrc⟩
    · cases r with
      | none => exact ⟨_, .drained hc hrc⟩
      | some x => exact ⟨_, .drain hc hrc⟩
  · obtain ⟨hbuf, hopen⟩ : s.ch.buf = [] ∧ s.ch.closed = false := by
      simpa [Chan.recv_isSome] using hr
    exact hi.goroutine_progress hbuf hopen

end Progress

/-- `Next` and `Close` never wait forever: from every reachable state the
internal steps run out whatever the scheduler does, and when none is left
the caller is back from its call. -/
theorem memDBIterator_calls_return {T : Type} (bt : BTreeOps T) (t : T) (start «end» : Option Bytes)
    (reverse useMtx : Bool) (s : State)
    (hs : Relation.ReflTransGen Step (newMemDBIteratorMtxChoice bt t start «end» reverse useMtx) s) :
    Acc (fun a b => Internal b a) s ∧
      ∀ s', Relation.ReflTransGen Internal s s' → (∀ s'', ¬ Internal s' s'') →
        s'.caller = .idle ∨ s'.caller = .closed := by
  refine ⟨(Subrelation.wf (fun h => Internal.measure_lt h) (measure State.measure).wf).apply s, ?_⟩
  intro s' hs' hstuck
  have hi := inv_of_reachable (inv_newMemDBIteratorMtxChoice bt t start «end» reverse useMtx)
    (hs.trans (Relation.ReflTransGen.mono (fun _ _ h => Or.inl h) _ _ hs'))
  cases hc : s'.caller with
  | idle => exact .inl rfl
  | closed => exact .inr rfl
  | receiving =>
    obtain ⟨s'', h⟩ := hi.progress (.inl hc)
    exact absurd h (hstuck s'')
  | draining =>
    obtain ⟨s'', h⟩ := hi.progress (.inr hc)
    exact absurd h (hstuck s'')

theorem memDBIterator_calls_return_new :
    Acc (fun a b => Internal b a) sampleStart ∧
      ∀ s', Relation.ReflTransGen Internal sampleStart s' → (∀ s'', ¬ Internal s' s'') →
        s'.caller = .idle ∨ s'.caller = .closed :=
  memDBIterator_calls_return sortedMapBTree (((SortedMap.empty : KVMap).set [1] [10]).set [5] [50])
    (some [1]) none true true _ .refl

/-- The read lock the iterator takes is held exactly while its goroutine
runs, and when `Close` returns the goroutine has ended its walk and closed
the channel, which is drained, and the iterator is invalid: the goroutine's
one step left is its exit, which releases the lock. -/
theorem memDBIterator_close_releases {T : Type} (bt : BTreeOps T) (t : T) (start «end» : Option Bytes)
    (reverse useMtx : Bool) (s : State)
    (hs : Relation.ReflTransGen Step (newMemDBIteratorMtxChoice bt t start «end» reverse useMtx) s) :
    s.rlocked = (s.useMtx && s.g.running) ∧
      (s.caller = .closed →
        s.ch.buf = [] ∧ s.ch.closed = true ∧ s.item = none ∧ s.g.hasClosed = true) := by
  have hi := inv_of_reachable (inv_newMemDBIteratorMtxChoice bt t start «end» reverse useMtx) hs
  refine ⟨hi.rlocked_eq, fun hc => ?_⟩
  obtain ⟨hbuf, hclosed, hitem⟩ := hi.closed_caller hc
  exact ⟨hbuf, hclosed, hitem, by rw [← hi.closed_eq, hclosed]⟩

theorem memDBIterator_close_releases_new :
    sampleStart.rlocked = (sampleStart.useMtx && sampleStart.g.running) ∧
      (sampleStart.caller = .closed →
        sampleStart.ch.buf = [] ∧ sampleStart.ch.closed = true ∧ sampleStart.item = none ∧
          sampleStart.g.hasClosed = true) :=
  memDBIterator_close_releases sortedMapBTree (((SortedMap.empty : KVMap).set [1] [10]).set [5] [50])
    (some [1]) none true true _ .refl

/-! ## A caller that stops calling

`Iterator` takes the read lock "until the iterator is closed". While the
caller makes no call, only the goroutine steps, and the receive the caller
waits in, if any, completes. The goroutine then sends until the buffer is
full and waits there, read lock held, for a receive that never comes. A
caller that goes on to `Set` or `Delete` on the same database waits for the
write lock, which no reader may hold, and so never returns. -/

section Stalled

variable {s s' : State}

/-- What the iterator has still to deliver: the items buffered and those
the goroutine will send. -/
def State.pending (s : State) : ℕ := s.ch.buf.length + s.g.future.length

/-- The caller makes no call, and the goroutine has more to deliver than the
caller's one receive and the buffer can take. -/
structure Stalled (s : State) : Prop where
  ctx : s.ctxDone = false
  backlog : (s.caller = .receiving ∧ chBufferSize + 1 < s.pending) ∨
    (s.caller = .idle ∧ chBufferSize < s.pending)

/-- A stalled goroutine has items left to send: the buffer holds at most
`chBufferSize`. -/
theorem Stalled.future_ne_nil (h : Stalled s) : s.g.future ≠ [] := by
  have hle := s.ch.buf_le
  intro hf
  rcases h.backlog with ⟨-, hp⟩ | ⟨-, hp⟩ <;>
    simp only [State.pending, hf, List.length_nil, Nat.add_zero] at hp <;> omega

/-- One internal step of a stalled iterator: it stays stalled, and the read
lock stays as it was, since the goroutine never reaches its exit. -/
theorem Stalled.internal (h : Stalled s) (hst : Internal s s') :
    Stalled s' ∧ s'.rlocked = s.rlocked := by
  have hf := h.future_ne_nil
  cases hst with
  | skip hg =>
    refine ⟨⟨h.ctx, ?_⟩, rfl⟩
    simpa only [State.pending, hg, future_skip] using h.backlog
  | @send x rest sk ab c hg hsk hab hc =>
    -- the item moves from what the goroutine will send to the buffer
    obtain ⟨hbuf, -, -⟩ := Chan.send_spec hc
    refine ⟨⟨h.ctx, ?_⟩, rfl⟩
    have hp : State.pending { s with g := .walking rest sk ab, ch := c } = s.pending := by
      simp only [State.pending, hbuf, hg, future_send hsk hab, List.length_append, List.length_cons,
        List.length_nil]
      omega
    rw [hp]
    exact h.backlog
  | recv hc hr =>
    -- the caller's one receive: it takes at most one item, and then waits no more
    refine ⟨⟨h.ctx, .inr ⟨rfl, ?_⟩⟩, rfl⟩
    rcases h.backlog with ⟨-, hp⟩ | ⟨hidle, -⟩
    · rename_i r c
      cases r with
      | none =>
        rw [(Chan.recv_none_spec hr).2.2]
        exact Nat.lt_of_succ_lt hp
      | some x =>
        have hbuf := (Chan.recv_some_spec hr).1
        simp only [State.pending, hbuf, List.length_cons] at hp ⊢
        omega
    · rw [hc] at hidle
      cases hidle
  | cancelled _ _ _ hdone => rw [h.ctx] at hdone; cases hdone
  | abort hg hsk hab => exact absurd (by rw [hg]; exact future_abort hsk hab) hf
  | walkEnd hg => exact absurd (by rw [hg]; rfl) hf
  | closeCh hg => exact absurd (by rw [hg]; rfl) hf
  | exit hg => exact absurd (by rw [hg]; rfl) hf
  | drain hc => rcases h.backlog with ⟨h', -⟩ | ⟨h', -⟩ <;> rw [hc] at h' <;> cases h'
  | drained hc => rcases h.backlog with ⟨h', -⟩ | ⟨h', -⟩ <;> rw [hc] at h' <;> cases h'

/-- Every run of internal steps from a stalled iterator keeps it stalled and
keeps the read lock as it was. -/
theorem Stalled.run (h : Stalled s) (hs : Relation.ReflTransGen Internal s s') :
    Stalled s' ∧ s'.rlocked = s.rlocked := by
  induction hs with
  | refl => exact ⟨h, rfl⟩
  | tail _ hst ih =>
    obtain ⟨h', hl⟩ := ih
    obtain ⟨h'', hl'⟩ := h'.internal hst
    exact ⟨h'', hl'.trans hl⟩

/-- A locking iterator over a range of more than `chBufferSize + 1` entries
keeps the database read-locked for as long as its caller makes no call:
in every run of the goroutine's steps the goroutine still runs, still holds
the read lock, and the caller has received at most the first item. So the
caller's own `Set` or `Delete` on the database, made before `Next` or
`Close`, waits for the write lock forever. -/
theorem memDBIterator_lock_held_while_undelivered {T : Type} (bt : BTreeOps T)
    (contents : T → KVMap) (hbt : IsOrderedBTree bt contents) (t : T) (start «end» : Option Bytes)
    (reverse : Bool) (hlong : chBufferSize + 1 < (mapRange (contents t) start «end»).length)
    {s : State}
    (hs : Relation.ReflTransGen Internal (newMemDBIteratorMtxChoice bt t start «end» reverse true) s) :
    s.rlocked = true ∧ s.g.running = true ∧ s.ctxDone = false := by
  -- the new iterator waits in its priming receive, with the whole range to deliver
  have hfuture : (newMemDBIteratorMtxChoice bt t start «end» reverse true).pending =
      (mapRange (contents t) start «end»).length := by
    rw [State.pending, future_newMemDBIteratorMtxChoice hbt, memDBTraverse_eq hbt]
    split <;> simp [newMemDBIteratorMtxChoice]
  have h₀ : Stalled (newMemDBIteratorMtxChoice bt t start «end» reverse true) :=
    ⟨rfl, .inl ⟨rfl, by rw [hfuture]; exact hlong⟩⟩
  obtain ⟨h, hl⟩ := h₀.run hs
  -- a goroutine with items left to send is still walking
  have hrun : s.g.running = true := by
    have hf := h.future_ne_nil
    cases hg : s.g <;> simp_all [Walk.future, Walk.running]
  exact ⟨hl, hrun, h.ctx⟩

theorem memDBIterator_lock_held_while_undelivered_run :
    chBufferSize + 1 < (mapRange (id ((List.range 66).foldl
        (fun (m : KVMap) (i : ℕ) => m.set [Fin.ofNat 256 i] []) SortedMap.empty)) none none).length ∧
      (newMemDBIteratorMtxChoice sortedMapBTree ((List.range 66).foldl
          (fun (m : KVMap) (i : ℕ) => m.set [Fin.ofNat 256 i] []) SortedMap.empty)
          none none false true).rlocked = true ∧
      (newMemDBIteratorMtxChoice sortedMapBTree ((List.range 66).foldl
          (fun (m : KVMap) (i : ℕ) => m.set [Fin.ofNat 256 i] []) SortedMap.empty)
          none none false true).g.running = true ∧
      (newMemDBIteratorMtxChoice sortedMapBTree ((List.range 66).foldl
          (fun (m : KVMap) (i : ℕ) => m.set [Fin.ofNat 256 i] []) SortedMap.empty)
          none none false true).ctxDone = false := by
  have hlong : chBufferSize + 1 < (mapRange (id ((List.range 66).foldl
      (fun (m : KVMap) (i : ℕ) => m.set [Fin.ofNat 256 i] []) SortedMap.empty)) none none).length := by
    decide
  exact ⟨hlong, memDBIterator_lock_held_while_undelivered sortedMapBTree id sortedMapBTree_isOrdered _
    none none false hlong .refl⟩

end Stalled

end MemDBGoroutine

end CosmosDb
