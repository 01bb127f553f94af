import Mathlib.Data.List.Infix

/-!
# Buffered channels

A Go channel with `cap` buffer slots, between a goroutine that sends into it
and one that receives from it. A send blocks while the buffer is full, a
receive while the buffer is empty and the channel open; once the channel is
closed, a receive on the empty buffer returns at once with nothing (the zero
value with `ok = false`). Sending on a closed channel panics in Go; `send` is
not enabled there, and the senders that use this module close only after
their last send.

Besides its buffer a channel keeps two histories, everything sent and
everything received, and carries the FIFO law relating them as a field: what
was received, followed by what is still buffered, is what was sent. No item
is lost, duplicated or reordered, by construction.
-/

namespace CosmosDb

/-- A channel of capacity `cap` and the history of what went through it. -/
structure Chan (α : Type) (cap : ℕ) where
  buf : List α
  closed : Bool
  sent : List α
  received : List α
  fifo : received ++ buf = sent
  buf_le : buf.length ≤ cap

namespace Chan

variable {α : Type} {cap : ℕ}

/-- `make(chan α, cap)`. -/
def make : Chan α cap := ⟨[], false, [], [], rfl, Nat.zero_le _⟩

/-- `c <- x`, when it does not block: the buffer has a free slot. -/
def send (c : Chan α cap) (x : α) : Option (Chan α cap) :=
  if h : c.closed = false ∧ c.buf.length < cap then
    some ⟨c.buf ++ [x], c.closed, c.sent ++ [x], c.received,
      by rw [← List.append_assoc, c.fifo], by rw [List.length_append, List.length_singleton]; exact h.2⟩
  else none

/-- `x, ok := <-c`, when it does not block: the oldest buffered item, or
`none` once the channel is closed and drained. -/
def recv (c : Chan α cap) : Option (Option α × Chan α cap) :=
  match h : c.buf with
  | x :: rest =>
    some (some x, ⟨rest, c.closed, c.sent, c.received ++ [x],
      by rw [List.append_assoc, List.singleton_append, ← h, c.fifo],
      by have hle := c.buf_le; rw [h, List.length_cons] at hle; omega⟩)
  | [] => if c.closed then some (none, c) else none

/-- `close(c)`. -/
def close (c : Chan α cap) : Chan α cap := { c with closed := true }

@[simp] theorem make_buf : (make : Chan α cap).buf = [] := rfl
@[simp] theorem make_closed : (make : Chan α cap).closed = false := rfl
@[simp] theorem make_sent : (make : Chan α cap).sent = [] := rfl
@[simp] theorem close_buf (c : Chan α cap) : c.close.buf = c.buf := rfl
@[simp] theorem close_closed (c : Chan α cap) : c.close.closed = true := rfl
@[simp] theorem close_sent (c : Chan α cap) : c.close.sent = c.sent := rfl
@[simp] theorem close_received (c : Chan α cap) : c.close.received = c.received := rfl

theorem received_eq_sent_of_buf_nil {c : Chan α cap} (h : c.buf = []) : c.received = c.sent := by
  rw [← c.fifo, h, List.append_nil]

/-! ## What a send and a receive do -/

theorem send_spec {c c' : Chan α cap} {x : α} (h : c.send x = some c') :
    c'.buf = c.buf ++ [x] ∧ c'.closed = c.closed ∧ c'.sent = c.sent ++ [x] := by
  unfold send at h
  split at h
  · cases h
    exact ⟨rfl, rfl, rfl⟩
  · cases h

theorem send_isSome (c : Chan α cap) (x : α) :
    (c.send x).isSome ↔ c.closed = false ∧ c.buf.length < cap := by
  unfold send
  split
  · next h => simpa using h
  · next h => simpa using h

theorem recv_some_spec {c c' : Chan α cap} {x : α} (h : c.recv = some (some x, c')) :
    c.buf = x :: c'.buf ∧ c'.closed = c.closed ∧ c'.sent = c.sent ∧
      c'.received = c.received ++ [x] := by
  unfold recv at h
  split at h
  · next y rest hbuf =>
    cases h
    exact ⟨hbuf, rfl, rfl, rfl⟩
  · split at h <;> cases h

theorem recv_none_spec {c c' : Chan α cap} (h : c.recv = some (none, c')) :
    c.buf = [] ∧ c.closed = true ∧ c' = c := by
  unfold recv at h
  split at h
  · cases h
  · next hbuf =>
    split at h
    · next hclosed =>
      cases h
      exact ⟨hbuf, hclosed, rfl⟩
    · cases h

/-- A receive is enabled exactly when an item is buffered or the channel is
closed. -/
theorem recv_isSome (c : Chan α cap) : c.recv.isSome ↔ c.buf ≠ [] ∨ c.closed = true := by
  unfold recv
  split
  · simp_all
  · next hbuf => split <;> simp_all

end Chan

end CosmosDb
