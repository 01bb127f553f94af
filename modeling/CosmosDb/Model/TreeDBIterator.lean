import CosmosDb.Model.DB
import CosmosDb.Lib.Iterator

/-!
# CosmosDb — TreeDB's forward iterator and its IAVL fallback

`treedb_iterator.go`. The TreeDB library's `kvstore.Iterator` is modelled by
what it has still to yield and the error it reports (`KVIterator`).
`boundedKVIterator` wraps a source and enforces `[start, end)` itself: its
`seek` skips keys below `start` and stops at the first key at or past `end`.
Over a source ascending by key it yields exactly the source's entries in
`[start, end)`; every state a caller reaches is one `seek` left, and the run
ends on the first entry at or past both bounds, not consumed, for good
(`newBoundedKVIterator_yields_domain`).

`forwardIteratorWithIAVLFallback` asks the library for `[start, end)`; when
the bounds have the shape of an IAVL version range
(`isPrefixedIAVLVersionRange`) and the answer is empty, it retries with an
open end, bounded locally, and when that is empty too, it scans the prefix
before the version byte, bounded locally again.

Against a library that answers every other range exactly and may answer an
IAVL version range with nothing (`ExactUnlessIAVL`), the result yields
exactly the stored range whenever the part of `start` before the version is
nonempty or the range holds a key (`forwardIteratorWithIAVLFallback_yields`):
the open-end retry is not an IAVL range, so it is exact, and the prefix scan
only runs when the range is empty. With 9-byte bounds and no stored key in the range, the prefix
is empty and `cpIncr` panics (`forwardIteratorWithIAVLFallback_panics`).
-/

namespace CosmosDb

-- ---------------------------------------------------------------------------
-- The library's iterator
-- ---------------------------------------------------------------------------

/-- A `kvstore.Iterator` of the TreeDB library: the entries it has still to
yield, in order, and the error it reports. -/
structure KVIterator where
  rest : List (Bytes × Bytes)
  err : Option DbError
  deriving DecidableEq, Repr

namespace KVIterator

def Valid (it : KVIterator) : Bool := !it.rest.isEmpty

def Next (it : KVIterator) : KVIterator := { it with rest := it.rest.tail }

def Key (it : KVIterator) : Bytes := (it.rest.headD ([], [])).1

def Value (it : KVIterator) : Bytes := (it.rest.headD ([], [])).2

def Error (it : KVIterator) : Option DbError := it.err

end KVIterator

-- ---------------------------------------------------------------------------
-- `boundedKVIterator`
-- ---------------------------------------------------------------------------

/-- `boundedKVIterator`. -/
structure BoundedKVIterator where
  src : KVIterator
  start : Option Bytes
  «end» : Option Bytes
  valid : Bool

/-- The loop of `boundedKVIterator.seek` over the source's remaining entries:
a key below `start` is skipped, a key at or past `end` stops the loop
invalid, any other key stops it valid. -/
def boundedSeek (start «end» : Option Bytes) :
    List (Bytes × Bytes) → List (Bytes × Bytes) × Bool
  | [] => ([], false)
  | (key, value) :: rest =>
    if start.any fun s => decide (key < s) then boundedSeek start «end» rest
    else if «end».any fun e => decide (e ≤ key) then ((key, value) :: rest, false)
    else ((key, value) :: rest, true)

namespace BoundedKVIterator

/-- `seek`. -/
def seek (it : BoundedKVIterator) : BoundedKVIterator :=
  let r := boundedSeek it.start it.«end» it.src.rest
  { it with src := { it.src with rest := r.1 }, valid := r.2 }

def Valid (it : BoundedKVIterator) : Bool := it.valid && it.src.Valid

/-- `Next`, at a valid position: the source moves on, then `seek`. -/
def Next (it : BoundedKVIterator) : BoundedKVIterator := seek { it with src := it.src.Next }

def Key (it : BoundedKVIterator) : Bytes := it.src.Key

def Value (it : BoundedKVIterator) : Bytes := it.src.Value

def Error (it : BoundedKVIterator) : Option DbError := it.src.Error

end BoundedKVIterator

/-- `newBoundedKVIterator`. -/
def newBoundedKVIterator (start «end» : Option Bytes) (src : KVIterator) : BoundedKVIterator :=
  BoundedKVIterator.seek ⟨src, start, «end», false⟩

/-- What `forwardIteratorWithIAVLFallback` returns: the library's iterator,
or a `boundedKVIterator` around one. -/
inductive FallbackIterator where
  | kv (it : KVIterator)
  | bounded (it : BoundedKVIterator)

namespace FallbackIterator

def Valid : FallbackIterator → Bool
  | .kv it => it.Valid
  | .bounded it => it.Valid

def Next : FallbackIterator → FallbackIterator
  | .kv it => .kv it.Next
  | .bounded it => .bounded it.Next

def Key : FallbackIterator → Bytes
  | .kv it => it.Key
  | .bounded it => it.Key

def Value : FallbackIterator → Bytes
  | .kv it => it.Value
  | .bounded it => it.Value

def Error : FallbackIterator → Option DbError
  | .kv it => it.Error
  | .bounded it => it.Error

end FallbackIterator

/-- The iterators `forwardIteratorWithIAVLFallback` returns, read through the
`kvstore.Iterator` interface. -/
def fallbackIterOps : IterOps FallbackIterator (Bytes × Bytes) where
  valid it := (it.Valid, it)
  current it := (it.Key, it.Value)
  next := FallbackIterator.Next

-- ---------------------------------------------------------------------------
-- IAVL version ranges and the fallback
-- ---------------------------------------------------------------------------

/-- `binary.BigEndian.Uint64`, on eight bytes. -/
def bigEndianUint64 (b : Bytes) : Nat := b.foldl (fun acc x => acc * 256 + x.val) 0

/-- `math.MaxInt64`. -/
def maxInt64 : Nat := 2 ^ 63 - 1

/-- `isPrefixedIAVLVersionRange` (`treedb_visibility_debug.go`): equal
lengths of at least 9, the same prefix followed by the byte `'s'`, a start
version other than 0 and the end version `math.MaxInt64`. -/
def isPrefixedIAVLVersionRange (start «end» : Bytes) : Bool :=
  if start.length < 9 ∨ «end».length < 9 ∨ start.length ≠ «end».length then false
  -- 115 is `'s'`
  else if start.getD (start.length - 9) 0 ≠ 115 ∨ «end».getD («end».length - 9) 0 ≠ 115 then false
  else if start.take (start.length - 9) ≠ «end».take («end».length - 9) then false
  else
    let startVersion := bigEndianUint64 (start.drop (start.length - 8))
    let endVersion := bigEndianUint64 («end».drop («end».length - 8))
    if startVersion = 0 then false
    else if endVersion ≠ maxInt64 then false
    else true

section Fallback

variable {W : Type}

/-- The last retry of `forwardIteratorWithIAVLFallback`: scan the prefix
`start[:len(start)-9]` up to its successor, with both bounds enforced
locally. -/
def prefixScanFallback
    (kvIterator : Option Bytes → Option Bytes → W → Except DbError KVIterator × W)
    (start «end» : Option Bytes) (w : W) : Go FallbackIterator × W :=
  let pfx := (start.getD []).take ((start.getD []).length - 9)
  match cpIncr pfx with
  | .error f => (.error f, w)
  | .ok prefixEnd =>
    match kvIterator (some pfx) prefixEnd w with
    | (.error e, w) => (throwErr e, w)
    | (.ok alt2, w) => (.ok (.bounded (newBoundedKVIterator start «end» alt2)), w)

/-- The first retry of `forwardIteratorWithIAVLFallback`: an open end,
enforced locally; when that yields nothing either, the prefix scan. -/
def openEndFallback
    (kvIterator : Option Bytes → Option Bytes → W → Except DbError KVIterator × W)
    (start «end» : Option Bytes) (w : W) : Go FallbackIterator × W :=
  match kvIterator start none w with
  | (.error e, w) => (throwErr e, w)
  | (.ok alt, w) =>
    let bounded := newBoundedKVIterator start «end» alt
    if bounded.Valid || bounded.Error.isSome then (.ok (.bounded bounded), w)
    else prefixScanFallback kvIterator start «end» w

/-- `TreeDB.forwardIteratorWithIAVLFallback`, over `kvIterator`, the
library's `d.kv.Iterator`, which may change the library's state `W`.
Closing the abandoned iterators has no effect in this model. -/
def forwardIteratorWithIAVLFallback
    (kvIterator : Option Bytes → Option Bytes → W → Except DbError KVIterator × W)
    (start «end» : Option Bytes) (w : W) : Go FallbackIterator × W :=
  match kvIterator start «end» w with
  | (.error e, w) => (throwErr e, w)
  | (.ok it, w) =>
    if !isPrefixedIAVLVersionRange (start.getD []) («end».getD []) then (.ok (.kv it), w)
    else if it.Valid || it.Error.isSome then (.ok (.kv it), w)
    else openEndFallback kvIterator start «end» w

/-- The behaviour of the library's `Iterator(lo, hi)` that the fallback is
written against: over the store `stored w`, exactly the entries in
`[lo, hi)`, ascending, with no error, except that an IAVL version range may
come back empty. It leaves the library's state as it is. -/
def ExactUnlessIAVL
    (kvIterator : Option Bytes → Option Bytes → W → Except DbError KVIterator × W)
    (stored : W → KVMap) : Prop :=
  ∀ lo hi w, kvIterator lo hi w = (.ok ⟨mapRange (stored w) lo hi, none⟩, w) ∨
    (isPrefixedIAVLVersionRange (lo.getD []) (hi.getD []) = true ∧
      kvIterator lo hi w = (.ok ⟨[], none⟩, w))

end Fallback

-- ---------------------------------------------------------------------------
-- What the iterators yield
-- ---------------------------------------------------------------------------

/-- The entries a `boundedKVIterator` yields from a source list: keys below
`start` are skipped, the first key at or past `end` ends it. -/
def boundedEntries (start «end» : Option Bytes) : List (Bytes × Bytes) → List (Bytes × Bytes)
  | [] => []
  | e :: rest =>
    if start.any fun s => decide (e.1 < s) then boundedEntries start «end» rest
    else if «end».any fun x => decide (x ≤ e.1) then []
    else e :: boundedEntries start «end» rest

namespace BoundedKVIterator

/-- What is left to yield: nothing once invalid; otherwise the source's
current entry, then what the bound lets through of the rest. -/
def remaining (it : BoundedKVIterator) : List (Bytes × Bytes) :=
  if it.valid then
    match it.src.rest with
    | [] => []
    | e :: rest => e :: boundedEntries it.start it.«end» rest
  else []

/-- The loop of `seek` stops valid exactly on the first entry the bound lets
through, and invalid exactly when it lets nothing through. -/
theorem boundedSeek_spec (start «end» : Option Bytes) :
    ∀ l : List (Bytes × Bytes),
      ((boundedSeek start «end» l).2 = true → ∃ e rest, (boundedSeek start «end» l).1 = e :: rest ∧
        boundedEntries start «end» l = e :: boundedEntries start «end» rest) ∧
      ((boundedSeek start «end» l).2 = false → boundedEntries start «end» l = [])
  | [] => by simp [boundedSeek, boundedEntries]
  | (key, value) :: rest => by
    by_cases hs : start.any fun s => decide (key < s)
    · -- a key below `start`: both go on with the rest
      simpa [boundedSeek, boundedEntries, hs] using boundedSeek_spec start «end» rest
    · by_cases he : «end».any fun x => decide (x ≤ key)
      · simp [boundedSeek, boundedEntries, hs, he]
      · simp [boundedSeek, boundedEntries, hs, he]

theorem remaining_seek (it : BoundedKVIterator) :
    it.seek.remaining = boundedEntries it.start it.«end» it.src.rest := by
  obtain ⟨hvalid, hinvalid⟩ := boundedSeek_spec it.start it.«end» it.src.rest
  cases hv : (boundedSeek it.start it.«end» it.src.rest).2
  · simp [seek, remaining, hv, hinvalid hv]
  · obtain ⟨e, rest, hl, hb⟩ := hvalid hv
    simp [seek, remaining, hv, hl, hb]

theorem remaining_of_valid_false {it : BoundedKVIterator} (h : it.Valid = false) :
    it.remaining = [] := by
  unfold remaining
  cases hv : it.valid
  · rfl
  · -- valid, so the source is exhausted
    have hnil : it.src.rest = [] := by
      simpa [Valid, KVIterator.Valid, hv] using h
    simp [hnil]

end BoundedKVIterator

@[simp] theorem newBoundedKVIterator_error (start «end» : Option Bytes) (src : KVIterator) :
    (newBoundedKVIterator start «end» src).Error = src.err := rfl

theorem remaining_newBoundedKVIterator (start «end» : Option Bytes) (src : KVIterator) :
    (newBoundedKVIterator start «end» src).remaining = boundedEntries start «end» src.rest :=
  BoundedKVIterator.remaining_seek _

theorem kv_yields (it : KVIterator) : fallbackIterOps.Yields (.kv it) it.rest := by
  refine IterOps.yields_of_simulation (fun s l => s = .kv ⟨l, it.err⟩) ?_ ?_ rfl
  · rintro s rfl
    rfl
  · rintro s a l rfl
    exact ⟨_, rfl, rfl, rfl⟩

theorem bounded_yields (it : BoundedKVIterator) :
    fallbackIterOps.Yields (.bounded it) it.remaining := by
  refine IterOps.yields_of_simulation
    (fun s l => ∃ b : BoundedKVIterator, s = .bounded b ∧ b.remaining = l) ?_ ?_ ⟨it, rfl, rfl⟩
  · rintro s ⟨b, rfl, hb⟩
    -- an iterator with nothing left is invalid
    show b.Valid = false
    unfold BoundedKVIterator.remaining at hb
    cases hv : b.valid
    · simp [BoundedKVIterator.Valid, hv]
    · cases hr : b.src.rest with
      | nil => simp [BoundedKVIterator.Valid, KVIterator.Valid, hr]
      | cons e rest => simp [hv, hr] at hb
  · rintro s a l ⟨b, rfl, hb⟩
    unfold BoundedKVIterator.remaining at hb
    cases hv : b.valid
    · simp [hv] at hb
    · cases hr : b.src.rest with
      | nil => simp [hv, hr] at hb
      | cons e rest =>
        simp only [hv, hr, if_true, List.cons.injEq] at hb
        obtain ⟨rfl, hl⟩ := hb
        refine ⟨.bounded b, ?_, ?_, b.Next, ?_, ?_⟩
        · simp [fallbackIterOps, FallbackIterator.Valid, BoundedKVIterator.Valid,
            KVIterator.Valid, hv, hr]
        · simp [fallbackIterOps, FallbackIterator.Key, FallbackIterator.Value,
            BoundedKVIterator.Key, BoundedKVIterator.Value, KVIterator.Key, KVIterator.Value, hr]
        · rfl
        · -- `Next` is a seek from the rest of the source
          rw [← hl]
          simp [BoundedKVIterator.Next, BoundedKVIterator.remaining_seek, KVIterator.Next, hr]

/-- On a source ascending by key, the bound lets through exactly the keys in
`[start, end)`. -/
theorem boundedEntries_eq_filter (start «end» : Option Bytes) {l : List (Bytes × Bytes)}
    (hl : l.Pairwise fun a b => a.1 < b.1) :
    boundedEntries start «end» l = l.filter fun e => isKeyInDomain e.1 start «end» := by
  induction l with
  | nil => rfl
  | cons e rest ih =>
    obtain ⟨he, hrest⟩ := List.pairwise_cons.mp hl
    by_cases hs : start.any fun s => decide (e.1 < s)
    · -- below `start`: skipped
      have hdom : isKeyInDomain e.1 start «end» = false := by
        obtain ⟨s, rfl, hlt⟩ := (Option.any_eq_true _ _).mp hs
        rw [decide_eq_true_eq] at hlt
        simp [isKeyInDomain, hlt]
      simp [boundedEntries, hs, hdom, ih hrest]
    · by_cases hend : «end».any fun x => decide (x ≤ e.1)
      · -- at or past `end`: so is everything after it
        obtain ⟨x, rfl, hx⟩ := (Option.any_eq_true _ _).mp hend
        rw [decide_eq_true_eq] at hx
        have hnil : (e :: rest).filter (fun e => isKeyInDomain e.1 start (some x)) = [] := by
          rw [List.filter_eq_nil_iff]
          intro y hy
          have hxy : x ≤ y.1 := by
            rcases List.mem_cons.mp hy with rfl | hy
            · exact hx
            · exact le_trans hx (le_of_lt (he y hy))
          simp [isKeyInDomain, hxy]
        rw [hnil]
        simp [boundedEntries, hs, hx]
      · -- inside the range: kept
        have hdom : isKeyInDomain e.1 start «end» = true := by
          rw [isKeyInDomain_iff]
          constructor
          · cases start with
            | none => exact Lex.nil_le _
            | some s => simpa using hs
          · intro x hx
            subst hx
            simpa using hend
        simp [boundedEntries, hs, hend, hdom, ih hrest]

-- ---------------------------------------------------------------------------
-- A run of a `boundedKVIterator`
-- ---------------------------------------------------------------------------

/-- The two tests of `seek` are those of `IsKeyInDomain`. -/
theorem isKeyInDomain_eq_seek_tests (key : Bytes) (start «end» : Option Bytes) :
    isKeyInDomain key start «end» =
      (!(start.any fun s => decide (key < s)) && !(«end».any fun x => decide (x ≤ key))) := by
  have hnil : ¬ key < ([] : Bytes) := not_lt.mpr (Lex.nil_le key)
  cases start <;> cases «end» <;> simp [isKeyInDomain, hnil]

/-- Where the loop of `seek` stops, it is valid exactly when the current key
is in `[start, end)`. -/
theorem boundedSeek_head (start «end» : Option Bytes) : ∀ l : List (Bytes × Bytes),
    ∀ e ∈ (boundedSeek start «end» l).1.head?,
      (boundedSeek start «end» l).2 = isKeyInDomain e.1 start «end»
  | [] => by simp [boundedSeek]
  | (key, value) :: rest => by
    by_cases hs : start.any fun s => decide (key < s)
    · simpa [boundedSeek, hs] using boundedSeek_head start «end» rest
    · by_cases he : «end».any fun x => decide (x ≤ key) <;>
        simp [boundedSeek, hs, he, isKeyInDomain_eq_seek_tests]

namespace BoundedKVIterator

/-- A `boundedKVIterator` as `seek` leaves it: valid exactly when the current
key of its source is in `[start, end)`. -/
def Seeked (it : BoundedKVIterator) : Prop :=
  ∀ e ∈ it.src.rest.head?, it.valid = isKeyInDomain e.1 it.start it.«end»

theorem seeked_seek (it : BoundedKVIterator) : it.seek.Seeked :=
  fun e he => boundedSeek_head it.start it.«end» it.src.rest e he

end BoundedKVIterator

/-- A `kvstore.Iterator` that `Valid` rejects stays rejected: `Valid` changes
nothing. -/
theorem fallback_staysInvalid {it : FallbackIterator} (h : it.Valid = false) :
    fallbackIterOps.StaysInvalid it :=
  IterOps.staysInvalid_of_closed (fun s => s = it) (fun s hs => by subst hs; exact ⟨h, rfl⟩) rfl

/-- Every state a caller reaches from a new `boundedKVIterator` is one that
`seek` left, with the bounds it was given. -/
theorem reaches_seeked {start «end» : Option Bytes} {src : KVIterator} {s : FallbackIterator}
    (h : fallbackIterOps.Reaches (.bounded (newBoundedKVIterator start «end» src)) s) :
    ∃ b, s = .bounded b ∧ b.Seeked ∧ b.start = start ∧ b.«end» = «end» := by
  refine IterOps.Reaches.invariant
    (fun s => ∃ b, s = .bounded b ∧ b.Seeked ∧ b.start = start ∧ b.«end» = «end»)
    ⟨_, rfl, BoundedKVIterator.seeked_seek _, rfl, rfl⟩ ?_ ?_ h
  · -- `Valid` leaves the state as it is
    intro t ht
    exact ht
  · -- `Next` ends with a `seek`, which keeps the bounds
    rintro t t' ⟨b, rfl, -, hstart, hend⟩ hv
    simp only [fallbackIterOps, Prod.mk.injEq] at hv
    obtain ⟨-, rfl⟩ := hv
    exact ⟨b.Next, rfl, BoundedKVIterator.seeked_seek _, hstart, hend⟩

/-- Resting on a key at or past `end`, a reached state is invalid for good. -/
theorem staysInvalid_at_end {start «end» : Option Bytes} {src : KVIterator}
    {t : BoundedKVIterator}
    (h : fallbackIterOps.Reaches (.bounded (newBoundedKVIterator start «end» src)) (.bounded t))
    {e : Bytes × Bytes} (he : e ∈ t.src.rest.head?) {x : Bytes} (hx : «end» = some x)
    (hxe : x ≤ e.1) : fallbackIterOps.StaysInvalid (.bounded t) := by
  obtain ⟨b, hb, hseek, -, hend⟩ := reaches_seeked h
  cases hb
  have hdom : isKeyInDomain e.1 t.start t.«end» = false := by
    rw [isKeyInDomain_eq_seek_tests, hend, hx]
    simp [hxe]
  apply fallback_staysInvalid
  simp [FallbackIterator.Valid, BoundedKVIterator.Valid, hseek e he, hdom]

/-- From a `seek` over `l`, the run reaches an invalid state resting on the
first entry at or above both bounds, which it has not consumed. -/
theorem reaches_end (start «end» : Option Bytes) (err : Option DbError) :
    ∀ (l : List (Bytes × Bytes)) (v : Bool), ∃ t,
      fallbackIterOps.Reaches (.bounded (BoundedKVIterator.seek ⟨⟨l, err⟩, start, «end», v⟩))
          (.bounded t) ∧
        t.Valid = false ∧
        t.src.rest = l.dropWhile fun e =>
          start.any (fun s => decide (e.1 < s)) || «end».all (fun x => decide (e.1 < x))
  | [], _ => ⟨_, .refl, rfl, rfl⟩
  | (key, value) :: rest, v => by
    by_cases hs : start.any fun s => decide (key < s)
    · -- below `start`: skipped by the seek
      have hseek : BoundedKVIterator.seek ⟨⟨(key, value) :: rest, err⟩, start, «end», v⟩ =
          BoundedKVIterator.seek ⟨⟨rest, err⟩, start, «end», v⟩ := by
        simp [BoundedKVIterator.seek, boundedSeek, hs]
      rw [hseek, List.dropWhile_cons_of_pos (by simp [hs])]
      exact reaches_end start «end» err rest v
    · by_cases he : «end».any fun x => decide (x ≤ key)
      · -- at or past `end`: the seek stops on it, invalid
        have hkeep : ¬ («end».all fun x => decide (key < x)) = true := by
          obtain ⟨x, rfl, hx⟩ := (Option.any_eq_true _ _).mp he
          simpa using hx
        refine ⟨_, .refl, ?_, ?_⟩
        · simp [BoundedKVIterator.seek, boundedSeek, hs, he, BoundedKVIterator.Valid]
        · rw [List.dropWhile_cons_of_neg (by simpa [hs] using hkeep)]
          simp [BoundedKVIterator.seek, boundedSeek, hs, he]
      · -- inside the range: yielded, and the run goes on from the rest
        have hdrop : («end».all fun x => decide (key < x)) = true := by
          cases «end» with
          | none => rfl
          | some x => simpa using he
        obtain ⟨t, ht, hv, hrest⟩ := reaches_end start «end» err rest true
        have hvalid : fallbackIterOps.valid
            (.bounded (BoundedKVIterator.seek ⟨⟨(key, value) :: rest, err⟩, start, «end», v⟩)) =
              (true, .bounded (BoundedKVIterator.seek
                ⟨⟨(key, value) :: rest, err⟩, start, «end», v⟩)) := by
          simp [fallbackIterOps, FallbackIterator.Valid, BoundedKVIterator.Valid,
            BoundedKVIterator.seek, boundedSeek, hs, he, KVIterator.Valid]
        have hnext : fallbackIterOps.next
            (.bounded (BoundedKVIterator.seek ⟨⟨(key, value) :: rest, err⟩, start, «end», v⟩)) =
              .bounded (BoundedKVIterator.seek ⟨⟨rest, err⟩, start, «end», true⟩) := by
          simp [fallbackIterOps, FallbackIterator.Next, BoundedKVIterator.Next,
            BoundedKVIterator.seek, boundedSeek, hs, he, KVIterator.Next]
        have ht' : fallbackIterOps.Reaches (fallbackIterOps.next (.bounded
            (BoundedKVIterator.seek ⟨⟨(key, value) :: rest, err⟩, start, «end», v⟩))) (.bounded t) := by
          rw [hnext]
          exact ht
        refine ⟨t, IterOps.Reaches.trans (.next .refl hvalid) ht', hv, ?_⟩
        rw [hrest, List.dropWhile_cons_of_pos (by simp [hdrop])]

/-- A `boundedKVIterator` over a source ascending by key yields exactly the
source's entries in `[start, end)`, in the source's order. Resting on a key at
or past `end`, a state it reaches is invalid for good; and its run ends in
such a state, on the first entry at or above both bounds, not consumed. -/
theorem newBoundedKVIterator_yields_domain (start «end» : Option Bytes) (src : KVIterator)
    (hsrc : src.rest.Pairwise fun a b => a.1 < b.1) :
    fallbackIterOps.Yields (.bounded (newBoundedKVIterator start «end» src))
        (src.rest.filter fun e => isKeyInDomain e.1 start «end») ∧
      (∀ t, fallbackIterOps.Reaches (.bounded (newBoundedKVIterator start «end» src)) (.bounded t) →
        ∀ e ∈ t.src.rest.head?, ∀ x, «end» = some x → x ≤ e.1 →
          fallbackIterOps.StaysInvalid (.bounded t)) ∧
      ∃ t, fallbackIterOps.Reaches (.bounded (newBoundedKVIterator start «end» src)) (.bounded t) ∧
        fallbackIterOps.StaysInvalid (.bounded t) ∧
        t.src.rest = src.rest.dropWhile fun e =>
          start.any (fun s => decide (e.1 < s)) || «end».all (fun x => decide (e.1 < x)) := by
  refine ⟨?_, fun t ht e he x hx hxe => staysInvalid_at_end ht he hx hxe, ?_⟩
  · -- what the first seek leaves to yield is the bounded source, on a sorted source the filter
    rw [← boundedEntries_eq_filter start «end» hsrc, ← remaining_newBoundedKVIterator]
    exact bounded_yields _
  · obtain ⟨t, ht, hv, hrest⟩ := reaches_end start «end» src.err src.rest false
    exact ⟨t, ht, fallback_staysInvalid (by simpa [FallbackIterator.Valid] using hv), hrest⟩

/-- The source of `TestBoundedKVIterator_EnforcesEndBound`: the keys `a` to
`d`, with the values `va` to `vd`. -/
def endBoundSource : KVIterator :=
  ⟨[([97], [118, 97]), ([98], [118, 98]), ([99], [118, 99]), ([100], [118, 100])], none⟩

theorem newBoundedKVIterator_yields_domain_endBound :
    endBoundSource.rest.Pairwise (fun a b => a.1 < b.1) ∧
      fallbackIterOps.Yields
          (.bounded (newBoundedKVIterator (some [98]) (some [100]) endBoundSource))
          (endBoundSource.rest.filter fun e => isKeyInDomain e.1 (some [98]) (some [100])) ∧
        (∀ t, fallbackIterOps.Reaches
            (.bounded (newBoundedKVIterator (some [98]) (some [100]) endBoundSource)) (.bounded t) →
          ∀ e ∈ t.src.rest.head?, ∀ x, (some [100] : Option Bytes) = some x → x ≤ e.1 →
            fallbackIterOps.StaysInvalid (.bounded t)) ∧
        ∃ t, fallbackIterOps.Reaches
            (.bounded (newBoundedKVIterator (some [98]) (some [100]) endBoundSource)) (.bounded t) ∧
          fallbackIterOps.StaysInvalid (.bounded t) ∧
          t.src.rest = endBoundSource.rest.dropWhile fun e =>
            (some [98] : Option Bytes).any (fun s => decide (e.1 < s)) ||
              (some [100] : Option Bytes).all (fun x => decide (e.1 < x)) :=
  ⟨by decide, newBoundedKVIterator_yields_domain _ _ _ (by decide)⟩

-- ---------------------------------------------------------------------------
-- The fallback against a library that is exact except on IAVL ranges
-- ---------------------------------------------------------------------------

theorem BoundedKVIterator.valid_eq_false_of_remaining {it : BoundedKVIterator}
    (h : it.remaining = []) : it.Valid = false := by
  unfold BoundedKVIterator.remaining at h
  cases hv : it.valid
  · simp [BoundedKVIterator.Valid, hv]
  · cases hr : it.src.rest with
    | nil => simp [BoundedKVIterator.Valid, KVIterator.Valid, hr]
    | cons e rest => simp [hv, hr] at h

/-- Bounding a range of the store keeps what lies in both ranges. -/
theorem boundedEntries_mapRange (m : KVMap) (start «end» lo hi : Option Bytes) :
    boundedEntries start «end» (mapRange m lo hi) =
      (mapRange m lo hi).filter fun e => isKeyInDomain e.1 start «end» :=
  boundedEntries_eq_filter start «end» (mapRange_ascend m lo hi)

/-- Bounding any range of the store to a range of it that is empty leaves
nothing. -/
theorem boundedEntries_mapRange_nil {m : KVMap} {start «end» : Option Bytes}
    (h : mapRange m start «end» = []) (lo hi : Option Bytes) :
    boundedEntries start «end» (mapRange m lo hi) = [] := by
  rw [boundedEntries_mapRange, List.filter_eq_nil_iff]
  intro e he hdom
  have hmem : e ∈ mapRange m start «end» :=
    List.mem_filter.mpr ⟨(List.mem_filter.mp he).1, hdom⟩
  simp [h] at hmem

theorem isPrefixedIAVLVersionRange_length {start «end» : Bytes}
    (h : isPrefixedIAVLVersionRange start «end» = true) : 9 ≤ start.length := by
  unfold isPrefixedIAVLVersionRange at h
  split_ifs at h with h1
  simp only [not_or, not_lt] at h1
  exact h1.1

section FallbackYields

variable {W : Type} {kvIterator : Option Bytes → Option Bytes → W → Except DbError KVIterator × W}
  {stored : W → KVMap}

/-- The library answers an open end exactly: it is not an IAVL version range. -/
theorem kvIterator_open_end (hkv : ExactUnlessIAVL kvIterator stored) (start : Option Bytes)
    (w : W) : kvIterator start none w = (.ok ⟨mapRange (stored w) start none, none⟩, w) := by
  rcases hkv start none w with h | ⟨hiavl, -⟩
  · exact h
  · simp [isPrefixedIAVLVersionRange] at hiavl

/-- The prefix scan runs only once the range is known to be empty; with a
nonempty prefix it returns, and yields nothing. -/
theorem prefixScanFallback_yields_nil (hkv : ExactUnlessIAVL kvIterator stored)
    {start «end» : Option Bytes} {w : W} (hpfx : 9 < (start.getD []).length)
    (hR : mapRange (stored w) start «end» = []) :
    ∃ it, prefixScanFallback kvIterator start «end» w = (.ok it, w) ∧
      fallbackIterOps.Yields it [] := by
  have hne : (start.getD []).take ((start.getD []).length - 9) ≠ [] := by
    simp only [ne_eq, List.take_eq_nil_iff, not_or]
    constructor
    · omega
    · intro h
      simp [h] at hpfx
  obtain ⟨prefixEnd, hq⟩ := cpIncr_ok hne
  -- exact or falsely empty, the scan bounded to the empty range yields nothing
  rcases hkv (some ((start.getD []).take ((start.getD []).length - 9))) prefixEnd w with
    h | ⟨-, h⟩
  · let src : KVIterator :=
      ⟨mapRange (stored w) (some ((start.getD []).take ((start.getD []).length - 9))) prefixEnd,
        none⟩
    refine ⟨.bounded (newBoundedKVIterator start «end» src),
      by simp only [prefixScanFallback, hq, h, src], ?_⟩
    have hy := bounded_yields (newBoundedKVIterator start «end» src)
    rwa [remaining_newBoundedKVIterator, boundedEntries_mapRange_nil hR] at hy
  · refine ⟨.bounded (newBoundedKVIterator start «end» ⟨[], none⟩),
      by simp only [prefixScanFallback, hq, h], ?_⟩
    exact bounded_yields (newBoundedKVIterator start «end» ⟨[], none⟩)

/-- The open-end retry yields the range: bounded locally when it is
nonempty, and through the prefix scan, which needs a prefix before the
version, when it is empty. -/
theorem openEndFallback_yields (hkv : ExactUnlessIAVL kvIterator stored)
    {start «end» : Option Bytes} {w : W}
    (hpfx : 9 < (start.getD []).length ∨ mapRange (stored w) start «end» ≠ []) :
    ∃ it, openEndFallback kvIterator start «end» w = (.ok it, w) ∧
      fallbackIterOps.Yields it (mapRange (stored w) start «end») := by
  have hopen := kvIterator_open_end hkv start w
  have hb : (newBoundedKVIterator start «end» ⟨mapRange (stored w) start none, none⟩).remaining =
      mapRange (stored w) start «end» := by
    rw [remaining_newBoundedKVIterator, boundedEntries_mapRange, mapRange_filter]
  by_cases hv : (newBoundedKVIterator start «end» ⟨mapRange (stored w) start none, none⟩).Valid
  · refine ⟨.bounded (newBoundedKVIterator start «end» ⟨mapRange (stored w) start none, none⟩),
      by simp [openEndFallback, hopen, hv], ?_⟩
    rw [← hb]
    exact bounded_yields _
  · -- nothing in the range: the prefix scan
    have hR : mapRange (stored w) start «end» = [] := by
      rw [← hb]
      exact BoundedKVIterator.remaining_of_valid_false (by simpa using hv)
    obtain ⟨it, hit, hy⟩ := prefixScanFallback_yields_nil hkv (hpfx.resolve_right (· hR)) hR
    refine ⟨it, ?_, hR ▸ hy⟩
    simp [openEndFallback, hopen, hv, hit]

/-- Against a library exact except on IAVL version ranges, the forward
iterator yields exactly the stored range, unless the range is an IAVL
version range with nothing stored in it and `start` is exactly 9 bytes long:
then the prefix before the version is empty. -/
theorem forwardIteratorWithIAVLFallback_yields (hkv : ExactUnlessIAVL kvIterator stored)
    (start «end» : Option Bytes) (w : W)
    (hsafe : isPrefixedIAVLVersionRange (start.getD []) («end».getD []) = true →
      (start.getD []).length = 9 → mapRange (stored w) start «end» ≠ []) :
    ∃ it, forwardIteratorWithIAVLFallback kvIterator start «end» w = (.ok it, w) ∧
      fallbackIterOps.Yields it (mapRange (stored w) start «end») := by
  -- on an IAVL version range the retries have a prefix to scan, or a range to find
  have hlen : isPrefixedIAVLVersionRange (start.getD []) («end».getD []) = true →
      9 < (start.getD []).length ∨ mapRange (stored w) start «end» ≠ [] := fun h => by
    have h9 := isPrefixedIAVLVersionRange_length h
    by_cases hl : (start.getD []).length = 9
    · exact .inr (hsafe h hl)
    · exact .inl (by omega)
  rcases hkv start «end» w with h | ⟨hiavl, h⟩
  · -- an exact first answer is kept unless it is empty on an IAVL version range
    by_cases hretry : isPrefixedIAVLVersionRange (start.getD []) («end».getD []) = true ∧
        mapRange (stored w) start «end» = []
    · obtain ⟨hiavl, hnil⟩ := hretry
      obtain ⟨it, hit, hy⟩ := openEndFallback_yields hkv (hlen hiavl)
      refine ⟨it, ?_, hy⟩
      simp [forwardIteratorWithIAVLFallback, h, hiavl, hnil, KVIterator.Valid,
        KVIterator.Error, hit]
    · refine ⟨.kv ⟨mapRange (stored w) start «end», none⟩, ?_, kv_yields _⟩
      by_cases hiavl : isPrefixedIAVLVersionRange (start.getD []) («end».getD []) = true
      · have hne : mapRange (stored w) start «end» ≠ [] := fun hnil => hretry ⟨hiavl, hnil⟩
        simp [forwardIteratorWithIAVLFallback, h, hiavl, KVIterator.Valid, hne]
      · simp [forwardIteratorWithIAVLFallback, h, hiavl]
  · -- a falsely empty first answer: the retries
    obtain ⟨it, hit, hy⟩ := openEndFallback_yields hkv (hlen hiavl)
    refine ⟨it, ?_, hy⟩
    simp [forwardIteratorWithIAVLFallback, h, hiavl, KVIterator.Valid, KVIterator.Error, hit]

/-- With an IAVL version range whose start is 9 bytes, and nothing stored in
the range, both answers are empty and the prefix scan calls `cpIncr` on the
empty prefix, which panics. -/
theorem forwardIteratorWithIAVLFallback_panics (hkv : ExactUnlessIAVL kvIterator stored)
    {start «end» : Option Bytes} {w : W}
    (hiavl : isPrefixedIAVLVersionRange (start.getD []) («end».getD []) = true)
    (hlen : (start.getD []).length = 9) (hR : mapRange (stored w) start «end» = []) :
    forwardIteratorWithIAVLFallback kvIterator start «end» w =
      (.error (.panic "cpIncr expects non-zero bz length"), w) := by
  have hopen := kvIterator_open_end hkv start w
  have hb : (newBoundedKVIterator start «end» ⟨mapRange (stored w) start none, none⟩).Valid =
      false := by
    apply BoundedKVIterator.valid_eq_false_of_remaining
    rw [remaining_newBoundedKVIterator, boundedEntries_mapRange, mapRange_filter, hR]
  -- the prefix `start[:0]` is empty
  have hscan : prefixScanFallback kvIterator start «end» w =
      (.error (.panic "cpIncr expects non-zero bz length"), w) := by
    simp [prefixScanFallback, hlen, cpIncr]
  have hretry : openEndFallback kvIterator start «end» w =
      (.error (.panic "cpIncr expects non-zero bz length"), w) := by
    simp [openEndFallback, hopen, hb, hscan]
  rcases hkv start «end» w with h | ⟨-, h⟩
  · simp [forwardIteratorWithIAVLFallback, h, hiavl, hR, KVIterator.Valid, KVIterator.Error,
      hretry]
  · simp [forwardIteratorWithIAVLFallback, h, hiavl, KVIterator.Valid, KVIterator.Error, hretry]

end FallbackYields

end CosmosDb
