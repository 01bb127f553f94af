import CosmosDb.Model.TreeDB
import CosmosDb.Lib.Slice

/-!
# CosmosDb — the arenas of the TreeDB iterator

`coreIterator.Key` and `Value` do not allocate a slice per call. They copy the
bytes into an arena: a buffer that `keyArena.Copy` appends to while the bytes
fit its spare capacity, handing out the part of the buffer that holds them.
Only bytes that do not fit get a slice of their own. Every slice handed out
from an arena shares the arena's array with the buffer and with the others.

Over the Go slices of `Lib/Slice`, this module shows that the sharing is
safe. An arena only ever writes past its buffer's end, and never reallocates,
since `Copy` checks the capacity before it appends. The two arenas of an
iterator are apart. So every slice `Key` or `Value` hands out keeps its bytes
through every later call, and over every run of calls the iterator answers as
`coreIterator` would if it copied the bytes afresh each time, read at the end
of the run (`arenaIterator_refines_copies`).

* `ArenaStep` — how a call that copies into one arena may change it and the
  heap: the frame every copy keeps;
* `Handed` — what holds of a slice an arena hands out;
* `arenaCopy_spec` — the body `Key` and `Value` share meets both;
* `FrozenIn`, `ArenaInv` — the state-level forms the run rule carries.
-/

namespace CosmosDb

/-- `keyArena`: the buffer `Copy` appends to; nil in the zero value. -/
structure KeyArena where
  buf : Slice

/-- `newKeyArena`: an empty buffer of `capacity` bytes, 64 KiB when that is
not positive. -/
def newKeyArena (h : Heap Byte) (capacity : Int) : KeyArena × Heap Byte :=
  let capacity := if capacity ≤ 0 then 64 * 1024 else capacity.toNat
  let r := h.make 0 capacity (Nat.zero_le _)
  (⟨r.1⟩, r.2)

section Arena

-- the capacity the runtime gives a slice that `append` outgrows
variable (grow : Nat → Nat → Nat)

/-- `keyArena.Copy`: the key appended to the buffer, and the part of the
buffer that holds it, if it fits the spare capacity; nil and false if not. -/
def KeyArena.Copy (a : KeyArena) (h : Heap Byte) (key : Bytes) :
    Go (Slice × Bool) × KeyArena × Heap Byte :=
  if key.length > a.buf.cap - a.buf.len then (.ok (Slice.nil, false), a, h)
  else
    let off := a.buf.len
    let r := h.append grow a.buf key
    match r.1.slice off (off + key.length) with
    | some out => (.ok (out, true), ⟨r.1⟩, r.2)
    | none => (.error (.panic "slice bounds out of range"), ⟨r.1⟩, r.2)

/-- The arena, made by `newKeyArena capacity` while its buffer is nil. -/
def KeyArena.init (a : KeyArena) (h : Heap Byte) (capacity : Int) : KeyArena × Heap Byte :=
  if a.buf.arr.isNone then newKeyArena h capacity else (a, h)

/-- The body `Key` and `Value` share, on their own arena, its capacity and
the bytes to hand out: copy them into the arena, or, where they do not fit,
into a new slice of their length. -/
def arenaCopy (a : KeyArena) (capacity : Int) (h : Heap Byte) (b : Bytes) :
    Go Slice × KeyArena × Heap Byte :=
  let r := a.init h capacity
  match r.1.Copy grow r.2 b with
  | (.ok (out, true), a, h) => (.ok out, a, h)
  | (.ok (_, false), a, h) =>
    let m := h.make b.length b.length (Nat.le_refl _)
    (.ok m.1, a, (m.2.copy m.1 b).2)
  | (.error f, a, h) => (.error f, a, h)

end Arena

/-- `coreIterator`, with the arenas its `Key` and `Value` copy into. -/
structure ArenaCoreIterator extends CoreIterator where
  keyArena : KeyArena
  valArena : KeyArena

namespace ArenaCoreIterator

variable (grow : Nat → Nat → Nat)

/-- A `coreIterator` as it is opened: its arenas are the zero value. -/
def ofCore (it : CoreIterator) : ArenaCoreIterator := ⟨it, ⟨Slice.nil⟩, ⟨Slice.nil⟩⟩

def Domain (it : ArenaCoreIterator) : Option Bytes × Option Bytes := (it.start, it.«end»)

def Valid (it : ArenaCoreIterator) : Bool := it.iter.Valid

def assertIsValid (it : ArenaCoreIterator) : Go Unit :=
  if it.Valid then .ok () else .error (.panic "iterator is invalid")

def Next (it : ArenaCoreIterator) : Go Unit × ArenaCoreIterator :=
  match it.assertIsValid with
  | .ok () => (.ok (), { it with iter := it.iter.Next })
  | .error f => (.error f, it)

/-- `Key`: the key copied into the key arena, made with 64 KiB. -/
def Key (it : ArenaCoreIterator) (h : Heap Byte) : Go Slice × ArenaCoreIterator × Heap Byte :=
  match it.assertIsValid with
  | .ok () =>
    let r := arenaCopy grow it.keyArena (64 * 1024) h it.iter.Key
    (r.1, { it with keyArena := r.2.1 }, r.2.2)
  | .error f => (.error f, it, h)

/-- `Value`: the value copied into the value arena, made with 256 KiB. -/
def Value (it : ArenaCoreIterator) (h : Heap Byte) : Go Slice × ArenaCoreIterator × Heap Byte :=
  match it.assertIsValid with
  | .ok () =>
    let r := arenaCopy grow it.valArena (256 * 1024) h it.iter.Value
    (r.1, { it with valArena := r.2.1 }, r.2.2)
  | .error f => (.error f, it, h)

def Error (it : ArenaCoreIterator) : Option DbError := it.iter.Error

end ArenaCoreIterator

/-! ## Runs of iterator calls -/

/-- A call through the `Iterator` interface. -/
inductive IterCall where
  | domain
  | valid
  | next
  | key
  | value
  | error
  deriving DecidableEq, Repr

/-- A reply: the domain, the answer of `Valid`, `Next` returning, the bytes
`Key` or `Value` returned, or the error. -/
inductive IterReply (β : Type) where
  | domain (start «end» : Option Bytes)
  | valid (b : Bool)
  | done
  | bytes (b : β)
  | error (e : Option DbError)
  deriving DecidableEq

/-- A reply of the arena iterator, its slice read in the heap `h`. -/
def IterReply.read (h : Heap Byte) : IterReply Slice → IterReply Bytes
  | .domain start «end» => .domain start «end»
  | .valid b => .valid b
  | .done => .done
  | .bytes s => .bytes (h.read s)
  | .error e => .error e

/-- `coreIterator` over the heap: one call, and its reply. -/
def arenaStep (grow : Nat → Nat → Nat) (s : ArenaCoreIterator × Heap Byte) :
    IterCall → (ArenaCoreIterator × Heap Byte) × Go (IterReply Slice)
  | .domain => (s, .ok (.domain s.1.Domain.1 s.1.Domain.2))
  | .valid => (s, .ok (.valid s.1.Valid))
  | .next => ((s.1.Next.2, s.2), s.1.Next.1.map fun _ => .done)
  | .key => ((s.1.Key grow s.2).2, (s.1.Key grow s.2).1.map .bytes)
  | .value => ((s.1.Value grow s.2).2, (s.1.Value grow s.2).1.map .bytes)
  | .error => (s, .ok (.error s.1.Error))

/-- The copying iterator: `coreIterator` as `coreIterOps` reads it, every
`Key` and `Value` a copy of its own, the calls that assert validity panicking
on an invalid iterator. -/
def copyStep (it : CoreIterator) : IterCall → CoreIterator × Go (IterReply Bytes)
  | .domain => (it, .ok (.domain it.start it.«end»))
  | .valid => (it, .ok (.valid (coreIterOps.valid it).1))
  | .next =>
    if (coreIterOps.valid it).1 then (coreIterOps.next it, .ok .done)
    else (it, .error (.panic "iterator is invalid"))
  | .key =>
    (it, if (coreIterOps.valid it).1 then .ok (.bytes (coreIterOps.current it).1)
      else .error (.panic "iterator is invalid"))
  | .value =>
    (it, if (coreIterOps.valid it).1 then .ok (.bytes (coreIterOps.current it).2)
      else .error (.panic "iterator is invalid"))
  | .error => (it, .ok (.error it.iter.Error))

/-! ## What a copy into an arena does -/

section Copy

variable (grow : Nat → Nat → Nat) {o a a' : KeyArena} {h h' : Heap Byte}

/-- How a call that copies into arena `a` may change it and the heap, with
`o` the other arena: the arena stays in the heap and apart from `o`, the heap
only grows, and every slice into the heap that ends by the arena's end sees
what it saw and still ends by it. -/
structure ArenaStep (o a : KeyArena) (h : Heap Byte) (a' : KeyArena) (h' : Heap Byte) : Prop where
  inHeap : a'.buf.InHeap h'
  apart : ∀ x, a'.buf.arr = some x → o.buf.arr ≠ some x
  grows : h.length ≤ h'.length
  frame : ∀ t : Slice, t.InHeap h → t.Below a.buf → h'.read t = h.read t ∧ t.Below a'.buf

/-- A slice handed out from arena `a`, with `o` the other arena: it holds the
bytes, lies in the heap, ends by the arena's end and is apart from `o`. -/
structure Handed (o a : KeyArena) (h : Heap Byte) (out : Slice) (b : Bytes) : Prop where
  reads : h.read out = b
  inHeap : out.InHeap h
  below : out.Below a.buf
  apart : ∀ x, o.buf.arr = some x → out.arr ≠ some x

theorem ArenaStep.refl (ha : a.buf.InHeap h) (hap : ∀ x, a.buf.arr = some x → o.buf.arr ≠ some x) :
    ArenaStep o a h a h :=
  ⟨ha, hap, le_refl _, fun _ _ hb => ⟨rfl, hb⟩⟩

theorem ArenaStep.trans {a₁ a₂ : KeyArena} {h₁ h₂ : Heap Byte} (h₀₁ : ArenaStep o a h a₁ h₁)
    (h₁₂ : ArenaStep o a₁ h₁ a₂ h₂) : ArenaStep o a h a₂ h₂ where
  inHeap := h₁₂.inHeap
  apart := h₁₂.apart
  grows := h₀₁.grows.trans h₁₂.grows
  frame t ht hb := by
    obtain ⟨hr₁, hb₁⟩ := h₀₁.frame t ht hb
    obtain ⟨hr₂, hb₂⟩ := h₁₂.frame t (ht.mono h₀₁.grows) hb₁
    exact ⟨hr₂.trans hr₁, hb₂⟩

/-- A slice into the heap is apart from an array allocated after it. -/
theorem ne_length_of_inHeap {t : Slice} (ht : t.InHeap h) : t.arr ≠ some h.length :=
  fun hta => absurd (ht _ hta) (Nat.lt_irrefl _)

/-- Making the arena on first use keeps the frame. -/
theorem init_arenaStep (capacity : Int) (ha : a.buf.InHeap h) (ho : o.buf.InHeap h)
    (hap : ∀ x, a.buf.arr = some x → o.buf.arr ≠ some x) :
    ArenaStep o a h (a.init h capacity).1 (a.init h capacity).2 := by
  unfold KeyArena.init
  split_ifs
  · -- a new buffer, in an array allocated now
    refine ⟨?_, ?_, ?_, fun t ht _ => ⟨?_, ?_⟩⟩
    · intro x hx
      cases hx
      simp [newKeyArena, Heap.make, Heap.length_alloc]
    · intro x hx
      cases hx
      exact ne_length_of_inHeap ho
    · simp [newKeyArena, Heap.make, Heap.length_alloc]
    · exact Heap.read_alloc ht
    · exact Slice.Below.of_apart fun x hx => by
        cases hx
        exact ne_length_of_inHeap ht
  · exact ArenaStep.refl ha hap

/-- `Copy` of bytes that fit the spare capacity: the buffer grows in place
and hands out its new end. -/
theorem copy_fits {b : Bytes} (hfit : ¬b.length > a.buf.cap - a.buf.len) (ha : a.buf.InHeap h)
    (hap : ∀ x, a.buf.arr = some x → o.buf.arr ≠ some x) :
    ∃ out, a.Copy grow h b = (.ok (out, true), ⟨(h.append grow a.buf b).1⟩, (h.append grow a.buf b).2) ∧
      ArenaStep o a h ⟨(h.append grow a.buf b).1⟩ (h.append grow a.buf b).2 ∧
      Handed o ⟨(h.append grow a.buf b).1⟩ (h.append grow a.buf b).2 out b := by
  have hle : a.buf.len + b.length ≤ a.buf.cap := by
    have := a.buf.len_le
    omega
  obtain ⟨harr, hoff, hlen, hcap⟩ := Heap.append_fields_of_fits grow h a.buf b hle
  -- the new end is within the grown buffer's capacity, so slicing it cannot panic
  obtain ⟨out, hout⟩ := Option.isSome_iff_exists.mp
    (Slice.slice_isSome (Nat.le_add_right a.buf.len b.length) (by omega : _ ≤ (h.append grow a.buf b).1.cap))
  obtain ⟨-, -, hoarr, hooff, holen⟩ := Slice.slice_eq hout
  have hin := Heap.inHeap_append grow ha b
  refine ⟨out, by simp [KeyArena.Copy, hfit, hout], ?_, ?_⟩
  · refine ⟨hin, fun x hx => hap x (harr ▸ hx), Heap.length_append_le grow h a.buf b,
      fun t ht hb => ⟨Heap.read_append_of_below grow h a.buf b ht hb, Heap.below_append grow h a.buf b ht hb⟩⟩
  · refine ⟨?_, fun x hx => hin x (hoarr ▸ hx), ?_, fun x hx hox => hap x (harr ▸ hoarr ▸ hox) hx⟩
    · -- the part of the grown buffer past its old end holds the bytes
      have hread : (h.append grow a.buf b).2.read (h.append grow a.buf b).1 = h.read a.buf ++ b :=
        Heap.read_append grow h ha b
      rw [Heap.read_slice _ hout (by omega), hread, List.take_of_length_le (by simp [Heap.length_read ha]),
        List.drop_left' (Heap.length_read ha)]
    · intro x hx hox
      dsimp only
      omega

/-- `Copy` of bytes that do not fit changes nothing. -/
theorem copy_not_fits {b : Bytes} (hfit : b.length > a.buf.cap - a.buf.len) :
    a.Copy grow h b = (.ok (Slice.nil, false), a, h) := by
  simp [KeyArena.Copy, hfit]

/-- The slice of their own that bytes get which do not fit the arena. -/
theorem make_copy_handed {b : Bytes} (ha : a.buf.InHeap h) (ho : o.buf.InHeap h)
    (hap : ∀ x, a.buf.arr = some x → o.buf.arr ≠ some x) :
    ArenaStep o a h a ((h.make b.length b.length (Nat.le_refl _)).2.copy
        (h.make b.length b.length (Nat.le_refl _)).1 b).2 ∧
      Handed o a ((h.make b.length b.length (Nat.le_refl _)).2.copy
        (h.make b.length b.length (Nat.le_refl _)).1 b).2 (h.make b.length b.length (Nat.le_refl _)).1 b := by
  have hgrows : h.length + 1 = ((h.make b.length b.length (Nat.le_refl _)).2.copy
      (h.make b.length b.length (Nat.le_refl _)).1 b).2.length := by
    simp [Heap.make, Heap.length_copy, Heap.length_alloc]
  refine ⟨⟨ha.mono (by omega), hap, by omega, fun t ht hb => ⟨?_, hb⟩⟩, ⟨?_, ?_, ?_, ?_⟩⟩
  · -- the copy goes into the new array
    rw [Heap.read_copy_of_ne _ _ _ fun x hx => by
      cases hx
      exact ne_length_of_inHeap ht]
    exact Heap.read_alloc ht
  · exact Heap.read_copy _ rfl (by simp [Heap.make, Heap.length_alloc]) rfl
  · intro x hx
    cases hx
    omega
  · exact Slice.Below.of_apart fun x hx hox => by
      cases hox
      exact ne_length_of_inHeap ha hx
  · intro x hx hox
    cases hox
    exact ne_length_of_inHeap ho hx

/-- `Key` and `Value` hand out a slice that holds the bytes, and keep the
frame. -/
theorem arenaCopy_spec (capacity : Int) (b : Bytes) (ha : a.buf.InHeap h) (ho : o.buf.InHeap h)
    (hap : ∀ x, a.buf.arr = some x → o.buf.arr ≠ some x) :
    ∃ out, (arenaCopy grow a capacity h b).1 = .ok out ∧
      ArenaStep o a h (arenaCopy grow a capacity h b).2.1 (arenaCopy grow a capacity h b).2.2 ∧
      Handed o (arenaCopy grow a capacity h b).2.1 (arenaCopy grow a capacity h b).2.2 out b := by
  have hinit := init_arenaStep capacity ha ho hap
  have ho' : o.buf.InHeap (a.init h capacity).2 := ho.mono hinit.grows
  unfold arenaCopy
  dsimp only
  by_cases hfit : b.length > (a.init h capacity).1.buf.cap - (a.init h capacity).1.buf.len
  · -- the bytes get a slice of their own
    obtain ⟨hstep, hhand⟩ := make_copy_handed hinit.inHeap ho' hinit.apart (b := b)
    rw [copy_not_fits grow hfit]
    exact ⟨_, rfl, hinit.trans hstep, hhand⟩
  · obtain ⟨out, hcopy, hstep, hhand⟩ := copy_fits grow hfit hinit.inHeap hinit.apart (o := o)
    rw [hcopy]
    exact ⟨out, rfl, hinit.trans hstep, hhand⟩

end Copy

/-! ## The iterator's arenas over a run -/

/-- A slice no later call writes under, with arenas `a` and `o`: in the heap,
and ending by the end of each arena. -/
def FrozenIn (a o : KeyArena) (h : Heap Byte) (t : Slice) : Prop :=
  t.InHeap h ∧ t.Below a.buf ∧ t.Below o.buf

theorem FrozenIn.swap {a o : KeyArena} {h : Heap Byte} {t : Slice} (ht : FrozenIn a o h t) :
    FrozenIn o a h t :=
  ⟨ht.1, ht.2.2, ht.2.1⟩

theorem ArenaStep.frozen {o a a' : KeyArena} {h h' : Heap Byte} (hs : ArenaStep o a h a' h')
    {t : Slice} (ht : FrozenIn a o h t) : FrozenIn a' o h' t ∧ h'.read t = h.read t :=
  ⟨⟨ht.1.mono hs.grows, (hs.frame t ht.1 ht.2.1).2, ht.2.2⟩, (hs.frame t ht.1 ht.2.1).1⟩

theorem Handed.frozen {o a : KeyArena} {h : Heap Byte} {out : Slice} {b : Bytes} (hd : Handed o a h out b) :
    FrozenIn a o h out :=
  ⟨hd.inHeap, hd.below, Slice.Below.of_apart fun x hx hox => hd.apart x hx hox⟩

/-- An iterator's arenas lie in the heap, apart. -/
structure ArenaInv (it : ArenaCoreIterator) (h : Heap Byte) : Prop where
  key_inHeap : it.keyArena.buf.InHeap h
  val_inHeap : it.valArena.buf.InHeap h
  apart : ∀ x, it.keyArena.buf.arr = some x → it.valArena.buf.arr ≠ some x

theorem ArenaInv.apart_val {it : ArenaCoreIterator} {h : Heap Byte} (hi : ArenaInv it h) :
    ∀ x, it.valArena.buf.arr = some x → it.keyArena.buf.arr ≠ some x :=
  fun x hv hk => hi.apart x hk hv

/-- The slices of the iterator's heap that no later call writes under. -/
def Frozen (s : ArenaCoreIterator × Heap Byte) (t : Slice) : Prop :=
  FrozenIn s.1.keyArena s.1.valArena s.2 t

/-- How one call may change the state: the arenas stay in the heap and
apart, and every frozen slice stays frozen and sees what it saw. -/
structure Framed (s s' : ArenaCoreIterator × Heap Byte) : Prop where
  inv : ArenaInv s'.1 s'.2
  frozen : ∀ t, Frozen s t → Frozen s' t ∧ s'.2.read t = s.2.read t

theorem Framed.refl {s : ArenaCoreIterator × Heap Byte} (hi : ArenaInv s.1 s.2) : Framed s s :=
  ⟨hi, fun _ ht => ⟨ht, rfl⟩⟩

section Calls

variable (grow : Nat → Nat → Nat) {it : ArenaCoreIterator} {h : Heap Byte}

theorem Key_invalid (hv : it.Valid = false) : it.Key grow h = (.error (.panic "iterator is invalid"), it, h) := by
  simp [ArenaCoreIterator.Key, ArenaCoreIterator.assertIsValid, hv]

theorem Value_invalid (hv : it.Valid = false) :
    it.Value grow h = (.error (.panic "iterator is invalid"), it, h) := by
  simp [ArenaCoreIterator.Value, ArenaCoreIterator.assertIsValid, hv]

/-- `Key` on a valid iterator hands out a frozen slice that holds the key. -/
theorem Key_spec (hv : it.Valid = true) (hi : ArenaInv it h) :
    ∃ out, (it.Key grow h).1 = .ok out ∧ (it.Key grow h).2.1.toCoreIterator = it.toCoreIterator ∧
      Framed (it, h) (it.Key grow h).2 ∧ Frozen (it.Key grow h).2 out ∧
      (it.Key grow h).2.2.read out = it.iter.Key := by
  obtain ⟨out, hout, hstep, hhand⟩ :=
    arenaCopy_spec grow (64 * 1024) it.iter.Key hi.key_inHeap hi.val_inHeap hi.apart
  have hkey : it.Key grow h = ((arenaCopy grow it.keyArena (64 * 1024) h it.iter.Key).1,
      { it with keyArena := (arenaCopy grow it.keyArena (64 * 1024) h it.iter.Key).2.1 },
      (arenaCopy grow it.keyArena (64 * 1024) h it.iter.Key).2.2) := by
    simp [ArenaCoreIterator.Key, ArenaCoreIterator.assertIsValid, hv]
  rw [hkey]
  refine ⟨out, hout, rfl, ⟨⟨hstep.inHeap, hi.val_inHeap.mono hstep.grows, hstep.apart⟩,
    fun t ht => hstep.frozen ht⟩, hhand.frozen, hhand.reads⟩

/-- `Value` on a valid iterator hands out a frozen slice that holds the
value. -/
theorem Value_spec (hv : it.Valid = true) (hi : ArenaInv it h) :
    ∃ out, (it.Value grow h).1 = .ok out ∧ (it.Value grow h).2.1.toCoreIterator = it.toCoreIterator ∧
      Framed (it, h) (it.Value grow h).2 ∧ Frozen (it.Value grow h).2 out ∧
      (it.Value grow h).2.2.read out = it.iter.Value := by
  obtain ⟨out, hout, hstep, hhand⟩ :=
    arenaCopy_spec grow (256 * 1024) it.iter.Value hi.val_inHeap hi.key_inHeap hi.apart_val
  have hval : it.Value grow h = ((arenaCopy grow it.valArena (256 * 1024) h it.iter.Value).1,
      { it with valArena := (arenaCopy grow it.valArena (256 * 1024) h it.iter.Value).2.1 },
      (arenaCopy grow it.valArena (256 * 1024) h it.iter.Value).2.2) := by
    simp [ArenaCoreIterator.Value, ArenaCoreIterator.assertIsValid, hv]
  rw [hval]
  -- the roles of the arenas are swapped: the value arena is the one copied into
  refine ⟨out, hout, rfl, ⟨⟨hi.key_inHeap.mono hstep.grows, hstep.inHeap,
    fun x hk hv' => hstep.apart x hv' hk⟩, fun t ht => ?_⟩, hhand.frozen.swap, hhand.reads⟩
  obtain ⟨ht', hr⟩ := hstep.frozen ht.swap
  exact ⟨ht'.swap, hr⟩

/-- Whether one reply of the arena iterator stands for the copying
iterator's, in a state: read in its heap it is that reply, and a slice it
hands out is frozen there. -/
def Kept (s : ArenaCoreIterator × Heap Byte) (r : Go (IterReply Slice)) (r' : Go (IterReply Bytes)) :
    Prop :=
  r.map (IterReply.read s.2) = r' ∧ ∀ out, r = .ok (.bytes out) → Frozen s out

/-- The arena iterator and the copying one, at the same position, with the
arenas in the heap and apart. -/
def Sim (s : ArenaCoreIterator × Heap Byte) (it : CoreIterator) : Prop :=
  s.1.toCoreIterator = it ∧ ArenaInv s.1 s.2

theorem Next_valid (hv : it.Valid = true) : it.Next = (.ok (), { it with iter := it.iter.Next }) := by
  simp [ArenaCoreIterator.Next, ArenaCoreIterator.assertIsValid, hv]

theorem Next_invalid (hv : it.Valid = false) : it.Next = (.error (.panic "iterator is invalid"), it) := by
  simp [ArenaCoreIterator.Next, ArenaCoreIterator.assertIsValid, hv]

/-- The copying iterator checks what the arena iterator's `Valid` answers. -/
theorem valid_toCoreIterator (it : ArenaCoreIterator) : (coreIterOps.valid it.toCoreIterator).1 = it.Valid :=
  rfl

/-- One call keeps the frame. -/
theorem arenaStep_framed (s : ArenaCoreIterator × Heap Byte) (hi : ArenaInv s.1 s.2) (i : IterCall) :
    Framed s (arenaStep grow s i).1 := by
  cases i with
  | next =>
    -- `Next` moves the source iterator only
    cases hv : s.1.Valid
    · simp only [arenaStep, Next_invalid hv]
      exact Framed.refl hi
    · simp only [arenaStep, Next_valid hv]
      exact ⟨⟨hi.key_inHeap, hi.val_inHeap, hi.apart⟩, fun _ ht => ⟨ht, rfl⟩⟩
  | key =>
    cases hv : s.1.Valid
    · simp only [arenaStep, Key_invalid grow hv]
      exact Framed.refl hi
    · exact (Key_spec grow hv hi).choose_spec.2.2.1
  | value =>
    cases hv : s.1.Valid
    · simp only [arenaStep, Value_invalid grow hv]
      exact Framed.refl hi
    · exact (Value_spec grow hv hi).choose_spec.2.2.1
  | _ => exact Framed.refl hi

/-- A panic stands for a panic, and a reply without bytes for itself. -/
theorem kept_of_map {s : ArenaCoreIterator × Heap Byte} {r : Go (IterReply Slice)} {r' : Go (IterReply Bytes)}
    (hr : r.map (IterReply.read s.2) = r') (hno : ∀ out, r ≠ .ok (.bytes out)) : Kept s r r' :=
  ⟨hr, fun out ho => absurd ho (hno out)⟩

/-- One call of each, from the same position: the same position after, and
the reply stands for the copying iterator's. -/
theorem arenaStep_sim (s : ArenaCoreIterator × Heap Byte) (it : CoreIterator) (hs : Sim s it)
    (i : IterCall) :
    Sim (arenaStep grow s i).1 (copyStep it i).1 ∧
      Kept (arenaStep grow s i).1 (arenaStep grow s i).2 (copyStep it i).2 := by
  obtain ⟨rfl, hi⟩ := hs
  cases i with
  | domain => exact ⟨⟨rfl, hi⟩, kept_of_map rfl fun _ h => nomatch h⟩
  | valid => exact ⟨⟨rfl, hi⟩, kept_of_map rfl fun _ h => nomatch h⟩
  | error => exact ⟨⟨rfl, hi⟩, kept_of_map rfl fun _ h => nomatch h⟩
  | next =>
    cases hv : s.1.Valid
    · simp only [arenaStep, copyStep, Next_invalid hv, valid_toCoreIterator, hv]
      exact ⟨⟨rfl, hi⟩, kept_of_map rfl fun _ h => nomatch h⟩
    · simp only [arenaStep, copyStep, Next_valid hv, valid_toCoreIterator, hv, if_true]
      exact ⟨⟨rfl, hi.key_inHeap, hi.val_inHeap, hi.apart⟩, kept_of_map rfl fun _ h => nomatch h⟩
  | key =>
    cases hv : s.1.Valid
    · simp only [arenaStep, copyStep, Key_invalid grow hv, valid_toCoreIterator, hv]
      exact ⟨⟨rfl, hi⟩, kept_of_map rfl fun _ h => nomatch h⟩
    · -- the slice handed out holds the key, and is frozen
      obtain ⟨out, hout, hcore, hframed, hfr, hread⟩ := Key_spec grow hv hi
      simp only [arenaStep, copyStep, hout, valid_toCoreIterator, hv, if_true]
      refine ⟨⟨hcore, hframed.inv⟩, ?_, fun o ho => ?_⟩
      · simp [Except.map, IterReply.read, hread, coreIterOps, cp]
      · cases ho
        exact hfr
  | value =>
    cases hv : s.1.Valid
    · simp only [arenaStep, copyStep, Value_invalid grow hv, valid_toCoreIterator, hv]
      exact ⟨⟨rfl, hi⟩, kept_of_map rfl fun _ h => nomatch h⟩
    · obtain ⟨out, hout, hcore, hframed, hfr, hread⟩ := Value_spec grow hv hi
      simp only [arenaStep, copyStep, hout, valid_toCoreIterator, hv, if_true]
      refine ⟨⟨hcore, hframed.inv⟩, ?_, fun o ho => ?_⟩
      · simp [Except.map, IterReply.read, hread, coreIterOps, cp]
      · cases ho
        exact hfr

/-- A reply stands for the copying iterator's in every later state. -/
theorem kept_step (s : ArenaCoreIterator × Heap Byte) (it : CoreIterator) (i : IterCall)
    (r : Go (IterReply Slice)) (r' : Go (IterReply Bytes)) (hs : Sim s it) (hk : Kept s r r') :
    Kept (arenaStep grow s i).1 r r' := by
  have hframed := arenaStep_framed grow s hs.2 i
  refine ⟨?_, fun out ho => (hframed.frozen out (hk.2 out ho)).1⟩
  rw [← hk.1]
  -- only a slice's reading could change, and a handed-out slice is frozen
  rcases r with f | (_ | _ | _ | out | _) <;> try rfl
  simp [Except.map, IterReply.read, (hframed.frozen out (hk.2 out rfl)).2]

end Calls

/-- Over every run of calls on a `coreIterator` as opened, whatever the heap
holds, the arena iterator ends where the copying one does, and every reply,
its bytes read at the end of the run, is the copying iterator's: no later call
overwrites bytes `Key` or `Value` handed out. -/
theorem arenaIterator_refines_copies (grow : Nat → Nat → Nat) (it : CoreIterator) (h : Heap Byte)
    (calls : List IterCall) :
    (run (arenaStep grow) (ArenaCoreIterator.ofCore it, h) calls).1.1.toCoreIterator =
        (run copyStep it calls).1 ∧
      (run (arenaStep grow) (ArenaCoreIterator.ofCore it, h) calls).2.map
          (·.map (IterReply.read (run (arenaStep grow) (ArenaCoreIterator.ofCore it, h) calls).1.2)) =
        (run copyStep it calls).2 := by
  have hinit : Sim (ArenaCoreIterator.ofCore it, h) it :=
    ⟨rfl, (fun _ hx => by cases hx), (fun _ hx => by cases hx), (fun _ hx => by cases hx)⟩
  obtain ⟨hR, hout⟩ := run_simulation_kept (arenaStep grow) copyStep Sim Kept
    (fun s t i hs => arenaStep_sim grow s t hs i)
    (fun s t i r r' hs hk => kept_step grow s t i r r' hs hk) calls hinit
  refine ⟨hR.1, ?_⟩
  -- every reply read at the end is the copying iterator's
  rw [← List.forall₂_eq_eq_eq, List.forall₂_map_left_iff]
  exact hout.imp fun _ _ hk => hk.1

/-- A key and a value handed out, then the next key: the first key still
holds its bytes, although the second went into the same arena after it. -/
example :
    (run (arenaStep fun _ n => n)
        (ArenaCoreIterator.ofCore ⟨.kv ⟨[([1], [10]), ([2, 3], [20])], none⟩, none, none⟩, [])
        [.key, .value, .next, .key]).2.map
      (·.map (IterReply.read (run (arenaStep fun _ n => n)
        (ArenaCoreIterator.ofCore ⟨.kv ⟨[([1], [10]), ([2, 3], [20])], none⟩, none, none⟩, [])
        [.key, .value, .next, .key]).1.2)) =
      [.ok (.bytes [1]), .ok (.bytes [10]), .ok .done, .ok (.bytes [2, 3])] := by
  decide

end CosmosDb
