import Mathlib.Data.List.TakeWhile
import Mathlib.Data.List.Pairwise

/-!
# Cursors over a list

A seekable cursor in the style of LevelDB's iterators (`First`, `Last`,
`Seek`, `Next`, `Prev`, `Valid`) over a fixed sequence of entries. The
position is an index into the entries, or none once the cursor has moved off
an end; the structure carries its bound (`inRange`), so a position out of
range cannot be built.

A cursor is read through the two lists a walk from it visits: `forward`
(with `next`) and `backward` (with `prev`). Each move is a lemma about these
views, and `Seek` is described by `dropWhile` and `takeWhile`.

On a sorted list, `takeWhile` and `dropWhile` of a monotone test are
`filter`s (`takeWhile_eq_filter`, `dropWhile_eq_filter`): that turns a
walk from a seek position into a range.
-/

namespace CosmosDb

/-! ## Sorted lists -/

section Sorted

variable {α : Type} {R : α → α → Prop} {p : α → Bool}

/-- Along a list ordered by `R`, a test that holds of an element holds of
everything before it: then the longest prefix passing it is everything
passing it. -/
theorem takeWhile_eq_filter {l : List α} (hl : l.Pairwise R)
    (hp : ∀ x y, R x y → p y = true → p x = true) : l.takeWhile p = l.filter p := by
  induction l with
  | nil => rfl
  | cons x l ih =>
    obtain ⟨hx, hl'⟩ := List.pairwise_cons.mp hl
    by_cases hpx : p x = true
    · simp [hpx, ih hl']
    · -- nothing after a failing element passes
      have hnil : l.filter p = [] := by
        rw [List.filter_eq_nil_iff]
        intro y hy hpy
        exact hpx (hp x y (hx y hy) hpy)
      simp [hpx, hnil]

/-- Along a list ordered by `R`, a test that fails of an element fails of
everything after it: then dropping the prefix that passes it leaves
everything failing it. -/
theorem dropWhile_eq_filter {l : List α} (hl : l.Pairwise R)
    (hp : ∀ x y, R x y → p x = false → p y = false) :
    l.dropWhile p = l.filter fun a => !p a := by
  induction l with
  | nil => rfl
  | cons x l ih =>
    obtain ⟨hx, hl'⟩ := List.pairwise_cons.mp hl
    by_cases hpx : p x = true
    · simp [hpx, ih hl']
    · -- everything from the first failing element on fails
      have hpx' : p x = false := by simpa using hpx
      have hall : (l.filter fun a => !p a) = l := by
        apply List.filter_eq_self.mpr
        intro y hy
        simp [hp x y (hx y hy) hpx']
      simp [hpx', hall]

end Sorted

/-! ## The cursor -/

/-- A cursor over `entries`, at the index `pos`, or off the entries. -/
structure ListCursor (α : Type) where
  entries : List α
  pos : Option Nat
  inRange : ∀ i ∈ pos, i < entries.length

namespace ListCursor

variable {α : Type} (c : ListCursor α)

/-- `First`. -/
def first : ListCursor α where
  entries := c.entries
  pos := if c.entries = [] then none else some 0
  inRange i hi := by
    split_ifs at hi with h
    · cases hi
    · cases hi
      exact List.length_pos_iff.mpr h

/-- `Last`. -/
def last : ListCursor α where
  entries := c.entries
  pos := if c.entries = [] then none else some (c.entries.length - 1)
  inRange i hi := by
    split_ifs at hi with h
    · cases hi
    · cases hi
      have := List.length_pos_iff.mpr h
      omega

/-- `Seek`: to the first entry passing `p`, which for a seek to a key is "at
least that key". -/
def seek (p : α → Bool) : ListCursor α where
  entries := c.entries
  pos := if c.entries.findIdx p < c.entries.length then some (c.entries.findIdx p) else none
  inRange i hi := by
    split_ifs at hi with h
    · cases hi
      exact h
    · cases hi

/-- `Next`: off the end after the last entry. -/
def next : ListCursor α where
  entries := c.entries
  pos := c.pos.bind fun i => if i + 1 < c.entries.length then some (i + 1) else none
  inRange i hi := by
    obtain ⟨j, -, hj⟩ := Option.mem_bind_iff.mp hi
    split_ifs at hj with h
    · cases hj
      exact h
    · cases hj

/-- `Prev`: off the end before the first entry. -/
def prev : ListCursor α where
  entries := c.entries
  pos := c.pos.bind fun i => if 0 < i then some (i - 1) else none
  inRange i hi := by
    obtain ⟨j, hj, hij⟩ := Option.mem_bind_iff.mp hi
    have := c.inRange j hj
    split_ifs at hij with h
    · cases hij
      omega
    · cases hij

@[simp] theorem first_entries : c.first.entries = c.entries := rfl
@[simp] theorem last_entries : c.last.entries = c.entries := rfl
@[simp] theorem seek_entries (p : α → Bool) : (c.seek p).entries = c.entries := rfl
@[simp] theorem next_entries : c.next.entries = c.entries := rfl
@[simp] theorem prev_entries : c.prev.entries = c.entries := rfl

/-- `Valid`. -/
def valid : Bool := c.pos.isSome

/-- The entry under the cursor. -/
def current : Option α := c.pos.bind fun i => c.entries[i]?

/-- What a walk forward from here visits. -/
def forward : List α := (c.pos.map fun i => c.entries.drop i).getD []

/-- What a walk backward from here visits. -/
def backward : List α := (c.pos.map fun i => (c.entries.take (i + 1)).reverse).getD []

variable {c}

theorem forward_first : c.first.forward = c.entries := by
  by_cases h : c.entries = []
  · simp [first, forward, h]
  · simp [first, forward, h]

theorem backward_last : c.last.backward = c.entries.reverse := by
  by_cases h : c.entries = []
  · simp [last, backward, h]
  · have hlen := List.length_pos_iff.mpr h
    simp only [last, backward, h, if_false, Option.map_some, Option.getD_some]
    rw [Nat.sub_add_cancel hlen, List.take_length]

theorem forward_seek (p : α → Bool) : (c.seek p).forward = c.entries.dropWhile fun a => !p a := by
  rw [List.dropWhile_eq_drop_findIdx_not]
  simp only [Bool.not_not]
  by_cases h : c.entries.findIdx p < c.entries.length
  · simp [seek, forward, h]
  · -- no entry passes: the seek is off the end, and so is the walk
    simp only [seek, forward, h, if_false, Option.map_none, Option.getD_none]
    exact (List.drop_of_length_le (Nat.le_of_not_lt h)).symm

theorem forward_next : c.next.forward = c.forward.tail := by
  cases hp : c.pos with
  | none => simp [next, forward, hp]
  | some i =>
    have hi := c.inRange i hp
    by_cases h : i + 1 < c.entries.length
    · simp [next, forward, hp, h, List.tail_drop]
    · -- the last entry: nothing follows it
      simp only [next, forward, hp, h, Option.bind_some, if_false, Option.map_none,
        Option.getD_none, Option.map_some, Option.getD_some]
      rw [List.tail_drop, List.drop_of_length_le (by omega)]

theorem backward_prev : c.prev.backward = c.backward.tail := by
  cases hp : c.pos with
  | none => simp [prev, backward, hp]
  | some i =>
    have hi := c.inRange i hp
    -- the entry at `i` heads the backward walk
    have htake : (c.entries.take (i + 1)).reverse = c.entries[i] :: (c.entries.take i).reverse := by
      rw [List.take_succ_eq_append_getElem hi, List.reverse_append]
      rfl
    by_cases h : 0 < i
    · simp only [prev, backward, hp, h, Option.bind_some, if_true, Option.map_some,
        Option.getD_some, htake, List.tail_cons]
      rw [Nat.sub_add_cancel h]
    · have hi0 : i = 0 := by omega
      subst hi0
      simp [prev, backward, hp, htake]

theorem current_of_forward {a : α} {l : List α} (h : c.forward = a :: l) : c.current = some a := by
  cases hp : c.pos with
  | none => simp [forward, hp] at h
  | some i =>
    have hi := c.inRange i hp
    simp only [forward, hp, Option.map_some, Option.getD_some,
      List.drop_eq_getElem_cons hi, List.cons.injEq] at h
    simp [current, hp, hi, h.1]

theorem current_of_backward {a : α} {l : List α} (h : c.backward = a :: l) :
    c.current = some a := by
  cases hp : c.pos with
  | none => simp [backward, hp] at h
  | some i =>
    have hi := c.inRange i hp
    simp only [backward, hp, Option.map_some, Option.getD_some,
      List.take_succ_eq_append_getElem hi, List.reverse_append, List.reverse_cons,
      List.reverse_nil, List.nil_append, List.singleton_append, List.cons.injEq] at h
    simp [current, hp, hi, h.1]

theorem valid_of_current {a : α} (h : c.current = some a) : c.valid = true := by
  cases hp : c.pos with
  | none => simp [current, hp] at h
  | some i => simp [valid, hp]

theorem exists_current_of_valid (h : c.valid = true) : ∃ a, c.current = some a := by
  cases hp : c.pos with
  | none => simp [valid, hp] at h
  | some i =>
    have hi := c.inRange i hp
    exact ⟨c.entries[i], by simp [current, hp, hi]⟩

theorem valid_eq_forward : c.valid = !c.forward.isEmpty := by
  cases hp : c.pos with
  | none => simp [valid, forward, hp]
  | some i =>
    have hi := c.inRange i hp
    simp only [valid, forward, hp, Option.isSome_some, Option.map_some, Option.getD_some]
    rw [List.drop_eq_getElem_cons hi]
    rfl

theorem valid_eq_backward : c.valid = !c.backward.isEmpty := by
  cases hp : c.pos with
  | none => simp [valid, backward, hp]
  | some i =>
    have hne : c.entries ≠ [] := List.ne_nil_of_length_pos (by have := c.inRange i hp; omega)
    simp [valid, backward, hp, hne]

/-- A seek that lands on an entry, then a step back: what precedes the first
entry passing `p`, backward. -/
theorem backward_prev_seek {p : α → Bool} (h : (c.seek p).valid = true) :
    (c.seek p).prev.backward = (c.entries.takeWhile fun a => !p a).reverse := by
  rw [backward_prev, List.takeWhile_eq_take_findIdx_not]
  simp only [Bool.not_not]
  have hlt : c.entries.findIdx p < c.entries.length := by
    by_contra hge
    simp [valid, seek, hge] at h
  have htake : (c.entries.take (c.entries.findIdx p + 1)).reverse =
      c.entries[c.entries.findIdx p] :: (c.entries.take (c.entries.findIdx p)).reverse := by
    rw [List.take_succ_eq_append_getElem hlt, List.reverse_append]
    rfl
  simp [backward, seek, hlt, htake]

/-- A seek lands on an entry passing its test. -/
theorem current_seek {p : α → Bool} {a : α} (h : (c.seek p).current = some a) : p a = true := by
  by_cases hlt : c.entries.findIdx p < c.entries.length
  · simp only [current, seek, hlt, if_true, Option.bind_some, List.getElem?_eq_getElem hlt,
      Option.some.injEq] at h
    rw [← h]
    exact List.findIdx_getElem
  · simp [current, seek, hlt] at h

/-- A seek that finds nothing: every entry fails the test. -/
theorem takeWhile_of_seek_invalid {p : α → Bool} (h : (c.seek p).valid = false) :
    (c.entries.takeWhile fun a => !p a) = c.entries := by
  have hge : ¬ c.entries.findIdx p < c.entries.length := by
    intro hlt
    simp [valid, seek, hlt] at h
  apply List.takeWhile_eq_self_iff.mpr
  intro x hx
  -- an entry passing `p` would give the seek a position
  by_contra hpx
  exact hge (List.findIdx_lt_length_of_exists ⟨x, hx, by simpa using hpx⟩)

end ListCursor

end CosmosDb
