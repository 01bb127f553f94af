import Mathlib.Data.List.Basic

/-!
# Go slices over a heap of arrays

A Go slice is a window onto an array: the array it points into, the index of
its first element, its length, and its capacity, how far it may grow in place.
Slices over one array share its elements. `append` writes in place while the
result fits the capacity, where every other slice over those elements sees
the write; past the capacity it copies the slice into a new array, of a
capacity the runtime chooses (`grow`), at least the length needed.

The heap is the list of arrays allocated so far, an array's address its
index; an array is its elements, indexed from zero, and an allocation fills it
with the zero value. Array sizes are left out: a slice's capacity says how far
it may reach, and a read never goes past a slice.

* `Heap.read` — the elements a slice sees;
* `read_write_of_disjoint`, `read_write_self`, `read_alloc` — a write reads
  back, and a write or an allocation elsewhere changes nothing a slice sees;
* `read_append`, `append_of_fits`, `read_append_of_below`, `below_append` —
  `append` gives the slice's elements and the new ones, in place when they
  fit, and leaves every slice below the slice's end (`Slice.Below`) as it was;
* `read_slice`, `read_copy` — what `s[i:j]` and `copy` give.
-/

namespace CosmosDb

/-- A Go slice: nil, or the elements `[off, off + len)` of the array at
address `arr`, which may grow in place up to `off + cap`. A nil slice has no
capacity. -/
structure Slice where
  arr : Option Nat
  off : Nat
  len : Nat
  cap : Nat
  len_le : len ≤ cap
  nil_cap : arr = none → cap = 0

/-- The heap: the arrays allocated so far, each at the address of its index. -/
abbrev Heap (α : Type) := List (Nat → α)

namespace Slice

/-- The nil slice. -/
def nil : Slice := ⟨none, 0, 0, 0, Nat.le_refl 0, fun _ => rfl⟩

/-- `s[i:j]`, or `none` where Go panics: slice bounds out of range. -/
def slice (s : Slice) (i j : Nat) : Option Slice :=
  if h : i ≤ j ∧ j ≤ s.cap then
    some ⟨s.arr, s.off + i, j - i, s.cap - i, by omega, fun hn => by
      have := s.nil_cap hn
      omega⟩
  else none

/-- The slice points into an array the heap has allocated. -/
def InHeap {α : Type} (s : Slice) (h : Heap α) : Prop := ∀ a ∈ s.arr, a < h.length

theorem len_eq_zero_of_arr {s : Slice} (hs : s.arr = none) : s.len = 0 := by
  have := s.len_le
  have := s.nil_cap hs
  omega

theorem InHeap.mono {α : Type} {s : Slice} {h h' : Heap α} (hs : s.InHeap h)
    (hle : h.length ≤ h'.length) : s.InHeap h' :=
  fun a ha => Nat.lt_of_lt_of_le (hs a ha) hle

/-- `t` ends by the end of `s` wherever they point into the same array. -/
def Below (t s : Slice) : Prop := ∀ a, s.arr = some a → t.arr = some a → t.off + t.len ≤ s.off + s.len

theorem Below.of_apart {t s : Slice} (h : ∀ a, s.arr = some a → t.arr ≠ some a) : t.Below s :=
  fun a hs ht => absurd ht (h a hs)

theorem slice_eq {s : Slice} {i j : Nat} {t : Slice} (hs : s.slice i j = some t) :
    i ≤ j ∧ j ≤ s.cap ∧ t.arr = s.arr ∧ t.off = s.off + i ∧ t.len = j - i := by
  unfold slice at hs
  split_ifs at hs with hij
  cases hs
  exact ⟨hij.1, hij.2, rfl, rfl, rfl⟩

theorem slice_isSome {s : Slice} {i j : Nat} (hij : i ≤ j) (hj : j ≤ s.cap) :
    (s.slice i j).isSome := by
  simp [slice, hij, hj]

end Slice

namespace Heap

variable {α : Type}

/-- The elements slice `s` sees. -/
def read (h : Heap α) (s : Slice) : List α :=
  match s.arr.bind fun a => h[a]? with
  | some arr => (List.range s.len).map fun i => arr (s.off + i)
  | none => []

/-- Store `xs` into the array at address `a`, from index `p` on. -/
def write (h : Heap α) (a p : Nat) (xs : List α) : Heap α :=
  h.modify a fun arr i => if p ≤ i then xs.getD (i - p) (arr i) else arr i

/-- Allocate an array of zero values, at the address `h.length`. -/
def alloc [Zero α] (h : Heap α) : Heap α := h ++ [fun _ => 0]

/-- `make([]T, len, cap)`: a slice over a new array. -/
def make [Zero α] (h : Heap α) (len cap : Nat) (hle : len ≤ cap) : Slice × Heap α :=
  (⟨some h.length, 0, len, cap, hle, by simp⟩, h.alloc)

/-- `append(s, xs...)`: in place when the elements fit the capacity; else a
copy of the slice's elements and `xs` in a new array, of capacity
`grow s.cap n` or the length `n` needed, whichever is more. -/
def append [Zero α] (grow : Nat → Nat → Nat) (h : Heap α) (s : Slice) (xs : List α) :
    Slice × Heap α :=
  if hfit : s.len + xs.length ≤ s.cap then
    match s.arr with
    | some a => (⟨some a, s.off, s.len + xs.length, s.cap, hfit, by simp⟩, h.write a (s.off + s.len) xs)
    -- a nil slice has no capacity: nothing is appended
    | none => (s, h)
  else
    let n := s.len + xs.length
    (⟨some h.length, 0, n, max n (grow s.cap n), Nat.le_max_left _ _, by simp⟩,
      h.alloc.write h.length 0 (h.read s ++ xs))

/-- `copy(dst, src)`, given the elements `xs` that `src` sees: the first
`min (len dst) (len src)` of them stored at `dst`, and how many. -/
def copy (h : Heap α) (dst : Slice) (xs : List α) : Nat × Heap α :=
  match dst.arr with
  | some a => (min dst.len xs.length, h.write a dst.off (xs.take dst.len))
  | none => (0, h)

/-! ## Reads -/

theorem read_of_get {h : Heap α} {s : Slice} {a : Nat} {f : Nat → α} (hs : s.arr = some a)
    (hf : h[a]? = some f) : h.read s = (List.range s.len).map fun i => f (s.off + i) := by
  simp only [read, hs, Option.bind_some, hf]

theorem getElem?_read {h : Heap α} {s : Slice} {a : Nat} {f : Nat → α} (hs : s.arr = some a)
    (hf : h[a]? = some f) (i : Nat) :
    (h.read s)[i]? = if i < s.len then some (f (s.off + i)) else none := by
  rw [read_of_get hs hf, List.getElem?_map]
  split_ifs with hi
  · rw [List.getElem?_range hi]
    rfl
  · rw [List.getElem?_eq_none (by simpa using hi)]
    rfl

theorem length_read {h : Heap α} {s : Slice} (hs : s.InHeap h) : (h.read s).length = s.len := by
  cases ha : s.arr with
  | none => simp [read, ha, Slice.len_eq_zero_of_arr ha]
  | some a => simp [read_of_get ha (List.getElem?_eq_getElem (hs a ha))]

theorem length_write (h : Heap α) (a p : Nat) (xs : List α) : (h.write a p xs).length = h.length :=
  List.length_modify _ _ _

theorem length_alloc [Zero α] (h : Heap α) : h.alloc.length = h.length + 1 := by
  simp [alloc]

theorem getElem?_write_self {h : Heap α} {a : Nat} {f : Nat → α} (hf : h[a]? = some f)
    (p : Nat) (xs : List α) :
    (h.write a p xs)[a]? = some fun i => if p ≤ i then xs.getD (i - p) (f i) else f i := by
  simp [write, hf]

theorem getElem?_write_of_ne (h : Heap α) {a b : Nat} (hab : a ≠ b) (p : Nat) (xs : List α) :
    (h.write a p xs)[b]? = h[b]? := by
  simp [write, hab]

/-- A write reads back. -/
theorem read_write_self {h : Heap α} {s : Slice} {a : Nat} (hs : s.arr = some a)
    (ha : a < h.length) {xs : List α} (hlen : s.len = xs.length) :
    (h.write a s.off xs).read s = xs := by
  have hf := List.getElem?_eq_getElem ha
  apply List.ext_getElem?
  intro i
  rw [getElem?_read hs (getElem?_write_self hf s.off xs)]
  by_cases hi : i < s.len
  · rw [if_pos hi]
    simp [List.getD_eq_getElem?_getD, List.getElem?_eq_getElem (hlen ▸ hi : i < xs.length)]
  · rw [if_neg hi]
    exact (List.getElem?_eq_none (by omega)).symm

/-- A write leaves what a slice sees as it was, unless it reaches under the
slice. -/
theorem read_write_of_disjoint (h : Heap α) (a p : Nat) (xs : List α) (s : Slice)
    (hd : s.arr = some a → s.off + s.len ≤ p ∨ p + xs.length ≤ s.off) :
    (h.write a p xs).read s = h.read s := by
  cases hs : s.arr with
  | none => simp [read, hs]
  | some b =>
    by_cases hab : a = b
    · subst hab
      cases hf : h[a]? with
      | none => simp [read, hs, write, List.getElem?_modify, hf]
      | some f =>
        rw [read_of_get hs (getElem?_write_self hf p xs), read_of_get hs hf]
        apply List.map_congr_left
        intro i hi
        rw [List.mem_range] at hi
        -- the elements under the slice lie before or after the write
        rcases hd hs with hle | hle
        · rw [if_neg (by omega)]
        · split_ifs
          · rw [List.getD_eq_getElem?_getD, List.getElem?_eq_none (by omega), Option.getD_none]
          · rfl
    · simp only [read, hs, Option.bind_some, getElem?_write_of_ne h hab]

/-- An allocation leaves what a slice into the heap sees as it was. -/
theorem read_alloc [Zero α] {h : Heap α} {s : Slice} (hs : s.InHeap h) : h.alloc.read s = h.read s := by
  cases ha : s.arr with
  | none => simp [read, ha]
  | some a => simp only [read, ha, Option.bind_some, alloc, List.getElem?_append_left (hs a ha)]

/-! ## `append`, `s[i:j]` and `copy` -/

section Append

variable [Zero α] (grow : Nat → Nat → Nat)

theorem append_of_fits (h : Heap α) {s : Slice} {a : Nat} (hs : s.arr = some a) (xs : List α)
    (hfit : s.len + xs.length ≤ s.cap) :
    h.append grow s xs =
      (⟨some a, s.off, s.len + xs.length, s.cap, hfit, by simp⟩, h.write a (s.off + s.len) xs) := by
  simp only [append, dif_pos hfit]
  split <;> simp_all

/-- Within the capacity, `append` keeps the array, the start and the capacity. -/
theorem append_fields_of_fits (h : Heap α) (s : Slice) (xs : List α)
    (hfit : s.len + xs.length ≤ s.cap) :
    (h.append grow s xs).1.arr = s.arr ∧ (h.append grow s xs).1.off = s.off ∧
      (h.append grow s xs).1.len = s.len + xs.length ∧ (h.append grow s xs).1.cap = s.cap := by
  cases ha : s.arr with
  | some a =>
    rw [append_of_fits grow h ha xs hfit]
    exact ⟨rfl, rfl, rfl, rfl⟩
  | none =>
    -- a nil slice has no capacity, so there was nothing to append
    have hxs : xs.length = 0 := by
      have := s.nil_cap ha
      omega
    simp [append, ha, hxs, s.len_le]

theorem length_append_le (h : Heap α) (s : Slice) (xs : List α) :
    h.length ≤ (h.append grow s xs).2.length := by
  unfold append
  split_ifs
  · split <;> simp [length_write]
  · simp [length_write, length_alloc]

theorem inHeap_append {h : Heap α} {s : Slice} (hs : s.InHeap h) (xs : List α) :
    (h.append grow s xs).1.InHeap (h.append grow s xs).2 := by
  unfold append
  split_ifs
  · split
    · next a ha => simpa [Slice.InHeap, length_write] using hs a ha
    · exact hs
  · simp [Slice.InHeap, length_write, length_alloc]

/-- `append` gives the slice's elements followed by the new ones. -/
theorem read_append (h : Heap α) {s : Slice} (hs : s.InHeap h) (xs : List α) :
    (h.append grow s xs).2.read (h.append grow s xs).1 = h.read s ++ xs := by
  by_cases hfit : s.len + xs.length ≤ s.cap
  · cases ha : s.arr with
    | none =>
      -- a nil slice has no capacity, so there was nothing to append
      have hxs : xs = [] := List.eq_nil_of_length_eq_zero (by
        have := s.nil_cap ha
        omega)
      subst hxs
      simp [append, ha, s.len_le]
    | some a =>
      have hf := List.getElem?_eq_getElem (hs a ha)
      rw [append_of_fits grow h ha xs hfit]
      apply List.ext_getElem?
      intro i
      rw [getElem?_read rfl (getElem?_write_self hf _ xs)]
      dsimp only
      -- before the old end the array is as it was; from there on, `xs`
      by_cases hi : i < s.len
      · rw [if_pos (by omega), if_neg (by omega), List.getElem?_append_left (by rw [length_read hs]; exact hi),
          getElem?_read ha hf, if_pos hi]
      · rw [List.getElem?_append_right (by rw [length_read hs]; omega), length_read hs]
        by_cases hlt : i < s.len + xs.length
        · rw [if_pos hlt, if_pos (by omega)]
          simp [List.getD_eq_getElem?_getD, List.getElem?_eq_getElem (by omega : i - s.len < xs.length),
            show s.off + i - (s.off + s.len) = i - s.len by omega]
        · rw [if_neg hlt]
          exact (List.getElem?_eq_none (by omega)).symm
  · simp only [append, dif_neg hfit]
    apply read_write_self rfl (by simp [length_alloc])
    simp [length_read hs]

/-- `append` leaves what a slice into the heap sees as it was, unless that
slice reaches past the end of the appended one in its array. -/
theorem read_append_of_below (h : Heap α) (s : Slice) (xs : List α) {t : Slice}
    (ht : t.InHeap h) (hd : t.Below s) : (h.append grow s xs).2.read t = h.read t := by
  unfold append
  split_ifs
  · split
    · next a ha => exact read_write_of_disjoint h a _ xs t fun hta => .inl (hd a ha hta)
    · rfl
  · -- the copy goes into the new array, which `t` does not point into
    rw [read_write_of_disjoint _ _ _ _ t fun hta => absurd (ht _ hta) (Nat.lt_irrefl _), read_alloc ht]

/-- A slice below the end of the appended one stays below the end of what
`append` gives. -/
theorem below_append (h : Heap α) (s : Slice) (xs : List α) {t : Slice}
    (ht : t.InHeap h) (hd : t.Below s) : t.Below (h.append grow s xs).1 := by
  unfold append
  split_ifs
  · split
    · next a ha =>
      intro b hb htb
      cases hb
      have := hd _ ha htb
      dsimp only
      omega
    · exact hd
  · -- the new array is not one `t` points into
    exact Slice.Below.of_apart fun b hb htb => by
      cases hb
      exact absurd (ht _ htb) (Nat.lt_irrefl _)

end Append

/-- `s[i:j]` sees the elements `[i, j)` of what `s` sees, when `j` is within
its length. -/
theorem read_slice (h : Heap α) {s t : Slice} {i j : Nat} (hst : s.slice i j = some t)
    (hj : j ≤ s.len) : h.read t = ((h.read s).take j).drop i := by
  obtain ⟨hij, -, harr, hoff, hlen⟩ := Slice.slice_eq hst
  cases ha : s.arr with
  | none =>
    have := Slice.len_eq_zero_of_arr ha
    simp [read, ha, harr]
  | some a =>
    cases hf : h[a]? with
    | none => simp [read, ha, harr, hf]
    | some f =>
      apply List.ext_getElem?
      intro k
      rw [getElem?_read (harr.trans ha) hf, List.getElem?_drop, List.getElem?_take, getElem?_read ha hf,
        hoff, hlen]
      by_cases hk : k < j - i
      · rw [if_pos hk, if_pos (by omega), if_pos (by omega), Nat.add_assoc]
      · rw [if_neg hk, if_neg (by omega)]

/-- `copy` into a slice as long as the elements stores them there. -/
theorem read_copy (h : Heap α) {dst : Slice} {a : Nat} (hd : dst.arr = some a) (ha : a < h.length)
    {xs : List α} (hlen : dst.len = xs.length) : (h.copy dst xs).2.read dst = xs := by
  simp only [copy, hd, hlen, List.take_length]
  exact read_write_self hd ha hlen

/-- `copy` leaves what a slice into another array sees as it was. -/
theorem read_copy_of_ne (h : Heap α) (dst : Slice) (xs : List α) {t : Slice}
    (hne : ∀ a, dst.arr = some a → t.arr ≠ some a) : (h.copy dst xs).2.read t = h.read t := by
  unfold copy
  split
  · next a ha => exact read_write_of_disjoint h a _ _ t fun hta => absurd hta (hne a ha)
  · rfl

theorem length_copy (h : Heap α) (dst : Slice) (xs : List α) : (h.copy dst xs).2.length = h.length := by
  unfold copy
  split
  · exact length_write _ _ _ _
  · rfl

end Heap

end CosmosDb
