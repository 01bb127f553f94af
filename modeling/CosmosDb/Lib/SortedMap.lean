import Mathlib

/-!
# Sorted association lists

A finite map kept as the list of its entries, keys strictly ascending. The
representation is canonical: two such lists with the same lookups are equal
(`ext_lookupKey`), so a map can be specified by what `get` returns and an
ordered scan of it is a filter of its entry list.

`SortedMap` packs the list with its ordering invariant, so that no unsorted
map can be built; `MapOp` and `SortedMap.applyOps` replay a recorded list
of writes in order.
-/

namespace CosmosDb

variable {K V : Type} [LinearOrder K]

/-- The keys of an entry list strictly ascend. -/
def KeysAscend (l : List (K × V)) : Prop :=
  l.Pairwise fun a b => a.1 < b.1

/-- The value stored under `k`, if any: the first entry with that key. -/
def lookupKey : List (K × V) → K → Option V
  | [], _ => none
  | e :: l, k => if e.1 = k then some e.2 else lookupKey l k

/-- Insert the entry for `k`, replacing the one there, keeping keys ascending. -/
def insertKey (k : K) (v : V) : List (K × V) → List (K × V)
  | [] => [(k, v)]
  | e :: l =>
    if k < e.1 then (k, v) :: e :: l
    else if k = e.1 then (k, v) :: l
    else e :: insertKey k v l

/-- Remove the entry for `k`. -/
def eraseKey (k : K) (l : List (K × V)) : List (K × V) :=
  l.filter fun e => e.1 ≠ k

/-! ## Lookup -/

@[simp] theorem lookupKey_nil (k : K) : lookupKey ([] : List (K × V)) k = none := rfl

theorem lookupKey_cons (e : K × V) (l : List (K × V)) (k : K) :
    lookupKey (e :: l) k = if e.1 = k then some e.2 else lookupKey l k := rfl

theorem lookupKey_insertKey (k : K) (v : V) (l : List (K × V)) (k' : K) :
    lookupKey (insertKey k v l) k' = if k = k' then some v else lookupKey l k' := by
  induction l with
  | nil => simp [insertKey, lookupKey_cons]
  | cons e l ih =>
    by_cases hlt : k < e.1
    · rw [insertKey, if_pos hlt, lookupKey_cons]
    · by_cases heq : k = e.1
      · -- the old entry for `k` is replaced
        rw [insertKey, if_neg hlt, if_pos heq, lookupKey_cons, lookupKey_cons, ← heq]
        by_cases hk : k = k' <;> simp [hk]
      · rw [insertKey, if_neg hlt, if_neg heq, lookupKey_cons, lookupKey_cons, ih]
        by_cases he : e.1 = k'
        · have hk : k ≠ k' := he ▸ heq
          simp [he, hk]
        · simp [he]

theorem lookupKey_eraseKey (k : K) (l : List (K × V)) (k' : K) :
    lookupKey (eraseKey k l) k' = if k = k' then none else lookupKey l k' := by
  induction l with
  | nil => simp [eraseKey]
  | cons e l ih =>
    simp only [eraseKey, List.filter_cons] at ih ⊢
    by_cases he : e.1 = k
    · subst he
      simp only [ne_eq, not_true_eq_false, decide_false, Bool.false_eq_true, if_false, ih,
        lookupKey_cons]
      split_ifs <;> rfl
    · simp only [ne_eq, he, not_false_eq_true, decide_true, if_true, lookupKey_cons, ih]
      split_ifs <;> simp_all

/-- Below the first key of an ascending list nothing is stored. -/
theorem lookupKey_eq_none_of_lt {e : K × V} {l : List (K × V)} (h : KeysAscend (e :: l))
    {k : K} (hk : k < e.1) : lookupKey (e :: l) k = none := by
  induction l generalizing e with
  | nil => simp [lookupKey_cons, ne_of_gt hk]
  | cons e' l ih =>
    have h' := List.pairwise_cons.mp h
    have htail : KeysAscend (e' :: l) := h'.2
    rw [lookupKey_cons, if_neg (ne_of_gt hk), ih htail (lt_trans hk (h'.1 e' (by simp)))]

/-- The head key of an ascending list is not stored again in its tail. -/
theorem lookupKey_tail_head {e : K × V} {l : List (K × V)} (h : KeysAscend (e :: l)) :
    lookupKey l e.1 = none := by
  cases l with
  | nil => rfl
  | cons e' l' =>
    exact lookupKey_eq_none_of_lt (List.pairwise_cons.mp h).2
      ((List.pairwise_cons.mp h).1 e' (by simp))

/-- In an ascending list, an entry is exactly what lookup returns. -/
theorem mem_iff_lookupKey {l : List (K × V)} (h : KeysAscend l) {k : K} {v : V} :
    (k, v) ∈ l ↔ lookupKey l k = some v := by
  induction l with
  | nil => simp
  | cons e l ih =>
    obtain ⟨k₀, v₀⟩ := e
    have htail : KeysAscend l := (List.pairwise_cons.mp h).2
    rw [List.mem_cons, lookupKey_cons, ih htail]
    by_cases he : k₀ = k
    · subst he
      simp [lookupKey_tail_head h, eq_comm]
    · have hk : k ≠ k₀ := Ne.symm he
      simp [he, hk]

/-- Two ascending entry lists with the same lookups are equal. -/
theorem ext_lookupKey : ∀ {l₁ l₂ : List (K × V)}, KeysAscend l₁ → KeysAscend l₂ →
    (∀ k, lookupKey l₁ k = lookupKey l₂ k) → l₁ = l₂
  | [], [], _, _, _ => rfl
  | [], e :: l, _, _, h => by simpa [lookupKey_cons] using (h e.1).symm
  | e :: l, [], _, _, h => by simpa [lookupKey_cons] using h e.1
  | e₁ :: l₁, e₂ :: l₂, h₁, h₂, h => by
    have hk : e₁.1 = e₂.1 := by
      rcases lt_trichotomy e₁.1 e₂.1 with hlt | heq | hgt
      · have := h e₁.1
        rw [lookupKey_eq_none_of_lt h₂ hlt, lookupKey_cons, if_pos rfl] at this
        exact absurd this (by simp)
      · exact heq
      · have := h e₂.1
        rw [lookupKey_eq_none_of_lt h₁ hgt, lookupKey_cons e₂, if_pos rfl] at this
        exact absurd this (by simp)
    have hv : e₁.2 = e₂.2 := by
      simpa [lookupKey_cons, hk] using h e₂.1
    have htail : l₁ = l₂ := by
      refine ext_lookupKey (List.pairwise_cons.mp h₁).2 (List.pairwise_cons.mp h₂).2 ?_
      intro k
      by_cases hke : e₁.1 = k
      · -- the shared head key is stored in neither tail
        subst hke
        rw [lookupKey_tail_head h₁, hk, lookupKey_tail_head h₂]
      · have hke₂ : ¬e₂.1 = k := by rwa [← hk]
        have := h k
        rwa [lookupKey_cons, lookupKey_cons, if_neg hke, if_neg hke₂] at this
    rw [Prod.ext hk hv, htail]

/-! ## Ordering is preserved -/

theorem mem_insertKey {k : K} {v : V} {l : List (K × V)} {b : K × V}
    (hb : b ∈ insertKey k v l) : b = (k, v) ∨ b ∈ l := by
  induction l with
  | nil => simpa [insertKey] using hb
  | cons e l ih =>
    simp only [insertKey] at hb
    split_ifs at hb
    · simpa using hb
    · rcases List.mem_cons.mp hb with rfl | hb
      · exact Or.inl rfl
      · exact Or.inr (List.mem_cons_of_mem e hb)
    · rcases List.mem_cons.mp hb with rfl | hb
      · exact Or.inr List.mem_cons_self
      · exact (ih hb).imp id (List.mem_cons_of_mem e)

theorem keysAscend_insertKey (k : K) (v : V) {l : List (K × V)} (h : KeysAscend l) :
    KeysAscend (insertKey k v l) := by
  induction l with
  | nil => exact List.pairwise_singleton _ _
  | cons e l ih =>
    have h' := List.pairwise_cons.mp h
    simp only [insertKey]
    split_ifs with hlt heq
    · refine List.pairwise_cons.mpr ⟨fun b hb => ?_, h⟩
      rcases List.mem_cons.mp hb with rfl | hb
      · exact hlt
      · exact lt_trans hlt (h'.1 b hb)
    · subst heq
      exact List.pairwise_cons.mpr ⟨h'.1, h'.2⟩
    · have hgt : e.1 < k := lt_of_le_of_ne (not_lt.mp hlt) (Ne.symm heq)
      refine List.pairwise_cons.mpr ⟨fun b hb => ?_, ih h'.2⟩
      rcases mem_insertKey hb with rfl | hb
      · exact hgt
      · exact h'.1 b hb

theorem keysAscend_eraseKey (k : K) {l : List (K × V)} (h : KeysAscend l) :
    KeysAscend (eraseKey k l) :=
  List.Pairwise.filter _ h

/-! ## Maps -/

/-- A finite map whose entries are kept in strictly ascending key order. -/
structure SortedMap (K V : Type) [LinearOrder K] where
  entries : List (K × V)
  ascend : KeysAscend entries

/-- A write of a recorded batch. -/
inductive MapOp (K V : Type) where
  | set (k : K) (v : V)
  | delete (k : K)
  deriving DecidableEq, Repr

namespace SortedMap

/-- The map with no entries. -/
def empty : SortedMap K V := ⟨[], List.Pairwise.nil⟩

/-- The value stored under `k`. -/
def get (m : SortedMap K V) (k : K) : Option V := lookupKey m.entries k

/-- Store `v` under `k`. -/
def set (m : SortedMap K V) (k : K) (v : V) : SortedMap K V :=
  ⟨insertKey k v m.entries, keysAscend_insertKey k v m.ascend⟩

/-- Remove the entry for `k`. -/
def delete (m : SortedMap K V) (k : K) : SortedMap K V :=
  ⟨eraseKey k m.entries, keysAscend_eraseKey k m.ascend⟩

/-- Apply one recorded write. -/
def applyOp (m : SortedMap K V) : MapOp K V → SortedMap K V
  | .set k v => m.set k v
  | .delete k => m.delete k

/-- Apply recorded writes in recording order. -/
def applyOps (m : SortedMap K V) (ops : List (MapOp K V)) : SortedMap K V :=
  ops.foldl applyOp m

@[simp] theorem get_empty (k : K) : (empty : SortedMap K V).get k = none := rfl

@[simp] theorem get_set (m : SortedMap K V) (k k' : K) (v : V) :
    (m.set k v).get k' = if k = k' then some v else m.get k' :=
  lookupKey_insertKey k v m.entries k'

@[simp] theorem get_delete (m : SortedMap K V) (k k' : K) :
    (m.delete k).get k' = if k = k' then none else m.get k' :=
  lookupKey_eraseKey k m.entries k'

/-- Maps are determined by their lookups. -/
theorem ext_get {m₁ m₂ : SortedMap K V} (h : ∀ k, m₁.get k = m₂.get k) : m₁ = m₂ := by
  obtain ⟨l₁, h₁⟩ := m₁
  obtain ⟨l₂, h₂⟩ := m₂
  have : l₁ = l₂ := ext_lookupKey h₁ h₂ h
  subst this
  rfl

theorem mem_entries_iff (m : SortedMap K V) {k : K} {v : V} :
    (k, v) ∈ m.entries ↔ m.get k = some v :=
  mem_iff_lookupKey m.ascend

@[simp] theorem applyOps_nil (m : SortedMap K V) : m.applyOps [] = m := rfl

@[simp] theorem applyOps_append (m : SortedMap K V) (l₁ l₂ : List (MapOp K V)) :
    m.applyOps (l₁ ++ l₂) = (m.applyOps l₁).applyOps l₂ := by
  simp [applyOps, List.foldl_append]

@[simp] theorem applyOps_cons (m : SortedMap K V) (op : MapOp K V) (l : List (MapOp K V)) :
    m.applyOps (op :: l) = (m.applyOp op).applyOps l := rfl

end SortedMap

end CosmosDb
