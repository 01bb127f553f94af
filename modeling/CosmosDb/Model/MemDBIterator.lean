import CosmosDb.Model.MemDB

/-!
# CosmosDb — what a `MemDB` iterator yields

Over a B-tree that behaves as documented (`IsOrderedBTree`), every iterator
constructor of `MemDB` yields exactly the entries of `[start, end)`, ascending
or descending, whichever of the six traversals the goroutine picks.

The ascending traversals visit their range already cut to size and the
visitor sends everything (`visit_memDBVisitor_all`). The descending ones
visit `(start, end]`-shaped ranges from the top: the visitor skips the item
equal to `end` once and stops at the first key below `start`. On a strictly
descending list that sends exactly the keys other than `end` that are at
least `start` (`visit_memDBVisitor_descending`).

Results:

* `memDBTraverse_eq` — the traversal sends the range of the map;
* `memIterOps_yields_remaining` — an iterator yields its current item and
  what is left in the channel;
* `memDBIterator_staysInvalid` — an invalid iterator stays invalid.
-/

namespace CosmosDb

/-! ## The visitor -/

theorem visit_memDBVisitor_all (l acc : List (Bytes × Bytes)) :
    visit memDBVisitor ⟨none, none, acc⟩ l = ⟨none, none, acc ++ l⟩ := by
  induction l generalizing acc with
  | nil => simp
  | cons x l ih =>
    have hv : memDBVisitor ⟨none, none, acc⟩ x = (true, ⟨none, none, acc ++ [x]⟩) := by
      simp [memDBVisitor]
    rw [visit_cons_of_continue hv, ih]
    simp

/-- On a strictly descending list whose keys are all at most the skipped key,
the visitor sends the keys other than the skipped one that are at least the
abort bound. -/
theorem visit_memDBVisitor_descending {l : List (Bytes × Bytes)}
    (hl : l.Pairwise fun x y => y.1 < x.1) :
    ∀ (skip abort : Option Bytes) (acc : List (Bytes × Bytes)),
      (∀ x ∈ l, ∀ e, skip = some e → x.1 ≤ e) →
      (visit memDBVisitor ⟨skip, abort, acc⟩ l).sent =
        acc ++ (l.filter fun x => skip != some x.1).filter
          fun x => decide (abort.getD [] ≤ x.1) := by
  induction l with
  | nil => intro _ _ _ _; simp
  | cons x l ih =>
    intro skip abort acc hskip
    obtain ⟨hx, hl'⟩ := List.pairwise_cons.mp hl
    by_cases hs : skip = some x.1
    · -- the item equal to `end`: skipped once, and every later key is below it
      subst hs
      have hv : memDBVisitor ⟨some x.1, abort, acc⟩ x = (true, ⟨none, abort, acc⟩) := by
        simp [memDBVisitor]
      have hkeep : (l.filter fun y => some x.1 != some y.1) = l := by
        apply List.filter_eq_self.mpr
        intro y hy
        simpa using (ne_of_gt (hx y hy))
      have hnone : (l.filter fun y => (none : Option Bytes) != some y.1) = l :=
        List.filter_eq_self.mpr (by simp)
      rw [visit_cons_of_continue hv, ih hl' none abort acc (by simp), hnone]
      simp [hkeep]
    · by_cases ha : (abort.any fun a => decide (x.1 < a)) = true
      · -- below `start`: the traversal stops, and every later key is lower still
        obtain ⟨a, rfl, hxa⟩ : ∃ a, abort = some a ∧ x.1 < a := by
          cases abort with
          | none => simp at ha
          | some a => exact ⟨a, rfl, by simpa using ha⟩
        have hv : memDBVisitor ⟨skip, some a, acc⟩ x = (false, ⟨skip, some a, acc⟩) := by
          simp [memDBVisitor, hs, hxa]
        have hnil : (((x :: l).filter fun y => skip != some y.1).filter
            fun y => decide ((some a).getD [] ≤ y.1)) = [] := by
          rw [List.filter_eq_nil_iff]
          intro y hy
          have hyx : y.1 ≤ x.1 := by
            rcases List.mem_cons.mp (List.mem_of_mem_filter hy) with rfl | hy'
            · exact le_rfl
            · exact le_of_lt (hx y hy')
          simpa using lt_of_le_of_lt hyx hxa
        rw [visit_cons_of_stop hv, hnil]
        simp
      · -- sent, and the visit goes on with the same bounds
        have hv : memDBVisitor ⟨skip, abort, acc⟩ x = (true, ⟨skip, abort, acc ++ [x]⟩) := by
          simp only [memDBVisitor, beq_iff_eq, hs, if_false, Bool.not_eq_true] at ha ⊢
          simp [ha]
        have hP : abort.getD [] ≤ x.1 := by
          cases abort with
          | none => exact Lex.nil_le x.1
          | some a => simpa using ha
        rw [visit_cons_of_continue hv,
          ih hl' skip abort (acc ++ [x]) (fun y hy => hskip y (List.mem_cons_of_mem x hy))]
        simp [hs, hP]

/-- The filters of the last case: keys at most `end`, not `end`, at least `lo`. -/
theorem filter_descendLessOrEqual (E : List (Bytes × Bytes)) (lo e : Bytes) :
    (((E.filter fun x => decide (x.1 ≤ e)).reverse.filter fun x => some e != some x.1).filter
        fun x => decide (lo ≤ x.1)) =
      (E.filter fun x => decide (lo ≤ x.1 ∧ x.1 < e)).reverse := by
  rw [List.filter_reverse, List.filter_reverse, List.filter_filter, List.filter_filter]
  congr 1
  apply List.filter_congr
  intro x _
  by_cases h : x.1 = e
  · simp [h]
  · have hne : (some e != some x.1) = true := bne_iff_ne.mpr (by simpa using Ne.symm h)
    simp [hne, lt_iff_le_and_ne, h, and_comm]

/-! ## The six traversals -/

section Traverse

variable {T : Type} {bt : BTreeOps T} {contents : T → KVMap}

/-- The goroutine sends the entries of `[start, end)`, ascending, or
descending for a reverse iterator. -/
theorem memDBTraverse_eq (hbt : IsOrderedBTree bt contents) (t : T) (start «end» : Option Bytes)
    (reverse : Bool) :
    memDBTraverse bt t start «end» reverse =
      if reverse then (mapRange (contents t) start «end»).reverse
      else mapRange (contents t) start «end» := by
  -- the entries, and any part of them, reversed are strictly descending
  have hdesc : ∀ p : Bytes × Bytes → Bool,
      (((contents t).entries.filter p).reverse).Pairwise fun x y => y.1 < x.1 :=
    fun p => List.pairwise_reverse.mpr ((contents t).ascend.filter p)
  unfold memDBTraverse
  cases start with
  | none =>
    cases «end» with
    | none =>
      cases reverse with
      | false => simp [hbt.ascend, visit_memDBVisitor_all, mapRange_none_none]
      | true => simp [hbt.descend, visit_memDBVisitor_all, mapRange_none_none]
    | some e =>
      cases reverse with
      | false => simp [hbt.ascendRange, visit_memDBVisitor_all, mapRange_some]
      | true =>
        -- `DescendLessOrEqual(end)`, skipping `end`, with no lower bound
        have hle : ∀ x ∈ ((contents t).entries.filter fun x => decide (x.1 ≤ e)).reverse,
            ∀ e', some e = some e' → x.1 ≤ e' := by
          intro x hx e' he'
          cases he'
          simpa using (List.mem_filter.mp (List.mem_reverse.mp hx)).2
        simp only [hbt.descendLessOrEqual, if_true]
        rw [visit_memDBVisitor_descending (hdesc _) _ _ _ hle, List.nil_append,
          filter_descendLessOrEqual, mapRange_some]
  | some s =>
    cases «end» with
    | none =>
      cases reverse with
      | false => simp [hbt.ascendGreaterOrEqual, visit_memDBVisitor_all, mapRange_some_none]
      | true =>
        -- `Descend`, stopping below `start`
        have hdesc' := hdesc fun _ => true
        rw [List.filter_true] at hdesc'
        simp only [hbt.descend, if_true]
        have hnone : ∀ x : Bytes × Bytes, ((none : Option Bytes) != some x.1) = true :=
          fun x => bne_iff_ne.mpr (by simp)
        rw [visit_memDBVisitor_descending hdesc' _ _ _ (by simp), List.nil_append,
          mapRange_some_none, List.filter_reverse]
        simp [hnone]
    | some e =>
      cases reverse with
      | false => simp [hbt.ascendRange, visit_memDBVisitor_all, mapRange_some]
      | true =>
        -- `DescendLessOrEqual(end)`, skipping `end` and stopping below `start`
        have hle : ∀ x ∈ ((contents t).entries.filter fun x => decide (x.1 ≤ e)).reverse,
            ∀ e', some e = some e' → x.1 ≤ e' := by
          intro x hx e' he'
          cases he'
          simpa using (List.mem_filter.mp (List.mem_reverse.mp hx)).2
        simp only [hbt.descendLessOrEqual, if_true]
        rw [visit_memDBVisitor_descending (hdesc _) _ _ _ hle, List.nil_append,
          filter_descendLessOrEqual, mapRange_some]

end Traverse

/-! ## The iterator -/

/-- The entries an iterator has still to yield: its current item, then what
is left in the channel. -/
def MemDBIterator.remaining (i : MemDBIterator) : List (Bytes × Bytes) :=
  match i.item with
  | none => []
  | some x => x :: i.ch

theorem memIterOps_yields_remaining (i : MemDBIterator) : memIterOps.Yields i i.remaining := by
  refine IterOps.yields_of_simulation (fun j l => l = j.remaining) ?_ ?_ rfl
  · intro j hj
    cases hitem : j.item with
    | none => simp [memIterOps, MemDBIterator.Valid, hitem]
    | some x => simp [MemDBIterator.remaining, hitem] at hj
  · intro j a l hj
    cases hitem : j.item with
    | none => simp [MemDBIterator.remaining, hitem] at hj
    | some x =>
      simp only [MemDBIterator.remaining, hitem, List.cons.injEq] at hj
      obtain ⟨rfl, rfl⟩ := hj
      refine ⟨j, by simp [memIterOps, MemDBIterator.Valid, hitem], ?_, ?_⟩
      · simp [memIterOps, MemDBIterator.Key, MemDBIterator.Value, hitem]
      · -- `Next` receives the next item, or nil from the drained channel
        cases hch : j.ch with
        | nil =>
          simp [memIterOps, MemDBIterator.Next, MemDBIterator.receive, MemDBIterator.remaining, hch]
        | cons y rest =>
          simp [memIterOps, MemDBIterator.Next, MemDBIterator.receive, MemDBIterator.remaining, hch]

theorem remaining_newMemDBIteratorMtxChoice {T : Type} (bt : BTreeOps T) (t : T)
    (start «end» : Option Bytes) (reverse useMtx : Bool) :
    (newMemDBIteratorMtxChoice bt t start «end» reverse useMtx).remaining =
      memDBTraverse bt t start «end» reverse := by
  unfold newMemDBIteratorMtxChoice
  cases memDBTraverse bt t start «end» reverse <;> rfl

theorem memDBIteratorEntries_eq (i : MemDBIterator) : memDBIteratorEntries i = i.remaining := by
  apply (memIterOps_yields_remaining i).drain_eq
  have hlen : i.remaining.length ≤ i.ch.length + 1 := by
    unfold MemDBIterator.remaining
    split <;> simp
  omega

/-- `Valid` does not move the iterator, so once it answers false it keeps
answering false. -/
theorem memDBIterator_staysInvalid {i : MemDBIterator} (h : (memIterOps.valid i).1 = false) :
    memIterOps.StaysInvalid i := by
  refine IterOps.staysInvalid_of_closed (fun j => j.item = none) ?_ ?_
  · intro j hj
    simp [memIterOps, MemDBIterator.Valid, hj]
  · simpa [memIterOps, MemDBIterator.Valid] using h

section Methods

variable {T : Type} {bt : BTreeOps T} {contents : T → KVMap}

theorem memDB_iterator_eq (hbt : IsOrderedBTree bt contents) (db : MemDB T)
    (start «end» : Option Bytes) :
    (memDB bt).iterator db start «end» = mapDB.iterator (contents db.btree) start «end» := by
  simp only [memDB, MemDB.Iterator, MemDB.newIterator, mapDB]
  split_ifs
  · rfl
  · simp [Except.map, memDBIteratorEntries_eq, remaining_newMemDBIteratorMtxChoice,
      memDBTraverse_eq hbt]

theorem memDB_reverseIterator_eq (hbt : IsOrderedBTree bt contents) (db : MemDB T)
    (start «end» : Option Bytes) :
    (memDB bt).reverseIterator db start «end» =
      mapDB.reverseIterator (contents db.btree) start «end» := by
  simp only [memDB, MemDB.ReverseIterator, MemDB.newIterator, mapDB]
  split_ifs
  · rfl
  · simp [Except.map, memDBIteratorEntries_eq, remaining_newMemDBIteratorMtxChoice,
      memDBTraverse_eq hbt]

end Methods

/-- Each of `Iterator`, `ReverseIterator`, `IteratorNoMtx` and
`ReverseIteratorNoMtx`, with bounds that are nil or nonempty, returns an
iterator that yields exactly the stored entries of `[start, end)`, strictly
ascending, or descending for the reverse ones; and an iterator that is
invalid stays invalid. -/
theorem memDB_iterators_yield_range {T : Type} (bt : BTreeOps T) (contents : T → KVMap)
    (hbt : IsOrderedBTree bt contents) (db : MemDB T) (start «end» : Option Bytes)
    (hb : hasEmptyBound start «end» = false) (reverse useMtx : Bool) :
    ∃ i, MemDB.newIterator bt db start «end» reverse useMtx = .ok i ∧
      memIterOps.Yields i
        (if reverse then (mapRange (contents db.btree) start «end»).reverse
          else mapRange (contents db.btree) start «end») ∧
      (mapRange (contents db.btree) start «end»).Pairwise (fun x y => x.1 < y.1) ∧
      ∀ j, (memIterOps.valid j).1 = false → memIterOps.StaysInvalid j := by
  refine ⟨newMemDBIteratorMtxChoice bt db.btree start «end» reverse useMtx, ?_, ?_, ?_, ?_⟩
  · simp [MemDB.newIterator, hb]
  · have h := memIterOps_yields_remaining (newMemDBIteratorMtxChoice bt db.btree start «end» reverse useMtx)
    rwa [remaining_newMemDBIteratorMtxChoice, memDBTraverse_eq hbt] at h
  · -- the range is part of the map's entries, which ascend
    exact (contents db.btree).ascend.filter _
  · intro j hj
    exact memDBIterator_staysInvalid hj

theorem memDB_iterators_yield_range_reverse :
    hasEmptyBound (some [1]) (some [5]) = false ∧
      ∃ i, MemDB.newIterator sortedMapBTree ⟨((SortedMap.empty : KVMap).set [1] [10]).set [5] [50]⟩
          (some [1]) (some [5]) true false = .ok i ∧
        memIterOps.Yields i
          (if true then (mapRange (((SortedMap.empty : KVMap).set [1] [10]).set [5] [50])
              (some [1]) (some [5])).reverse
            else mapRange (((SortedMap.empty : KVMap).set [1] [10]).set [5] [50]) (some [1]) (some [5])) ∧
        (mapRange (((SortedMap.empty : KVMap).set [1] [10]).set [5] [50]) (some [1]) (some [5])).Pairwise
          (fun x y => x.1 < y.1) ∧
        ∀ j, (memIterOps.valid j).1 = false → memIterOps.StaysInvalid j :=
  ⟨by decide, memDB_iterators_yield_range sortedMapBTree id sortedMapBTree_isOrdered
    ⟨((SortedMap.empty : KVMap).set [1] [10]).set [5] [50]⟩ (some [1]) (some [5]) (by decide) true false⟩

end CosmosDb
