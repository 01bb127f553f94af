import CosmosDb.Model.BackendIterator

/-!
# CosmosDb — what the backend iterator adapters yield

Over a cursor with the usual semantics, each adapter yields exactly the
entries of `[start, end)`, ascending, or descending for a reverse iterator.

A forward adapter yields what a forward walk of its source visits, up to
the first key at `end` or past it (`backend_yields_forward`); a reverse one,
what a backward walk visits, down to the first key below `start`
(`backend_yields_backward`). The starting position supplies the other
bound: a seek to `start`, or a step back from `end`. On sorted entries those
walks are ranges (`forward_range`, `backward_range`).
-/

namespace CosmosDb

/-! ## Ranges of sorted entries -/

section Ranges

variable {E : List (Bytes × Bytes)}

/-- The keys at least `start`, then below `end`, of ascending entries. -/
theorem forward_range (hE : E.Pairwise fun x y => x.1 < y.1) (start «end» : Option Bytes) :
    (E.dropWhile fun e => !decide (start.getD [] ≤ e.1)).takeWhile
        (fun e => !(«end».any fun b => decide (b ≤ e.1))) =
      E.filter fun e => isKeyInDomain e.1 start «end» := by
  -- a key at least `start` is followed by keys at least `start`
  rw [dropWhile_eq_filter hE (fun x y hxy hx => by
      simp only [Bool.not_eq_false', decide_eq_true_eq] at hx ⊢
      simpa using le_of_lt (lt_of_le_of_lt hx hxy))]
  -- a key below `end` is preceded by keys below `end`
  rw [takeWhile_eq_filter (hE.filter _) (fun x y hxy hy => by
      cases «end» with
      | none => rfl
      | some b =>
        simp only [Option.any_some, Bool.not_eq_true', decide_eq_false_iff_not, not_le] at hy ⊢
        exact lt_trans hxy hy), List.filter_filter]
  apply List.filter_congr
  intro x _
  rw [Bool.eq_iff_iff, isKeyInDomain_iff]
  cases «end» <;> simp [and_comm]

/-- The keys below `end`, then at least `start`, of ascending entries, walked
backward. -/
theorem backward_range (hE : E.Pairwise fun x y => x.1 < y.1) (start «end» : Option Bytes) :
    ((E.takeWhile fun e => !(«end».any fun b => decide (b ≤ e.1))).reverse).takeWhile
        (fun e => !(start.any fun s => decide (e.1 < s))) =
      (E.filter fun e => isKeyInDomain e.1 start «end»).reverse := by
  rw [takeWhile_eq_filter hE (fun x y hxy hy => by
      cases «end» with
      | none => rfl
      | some b =>
        simp only [Option.any_some, Bool.not_eq_true', decide_eq_false_iff_not, not_le] at hy ⊢
        exact lt_trans hxy hy)]
  -- walking down, a key at least `start` is preceded by keys at least `start`
  have hdesc : ((E.filter fun e => !(«end».any fun b => decide (b ≤ e.1))).reverse).Pairwise
      fun x y => y.1 < x.1 := List.pairwise_reverse.mpr (hE.filter _)
  rw [takeWhile_eq_filter hdesc (fun x y hyx hy => by
      cases start with
      | none => rfl
      | some s =>
        simp only [Option.any_some, Bool.not_eq_true', decide_eq_false_iff_not, not_lt] at hy ⊢
        exact le_of_lt (lt_of_le_of_lt hy hyx)), List.filter_reverse, List.filter_filter]
  congr 1
  apply List.filter_congr
  intro x _
  rw [Bool.eq_iff_iff, isKeyInDomain_iff]
  cases start <;> cases «end» <;> simp [and_comm, Lex.nil_le]

end Ranges

/-! ## The adapters' walks -/

section Walks

variable {C : Type} {ops : CursorOps C} {abs : C → ListCursor (Bytes × Bytes)}

theorem valid_of_isInvalid {itr : BackendIterator C} (h : itr.isInvalid = true) :
    BackendIterator.Valid ops itr = (false, itr) := by
  simp [BackendIterator.Valid, h]

theorem isInvalid_of_valid_false {itr : BackendIterator C}
    (h : (BackendIterator.Valid ops itr).1 = false) :
    (BackendIterator.Valid ops itr).2.isInvalid = true := by
  unfold BackendIterator.Valid at h ⊢
  dsimp only at h ⊢
  split_ifs at h ⊢ <;> simp_all

/-- Every adapter: once `Valid` answers false it keeps answering false. -/
theorem backend_staysInvalid {itr : BackendIterator C}
    (h : ((backendIterOps ops).valid itr).1 = false) : (backendIterOps ops).StaysInvalid itr := by
  refine IterOps.staysInvalid_of_closed (fun j => ((backendIterOps ops).valid j).1 = false) ?_ h
  intro j hj
  refine ⟨hj, ?_⟩
  -- the false answer recorded `isInvalid`, which makes the next answer false as well
  have hinv := isInvalid_of_valid_false hj
  simp only [backendIterOps] at hinv ⊢
  rw [valid_of_isInvalid hinv]

variable (hops : IsEntryCursor ops abs)
include hops

/-- `Valid` on a source that has run out. -/
theorem valid_of_exhausted {itr : BackendIterator C} (hinv : itr.isInvalid = false)
    (h : (abs itr.source).valid = false) :
    BackendIterator.Valid ops itr = (false, { itr with isInvalid := true }) := by
  simp [BackendIterator.Valid, hinv, hops.error, hops.valid, h]

/-- `Valid` on a source at the entry `a`: only the bound of the direction is checked. -/
theorem valid_of_current {itr : BackendIterator C} (hinv : itr.isInvalid = false)
    {a : Bytes × Bytes} (h : (abs itr.source).current = some a) :
    BackendIterator.Valid ops itr =
      if (if itr.isReverse then itr.start.any fun s => decide (a.1 < s)
          else itr.«end».any fun e => decide (e ≤ a.1))
      then (false, { itr with isInvalid := true }) else (true, itr) := by
  have hvalid : (abs itr.source).valid = true := ListCursor.valid_of_current h
  simp only [BackendIterator.Valid, hinv, hops.error, hops.valid, hvalid, hops.key _ _ h,
    Option.isSome_none, Bool.not_true, Bool.false_eq_true, if_false]
  cases itr.isReverse <;> rfl

theorem current_at {itr : BackendIterator C} {a : Bytes × Bytes}
    (h : (abs itr.source).current = some a) : (backendIterOps ops).current itr = a := by
  simp [backendIterOps, BackendIterator.Key, BackendIterator.Value, cp, hops.key _ _ h,
    hops.value _ _ h]

/-- A forward adapter yields its source's forward walk, up to `end`. -/
theorem backend_yields_forward {itr : BackendIterator C} (hinv : itr.isInvalid = false)
    (hrev : itr.isReverse = false) :
    (backendIterOps ops).Yields itr
      ((abs itr.source).forward.takeWhile fun e => !(itr.«end».any fun b => decide (b ≤ e.1))) := by
  refine IterOps.yields_of_simulation
    (fun j l => j.isInvalid = false ∧ j.isReverse = false ∧ j.«end» = itr.«end» ∧
      l = (abs j.source).forward.takeWhile fun e => !(itr.«end».any fun b => decide (b ≤ e.1)))
    ?_ ?_ ⟨hinv, hrev, rfl, rfl⟩
  · rintro j ⟨hj, hjr, hje, hl⟩
    cases hf : (abs j.source).forward with
    | nil =>
      -- the source has run out
      have hv : (abs j.source).valid = false := by simp [ListCursor.valid_eq_forward, hf]
      simp [backendIterOps, valid_of_exhausted hops hj hv]
    | cons a rest =>
      -- the key under the source is at `end` or past it
      rw [hf, List.takeWhile_cons] at hl
      have hpast : (itr.«end».any fun b => decide (b ≤ a.1)) = true := by
        by_contra hno
        simp [hno] at hl
      simp [backendIterOps, valid_of_current hops hj (ListCursor.current_of_forward hf), hjr, hje,
        hpast]
  · rintro j a l ⟨hj, hjr, hje, hl⟩
    cases hf : (abs j.source).forward with
    | nil => rw [hf] at hl; cases hl
    | cons x rest =>
      rw [hf, List.takeWhile_cons] at hl
      by_cases hpass : (itr.«end».any fun b => decide (b ≤ x.1)) = true
      · simp [hpass] at hl
      · simp only [hpass, Bool.not_false, if_true, List.cons.injEq] at hl
        obtain ⟨rfl, rfl⟩ := hl
        have hcur := ListCursor.current_of_forward hf
        have hnext : (backendIterOps ops).next j = { j with source := ops.next j.source } := by
          simp [backendIterOps, BackendIterator.Next, hjr]
        refine ⟨j, ?_, current_at hops hcur, ?_⟩
        · simp [backendIterOps, valid_of_current hops hj hcur, hjr, hje, hpass]
        · -- `Next` moves the source one entry forward
          rw [hnext]
          exact ⟨hj, hjr, hje, by simp [hops.next, ListCursor.forward_next, hf]⟩

/-- A reverse adapter yields its source's backward walk, down to `start`. -/
theorem backend_yields_backward {itr : BackendIterator C} (hinv : itr.isInvalid = false)
    (hrev : itr.isReverse = true) :
    (backendIterOps ops).Yields itr
      ((abs itr.source).backward.takeWhile fun e => !(itr.start.any fun s => decide (e.1 < s))) := by
  refine IterOps.yields_of_simulation
    (fun j l => j.isInvalid = false ∧ j.isReverse = true ∧ j.start = itr.start ∧
      l = (abs j.source).backward.takeWhile fun e => !(itr.start.any fun s => decide (e.1 < s)))
    ?_ ?_ ⟨hinv, hrev, rfl, rfl⟩
  · rintro j ⟨hj, hjr, hjs, hl⟩
    cases hb : (abs j.source).backward with
    | nil =>
      have hv : (abs j.source).valid = false := by simp [ListCursor.valid_eq_backward, hb]
      simp [backendIterOps, valid_of_exhausted hops hj hv]
    | cons a rest =>
      -- the key under the source is below `start`
      rw [hb, List.takeWhile_cons] at hl
      have hbelow : (itr.start.any fun s => decide (a.1 < s)) = true := by
        by_contra hno
        simp [hno] at hl
      simp [backendIterOps, valid_of_current hops hj (ListCursor.current_of_backward hb), hjr, hjs,
        hbelow]
  · rintro j a l ⟨hj, hjr, hjs, hl⟩
    cases hb : (abs j.source).backward with
    | nil => rw [hb] at hl; cases hl
    | cons x rest =>
      rw [hb, List.takeWhile_cons] at hl
      by_cases hbelow : (itr.start.any fun s => decide (x.1 < s)) = true
      · simp [hbelow] at hl
      · simp only [hbelow, Bool.not_false, if_true, List.cons.injEq] at hl
        obtain ⟨rfl, rfl⟩ := hl
        have hcur := ListCursor.current_of_backward hb
        have hnext : (backendIterOps ops).next j = { j with source := ops.prev j.source } := by
          simp [backendIterOps, BackendIterator.Next, hjr]
        refine ⟨j, ?_, current_at hops hcur, ?_⟩
        · simp [backendIterOps, valid_of_current hops hj hcur, hjr, hjs, hbelow]
        · -- `Next` moves the source one entry back
          rw [hnext]
          exact ⟨hj, hjr, hjs, by simp [hops.prev, ListCursor.backward_prev, hb]⟩

end Walks

/-! ## Where the adapters start -/

section Position

variable {C : Type} {ops : CursorOps C} {abs : C → ListCursor (Bytes × Bytes)}
variable (hops : IsEntryCursor ops abs)
include hops

/-- Forward, `seekPosition` starts at the first key at least `start`. -/
theorem forward_seekPosition (src : C) (start «end» : Option Bytes) :
    (abs (seekPosition ops src start «end» false)).forward =
      (abs src).entries.dropWhile fun e => !decide (start.getD [] ≤ e.1) := by
  cases start with
  | none =>
    -- `First`: every key is at least the empty key
    have hall : ((abs src).entries.dropWhile fun e => !decide (([] : Bytes) ≤ e.1)) =
        (abs src).entries := by
      apply List.dropWhile_eq_self_iff.mpr
      intro _
      simp [Lex.nil_le]
    simp [seekPosition, hops.first, ListCursor.forward_first, hall]
  | some k => simp [seekPosition, hops.seek, ListCursor.forward_seek]

/-- Reverse, `seekPosition` starts at the last key below `end`. -/
theorem backward_seekPosition (src : C) (start «end» : Option Bytes) :
    (abs (seekPosition ops src start «end» true)).backward =
      ((abs src).entries.takeWhile fun e => !(«end».any fun b => decide (b ≤ e.1))).reverse := by
  cases «end» with
  | none =>
    have hall : ((abs src).entries.takeWhile fun _ => true) = (abs src).entries :=
      List.takeWhile_eq_self_iff.mpr fun _ _ => rfl
    simp [seekPosition, hops.last, ListCursor.backward_last, hall]
  | some e =>
    have hseek := hops.seek src e
    simp only [seekPosition, if_true, Option.any_some]
    by_cases hv : ops.valid (ops.seek src e) = true
    · -- the seek found the "end or after" key: step back from it
      have hv' : ((abs src).seek fun x => decide (e ≤ x.1)).valid = true := by
        rw [← hseek, ← hops.valid]
        exact hv
      obtain ⟨a, ha⟩ := ListCursor.exists_current_of_valid hv'
      have hle : e ≤ ops.key (ops.seek src e) := by
        rw [hops.key _ a (hseek ▸ ha)]
        simpa using ListCursor.current_seek ha
      rw [if_pos hv, if_pos hle, hops.prev, hseek, ListCursor.backward_prev_seek hv']
    · -- no key at `end` or past it: the last key
      have hv' : ((abs src).seek fun x => decide (e ≤ x.1)).valid = false := by
        rw [← hseek, ← hops.valid]
        simpa using hv
      rw [if_neg hv, hops.last, hseek, ListCursor.backward_last,
        ListCursor.takeWhile_of_seek_invalid hv']
      rfl

/-- goleveldb and RocksDB: over sorted entries, the seek and the walk give
the entries of `[start, end)`. -/
theorem seekPosition_yields (src : C) {E : List (Bytes × Bytes)}
    (hE : E.Pairwise fun x y => x.1 < y.1) (hsrc : (abs src).entries = E)
    (start «end» : Option Bytes) (isReverse : Bool) :
    (backendIterOps ops).Yields ⟨seekPosition ops src start «end» isReverse, start, «end», isReverse, false⟩
      (if isReverse then (E.filter fun e => isKeyInDomain e.1 start «end»).reverse
        else E.filter fun e => isKeyInDomain e.1 start «end») := by
  cases isReverse with
  | false =>
    have h : (backendIterOps ops).Yields ⟨seekPosition ops src start «end» false, start, «end», false, false⟩
        ((abs (seekPosition ops src start «end» false)).forward.takeWhile
          fun e => !(«end».any fun b => decide (b ≤ e.1))) :=
      backend_yields_forward hops rfl rfl
    rwa [forward_seekPosition hops, hsrc, forward_range hE] at h
  | true =>
    have h : (backendIterOps ops).Yields ⟨seekPosition ops src start «end» true, start, «end», true, false⟩
        ((abs (seekPosition ops src start «end» true)).backward.takeWhile
          fun e => !(start.any fun s => decide (e.1 < s))) :=
      backend_yields_backward hops rfl rfl
    rwa [backward_seekPosition hops, hsrc, backward_range hE] at h

/-- Pebble: the bounded source, positioned by `First` or `Last`, walks
exactly its entries, which the bound checks all pass. -/
theorem pebble_yields (src : C) (S : KVMap) (start «end» : Option Bytes)
    (hsrc : (abs src).entries = mapRange S start «end») (isReverse : Bool) :
    (backendIterOps ops).Yields
      (newPebbleDBIterator ops (if isReverse then ops.last src else ops.first src) start «end» isReverse)
      (if isReverse then (mapRange S start «end»).reverse else mapRange S start «end») := by
  have hin : ∀ x ∈ mapRange S start «end», start.getD [] ≤ x.1 ∧ ∀ e, «end» = some e → x.1 < e :=
    fun x hx => (isKeyInDomain_iff _ _ _).mp (List.mem_filter.mp hx).2
  cases isReverse with
  | false =>
    have h : (backendIterOps ops).Yields
        ⟨if start = none then ops.first (ops.first src) else ops.first src, start, «end», false, false⟩
        ((abs (if start = none then ops.first (ops.first src) else ops.first src)).forward.takeWhile
          fun e => !(«end».any fun b => decide (b ≤ e.1))) :=
      backend_yields_forward hops rfl rfl
    have hfwd : (abs (if start = none then ops.first (ops.first src) else ops.first src)).forward =
        mapRange S start «end» := by
      split_ifs <;> simp [hops.first, ListCursor.forward_first, hsrc]
    -- every key of the range is below `end`
    have htake : ((mapRange S start «end»).takeWhile fun e => !(«end».any fun b => decide (b ≤ e.1))) =
        mapRange S start «end» := by
      apply List.takeWhile_eq_self_iff.mpr
      intro x hx
      cases «end» with
      | none => rfl
      | some b => simpa using (hin x hx).2 b rfl
    rw [hfwd, htake] at h
    exact h
  | true =>
    have h : (backendIterOps ops).Yields
        ⟨if «end» = none then ops.last (ops.last src) else ops.last src, start, «end», true, false⟩
        ((abs (if «end» = none then ops.last (ops.last src) else ops.last src)).backward.takeWhile
          fun e => !(start.any fun s => decide (e.1 < s))) :=
      backend_yields_backward hops rfl rfl
    have hbwd : (abs (if «end» = none then ops.last (ops.last src) else ops.last src)).backward =
        (mapRange S start «end»).reverse := by
      split_ifs <;> simp [hops.last, ListCursor.backward_last, hsrc]
    -- every key of the range is at least `start`
    have htake : ((mapRange S start «end»).reverse.takeWhile
        fun e => !(start.any fun s => decide (e.1 < s))) = (mapRange S start «end»).reverse := by
      apply List.takeWhile_eq_self_iff.mpr
      intro x hx
      cases start with
      | none => rfl
      | some s => simpa using (hin x (List.mem_reverse.mp hx)).1
    rw [hbwd, htake] at h
    exact h

end Position

/-- The three adapters, each over the source its database gives it, yield
exactly the stored entries of `[start, end)`, ascending, or descending when
reverse; and an adapter whose `Valid` answered false answers false forever. -/
theorem backend_iterators_yield_range {C : Type} (ops : CursorOps C)
    (abs : C → ListCursor (Bytes × Bytes)) (hops : IsEntryCursor ops abs) (S : KVMap)
    (start «end» : Option Bytes) (isReverse : Bool) (srcG srcR srcP : C)
    (hG : (abs srcG).entries = mapRange S start «end») (hR : (abs srcR).entries = S.entries)
    (hP : (abs srcP).entries = mapRange S start «end») :
    (backendIterOps ops).Yields (newGoLevelDBIterator ops srcG start «end» isReverse)
        (if isReverse then (mapRange S start «end»).reverse else mapRange S start «end») ∧
      (backendIterOps ops).Yields (newRocksDBIterator ops srcR start «end» isReverse)
        (if isReverse then (mapRange S start «end»).reverse else mapRange S start «end») ∧
      (backendIterOps ops).Yields
        (newPebbleDBIterator ops (if isReverse then ops.last srcP else ops.first srcP)
          start «end» isReverse)
        (if isReverse then (mapRange S start «end»).reverse else mapRange S start «end») ∧
      ∀ itr : BackendIterator C, ((backendIterOps ops).valid itr).1 = false →
        (backendIterOps ops).StaysInvalid itr := by
  have hrange : (mapRange S start «end»).Pairwise fun x y => x.1 < y.1 := S.ascend.filter _
  -- the range source holds only entries the bound checks keep
  have hidem : ((mapRange S start «end»).filter fun e => isKeyInDomain e.1 start «end») =
      mapRange S start «end» := by
    unfold mapRange
    rw [List.filter_filter]
    simp
  refine ⟨?_, seekPosition_yields hops srcR S.ascend hR start «end» isReverse,
    pebble_yields hops srcP S start «end» hP isReverse, fun itr h => backend_staysInvalid h⟩
  have h := seekPosition_yields hops srcG hrange hG start «end» isReverse
  rw [hidem] at h
  exact h

theorem backend_iterators_yield_range_reverse :
    (backendIterOps listCursorOps).Yields
        (newGoLevelDBIterator listCursorOps
          ⟨mapRange (((SortedMap.empty : KVMap).set [1] [10]).set [5] [50]) (some [1]) (some [5]),
            none, fun _ h => by cases h⟩ (some [1]) (some [5]) true)
        (if true then (mapRange (((SortedMap.empty : KVMap).set [1] [10]).set [5] [50])
            (some [1]) (some [5])).reverse
          else mapRange (((SortedMap.empty : KVMap).set [1] [10]).set [5] [50]) (some [1]) (some [5])) ∧
      (backendIterOps listCursorOps).Yields
        (newRocksDBIterator listCursorOps
          ⟨(((SortedMap.empty : KVMap).set [1] [10]).set [5] [50]).entries, none, fun _ h => by cases h⟩
          (some [1]) (some [5]) true)
        (if true then (mapRange (((SortedMap.empty : KVMap).set [1] [10]).set [5] [50])
            (some [1]) (some [5])).reverse
          else mapRange (((SortedMap.empty : KVMap).set [1] [10]).set [5] [50]) (some [1]) (some [5])) ∧
      (backendIterOps listCursorOps).Yields
        (newPebbleDBIterator listCursorOps
          (if true then listCursorOps.last
              ⟨mapRange (((SortedMap.empty : KVMap).set [1] [10]).set [5] [50]) (some [1]) (some [5]),
                none, fun _ h => by cases h⟩
            else listCursorOps.first
              ⟨mapRange (((SortedMap.empty : KVMap).set [1] [10]).set [5] [50]) (some [1]) (some [5]),
                none, fun _ h => by cases h⟩)
          (some [1]) (some [5]) true)
        (if true then (mapRange (((SortedMap.empty : KVMap).set [1] [10]).set [5] [50])
            (some [1]) (some [5])).reverse
          else mapRange (((SortedMap.empty : KVMap).set [1] [10]).set [5] [50]) (some [1]) (some [5])) ∧
      ∀ itr : BackendIterator (ListCursor (Bytes × Bytes)),
        ((backendIterOps listCursorOps).valid itr).1 = false →
          (backendIterOps listCursorOps).StaysInvalid itr :=
  backend_iterators_yield_range listCursorOps id listCursorOps_isEntryCursor
    (((SortedMap.empty : KVMap).set [1] [10]).set [5] [50]) (some [1]) (some [5]) true
    ⟨mapRange (((SortedMap.empty : KVMap).set [1] [10]).set [5] [50]) (some [1]) (some [5]),
      none, fun _ h => by cases h⟩
    ⟨(((SortedMap.empty : KVMap).set [1] [10]).set [5] [50]).entries, none, fun _ h => by cases h⟩
    ⟨mapRange (((SortedMap.empty : KVMap).set [1] [10]).set [5] [50]) (some [1]) (some [5]),
      none, fun _ h => by cases h⟩
    rfl rfl rfl

end CosmosDb
