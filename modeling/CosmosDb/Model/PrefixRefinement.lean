import CosmosDb.Model.PrefixDB
import CosmosDb.Model.MemDBRefinement

/-!
# CosmosDb — `PrefixDB` refines a sorted map over its namespace

Over a wrapped database `D` that behaves as a sorted map (`IsSortedMapDB`),
`PrefixDB D p` answers every call as the specification `mapDB` answers it on
`project p (view s)`: the entries of the wrapped map under a proper
extension of `p`, with `p` cut off.

The iterator case is the one with content. The backend range is
`[p ++ start, p ++ end)`, or `[p ++ start, cpIncr p)` for a nil end, or
unbounded above when `p` is all 0xFF; it can contain `p` itself and keys
outside the namespace, which `seekToPrefix` drops. A key `p ++ j` of the
namespace lies in the backend range exactly when `j` lies in `[start, end)`
(`isKeyInDomain_prefixed`), because a shared prefix does not change a
comparison and every extension of `p` is below `cpIncr p`.

Results:

* `get_project`, `project_set`, `project_delete`, `project_applyOps` — the
  projection commutes with the writes;
* `stripNamespace_mapRange` — the prefix iterator over the backend range
  yields the range of the projection;
* `iteratePrefix_exact_iff` — `IteratePrefix` yields exactly the entries
  under its prefix if and only if `cpIncr` does not carry over the prefix;
* `prefixDB_step_sim` — one call keeps the projection and gives the same reply;
* `prefixDB_refines_mapDB` — over every run of calls.
-/

namespace CosmosDb

/-! ## The namespace as a map -/

theorem inNamespace_append (pfx j : Bytes) : inNamespace pfx (pfx ++ j) = (j != []) := by
  by_cases hj : j = []
  · simp [inNamespace, hj]
  · have h1 : (pfx ++ j != pfx) = true := by simpa using hj
    have h2 : hasPrefix (pfx ++ j) pfx = true := (hasPrefix_iff _ _).2 (List.prefix_append pfx j)
    rw [inNamespace, h1, h2]
    simpa using hj

/-- A key of the namespace is the prefix followed by the rest of the key. -/
theorem eq_append_of_inNamespace {pfx key : Bytes} (h : inNamespace pfx key = true) :
    key = pfx ++ key.drop pfx.length ∧ key.drop pfx.length ≠ [] := by
  obtain ⟨-, htake⟩ := take_eq_of_inNamespace h
  have hkey : key = pfx ++ key.drop pfx.length := by
    conv_lhs => rw [← List.take_append_drop pfx.length key]
    rw [htake]
  refine ⟨hkey, fun hnil => ?_⟩
  rw [hnil, List.append_nil] at hkey
  simp [inNamespace, hkey] at h

theorem keysAscend_stripNamespace (pfx : Bytes) {l : List (Bytes × Bytes)}
    (h : KeysAscend l) : KeysAscend (stripNamespace pfx l) := by
  refine List.Pairwise.filterMap _ (fun a a' hlt b hb b' hb' => ?_) h
  by_cases ha : inNamespace pfx a.1 = true <;> by_cases ha' : inNamespace pfx a'.1 = true <;>
    simp [ha, ha'] at hb hb'
  subst hb hb'
  -- both keys carry the prefix, which does not change their comparison
  have hlt' : pfx ++ a.1.drop pfx.length < pfx ++ a'.1.drop pfx.length := by
    rwa [← (eq_append_of_inNamespace ha).1, ← (eq_append_of_inNamespace ha').1]
  exact (Lex.append_lt_append_left_iff pfx).1 hlt'

/-- The namespace of `pfx` in a map, as a map of its own. -/
def project (pfx : Bytes) (m : KVMap) : KVMap :=
  ⟨stripNamespace pfx m.entries, keysAscend_stripNamespace pfx m.ascend⟩

theorem lookupKey_stripNamespace (pfx : Bytes) (l : List (Bytes × Bytes)) (j : Bytes) :
    lookupKey (stripNamespace pfx l) j = if j = [] then none else lookupKey l (pfx ++ j) := by
  induction l with
  | nil => simp [stripNamespace]
  | cons e l ih =>
    obtain ⟨key, value⟩ := e
    by_cases hk : inNamespace pfx key = true
    · obtain ⟨hkey, hne⟩ := eq_append_of_inNamespace hk
      rw [stripNamespace_cons_of_inNamespace hk, lookupKey_cons, lookupKey_cons, ih]
      -- the entry answers for `j` exactly when `key = pfx ++ j`
      by_cases hj : j = []
      · simp [hj, hne]
      · have : (key = pfx ++ j) ↔ (key.drop pfx.length = j) := by
          conv_lhs => rw [hkey]
          simp
        simp [hj, this]
    · have hskip : stripNamespace pfx ((key, value) :: l) = stripNamespace pfx l := by
        simp [stripNamespace, hk]
      rw [hskip, ih, lookupKey_cons]
      by_cases hj : j = []
      · simp [hj]
      · -- `pfx ++ j` is in the namespace and `key` is not
        have hne : key ≠ pfx ++ j := by
          rintro rfl
          simp [inNamespace_append, hj] at hk
        simp [hj, hne]

theorem get_project (pfx : Bytes) (m : KVMap) (j : Bytes) :
    (project pfx m).get j = if j = [] then none else m.get (pfx ++ j) :=
  lookupKey_stripNamespace pfx m.entries j

theorem project_set (pfx : Bytes) (m : KVMap) {k : Bytes} (hk : k ≠ []) (v : Bytes) :
    project pfx (m.set (pfx ++ k) v) = (project pfx m).set k v := by
  apply SortedMap.ext_get
  intro j
  rw [get_project, SortedMap.get_set, SortedMap.get_set, get_project]
  by_cases hj : j = []
  · subst hj
    simp [hk]
  · simp [hj]

theorem project_delete (pfx : Bytes) (m : KVMap) {k : Bytes} (hk : k ≠ []) :
    project pfx (m.delete (pfx ++ k)) = (project pfx m).delete k := by
  apply SortedMap.ext_get
  intro j
  rw [get_project, SortedMap.get_delete, SortedMap.get_delete, get_project]
  by_cases hj : j = []
  · subst hj
    simp [hk]
  · simp [hj]

/-- The write recorded in the wrapped batch for a write through the namespace. -/
def prefixOp (pfx : Bytes) : BatchOp → BatchOp
  | .set k v => .set (pfx ++ k) v
  | .delete k => .delete (pfx ++ k)

theorem project_applyOps (pfx : Bytes) (m : KVMap) (ops : List BatchOp)
    (hops : ∀ op ∈ ops, op.key ≠ []) :
    project pfx (m.applyOps (ops.map (prefixOp pfx))) = (project pfx m).applyOps ops := by
  induction ops generalizing m with
  | nil => rfl
  | cons op ops ih =>
    have hop := hops op List.mem_cons_self
    have hrest : ∀ op ∈ ops, op.key ≠ [] := fun o ho => hops o (List.mem_cons_of_mem op ho)
    rw [List.map_cons, SortedMap.applyOps_cons, SortedMap.applyOps_cons, ih _ hrest]
    congr 1
    cases op with
    | set k v => exact project_set pfx m hop v
    | delete k => exact project_delete pfx m hop

/-! ## Ranges -/

/-- A key `pfx ++ j` of the namespace is in the backend range of `[start, end)`
exactly when `j` is in `[start, end)`. -/
theorem isKeyInDomain_prefixed {pfx : Bytes} {start «end» pStart pEnd : Option Bytes}
    (hr : prefixRange pfx start «end» = .ok (pStart, pEnd)) (j : Bytes) :
    isKeyInDomain (pfx ++ j) pStart pEnd = isKeyInDomain j start «end» := by
  cases «end» with
  | none =>
    rw [prefixRange_none] at hr
    cases hq : cpIncr pfx with
    | error e => rw [hq] at hr; cases hr
    | ok q =>
      rw [hq] at hr
      obtain ⟨rfl, rfl⟩ := Prod.mk.inj (Except.ok.inj hr)
      -- every extension of the prefix is below `cpIncr`, so the upper bound never bites
      have hbelow : ∀ e, q = some e → pfx ++ j < e := by
        rintro e rfl
        exact cpIncr_bound hq (List.prefix_append pfx j)
      rw [Bool.eq_iff_iff, isKeyInDomain_iff, isKeyInDomain_iff]
      simp only [Option.getD_some, Lex.append_le_append_left_iff, reduceCtorEq, false_implies,
        implies_true, and_true]
      exact ⟨fun h => h.1, fun h => ⟨h, hbelow⟩⟩
  | some e =>
    rw [prefixRange_some] at hr
    obtain ⟨rfl, rfl⟩ := Prod.mk.inj (Except.ok.inj hr)
    rw [Bool.eq_iff_iff, isKeyInDomain_iff, isKeyInDomain_iff]
    simp [Lex.append_le_append_left_iff, Lex.append_lt_append_left_iff]

/-- Filtering the backend range and then keeping the namespace is taking the
namespace and then the user range. -/
theorem stripNamespace_filter {pfx : Bytes} {start «end» pStart pEnd : Option Bytes}
    (hr : prefixRange pfx start «end» = .ok (pStart, pEnd)) (l : List (Bytes × Bytes)) :
    stripNamespace pfx (l.filter fun e => isKeyInDomain e.1 pStart pEnd) =
      (stripNamespace pfx l).filter fun e => isKeyInDomain e.1 start «end» := by
  induction l with
  | nil => rfl
  | cons e l ih =>
    obtain ⟨key, value⟩ := e
    by_cases hk : inNamespace pfx key = true
    · have hkey := (eq_append_of_inNamespace hk).1
      have hdom := isKeyInDomain_prefixed hr (key.drop pfx.length)
      rw [← hkey] at hdom
      rw [List.filter_cons, stripNamespace_cons_of_inNamespace hk, List.filter_cons, hdom]
      split_ifs
      · rw [stripNamespace_cons_of_inNamespace hk, ih]
      · exact ih
    · have hskip : ∀ l' : List (Bytes × Bytes),
          stripNamespace pfx ((key, value) :: l') = stripNamespace pfx l' := by
        intro l'
        simp [stripNamespace, hk]
      rw [List.filter_cons, hskip]
      split_ifs
      · rw [hskip, ih]
      · exact ih

theorem stripNamespace_mapRange {pfx : Bytes} {start «end» pStart pEnd : Option Bytes}
    (hr : prefixRange pfx start «end» = .ok (pStart, pEnd)) (m : KVMap) :
    stripNamespace pfx (mapRange m pStart pEnd) = mapRange (project pfx m) start «end» :=
  stripNamespace_filter hr m.entries

/-- `cpIncr` keeps the length of the slice. -/
theorem cpIncr_length {bz q : Bytes} (h : cpIncr bz = .ok (some q)) : q.length = bz.length := by
  unfold cpIncr at h
  split_ifs at h with h0
  simp only [cp, Except.ok.injEq] at h
  obtain ⟨-, -, -, -, -, hlen⟩ := cpIncrLoop_some (by omega) h
  exact hlen

/-- For a nonempty prefix the range is always computed, and its bounds are
nil or nonempty. -/
theorem prefixRange_ok {pfx : Bytes} (hpfx : pfx ≠ []) (start «end» : Option Bytes) :
    ∃ pStart pEnd, prefixRange pfx start «end» = .ok (pStart, pEnd) ∧
      hasEmptyBound pStart pEnd = false := by
  have hlen : pfx.length ≠ 0 := by simpa using hpfx
  cases «end» with
  | none =>
    rw [prefixRange_none]
    cases hq : cpIncr pfx with
    | error e => simp [cpIncr, hlen] at hq
    | ok q =>
      refine ⟨_, q, rfl, ?_⟩
      -- `cpIncr` keeps the length of the prefix, so its result is not empty
      have hq' : q ≠ some [] := by
        rintro rfl
        exact hpfx (List.length_eq_zero_iff.mp (cpIncr_length hq).symm)
      simp [hasEmptyBound_eq_false, hpfx, hq']
  | some e =>
    exact ⟨_, _, prefixRange_some pfx start e, by simp [hasEmptyBound_eq_false, hpfx]⟩

/-! ## `IteratePrefix`

`IteratePrefix` ranges over `[p, cpIncr p)`. That is the set of extensions of
`p` unless `cpIncr` carries: after a carry the bound is `c ++ (d + 1) :: 0…0`
and the shorter key `c ++ [d + 1]` lies inside it. -/

theorem le_max_byte (x : Byte) : x ≤ 0xFF := Fin.le_last x

/-- Over a database that behaves as a sorted map, `IteratePrefix` of a
nonempty prefix is the range from the prefix to `cpIncr` of it. -/
theorem iteratePrefix_eq_mapRange {σ β : Type} {D : DB σ β} {view : σ → KVMap}
    {recorded : β → Option (List BatchOp)} (hD : IsSortedMapDB D view recorded) (s : σ)
    {pfx : Bytes} (hpfx : pfx ≠ []) {q : Option Bytes} (hq : cpIncr pfx = .ok q) :
    iteratePrefix D s pfx = .ok (mapRange (view s) (some pfx) q) := by
  -- neither bound is empty: the prefix is not, and `cpIncr` keeps its length
  have hq' : q ≠ some [] := by
    rintro rfl
    exact hpfx (List.length_eq_zero_iff.mp (cpIncr_length hq).symm)
  have hbound : hasEmptyBound (some pfx) q = false := by
    simp [hasEmptyBound_eq_false, hpfx, hq']
  have hlen : pfx.length ≠ 0 := by simpa using hpfx
  simp only [iteratePrefix, hlen, if_false, hq, bind, Except.bind, cp]
  rw [hD.iterator s _ _ hbound]
  simp [mapDB, hbound]

/-- When `cpIncr` does not carry (the last byte is below 0xFF, or every byte
is 0xFF), a key lies in `IteratePrefix`'s range exactly when it extends the
prefix. -/
theorem isKeyInDomain_cpIncr {pfx : Bytes} {q : Option Bytes} (hq : cpIncr pfx = .ok q)
    (hcarry : pfx.getLast? ≠ some 0xFF ∨ ∀ x ∈ pfx, x = 0xFF) (k : Bytes) :
    isKeyInDomain k (some pfx) q = hasPrefix k pfx := by
  have hpfx : pfx ≠ [] := by
    rintro rfl
    simp [cpIncr] at hq
  rw [Bool.eq_iff_iff, isKeyInDomain_iff, hasPrefix_iff, Option.getD_some]
  rcases eq_replicate_or_append_cons_replicate (0xFF : Byte) pfx with hall | ⟨c, d, m, hd, rfl⟩
  · -- all 0xFF: no upper bound, and every key not extending the prefix is below it
    rw [cpIncr_all_max hpfx hall, Except.ok.injEq] at hq
    subst hq
    refine ⟨fun h => ?_, fun h => ⟨Lex.le_of_isPrefix h, fun e he => by cases he⟩⟩
    by_contra hk
    exact not_lt.mpr h.1 (Lex.lt_of_not_isPrefix_of_forall_max le_max_byte hall hk)
  · -- the last byte below 0xFF is the last byte, and `cpIncr` increments it
    obtain rfl : m = 0 := by
      rcases hcarry with hlast | hall
      · cases m with
        | zero => rfl
        | succ m =>
          have h255 : (c ++ d :: List.replicate (m + 1) (0xFF : Byte)).getLast? = some 0xFF := by
            rw [List.replicate_succ', ← List.cons_append, ← List.append_assoc, List.getLast?_concat]
          exact absurd h255 hlast
      · exact absurd (hall d (by simp)) hd
    have hq' := cpIncr_carry (c := c) hd 0
    rw [hq, Except.ok.injEq] at hq'
    subst hq'
    simp only [List.replicate_zero, Option.some.injEq, forall_eq']
    refine ⟨fun h => Lex.isPrefix_of_le_of_lt_succ (fun y hy => Fin.add_one_le_of_lt hy) h.1 h.2,
      fun h => ⟨Lex.le_of_isPrefix h, cpIncr_bound ?_ h⟩⟩
    simpa using cpIncr_carry (c := c) hd 0

/-- Past a carry the range holds the shorter key `c ++ [d + 1]`, which does
not extend the prefix. -/
theorem isKeyInDomain_cpIncr_carry (c : Bytes) {d : Byte} (hd : d ≠ 0xFF) (m : Nat) :
    isKeyInDomain (c ++ [d + 1]) (some (c ++ d :: List.replicate (m + 1) 0xFF))
        (some (c ++ (d + 1) :: List.replicate (m + 1) 0)) = true ∧
      hasPrefix (c ++ [d + 1]) (c ++ d :: List.replicate (m + 1) 0xFF) = false := by
  have hlt : d < d + 1 := by
    rw [Fin.lt_def, Fin.val_add_one_of_lt (lt_max_of_ne hd)]
    omega
  refine ⟨(isKeyInDomain_iff _ _ _).mpr ⟨?_, ?_⟩, ?_⟩
  · exact le_of_lt (Lex.append_cons_lt_append_cons c hlt _ [])
  · -- the key is a proper prefix of the upper bound
    simp only [Option.some.injEq, forall_eq']
    exact (Lex.append_lt_append_left_iff c).2
      (List.cons_lt_cons_iff.mpr (.inr ⟨rfl, List.nil_lt_cons _ _⟩))
  · -- and shorter than the prefix
    rw [Bool.eq_false_iff, ne_eq, hasPrefix_iff]
    intro h
    have hle := h.length_le
    simp at hle

/-- `IteratePrefix` yields exactly the entries under the prefix, on every
store of every database that behaves as a sorted map, if and only if
`cpIncr` does not carry over the prefix: its last byte is below 0xFF, or all
its bytes are 0xFF. After a carry (`0x01 0xFF` has the bound `0x02 0x00`) the
range holds the shorter key `0x02`. -/
theorem iteratePrefix_exact_iff (pfx : Bytes) :
    (∀ (σ β : Type) (D : DB σ β) (view : σ → KVMap) (recorded : β → Option (List BatchOp)),
        IsSortedMapDB D view recorded → ∀ s,
          iteratePrefix D s pfx = .ok ((view s).entries.filter fun e => hasPrefix e.1 pfx)) ↔
      pfx.getLast? ≠ some 0xFF ∨ ∀ x ∈ pfx, x = 0xFF := by
  constructor
  · intro h
    rcases eq_replicate_or_append_cons_replicate (0xFF : Byte) pfx with hall | ⟨c, d, m, hd, rfl⟩
    · exact .inr hall
    cases m with
    | zero => exact .inl (by simp [hd])
    | succ m =>
      -- a carry: the store holding just the shorter key tells the two apart
      exfalso
      obtain ⟨hin, hout⟩ := isKeyInDomain_cpIncr_carry c hd m
      let m0 : KVMap := SortedMap.empty.set (c ++ [d + 1]) []
      have hexact := h _ _ mapDB id id mapDB_isSortedMapDB m0
      rw [iteratePrefix_eq_mapRange mapDB_isSortedMapDB m0 (by simp) (cpIncr_carry hd (m + 1)),
        Except.ok.injEq, id] at hexact
      have hmem : (c ++ [d + 1], []) ∈ mapRange m0 (some (c ++ d :: List.replicate (m + 1) 0xFF))
          (some (c ++ (d + 1) :: List.replicate (m + 1) 0)) :=
        List.mem_filter.mpr ⟨(SortedMap.mem_entries_iff _).mpr (by simp [m0]), hin⟩
      rw [hexact] at hmem
      simp [hout] at hmem
  · intro hcarry σ β D view recorded hD s
    by_cases hpfx : pfx = []
    · subst hpfx
      simp [iteratePrefix, hD.iterator s none none rfl, mapDB, hasEmptyBound, mapRange_none_none,
        hasPrefix]
    · obtain ⟨q, hq⟩ := cpIncr_ok hpfx
      rw [iteratePrefix_eq_mapRange hD s hpfx hq, mapRange]
      exact congrArg Except.ok (List.filter_congr fun e _ => isKeyInDomain_cpIncr hq hcarry e.1)

/-! ## One call -/

section Refinement

variable {σ β : Type} {D : DB σ β} {view : σ → KVMap} {recorded : β → Option (List BatchOp)}

/-- The writes of a batch recorded through the namespace, as the wrapped batch
holds them. -/
def prefixOps (pfx : Bytes) (ops : List BatchOp) : List BatchOp := ops.map (prefixOp pfx)

/-- The simulation relation between `PrefixDB D pfx` and the specification:
the namespace of the wrapped map is the specification's map, each wrapped
batch holds the prefixed writes of the corresponding specification batch,
and those record nonempty keys only. -/
structure PrefixSim (view : σ → KVMap) (recorded : β → Option (List BatchOp)) (pfx : Bytes)
    (sC : Sys σ β) (sA : Sys KVMap (Option (List BatchOp))) : Prop where
  db : project pfx (view sC.db) = sA.db
  batches : sC.batches.map recorded = sA.batches.map (Option.map (prefixOps pfx))
  keys : ∀ a ∈ sA.batches, RecordsNonemptyKeys a

theorem prefixed_ne_nil {pfx : Bytes} (hpfx : pfx ≠ []) (key : Bytes) : prefixed pfx key ≠ [] := by
  simp [prefixed, cp, hpfx]

theorem prefixDB_get_eq (hD : IsSortedMapDB D view recorded) {pfx : Bytes} (hpfx : pfx ≠ [])
    (s : σ) (key : Bytes) :
    (prefixDB D pfx).get s key = mapDB.get (project pfx (view s)) key := by
  simp only [prefixDB, mapDB]
  split_ifs with hk
  · rfl
  · have hk' : key ≠ [] := by simpa using hk
    rw [hD.get _ _ (prefixed_ne_nil hpfx key), get_project]
    simp [mapDB, prefixed, cp, hk']

theorem prefixDB_has_eq (hD : IsSortedMapDB D view recorded) {pfx : Bytes} (hpfx : pfx ≠ [])
    (s : σ) (key : Bytes) :
    (prefixDB D pfx).has s key = mapDB.has (project pfx (view s)) key := by
  simp only [prefixDB, mapDB]
  split_ifs with hk
  · rfl
  · have hk' : key ≠ [] := by simpa using hk
    rw [hD.has _ _ (prefixed_ne_nil hpfx key), get_project]
    simp [mapDB, prefixed, cp, hk']

/-- `Set` and `SetSync` through the namespace, over a wrapped `write` that
sets the map. -/
theorem prefixSet_sim {pfx : Bytes} (hpfx : pfx ≠ [])
    {write : σ → Bytes → Option Bytes → Go Unit × σ}
    (hw : ∀ s key v, key ≠ [] →
      (write s key (some v)).1 = .ok () ∧ view (write s key (some v)).2 = (view s).set key v)
    (s : σ) (key : Bytes) (value : Option Bytes) :
    (prefixSet pfx write s key value).1 = (mapSet (project pfx (view s)) key value).1 ∧
      project pfx (view (prefixSet pfx write s key value).2) =
        (mapSet (project pfx (view s)) key value).2 := by
  unfold prefixSet mapSet
  by_cases hk : key.length = 0
  · simp [hk]
  · have hk' : key ≠ [] := by simpa using hk
    cases value with
    | none => simp [hk]
    | some v =>
      obtain ⟨h1, h2⟩ := hw s (prefixed pfx key) v (prefixed_ne_nil hpfx key)
      simp only [hk, if_false, reduceCtorEq, h1, h2, true_and]
      exact project_set pfx (view s) hk' v

/-- `Delete` and `DeleteSync` through the namespace. -/
theorem prefixDelete_sim {pfx : Bytes} (hpfx : pfx ≠ []) {write : σ → Bytes → Go Unit × σ}
    (hw : ∀ s key, key ≠ [] →
      (write s key).1 = .ok () ∧ view (write s key).2 = (view s).delete key)
    (s : σ) (key : Bytes) :
    (prefixDelete pfx write s key).1 = (mapDelete (project pfx (view s)) key).1 ∧
      project pfx (view (prefixDelete pfx write s key).2) =
        (mapDelete (project pfx (view s)) key).2 := by
  unfold prefixDelete mapDelete
  by_cases hk : key.length = 0
  · simp [hk]
  · have hk' : key ≠ [] := by simpa using hk
    obtain ⟨h1, h2⟩ := hw s (prefixed pfx key) (prefixed_ne_nil hpfx key)
    simp only [hk, if_false, h1, h2, true_and]
    exact project_delete pfx (view s) hk'

/-- `Iterator` and `ReverseIterator` through the namespace, over a wrapped
iterator that yields the backend range in the order `arrange` gives it. -/
theorem prefixIterator_eq {pfx : Bytes} (hpfx : pfx ≠ [])
    (arrange : List (Bytes × Bytes) → List (Bytes × Bytes))
    (harrange : ∀ l, stripNamespace pfx (arrange l) = arrange (stripNamespace pfx l))
    {open_ : σ → Option Bytes → Option Bytes → Go (List (Bytes × Bytes))}
    (ho : ∀ s start «end», hasEmptyBound start «end» = false →
      open_ s start «end» = .ok (arrange (mapRange (view s) start «end»)))
    (s : σ) (start «end» : Option Bytes) :
    prefixIterator pfx open_ s start «end» =
      if hasEmptyBound start «end» then throwErr .errKeyEmpty
      else .ok (arrange (mapRange (project pfx (view s)) start «end»)) := by
  unfold prefixIterator
  split_ifs with hb
  · rfl
  · obtain ⟨pStart, pEnd, hr, hpb⟩ := prefixRange_ok hpfx start «end»
    -- the backend range, read through the prefix iterator, is the range of the namespace
    simp only [hr, bind, Except.bind, ho s pStart pEnd hpb, pure, Except.pure,
      prefixIteratorEntries_eq, harrange, stripNamespace_mapRange hr]

theorem prefixDB_iterator_eq (hD : IsSortedMapDB D view recorded) {pfx : Bytes}
    (hpfx : pfx ≠ []) (s : σ) (start «end» : Option Bytes) :
    (prefixDB D pfx).iterator s start «end» = mapDB.iterator (project pfx (view s)) start «end» := by
  have ho : ∀ s start «end», hasEmptyBound start «end» = false →
      D.iterator s start «end» = .ok (id (mapRange (view s) start «end»)) := by
    intro s start «end» hb
    rw [hD.iterator s start «end» hb]
    simp [mapDB, hb]
  simp only [prefixDB, prefixIterator_eq hpfx id (fun _ => rfl) ho, mapDB, id]

theorem prefixDB_reverseIterator_eq (hD : IsSortedMapDB D view recorded) {pfx : Bytes}
    (hpfx : pfx ≠ []) (s : σ) (start «end» : Option Bytes) :
    (prefixDB D pfx).reverseIterator s start «end» =
      mapDB.reverseIterator (project pfx (view s)) start «end» := by
  have ho : ∀ s start «end», hasEmptyBound start «end» = false →
      D.reverseIterator s start «end» = .ok (mapRange (view s) start «end»).reverse := by
    intro s start «end» hb
    rw [hD.reverseIterator s start «end» hb]
    simp [mapDB, hb]
  -- the namespace of a reversed source is the reversed namespace
  have harrange : ∀ l, stripNamespace pfx l.reverse = (stripNamespace pfx l).reverse :=
    fun _ => List.filterMap_reverse
  simp only [prefixDB, prefixIterator_eq hpfx List.reverse harrange ho, mapDB]

/-! ## Batches -/

/-- A batch write through the namespace is the write of the specification
batch, recorded with the prefix in front of its key. -/
theorem mapBatchRecord_prefixOps (pfx : Bytes) (y : Option (List BatchOp)) {key : Bytes}
    (hk : key ≠ []) (value : Option Bytes) (op : BatchOp) :
    mapBatchRecord (y.map (prefixOps pfx)) (pfx ++ key) value (prefixOp pfx op) =
      ((mapBatchRecord y key value op).1, (mapBatchRecord y key value op).2.map (prefixOps pfx)) := by
  have hk₁ : key.length ≠ 0 := by simpa using hk
  have hk₂ : (pfx ++ key).length ≠ 0 := by simp [hk]
  unfold mapBatchRecord
  simp only [hk₁, hk₂, if_false]
  split_ifs with hv
  · rfl
  · cases y <;> simp [prefixOps]

theorem prefixBatchSet_sim (hD : IsSortedMapDB D view recorded) (pfx : Bytes) {x : β}
    {y : Option (List BatchOp)} (hxy : recorded x = y.map (prefixOps pfx)) (key : Bytes)
    (value : Option Bytes) :
    (prefixBatchSet D pfx x key value).1 = (mapDB.batchSet y key value).1 ∧
      recorded (prefixBatchSet D pfx x key value).2 =
        (mapDB.batchSet y key value).2.map (prefixOps pfx) := by
  unfold prefixBatchSet
  by_cases hk : key.length = 0
  · obtain rfl : key = [] := List.eq_nil_of_length_eq_zero hk
    simp [mapDB, mapBatchRecord, hxy]
  · have hk' : key ≠ [] := by simpa using hk
    cases value with
    | none => simp [hk', mapDB, mapBatchRecord, hxy]
    | some v =>
      have hpk : cp pfx ++ key ≠ [] := by simp [hk']
      obtain ⟨h1, h2⟩ := hD.batchSet x (cp pfx ++ key) v hpk
      -- the wrapped batch records `set (pfx ++ key) v`, the prefixed `set key v`
      have hop : mapDB.batchSet (recorded x) (cp pfx ++ key) (some v) =
          mapBatchRecord (y.map (prefixOps pfx)) (pfx ++ key) (some v) (prefixOp pfx (.set key v)) := by
        rw [hxy]; rfl
      simp only [hk, if_false, reduceCtorEq, h1, h2, hop, mapBatchRecord_prefixOps pfx y hk']
      exact ⟨rfl, rfl⟩

theorem prefixBatchDelete_sim (hD : IsSortedMapDB D view recorded) (pfx : Bytes) {x : β}
    {y : Option (List BatchOp)} (hxy : recorded x = y.map (prefixOps pfx)) (key : Bytes) :
    (prefixBatchDelete D pfx x key).1 = (mapDB.batchDelete y key).1 ∧
      recorded (prefixBatchDelete D pfx x key).2 =
        (mapDB.batchDelete y key).2.map (prefixOps pfx) := by
  unfold prefixBatchDelete
  by_cases hk : key.length = 0
  · obtain rfl : key = [] := List.eq_nil_of_length_eq_zero hk
    simp [mapDB, mapBatchRecord, hxy]
  · have hk' : key ≠ [] := by simpa using hk
    have hpk : cp pfx ++ key ≠ [] := by simp [hk']
    obtain ⟨h1, h2⟩ := hD.batchDelete x (cp pfx ++ key) hpk
    have hop : mapDB.batchDelete (recorded x) (cp pfx ++ key) =
        mapBatchRecord (y.map (prefixOps pfx)) (pfx ++ key) (some []) (prefixOp pfx (.delete key)) := by
      rw [hxy]; rfl
    simp only [hk, if_false, h1, h2, hop, mapBatchRecord_prefixOps pfx y hk']
    exact ⟨rfl, rfl⟩

/-- `Write` of a batch through the namespace replays the prefixed writes, which
change the projection as the specification's writes change the map. -/
theorem mapBatchWrite_prefixOps (pfx : Bytes) (m : KVMap) {y : Option (List BatchOp)}
    (hy : RecordsNonemptyKeys y) :
    (mapBatchWrite m (y.map (prefixOps pfx))).1 = (mapBatchWrite (project pfx m) y).1 ∧
      project pfx (mapBatchWrite m (y.map (prefixOps pfx))).2.1 =
        (mapBatchWrite (project pfx m) y).2.1 ∧
      (mapBatchWrite m (y.map (prefixOps pfx))).2.2 =
        (mapBatchWrite (project pfx m) y).2.2.map (prefixOps pfx) := by
  cases y with
  | none => exact ⟨rfl, rfl, rfl⟩
  | some ops =>
    refine ⟨rfl, ?_, rfl⟩
    exact project_applyOps pfx m ops (hy ops rfl)

theorem prefixBatchWrite_sim {pfx : Bytes}
    {write : σ → β → Go Unit × σ × β}
    (hw : ∀ s b, (write s b).1 = (mapBatchWrite (view s) (recorded b)).1 ∧
      view (write s b).2.1 = (mapBatchWrite (view s) (recorded b)).2.1 ∧
      recorded (write s b).2.2 = (mapBatchWrite (view s) (recorded b)).2.2)
    (s : σ) {x : β} {y : Option (List BatchOp)} (hxy : recorded x = y.map (prefixOps pfx))
    (hy : RecordsNonemptyKeys y) :
    (write s x).1 = (mapBatchWrite (project pfx (view s)) y).1 ∧
      project pfx (view (write s x).2.1) = (mapBatchWrite (project pfx (view s)) y).2.1 ∧
      recorded (write s x).2.2 = (mapBatchWrite (project pfx (view s)) y).2.2.map (prefixOps pfx) := by
  obtain ⟨h1, h2, h3⟩ := hw s x
  obtain ⟨k1, k2, k3⟩ := mapBatchWrite_prefixOps pfx (view s) hy
  rw [h1, h2, h3, hxy]
  exact ⟨k1, k2, k3⟩

/-! ## One step -/

theorem PrefixSim.with_db {pfx : Bytes} {sC : Sys σ β} {sA : Sys KVMap (Option (List BatchOp))}
    (hR : PrefixSim view recorded pfx sC sA) {c : σ} {a : KVMap}
    (h : project pfx (view c) = a) :
    PrefixSim view recorded pfx { sC with db := c } { sA with db := a } :=
  ⟨h, hR.batches, hR.keys⟩

/-- A write with the specification's outcome and map, over the namespace. -/
theorem PrefixSim.onWrite {pfx : Bytes} {sC : Sys σ β} {sA : Sys KVMap (Option (List BatchOp))}
    (hR : PrefixSim view recorded pfx sC sA) (r : Go Unit × σ) (spec : Go Unit × KVMap)
    (h1 : r.1 = spec.1) (h2 : project pfx (view r.2) = spec.2) :
    PrefixSim view recorded pfx { sC with db := r.2 } { sA with db := spec.2 } ∧
      r.1.map (fun _ => Reply.done) = spec.1.map fun _ => Reply.done :=
  ⟨hR.with_db h2, by rw [h1]⟩

theorem PrefixSim.batches_length {pfx : Bytes} {sC : Sys σ β}
    {sA : Sys KVMap (Option (List BatchOp))} (hR : PrefixSim view recorded pfx sC sA) :
    sC.batches.length = sA.batches.length := by
  have h := congrArg List.length hR.batches
  simpa using h

/-- A call on batch `b`: corresponding batches are related by `recorded` and
`prefixOps`, and stay so. -/
theorem PrefixSim.onBatch {pfx : Bytes} {sC : Sys σ β} {sA : Sys KVMap (Option (List BatchOp))}
    (hR : PrefixSim view recorded pfx sC sA) (b : Nat) (f : β → Go Unit × β)
    (g : Option (List BatchOp) → Go Unit × Option (List BatchOp))
    (hfg : ∀ x y, recorded x = y.map (prefixOps pfx) →
      (f x).1 = (g y).1 ∧ recorded (f x).2 = (g y).2.map (prefixOps pfx))
    (hk : ∀ a ∈ (DB.onBatch sA b g).1.batches, RecordsNonemptyKeys a) :
    PrefixSim view recorded pfx (DB.onBatch sC b f).1 (DB.onBatch sA b g).1 ∧
      (DB.onBatch sC b f).2 = (DB.onBatch sA b g).2 := by
  obtain ⟨hr, hbs, hdbC, hdbA⟩ :=
    DB.onBatch_sim hR.batches b (fun x y _ hxy => hfg x y hxy)
  exact ⟨⟨by rw [hdbC, hdbA]; exact hR.db, hbs, hk⟩, hr⟩

/-- `Write` and `WriteSync` of batch `b`, through a wrapped write that replays
the recorded writes as the specification does. -/
theorem PrefixSim.onBatchWrite {pfx : Bytes} {sC : Sys σ β}
    {sA : Sys KVMap (Option (List BatchOp))} (hR : PrefixSim view recorded pfx sC sA) (b : Nat)
    (f : σ → β → Go Unit × σ × β)
    (hf : ∀ s b, (f s b).1 = (mapBatchWrite (view s) (recorded b)).1 ∧
      view (f s b).2.1 = (mapBatchWrite (view s) (recorded b)).2.1 ∧
      recorded (f s b).2.2 = (mapBatchWrite (view s) (recorded b)).2.2)
    (hk : ∀ a ∈ (DB.onBatchWrite sA b mapBatchWrite).1.batches, RecordsNonemptyKeys a) :
    PrefixSim view recorded pfx (DB.onBatchWrite sC b f).1 (DB.onBatchWrite sA b mapBatchWrite).1 ∧
      (DB.onBatchWrite sC b f).2 = (DB.onBatchWrite sA b mapBatchWrite).2 := by
  obtain ⟨hr, hbs, hdb⟩ := DB.onBatchWrite_sim hR.batches b
    (fun c a => project pfx (view c) = a) hR.db (fun x y hy hxy => by
      rw [← hR.db]
      exact prefixBatchWrite_sim hf sC.db hxy (hR.keys y hy))
  exact ⟨⟨hdb, hbs, hk⟩, hr⟩

/-- One call on `PrefixDB D pfx` and on the specification over the
projection: related states stay related, and the replies agree except on a
batch's `GetByteSize`, which counts the prefix bytes too. -/
theorem prefixDB_step_sim (hD : IsSortedMapDB D view recorded) {pfx : Bytes} (hpfx : pfx ≠ [])
    {sC : Sys σ β} {sA : Sys KVMap (Option (List BatchOp))}
    (hR : PrefixSim view recorded pfx sC sA) (c : Call) (hc : c.isBatchGetByteSize = false) :
    PrefixSim view recorded pfx ((prefixDB D pfx).step sC c).1 (mapDB.step sA c).1 ∧
      ((prefixDB D pfx).step sC c).2 = (mapDB.step sA c).2 := by
  have hkeys := mapDB_step_keys sA c hR.keys
  cases c with
  | get key =>
    refine ⟨hR, ?_⟩
    simp only [DB.step]
    rw [← hR.db, ← prefixDB_get_eq hD hpfx]
  | has key =>
    refine ⟨hR, ?_⟩
    simp only [DB.step]
    rw [← hR.db, ← prefixDB_has_eq hD hpfx]
  | set key value =>
    obtain ⟨h1, h2⟩ := prefixSet_sim hpfx hD.set sC.db key value
    rw [hR.db] at h1 h2
    exact hR.onWrite (prefixSet pfx D.set sC.db key value) (mapSet sA.db key value) h1 h2
  | setSync key value =>
    obtain ⟨h1, h2⟩ := prefixSet_sim hpfx hD.setSync sC.db key value
    rw [hR.db] at h1 h2
    exact hR.onWrite (prefixSet pfx D.setSync sC.db key value) (mapSet sA.db key value) h1 h2
  | delete key =>
    obtain ⟨h1, h2⟩ := prefixDelete_sim hpfx hD.delete sC.db key
    rw [hR.db] at h1 h2
    exact hR.onWrite (prefixDelete pfx D.delete sC.db key) (mapDelete sA.db key) h1 h2
  | deleteSync key =>
    obtain ⟨h1, h2⟩ := prefixDelete_sim hpfx hD.deleteSync sC.db key
    rw [hR.db] at h1 h2
    exact hR.onWrite (prefixDelete pfx D.deleteSync sC.db key) (mapDelete sA.db key) h1 h2
  | iterator start «end» =>
    refine ⟨hR, ?_⟩
    simp only [DB.step]
    rw [← hR.db, ← prefixDB_iterator_eq hD hpfx]
  | reverseIterator start «end» =>
    refine ⟨hR, ?_⟩
    simp only [DB.step]
    rw [← hR.db, ← prefixDB_reverseIterator_eq hD hpfx]
  | newBatch | newBatchWithSize size =>
    -- a new batch records nothing on either side
    refine ⟨⟨hR.db, ?_, hkeys⟩, ?_⟩
    · simp [DB.step, prefixDB, mapDB, hR.batches, hD.newBatch, hD.newBatchWithSize, prefixOps]
    · simp [DB.step, prefixDB, mapDB, hR.batches_length]
  | batchSet b key value =>
    exact hR.onBatch b _ _ (fun x y hxy => prefixBatchSet_sim hD pfx hxy key value) hkeys
  | batchDelete b key =>
    exact hR.onBatch b _ _ (fun x y hxy => prefixBatchDelete_sim hD pfx hxy key) hkeys
  | batchWrite b => exact hR.onBatchWrite b D.batchWrite hD.batchWrite hkeys
  | batchWriteSync b => exact hR.onBatchWrite b D.batchWriteSync hD.batchWriteSync hkeys
  | batchClose b =>
    refine hR.onBatch b D.batchClose _ (fun x y _ => ?_) hkeys
    obtain ⟨h1, h2⟩ := hD.batchClose x
    exact ⟨h1, by rw [h2]; rfl⟩
  | batchGetByteSize b => simp [Call.isBatchGetByteSize] at hc

end Refinement

/-! ## Every run -/

/-- `PrefixDB D p`, for a nonempty `p` over a `D` that behaves as a sorted
map, answers every sequence of calls as the sorted map that starts as the
namespace of `p` in `D` (a batch's `GetByteSize` apart), and its namespace
ends as that map ends. -/
theorem prefixDB_refines_mapDB {σ β : Type} (D : DB σ β) (view : σ → KVMap)
    (recorded : β → Option (List BatchOp)) (hD : IsSortedMapDB D view recorded)
    (pfx : Bytes) (hpfx : pfx ≠ []) (db : σ) (calls : List Call)
    (hcalls : ∀ c ∈ calls, c.isBatchGetByteSize = false) :
    ((prefixDB D pfx).runFrom db calls).2 = (mapDB.runFrom (project pfx (view db)) calls).2 ∧
      project pfx (view ((prefixDB D pfx).runFrom db calls).1.db) =
        (mapDB.runFrom (project pfx (view db)) calls).1.db := by
  -- no batches yet on either side
  have hinit : PrefixSim view recorded pfx ⟨db, []⟩ ⟨project pfx (view db), []⟩ :=
    ⟨rfl, rfl, by simp⟩
  obtain ⟨hR, hout⟩ := run_simulation (prefixDB D pfx).step mapDB.step
    (fun c => c.isBatchGetByteSize = false) (PrefixSim view recorded pfx)
    (fun _ _ c hc hR => prefixDB_step_sim hD hpfx hR c hc) calls hcalls hinit
  exact ⟨hout, hR.db⟩

/-- A `PrefixDB` over a `MemDB`, whose B-tree is the sorted map itself. -/
theorem prefixDB_refines_mapDB_run :
    ([1] : Bytes) ≠ [] ∧
      (∀ c ∈ [Call.set [2] (some [3]), .newBatch, .batchDelete 0 [2], .batchWrite 0, .get [2]],
        c.isBatchGetByteSize = false) ∧
      ((prefixDB (memDB sortedMapBTree) [1]).runFrom ⟨(SortedMap.empty : KVMap).set [1, 2] [5]⟩
          [.set [2] (some [3]), .newBatch, .batchDelete 0 [2], .batchWrite 0, .get [2]]).2 =
        (mapDB.runFrom (project [1] ((SortedMap.empty : KVMap).set [1, 2] [5]))
          [.set [2] (some [3]), .newBatch, .batchDelete 0 [2], .batchWrite 0, .get [2]]).2 ∧
      project [1] (((prefixDB (memDB sortedMapBTree) [1]).runFrom
          ⟨(SortedMap.empty : KVMap).set [1, 2] [5]⟩
          [.set [2] (some [3]), .newBatch, .batchDelete 0 [2], .batchWrite 0, .get [2]]).1.db.btree) =
        (mapDB.runFrom (project [1] ((SortedMap.empty : KVMap).set [1, 2] [5]))
          [.set [2] (some [3]), .newBatch, .batchDelete 0 [2], .batchWrite 0, .get [2]]).1.db :=
  ⟨by decide, by decide, prefixDB_refines_mapDB (memDB sortedMapBTree) (fun db => db.btree)
    MemDBBatch.recorded (memDB_isSortedMapDB sortedMapBTree_isOrdered) [1] (by decide)
    ⟨(SortedMap.empty : KVMap).set [1, 2] [5]⟩
    [.set [2] (some [3]), .newBatch, .batchDelete 0 [2], .batchWrite 0, .get [2]] (by decide)⟩

end CosmosDb
