import CosmosDb.Model.PrefixRefinement

/-!
# CosmosDb — namespaces of one database

`NewPrefixDB` "lets you namespace multiple DBs within a single DB". This
module proves that of the model in two forms.

Nesting: a `PrefixDB` over a `PrefixDB` is the `PrefixDB` of the joined
prefix (`prefixDB_prefixDB`). Every method but the iterators forwards to the
wrapped database under `p1 ++ p2 ++ key`, whatever that database is. The
iterators ask the wrapped database for different bounds: for a `p2` of 0xFF
bytes and a nil end the nested one reads up to `cpIncr p1`, the joined one
up to `cpIncr (p1 ++ p2)`. They yield the same entries when the wrapped
database iterates as a sorted map, since a namespace of a namespace is a
namespace (`project_project`). Both prefixes are nonempty; with an empty
inner prefix a nil start becomes an empty start key, refused.

Isolation: several `PrefixDB`s share one database, and each has batches of
its own (`Namespaces`). A call through the namespace of `q` changes only
keys under `q` (`prefixDB_step_onlyUnder`), and no other namespace reads
those keys when no prefix extends another. So in every interleaving each
namespace answers its own calls as a sorted map of its own would, and every
call of the run changes only keys under its prefix
(`prefixDB_namespaces_isolated`). Prefixes of which one extends the other
share keys: the key `k` of `p ++ j` is the key `j ++ k` of `p`.
-/

namespace CosmosDb

variable {σ β : Type}

/-! ## A namespace of a namespace -/

theorem prefixed_prefixed (p1 p2 key : Bytes) :
    prefixed p1 (prefixed p2 key) = prefixed (p1 ++ p2) key := by
  simp [prefixed, cp]

theorem length_prefixed_ne_zero (pfx : Bytes) {key : Bytes} (hk : key.length ≠ 0) :
    (prefixed pfx key).length ≠ 0 := by
  rw [prefixed, List.length_append]
  omega

/-- The namespace of `p2` in the namespace of `p1` is the namespace of `p1 ++ p2`. -/
theorem project_project (p1 p2 : Bytes) (m : KVMap) :
    project p2 (project p1 m) = project (p1 ++ p2) m := by
  apply SortedMap.ext_get
  intro j
  rw [get_project, get_project, get_project]
  by_cases hj : j = []
  · simp [hj]
  · simp [hj]

/-- `Set` and `SetSync` of a namespace of a namespace; also a batch's `Set`,
which makes the same checks. -/
theorem prefixSet_prefixSet (p1 p2 : Bytes) (write : σ → Bytes → Option Bytes → Go Unit × σ) :
    prefixSet p2 (prefixSet p1 write) = prefixSet (p1 ++ p2) write := by
  funext s key value
  unfold prefixSet
  by_cases hk : key.length = 0
  · simp [hk]
  · -- the outer checks passed, so the inner ones pass on the longer key
    by_cases hv : value = none
    · simp [hk, hv]
    · simp only [hk, length_prefixed_ne_zero p2 hk, hv, if_false, prefixed_prefixed]

theorem prefixDelete_prefixDelete (p1 p2 : Bytes) (write : σ → Bytes → Go Unit × σ) :
    prefixDelete p2 (prefixDelete p1 write) = prefixDelete (p1 ++ p2) write := by
  funext s key
  unfold prefixDelete
  by_cases hk : key.length = 0
  · simp [hk]
  · simp only [hk, length_prefixed_ne_zero p2 hk, if_false, prefixed_prefixed]

/-- The outer `GetAppend` goes through the inner one, which `PrefixDB` has. -/
theorem prefixGetAppend_prefixDB (D : DB σ β) (p1 p2 : Bytes) :
    prefixGetAppend (prefixDB D p1) p2 = prefixGetAppend D (p1 ++ p2) := by
  funext s key dst
  by_cases hk : key.length = 0
  · simp [prefixGetAppend, hk]
  · simp only [prefixGetAppend, prefixDB, hk, length_prefixed_ne_zero p2 hk, if_false,
      prefixed_prefixed]

/-- The iterators of a namespace of a namespace, over a wrapped iterator
that yields the range of the map `view s` in the order `arrange` gives it. -/
theorem prefixIterator_prefixIterator (view : σ → KVMap) {p1 p2 : Bytes} (hp1 : p1 ≠ [])
    (hp2 : p2 ≠ []) (arrange : List (Bytes × Bytes) → List (Bytes × Bytes))
    (harrange : ∀ pfx l, stripNamespace pfx (arrange l) = arrange (stripNamespace pfx l))
    (open_ : σ → Option Bytes → Option Bytes → Go (List (Bytes × Bytes)))
    (ho : ∀ s start «end», hasEmptyBound start «end» = false →
      open_ s start «end» = .ok (arrange (mapRange (view s) start «end»))) :
    prefixIterator p2 (prefixIterator p1 open_) = prefixIterator (p1 ++ p2) open_ := by
  funext s start «end»
  -- the inner namespace iterates as the range of its projection
  have ho₁ : ∀ s start «end», hasEmptyBound start «end» = false →
      prefixIterator p1 open_ s start «end» =
        .ok (arrange (mapRange (project p1 (view s)) start «end»)) := by
    intro s start «end» hb
    rw [prefixIterator_eq hp1 arrange (harrange p1) ho, hb, if_neg Bool.false_ne_true]
  rw [prefixIterator_eq hp2 arrange (harrange p2) ho₁,
    prefixIterator_eq (List.append_ne_nil_of_left_ne_nil hp1 p2) arrange (harrange _) ho,
    project_project]

attribute [ext] DB

/-- `NewPrefixDB(NewPrefixDB(db, p1), p2)` is `NewPrefixDB(db, p1 ++ p2)`:
for nonempty prefixes over a database that behaves as a sorted map, every
method of the one is the method of the other. -/
theorem prefixDB_prefixDB {view : σ → KVMap} {recorded : β → Option (List BatchOp)} (D : DB σ β)
    (hD : IsSortedMapDB D view recorded) (p1 p2 : Bytes) (hp1 : p1 ≠ []) (hp2 : p2 ≠ []) :
    prefixDB (prefixDB D p1) p2 = prefixDB D (p1 ++ p2) := by
  have hit := prefixIterator_prefixIterator view hp1 hp2 id (fun _ _ => rfl) D.iterator
    (fun s start «end» hb => by rw [hD.iterator s start «end» hb]; simp [mapDB, hb])
  have hrev := prefixIterator_prefixIterator view hp1 hp2 List.reverse
    (fun _ _ => List.filterMap_reverse) D.reverseIterator
    (fun s start «end» hb => by rw [hD.reverseIterator s start «end» hb]; simp [mapDB, hb])
  -- `Get` and `Has` check the key, then read `D` under the joined prefix
  have hread : ∀ {α : Type} (read : σ → Bytes → Go α) (s : σ) (key : Bytes),
      (if key.length = 0 then throwErr .errKeyEmpty
        else if (prefixed p2 key).length = 0 then throwErr .errKeyEmpty
        else read s (prefixed p1 (prefixed p2 key))) =
      if key.length = 0 then throwErr .errKeyEmpty else read s (prefixed (p1 ++ p2) key) := by
    intro α read s key
    by_cases hk : key.length = 0
    · simp [hk]
    · simp only [hk, length_prefixed_ne_zero p2 hk, if_false, prefixed_prefixed]
  ext1
  case get => funext s key; exact hread D.get s key
  case has => funext s key; exact hread D.has s key
  case set => exact prefixSet_prefixSet p1 p2 D.set
  case setSync => exact prefixSet_prefixSet p1 p2 D.setSync
  case delete => exact prefixDelete_prefixDelete p1 p2 D.delete
  case deleteSync => exact prefixDelete_prefixDelete p1 p2 D.deleteSync
  case iterator => exact hit
  case reverseIterator => exact hrev
  case batchSet => exact prefixSet_prefixSet p1 p2 D.batchSet
  case batchDelete => exact prefixDelete_prefixDelete p1 p2 D.batchDelete
  case getAppend => exact congrArg some (prefixGetAppend_prefixDB D p1 p2)
  -- the batch methods that take no key forward to `D` unchanged
  case newBatch | newBatchWithSize | batchWrite | batchWriteSync | batchClose | batchGetByteSize =>
    rfl

theorem prefixDB_prefixDB_ref :
    ([1] : Bytes) ≠ [] ∧ ([2] : Bytes) ≠ [] ∧
      prefixDB (prefixDB mapDB [1]) [2] = prefixDB mapDB [1, 2] :=
  ⟨by decide, by decide, prefixDB_prefixDB mapDB mapDB_isSortedMapDB [1] [2] (by decide) (by decide)⟩

/-! ## Writes under a prefix -/

/-- `m'` differs from `m` only on keys that extend `q`. -/
def OnlyUnder (q : Bytes) (m m' : KVMap) : Prop :=
  ∀ key, ¬ q <+: key → m'.get key = m.get key

theorem OnlyUnder.refl (q : Bytes) (m : KVMap) : OnlyUnder q m m := fun _ _ => rfl

theorem onlyUnder_set {q k : Bytes} (hk : q <+: k) (m : KVMap) (v : Bytes) :
    OnlyUnder q m (m.set k v) := by
  intro key hkey
  have hne : k ≠ key := by
    rintro rfl
    exact hkey hk
  simp [hne]

theorem onlyUnder_delete {q k : Bytes} (hk : q <+: k) (m : KVMap) : OnlyUnder q m (m.delete k) := by
  intro key hkey
  have hne : k ≠ key := by
    rintro rfl
    exact hkey hk
  simp [hne]

theorem onlyUnder_applyOps {q : Bytes} :
    ∀ (ops : List BatchOp) (m : KVMap), (∀ op ∈ ops, q <+: op.key) → OnlyUnder q m (m.applyOps ops)
  | [], m, _ => OnlyUnder.refl q m
  | op :: ops, m, hops => by
    -- the first write stays under `q`, then the rest of the writes
    have hfirst : OnlyUnder q m (m.applyOp op) := by
      cases op with
      | set k v => exact onlyUnder_set (hops _ List.mem_cons_self) m v
      | delete k => exact onlyUnder_delete (hops _ List.mem_cons_self) m
    have hrest := onlyUnder_applyOps ops (m.applyOp op)
      (fun o ho => hops o (List.mem_cons_of_mem op ho))
    intro key hkey
    rw [SortedMap.applyOps_cons, hrest key hkey, hfirst key hkey]

theorem mapBatchWrite_onlyUnder {q : Bytes} (m : KVMap) {b : Option (List BatchOp)}
    (hb : ∀ ops ∈ b, ∀ op ∈ ops, q <+: op.key) : OnlyUnder q m (mapBatchWrite m b).2.1 := by
  cases b with
  | none => exact OnlyUnder.refl q m
  | some ops => exact onlyUnder_applyOps ops m (hb ops rfl)

/-- A map that changed only under `q` has the namespaces of the prefixes
neither extending nor extended by `q` as they were. -/
theorem project_eq_of_onlyUnder {q p : Bytes} {m m' : KVMap} (h : OnlyUnder q m m')
    (hpq : ¬ p <+: q) (hqp : ¬ q <+: p) : project p m' = project p m := by
  apply SortedMap.ext_get
  intro j
  rw [get_project, get_project]
  split_ifs with hj
  · rfl
  · -- `q` and `p` both prefixes of `p ++ j` would make one a prefix of the other
    refine h (p ++ j) fun hq => ?_
    rcases List.prefix_or_prefix_of_prefix hq (List.prefix_append p j) with h' | h'
    · exact hqp h'
    · exact hpq h'

/-! ## One call writes under its prefix -/

theorem DB.onBatch_db (s : Sys σ β) (b : Nat) (f : β → Go Unit × β) :
    (DB.onBatch s b f).1.db = s.db := by
  unfold DB.onBatch
  split <;> rfl

theorem DB.onBatchWrite_db (s : Sys σ β) (b : Nat) (f : σ → β → Go Unit × σ × β) :
    (DB.onBatchWrite s b f).1.db = s.db ∨
      ∃ x ∈ s.batches, (DB.onBatchWrite s b f).1.db = (f s.db x).2.1 := by
  unfold DB.onBatchWrite
  cases hb : s.batches[b]? with
  | none => exact .inl rfl
  | some x => exact .inr ⟨x, List.mem_of_getElem? hb, rfl⟩

variable {D : DB σ β} {view : σ → KVMap} {recorded : β → Option (List BatchOp)}

/-- A batch of the namespace of `q` records writes under `q` only. -/
theorem PrefixSim.recorded_under {q : Bytes} {sC : Sys σ β} {sA : Sys KVMap (Option (List BatchOp))}
    (hR : PrefixSim view recorded q sC sA) {x : β} (hx : x ∈ sC.batches) :
    ∀ ops ∈ recorded x, ∀ op ∈ ops, q <+: op.key := by
  have hmem : recorded x ∈ sA.batches.map (Option.map (prefixOps q)) := by
    rw [← hR.batches]
    exact List.mem_map_of_mem hx
  obtain ⟨y, -, hy⟩ := List.mem_map.mp hmem
  intro ops hops op hop
  rw [← hy] at hops
  -- the recorded writes are the specification's, each with `q` in front of its key
  obtain ⟨ops', -, rfl⟩ := Option.map_eq_some_iff.mp hops
  obtain ⟨op', -, rfl⟩ := List.mem_map.mp hop
  cases op' with
  | set k v => exact List.prefix_append q k
  | delete k => exact List.prefix_append q k

theorem prefixSet_onlyUnder {q : Bytes} {write : σ → Bytes → Option Bytes → Go Unit × σ}
    (hw : ∀ s key v, key ≠ [] →
      (write s key (some v)).1 = .ok () ∧ view (write s key (some v)).2 = (view s).set key v)
    (s : σ) (key : Bytes) (value : Option Bytes) :
    OnlyUnder q (view s) (view (prefixSet q write s key value).2) := by
  unfold prefixSet
  split_ifs with hk hv
  · exact OnlyUnder.refl q _
  · exact OnlyUnder.refl q _
  · obtain ⟨v, rfl⟩ := Option.ne_none_iff_exists'.mp hv
    have hne : prefixed q key ≠ [] := List.ne_nil_of_length_pos (by
      have := length_prefixed_ne_zero q hk
      omega)
    rw [(hw s _ v hne).2]
    exact onlyUnder_set (List.prefix_append q key) _ v

theorem prefixDelete_onlyUnder {q : Bytes} {write : σ → Bytes → Go Unit × σ}
    (hw : ∀ s key, key ≠ [] →
      (write s key).1 = .ok () ∧ view (write s key).2 = (view s).delete key)
    (s : σ) (key : Bytes) : OnlyUnder q (view s) (view (prefixDelete q write s key).2) := by
  unfold prefixDelete
  split_ifs with hk
  · exact OnlyUnder.refl q _
  · have hne : prefixed q key ≠ [] := List.ne_nil_of_length_pos (by
      have := length_prefixed_ne_zero q hk
      omega)
    rw [(hw s _ hne).2]
    exact onlyUnder_delete (List.prefix_append q key) _

theorem prefixBatchWrite_onlyUnder {q : Bytes} {write : σ → β → Go Unit × σ × β}
    (hw : ∀ s b, (write s b).1 = (mapBatchWrite (view s) (recorded b)).1 ∧
      view (write s b).2.1 = (mapBatchWrite (view s) (recorded b)).2.1 ∧
      recorded (write s b).2.2 = (mapBatchWrite (view s) (recorded b)).2.2)
    {sC : Sys σ β} {sA : Sys KVMap (Option (List BatchOp))} (hR : PrefixSim view recorded q sC sA)
    (b : Nat) : OnlyUnder q (view sC.db) (view (DB.onBatchWrite sC b write).1.db) := by
  rcases DB.onBatchWrite_db sC b write with h | ⟨x, hx, h⟩
  · rw [h]
    exact OnlyUnder.refl q _
  · rw [h, (hw sC.db x).2.1]
    exact mapBatchWrite_onlyUnder _ (hR.recorded_under hx)

/-- Every call through the namespace of `q` changes only keys under `q`. -/
theorem prefixDB_step_onlyUnder (hD : IsSortedMapDB D view recorded) {q : Bytes} {sC : Sys σ β}
    {sA : Sys KVMap (Option (List BatchOp))} (hR : PrefixSim view recorded q sC sA) (c : Call) :
    OnlyUnder q (view sC.db) (view ((prefixDB D q).step sC c).1.db) := by
  cases c with
  | set key value => exact prefixSet_onlyUnder hD.set sC.db key value
  | setSync key value => exact prefixSet_onlyUnder hD.setSync sC.db key value
  | delete key => exact prefixDelete_onlyUnder hD.delete sC.db key
  | deleteSync key => exact prefixDelete_onlyUnder hD.deleteSync sC.db key
  | batchWrite b => exact prefixBatchWrite_onlyUnder hD.batchWrite hR b
  | batchWriteSync b => exact prefixBatchWrite_onlyUnder hD.batchWriteSync hR b
  | batchSet b key value =>
    show OnlyUnder q _ (view (DB.onBatch sC b _).1.db)
    rw [DB.onBatch_db]
    exact OnlyUnder.refl q _
  | batchDelete b key =>
    show OnlyUnder q _ (view (DB.onBatch sC b _).1.db)
    rw [DB.onBatch_db]
    exact OnlyUnder.refl q _
  | batchClose b =>
    show OnlyUnder q _ (view (DB.onBatch sC b _).1.db)
    rw [DB.onBatch_db]
    exact OnlyUnder.refl q _
  | batchGetByteSize b =>
    simp only [DB.step]
    split <;> exact OnlyUnder.refl q _
  -- reads and new batches leave the database as it is
  | get _ | has _ | iterator _ _ | reverseIterator _ _ | newBatch | newBatchWithSize _ =>
    exact OnlyUnder.refl q _

/-! ## Namespaces that share a database -/

/-- Several `PrefixDB`s over one database, as a program holds them: the
wrapped database is shared, and the batches each namespace created are its
own, named by the order in which it created them. -/
structure Namespaces (σ β : Type) where
  db : σ
  batches : Bytes → List β

/-- A call through the `PrefixDB` of prefix `call.1`: `prefixDB`'s step on
the shared database and on that namespace's batches. -/
def Namespaces.step (D : DB σ β) (s : Namespaces σ β) (call : Bytes × Call) :
    Namespaces σ β × Go Reply :=
  let r := (prefixDB D call.1).step ⟨s.db, s.batches call.1⟩ call.2
  (⟨r.1.db, Function.update s.batches call.1 r.1.batches⟩, r.2)

/-- Each namespace of `P` is related by `PrefixSim` to a specification of its own. -/
def NamespacesSim (view : σ → KVMap) (recorded : β → Option (List BatchOp)) (P : List Bytes)
    (s : Namespaces σ β) (A : Bytes → Sys KVMap (Option (List BatchOp))) : Prop :=
  ∀ p ∈ P, PrefixSim view recorded p ⟨s.db, s.batches p⟩ (A p)

/-- One call through one of the namespaces: its own specification takes the
step, and every other namespace, whose keys the call does not write, stays
related to its specification as it was. -/
theorem namespaces_step_sim (hD : IsSortedMapDB D view recorded) {P : List Bytes}
    (hne : ∀ p ∈ P, p ≠ []) (hfree : ∀ p ∈ P, ∀ q ∈ P, p <+: q → p = q) {s : Namespaces σ β}
    {A : Bytes → Sys KVMap (Option (List BatchOp))} (hR : NamespacesSim view recorded P s A)
    (call : Bytes × Call) (hq : call.1 ∈ P) (hc : call.2.isBatchGetByteSize = false) :
    NamespacesSim view recorded P (Namespaces.step D s call).1 (indexed mapDB.step A call).1 ∧
      (Namespaces.step D s call).2 = (indexed mapDB.step A call).2 := by
  obtain ⟨q, c⟩ := call
  obtain ⟨hsim, hreply⟩ := prefixDB_step_sim hD (hne q hq) (hR q hq) c hc
  refine ⟨fun p hp => ?_, hreply⟩
  by_cases hpq : p = q
  · subst hpq
    simpa [Namespaces.step, indexed] using hsim
  · -- another namespace: its batches and specification are untouched
    have hframe := project_eq_of_onlyUnder (prefixDB_step_onlyUnder hD (hR q hq) c)
      (fun h => hpq (hfree p hp q hq h)) (fun h => hpq (hfree q hq p hp h).symm)
    simp only [Namespaces.step, indexed, Function.update_of_ne hpq]
    exact (hR p hp).with_db (hframe.trans (hR p hp).db)

/-- Namespaces of one database are isolated: over a database that behaves as
a sorted map, with nonempty prefixes none of which extends another, every
interleaving of calls through the namespaces gives each namespace the
replies a sorted map of its own gives its calls alone, starting from its
part of the database, and leaves its part as that map ends (a batch's
`GetByteSize` apart, which counts the prefix); and at every point of the
run, the next call changes only keys under its own prefix. -/
theorem prefixDB_namespaces_isolated (hD : IsSortedMapDB D view recorded) (P : List Bytes)
    (hne : ∀ p ∈ P, p ≠ []) (hfree : ∀ p ∈ P, ∀ q ∈ P, p <+: q → p = q) (db : σ)
    (calls : List (Bytes × Call)) (hcalls : ∀ c ∈ calls, c.1 ∈ P ∧ c.2.isBatchGetByteSize = false)
    (p : Bytes) (hp : p ∈ P) :
    repliesTo p calls (run (Namespaces.step D) ⟨db, fun _ => []⟩ calls).2 =
        (mapDB.runFrom (project p (view db)) (callsTo p calls)).2 ∧
      project p (view (run (Namespaces.step D) ⟨db, fun _ => []⟩ calls).1.db) =
        (mapDB.runFrom (project p (view db)) (callsTo p calls)).1.db ∧
      ∀ pre c post, calls = pre ++ c :: post →
        OnlyUnder c.1 (view (run (Namespaces.step D) ⟨db, fun _ => []⟩ pre).1.db)
          (view (Namespaces.step D (run (Namespaces.step D) ⟨db, fun _ => []⟩ pre).1 c).1.db) := by
  have hinit : NamespacesSim view recorded P ⟨db, fun _ => []⟩
      (fun p => ⟨project p (view db), []⟩) := fun _ _ => ⟨rfl, rfl, by simp⟩
  -- the shared database runs as the family of independent specifications, over any run
  have hsim := fun (cs : List (Bytes × Call)) (hcs : ∀ c ∈ cs, c.1 ∈ P ∧ c.2.isBatchGetByteSize = false) =>
    run_simulation (Namespaces.step D) (indexed mapDB.step)
      (fun c => c.1 ∈ P ∧ c.2.isBatchGetByteSize = false) (NamespacesSim view recorded P)
      (fun _ _ c hc hR => namespaces_step_sim hD hne hfree hR c hc.1 hc.2) cs hcs hinit
  obtain ⟨hR, hout⟩ := hsim calls hcalls
  obtain ⟨hstate, hreplies⟩ := run_indexed mapDB.step p calls fun p => ⟨project p (view db), []⟩
  refine ⟨by rw [hout]; exact hreplies, by rw [(hR p hp).db, hstate]; rfl, ?_⟩
  -- a call made after `pre` writes through its own namespace, related after `pre`
  intro pre c post hsplit
  have hpre : ∀ c' ∈ pre, c'.1 ∈ P ∧ c'.2.isBatchGetByteSize = false := fun c' hc' =>
    hcalls c' (hsplit ▸ List.mem_append_left _ hc')
  have hc : c.1 ∈ P := (hcalls c (hsplit ▸ List.mem_append_right _ List.mem_cons_self)).1
  exact prefixDB_step_onlyUnder hD ((hsim pre hpre).1 c.1 hc) c.2

theorem prefixDB_namespaces_isolated_run :
    (∀ p ∈ ([[1], [2]] : List Bytes), p ≠ []) ∧
      (∀ p ∈ ([[1], [2]] : List Bytes), ∀ q ∈ ([[1], [2]] : List Bytes), p <+: q → p = q) ∧
      (∀ c ∈ ([([1], .set [5] (some [7])), ([2], .newBatch), ([2], .batchSet 0 [5] (some [8])),
          ([2], .batchWrite 0), ([2], .get [5])] : List (Bytes × Call)),
        c.1 ∈ ([[1], [2]] : List Bytes) ∧ c.2.isBatchGetByteSize = false) ∧
      ([2] : Bytes) ∈ ([[1], [2]] : List Bytes) ∧
      repliesTo [2] ([([1], .set [5] (some [7])), ([2], .newBatch), ([2], .batchSet 0 [5] (some [8])),
          ([2], .batchWrite 0), ([2], .get [5])] : List (Bytes × Call))
          (run (Namespaces.step mapDB) ⟨(SortedMap.empty : KVMap).set [2, 5] [0], fun _ => []⟩
            [([1], .set [5] (some [7])), ([2], .newBatch), ([2], .batchSet 0 [5] (some [8])),
              ([2], .batchWrite 0), ([2], .get [5])]).2 =
        (mapDB.runFrom (project [2] (id ((SortedMap.empty : KVMap).set [2, 5] [0])))
          (callsTo [2] ([([1], .set [5] (some [7])), ([2], .newBatch),
            ([2], .batchSet 0 [5] (some [8])), ([2], .batchWrite 0), ([2], .get [5])] :
              List (Bytes × Call)))).2 ∧
      project [2] (id (run (Namespaces.step mapDB)
          ⟨(SortedMap.empty : KVMap).set [2, 5] [0], fun _ => []⟩
          [([1], .set [5] (some [7])), ([2], .newBatch), ([2], .batchSet 0 [5] (some [8])),
            ([2], .batchWrite 0), ([2], .get [5])]).1.db) =
        (mapDB.runFrom (project [2] (id ((SortedMap.empty : KVMap).set [2, 5] [0])))
          (callsTo [2] ([([1], .set [5] (some [7])), ([2], .newBatch),
            ([2], .batchSet 0 [5] (some [8])), ([2], .batchWrite 0), ([2], .get [5])] :
              List (Bytes × Call)))).1.db ∧
      ∀ pre c post, ([([1], .set [5] (some [7])), ([2], .newBatch), ([2], .batchSet 0 [5] (some [8])),
          ([2], .batchWrite 0), ([2], .get [5])] : List (Bytes × Call)) = pre ++ c :: post →
        OnlyUnder c.1 (id (run (Namespaces.step mapDB)
            ⟨(SortedMap.empty : KVMap).set [2, 5] [0], fun _ => []⟩ pre).1.db)
          (id (Namespaces.step mapDB (run (Namespaces.step mapDB)
            ⟨(SortedMap.empty : KVMap).set [2, 5] [0], fun _ => []⟩ pre).1 c).1.db) :=
  ⟨by decide, by decide, by decide, by decide,
    prefixDB_namespaces_isolated mapDB_isSortedMapDB [[1], [2]] (by decide) (by decide)
      ((SortedMap.empty : KVMap).set [2, 5] [0])
      [([1], .set [5] (some [7])), ([2], .newBatch), ([2], .batchSet 0 [5] (some [8])),
        ([2], .batchWrite 0), ([2], .get [5])] (by decide) [2] (by decide)⟩

end CosmosDb
