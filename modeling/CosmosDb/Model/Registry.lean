import CosmosDb.Model.Basic

/-!
# CosmosDb — the backend registry

`db.go` keeps a map from backend names to creators. The package's `init`
functions register each backend (goleveldb, memdb, pebbledb, treedb, and
rocksdb under its build tag), and `NewDB` opens a database through the creator
of the backend it is given. `registerDBCreator` keeps a creator already
registered under the name unless it is forced.

The map is `Registry`, its names kept without repetition. A creator is a
function of the name, the directory and the options; an error is its message.
Go ranges over a map in an order it leaves unspecified and picks anew each
time; `NewDBwithOptions` lists the names in the order of its `range`, so it
takes that order as an argument, a `RangeOrder`: the registered names, each
once, in any order.

* `chosenCreator` — what a sequence of registrations should leave a name
  mapped to: its first registration's creator, or that of the last forced
  registration after it;
* `registerAll_get` — the registry after any sequence of registrations maps
  every name to its `chosenCreator`;
* `newDBwithOptions_registerAll` — `NewDBwithOptions` then opens through that
  creator, or fails naming the backend and listing, in the order of the
  `range`, every name registered, each once.
-/

namespace CosmosDb

/-- `BackendType`: the name a backend is registered under. -/
abbrev BackendType := String

/-- The map from backend names to creators: each name at most once, in the
order the names were first set. -/
structure Registry (C : Type) where
  entries : List (BackendType × C)
  nodup : (entries.map Prod.fst).Nodup

namespace Registry

variable {C : Type}

def empty : Registry C := ⟨[], List.nodup_nil⟩

/-- The names, in the order they were first set. -/
def keys (r : Registry C) : List BackendType := r.entries.map Prod.fst

/-- The creator the entries map `b` to. -/
def lookupName (b : BackendType) : List (BackendType × C) → Option C
  | [] => none
  | e :: rest => if e.1 = b then some e.2 else lookupName b rest

/-- `backends[name]`. -/
def get (r : Registry C) (b : BackendType) : Option C := lookupName b r.entries

/-- `backends[name] = c`: in place where the name is set, else at the end. -/
def set (r : Registry C) (b : BackendType) (c : C) : Registry C :=
  if hb : b ∈ r.keys then
    ⟨r.entries.map fun e => if e.1 = b then (b, c) else e, by
      have hkeys : (r.entries.map fun e => if e.1 = b then (b, c) else e).map Prod.fst = r.keys := by
        simp only [keys, List.map_map]
        exact List.map_congr_left fun e _ => by by_cases h : e.1 = b <;> simp [h]
      rw [hkeys]
      exact r.nodup⟩
  else
    ⟨r.entries ++ [(b, c)], by
      rw [List.map_append, List.nodup_append]
      refine ⟨r.nodup, List.nodup_singleton _, fun x hx y hy => ?_⟩
      have hyb : y = b := by simpa using hy
      subst hyb
      exact fun hxb => hb (hxb ▸ hx)⟩

theorem lookupName_eq_none {l : List (BackendType × C)} {b : BackendType} (hb : b ∉ l.map Prod.fst) :
    lookupName b l = none := by
  induction l with
  | nil => rfl
  | cons e l ih =>
    have hne : e.1 ≠ b := fun h => hb (by simp [← h])
    rw [lookupName, if_neg hne]
    exact ih fun h => hb (List.mem_cons_of_mem _ h)

theorem isSome_lookupName {l : List (BackendType × C)} {b : BackendType} :
    (lookupName b l).isSome ↔ b ∈ l.map Prod.fst := by
  induction l with
  | nil => simp [lookupName]
  | cons e l ih =>
    by_cases h : e.1 = b
    · simp [lookupName, h]
    · rw [lookupName, if_neg h, ih, List.map_cons, List.mem_cons]
      exact ⟨.inr, fun h' => h'.resolve_left fun h'' => h h''.symm⟩

theorem lookupName_append (b : BackendType) (l l' : List (BackendType × C)) :
    lookupName b (l ++ l') = (lookupName b l).or (lookupName b l') := by
  induction l with
  | nil => rfl
  | cons e l ih => by_cases h : e.1 = b <;> simp [lookupName, h, ih]

/-- Setting a name that is there replaces its creator only. -/
theorem lookupName_map_set (l : List (BackendType × C)) (b b' : BackendType) (c : C) :
    lookupName b' (l.map fun e => if e.1 = b then (b, c) else e) =
      if b' = b then (if b ∈ l.map Prod.fst then some c else none) else lookupName b' l := by
  induction l with
  | nil => simp [lookupName]
  | cons e l ih =>
    by_cases hk : e.1 = b
    · by_cases hb' : b' = b
      · simp [lookupName, hk, hb']
      · have hne : ¬b = b' := fun h => hb' h.symm
        simp [lookupName, hk, hb', hne, ih]
    · by_cases he : e.1 = b'
      · have hne : ¬b' = b := fun h => hk (he.trans h)
        simp [lookupName, he, hne]
      · simp only [List.map_cons, hk, if_false, lookupName, he, ih, List.mem_cons]
        by_cases hb' : b' = b
        · subst hb'
          have hne : ¬b' = e.1 := fun h => hk h.symm
          simp only [hne, false_or]
        · simp [hb']

@[simp] theorem get_set (r : Registry C) (b b' : BackendType) (c : C) :
    (r.set b c).get b' = if b' = b then some c else r.get b' := by
  by_cases hb : b ∈ r.keys
  · rw [set, dif_pos hb, get, lookupName_map_set]
    by_cases h' : b' = b
    · rw [if_pos h', if_pos h', if_pos (show b ∈ r.entries.map Prod.fst from hb)]
    · rw [if_neg h', if_neg h', get]
  · rw [set, dif_neg hb, get, lookupName_append]
    by_cases h' : b' = b
    · subst h'
      rw [lookupName_eq_none hb]
      simp [lookupName]
    · rw [if_neg h', get]
      cases lookupName b' r.entries <;> simp [lookupName, Ne.symm h']

theorem mem_keys_set (r : Registry C) (b b' : BackendType) (c : C) :
    b' ∈ (r.set b c).keys ↔ b' = b ∨ b' ∈ r.keys := by
  unfold set keys
  split_ifs with hb
  · simp only [List.map_map]
    rw [List.map_congr_left (g := Prod.fst) fun e _ => by by_cases h : e.1 = b <;> simp [h]]
    exact ⟨.inr, fun h => h.elim (fun h' => h' ▸ hb) id⟩
  · simp [or_comm]

theorem isSome_get_iff (r : Registry C) (b : BackendType) : (r.get b).isSome ↔ b ∈ r.keys :=
  isSome_lookupName

/-- An order in which `for k := range backends` may visit the names: each
name of the registry once, in any order. -/
structure RangeOrder (r : Registry C) where
  names : List BackendType
  perm : names.Perm r.keys

theorem RangeOrder.nodup {r : Registry C} (o : RangeOrder r) : o.names.Nodup :=
  o.perm.nodup_iff.mpr r.nodup

end Registry

section Creators

variable {C : Type}

/-- `registerDBCreator`: set the creator, unless the name has one and the
registration is not forced. -/
def registerDBCreator (backends : Registry C) (backend : BackendType) (creator : C) (force : Bool) :
    Registry C :=
  if !force && (backends.get backend).isSome then backends
  else backends.set backend creator

/-- The registry after the registrations `regs`, each a name, a creator and
whether it is forced, in order. -/
def registerAll (regs : List (BackendType × C × Bool)) : Registry C :=
  regs.foldl (fun r x => registerDBCreator r x.1 x.2.1 x.2.2) Registry.empty

/-- What the registrations `regs` should leave `b` mapped to: the creator of
its first registration, unless a later one was forced, then the last such. -/
def chosenCreator (regs : List (BackendType × C × Bool)) (b : BackendType) : Option C :=
  match regs.filter (·.1 = b) with
  | [] => none
  | first :: later => some (((later.filter (·.2.2)).getLast?.map (·.2.1)).getD first.2.1)

theorem registerAll_append (regs : List (BackendType × C × Bool)) (x : BackendType × C × Bool) :
    registerAll (regs ++ [x]) = registerDBCreator (registerAll regs) x.1 x.2.1 x.2.2 := by
  simp [registerAll, List.foldl_append]

/-- One more registration of another name leaves the choice for `b` as it was. -/
theorem chosenCreator_append_ne (regs : List (BackendType × C × Bool)) {x : BackendType × C × Bool}
    {b : BackendType} (hx : x.1 ≠ b) : chosenCreator (regs ++ [x]) b = chosenCreator regs b := by
  simp [chosenCreator, List.filter_append, hx]

/-- One more registration of `b`: the first one if there was none, the new
creator if forced, else no change. -/
theorem chosenCreator_append_self (regs : List (BackendType × C × Bool)) (c : C) (force : Bool)
    (b : BackendType) :
    chosenCreator (regs ++ [(b, c, force)]) b =
      match chosenCreator regs b with
      | none => some c
      | some c' => some (if force then c else c') := by
  unfold chosenCreator
  rw [List.filter_append]
  cases hf : regs.filter (·.1 = b) with
  | nil => simp
  | cons first later =>
    cases force <;> simp [List.filter_append, List.getLast?_append]

/-- After any sequence of registrations, each name maps to its chosen creator. -/
theorem registerAll_get (regs : List (BackendType × C × Bool)) (b : BackendType) :
    (registerAll regs).get b = chosenCreator regs b := by
  induction regs using List.reverseRecOn with
  | nil => rfl
  | append_singleton regs x ih =>
    obtain ⟨k, c, force⟩ := x
    rw [registerAll_append]
    by_cases hk : k = b
    · subst hk
      rw [chosenCreator_append_self, ← ih]
      -- a name already set keeps its creator unless the registration is forced
      unfold registerDBCreator
      cases hget : (registerAll regs).get k with
      | none => simp
      | some c' =>
        cases force
        · simp [hget]
        · simp
    · rw [chosenCreator_append_ne regs hk, ← ih]
      unfold registerDBCreator
      split_ifs
      · rfl
      · rw [Registry.get_set, if_neg (Ne.symm hk)]

/-- The names registered are those of the registrations. -/
theorem mem_keys_registerAll (regs : List (BackendType × C × Bool)) (b : BackendType) :
    b ∈ (registerAll regs).keys ↔ ∃ x ∈ regs, x.1 = b := by
  induction regs using List.reverseRecOn with
  | nil => simp [registerAll, Registry.empty, Registry.keys]
  | append_singleton regs x ih =>
    rw [registerAll_append]
    unfold registerDBCreator
    split_ifs with hskip
    · -- a registration skipped names a backend registered already
      have hx : x.1 ∈ (registerAll regs).keys := (Registry.isSome_get_iff _ _).mp (by simp_all)
      rw [ih]
      constructor
      · rintro ⟨y, hy, rfl⟩
        exact ⟨y, List.mem_append_left _ hy, rfl⟩
      · rintro ⟨y, hy, rfl⟩
        rcases List.mem_append.mp hy with hy | hy
        · exact ⟨y, hy, rfl⟩
        · obtain rfl := List.mem_singleton.mp hy
          exact ih.mp hx
    · rw [Registry.mem_keys_set, ih]
      constructor
      · rintro (rfl | ⟨y, hy, rfl⟩)
        · exact ⟨x, by simp, rfl⟩
        · exact ⟨y, List.mem_append_left _ hy, rfl⟩
      · rintro ⟨y, hy, rfl⟩
        rcases List.mem_append.mp hy with hy | hy
        · exact .inr ⟨y, hy, rfl⟩
        · exact .inl (by rw [List.mem_singleton.mp hy])

end Creators

section NewDB

variable {D O : Type}

/-- A creator: the database `name` opened in `dir` with the options (`nil`
is `none`), or the error's message. -/
abbrev DBCreator (D O : Type) := String → String → Option O → Except String D

/-- `NewDBwithOptions`, with `order` the order in which this call's
`for k := range backends` visits the names. -/
def NewDBwithOptions (backends : Registry (DBCreator D O)) (order : Registry.RangeOrder backends)
    (name : String) (backend : BackendType) (dir : String) (opts : Option O) : Except String D :=
  match backends.get backend with
  | none => .error ("unknown db_backend " ++ backend ++ ", expected one of " ++ ",".intercalate order.names)
  | some dbCreator =>
    match dbCreator name dir opts with
    | .ok db => .ok db
    | .error err => .error ("failed to initialize database: " ++ err)

/-- `NewDB`: no options. -/
def NewDB (backends : Registry (DBCreator D O)) (order : Registry.RangeOrder backends) (name : String)
    (backend : BackendType) (dir : String) : Except String D :=
  NewDBwithOptions backends order name backend dir none

/-- After any sequence of registrations, `NewDBwithOptions` opens through the
creator chosen for the backend, its error wrapped; for a backend never
registered it fails naming it and listing the names in the order the map's
`range` takes, whichever it is: those of the registrations, each once. -/
theorem newDBwithOptions_registerAll (regs : List (BackendType × DBCreator D O × Bool))
    (order : Registry.RangeOrder (registerAll regs)) (name : String) (backend : BackendType)
    (dir : String) (opts : Option O) :
    NewDBwithOptions (registerAll regs) order name backend dir opts =
        (match chosenCreator regs backend with
          | none => .error ("unknown db_backend " ++ backend ++ ", expected one of " ++
              ",".intercalate order.names)
          | some dbCreator => (dbCreator name dir opts).mapError ("failed to initialize database: " ++ ·)) ∧
      order.names.Nodup ∧ ∀ b, b ∈ order.names ↔ ∃ x ∈ regs, x.1 = b := by
  -- the order lists the registry's names, which are those of the registrations
  have hmem : ∀ b, b ∈ order.names ↔ ∃ x ∈ regs, x.1 = b := fun b =>
    order.perm.mem_iff.trans (mem_keys_registerAll regs b)
  refine ⟨?_, order.nodup, hmem⟩
  rw [NewDBwithOptions, registerAll_get]
  cases chosenCreator regs backend with
  | none => rfl
  | some dbCreator =>
    cases h : dbCreator name dir opts <;> simp [h, Except.mapError]

/-- Registered as `goleveldb` then `memdb`, the names may be listed the other
way round. -/
example :
    NewDB (registerAll [("goleveldb", fun _ _ _ => .ok (), false), ("memdb", fun _ _ _ => .ok (), false)] :
        Registry (DBCreator Unit Unit)) ⟨["memdb", "goleveldb"], by decide⟩ "x" "rocksdb" "/tmp" =
      .error "unknown db_backend rocksdb, expected one of memdb,goleveldb" := by
  decide

end NewDB

end CosmosDb
