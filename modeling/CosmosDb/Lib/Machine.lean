import Mathlib.Data.List.Forall2

/-!
# Runs of a state machine

A component driven by a sequence of calls is a step function from a state
and a call to the next state and the call's reply. `run` feeds it a list of
calls and collects the replies. Two lemmas package the inductions over runs:

* `run_invariant` — a property kept by every allowed step holds after every
  run of allowed calls;
* `run_simulation_map` — if one step of each of two machines keeps a
  relation between their states and gives related replies, the first
  machine running each call translated, then on every run of allowed calls
  the replies are related call by call, and the machines end in related
  states; `run_simulation` is the case of the same calls and equal replies;
* `run_simulation_kept` — the same where whether a reply is related depends
  on the state, as for a reply that points into memory: if later steps keep
  each reply related, every reply of a run is related in the state the run
  ends in.

`Explains` says that a history of calls and replies is what one run gives,
the notion of linearizability for a component that serves several callers
at once; `Explains.concat` extends it call by call, and `Explains.getElem?`
reads off the reply each call got.

`withHistory` is the machine that also records the calls and replies so
far, for invariants that relate a state to the history that led to it.

`indexed` is a family of machines, one per index, each call addressed to
one of them; `run_indexed` says that in every interleaving each member
answers its own calls as it would alone.

`Reachable` names the states some run reaches.
-/

namespace CosmosDb

variable {σ τ ι ο : Type}

/-- Feed the calls to the machine in order; the replies, in order. -/
def run (step : σ → ι → σ × ο) : σ → List ι → σ × List ο
  | s, [] => (s, [])
  | s, i :: is =>
    let r := step s i
    let rest := run step r.1 is
    (rest.1, r.2 :: rest.2)

@[simp] theorem run_nil (step : σ → ι → σ × ο) (s : σ) : run step s [] = (s, []) := rfl

theorem run_cons (step : σ → ι → σ × ο) (s : σ) (i : ι) (is : List ι) :
    run step s (i :: is) =
      ((run step (step s i).1 is).1, (step s i).2 :: (run step (step s i).1 is).2) := rfl

/-- A run gives one reply per call. -/
@[simp] theorem length_run (step : σ → ι → σ × ο) (s : σ) (is : List ι) :
    (run step s is).2.length = is.length := by
  induction is generalizing s with
  | nil => rfl
  | cons i is ih => simp [run_cons, ih]

theorem run_append (step : σ → ι → σ × ο) (s : σ) (is js : List ι) :
    run step s (is ++ js) =
      ((run step (run step s is).1 js).1, (run step s is).2 ++ (run step (run step s is).1 js).2) := by
  induction is generalizing s with
  | nil => rfl
  | cons i is ih => simp [run_cons, ih]

/-- A state some run of calls from `s₀` reaches. -/
def Reachable (step : σ → ι → σ × ο) (s₀ s : σ) : Prop :=
  ∃ is, (run step s₀ is).1 = s

theorem run_invariant (step : σ → ι → σ × ο) (Allowed : ι → Prop) (Inv : σ → Prop)
    (hstep : ∀ s i, Allowed i → Inv s → Inv (step s i).1) :
    ∀ (is : List ι) {s : σ}, (∀ i ∈ is, Allowed i) → Inv s → Inv (run step s is).1 := by
  intro is
  induction is with
  | nil => intro s _ hs; exact hs
  | cons i is ih =>
    intro s hall hs
    exact ih (fun j hj => hall j (List.mem_cons_of_mem i hj))
      (hstep s i (hall i List.mem_cons_self) hs)

/-- The simulation rule: the first machine runs each call translated by `tr`,
and its replies are related to the second's by `Out`. -/
theorem run_simulation_map {ι' ο' : Type} (step₁ : σ → ι' → σ × ο') (step₂ : τ → ι → τ × ο)
    (tr : ι → ι') (Allowed : ι → Prop) (R : σ → τ → Prop) (Out : ο' → ο → Prop)
    (hstep : ∀ s t i, Allowed i → R s t →
      R (step₁ s (tr i)).1 (step₂ t i).1 ∧ Out (step₁ s (tr i)).2 (step₂ t i).2) :
    ∀ (is : List ι) {s : σ} {t : τ}, (∀ i ∈ is, Allowed i) → R s t →
      R (run step₁ s (is.map tr)).1 (run step₂ t is).1 ∧
        List.Forall₂ Out (run step₁ s (is.map tr)).2 (run step₂ t is).2 := by
  intro is
  induction is with
  | nil => intro s t _ hR; exact ⟨hR, .nil⟩
  | cons i is ih =>
    intro s t hall hR
    -- one step keeps the relation, then the rest of the run
    obtain ⟨hR', hout⟩ := hstep s t i (hall i List.mem_cons_self) hR
    obtain ⟨hR'', hrest⟩ := ih (fun j hj => hall j (List.mem_cons_of_mem i hj)) hR'
    rw [List.map_cons, run_cons, run_cons]
    exact ⟨hR'', .cons hout hrest⟩

theorem run_simulation (step₁ : σ → ι → σ × ο) (step₂ : τ → ι → τ × ο)
    (Allowed : ι → Prop) (R : σ → τ → Prop)
    (hstep : ∀ s t i, Allowed i → R s t →
      R (step₁ s i).1 (step₂ t i).1 ∧ (step₁ s i).2 = (step₂ t i).2) :
    ∀ (is : List ι) {s : σ} {t : τ}, (∀ i ∈ is, Allowed i) → R s t →
      R (run step₁ s is).1 (run step₂ t is).1 ∧ (run step₁ s is).2 = (run step₂ t is).2 := by
  intro is s t hall hR
  -- the same calls, and equal replies
  have h := run_simulation_map step₁ step₂ id Allowed R Eq hstep is hall hR
  rw [List.map_id, List.forall₂_eq_eq_eq] at h
  exact h

section Kept

variable {ο' : Type} (step₁ : σ → ι → σ × ο) (step₂ : τ → ι → τ × ο') (R : σ → τ → Prop)
  (Keep : σ → ο → ο' → Prop)

/-- A reply related in a state stays related along a run from it. -/
theorem keep_run (hR : ∀ s t i, R s t → R (step₁ s i).1 (step₂ t i).1)
    (hkeep : ∀ s t i o o', R s t → Keep s o o' → Keep (step₁ s i).1 o o') {o : ο} {o' : ο'} :
    ∀ (is : List ι) {s : σ} {t : τ}, R s t → Keep s o o' → Keep (run step₁ s is).1 o o' := by
  intro is
  induction is with
  | nil => intro s t _ hk; exact hk
  | cons i is ih =>
    intro s t hst hk
    exact ih (hR s t i hst) (hkeep s t i o o' hst hk)

theorem run_simulation_kept
    (hstep : ∀ s t i, R s t →
      R (step₁ s i).1 (step₂ t i).1 ∧ Keep (step₁ s i).1 (step₁ s i).2 (step₂ t i).2)
    (hkeep : ∀ s t i o o', R s t → Keep s o o' → Keep (step₁ s i).1 o o') :
    ∀ (is : List ι) {s : σ} {t : τ}, R s t →
      R (run step₁ s is).1 (run step₂ t is).1 ∧
        List.Forall₂ (Keep (run step₁ s is).1) (run step₁ s is).2 (run step₂ t is).2 := by
  intro is
  induction is with
  | nil => intro s t hst; exact ⟨hst, .nil⟩
  | cons i is ih =>
    intro s t hst
    obtain ⟨hR', hk⟩ := hstep s t i hst
    obtain ⟨hR'', hrest⟩ := ih hR'
    -- the first reply stays related along the rest of the run
    have hk' := keep_run step₁ step₂ R Keep (fun s t i h => (hstep s t i h).1) hkeep is hR' hk
    rw [run_cons, run_cons]
    exact ⟨hR'', .cons hk' hrest⟩

end Kept

/-- Appending one call: the run of the others, then one step. -/
theorem run_concat (step : σ → ι → σ × ο) (s : σ) (is : List ι) (i : ι) :
    run step s (is ++ [i]) =
      ((step (run step s is).1 i).1, (run step s is).2 ++ [(step (run step s is).1 i).2]) := by
  rw [run_append]
  rfl

section Histories

/-- A history of calls, each with the reply it got, that one run of the
machine from `s₀` explains: run in the history's order, the machine gives
every call its reply. A concurrent component whose histories are all
explained is linearizable, the history's order being the linearization. -/
def Explains (step : σ → ι → σ × ο) (s₀ : σ) (h : List (ι × ο)) : Prop :=
  (run step s₀ (h.map Prod.fst)).2 = h.map Prod.snd

/-- The state the explaining run ends in. -/
def after (step : σ → ι → σ × ο) (s₀ : σ) (h : List (ι × ο)) : σ :=
  (run step s₀ (h.map Prod.fst)).1

variable {step : σ → ι → σ × ο} {s₀ : σ}

theorem explains_nil : Explains step s₀ [] := rfl

@[simp] theorem after_nil : after step s₀ [] = s₀ := rfl

/-- A call whose reply is the machine's from where the history leaves it
extends an explained history. -/
theorem Explains.concat {h : List (ι × ο)} (hh : Explains step s₀ h) {i : ι} {o : ο}
    (ho : (step (after step s₀ h) i).2 = o) : Explains step s₀ (h ++ [(i, o)]) := by
  unfold Explains at hh ⊢
  rw [List.map_append, List.map_append, List.map_singleton, List.map_singleton, run_concat, hh, ← ho]
  rfl

theorem after_concat (h : List (ι × ο)) (i : ι) (o : ο) :
    after step s₀ (h ++ [(i, o)]) = (step (after step s₀ h) i).1 := by
  unfold after
  rw [List.map_append, List.map_singleton, run_concat]

/-- Each call of an explained history got the machine's reply from where the
calls before it leave the machine. -/
theorem Explains.getElem? {h : List (ι × ο)} (hh : Explains step s₀ h) {j : Nat} {i : ι} {o : ο}
    (hj : h[j]? = some (i, o)) : (step (after step s₀ (h.take j)) i).2 = o := by
  obtain ⟨rest, hrest⟩ : ∃ rest, h.drop j = (i, o) :: rest := by
    obtain ⟨hlt, hget⟩ := List.getElem?_eq_some_iff.mp hj
    rw [List.drop_eq_getElem_cons hlt, hget]
    exact ⟨_, rfl⟩
  -- split the history before the call; the replies before it are as many as the calls
  have hsplit := hh
  unfold Explains at hsplit
  rw [← List.take_append_drop j h, hrest, List.map_append, List.map_append, run_append,
    List.map_cons, List.map_cons, run_cons] at hsplit
  have hlen : (run step s₀ ((h.take j).map Prod.fst)).2.length = ((h.take j).map Prod.snd).length := by
    rw [length_run, List.length_map, List.length_map]
  obtain ⟨-, hcall⟩ := List.append_inj hsplit hlen
  exact (List.cons.inj hcall).1

end Histories

/-- The machine that also records each call with its reply. -/
def withHistory (step : σ → ι → σ × ο) (s : σ × List (ι × ο)) (i : ι) :
    (σ × List (ι × ο)) × ο :=
  (((step s.1 i).1, s.2 ++ [(i, (step s.1 i).2)]), (step s.1 i).2)

/-- A run of the recording machine ends where the plain run ends, having
recorded the calls paired with the replies. -/
theorem run_withHistory (step : σ → ι → σ × ο) (is : List ι) :
    ∀ (s : σ) (h : List (ι × ο)),
      (run (withHistory step) (s, h) is).1 = ((run step s is).1, h ++ is.zip (run step s is).2) := by
  induction is with
  | nil => intro s h; simp
  | cons i is ih =>
    intro s h
    simp [run_cons, withHistory, ih]

/-! ## Families of machines -/

section Indexed

variable {κ : Type} [DecidableEq κ]

/-- A family of independent machines, one per index; a call names the member
it is addressed to, and only that member steps. -/
def indexed (step : σ → ι → σ × ο) (A : κ → σ) (c : κ × ι) : (κ → σ) × ο :=
  (Function.update A c.1 (step (A c.1) c.2).1, (step (A c.1) c.2).2)

/-- The calls of a sequence addressed to `k`, in order. -/
def callsTo (k : κ) (cs : List (κ × ι)) : List ι :=
  cs.filterMap fun c => if c.1 = k then some c.2 else none

/-- The replies, out of the replies `os` to the calls `cs`, that went to `k`. -/
def repliesTo (k : κ) (cs : List (κ × ι)) (os : List ο) : List ο :=
  (cs.zip os).filterMap fun c => if c.1.1 = k then some c.2 else none

theorem repliesTo_cons (k : κ) (c : κ × ι) (cs : List (κ × ι)) (o : ο) (os : List ο) :
    repliesTo k (c :: cs) (o :: os) = if c.1 = k then o :: repliesTo k cs os else repliesTo k cs os := by
  by_cases hc : c.1 = k <;> simp [repliesTo, hc]

/-- In every interleaving, each member of the family answers the calls
addressed to it as it would if they were its only calls, and ends where
that run of its own ends. -/
theorem run_indexed (step : σ → ι → σ × ο) (k : κ) :
    ∀ (cs : List (κ × ι)) (A : κ → σ),
      (run (indexed step) A cs).1 k = (run step (A k) (callsTo k cs)).1 ∧
        repliesTo k cs (run (indexed step) A cs).2 = (run step (A k) (callsTo k cs)).2 := by
  intro cs
  induction cs with
  | nil => intro A; exact ⟨rfl, rfl⟩
  | cons c cs ih =>
    intro A
    obtain ⟨hstate, hreplies⟩ := ih (indexed step A c).1
    rw [run_cons]
    by_cases hc : c.1 = k
    · -- the call is `k`'s: it steps, and its reply is the first of `k`'s
      subst hc
      have hcalls : callsTo c.1 (c :: cs) = c.2 :: callsTo c.1 cs := by simp [callsTo]
      have hA : (indexed step A c).1 c.1 = (step (A c.1) c.2).1 := by simp [indexed]
      rw [hA] at hstate hreplies
      rw [hcalls, run_cons, hstate, repliesTo_cons, if_pos rfl, hreplies]
      exact ⟨rfl, rfl⟩
    · -- another member steps, and `k` is left as it was
      have hcalls : callsTo k (c :: cs) = callsTo k cs := by simp [callsTo, hc]
      have hA : (indexed step A c).1 k = A k := by simp [indexed, Ne.symm hc]
      rw [hA] at hstate hreplies
      rw [hcalls, hstate, repliesTo_cons, if_neg hc, hreplies]
      exact ⟨rfl, rfl⟩

end Indexed

/-! ## Lists of handles

A machine's state often holds a list of handles (batches, threads), one of
them updated in place by a step or a new one added at the end. -/

theorem getElem?_set_eq_some {α : Type} {l : List α} {i j : Nat} {x y : α}
    (h : (l.set i x)[j]? = some y) : (j = i ∧ y = x) ∨ (j ≠ i ∧ l[j]? = some y) := by
  rw [List.getElem?_set] at h
  split_ifs at h with hij
  · exact .inl ⟨hij.symm, (Option.some.inj h).symm⟩
  · exact .inr ⟨Ne.symm hij, h⟩

/-- Replacing a handle by one with the same image leaves the list's image as it is. -/
theorem map_set_of_getElem? {α β : Type} {f : α → β} {l : List α} {i : Nat} {a b : α}
    (hi : l[i]? = some a) (h : f b = f a) : (l.set i b).map f = l.map f := by
  have hfi : (l.map f)[i]? = some (f a) := by simp [hi]
  obtain ⟨_, hgi⟩ := List.getElem?_eq_some_iff.mp hfi
  rw [List.map_set, h, ← hgi, List.set_getElem_self]

theorem getElem?_concat_eq_some {α : Type} {l : List α} {i : Nat} {x y : α}
    (h : (l ++ [x])[i]? = some y) : l[i]? = some y ∨ (i = l.length ∧ y = x) := by
  rw [List.getElem?_append] at h
  split_ifs at h with hi
  · exact .inl h
  · rw [List.getElem?_singleton] at h
    split_ifs at h with h0
    · exact .inr ⟨by omega, (Option.some.inj h).symm⟩

end CosmosDb
