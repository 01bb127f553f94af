import Mathlib.Logic.Basic

/-!
# Iterators and what they yield

An iterator in the `Valid`/`Key`/`Value`/`Next` style is a state machine:
`valid` reports whether there is a current entry (and may record in the
state that there is none), `current` reads the entry at a valid position and
`next` moves on from one. `IterOps.Yields it s l` says that reading the
iterator from `s` to its end, the way every caller loops over it, produces
exactly `l` and then stops; since the relation is inductive, it also says
that the loop terminates.

Results:

* `yields_of_simulation` — the usual way to show what an iterator yields:
  relate each state to the entries still to come and check one step;
* `Yields.drain_eq` — a bounded read (`drain`) with enough fuel computes the
  yielded list;
* `staysInvalid_of_closed` — an invalid state that `valid` cannot leave stays
  invalid however often `valid` is called;
* `Reaches.invariant` — what the start state has and each call keeps holds
  of every state a caller reaches.

A traversal in the other style pushes entries to a visitor until the visitor
answers false; `visit` runs one over a list, and `recordAll` is the visitor
that reads off what a traversal offers.
-/

namespace CosmosDb

/-- The operations of an iterator over entries `α` with state `σ`. `current`
and `next` are meaningful at a position `valid` accepted. -/
structure IterOps (σ α : Type) where
  valid : σ → Bool × σ
  current : σ → α
  next : σ → σ

namespace IterOps

variable {σ α : Type} (it : IterOps σ α)

/-- Reading `it` from state `s` until `valid` returns false produces `l`. -/
inductive Yields : σ → List α → Prop
  | done {s s' : σ} : it.valid s = (false, s') → Yields s []
  | step {s s' : σ} {l : List α} :
      it.valid s = (true, s') → Yields (it.next s') l → Yields s (it.current s' :: l)

/-- Read at most `fuel` entries. -/
def drain : Nat → σ → List α
  | 0, _ => []
  | fuel + 1, s =>
    match it.valid s with
    | (true, s') => it.current s' :: drain fuel (it.next s')
    | (false, _) => []

/-- The state after `n` more calls of `valid`. -/
def validIter : Nat → σ → σ
  | 0, s => s
  | n + 1, s => validIter n (it.valid s).2

/-- However often `valid` is called again, it keeps returning false. -/
def StaysInvalid (s : σ) : Prop :=
  ∀ n, (it.valid (it.validIter n s)).1 = false

/-- The states a caller of `it` reaches from `s`: by a call of `valid`, and
by a call of `next` at a position `valid` accepted. -/
inductive Reaches (s : σ) : σ → Prop
  | refl : Reaches s s
  | valid {t : σ} : Reaches s t → Reaches s (it.valid t).2
  | next {t t' : σ} : Reaches s t → it.valid t = (true, t') → Reaches s (it.next t')

variable {it}

/-- To show that `it` yields `l` from `s`, relate every state to the entries
still to come: no entries means `valid` fails, and otherwise `valid`
succeeds on the next entry and `next` leaves the rest related. -/
theorem yields_of_simulation (R : σ → List α → Prop)
    (hnil : ∀ s, R s [] → (it.valid s).1 = false)
    (hcons : ∀ s a l, R s (a :: l) →
      ∃ s', it.valid s = (true, s') ∧ it.current s' = a ∧ R (it.next s') l) :
    ∀ {s : σ} {l : List α}, R s l → it.Yields s l := by
  intro s l hR
  induction l generalizing s with
  | nil =>
    have hv : it.valid s = (false, (it.valid s).2) := by rw [← hnil s hR]
    exact .done hv
  | cons a l ih =>
    obtain ⟨s', hv, hc, hR'⟩ := hcons s a l hR
    rw [← hc]
    exact .step hv (ih hR')

/-- A read with more fuel than entries returns everything the iterator yields. -/
theorem Yields.drain_eq {s : σ} {l : List α} (h : it.Yields s l) :
    ∀ fuel, l.length < fuel → it.drain fuel s = l := by
  induction h with
  | done hv =>
    intro fuel hf
    cases fuel with
    | zero => cases hf
    | succ n => simp [drain, hv]
  | step hv _ ih =>
    intro fuel hf
    cases fuel with
    | zero => cases hf
    | succ n =>
      simp only [List.length_cons, Nat.add_lt_add_iff_right] at hf
      simp [drain, hv, ih n hf]

/-- An invalid state stays invalid if `valid` keeps it inside a set of
invalid states. -/
theorem staysInvalid_of_closed (P : σ → Prop)
    (hP : ∀ s, P s → (it.valid s).1 = false ∧ P (it.valid s).2) :
    ∀ {s : σ}, P s → it.StaysInvalid s := by
  intro s hs n
  induction n generalizing s with
  | zero => exact (hP s hs).1
  | succ n ih => exact ih (hP s hs).2

theorem Reaches.trans {s t u : σ} (h₁ : it.Reaches s t) (h₂ : it.Reaches t u) :
    it.Reaches s u := by
  induction h₂ with
  | refl => exact h₁
  | valid _ ih => exact .valid ih
  | next _ hv ih => exact .next ih hv

/-- What holds of `s`, and is kept by a call of `valid` and by `next` at an
accepted position, holds of every state a caller reaches from `s`. -/
theorem Reaches.invariant (P : σ → Prop) {s : σ} (hs : P s)
    (hvalid : ∀ t, P t → P (it.valid t).2)
    (hnext : ∀ t t', P t → it.valid t = (true, t') → P (it.next t')) :
    ∀ {t : σ}, it.Reaches s t → P t := by
  intro t h
  induction h with
  | refl => exact hs
  | valid _ ih => exact hvalid _ ih
  | next _ hv ih => exact hnext _ _ ih hv

end IterOps

/-! ## Visitors -/

/-- Feed the entries of `l` to the visitor `f` in order, until it answers
false; the visitor's state at the end. -/
def visit {S α : Type} (f : S → α → Bool × S) : S → List α → S
  | s, [] => s
  | s, a :: l =>
    match f s a with
    | (true, s') => visit f s' l
    | (false, s') => s'

section Visit

variable {S α : Type} {f : S → α → Bool × S}

@[simp] theorem visit_nil (s : S) : visit f s [] = s := rfl

theorem visit_cons_of_continue {s s' : S} {a : α} (h : f s a = (true, s')) (l : List α) :
    visit f s (a :: l) = visit f s' l := by
  simp only [visit, h]

theorem visit_cons_of_stop {s s' : S} {a : α} (h : f s a = (false, s')) (l : List α) :
    visit f s (a :: l) = s' := by
  simp only [visit, h]

end Visit

/-- The visitor that accepts every entry and records it: a traversal run with
it reads off the entries the traversal offers, in order. -/
def recordAll {α : Type} (acc : List α) (a : α) : Bool × List α := (true, acc ++ [a])

theorem visit_recordAll {α : Type} (acc l : List α) : visit recordAll acc l = acc ++ l := by
  induction l generalizing acc with
  | nil => simp
  | cons a l ih =>
    rw [visit_cons_of_continue (show recordAll acc a = (true, acc ++ [a]) from rfl), ih,
      List.append_assoc, List.singleton_append]

end CosmosDb
