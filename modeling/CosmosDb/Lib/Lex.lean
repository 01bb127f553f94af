import Mathlib

/-!
# Lexicographic order on lists

Byte strings are compared lexicographically, a proper prefix first, and
Mathlib's `LinearOrder (List α)` is exactly that order. This module collects
the facts a range scan over a key prefix rests on:

* a shared prefix does not change a comparison (`append_lt_append_left_iff`);
* a list is below every extension of it (`le_append`, `le_of_isPrefix`);
* two lists that agree up to a position and then differ compare as the
  elements there do (`append_cons_lt_append_cons`);
* which lists a range between a list and a successor holds: below a list of
  maximal elements lies every list that does not extend it
  (`lt_of_not_isPrefix_of_forall_max`), and between `c ++ [d]` and
  `c ++ [e]`, for `e` the successor of `d`, lie only extensions of
  `c ++ [d]` (`isPrefix_of_le_of_lt_succ`).
-/

namespace CosmosDb.Lex

variable {α : Type} [LinearOrder α]

/-- A shared prefix does not change the comparison of two lists. -/
theorem append_lt_append_left_iff (p : List α) {a b : List α} :
    p ++ a < p ++ b ↔ a < b := by
  induction p with
  | nil => rfl
  | cons x p ih => exact List.lex_cons_iff.trans ih

theorem append_le_append_left_iff (p : List α) {a b : List α} :
    p ++ a ≤ p ++ b ↔ a ≤ b := by
  simp only [← not_lt, append_lt_append_left_iff]

/-- The empty list is the least list. -/
theorem nil_le (a : List α) : [] ≤ a := by
  cases a with
  | nil => exact le_rfl
  | cons x xs => exact le_of_lt List.Lex.nil

/-- A list is below each of its extensions. -/
theorem le_append (p a : List α) : p ≤ p ++ a := by
  simpa using (append_le_append_left_iff p).2 (nil_le a)

theorem le_of_isPrefix {p k : List α} (h : p <+: k) : p ≤ k := by
  obtain ⟨t, rfl⟩ := h
  exact le_append p t

/-- Two lists that agree on `c` and then differ compare as their next elements. -/
theorem append_cons_lt_append_cons (c : List α) {a b : α} (h : a < b) (r₁ r₂ : List α) :
    c ++ a :: r₁ < c ++ b :: r₂ :=
  (append_lt_append_left_iff c).2 (List.Lex.rel h)

/-- Below a list of maximal elements lies every list that does not extend it. -/
theorem lt_of_not_isPrefix_of_forall_max {a : α} (ha : ∀ x, x ≤ a) :
    ∀ {p k : List α}, (∀ x ∈ p, x = a) → ¬ p <+: k → k < p
  | [], _, _, hk => absurd List.nil_prefix hk
  | x :: p, [], _, _ => List.nil_lt_cons x p
  | x :: p, y :: k, hp, hk => by
    have hx : x = a := hp x List.mem_cons_self
    by_cases hy : y = x
    · -- equal heads: the tails do not extend, and compare the same way
      subst hy
      have hk' : ¬ p <+: k := fun h => hk (List.cons_prefix_cons.mpr ⟨rfl, h⟩)
      have hp' : ∀ z ∈ p, z = a := fun z hz => hp z (List.mem_cons_of_mem y hz)
      exact List.cons_lt_cons_iff.mpr (.inr ⟨rfl, lt_of_not_isPrefix_of_forall_max ha hp' hk'⟩)
    · exact List.cons_lt_cons_iff.mpr (.inl (lt_of_le_of_ne (hx ▸ ha y) hy))

/-- Between `c ++ [d]` and `c ++ [e]`, for `e` the successor of `d`, lie only
extensions of `c ++ [d]`. -/
theorem isPrefix_of_le_of_lt_succ {d e : α} (hsucc : ∀ y, d < y → e ≤ y) :
    ∀ {c k : List α}, c ++ [d] ≤ k → k < c ++ [e] → c ++ [d] <+: k
  | [], [], h1, _ => absurd h1 (not_le.mpr (List.nil_lt_cons d []))
  | [], y :: k, h1, h2 => by
    -- the first element is at least `d` and below `e`, so it is `d`
    have hdy : d ≤ y := not_lt.mp fun h => not_lt.mpr h1 (List.cons_lt_cons_iff.mpr (.inl h))
    have hy : y < e := by
      rcases List.cons_lt_cons_iff.mp h2 with h | ⟨-, h⟩
      · exact h
      · exact absurd h (List.not_lt_nil k)
    rcases hdy.lt_or_eq with h | rfl
    · exact absurd (hsucc y h) (not_le.mpr hy)
    · exact List.cons_prefix_cons.mpr ⟨rfl, List.nil_prefix⟩
  | x :: c, [], h1, _ => absurd h1 (not_le.mpr (List.nil_lt_cons x _))
  | x :: c, y :: k, h1, h2 => by
    -- both bounds start with `x`, so `k` does too, and the tails recurse
    have hxy : x ≤ y := not_lt.mp fun h => not_lt.mpr h1 (List.cons_lt_cons_iff.mpr (.inl h))
    rcases List.cons_lt_cons_iff.mp h2 with hyx | ⟨rfl, hk⟩
    · exact absurd (hxy.trans_lt hyx) (lt_irrefl x)
    · have h1' : c ++ [d] ≤ k :=
        not_lt.mp fun h => not_lt.mpr h1 (List.cons_lt_cons_iff.mpr (.inr ⟨rfl, h⟩))
      exact List.cons_prefix_cons.mpr ⟨rfl, isPrefix_of_le_of_lt_succ hsucc h1' hk⟩

end CosmosDb.Lex
