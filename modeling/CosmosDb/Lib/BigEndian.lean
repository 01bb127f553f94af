import Mathlib.Data.Nat.Digits.Defs
import Mathlib.Tactic.Ring
import Mathlib.Data.List.Induction

/-!
# Big-endian digit strings

The number a list of digits in base `b` writes, most significant digit
first. Mathlib's `Nat.ofDigits` reads digits least significant first, so the
big-endian value is that of the reversed list.

A big-endian successor is computed from the right: trailing maximal digits
become zero and the first digit below the maximum goes up by one.

* `valueBE_carry` — the arithmetic of that carry: it adds one;
* `eq_replicate_or_append_cons_replicate` — a digit string is all maximal
  digits, or splits at its last digit that is not, where the carry stops.

`digitsBE b n v` writes the last `n` digits of `v`: `valueBE_digitsBE` and
`digitsBE_valueBE` are the round trips between the two.
-/

namespace CosmosDb

/-- The number the digits `l` write in base `b`, most significant first. -/
def valueBE (b : ℕ) (l : List ℕ) : ℕ := Nat.ofDigits b l.reverse

section ValueBE

variable {b : ℕ}

@[simp] theorem valueBE_nil : valueBE b [] = 0 := rfl

theorem valueBE_append (l₁ l₂ : List ℕ) :
    valueBE b (l₁ ++ l₂) = valueBE b l₁ * b ^ l₂.length + valueBE b l₂ := by
  rw [valueBE, List.reverse_append, Nat.ofDigits_append, List.length_reverse, valueBE, valueBE]
  ring

theorem valueBE_cons (d : ℕ) (l : List ℕ) :
    valueBE b (d :: l) = d * b ^ l.length + valueBE b l := by
  have hd : valueBE b [d] = d := Nat.ofDigits_singleton
  rw [← List.singleton_append, valueBE_append, hd]

@[simp] theorem valueBE_replicate_zero (m : ℕ) : valueBE b (List.replicate m 0) = 0 := by
  rw [valueBE, List.reverse_replicate, Nat.ofDigits_replicate_zero]

/-- A string of `m` maximal digits is one below `b ^ m`. -/
theorem valueBE_replicate_pred (hb : 0 < b) (m : ℕ) :
    valueBE b (List.replicate m (b - 1)) + 1 = b ^ m := by
  induction m with
  | zero => rfl
  | succ m ih =>
    obtain ⟨c, rfl⟩ : ∃ c, b = c + 1 := ⟨b - 1, by omega⟩
    rw [List.replicate_succ, valueBE_cons, List.length_replicate, add_assoc, ih,
      Nat.add_sub_cancel]
    ring

/-- The carry: raising the digit `d` by one and zeroing the `m` maximal
digits after it adds one to the value. -/
theorem valueBE_carry (hb : 0 < b) (c : List ℕ) (d m : ℕ) :
    valueBE b (c ++ (d + 1) :: List.replicate m 0) =
      valueBE b (c ++ d :: List.replicate m (b - 1)) + 1 := by
  rw [valueBE_append, valueBE_append, valueBE_cons, valueBE_cons, valueBE_replicate_zero,
    List.length_cons, List.length_cons, List.length_replicate, List.length_replicate,
    ← valueBE_replicate_pred hb m]
  ring

/-- The last `n` digits of `v` in base `b`, most significant first. -/
def digitsBE (b : ℕ) : ℕ → ℕ → List ℕ
  | 0, _ => []
  | n + 1, v => digitsBE b n (v / b) ++ [v % b]

@[simp] theorem length_digitsBE (n v : ℕ) : (digitsBE b n v).length = n := by
  induction n generalizing v with
  | zero => rfl
  | succ n ih => simp [digitsBE, ih]

theorem digitsBE_lt (hb : 0 < b) (n v : ℕ) : ∀ d ∈ digitsBE b n v, d < b := by
  induction n generalizing v with
  | zero => intro d hd; cases hd
  | succ n ih =>
    intro d hd
    rcases List.mem_append.mp hd with hd | hd
    · exact ih _ d hd
    · rw [List.mem_singleton.mp hd]
      exact Nat.mod_lt _ hb

theorem valueBE_singleton (d : ℕ) : valueBE b [d] = d := Nat.ofDigits_singleton

/-- Reading the last `n` digits back gives the value modulo `b ^ n`. -/
theorem valueBE_digitsBE (n v : ℕ) : valueBE b (digitsBE b n v) = v % b ^ n := by
  induction n generalizing v with
  | zero => simp [digitsBE, Nat.mod_one]
  | succ n ih =>
    rw [digitsBE, valueBE_append, ih, valueBE_singleton, List.length_singleton, pow_one, pow_succ',
      Nat.mod_mul]
    ring

/-- Digits below the base are the digits of their value. -/
theorem digitsBE_valueBE {l : List ℕ} (hl : ∀ d ∈ l, d < b) : digitsBE b l.length (valueBE b l) = l := by
  induction l using List.reverseRecOn with
  | nil => rfl
  | append_singleton l d ih =>
    have hd : d < b := hl d (by simp)
    have hpos : 0 < b := by omega
    -- the last digit is the remainder, the others the quotient's digits
    have hdiv : (valueBE b l * b + d) / b = valueBE b l := by
      rw [Nat.add_comm, Nat.add_mul_div_right _ _ hpos, Nat.div_eq_of_lt hd, Nat.zero_add]
    have hmod : (valueBE b l * b + d) % b = d := by
      rw [Nat.add_comm, Nat.add_mul_mod_self_right, Nat.mod_eq_of_lt hd]
    rw [List.length_append, List.length_singleton, digitsBE, valueBE_append, valueBE_singleton,
      List.length_singleton, pow_one, hdiv, hmod, ih fun x hx => hl x (by simp [hx])]

/-- Digits below the base write a value below `b ^ length`. -/
theorem valueBE_lt (hb : 1 < b) {l : List ℕ} (hl : ∀ d ∈ l, d < b) : valueBE b l < b ^ l.length := by
  rw [valueBE, ← List.length_reverse]
  exact Nat.ofDigits_lt_base_pow_length hb fun x hx => hl x (List.mem_reverse.mp hx)

end ValueBE

/-- A list is `a` throughout, or splits at its last element other than `a`. -/
theorem eq_replicate_or_append_cons_replicate {α : Type} (a : α) (l : List α) :
    (∀ x ∈ l, x = a) ∨ ∃ c d m, d ≠ a ∧ l = c ++ d :: List.replicate m a := by
  induction l with
  | nil => exact .inl fun x hx => absurd hx List.not_mem_nil
  | cons x l ih =>
    rcases ih with hall | ⟨c, d, m, hd, rfl⟩
    · by_cases hx : x = a
      · exact .inl (List.forall_mem_cons.mpr ⟨hx, hall⟩)
      · -- `x` is the only element other than `a`
        refine .inr ⟨[], x, l.length, hx, ?_⟩
        rw [List.nil_append, ← List.eq_replicate_iff.mpr ⟨rfl, hall⟩]
    · exact .inr ⟨x :: c, d, m, hd, rfl⟩

end CosmosDb
