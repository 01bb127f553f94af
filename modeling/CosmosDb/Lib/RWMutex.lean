import Mathlib.Data.List.Basic

/-!
# Reader/writer locks

A `sync.RWMutex` shared by a list of threads, seen through what each thread
holds of it: nothing, a shared hold (`RLock`) or the exclusive hold (`Lock`).
`RLock` returns only while no thread holds the lock exclusively, `Lock` only
while no thread holds it at all. Go's lock also makes a new reader wait for a
writer that is already waiting; that only removes interleavings, so what is
proved here of every interleaving holds of Go's too.

`Exclusive` is the law the two guards keep: a thread that holds the lock
exclusively is the only thread that holds it. Each lemma below is one way a
thread's hold changes (taking the lock, releasing it, a new thread starting
with a hold), stated on the list of holds, so that a model of threads keeps
the law by citing the lemma of the step it takes.
-/

namespace CosmosDb

namespace RWMutex

/-- What one thread holds of the lock. -/
inductive Hold where
  | free
  | shared
  | exclusive
  deriving DecidableEq, Repr

/-- `RLock`'s guard: no thread holds the lock exclusively. -/
def CanRLock (hs : List Hold) : Prop := Hold.exclusive ∉ hs

/-- `Lock`'s guard: no thread holds the lock. -/
def CanLock (hs : List Hold) : Prop := ∀ h ∈ hs, h = .free

/-- A thread that holds the lock exclusively is the only thread that holds it. -/
def Exclusive (hs : List Hold) : Prop :=
  ∀ (i j : Nat) (x : Hold), hs[i]? = some .exclusive → hs[j]? = some x → x ≠ .free → i = j

theorem CanLock.canRLock {hs : List Hold} (h : CanLock hs) : CanRLock hs :=
  fun hx => Hold.noConfusion (h _ hx)

theorem CanRLock.exclusive {hs : List Hold} (h : CanRLock hs) : Exclusive hs := by
  intro i _ _ hi _ _
  exact absurd (List.mem_of_getElem? hi) h

theorem CanRLock.set_shared {hs : List Hold} (h : CanRLock hs) (i : Nat) :
    CanRLock (hs.set i .shared) := by
  intro hx
  rcases List.mem_or_eq_of_mem_set hx with hx | hx
  · exact h hx
  · exact Hold.noConfusion hx

theorem CanRLock.append_shared {hs : List Hold} (h : CanRLock hs) : CanRLock (hs ++ [.shared]) := by
  intro hx
  rcases List.mem_append.mp hx with hx | hx
  · exact h hx
  · exact Hold.noConfusion (List.mem_singleton.mp hx)

/-- A thread that holds the lock in any way rules out an exclusive holder
other than itself. -/
theorem Exclusive.eq_of_held {hs : List Hold} (he : Exclusive hs) {i j : Nat} {x : Hold}
    (hi : hs[i]? = some .exclusive) (hj : hs[j]? = some x) (hx : x ≠ .free) : i = j :=
  he i j x hi hj hx

/-- While one thread holds the lock shared, no thread holds it exclusively. -/
theorem Exclusive.canRLock_of_shared {hs : List Hold} (he : Exclusive hs) (hsh : Hold.shared ∈ hs) :
    CanRLock hs := by
  intro hx
  obtain ⟨i, hi, hix⟩ := List.getElem_of_mem hx
  obtain ⟨j, hj, hjx⟩ := List.getElem_of_mem hsh
  have hij : i = j :=
    he.eq_of_held (List.getElem?_eq_some_iff.mpr ⟨hi, hix⟩)
      (List.getElem?_eq_some_iff.mpr ⟨hj, hjx⟩) (fun h => Hold.noConfusion h)
  subst hij
  exact Hold.noConfusion (hix.symm.trans hjx)

/-- Releasing the lock, in either mode, keeps the law. -/
theorem Exclusive.set_free {hs : List Hold} (he : Exclusive hs) (k : Nat) :
    Exclusive (hs.set k .free) := by
  unfold Exclusive
  intro i j x hi hj hx
  have hik : k ≠ i := by
    rintro rfl
    by_cases hk : k < hs.length
    · simp [List.getElem?_set_self hk] at hi
    · simp [List.set_eq_of_length_le (Nat.le_of_not_lt hk), List.getElem?_eq_none (Nat.le_of_not_lt hk)] at hi
  have hjk : k ≠ j := by
    rintro rfl
    by_cases hk : k < hs.length
    · simp only [List.getElem?_set_self hk, Option.some.injEq] at hj
      exact hx hj.symm
    · simp [List.set_eq_of_length_le (Nat.le_of_not_lt hk), List.getElem?_eq_none (Nat.le_of_not_lt hk)] at hj
  rw [List.getElem?_set_ne hik] at hi
  rw [List.getElem?_set_ne hjk] at hj
  exact he i j x hi hj hx

/-- `Lock` returning: the thread that takes it is the only holder. -/
theorem CanLock.set_exclusive {hs : List Hold} (h : CanLock hs) (k : Nat) :
    Exclusive (hs.set k .exclusive) := by
  -- every thread but `k` is free, so both indices are `k`
  have hother : ∀ j x, (hs.set k .exclusive)[j]? = some x → x ≠ .free → j = k := by
    intro j x hj hx
    by_contra hjk
    rw [List.getElem?_set_ne (Ne.symm hjk)] at hj
    exact hx (h x (List.mem_of_getElem? hj))
  unfold Exclusive
  intro i j x hi hj hx
  rw [hother i .exclusive hi (fun h => Hold.noConfusion h), hother j x hj hx]

end RWMutex

end CosmosDb
