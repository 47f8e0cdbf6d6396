import Mathlib.Algebra.BigOperators.Group.Finset.Basic
import Mathlib.Algebra.Order.BigOperators.Group.Finset

/-!
# Counting threads

Finitely many threads are each in a place of a program. A weight for each place gives a total over
all threads; when one thread moves, the total changes by the weights of its two places. Invariants
of monitors are equations and bounds between such totals.
-/

namespace Threads

variable {T P : Type*} [Fintype T]

/-- The weights of the places of all threads. -/
def total (weight : P → ℕ) (places : T → P) : ℕ := ∑ t, weight (places t)

variable {weight : P → ℕ} {places : T → P}

/-- One thread moves. -/
theorem total_update [DecidableEq T] (weight : P → ℕ) (places : T → P) (t : T) (p : P) :
    total weight (Function.update places t p) + weight (places t)
      = total weight places + weight p := by
  have hrest : ∀ u ∈ Finset.univ.erase t,
      weight (Function.update places t p u) = weight (places u) := by
    intro u hu
    rw [Function.update_of_ne (Finset.ne_of_mem_erase hu)]
  rw [total, total, ← Finset.add_sum_erase _ _ (Finset.mem_univ t),
    ← Finset.add_sum_erase Finset.univ (fun u ↦ weight (places u)) (Finset.mem_univ t),
    Finset.sum_congr rfl hrest, Function.update_self]
  omega

/-- All threads move at once. -/
theorem total_comp (weight : P → ℕ) (f : P → P) (places : T → P) :
    total weight (f ∘ places) = total (weight ∘ f) places := rfl

theorem total_le_mul_card {k : ℕ} (h : ∀ p, weight p ≤ k) :
    total weight places ≤ k * Fintype.card T := by
  have hconst : ∑ _t : T, k = Fintype.card T * k := Finset.sum_const_nat fun _ _ ↦ rfl
  rw [Nat.mul_comm, ← hconst]
  exact Finset.sum_le_sum fun t _ ↦ h (places t)

theorem total_eq_zero : total weight places = 0 ↔ ∀ t, weight (places t) = 0 := by
  rw [total, Finset.sum_eq_zero_iff]
  exact ⟨fun h t ↦ h t (Finset.mem_univ t), fun h t _ ↦ h t⟩

/-! ## One thread -/

section Update

variable {T P : Type*} [DecidableEq T] {places : T → P} {t u : T} {p q : P}

/-- The thread that moved is where it went, and another one where it was. -/
theorem update_cases (h : Function.update places t p u = q) :
    (u = t ∧ p = q) ∨ (u ≠ t ∧ places u = q) := by
  by_cases hut : u = t
  · subst hut
    rw [Function.update_self] at h
    exact Or.inl ⟨rfl, h⟩
  · rw [Function.update_of_ne hut] at h
    exact Or.inr ⟨hut, h⟩

/-- No thread comes to another place than the one where a thread went. -/
theorem of_update_of_ne (hp : p ≠ q) (h : Function.update places t p u = q) : places u = q := by
  rcases update_cases h with ⟨-, heq⟩ | ⟨-, hold⟩
  · exact absurd heq hp
  · exact hold

/-- No thread leaves another place than the one where a thread was. -/
theorem update_of_ne_place (ht : places t ≠ q) (h : places u = q) :
    Function.update places t p u = q := by
  have hut : u ≠ t := by
    rintro rfl
    exact ht h
  rw [Function.update_of_ne hut, h]

end Update

end Threads
