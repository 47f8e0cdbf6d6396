import Mathlib.Data.Finset.Card
import Mathlib.Data.Finset.Filter
import Mathlib.Data.List.Basic
import Mathlib.Order.Lattice

/-!
# Tasks that wait for their time

Tasks wait in a table, each with a time. A round takes the first few of them by their times, and
what it cannot finish gets a later time. A task is passed over only by tasks before it
(`of_notMem_first`), and none of these is before it afterwards; so every round that passes it over
leaves fewer tasks before it, by as many as a round takes (`card_ahead_sdiff_first`).
-/

namespace Waiting

variable {κ π : Type*} [LinearOrder π] {time : κ → π} {n : ℕ} {tasks : List κ} {k : κ}

/-- The first `n` tasks by their times. -/
def first (time : κ → π) (n : ℕ) (tasks : List κ) : List κ :=
  (tasks.mergeSort fun i j ↦ decide (time i ≤ time j)).take n

theorem mem_of_mem_first (h : k ∈ first time n tasks) : k ∈ tasks :=
  List.mem_mergeSort.mp (List.mem_of_mem_take h)

theorem nodup_first (h : tasks.Nodup) : (first time n tasks).Nodup := by
  have hsorted := (List.mergeSort_perm tasks fun i j ↦ decide (time i ≤ time j)).nodup_iff.mpr h
  exact hsorted.sublist (List.take_sublist _ _)

/-- A task that is passed over: a full number of others is not after it. -/
theorem of_notMem_first (hk : k ∈ tasks) (h : k ∉ first time n tasks) :
    (first time n tasks).length = n ∧ ∀ j ∈ first time n tasks, time j ≤ time k := by
  have hsorted : (tasks.mergeSort fun i j ↦ decide (time i ≤ time j)).Pairwise
      fun i j ↦ decide (time i ≤ time j) = true := by
    apply List.pairwise_mergeSort
    · intro i j l hij hjl
      exact decide_eq_true ((of_decide_eq_true hij).trans (of_decide_eq_true hjl))
    · intro i j
      rw [Bool.or_eq_true, decide_eq_true_iff, decide_eq_true_iff]
      exact le_total _ _
  rw [first] at h ⊢
  generalize hs : (tasks.mergeSort fun i j ↦ decide (time i ≤ time j)) = sorted at hsorted h ⊢
  have hmem : k ∈ sorted.take n ++ sorted.drop n := by
    rw [List.take_append_drop, ← hs]
    exact List.mem_mergeSort.mpr hk
  have hlate : k ∈ sorted.drop n := (List.mem_append.mp hmem).resolve_left h
  rw [← List.take_append_drop n sorted, List.pairwise_append] at hsorted
  constructor
  · -- something is left, so that the full number was taken
    have hleft := List.length_pos_of_mem hlate
    rw [List.length_drop] at hleft
    rw [List.length_take]
    omega
  · intro j hj
    exact of_decide_eq_true (hsorted.2.2 j hj k hlate)

section Ahead

variable [DecidableEq κ]

/-- The tasks before a task. -/
def ahead (time : κ → π) (tasks : List κ) (k : κ) : Finset κ :=
  tasks.toFinset.filter fun j ↦ time j < time k

theorem mem_ahead {j : κ} : j ∈ ahead time tasks k ↔ j ∈ tasks ∧ time j < time k := by
  rw [ahead, Finset.mem_filter, List.mem_toFinset]

/-- A round that passes a task over takes a full number of the tasks before it. -/
theorem card_ahead_sdiff_first (htime : time.Injective) (htasks : tasks.Nodup) {due : List κ}
    (hk : k ∈ due) (hdue : due.Sublist tasks) (h : k ∉ first time n due) :
    (ahead time tasks k \ (first time n due).toFinset).card + n = (ahead time tasks k).card := by
  obtain ⟨hlength, hbefore⟩ := of_notMem_first hk h
  have hsubset : (first time n due).toFinset ⊆ ahead time tasks k := by
    intro j hj
    rw [List.mem_toFinset] at hj
    have hne : time j ≠ time k := by
      intro heq
      rw [htime heq] at hj
      exact h hj
    exact mem_ahead.mpr ⟨hdue.subset (mem_of_mem_first hj), lt_of_le_of_ne (hbefore j hj) hne⟩
  have hcard : (first time n due).toFinset.card = n := by
    rw [List.toFinset_card_of_nodup (nodup_first (htasks.sublist hdue)), hlength]
  have hsplit := Finset.card_sdiff_add_card_eq_card hsubset
  rw [hcard] at hsplit
  exact hsplit

end Ahead

end Waiting
