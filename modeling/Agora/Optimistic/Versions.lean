import Mathlib.Data.Int.Notation
import Mathlib.Tactic.TypeStar

/-!
# Stores with versions

Several parties read from one store, at any moments, and write to it later. Every value carries a
version, and a write goes through only where the versions are still those that were read. When a
write gives what it changes a version that is newer than all before, an equal version means an equal
value (`Run.current`), although values come and go in between: so what is written was made from the
values that it replaces.
-/

/-- Values with versions; the version of a missing value is negative. -/
structure Versioning (α : Type*) where
  absent : α
  version : α → ℤ
  version_absent : version absent < 0

namespace Versioning

variable {ι α : Type*} (V : Versioning α)

/-- A store at some time: its values are not newer. -/
structure Dated (n : ℤ) (s : ι → α) : Prop where
  time : 0 ≤ n
  values : ∀ i, s i = V.absent ∨ 0 ≤ V.version (s i) ∧ V.version (s i) ≤ n

/-- The next write: what it changes is gone, or has the next version. -/
def Commits (n : ℤ) (s s' : ι → α) : Prop :=
  ∀ i, s' i = s i ∨ s' i = V.absent ∨ V.version (s' i) = n + 1

/-- Writes one after the other, with the stores of the past. -/
inductive Run (n₀ : ℤ) (s₀ : ι → α) : List (ℤ × (ι → α)) → ℤ → (ι → α) → Prop
  | start : Run n₀ s₀ [] n₀ s₀
  | commit {past : List (ℤ × (ι → α))} {n : ℤ} {s s' : ι → α} (h : Run n₀ s₀ past n s)
      (hcommits : V.Commits n s s') : Run n₀ s₀ ((n, s) :: past) (n + 1) s'

variable {V} {n n₀ m : ℤ} {s s' s₀ t : ι → α} {past : List (ℤ × (ι → α))}

theorem Dated.commits (h : V.Dated n s) (hcommits : V.Commits n s s') : V.Dated (n + 1) s' := by
  have htime := h.time
  refine ⟨by omega, fun i ↦ ?_⟩
  rcases hcommits i with hsame | hgone | hnew
  · rw [hsame]
    refine (h.values i).imp_right fun hbounds ↦ ?_
    omega
  · exact Or.inl hgone
  · right
    omega

theorem Run.dated (h₀ : V.Dated n₀ s₀) (h : V.Run n₀ s₀ past n s) : V.Dated n s := by
  induction h with
  | start => exact h₀
  | commit _ hcommits ih => exact ih.commits hcommits

/-- What differs from an earlier store is gone, or is newer. -/
theorem Run.differs (h₀ : V.Dated n₀ s₀) (h : V.Run n₀ s₀ past n s)
    (hpast : (m, t) ∈ (n, s) :: past) :
    V.Dated m t ∧ m ≤ n ∧ ∀ i, s i = t i ∨ s i = V.absent ∨ m < V.version (s i) := by
  induction h with
  | start =>
    rw [List.mem_singleton, Prod.mk.injEq] at hpast
    obtain ⟨rfl, rfl⟩ := hpast
    exact ⟨h₀, Int.le_refl _, fun i ↦ Or.inl rfl⟩
  | @commit past n s s' h hcommits ih =>
    rcases List.mem_cons.mp hpast with hnow | hearlier
    · rw [Prod.mk.injEq] at hnow
      obtain ⟨rfl, rfl⟩ := hnow
      exact ⟨(h.dated h₀).commits hcommits, Int.le_refl _, fun i ↦ Or.inl rfl⟩
    · obtain ⟨hdated, hle, hdiffers⟩ := ih hearlier
      refine ⟨hdated, by omega, fun i ↦ ?_⟩
      rcases hcommits i with hsame | hgone | hnew
      · rw [hsame]
        exact hdiffers i
      · exact Or.inr (Or.inl hgone)
      · exact Or.inr (Or.inr (by omega))

/-- **Versions.** A value with the version of one that was there at some time is that one. -/
theorem Run.current (h₀ : V.Dated n₀ s₀) (h : V.Run n₀ s₀ past n s)
    (hpast : (m, t) ∈ (n, s) :: past) {i : ι} (hversion : V.version (s i) = V.version (t i)) :
    s i = t i := by
  obtain ⟨hdated, -, hdiffers⟩ := h.differs h₀ hpast
  have habsent := V.version_absent
  have htime := hdated.time
  rcases hdiffers i with hsame | hgone | hnew
  · exact hsame
  · rcases hdated.values i with hmissing | ⟨hlow, -⟩
    · exact hgone.trans hmissing.symm
    · rw [hgone] at hversion
      omega
  · rcases hdated.values i with hmissing | ⟨-, hhigh⟩
    · rw [hmissing] at hversion
      omega
    · omega

end Versioning
