import Mathlib.Logic.Relation
import Mathlib.Order.Lattice

/-!
# Numbers under keys

Every holder has a number under a key, and may move to another key or number. When a holder always
arrives above everyone else under its new key, and never leaves a key under which it has the highest
number, a number that was once held under a key is never held there by someone else
(`Moving.unchanged`).
-/

namespace Agora

namespace Numbering

variable {ι κ τ : Type*} [LinearOrder τ]

/-- A holder moves to a key and a number. -/
structure Moves (held held' : ι → Option (κ × τ)) (i : ι) (k : κ) (n : τ) : Prop where
  arrives : held' i = some (k, n)
  others : ∀ j, j ≠ i → held' j = held j
  above : ∀ j m, j ≠ i → held j = some (k, m) → m < n
  rises : ∀ m, held i = some (k, m) → m ≤ n
  outranked : ∀ k₀ m, held i = some (k₀, m) → k₀ = k ∨ ∃ j m', held j = some (k₀, m') ∧ m < m'

/-- Nothing happens, or one holder moves. -/
def Step (held held' : ι → Option (κ × τ)) : Prop :=
  held' = held ∨ ∃ i k n, Moves held held' i k n

/-- Two holders never have the same number under the same key. -/
def Distinct (held : ι → Option (κ × τ)) : Prop :=
  ∀ i j e, held i = some e → held j = some e → i = j

/-- What was held is held by the same holder or by nobody, and its key has not lost its highest
number. -/
def Follows (held held' : ι → Option (κ × τ)) : Prop :=
  ∀ i k n, held i = some (k, n) →
    (∀ j, held' j = some (k, n) → j = i) ∧ ∃ j m, held' j = some (k, m) ∧ n ≤ m

theorem Distinct.follows {held : ι → Option (κ × τ)} (h : Distinct held) : Follows held held :=
  fun i k n hi ↦ ⟨fun j hj ↦ h j i (k, n) hj hi, i, n, hi, le_rfl⟩

theorem Moves.follows {held held' held'' : ι → Option (κ × τ)} {i : ι} {k : κ} {n : τ}
    (hmove : Moves held' held'' i k n) (h : Follows held held') : Follows held held'' := by
  intro a key number ha
  obtain ⟨hunique, c, m, hc, hle⟩ := h a key number ha
  constructor
  · intro b hb
    by_cases hbi : b = i
    · subst hbi
      obtain ⟨rfl, rfl⟩ : k = key ∧ n = number := by
        simpa using hmove.arrives.symm.trans hb
      by_cases hcb : c = b
      · -- the number is not a new one: the holder had it before
        subst hcb
        have hsame : m = n := le_antisymm (hmove.rises m hc) hle
        exact hunique c (hsame ▸ hc)
      · exact absurd (hmove.above c m hcb hc) (not_lt.mpr hle)
    · rw [hmove.others b hbi] at hb
      exact hunique b hb
  · by_cases hci : c = i
    · subst hci
      rcases hmove.outranked key m hc with rfl | ⟨j, m', hj, hlt⟩
      · exact ⟨c, n, hmove.arrives, hle.trans (hmove.rises m hc)⟩
      · have hjc : j ≠ c := by
          rintro rfl
          obtain ⟨-, rfl⟩ : key = key ∧ m' = m := by simpa using hj.symm.trans hc
          exact lt_irrefl _ hlt
        exact ⟨j, m', (hmove.others j hjc).trans hj, hle.trans hlt.le⟩
    · exact ⟨c, m, (hmove.others c hci).trans hc, hle⟩

theorem Step.follows {held held' held'' : ι → Option (κ × τ)} (hstep : Step held' held'')
    (h : Follows held held') : Follows held held'' := by
  rcases hstep with rfl | ⟨i, k, n, hmove⟩
  · exact h
  · exact hmove.follows h

theorem Moves.distinct {held held' : ι → Option (κ × τ)} {i : ι} {k : κ} {n : τ}
    (hmove : Moves held held' i k n) (h : Distinct held) : Distinct held' := by
  have hfresh : ∀ j, held' j = some (k, n) → j = i := by
    intro j hj
    by_contra hji
    rw [hmove.others j hji] at hj
    exact lt_irrefl n (hmove.above j n hji hj)
  intro a b e ha hb
  by_cases hai : a = i
  · subst hai
    obtain rfl : (k, n) = e := Option.some.inj (hmove.arrives.symm.trans ha)
    exact (hfresh b hb).symm
  · by_cases hbi : b = i
    · subst hbi
      obtain rfl : (k, n) = e := Option.some.inj (hmove.arrives.symm.trans hb)
      exact absurd (hfresh a ha) hai
    · rw [hmove.others a hai] at ha
      rw [hmove.others b hbi] at hb
      exact h a b e ha hb

/-- Steps of a system whose holders can be read off. -/
structure Moving {S : Type*} (step : S → S → Prop) (held : S → ι → Option (κ × τ)) : Prop where
  moves : ∀ s s', step s s' → Step (held s) (held s')

namespace Moving

variable {S : Type*} {step : S → S → Prop} {held : S → ι → Option (κ × τ)}

theorem distinct (h : Moving step held) {s s' : S} (hs : Distinct (held s))
    (hrun : Relation.ReflTransGen step s s') : Distinct (held s') := by
  induction hrun with
  | refl => exact hs
  | tail _ hstep ih =>
    rcases h.moves _ _ hstep with hsame | ⟨i, k, n, hmove⟩
    · rwa [hsame]
    · exact hmove.distinct ih

theorem follows (h : Moving step held) {s s' : S} (hs : Distinct (held s))
    (hrun : Relation.ReflTransGen step s s') : Follows (held s) (held s') := by
  induction hrun with
  | refl => exact hs.follows
  | tail _ hstep ih => exact (h.moves _ _ hstep).follows ih

/-- A number that was held under a key is not held there by someone else later. -/
theorem unchanged (h : Moving step held) {s s' : S} (hs : Distinct (held s))
    (hrun : Relation.ReflTransGen step s s') {i j : ι} {e : κ × τ} (hi : held s i = some e)
    (hj : held s' j = some e) : j = i :=
  (h.follows hs hrun i e.1 e.2 hi).1 j hj

end Moving

end Numbering

end Agora
