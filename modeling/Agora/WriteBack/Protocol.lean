import Mathlib.Logic.Function.Basic
import Mathlib.Logic.Relation
import Mathlib.Tactic.Common

/-!
# The protocol of a write-back cache

A cache in front of a store holds entries at locations; a *dirty* entry is one the store does not
have yet. This file says what a cache may do on its own account, over arbitrary locations, values
and stores: forget clean entries, and try to save dirty ones through a writer, which may fail.
Everything an eviction or a flush does is a run of such steps (`Quiet`), so an invariant of cache
and store need only survive the three of them (`Quiet.invariant`).
-/

namespace WriteBack

variable {ι α σ : Type*}

/-- A cached value; dirty when the store does not hold it yet. -/
structure Entry (α : Type*) where
  value : α
  dirty : Bool
  deriving DecidableEq

/-- What a cache holds, by location. -/
abbrev View (ι α : Type*) := ι → Option (Entry α)

/-- Save a value at a location: whether it is known to be saved, and the store afterwards. -/
abbrev Writer (ι α σ : Type*) := ι → α → σ → Bool × σ

/-- `i` holds a value that the store has, too. -/
def View.Clean (V : View ι α) (i : ι) : Prop := ∃ v, V i = some ⟨v, false⟩

/-- `i` holds a value that waits to be saved. -/
def View.Dirty (V : View ι α) (i : ι) : Prop := ∃ v, V i = some ⟨v, true⟩

/-- One thing a cache does on its own account. -/
inductive Step [DecidableEq ι] (writer : Writer ι α σ) : View ι α × σ → View ι α × σ → Prop
  | drop {V V' : View ι α} {s : σ} (h : ∀ i, V' i = V i ∨ V' i = none ∧ V.Clean i) :
      Step writer (V, s) (V', s)
  | saved {V : View ι α} {s s' : σ} {i : ι} {v : α} (h : V i = some ⟨v, true⟩)
      (hw : writer i v s = (true, s')) :
      Step writer (V, s) (Function.update V i (some ⟨v, false⟩), s')
  | unsaved {V : View ι α} {s s' : σ} {i : ι} {v : α} (h : V i = some ⟨v, true⟩)
      (hw : writer i v s = (false, s')) : Step writer (V, s) (V, s')

/-- A run of steps a cache takes on its own account. -/
def Quiet [DecidableEq ι] (writer : Writer ι α σ) : View ι α × σ → View ι α × σ → Prop :=
  Relation.ReflTransGen (Step writer)

variable [DecidableEq ι] {writer : Writer ι α σ}

theorem Quiet.refl (c : View ι α × σ) : Quiet writer c c := Relation.ReflTransGen.refl

theorem Quiet.trans {c c' c'' : View ι α × σ} (h : Quiet writer c c') (h' : Quiet writer c' c'') :
    Quiet writer c c'' := Relation.ReflTransGen.trans h h'

theorem Step.quiet {c c' : View ι α × σ} (h : Step writer c c') : Quiet writer c c' :=
  Relation.ReflTransGen.single h

theorem Quiet.step {c c' c'' : View ι α × σ} (h : Quiet writer c c') (h' : Step writer c' c'') :
    Quiet writer c c'' := Relation.ReflTransGen.tail h h'

/-- **The rule of the protocol.** What every step keeps, every run of them keeps. -/
theorem Quiet.invariant {P : View ι α × σ → Prop}
    (hstep : ∀ {c c'}, Step writer c c' → P c → P c') {c c' : View ι α × σ}
    (h : Quiet writer c c') (hc : P c) : P c' := by
  induction h with
  | refl => exact hc
  | tail _ hs ih => exact hstep hs ih

/-- Entries are never made up and never change their value; at most they become clean. -/
theorem Step.entry {c c' : View ι α × σ} (h : Step writer c c') {i : ι} {e : Entry α}
    (he : c'.1 i = some e) : ∃ e', c.1 i = some e' ∧ e'.value = e.value ∧ (e.dirty → e'.dirty) := by
  cases h with
  | @drop V V' s h =>
    rcases h i with hi | ⟨hi, -⟩
    · exact ⟨e, hi.symm.trans he, rfl, id⟩
    · exact absurd (hi.symm.trans he) (by simp)
  | @saved V s s' j v h hw =>
    by_cases hij : i = j
    · subst hij
      have hv : ⟨v, false⟩ = e := by simpa using he
      exact ⟨⟨v, true⟩, h, by rw [← hv], fun _ ↦ rfl⟩
    · exact ⟨e, (Function.update_of_ne hij _ _).symm.trans he, rfl, id⟩
  | unsaved h hw => exact ⟨e, he, rfl, id⟩

theorem Quiet.entry {c c' : View ι α × σ} (h : Quiet writer c c') {i : ι} {e : Entry α}
    (he : c'.1 i = some e) : ∃ e', c.1 i = some e' ∧ e'.value = e.value ∧ (e.dirty → e'.dirty) := by
  induction h generalizing e with
  | refl => exact ⟨e, he, rfl, id⟩
  | tail _ hs ih =>
    obtain ⟨e', he', hv, hd⟩ := hs.entry he
    obtain ⟨e'', he'', hv', hd'⟩ := ih he'
    exact ⟨e'', he'', hv'.trans hv, hd' ∘ hd⟩

/-- A location that holds nothing stays empty. -/
theorem Quiet.none {c c' : View ι α × σ} (h : Quiet writer c c') {i : ι} (hi : c.1 i = none) :
    c'.1 i = none := by
  cases he : c'.1 i with
  | none => rfl
  | some e =>
    obtain ⟨e', he', -⟩ := h.entry he
    rw [hi] at he'
    simp at he'

/-- A run can reach a dirty entry that the writer does not save. -/
def Stuck (writer : Writer ι α σ) (c : View ι α × σ) : Prop :=
  ∃ c', Quiet writer c c' ∧ ∃ i v, c'.1 i = some ⟨v, true⟩ ∧ (writer i v c'.2).1 = false

theorem Stuck.quiet {c c' : View ι α × σ} (h : Quiet writer c c') (hc' : Stuck writer c') :
    Stuck writer c := by
  obtain ⟨c'', hq, hfail⟩ := hc'
  exact ⟨c'', h.trans hq, hfail⟩

/-! ## Updates

A cache that holds an entry at a location answers an update by keeping the new value, dirty, or, if
it is not one that the cache keeps, by writing it through and forgetting the entry.
-/

/-- The outcomes of an update at `i`: what it reports, and cache and store afterwards. -/
inductive Update (writer : Writer ι α σ) (keeps : α → Prop) (i : ι) (v : α) :
    View ι α × σ → Bool → View ι α × σ → Prop
  | kept {V : View ι α} {s : σ} (hk : keeps v) :
      Update writer keeps i v (V, s) true (Function.update V i (some ⟨v, true⟩), s)
  | through {V : View ι α} {s s' : σ} (hk : ¬keeps v) (hw : writer i v s = (true, s')) :
      Update writer keeps i v (V, s) true (Function.update V i none, s')
  | failed {V : View ι α} {s s' : σ} (hk : ¬keeps v) (hw : writer i v s = (false, s')) :
      Update writer keeps i v (V, s) false (V, s')

/-! ## A cache of caches

A cache that keeps one cache for each of several parts of the store takes the steps of the parts.
-/

variable {κ ρ : Type*} [DecidableEq κ]

/-- The view of one part. -/
def View.part (V : View (κ × ρ) α) (k : κ) : View ρ α := fun r ↦ V (k, r)

/-- Replace the view of one part. -/
def View.setPart (V : View (κ × ρ) α) (k : κ) (W : View ρ α) : View (κ × ρ) α := fun i ↦
  if i.1 = k then W i.2 else V i

@[simp] theorem View.setPart_part (V : View (κ × ρ) α) (k : κ) : V.setPart k (V.part k) = V := by
  funext ⟨k', r⟩
  by_cases h : k' = k
  · subst h; simp [setPart, part]
  · simp [setPart, h]

variable [DecidableEq ρ]

theorem View.setPart_update (V : View (κ × ρ) α) (k : κ) (W : View ρ α) (r : ρ)
    (e : Option (Entry α)) :
    V.setPart k (Function.update W r e) = Function.update (V.setPart k W) (k, r) e := by
  funext ⟨k', r'⟩
  by_cases hk : k' = k
  · subst hk
    by_cases hr : r' = r
    · subst hr; simp [setPart]
    · simp [setPart, Function.update_of_ne, hr]
  · simp [setPart, hk, Function.update_of_ne]

theorem Step.part (writer : Writer (κ × ρ) α σ) (V : View (κ × ρ) α) (k : κ)
    {c c' : View ρ α × σ} (h : Step (fun r ↦ writer (k, r)) c c') :
    Step writer (V.setPart k c.1, c.2) (V.setPart k c'.1, c'.2) := by
  cases h with
  | @drop W W' s h =>
    refine Step.drop fun ⟨k', r⟩ ↦ ?_
    by_cases hk : k' = k
    · subst hk
      simpa [View.setPart, View.Clean] using h r
    · exact Or.inl (by simp [View.setPart, hk])
  | @saved W s s' r v h hw =>
    rw [View.setPart_update]
    exact Step.saved (by simpa [View.setPart] using h) hw
  | @unsaved W s s' r v h hw => exact Step.unsaved (by simpa [View.setPart] using h) hw

/-- The run of a part is a run of the whole that leaves the other parts alone. -/
theorem Quiet.part (writer : Writer (κ × ρ) α σ) (V : View (κ × ρ) α) (k : κ)
    {c c' : View ρ α × σ} (h : Quiet (fun r ↦ writer (k, r)) c c') :
    Quiet writer (V.setPart k c.1, c.2) (V.setPart k c'.1, c'.2) := by
  induction h with
  | refl => exact Quiet.refl _
  | tail _ hs ih => exact ih.step (hs.part writer V k)

theorem Stuck.part (writer : Writer (κ × ρ) α σ) (V : View (κ × ρ) α) (k : κ) {c : View ρ α × σ}
    (h : Stuck (fun r ↦ writer (k, r)) c) : Stuck writer (V.setPart k c.1, c.2) := by
  obtain ⟨c', hq, r, v, hv, hfail⟩ := h
  exact ⟨_, hq.part writer V k, (k, r), v, by simpa [View.setPart] using hv, hfail⟩

theorem Update.part (writer : Writer (κ × ρ) α σ) {keeps : α → Prop} (V : View (κ × ρ) α) (k : κ)
    {r : ρ} {v : α} {c c' : View ρ α × σ} {b : Bool}
    (h : Update (fun r ↦ writer (k, r)) keeps r v c b c') :
    Update writer keeps (k, r) v (V.setPart k c.1, c.2) b (V.setPart k c'.1, c'.2) := by
  cases h with
  | kept hk => rw [View.setPart_update]; exact Update.kept hk
  | through hk hw => rw [View.setPart_update]; exact Update.through hk hw
  | failed hk hw => exact Update.failed hk hw

end WriteBack
