import Mathlib.Algebra.Order.Ring.Rat
import Mathlib.Data.List.Basic
import Mathlib.Tactic.Common

/-!
# JSON values

JSON values with exact numbers. An object is an association list in insertion order: a lookup
takes the first entry of a key, a store replaces that entry or appends a new one, and an erase
drops every entry of the key, so a value that was parsed, or built by these operations, never
shows more than one entry of a key.

Integers and other numbers are kept apart, as a decoder does that reports `1` and `1.0` as values
of different kinds.
-/

/-! ## Association lists -/

namespace Assoc

variable {κ α : Type*} [DecidableEq κ]

/-- Store `v` under `k`: replace the first entry of `k`, or append one. -/
def set (k : κ) (v : α) : List (κ × α) → List (κ × α)
  | [] => [(k, v)]
  | (k', w) :: l => if k' = k then (k, v) :: l else (k', w) :: set k v l

/-- Drop every entry of `k`. -/
def erase (k : κ) (l : List (κ × α)) : List (κ × α) := l.filter fun e ↦ e.1 ≠ k

theorem lookup_cons_of_ne {k k' : κ} (h : k' ≠ k) (v : α) (l : List (κ × α)) :
    List.lookup k ((k', v) :: l) = List.lookup k l := by
  rw [List.lookup_cons, beq_eq_false_iff_ne.mpr h.symm]

@[simp] theorem lookup_set_self (k : κ) (v : α) (l : List (κ × α)) :
    (set k v l).lookup k = some v := by
  induction l with
  | nil => simp [set]
  | cons e l ih =>
    obtain ⟨k', w⟩ := e
    by_cases h : k' = k
    · simp [set, h]
    · rw [set, if_neg h, lookup_cons_of_ne h, ih]

theorem mem_set {k : κ} {v : α} {e : κ × α} {l : List (κ × α)} (h : e ∈ set k v l) :
    e = (k, v) ∨ e ∈ l := by
  induction l with
  | nil => exact Or.inl (List.mem_singleton.mp h)
  | cons e' l ih =>
    obtain ⟨k', w⟩ := e'
    by_cases hk : k' = k
    · rw [set, if_pos hk] at h
      exact (List.mem_cons.mp h).imp_right (List.mem_cons_of_mem _)
    · rw [set, if_neg hk] at h
      rcases List.mem_cons.mp h with rfl | h
      · exact Or.inr List.mem_cons_self
      · exact (ih h).imp_right (List.mem_cons_of_mem _)

theorem lookup_set_of_ne {k k' : κ} (h : k ≠ k') (v : α) (l : List (κ × α)) :
    (set k v l).lookup k' = l.lookup k' := by
  induction l with
  | nil => simp [set, lookup_cons_of_ne h]
  | cons e l ih =>
    obtain ⟨k'', w⟩ := e
    by_cases h' : k'' = k
    · subst h'
      rw [set, if_pos rfl, lookup_cons_of_ne h, lookup_cons_of_ne h]
    · rw [set, if_neg h', List.lookup_cons, List.lookup_cons, ih]

theorem lookup_set (k k' : κ) (v : α) (l : List (κ × α)) :
    (set k v l).lookup k' = if k = k' then some v else l.lookup k' := by
  split
  · next h => rw [← h, lookup_set_self]
  · next h => exact lookup_set_of_ne h v l

@[simp] theorem lookup_erase_self (k : κ) (l : List (κ × α)) : (erase k l).lookup k = none := by
  induction l with
  | nil => rfl
  | cons e l ih =>
    obtain ⟨k', w⟩ := e
    by_cases h : k' = k
    · simpa [erase, List.filter_cons, h] using ih
    · have hcons : erase k ((k', w) :: l) = (k', w) :: erase k l := by simp [erase, h]
      rw [hcons, lookup_cons_of_ne h, ih]

theorem lookup_erase_of_ne {k k' : κ} (h : k ≠ k') (l : List (κ × α)) :
    (erase k l).lookup k' = l.lookup k' := by
  induction l with
  | nil => rfl
  | cons e l ih =>
    obtain ⟨k'', w⟩ := e
    by_cases h' : k'' = k
    · subst h'
      have hcons : erase k'' ((k'', w) :: l) = erase k'' l := by simp [erase]
      rw [hcons, lookup_cons_of_ne h, ih]
    · have hcons : erase k ((k'', w) :: l) = (k'', w) :: erase k l := by simp [erase, h']
      rw [hcons, List.lookup_cons, List.lookup_cons, ih]

theorem lookup_erase (k k' : κ) (l : List (κ × α)) :
    (erase k l).lookup k' = if k = k' then none else l.lookup k' := by
  split
  · next h => rw [← h, lookup_erase_self]
  · next h => exact lookup_erase_of_ne h l

/-- A second store under the same key overrides the first. -/
@[simp] theorem set_set (k : κ) (v w : α) (l : List (κ × α)) :
    set k v (set k w l) = set k v l := by
  induction l with
  | nil => simp [set]
  | cons e l ih =>
    obtain ⟨k', u⟩ := e
    by_cases h : k' = k
    · simp [set, h]
    · simp [set, h, ih]

/-- Stores under different keys commute once one of the keys is there: only the order in which
new keys are appended depends on the order of the stores. -/
theorem set_comm {k k' : κ} (h : k ≠ k') {l : List (κ × α)} (hmem : (l.lookup k').isSome)
    (v w : α) : set k v (set k' w l) = set k' w (set k v l) := by
  induction l with
  | nil => simp at hmem
  | cons e l ih =>
    obtain ⟨k'', u⟩ := e
    by_cases h₁ : k'' = k'
    · subst h₁
      simp [set, h.symm]
    · rw [lookup_cons_of_ne h₁] at hmem
      by_cases h₂ : k'' = k
      · subst h₂
        simp [set, h]
      · simp [set, h₁, h₂, ih hmem]

/-- Storing what is already there changes nothing. -/
theorem set_of_lookup {k : κ} {v : α} {l : List (κ × α)} (h : l.lookup k = some v) :
    set k v l = l := by
  induction l with
  | nil => simp at h
  | cons e l ih =>
    obtain ⟨k', u⟩ := e
    by_cases h' : k' = k
    · subst h'
      rw [List.lookup_cons_self, Option.some.injEq] at h
      simp [set, h]
    · rw [lookup_cons_of_ne h'] at h
      rw [set, if_neg h', ih h]

@[simp] theorem erase_set_self (k : κ) (v : α) (l : List (κ × α)) :
    erase k (set k v l) = erase k l := by
  induction l with
  | nil => simp [set, erase]
  | cons e l ih =>
    obtain ⟨k', u⟩ := e
    by_cases h : k' = k
    · simp [set, erase, h]
    · have h₃ : ∀ l', erase k ((k', u) :: l') = (k', u) :: erase k l' := by
        intro l'; simp [erase, h]
      rw [set, if_neg h, h₃, h₃, ih]

/-- Erasing a key that is not there changes nothing. -/
theorem erase_of_lookup {k : κ} {l : List (κ × α)} (h : l.lookup k = none) : erase k l = l := by
  rw [erase, List.filter_eq_self]
  intro e he
  rw [List.lookup_eq_none_iff] at h
  have hne : ¬k = e.1 := by simpa using h e he
  simpa using Ne.symm hne

/-- A store under a key that a filter keeps. -/
theorem filter_set_of_pos {p : κ → Bool} {k : κ} (hk : p k) (v : α) (l : List (κ × α)) :
    (set k v l).filter (fun e ↦ p e.1) = set k v (l.filter fun e ↦ p e.1) := by
  induction l with
  | nil => simp [set, hk]
  | cons e l ih =>
    obtain ⟨k', w⟩ := e
    by_cases h : k' = k
    · simp [set, h, hk]
    · by_cases h' : p k' <;> simp [set, h, h', ih]

/-- A store under a key that a filter drops. -/
theorem filter_set_of_neg {p : κ → Bool} {k : κ} (hk : p k = false) (v : α) (l : List (κ × α)) :
    (set k v l).filter (fun e ↦ p e.1) = l.filter fun e ↦ p e.1 := by
  induction l with
  | nil => simp [set, hk]
  | cons e l ih =>
    obtain ⟨k', w⟩ := e
    by_cases h : k' = k
    · simp [set, h, hk]
    · by_cases h' : p k' <;> simp [set, h, h', ih]

/-- An erase of a key that a filter drops. -/
theorem filter_erase_of_neg {p : κ → Bool} {k : κ} (hk : p k = false) (l : List (κ × α)) :
    (erase k l).filter (fun e ↦ p e.1) = l.filter fun e ↦ p e.1 := by
  rw [erase, List.filter_filter]
  refine List.filter_congr fun e _ ↦ ?_
  by_cases h : e.1 = k
  · simp [h, hk]
  · simp [h]

theorem lookup_filter_of_pos {p : κ → Bool} {k : κ} (hk : p k) (l : List (κ × α)) :
    (l.filter fun e ↦ p e.1).lookup k = l.lookup k := by
  induction l with
  | nil => rfl
  | cons e l ih =>
    obtain ⟨k', w⟩ := e
    by_cases h : k' = k
    · simp [h, hk]
    · by_cases h' : p k'
      · rw [List.filter_cons_of_pos (by simpa using h'), lookup_cons_of_ne h, lookup_cons_of_ne h,
          ih]
      · rw [List.filter_cons_of_neg (by simpa using h'), lookup_cons_of_ne h, ih]

theorem lookup_isSome_iff {k : κ} {l : List (κ × α)} :
    (l.lookup k).isSome ↔ k ∈ l.map Prod.fst := by
  induction l with
  | nil => simp
  | cons e l ih =>
    obtain ⟨k', w⟩ := e
    by_cases h : k' = k
    · simp [h]
    · rw [lookup_cons_of_ne h, ih]
      simp [Ne.symm h]

/-- On keys that occur once, an erase of an entry is an erase of its key. -/
theorem map_fst_erase {k : κ} {l : List (κ × α)} (hl : (l.map Prod.fst).Nodup) :
    (erase k l).map Prod.fst = (l.map Prod.fst).erase k := by
  rw [hl.erase_eq_filter, erase, List.filter_map]
  congr 1
  refine List.filter_congr fun e _ ↦ ?_
  by_cases h : e.1 = k <;> simp [h]

theorem map_fst_set_of_mem {k : κ} {l : List (κ × α)} (h : k ∈ l.map Prod.fst) (v : α) :
    (set k v l).map Prod.fst = l.map Prod.fst := by
  induction l with
  | nil => simp at h
  | cons e l ih =>
    obtain ⟨k', w⟩ := e
    by_cases h' : k' = k
    · simp [set, h']
    · have hmem : k ∈ l.map Prod.fst := by
        rcases List.mem_cons.mp h with heq | hmem
        · exact absurd heq.symm h'
        · exact hmem
      rw [set, if_neg h', List.map_cons, List.map_cons, ih hmem]

theorem map_fst_set_of_notMem {k : κ} {l : List (κ × α)} (h : k ∉ l.map Prod.fst) (v : α) :
    (set k v l).map Prod.fst = l.map Prod.fst ++ [k] := by
  induction l with
  | nil => rfl
  | cons e l ih =>
    obtain ⟨k', w⟩ := e
    rw [List.map_cons, List.mem_cons, not_or] at h
    rw [set, if_neg (Ne.symm h.1), List.map_cons, List.map_cons, ih h.2, List.cons_append]

theorem nodup_set {l : List (κ × α)} (hl : (l.map Prod.fst).Nodup) (k : κ) (v : α) :
    ((set k v l).map Prod.fst).Nodup := by
  by_cases h : k ∈ l.map Prod.fst
  · rwa [map_fst_set_of_mem h]
  · rw [map_fst_set_of_notMem h]
    exact List.nodup_append.mpr ⟨hl, by simp, fun a ha b hb ↦ by
      rintro rfl
      exact h (List.mem_singleton.mp hb ▸ ha)⟩

theorem nodup_erase {l : List (κ × α)} (hl : (l.map Prod.fst).Nodup) (k : κ) :
    ((erase k l).map Prod.fst).Nodup := by
  rw [map_fst_erase hl]
  exact hl.erase k

theorem mem_of_lookup {k : κ} {v : α} {l : List (κ × α)} (h : l.lookup k = some v) :
    (k, v) ∈ l := by
  obtain ⟨l₁, l₂, rfl, -⟩ := List.lookup_eq_some_iff.mp h
  simp

theorem lookup_of_mem {k : κ} {v : α} {l : List (κ × α)} (hl : (l.map Prod.fst).Nodup)
    (h : (k, v) ∈ l) : l.lookup k = some v := by
  induction l with
  | nil => simp at h
  | cons e l ih =>
    obtain ⟨k', w⟩ := e
    rw [List.map_cons, List.nodup_cons] at hl
    rcases List.mem_cons.mp h with heq | hmem
    · simp [Prod.mk.inj heq]
    · have hne : k' ≠ k := fun heq ↦ hl.1 (List.mem_map.mpr ⟨(k, v), hmem, heq.symm⟩)
      rw [lookup_cons_of_ne hne, ih hl.2 hmem]

/-- When every key occurs once, the order of the entries does not matter. -/
theorem lookup_perm {l l' : List (κ × α)} (hl : (l.map Prod.fst).Nodup) (h : l'.Perm l) (k : κ) :
    l'.lookup k = l.lookup k := by
  have hl' : (l'.map Prod.fst).Nodup := (h.map Prod.fst).nodup_iff.mpr hl
  refine Option.ext fun v ↦ ?_
  constructor
  · exact fun hv ↦ lookup_of_mem hl (h.mem_iff.mp (mem_of_lookup hv))
  · exact fun hv ↦ lookup_of_mem hl' (h.mem_iff.mpr (mem_of_lookup hv))

end Assoc

/-! ## Values -/

/-- A JSON value. -/
inductive Json where
  | null
  | bool (b : Bool)
  | int (n : ℤ)
  | float (q : ℚ)
  | str (s : String)
  | arr (elements : List Json)
  | obj (fields : List (String × Json))
  deriving Inhabited

namespace Json

mutual

/-- Equality of values is decidable, so that runs on concrete documents evaluate. -/
def decEq : (a b : Json) → Decidable (a = b)
  | null, null => isTrue rfl
  | bool a, bool b => decidable_of_iff (a = b) (by simp)
  | int a, int b => decidable_of_iff (a = b) (by simp)
  | float a, float b => decidable_of_iff (a = b) (by simp)
  | str a, str b => decidable_of_iff (a = b) (by simp)
  | arr a, arr b =>
    have := decEqElements a b
    decidable_of_iff (a = b) (by simp)
  | obj a, obj b =>
    have := decEqFields a b
    decidable_of_iff (a = b) (by simp)
  | null, bool _ | null, int _ | null, float _ | null, str _ | null, arr _ | null, obj _
  | bool _, null | bool _, int _ | bool _, float _ | bool _, str _ | bool _, arr _
  | bool _, obj _ | int _, null | int _, bool _ | int _, float _ | int _, str _ | int _, arr _
  | int _, obj _ | float _, null | float _, bool _ | float _, int _ | float _, str _
  | float _, arr _ | float _, obj _ | str _, null | str _, bool _ | str _, int _
  | str _, float _ | str _, arr _ | str _, obj _ | arr _, null | arr _, bool _ | arr _, int _
  | arr _, float _ | arr _, str _ | arr _, obj _ | obj _, null | obj _, bool _ | obj _, int _
  | obj _, float _ | obj _, str _ | obj _, arr _ => isFalse nofun

def decEqElements : (a b : List Json) → Decidable (a = b)
  | [], [] => isTrue rfl
  | [], _ :: _ | _ :: _, [] => isFalse nofun
  | a :: as, b :: bs =>
    have := decEq a b
    have := decEqElements as bs
    decidable_of_iff (a = b ∧ as = bs) (by simp)

def decEqFields : (a b : List (String × Json)) → Decidable (a = b)
  | [], [] => isTrue rfl
  | [], _ :: _ | _ :: _, [] => isFalse nofun
  | (k, a) :: as, (l, b) :: bs =>
    have := decEq a b
    have := decEqFields as bs
    decidable_of_iff (k = l ∧ a = b ∧ as = bs) (by simp [and_assoc])

end

instance : DecidableEq Json := decEq

end Json
