import Mathlib.Data.List.Basic
import Mathlib.Data.List.Nodup
import Mathlib.Data.Int.Basic
import Mathlib.Tactic.Common

/-!
# Numbered logs

A log whose entries are numbered from 1 in the order they were appended, and in which no key occurs
twice, so that a key can be kept as the receipt of its entry: the number found under it leads back
to the entry (`Numbered.receipt`). Appending the next number under a new key, and changing entries
without touching their numbers and keys, keep a log in order.
-/

namespace Receipts

variable {α κ : Type*} {number : α → ℤ} {key : α → κ}

/-- A log in order. -/
structure Numbered (number : α → ℤ) (key : α → κ) (log : List α) : Prop where
  numbers : ∀ (i : ℕ) a, log[i]? = some a → number a = i + 1
  once : (log.map key).Nodup

theorem numbered_nil : Numbered number key [] where
  numbers := by simp
  once := List.nodup_nil

/-- Entries that keep their numbers and keys keep the log in order. -/
theorem Numbered.congr {log log' : List α} (h : Numbered number key log)
    (hnumber : log'.map number = log.map number) (hkey : log'.map key = log.map key) :
    Numbered number key log' where
  numbers := by
    intro i a ha
    have hmap : (log.map number)[i]? = some (number a) := by
      rw [← hnumber, List.getElem?_map, ha]
      rfl
    rw [List.getElem?_map, Option.map_eq_some_iff] at hmap
    obtain ⟨b, hb, heq⟩ := hmap
    rw [← heq]
    exact h.numbers i b hb
  once := by
    rw [hkey]
    exact h.once

variable [DecidableEq κ]

/-- The number that is remembered for a key. -/
def receipt (number : α → ℤ) (key : α → κ) (log : List α) (k : κ) : Option ℤ :=
  (log.find? fun a ↦ decide (key a = k)).map number

theorem receipt_append (log : List α) (a : α) (k : κ) :
    receipt number key (log ++ [a]) k
      = (receipt number key log k).or (if key a = k then some (number a) else none) := by
  rw [receipt, receipt, List.find?_append, Option.map_or]
  congr 1
  by_cases h : key a = k <;> simp [h]

theorem receipt_eq_none {log : List α} {k : κ} :
    receipt number key log k = none ↔ ∀ a ∈ log, key a ≠ k := by
  simp [receipt]

theorem Numbered.append {log : List α} (h : Numbered number key log) {a : α}
    (hnumber : number a = log.length + 1) (hkey : receipt number key log (key a) = none) :
    Numbered number key (log ++ [a]) where
  numbers := by
    intro i b hb
    rw [List.getElem?_append] at hb
    split at hb
    · exact h.numbers i b hb
    · next hlength =>
      obtain ⟨hi, rfl⟩ := List.getElem?_eq_some_iff.mp hb
      rw [List.length_singleton] at hi
      have heq : i = log.length := by omega
      rw [List.getElem_singleton, hnumber, heq]
  once := by
    rw [List.map_append, List.nodup_append]
    refine ⟨h.once, List.nodup_singleton _, ?_⟩
    intro k hk k' hk' heq
    obtain ⟨b, hb, rfl⟩ := List.mem_map.mp hk
    have hka : k' = key a := by simpa using hk'
    exact receipt_eq_none.mp hkey b hb (heq.trans hka)

theorem receipt_congr {log log' : List α} (hnumber : log'.map number = log.map number)
    (hkey : log'.map key = log.map key) : receipt number key log' = receipt number key log := by
  funext k
  have hfind : ∀ l : List α, receipt number key l k
      = ((l.map key).zip (l.map number)).lookup k := by
    intro l
    induction l with
    | nil => rfl
    | cons a l ih =>
      rw [List.map_cons, List.map_cons, List.zip_cons_cons, List.lookup_cons, ← ih]
      by_cases heq : key a = k
      · subst heq
        simp [receipt]
      · have hbeq : (k == key a) = false := beq_false_of_ne (Ne.symm heq)
        simp [receipt, heq, hbeq]
  rw [hfind, hfind, hnumber, hkey]

/-- The number remembered for a key leads to the entry. -/
theorem Numbered.receipt {log : List α} (h : Numbered number key log) {k : κ} {n : ℤ}
    (hreceipt : receipt number key log k = some n) :
    ∃ (i : ℕ) (a : α), log[i]? = some a ∧ key a = k ∧ n = i + 1 := by
  obtain ⟨a, ha, rfl⟩ := Option.map_eq_some_iff.mp hreceipt
  obtain ⟨i, hi⟩ := List.getElem?_of_mem (List.mem_of_find?_eq_some ha)
  exact ⟨i, a, hi, by simpa using List.find?_some ha, h.numbers i a hi⟩

end Receipts
