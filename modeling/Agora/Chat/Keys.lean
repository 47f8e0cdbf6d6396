import Mathlib.Data.Int.Basic
import Mathlib.Data.List.Basic
import Mathlib.Tactic.Common

/-!
# Texts that start or end with a number

A number and a text, or a text and a number, separated by a colon: the parts can be read off again,
since the text of a number has no colon in it.
-/

namespace Agora

/-- The text of a natural number consists of digits. -/
theorem isDigit_of_mem_repr {n : ℕ} {c : Char} (h : c ∈ n.repr.toList) : c.isDigit := by
  rw [Nat.toList_repr] at h
  exact Nat.isDigit_of_mem_toDigits (by decide) (by decide) h

theorem natText_injective {m n : ℕ} (h : m.repr = n.repr) : m = n := by
  have hdigits : Nat.toDigits 10 m = Nat.toDigits 10 n := by
    rw [← Nat.toList_repr, ← Nat.toList_repr, h]
  simpa using congrArg (Nat.ofDigitChars 10 · 0) hdigits

theorem toString_negSucc (n : ℕ) : toString (Int.negSucc n) = "-" ++ n.succ.repr := rfl

theorem intText_injective {m n : ℤ} (h : toString m = toString n) : m = n := by
  have hsign : ∀ a b : ℕ, a.repr ≠ "-" ++ b.repr := by
    intro a b heq
    have hmem : '-' ∈ a.repr.toList := by
      rw [heq, String.toList_append]
      exact List.mem_append_left _ (by decide)
    exact absurd (isDigit_of_mem_repr hmem) (by decide)
  cases m with
  | ofNat m =>
    cases n with
    | ofNat n => exact congrArg Int.ofNat (natText_injective h)
    | negSucc n => exact absurd h (hsign _ _)
  | negSucc m =>
    cases n with
    | ofNat n => exact absurd h.symm (hsign _ _)
    | negSucc n =>
      rw [toString_negSucc, toString_negSucc, String.append_right_inj] at h
      exact congrArg Int.negSucc (Nat.succ.inj (natText_injective h))

theorem colon_notMem_intText (n : ℤ) : ':' ∉ (toString n).toList := by
  intro h
  cases n with
  | ofNat n => exact absurd (isDigit_of_mem_repr h) (by decide)
  | negSucc n =>
    rw [toString_negSucc, String.toList_append, List.mem_append] at h
    rcases h with hsign | hdigit
    · exact absurd hsign (by decide)
    · exact absurd (isDigit_of_mem_repr hdigit) (by decide)

/-- Lists in which an element comes first at the end of their first parts. -/
theorem append_cons_inj {α : Type*} {x : α} {a b r s : List α} (ha : x ∉ a) (hb : x ∉ b)
    (h : a ++ x :: r = b ++ x :: s) : a = b ∧ r = s := by
  induction a generalizing b with
  | nil =>
    cases b with
    | nil => exact ⟨rfl, by simpa using h⟩
    | cons y b =>
      rw [List.nil_append, List.cons_append, List.cons.injEq] at h
      exact absurd (h.1 ▸ List.mem_cons_self) hb
  | cons y a ih =>
    cases b with
    | nil =>
      rw [List.nil_append, List.cons_append, List.cons.injEq] at h
      exact absurd (h.1 ▸ List.mem_cons_self) ha
    | cons z b =>
      rw [List.cons_append, List.cons_append, List.cons.injEq] at h
      obtain ⟨rfl, hrest⟩ := ih (fun hx ↦ ha (List.mem_cons_of_mem _ hx))
        (fun hx ↦ hb (List.mem_cons_of_mem _ hx)) h.2
      exact ⟨by rw [h.1], hrest⟩

/-- A number before a colon, and what comes after it. -/
theorem intText_colon_inj {m n : ℤ} {r s : String}
    (h : toString m ++ ":" ++ r = toString n ++ ":" ++ s) : m = n ∧ r = s := by
  have hlist := congrArg String.toList h
  rw [String.toList_append, String.toList_append, String.toList_append, String.toList_append,
    List.append_assoc, List.append_assoc] at hlist
  obtain ⟨hnumber, hrest⟩ :=
    append_cons_inj (colon_notMem_intText m) (colon_notMem_intText n) hlist
  exact ⟨intText_injective (String.toList_inj.mp hnumber), String.toList_inj.mp hrest⟩

/-- A number after the last colon, and what comes before it. -/
theorem colon_intText_inj {m n : ℤ} {r s : String}
    (h : r ++ ":" ++ toString m = s ++ ":" ++ toString n) : r = s ∧ m = n := by
  have hlist := congrArg List.reverse (congrArg String.toList h)
  rw [String.toList_append, String.toList_append, String.toList_append, String.toList_append,
    List.reverse_append, List.reverse_append, List.reverse_append, List.reverse_append] at hlist
  have hcolon : ∀ n : ℤ, ':' ∉ (toString n).toList.reverse := by
    intro n
    rw [List.mem_reverse]
    exact colon_notMem_intText n
  obtain ⟨hnumber, hrest⟩ := append_cons_inj (hcolon m) (hcolon n) hlist
  exact ⟨String.toList_inj.mp (List.reverse_injective hrest),
    intText_injective (String.toList_inj.mp (List.reverse_injective hnumber))⟩

end Agora
