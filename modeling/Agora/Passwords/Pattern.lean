import Mathlib.Computability.RegularExpressions

/-!
# Classes of letters in regular expressions

A class of letters is a sum of letters. What a class, its powers and its star match is said by a
condition on the single letters, so that a pattern made of classes is taken apart by the lengths
of its parts and by what their letters are.
-/

namespace Pattern

variable {α : Type*}

/-- The words of one letter in `P`. -/
def letters (P : α → Prop) : Language α := {w | ∃ a, P a ∧ w = [a]}

theorem letters_add (P Q : α → Prop) : letters P + letters Q = letters fun a ↦ P a ∨ Q a := by
  ext w
  constructor
  · rintro (⟨a, ha, rfl⟩ | ⟨a, ha, rfl⟩)
    · exact ⟨a, Or.inl ha, rfl⟩
    · exact ⟨a, Or.inr ha, rfl⟩
  · rintro ⟨a, ha | ha, rfl⟩
    · exact Or.inl ⟨a, ha, rfl⟩
    · exact Or.inr ⟨a, ha, rfl⟩

theorem letters_congr {P Q : α → Prop} (h : ∀ a, P a ↔ Q a) : letters P = letters Q :=
  congrArg letters (funext fun a ↦ propext (h a))

/-- A power of a class matches the words of that length in its letters. -/
theorem mem_letters_pow {P : α → Prop} {n : ℕ} {w : List α} :
    w ∈ letters P ^ n ↔ w.length = n ∧ ∀ a ∈ w, P a := by
  induction n generalizing w with
  | zero =>
    rw [pow_zero, Language.mem_one, List.length_eq_zero_iff]
    exact ⟨fun h ↦ ⟨h, by rw [h]; exact fun a ha ↦ absurd ha List.not_mem_nil⟩, And.left⟩
  | succ n ih =>
    rw [pow_succ', Language.mem_mul]
    constructor
    · rintro ⟨_, ⟨a, ha, rfl⟩, v, hv, rfl⟩
      obtain ⟨hlength, hall⟩ := ih.mp hv
      exact ⟨by rw [List.singleton_append, List.length_cons, hlength],
        List.forall_mem_cons.mpr ⟨ha, hall⟩⟩
    · rintro ⟨hlength, hall⟩
      match w, hlength, hall with
      | a :: v, hlength, hall =>
        obtain ⟨ha, hv⟩ := List.forall_mem_cons.mp hall
        exact ⟨[a], ⟨a, ha, rfl⟩, v, ih.mpr ⟨Nat.succ.inj hlength, hv⟩, rfl⟩

open Computability in
/-- The star of a class matches the words in its letters. -/
theorem mem_letters_kstar {P : α → Prop} {w : List α} :
    w ∈ (letters P)∗ ↔ ∀ a ∈ w, P a := by
  rw [Language.kstar_eq_iSup_pow, Language.mem_iSup]
  constructor
  · rintro ⟨n, h⟩
    exact (mem_letters_pow.mp h).2
  · exact fun h ↦ ⟨w.length, mem_letters_pow.mpr ⟨rfl, h⟩⟩

/-! ## Expressions -/

/-- One letter out of a list. -/
def oneOf (l : List α) : RegularExpression α := (l.map .char).sum

/-- One or more. -/
def many (r : RegularExpression α) : RegularExpression α := r * r.star

/-- The letters of a word, one after the other. -/
def word (l : List α) : RegularExpression α := (l.map .char).prod

theorem matches_char (a : α) : (RegularExpression.char a).matches' = letters (· = a) := by
  ext w
  constructor
  · exact fun h ↦ ⟨a, rfl, h⟩
  · rintro ⟨_, rfl, rfl⟩
    rfl

theorem matches_oneOf (l : List α) : (oneOf l).matches' = letters (· ∈ l) := by
  induction l with
  | nil =>
    ext w
    constructor
    · exact fun h ↦ absurd h (Language.notMem_zero w)
    · rintro ⟨a, ha, -⟩
      exact absurd ha List.not_mem_nil
  | cons a l ih =>
    rw [oneOf, List.map_cons, List.sum_cons, RegularExpression.matches'_add, ← oneOf, ih,
      matches_char, letters_add]
    exact letters_congr fun _ ↦ List.mem_cons.symm

theorem matches_add {r s : RegularExpression α} {P Q : α → Prop} (hr : r.matches' = letters P)
    (hs : s.matches' = letters Q) : (r + s).matches' = letters fun a ↦ P a ∨ Q a := by
  rw [RegularExpression.matches'_add, hr, hs, letters_add]

theorem mem_word {l w : List α} : w ∈ (word l).matches' ↔ w = l := by
  induction l generalizing w with
  | nil => exact Language.mem_one w
  | cons a l ih =>
    rw [word, List.map_cons, List.prod_cons, RegularExpression.matches'_mul, ← word,
      Language.mem_mul]
    constructor
    · rintro ⟨_, rfl, v, hv, rfl⟩
      rw [ih.mp hv]
      rfl
    · rintro rfl
      exact ⟨[a], rfl, l, ih.mpr rfl, rfl⟩

/-- A word comes first and the rest matches. -/
theorem mem_word_mul {l w : List α} {r : RegularExpression α} :
    w ∈ (word l * r).matches' ↔ ∃ v ∈ r.matches', w = l ++ v := by
  rw [RegularExpression.matches'_mul, Language.mem_mul]
  constructor
  · rintro ⟨_, h, v, hv, rfl⟩
    rw [mem_word.mp h]
    exact ⟨v, hv, rfl⟩
  · rintro ⟨v, hv, rfl⟩
    exact ⟨l, mem_word.mpr rfl, v, hv, rfl⟩

/-- A letter of a class comes first and the rest matches. -/
theorem mem_letter_mul {P : α → Prop} {c r : RegularExpression α} (hc : c.matches' = letters P)
    {w : List α} : w ∈ (c * r).matches' ↔ ∃ a v, P a ∧ v ∈ r.matches' ∧ w = a :: v := by
  rw [RegularExpression.matches'_mul, hc, Language.mem_mul]
  constructor
  · rintro ⟨_, ⟨a, ha, rfl⟩, v, hv, rfl⟩
    exact ⟨a, v, ha, hv, rfl⟩
  · rintro ⟨a, v, ha, hv, rfl⟩
    exact ⟨[a], ⟨a, ha, rfl⟩, v, hv, rfl⟩

/-- As many letters of a class come first and the rest matches. -/
theorem mem_pow_mul {P : α → Prop} {c r : RegularExpression α} (hc : c.matches' = letters P)
    {n : ℕ} {w : List α} :
    w ∈ (c ^ n * r).matches' ↔
      ∃ u v, (u.length = n ∧ ∀ a ∈ u, P a) ∧ v ∈ r.matches' ∧ w = u ++ v := by
  rw [RegularExpression.matches'_mul, RegularExpression.matches'_pow, hc, Language.mem_mul]
  constructor
  · rintro ⟨u, hu, v, hv, rfl⟩
    exact ⟨u, v, mem_letters_pow.mp hu, hv, rfl⟩
  · rintro ⟨u, v, hu, hv, rfl⟩
    exact ⟨u, mem_letters_pow.mpr hu, v, hv, rfl⟩

theorem mem_pow {P : α → Prop} {c : RegularExpression α} (hc : c.matches' = letters P)
    {n : ℕ} {w : List α} :
    w ∈ (c ^ n).matches' ↔ w.length = n ∧ ∀ a ∈ w, P a := by
  rw [RegularExpression.matches'_pow, hc, mem_letters_pow]

/-- One or more letters of a class come first and the rest matches. -/
theorem mem_many_mul {P : α → Prop} {c r : RegularExpression α} (hc : c.matches' = letters P)
    {w : List α} :
    w ∈ (many c * r).matches' ↔
      ∃ u v, (u ≠ [] ∧ ∀ a ∈ u, P a) ∧ v ∈ r.matches' ∧ w = u ++ v := by
  rw [RegularExpression.matches'_mul, many, RegularExpression.matches'_mul,
    RegularExpression.matches'_star, hc, Language.mem_mul]
  constructor
  · rintro ⟨_, ⟨_, ⟨a, ha, rfl⟩, t, ht, rfl⟩, v, hv, rfl⟩
    exact ⟨a :: t, v, ⟨List.cons_ne_nil a t,
      List.forall_mem_cons.mpr ⟨ha, mem_letters_kstar.mp ht⟩⟩, hv, rfl⟩
  · rintro ⟨u, v, ⟨hne, hu⟩, hv, rfl⟩
    match u, hne, hu with
    | a :: t, _, hu =>
      obtain ⟨ha, ht⟩ := List.forall_mem_cons.mp hu
      exact ⟨a :: t, ⟨[a], ⟨a, ha, rfl⟩, t, mem_letters_kstar.mpr ht, rfl⟩, v, hv, rfl⟩

end Pattern
