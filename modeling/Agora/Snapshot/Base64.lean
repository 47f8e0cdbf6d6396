import Mathlib.Data.List.DropRight
import Mathlib.Data.Nat.Notation

/-!
# Base64 in pieces

Bytes cut into pieces of a bounded length, and the base64 text of a piece. There are two readers:
`decodeBlock` reads groups of four characters, takes padding for zeros and leaves it to its caller
to cut the bytes off that the padding stood for; `decode` reads padding itself, and may do without.

**Round trip.** Pieces put together again are the bytes they were cut from (`flatten_pieces`), and
both readers read what `encode` wrote (`decodeBlock_encode`, `decode_encode`).
-/

namespace Agora

/-! ## Pieces -/

/-- A list cut into pieces of `n` elements; the last may be shorter. -/
def pieces {α : Type*} (n : ℕ) (l : List α) : List (List α) :=
  (List.range ((l.length + n - 1) / n)).map fun i ↦ (l.drop (i * n)).take n

section Pieces

variable {α : Type*} {n : ℕ} {l : List α}

theorem flatten_slices (n : ℕ) (l : List α) (k : ℕ) :
    ((List.range k).map fun i ↦ (l.drop (i * n)).take n).flatten = l.take (k * n) := by
  induction k with
  | zero => simp
  | succ k ih =>
    rw [List.range_succ, List.map_append, List.flatten_append, ih, Nat.succ_mul, List.take_add]
    simp

theorem flatten_pieces (hn : 0 < n) (l : List α) : (pieces n l).flatten = l := by
  rw [pieces, flatten_slices, List.take_of_length_le]
  have h := Nat.div_add_mod (l.length + n - 1) n
  have hlt := Nat.mod_lt (l.length + n - 1) hn
  rw [Nat.mul_comm] at h
  omega

theorem length_le_of_mem_pieces {p : List α} (hp : p ∈ pieces n l) : p.length ≤ n := by
  obtain ⟨i, -, rfl⟩ := List.mem_map.mp hp
  exact List.length_take_le _ _

theorem ne_nil_of_mem_pieces (hn : 0 < n) {p : List α} (hp : p ∈ pieces n l) : p ≠ [] := by
  obtain ⟨i, hi, rfl⟩ := List.mem_map.mp hp
  have hlt : i < (l.length + n - 1) / n := List.mem_range.mp hi
  have hle : (i + 1) * n ≤ l.length + n - 1 := (Nat.le_div_iff_mul_le hn).mp hlt
  rw [Nat.succ_mul] at hle
  rw [← List.length_pos_iff, List.length_take, List.length_drop]
  omega

theorem pieces_ne_nil (hn : 0 < n) (hl : l ≠ []) : pieces n l ≠ [] := by
  intro h
  have hflat := flatten_pieces hn l
  rw [h] at hflat
  exact hl hflat.symm

end Pieces

namespace Base64

/-! ## Digits -/

def digits : List Char :=
  "ABCDEFGHIJKLMNOPQRSTUVWXYZabcdefghijklmnopqrstuvwxyz0123456789+/".toList

def digit (n : ℕ) : Char := digits.getD n '='

def value (c : Char) : Option ℕ := digits.idxOf? c

/-- The character is read as what was written, is none that a reader skips, and is one byte. -/
theorem digit_props {n : ℕ} (hn : n < 64) : value (digit n) = some n ∧
    digit n ∉ ['=', ' ', '\t', '\n', '\r', '-'] ∧ (digit n).utf8Size = 1 := by
  have h : ∀ m < 64, value (digit m) = some m ∧
      digit m ∉ ['=', ' ', '\t', '\n', '\r', '-'] ∧ (digit m).utf8Size = 1 := by decide +kernel
  exact h n hn

theorem value_digit {n : ℕ} (hn : n < 64) : value (digit n) = some n := (digit_props hn).1

theorem digit_ne {n : ℕ} (hn : n < 64) : digit n ≠ '=' := by
  have h := (digit_props hn).2.1
  simp only [List.mem_cons, not_or] at h
  exact h.1

/-! ## Groups of three bytes and of four digits -/

def digit₀ (a : UInt8) : ℕ := a.toNat / 4

def digit₁ (a b : UInt8) : ℕ := a.toNat % 4 * 16 + b.toNat / 16

def digit₂ (b c : UInt8) : ℕ := b.toNat % 16 * 4 + c.toNat / 64

def digit₃ (c : UInt8) : ℕ := c.toNat % 64

def byte₀ (x y : ℕ) : UInt8 := .ofNat (x * 4 + y / 16)

def byte₁ (y z : ℕ) : UInt8 := .ofNat (y % 16 * 16 + z / 4)

def byte₂ (z w : ℕ) : UInt8 := .ofNat (z % 4 * 64 + w)

section Groups

variable (a b c : UInt8)

theorem digit₀_lt : digit₀ a < 64 := by
  have := a.toNat_lt
  unfold digit₀
  omega

theorem digit₁_lt : digit₁ a b < 64 := by
  have := b.toNat_lt
  unfold digit₁
  omega

theorem digit₂_lt : digit₂ b c < 64 := by
  have := c.toNat_lt
  unfold digit₂
  omega

theorem digit₃_lt : digit₃ c < 64 := Nat.mod_lt _ (by decide)

@[simp] theorem byte₀_digits : byte₀ (digit₀ a) (digit₁ a b) = a := by
  have ha := a.toNat_lt
  have hb := b.toNat_lt
  have h : digit₀ a * 4 + digit₁ a b / 16 = a.toNat := by
    unfold digit₀ digit₁
    omega
  rw [byte₀, h, UInt8.ofNat_toNat]

@[simp] theorem byte₁_digits : byte₁ (digit₁ a b) (digit₂ b c) = b := by
  have hb := b.toNat_lt
  have hc := c.toNat_lt
  have h : digit₁ a b % 16 * 16 + digit₂ b c / 4 = b.toNat := by
    unfold digit₁ digit₂
    omega
  rw [byte₁, h, UInt8.ofNat_toNat]

@[simp] theorem byte₂_digits : byte₂ (digit₂ b c) (digit₃ c) = c := by
  have hc := c.toNat_lt
  have h : digit₂ b c % 4 * 64 + digit₃ c = c.toNat := by
    unfold digit₂ digit₃
    omega
  rw [byte₂, h, UInt8.ofNat_toNat]

end Groups

/-! ## Writing -/

def encode : List UInt8 → List Char
  | [] => []
  | [a] => [digit (digit₀ a), digit (digit₁ a 0), '=', '=']
  | [a, b] => [digit (digit₀ a), digit (digit₁ a b), digit (digit₂ b 0), '=']
  | a :: b :: c :: l =>
    digit (digit₀ a) :: digit (digit₁ a b) :: digit (digit₂ b c) :: digit (digit₃ c) :: encode l

theorem length_encode (l : List UInt8) : (encode l).length = 4 * ((l.length + 2) / 3) := by
  induction l using encode.induct with
  | case1 => rfl
  | case2 a => simp [encode]
  | case3 a b => simp [encode]
  | case4 a b c l ih =>
    simp only [encode, List.length_cons, ih]
    omega

/-! ## Reading in groups of four -/

/-- The value of a digit, and zero for padding. -/
def sextet (c : Char) : Option ℕ := if c = '=' then some 0 else value c

def decodeGroups : List Char → Option (List UInt8)
  | [] => some []
  | x :: y :: z :: w :: l => do
    let x ← sextet x
    let y ← sextet y
    let z ← sextet z
    let w ← sextet w
    let l ← decodeGroups l
    return byte₀ x y :: byte₁ y z :: byte₂ z w :: l
  | _ => none

def isBlank (c : Char) : Bool := c = ' ' || c = '\t'

/-- A character that may stand after the digits. -/
def isTrailing (c : Char) : Bool := isBlank c || c = '\n' || c = '\r' || c = '-'

/-- The characters without the blanks before them and without what may stand after them, of which
the first three are always kept. -/
def trimmed (l : List Char) : List Char :=
  (l.dropWhile isBlank).take 3 ++ ((l.dropWhile isBlank).drop 3).rdropWhile isTrailing

def decodeBlock (l : List Char) : Option (List UInt8) := decodeGroups (trimmed l)

/-- The padding at the end of a text. -/
def padding (l : List Char) : ℕ :=
  (if l.getLast? = some '=' then 1 else 0) + (if l.dropLast.getLast? = some '=' then 1 else 0)

theorem sextet_digit {n : ℕ} (hn : n < 64) : sextet (digit n) = some n := by
  rw [sextet, if_neg (digit_ne hn), value_digit hn]

theorem sextet_padding : sextet '=' = some 0 := rfl

/-- How many bytes are missing from the last group. -/
def missing (l : List UInt8) : ℕ := 2 * l.length % 3

theorem decodeGroups_encode (l : List UInt8) :
    decodeGroups (encode l) = some (l ++ List.replicate (missing l) 0) := by
  induction l using encode.induct with
  | case1 => rfl
  | case2 a =>
    simp only [encode, decodeGroups, sextet_digit (digit₀_lt a), sextet_digit (digit₁_lt a 0),
      sextet_padding, Option.pure_def, Option.bind_eq_bind, Option.bind_some, byte₀_digits]
    have h : byte₁ (digit₁ a 0) 0 = 0 := byte₁_digits a 0 0
    rw [h]
    rfl
  | case3 a b =>
    simp only [encode, decodeGroups, sextet_digit (digit₀_lt a), sextet_digit (digit₁_lt a b),
      sextet_digit (digit₂_lt b 0), sextet_padding, Option.pure_def, Option.bind_eq_bind,
      Option.bind_some, byte₀_digits, byte₁_digits]
    have h : byte₂ (digit₂ b 0) 0 = 0 := byte₂_digits b 0
    rw [h]
    simp [missing]
  | case4 a b c l ih =>
    have hmissing : missing (a :: b :: c :: l) = missing l := by
      simp only [missing, List.length_cons]
      omega
    simp only [encode, decodeGroups, sextet_digit (digit₀_lt a), sextet_digit (digit₁_lt a b),
      sextet_digit (digit₂_lt b c), sextet_digit (digit₃_lt c), ih, Option.pure_def,
      Option.bind_eq_bind, Option.bind_some, byte₀_digits, byte₁_digits, byte₂_digits, hmissing,
      List.cons_append]

theorem padding_cons_four {x y z w : Char} {l : List Char} (hl : 2 ≤ l.length) :
    padding (x :: y :: z :: w :: l) = padding l := by
  match l with
  | u :: v :: l => simp [padding, List.getLast?_cons_cons]
  | [u] => simp at hl
  | [] => simp at hl

theorem padding_encode (l : List UInt8) : padding (encode l) = missing l := by
  induction l using encode.induct with
  | case1 => rfl
  | case2 a => rfl
  | case3 a b => simp [encode, padding, missing, digit_ne (digit₂_lt b 0)]
  | case4 a b c l ih =>
    have hmissing : missing (a :: b :: c :: l) = missing l := by
      simp only [missing, List.length_cons]
      omega
    rcases eq_or_ne l [] with rfl | hl
    · simp [encode, padding, missing, digit_ne (digit₂_lt b c), digit_ne (digit₃_lt c)]
    · rw [hmissing, ← ih, encode]
      refine padding_cons_four ?_
      have := List.length_pos_iff.mpr hl
      rw [length_encode]
      omega

theorem isTrailing_digit {n : ℕ} (hn : n < 64) : isTrailing (digit n) = false := by
  have h := (digit_props hn).2.1
  simp only [List.mem_cons, not_or] at h
  simp [isTrailing, isBlank, h]

theorem mem_encode {l : List UInt8} {c : Char} (hc : c ∈ encode l) :
    c = '=' ∨ ∃ n < 64, c = digit n := by
  induction l using encode.induct with
  | case1 => simp [encode] at hc
  | case2 a =>
    simp only [encode, List.mem_cons, List.not_mem_nil, or_false] at hc
    rcases hc with rfl | rfl | rfl | rfl
    · exact Or.inr ⟨_, digit₀_lt a, rfl⟩
    · exact Or.inr ⟨_, digit₁_lt a 0, rfl⟩
    · exact Or.inl rfl
    · exact Or.inl rfl
  | case3 a b =>
    simp only [encode, List.mem_cons, List.not_mem_nil, or_false] at hc
    rcases hc with rfl | rfl | rfl | rfl
    · exact Or.inr ⟨_, digit₀_lt a, rfl⟩
    · exact Or.inr ⟨_, digit₁_lt a b, rfl⟩
    · exact Or.inr ⟨_, digit₂_lt b 0, rfl⟩
    · exact Or.inl rfl
  | case4 a b c l ih =>
    simp only [encode, List.mem_cons] at hc
    rcases hc with rfl | rfl | rfl | rfl | hc
    · exact Or.inr ⟨_, digit₀_lt a, rfl⟩
    · exact Or.inr ⟨_, digit₁_lt a b, rfl⟩
    · exact Or.inr ⟨_, digit₂_lt b c, rfl⟩
    · exact Or.inr ⟨_, digit₃_lt c, rfl⟩
    · exact ih hc

/-- A reader trims none of the characters, and each is one byte long. -/
theorem props_of_mem_encode {l : List UInt8} {c : Char} (hc : c ∈ encode l) :
    isTrailing c = false ∧ c.utf8Size = 1 := by
  rcases mem_encode hc with rfl | ⟨n, hn, rfl⟩
  · exact ⟨rfl, rfl⟩
  · exact ⟨isTrailing_digit hn, (digit_props hn).2.2⟩

theorem trimmed_encode (l : List UInt8) : trimmed (encode l) = encode l := by
  have hblank : ∀ c ∈ encode l, isBlank c = false := fun c hc ↦
    (Bool.or_eq_false_iff.mp (Bool.or_eq_false_iff.mp (Bool.or_eq_false_iff.mp
      (props_of_mem_encode hc).1).1).1).1
  have hdrop : (encode l).dropWhile isBlank = encode l := by
    rw [List.dropWhile_eq_self_iff]
    intro h
    simpa using hblank _ (List.getElem_mem h)
  have hend : ((encode l).drop 3).rdropWhile isTrailing = (encode l).drop 3 := by
    rw [List.rdropWhile_eq_self_iff]
    intro h
    have hmem := List.mem_of_mem_drop (List.getLast_mem h)
    simpa using (props_of_mem_encode hmem).1
  rw [trimmed, hdrop, hend, List.take_append_drop]

/-- What is read back, with zeros for the padding. -/
theorem decodeBlock_encode (l : List UInt8) :
    decodeBlock (encode l) = some (l ++ List.replicate (padding (encode l)) 0) := by
  rw [decodeBlock, trimmed_encode, decodeGroups_encode, padding_encode]

/-! ## Reading with padding -/

def decode : List Char → Option (List UInt8)
  | [] => some []
  | [_] => none
  | [x, y] => do
    let x ← value x
    let y ← value y
    return [byte₀ x y]
  | [x, y, z] => do
    let x ← value x
    let y ← value y
    let z ← value z
    return [byte₀ x y, byte₁ y z]
  | x :: y :: z :: w :: l => do
    let x ← value x
    let y ← value y
    -- Padding ends the text.
    if z = '=' then
      if w = '=' ∧ l = [] then some [byte₀ x y] else none
    else
      let z ← value z
      if w = '=' then
        if l = [] then some [byte₀ x y, byte₁ y z] else none
      else
        let w ← value w
        let l ← decode l
        return byte₀ x y :: byte₁ y z :: byte₂ z w :: l

theorem decode_encode (l : List UInt8) : decode (encode l) = some l := by
  induction l using encode.induct with
  | case1 => rfl
  | case2 a =>
    simp [encode, decode, value_digit (digit₀_lt a), value_digit (digit₁_lt a 0)]
  | case3 a b =>
    simp [encode, decode, value_digit (digit₀_lt a), value_digit (digit₁_lt a b),
      value_digit (digit₂_lt b 0), digit_ne (digit₂_lt b 0)]
  | case4 a b c l ih =>
    simp [encode, decode, value_digit (digit₀_lt a), value_digit (digit₁_lt a b),
      value_digit (digit₂_lt b c), value_digit (digit₃_lt c), digit_ne (digit₂_lt b c),
      digit_ne (digit₃_lt c), ih]

example : String.ofList (encode "abc!".toUTF8.toList) = "YWJjIQ==" := by decide +kernel

end Base64

end Agora
