import Agora.Json.Basic

/-!
# JSON string literals

The text of a JSON string and its inverse, over the characters of valid UTF-8. `quote` writes a
literal the way a serializer does that escapes no more than it must; `unescape` reads every
escape of the grammar, surrogate pairs included, and `scanQuoted` finds where a literal ends.

**Round trip.** A written literal is scanned to its own closing quote (`scanQuoted_quote`) and
reads back as the string it was written from (`unescape_escape`).
-/

namespace JsonText

def quoteChar : Char := Char.ofNat 0x22

def backslash : Char := Char.ofNat 0x5c

/-! ## Writing -/

/-- The lower-case hexadecimal digit of `n < 16`. -/
def hexDigit (n : ℕ) : Char := if n < 10 then Char.ofNat (0x30 + n) else Char.ofNat (0x57 + n)

/-- The escape of one character: two-character escapes where the grammar has them, `\u00XX` for
the other control characters, the character itself elsewhere. -/
def escapeChar (c : Char) : List Char :=
  if c = quoteChar then [backslash, quoteChar]
  else if c = backslash then [backslash, backslash]
  else if c = Char.ofNat 0x08 then [backslash, 'b']
  else if c = Char.ofNat 0x0c then [backslash, 'f']
  else if c = Char.ofNat 0x0a then [backslash, 'n']
  else if c = Char.ofNat 0x0d then [backslash, 'r']
  else if c = Char.ofNat 0x09 then [backslash, 't']
  else if c.toNat < 0x20 then
    [backslash, 'u', '0', '0', hexDigit (c.toNat / 16), hexDigit (c.toNat % 16)]
  else [c]

def escape (s : List Char) : List Char := s.flatMap escapeChar

/-- The literal of a string, in quotes. -/
def quote (s : List Char) : List Char := quoteChar :: (escape s ++ [quoteChar])

/-! ## Reading -/

def hexValue (c : Char) : Option ℕ :=
  if 0x30 ≤ c.toNat ∧ c.toNat ≤ 0x39 then some (c.toNat - 0x30)
  else if 0x61 ≤ c.toNat ∧ c.toNat ≤ 0x66 then some (c.toNat - 0x57)
  else if 0x41 ≤ c.toNat ∧ c.toNat ≤ 0x46 then some (c.toNat - 0x37)
  else none

/-- The number four hexadecimal digits write. -/
def hex4 (a b c d : Char) : Option ℕ := do
  let a ← hexValue a
  let b ← hexValue b
  let c ← hexValue c
  let d ← hexValue d
  return ((a * 16 + b) * 16 + c) * 16 + d

/-- The character of a two-character escape. -/
def simpleEscape (c : Char) : Option Char :=
  if c = quoteChar then some quoteChar
  else if c = backslash then some backslash
  else if c = '/' then some '/'
  else if c = 'b' then some (Char.ofNat 0x08)
  else if c = 'f' then some (Char.ofNat 0x0c)
  else if c = 'n' then some (Char.ofNat 0x0a)
  else if c = 'r' then some (Char.ofNat 0x0d)
  else if c = 't' then some (Char.ofNat 0x09)
  else none

/-- The string of a literal's inside. Control characters, unknown escapes and lone surrogates are
refused. -/
def unescape : List Char → Option (List Char)
  | [] => some []
  | c :: cs =>
    if c = backslash then
      match cs with
      | 'u' :: a :: b :: d :: e :: cs =>
        match hex4 a b d e with
        | none => none
        | some n =>
          if 0xd800 ≤ n ∧ n ≤ 0xdbff then
            match cs with
            | c' :: 'u' :: a' :: b' :: d' :: e' :: cs =>
              if c' = backslash then
                match hex4 a' b' d' e' with
                | none => none
                | some m =>
                  if 0xdc00 ≤ m ∧ m ≤ 0xdfff then
                    (unescape cs).map
                      (Char.ofNat (0x10000 + (n - 0xd800) * 0x400 + (m - 0xdc00)) :: ·)
                  else none
              else none
            | _ => none
          else if 0xdc00 ≤ n ∧ n ≤ 0xdfff then none
          else (unescape cs).map (Char.ofNat n :: ·)
      | e :: cs =>
        match simpleEscape e with
        | none => none
        | some c => (unescape cs).map (c :: ·)
      | [] => none
    else if c = quoteChar ∨ c.toNat < 0x20 then none
    else (unescape cs).map (c :: ·)

/-- Split the text after an opening quote at the first quote that no backslash escapes, into the
literal's inside and what follows the closing quote. -/
def scanQuoted : List Char → Option (List Char × List Char)
  | [] => none
  | c :: cs =>
    if c = backslash then
      match cs with
      | [] => none
      | e :: cs => (scanQuoted cs).map fun (body, rest) ↦ (c :: e :: body, rest)
    else if c = quoteChar then some ([], cs)
    else (scanQuoted cs).map fun (body, rest) ↦ (c :: body, rest)

/-! ## Round trip -/

theorem hexValue_hexDigit {n : ℕ} (hn : n < 16) : hexValue (hexDigit n) = some n := by
  have h : ∀ m < 16, hexValue (hexDigit m) = some m := by decide
  exact h n hn

theorem hex4_control {n : ℕ} (hn : n < 0x20) :
    hex4 '0' '0' (hexDigit (n / 16)) (hexDigit (n % 16)) = some n := by
  have h₀ : hexValue '0' = some 0 := by decide
  have h₁ : hexValue (hexDigit (n / 16)) = some (n / 16) := hexValue_hexDigit (by omega)
  have h₂ : hexValue (hexDigit (n % 16)) = some (n % 16) := hexValue_hexDigit (by omega)
  rw [hex4, h₀, h₁, h₂]
  simp only [Option.pure_def, Option.bind_eq_bind, Option.bind_some, Option.some.injEq]
  omega

theorem unescape_simple {e c : Char} (he : e ≠ 'u') (hc : simpleEscape e = some c)
    (cs : List Char) : unescape (backslash :: e :: cs) = (unescape cs).map (c :: ·) := by
  rw [unescape.eq_def]
  simp only [if_true]
  split
  · next h => exact absurd (List.cons.inj h).1 he
  · next h =>
    obtain ⟨rfl, rfl⟩ := List.cons.inj h
    rw [hc]
  · next h => simp at h

theorem unescape_plain {c : Char} (hb : c ≠ backslash) (hc : ¬(c = quoteChar ∨ c.toNat < 0x20))
    (cs : List Char) : unescape (c :: cs) = (unescape cs).map (c :: ·) := by
  rw [unescape.eq_def]
  simp only [if_neg hb, if_neg hc]

theorem unescape_escapeChar (c : Char) (cs : List Char) :
    unescape (escapeChar c ++ cs) = (unescape cs).map (c :: ·) := by
  unfold escapeChar
  split_ifs with h₁ h₂ h₃ h₄ h₅ h₆ h₇ h₈
  · rw [h₁]; exact unescape_simple (by decide) (by decide) cs
  · rw [h₂]; exact unescape_simple (by decide) (by decide) cs
  · rw [h₃]; exact unescape_simple (by decide) (by decide) cs
  · rw [h₄]; exact unescape_simple (by decide) (by decide) cs
  · rw [h₅]; exact unescape_simple (by decide) (by decide) cs
  · rw [h₆]; exact unescape_simple (by decide) (by decide) cs
  · rw [h₇]; exact unescape_simple (by decide) (by decide) cs
  · -- a control character without an escape of its own
    have hhigh : ¬(0xd800 ≤ c.toNat ∧ c.toNat ≤ 0xdbff) := by omega
    have hlow : ¬(0xdc00 ≤ c.toNat ∧ c.toNat ≤ 0xdfff) := by omega
    simp only [List.cons_append, List.nil_append]
    rw [unescape.eq_def]
    simp only [if_true, hex4_control h₈, if_neg hhigh, if_neg hlow, Char.ofNat_toNat]
  · exact unescape_plain h₂ (by simp [h₁, h₈]) cs

/-- The inside of a written literal reads back as the string it was written from. -/
theorem unescape_escape (s : List Char) : unescape (escape s) = some s := by
  induction s with
  | nil => rfl
  | cons c s ih =>
    have hcons : escape (c :: s) = escapeChar c ++ escape s := rfl
    rw [hcons, unescape_escapeChar, ih, Option.map_some]

theorem scanQuoted_backslash (e : Char) (cs : List Char) :
    scanQuoted (backslash :: e :: cs)
      = (scanQuoted cs).map fun (body, rest) ↦ (backslash :: e :: body, rest) := by
  rw [scanQuoted.eq_def]
  simp only [if_true]

theorem scanQuoted_quoteChar (cs : List Char) : scanQuoted (quoteChar :: cs) = some ([], cs) := by
  have hne : quoteChar ≠ backslash := by decide
  rw [scanQuoted.eq_def]
  simp only [if_neg hne, if_true]

theorem scanQuoted_plain {c : Char} (hb : c ≠ backslash) (hq : c ≠ quoteChar) (cs : List Char) :
    scanQuoted (c :: cs) = (scanQuoted cs).map fun (body, rest) ↦ (c :: body, rest) := by
  rw [scanQuoted.eq_def]
  simp only [if_neg hb, if_neg hq]

theorem scanQuoted_escapeChar (c : Char) (cs : List Char) :
    scanQuoted (escapeChar c ++ cs)
      = (scanQuoted cs).map fun (body, rest) ↦ (escapeChar c ++ body, rest) := by
  have hhex : ∀ n < 16, hexDigit n ≠ backslash ∧ hexDigit n ≠ quoteChar := by decide
  unfold escapeChar
  split_ifs with h₁ h₂ h₃ h₄ h₅ h₆ h₇ h₈
  iterate 7 exact scanQuoted_backslash _ _
  · have hd := hhex (c.toNat / 16) (by omega)
    have he := hhex (c.toNat % 16) (by omega)
    simp only [List.cons_append, List.nil_append]
    rw [scanQuoted_backslash, scanQuoted_plain (by decide) (by decide),
      scanQuoted_plain (by decide) (by decide), scanQuoted_plain hd.1 hd.2,
      scanQuoted_plain he.1 he.2]
    simp only [Option.map_map]
    rfl
  · exact scanQuoted_plain h₂ h₁ cs

theorem scanQuoted_escape (s rest : List Char) :
    scanQuoted (escape s ++ quoteChar :: rest) = some (escape s, rest) := by
  induction s with
  | nil => exact scanQuoted_quoteChar rest
  | cons c s ih =>
    have hcons : escape (c :: s) = escapeChar c ++ escape s := rfl
    rw [hcons, List.append_assoc, scanQuoted_escapeChar, ih, Option.map_some]

/-- A written literal is scanned to its own closing quote. -/
theorem scanQuoted_quote (s rest : List Char) :
    scanQuoted (quote s ++ rest).tail = some (escape s, rest) := by
  rw [quote, List.cons_append, List.tail_cons, List.append_assoc]
  exact scanQuoted_escape s rest

/-- The inside of a literal is shorter than the text it was scanned from. -/
theorem length_of_scanQuoted {cs body rest : List Char}
    (h : scanQuoted cs = some (body, rest)) : rest.length < cs.length := by
  fun_induction scanQuoted cs generalizing body rest with
  | case1 => simp at h
  | case2 => simp at h
  | case3 e cs ih =>
    obtain ⟨⟨body', rest'⟩, hs, heq⟩ := Option.map_eq_some_iff.mp h
    obtain ⟨-, rfl⟩ := Prod.mk.inj heq
    have := ih hs
    simp only [List.length_cons]
    omega
  | case4 =>
    obtain ⟨-, rfl⟩ := Prod.mk.inj (Option.some.inj h)
    simp
  | case5 c cs hb hq ih =>
    obtain ⟨⟨body', rest'⟩, hs, heq⟩ := Option.map_eq_some_iff.mp h
    obtain ⟨-, rfl⟩ := Prod.mk.inj heq
    have := ih hs
    simp only [List.length_cons]
    omega

end JsonText

/-! ## Serialized values -/

namespace Json

mutual

/-- Whether the serialized value contains a text, which without quotes and escapes lies inside one
string or one key. -/
def mentions (text : String) : Json → Bool
  | .str s => text.toList <:+: s.toList
  | .arr elements => elementsMention text elements
  | .obj fields => fieldsMention text fields
  | .null | .bool _ | .int _ | .float _ => false

def elementsMention (text : String) : List Json → Bool
  | [] => false
  | e :: es => e.mentions text || elementsMention text es

def fieldsMention (text : String) : List (String × Json) → Bool
  | [] => false
  | (k, v) :: fs =>
    text.toList <:+: k.toList || v.mentions text || fieldsMention text fs

end

end Json
