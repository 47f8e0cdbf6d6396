import Mathlib.Tactic.Common

/-!
# JSON string literals in bytes

A serializer that works on the bytes of a string writes a literal only when the bytes are
well-formed UTF-8: each first byte of a sequence says in which bounds the bytes after it lie
(`follow`). It escapes single bytes, all of them ASCII, so the sequences of other characters pass
through a literal as they are. A reader checks the same bounds, and turns every escape of the
grammar into bytes.

**Round trip.** What is written for a well-formed string holds no quote that a backslash does not
escape (`scanQuoted_escape`), and it reads back as that string (`unescape_escape`).
-/

namespace JsonBytes

def quoteByte : UInt8 := 0x22

def backslash : UInt8 := 0x5c

/-! ## Well-formed strings -/

/-- The bounds of the bytes that are still to come in a sequence. -/
abbrev Pending := List (UInt8 × UInt8)

def within (bounds : UInt8 × UInt8) (b : UInt8) : Bool := bounds.1 ≤ b && b ≤ bounds.2

/-- The bounds of the bytes after a first byte; none after a byte that begins no sequence. -/
def follow (b : UInt8) : Option Pending :=
  if b < 0x80 then some []
  else if within (0xC2, 0xDF) b then some [(0x80, 0xBF)]
  else if b = 0xE0 then some [(0xA0, 0xBF), (0x80, 0xBF)]
  else if within (0xE1, 0xEC) b || within (0xEE, 0xEF) b then some [(0x80, 0xBF), (0x80, 0xBF)]
  else if b = 0xED then some [(0x80, 0x9F), (0x80, 0xBF)]
  else if b = 0xF0 then some [(0x90, 0xBF), (0x80, 0xBF), (0x80, 0xBF)]
  else if within (0xF1, 0xF3) b then some [(0x80, 0xBF), (0x80, 0xBF), (0x80, 0xBF)]
  else if b = 0xF4 then some [(0x80, 0x8F), (0x80, 0xBF), (0x80, 0xBF)]
  else none

/-- Whether a string is well-formed, where some bytes of a sequence are still to come. -/
def wellFormed : Pending → List UInt8 → Bool
  | [], [] => true
  | _ :: _, [] => false
  | bounds :: pending, b :: bs => within bounds b && wellFormed pending bs
  | [], b :: bs =>
    match follow b with
    | none => false
    | some pending => wellFormed pending bs

/-! ## Writing -/

/-- The lower-case hexadecimal digit of `n < 16`. -/
def hexDigit (n : ℕ) : UInt8 := if n < 10 then UInt8.ofNat (0x30 + n) else UInt8.ofNat (0x57 + n)

/-- What stands for a byte in a literal. -/
def escapeByte (b : UInt8) : List UInt8 :=
  if b = quoteByte then [backslash, quoteByte]
  else if b = backslash then [backslash, backslash]
  else if b = 0x08 then [backslash, 'b'.toUInt8]
  else if b = 0x0c then [backslash, 'f'.toUInt8]
  else if b = 0x0a then [backslash, 'n'.toUInt8]
  else if b = 0x0d then [backslash, 'r'.toUInt8]
  else if b = 0x09 then [backslash, 't'.toUInt8]
  else if b < 0x20 then
    [backslash, 'u'.toUInt8, '0'.toUInt8, '0'.toUInt8, hexDigit (b.toNat / 16),
      hexDigit (b.toNat % 16)]
  else [b]

def escape (s : List UInt8) : List UInt8 := s.flatMap escapeByte

/-- The literal of a string, which must be well-formed. -/
def dump (s : List UInt8) : Option (List UInt8) :=
  if wellFormed [] s then some (quoteByte :: (escape s ++ [quoteByte])) else none

/-! ## Reading -/

def hexValue (c : UInt8) : Option ℕ :=
  if within (0x30, 0x39) c then some (c.toNat - 0x30)
  else if within (0x61, 0x66) c then some (c.toNat - 0x57)
  else if within (0x41, 0x46) c then some (c.toNat - 0x37)
  else none

/-- The number four hexadecimal digits write, and what follows them. -/
def hex4 : List UInt8 → Option (ℕ × List UInt8)
  | a :: b :: c :: d :: rest => do
    let a ← hexValue a
    let b ← hexValue b
    let c ← hexValue c
    let d ← hexValue d
    return (((a * 16 + b) * 16 + c) * 16 + d, rest)
  | _ => none

/-- The byte of a two-character escape. -/
def simpleEscape (e : UInt8) : Option UInt8 :=
  if e = quoteByte then some quoteByte
  else if e = backslash then some backslash
  else if e = '/'.toUInt8 then some '/'.toUInt8
  else if e = 'b'.toUInt8 then some 0x08
  else if e = 'f'.toUInt8 then some 0x0c
  else if e = 'n'.toUInt8 then some 0x0a
  else if e = 'r'.toUInt8 then some 0x0d
  else if e = 't'.toUInt8 then some 0x09
  else none

/-- The sequence of a code point. -/
def encode (n : ℕ) : List UInt8 :=
  if n < 0x80 then [UInt8.ofNat n]
  else if n < 0x800 then [UInt8.ofNat (0xC0 + n / 64), UInt8.ofNat (0x80 + n % 64)]
  else if n < 0x10000 then
    [UInt8.ofNat (0xE0 + n / 4096), UInt8.ofNat (0x80 + n / 64 % 64), UInt8.ofNat (0x80 + n % 64)]
  else
    [UInt8.ofNat (0xF0 + n / 262144), UInt8.ofNat (0x80 + n / 4096 % 64),
      UInt8.ofNat (0x80 + n / 64 % 64), UInt8.ofNat (0x80 + n % 64)]

/-- The code point of an escape behind `\u`, with what follows it. A high surrogate must be followed
by the escape of a low one, and no low one may stand alone. -/
def codePoint (text : List UInt8) : Option (ℕ × List UInt8) := do
  let (n, rest) ← hex4 text
  if 0xd800 ≤ n ∧ n ≤ 0xdbff then
    match rest with
    | b :: u :: rest =>
      if b = backslash ∧ u = 'u'.toUInt8 then do
        let (m, rest) ← hex4 rest
        if 0xdc00 ≤ m ∧ m ≤ 0xdfff then
          some (0x10000 + (n - 0xd800) * 0x400 + (m - 0xdc00), rest)
        else none
      else none
    | _ => none
  else if 0xdc00 ≤ n ∧ n ≤ 0xdfff then none
  else some (n, rest)

theorem length_of_hex4 {text rest : List UInt8} {n : ℕ} (h : hex4 text = some (n, rest)) :
    rest.length < text.length := by
  rw [hex4.eq_def] at h
  split at h
  · simp only [Option.bind_eq_bind, Option.bind_eq_some_iff, Option.pure_def, Option.some.injEq,
      Prod.mk.injEq] at h
    obtain ⟨_, -, _, -, _, -, _, -, -, rfl⟩ := h
    simp only [List.length_cons]
    omega
  · exact absurd h (by simp)

theorem length_of_codePoint {text rest : List UInt8} {n : ℕ} (h : codePoint text = some (n, rest)) :
    rest.length < text.length := by
  rw [codePoint, Option.bind_eq_bind, Option.bind_eq_some_iff] at h
  obtain ⟨⟨m, text'⟩, hfirst, h⟩ := h
  have hlength := length_of_hex4 hfirst
  dsimp only at h
  split_ifs at h
  · split at h
    · split_ifs at h
      rw [Option.bind_eq_some_iff] at h
      obtain ⟨⟨m', text''⟩, hsecond, h⟩ := h
      have hlength' := length_of_hex4 hsecond
      dsimp only at h
      split_ifs at h
      simp only [Option.some.injEq, Prod.mk.injEq] at h
      obtain ⟨-, rfl⟩ := h
      simp only [List.length_cons] at hlength
      omega
    · exact absurd h (by simp)
  · simp only [Option.some.injEq, Prod.mk.injEq] at h
    obtain ⟨-, rfl⟩ := h
    exact hlength

/-- The string of a literal's inside, where some bytes of a sequence are still to come. -/
def unescape (pending : Pending) (text : List UInt8) : Option (List UInt8) :=
  match pending, text with
  | [], [] => some []
  | _ :: _, [] => none
  | bounds :: pending, b :: bs =>
    if within bounds b then (unescape pending bs).map (b :: ·) else none
  | [], b :: bs =>
    if b = backslash then
      match bs with
      | [] => none
      | e :: bs =>
        if e = 'u'.toUInt8 then
          match h : codePoint bs with
          | none => none
          | some (n, rest) =>
            have := length_of_codePoint h
            (unescape [] rest).map (encode n ++ ·)
        else
          match simpleEscape e with
          | none => none
          | some c => (unescape [] bs).map (c :: ·)
    else if b = quoteByte ∨ b < 0x20 then none
    else
      match follow b with
      | none => none
      | some pending => (unescape pending bs).map (b :: ·)
  termination_by text.length

/-- Split the text after an opening quote at the first quote that no backslash escapes, into the
literal's inside and what follows the closing quote. -/
def scanQuoted (escaped : Bool) : List UInt8 → Option (List UInt8 × List UInt8)
  | [] => none
  | c :: cs =>
    if escaped then (scanQuoted false cs).map fun (body, rest) ↦ (c :: body, rest)
    else if c = backslash then (scanQuoted true cs).map fun (body, rest) ↦ (c :: body, rest)
    else if c = quoteByte then some ([], cs)
    else (scanQuoted false cs).map fun (body, rest) ↦ (c :: body, rest)

/-! ## Round trip -/

/-- Bounds that no ASCII byte meets. -/
def High (pending : Pending) : Prop := ∀ bounds ∈ pending, 0x80 ≤ bounds.1

theorem high_nil : High [] := fun _ h ↦ absurd h List.not_mem_nil

theorem High.cons {bounds : UInt8 × UInt8} {pending : Pending} (hpending : High pending)
    (h : 0x80 ≤ bounds.1) : High (bounds :: pending) :=
  List.forall_mem_cons.mpr ⟨h, hpending⟩

theorem high_of_follow {b : UInt8} {pending : Pending} (h : follow b = some pending) :
    High pending := by
  have hone : High [(0x80, 0xBF)] := high_nil.cons (by decide)
  have htwo : High [(0x80, 0xBF), (0x80, 0xBF)] := hone.cons (by decide)
  rw [follow] at h
  -- one case for each row of the table; only the first bounds differ within a length
  split_ifs at h <;> rw [← Option.some.inj h]
  · exact high_nil
  · exact hone
  · exact hone.cons (by decide)
  · exact htwo
  · exact hone.cons (by decide)
  · exact htwo.cons (by decide)
  · exact htwo.cons (by decide)
  · exact htwo.cons (by decide)

theorem follow_of_lt {b : UInt8} (h : b < 0x80) : follow b = some [] := by
  rw [follow, if_pos h]

theorem escapeByte_of_le {b : UInt8} (h : 0x80 ≤ b) : escapeByte b = [b] := by
  have hne : ∀ c : UInt8, c < 0x80 → b ≠ c := by
    rintro c hc rfl
    exact absurd (UInt8.lt_of_le_of_lt h hc) (UInt8.lt_irrefl _)
  have hlow : ¬b < 0x20 := fun hb ↦
    absurd (UInt8.lt_of_le_of_lt h hb : (0x80 : UInt8) < 0x20) (by decide)
  rw [escapeByte, if_neg (hne _ (by decide)), if_neg (hne _ (by decide)),
    if_neg (hne _ (by decide)), if_neg (hne _ (by decide)), if_neg (hne _ (by decide)),
    if_neg (hne _ (by decide)), if_neg (hne _ (by decide)), if_neg hlow]

theorem hexValue_hexDigit {n : ℕ} (hn : n < 16) : hexValue (hexDigit n) = some n := by
  have h : ∀ m < 16, hexValue (hexDigit m) = some m := by decide
  exact h n hn

theorem codePoint_control {n : ℕ} (hn : n < 0x20) (rest : List UInt8) :
    codePoint ('0'.toUInt8 :: '0'.toUInt8 :: hexDigit (n / 16) :: hexDigit (n % 16) :: rest)
      = some (n, rest) := by
  have h₀ : hexValue '0'.toUInt8 = some 0 := by decide
  have h₁ : hexValue (hexDigit (n / 16)) = some (n / 16) := hexValue_hexDigit (by omega)
  have h₂ : hexValue (hexDigit (n % 16)) = some (n % 16) := hexValue_hexDigit (by omega)
  have hhex : hex4 ('0'.toUInt8 :: '0'.toUInt8 :: hexDigit (n / 16) :: hexDigit (n % 16) :: rest)
      = some (n, rest) := by
    rw [hex4, h₀, h₁, h₂]
    simp only [Option.pure_def, Option.bind_eq_bind, Option.bind_some, Option.some.injEq,
      Prod.mk.injEq, and_true]
    omega
  have hhigh : ¬(0xd800 ≤ n ∧ n ≤ 0xdbff) := by omega
  have hlow : ¬(0xdc00 ≤ n ∧ n ≤ 0xdfff) := by omega
  rw [codePoint, hhex, Option.bind_eq_bind, Option.bind_some]
  dsimp only
  rw [if_neg hhigh, if_neg hlow]

theorem unescape_simple {e c : UInt8} (he : e ≠ 'u'.toUInt8) (hc : simpleEscape e = some c)
    (bs : List UInt8) :
    unescape [] (backslash :: e :: bs) = (unescape [] bs).map (c :: ·) := by
  rw [unescape, if_pos rfl]
  dsimp only
  rw [if_neg he, hc]

theorem unescape_code {bs rest : List UInt8} {n : ℕ} (h : codePoint bs = some (n, rest)) :
    unescape [] (backslash :: 'u'.toUInt8 :: bs) = (unescape [] rest).map (encode n ++ ·) := by
  rw [unescape.eq_def]
  dsimp only
  rw [if_pos rfl, if_pos rfl]
  split
  · next hnone => exact absurd (hnone.symm.trans h) (by simp)
  · next m rest' hsome =>
    obtain ⟨rfl, rfl⟩ := Prod.mk.inj (Option.some.inj (hsome.symm.trans h))
    rfl

theorem unescape_plain {b : UInt8} {pending : Pending} (hb : b ≠ backslash)
    (hc : ¬(b = quoteByte ∨ b < 0x20)) (hf : follow b = some pending) (bs : List UInt8) :
    unescape [] (b :: bs) = (unescape pending bs).map (b :: ·) := by
  rw [unescape.eq_def]
  dsimp only
  rw [if_neg hb, if_neg hc, hf]

theorem unescape_within {bounds : UInt8 × UInt8} {b : UInt8} (h : within bounds b = true)
    (pending : Pending) (bs : List UInt8) :
    unescape (bounds :: pending) (b :: bs) = (unescape pending bs).map (b :: ·) := by
  rw [unescape.eq_def]
  exact if_pos h

/-- An ASCII byte reads back from what is written for it. -/
theorem unescape_escapeByte {b : UInt8} (hb : b < 0x80) (bs : List UInt8) :
    unescape [] (escapeByte b ++ bs) = (unescape [] bs).map (b :: ·) := by
  rw [escapeByte]
  split_ifs with h₁ h₂ h₃ h₄ h₅ h₆ h₇ h₈
  · rw [h₁]; exact unescape_simple (by decide) (by decide) bs
  · rw [h₂]; exact unescape_simple (by decide) (by decide) bs
  · rw [h₃]; exact unescape_simple (by decide) (by decide) bs
  · rw [h₄]; exact unescape_simple (by decide) (by decide) bs
  · rw [h₅]; exact unescape_simple (by decide) (by decide) bs
  · rw [h₆]; exact unescape_simple (by decide) (by decide) bs
  · rw [h₇]; exact unescape_simple (by decide) (by decide) bs
  · -- a control byte without an escape of its own
    have hn : b.toNat < 0x20 := UInt8.lt_iff_toNat_lt.mp h₈
    simp only [List.cons_append, List.nil_append]
    rw [unescape_code (codePoint_control hn bs), encode, if_pos (by omega), UInt8.ofNat_toNat]
    rfl
  · exact unescape_plain h₂ (by simp [h₁, h₈]) (follow_of_lt hb) bs

/-- What is written for a well-formed string reads back as that string. -/
theorem unescape_escape {s : List UInt8} {pending : Pending} (hhigh : High pending)
    (hs : wellFormed pending s = true) : unescape pending (escape s) = some s := by
  induction s generalizing pending with
  | nil =>
    rcases pending with _ | ⟨bounds, pending⟩
    · rw [escape, List.flatMap_nil, unescape]
    · exact absurd hs (by simp [wellFormed])
  | cons b s ih =>
    have hescape : escape (b :: s) = escapeByte b ++ escape s := List.flatMap_cons
    rcases pending with _ | ⟨bounds, pending⟩
    · rw [wellFormed] at hs
      split at hs
      · exact absurd hs (by simp)
      · next pending hf =>
        have hrest := ih (high_of_follow hf) hs
        by_cases hb : b < 0x80
        · obtain rfl : [] = pending := Option.some.inj ((follow_of_lt hb).symm.trans hf)
          rw [hescape, unescape_escapeByte hb, hrest]
          rfl
        · have hle : 0x80 ≤ b := UInt8.not_lt.mp hb
          have hne : b ≠ backslash := by rintro rfl; exact absurd hle (by decide)
          have hplain : ¬(b = quoteByte ∨ b < 0x20) := by
            rintro (rfl | hlow)
            · exact absurd hle (by decide)
            · exact absurd (UInt8.lt_of_le_of_lt hle hlow : (0x80 : UInt8) < 0x20) (by decide)
          rw [hescape, escapeByte_of_le hle, List.singleton_append, unescape_plain hne hplain hf,
            hrest]
          rfl
    · rw [wellFormed, Bool.and_eq_true] at hs
      have hle : 0x80 ≤ b := by
        have hbounds := hs.1
        rw [within, Bool.and_eq_true, decide_eq_true_iff, decide_eq_true_iff] at hbounds
        exact UInt8.le_trans (hhigh bounds List.mem_cons_self) hbounds.1
      have hrest := ih (fun x hx ↦ hhigh x (List.mem_cons_of_mem _ hx)) hs.2
      rw [hescape, escapeByte_of_le hle, List.singleton_append, unescape_within hs.1, hrest]
      rfl

/-! ### The end of a literal -/

theorem scanQuoted_escapeByte (b : UInt8) (cs : List UInt8) :
    scanQuoted false (escapeByte b ++ cs)
      = (scanQuoted false cs).map fun (body, rest) ↦ (escapeByte b ++ body, rest) := by
  have hsimple : ∀ e : UInt8, scanQuoted false (backslash :: e :: cs)
      = (scanQuoted false cs).map fun (body, rest) ↦ (backslash :: e :: body, rest) := fun e ↦ by
    rw [scanQuoted, if_neg (by decide), if_pos rfl, scanQuoted, if_pos rfl, Option.map_map]
    rfl
  have hplain : ∀ {c : UInt8} {cs : List UInt8}, c ≠ backslash → c ≠ quoteByte →
      scanQuoted false (c :: cs)
        = (scanQuoted false cs).map fun (body, rest) ↦ (c :: body, rest) := fun hb hq ↦ by
    rw [scanQuoted, if_neg (by decide), if_neg hb, if_neg hq]
  rw [escapeByte]
  split_ifs with h₁ h₂ h₃ h₄ h₅ h₆ h₇ h₈
  · exact hsimple _
  · exact hsimple _
  · exact hsimple _
  · exact hsimple _
  · exact hsimple _
  · exact hsimple _
  · exact hsimple _
  · -- the digits of an escape are no quotes
    have hdigit : ∀ n < 16, hexDigit n ≠ backslash ∧ hexDigit n ≠ quoteByte := by decide
    have hn : b.toNat < 0x20 := UInt8.lt_iff_toNat_lt.mp h₈
    obtain ⟨hb₁, hq₁⟩ := hdigit (b.toNat / 16) (by omega)
    obtain ⟨hb₂, hq₂⟩ := hdigit (b.toNat % 16) (by omega)
    simp only [List.cons_append, List.nil_append]
    rw [scanQuoted, if_neg (by decide), if_pos rfl, scanQuoted, if_pos rfl,
      hplain (by decide) (by decide), hplain (by decide) (by decide), hplain hb₁ hq₁,
      hplain hb₂ hq₂]
    simp only [Option.map_map]
    rfl
  · exact hplain h₂ h₁

/-- A literal is scanned to its own closing quote. -/
theorem scanQuoted_escape (s rest : List UInt8) :
    scanQuoted false (escape s ++ quoteByte :: rest) = some (escape s, rest) := by
  induction s with
  | nil =>
    rw [escape, List.flatMap_nil, List.nil_append, scanQuoted, if_neg (by decide),
      if_neg (by decide), if_pos rfl]
  | cons b s ih =>
    have hescape : escape (b :: s) = escapeByte b ++ escape s := List.flatMap_cons
    rw [hescape, List.append_assoc, scanQuoted_escapeByte, ih]
    rfl

theorem length_of_scanQuoted {escaped : Bool} {cs body rest : List UInt8}
    (h : scanQuoted escaped cs = some (body, rest)) : rest.length < cs.length := by
  induction cs generalizing escaped body with
  | nil => exact absurd h (by simp [scanQuoted])
  | cons c cs ih =>
    have hmap : ∀ {escaped' : Bool},
        (scanQuoted escaped' cs).map (fun (body, rest) ↦ (c :: body, rest)) = some (body, rest) →
          rest.length < (c :: cs).length := by
      intro escaped' hmap
      obtain ⟨⟨body', rest'⟩, hscan, heq⟩ := Option.map_eq_some_iff.mp hmap
      obtain ⟨-, rfl⟩ := Prod.mk.inj heq
      exact Nat.lt_trans (ih hscan) (Nat.lt_succ_self _)
    rw [scanQuoted] at h
    split_ifs at h
    · exact hmap h
    · exact hmap h
    · obtain ⟨-, rfl⟩ := Prod.mk.inj (Option.some.inj h)
      exact Nat.lt_succ_self _
    · exact hmap h


/-! ## What is read is well-formed -/

/-- A sequence of ASCII ends no other: strings may be cut in front of an ASCII byte. -/
theorem wellFormed_append_cons {pending : Pending} (hhigh : High pending) {s rest : List UInt8}
    {c : UInt8} (hc : c < 0x80) (h : wellFormed pending (s ++ c :: rest) = true) :
    wellFormed pending s = true ∧ wellFormed [] rest = true := by
  induction s generalizing pending with
  | nil =>
    rcases pending with _ | ⟨bounds, pending⟩
    · rw [List.nil_append, wellFormed, follow_of_lt hc] at h
      exact ⟨by rw [wellFormed], h⟩
    · rw [List.nil_append, wellFormed, Bool.and_eq_true, within, Bool.and_eq_true,
        decide_eq_true_iff] at h
      have hle := UInt8.le_trans (hhigh bounds List.mem_cons_self) h.1.1
      exact absurd (UInt8.lt_of_le_of_lt hle hc) (UInt8.lt_irrefl _)
  | cons b s ih =>
    rcases pending with _ | ⟨bounds, pending⟩
    · rw [List.cons_append, wellFormed] at h
      split at h
      · exact absurd h (by simp)
      · next pending hf =>
        obtain ⟨hs, hrest⟩ := ih (high_of_follow hf) h
        refine ⟨?_, hrest⟩
        rw [wellFormed, hf]
        exact hs
    · rw [List.cons_append, wellFormed, Bool.and_eq_true] at h
      obtain ⟨hs, hrest⟩ := ih (fun x hx ↦ hhigh x (List.mem_cons_of_mem _ hx)) h.2
      refine ⟨?_, hrest⟩
      rw [wellFormed, h.1, hs]
      rfl

theorem toNat_ofNat {n : ℕ} (h : n < 256) : (UInt8.ofNat n).toNat = n := by
  rw [UInt8.toNat_ofNat']
  exact Nat.mod_eq_of_lt h

theorem within_ofNat {lo hi : UInt8} {n : ℕ} (h : n < 256) :
    within (lo, hi) (UInt8.ofNat n) = decide (lo.toNat ≤ n ∧ n ≤ hi.toNat) := by
  rw [within, Bool.decide_and]
  simp only [UInt8.le_iff_toNat_le, toNat_ofNat h]

/-- The sequence of a code point that is no surrogate is well-formed. -/
theorem wellFormed_encode {n : ℕ} (hn : n < 0x110000) (hsurrogate : ¬(0xd800 ≤ n ∧ n ≤ 0xdfff))
    (s : List UInt8) : wellFormed [] (encode n ++ s) = wellFormed [] s := by
  have htail : ∀ m, within (0x80, 0xBF) (UInt8.ofNat (0x80 + m % 64)) = true := by
    intro m
    rw [within_ofNat (by omega)]
    simp
    omega
  have htwo : ∀ k < 32, 2 ≤ k → follow (UInt8.ofNat (0xC0 + k)) = some [(0x80, 0xBF)] := by decide
  have hthree : ∀ k < 16, follow (UInt8.ofNat (0xE0 + k))
      = some [(if k = 0 then 0xA0 else 0x80, if k = 13 then 0x9F else 0xBF), (0x80, 0xBF)] := by
    decide
  have hfour : ∀ k < 5, follow (UInt8.ofNat (0xF0 + k))
      = some [(if k = 0 then 0x90 else 0x80, if k = 4 then 0x8F else 0xBF), (0x80, 0xBF),
        (0x80, 0xBF)] := by decide
  rw [encode]
  split_ifs with h₁ h₂ h₃
  · have hascii : UInt8.ofNat n < 0x80 := by
      rw [UInt8.lt_iff_toNat_lt, toNat_ofNat (by omega)]
      exact h₁
    rw [List.singleton_append, wellFormed, follow_of_lt hascii]
  · simp only [List.cons_append, List.nil_append, wellFormed, htwo (n / 64) (by omega) (by omega),
      htail, Bool.true_and]
  · -- E0 and ED bound the second byte further
    have hsecond :
        within (if n / 4096 = 0 then 0xA0 else 0x80, if n / 4096 = 13 then 0x9F else 0xBF)
          (UInt8.ofNat (0x80 + n / 64 % 64)) = true := by
      rw [within_ofNat (by omega), decide_eq_true_iff]
      constructor
      · split_ifs
        · simp
          omega
        · simp
      · split_ifs
        · simp
          omega
        · simp
          omega
    simp only [List.cons_append, List.nil_append, wellFormed, hthree (n / 4096) (by omega), hsecond,
      htail, Bool.true_and]
  · -- so do F0 and F4
    have hsecond :
        within (if n / 262144 = 0 then 0x90 else 0x80, if n / 262144 = 4 then 0x8F else 0xBF)
          (UInt8.ofNat (0x80 + n / 4096 % 64)) = true := by
      rw [within_ofNat (by omega), decide_eq_true_iff]
      constructor
      · split_ifs
        · simp
          omega
        · simp
      · split_ifs
        · simp
          omega
        · simp
          omega
    simp only [List.cons_append, List.nil_append, wellFormed, hfour (n / 262144) (by omega),
      hsecond, htail, Bool.true_and]

theorem hexValue_lt {c : UInt8} {n : ℕ} (h : hexValue c = some n) : n < 16 := by
  rw [hexValue, within, within, within] at h
  simp only [Bool.and_eq_true, decide_eq_true_iff, UInt8.le_iff_toNat_le] at h
  split_ifs at h with h₁ h₂ h₃ <;> rw [← Option.some.inj h]
  · have hle : c.toNat ≤ 0x39 := h₁.2
    omega
  · have hle : c.toNat ≤ 0x66 := h₂.2
    omega
  · have hle : c.toNat ≤ 0x46 := h₃.2
    omega

theorem hex4_lt {text rest : List UInt8} {n : ℕ} (h : hex4 text = some (n, rest)) :
    n < 0x10000 := by
  rw [hex4.eq_def] at h
  split at h
  · simp only [Option.bind_eq_bind, Option.bind_eq_some_iff, Option.pure_def, Option.some.injEq,
      Prod.mk.injEq] at h
    obtain ⟨a, ha, b, hb, c, hc, d, hd, rfl, -⟩ := h
    have ha := hexValue_lt ha
    have hb := hexValue_lt hb
    have hc := hexValue_lt hc
    have hd := hexValue_lt hd
    omega
  · exact absurd h (by simp)

/-- An escape stands for a code point, never for a surrogate. -/
theorem codePoint_scalar {text rest : List UInt8} {n : ℕ} (h : codePoint text = some (n, rest)) :
    n < 0x110000 ∧ ¬(0xd800 ≤ n ∧ n ≤ 0xdfff) := by
  rw [codePoint, Option.bind_eq_bind, Option.bind_eq_some_iff] at h
  obtain ⟨⟨m, text'⟩, hfirst, h⟩ := h
  have hm := hex4_lt hfirst
  dsimp only at h
  split_ifs at h
  · split at h
    · split_ifs at h
      rw [Option.bind_eq_some_iff] at h
      obtain ⟨⟨m', text''⟩, -, h⟩ := h
      dsimp only at h
      split_ifs at h
      obtain ⟨rfl, -⟩ := Prod.mk.inj (Option.some.inj h)
      omega
    · exact absurd h (by simp)
  · obtain ⟨rfl, -⟩ := Prod.mk.inj (Option.some.inj h)
    omega

theorem simpleEscape_lt {e c : UInt8} (h : simpleEscape e = some c) : c < 0x80 := by
  rw [simpleEscape] at h
  split_ifs at h <;> rw [← Option.some.inj h] <;> decide

/-- Whatever reads as a string reads as a well-formed one. -/
theorem wellFormed_of_unescape {pending : Pending} {text s : List UInt8}
    (h : unescape pending text = some s) : wellFormed pending s = true := by
  induction hlength : text.length using Nat.strongRecOn generalizing pending text s with
  | _ length ih =>
    subst hlength
    rw [unescape.eq_def] at h
    rcases pending with _ | ⟨bounds, pending⟩
    · rcases text with _ | ⟨b, bs⟩
      · rw [← Option.some.inj h, wellFormed]
      · dsimp only at h
        split_ifs at h with hb hplain
        · rcases bs with _ | ⟨e, bs⟩
          · exact absurd h (by simp)
          · dsimp only at h
            split_ifs at h
            · split at h
              · exact absurd h (by simp)
              · next n rest hcode =>
                obtain ⟨s', hs', rfl⟩ := Option.map_eq_some_iff.mp h
                obtain ⟨hn, hsurrogate⟩ := codePoint_scalar hcode
                have hlt := length_of_codePoint hcode
                rw [wellFormed_encode hn hsurrogate]
                exact ih _ (by simp only [List.length_cons]; omega) hs' rfl
            · split at h
              · exact absurd h (by simp)
              · next c hc =>
                obtain ⟨s', hs', rfl⟩ := Option.map_eq_some_iff.mp h
                rw [wellFormed, follow_of_lt (simpleEscape_lt hc)]
                exact ih _ (by simp only [List.length_cons]; omega) hs' rfl
        · split at h
          · exact absurd h (by simp)
          · next pending hf =>
            obtain ⟨s', hs', rfl⟩ := Option.map_eq_some_iff.mp h
            rw [wellFormed, hf]
            exact ih _ (by simp only [List.length_cons]; omega) hs' rfl
    · rcases text with _ | ⟨b, bs⟩
      · exact absurd h (by simp)
      · dsimp only at h
        split_ifs at h with hwithin
        obtain ⟨s', hs', rfl⟩ := Option.map_eq_some_iff.mp h
        rw [wellFormed, hwithin, Bool.true_and]
        exact ih _ (by simp only [List.length_cons]; omega) hs' rfl

end JsonBytes
