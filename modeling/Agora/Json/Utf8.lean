import Agora.Json.Bytes
import Agora.Json.Text

/-!
# The bytes of a text

Two readers of JSON literals, one over characters and one over bytes, meet on texts: what the
reader of bytes finds in the sequences of a text are the sequences of what the reader of characters
finds in the text. A byte of a longer sequence lies above ASCII, so it is mistaken for none of the
bytes that the grammar names.

**Main results.** Scanning (`scanQuoted_utf8`), reading (`unescape_utf8`) and writing
(`escape_utf8`) literals.
-/

namespace JsonBytes

/-- The sequences of the characters of a text. -/
def utf8 (cs : List Char) : List UInt8 := cs.flatMap String.utf8EncodeChar

theorem utf8_cons (c : Char) (cs : List Char) :
    utf8 (c :: cs) = String.utf8EncodeChar c ++ utf8 cs := List.flatMap_cons

theorem utf8_append (cs ds : List Char) : utf8 (cs ++ ds) = utf8 cs ++ utf8 ds :=
  List.flatMap_append

/-! ## The sequence of a character -/

theorem toNat_lt (c : Char) : c.toNat < 0x110000 ∧ ¬(0xd800 ≤ c.toNat ∧ c.toNat ≤ 0xdfff) := by
  have hvalid : c.toNat < 0xd800 ∨ 0xdfff < c.toNat ∧ c.toNat < 0x110000 := c.valid
  omega

theorem utf8EncodeChar_eq (c : Char) : String.utf8EncodeChar c = encode c.toNat := by
  have hlt := (toNat_lt c).1
  have hval : c.val.toNat = c.toNat := rfl
  have hsmall : c.toNat ≤ 0x7f ↔ c.toNat < 0x80 := Nat.lt_succ_iff.symm
  have htwo : c.toNat ≤ 0x7ff ↔ c.toNat < 0x800 := Nat.lt_succ_iff.symm
  have hthree : c.toNat ≤ 0xffff ↔ c.toNat < 0x10000 := Nat.lt_succ_iff.symm
  change (if c.toNat ≤ 0x7f then _ else if c.toNat ≤ 0x7ff then _ else
    if c.toNat ≤ 0xffff then _ else _) = _
  rw [encode]
  simp only [hsmall, htwo, hthree, hval]
  split_ifs with h₁ h₂ h₃
  · rfl
  · rw [Nat.mod_eq_of_lt (show c.toNat / 64 < 0x20 by omega), Nat.add_comm _ 0xc0,
      Nat.add_comm _ 0x80]
  · rw [Nat.mod_eq_of_lt (show c.toNat / 4096 < 0x10 by omega), Nat.add_comm _ 0xe0,
      Nat.add_comm (c.toNat / 64 % 0x40) 0x80, Nat.add_comm (c.toNat % 0x40) 0x80]
  · rw [Nat.mod_eq_of_lt (show c.toNat / 262144 < 0x08 by omega), Nat.add_comm _ 0xf0,
      Nat.add_comm (c.toNat / 4096 % 0x40) 0x80, Nat.add_comm (c.toNat / 64 % 0x40) 0x80,
      Nat.add_comm (c.toNat % 0x40) 0x80]

theorem utf8EncodeChar_ascii {c : Char} (h : c.toNat < 0x80) :
    String.utf8EncodeChar c = [UInt8.ofNat c.toNat] := by
  rw [utf8EncodeChar_eq, encode, if_pos h]

theorem ofNat_ne {c d : Char} (hc : c.toNat < 0x80) (hd : d.toNat < 0x80) (h : c ≠ d) :
    UInt8.ofNat c.toNat ≠ UInt8.ofNat d.toNat := fun heq ↦ h <| by
  have heq := congrArg UInt8.toNat heq
  rw [toNat_ofNat (by omega), toNat_ofNat (by omega)] at heq
  rw [← Char.ofNat_toNat c, heq, Char.ofNat_toNat]

/-- No byte of a longer sequence is one of ASCII. -/
theorem le_of_mem_utf8EncodeChar {c : Char} (h : 0x80 ≤ c.toNat) :
    ∀ b ∈ String.utf8EncodeChar c, 0x80 ≤ b := by
  have hlt := (toNat_lt c).1
  have hbyte : ∀ n, 0x80 ≤ n → n < 0x100 → (0x80 : UInt8) ≤ UInt8.ofNat n := fun n hn hlt ↦ by
    rw [UInt8.le_iff_toNat_le, toNat_ofNat hlt]
    exact hn
  intro b hb
  rw [utf8EncodeChar_eq, encode, if_neg (by omega)] at hb
  split_ifs at hb with h₂ h₃
  · simp only [List.mem_cons, List.not_mem_nil, or_false] at hb
    rcases hb with rfl | rfl <;> exact hbyte _ (by omega) (by omega)
  · simp only [List.mem_cons, List.not_mem_nil, or_false] at hb
    rcases hb with rfl | rfl | rfl <;> exact hbyte _ (by omega) (by omega)
  · simp only [List.mem_cons, List.not_mem_nil, or_false] at hb
    rcases hb with rfl | rfl | rfl | rfl <;> exact hbyte _ (by omega) (by omega)

theorem exists_utf8EncodeChar (c : Char) :
    ∃ b bs, String.utf8EncodeChar c = b :: bs ∧ (c.toNat < 0x80 ∨ 0x80 ≤ b) := by
  obtain ⟨b, bs, hbs⟩ := List.exists_cons_of_ne_nil (@String.utf8EncodeChar_ne_nil c)
  refine ⟨b, bs, hbs, ?_⟩
  rcases Nat.lt_or_ge c.toNat 0x80 with h | h
  · exact Or.inl h
  · exact Or.inr (le_of_mem_utf8EncodeChar h b (by rw [hbs]; exact List.mem_cons_self))

theorem wellFormed_utf8 (cs : List Char) : wellFormed [] (utf8 cs) = true := by
  induction cs with
  | nil => rfl
  | cons c cs ih =>
    obtain ⟨hlt, hsurrogate⟩ := toNat_lt c
    rw [utf8_cons, utf8EncodeChar_eq, wellFormed_encode hlt hsurrogate]
    exact ih

/-! ## Predicates on bytes and on characters -/

/-- The predicate holds of every byte of a character's sequence just when it does of the
character. -/
def Mirrors (p : UInt8 → Bool) (q : Char → Bool) : Prop :=
  ∀ c, ∀ b ∈ String.utf8EncodeChar c, p b = q c

/-- Above ASCII, a predicate need only be constant. -/
theorem mirrors_of_ascii {p : UInt8 → Bool} {q : Char → Bool} {v : Bool}
    (hascii : ∀ n < 0x80, p (UInt8.ofNat n) = q (Char.ofNat n)) (hbyte : ∀ b, 0x80 ≤ b → p b = v)
    (hchar : ∀ c : Char, 0x80 ≤ c.toNat → q c = v) : Mirrors p q := by
  intro c b hb
  rcases Nat.lt_or_ge c.toNat 0x80 with h | h
  · rw [utf8EncodeChar_ascii h, List.mem_singleton] at hb
    rw [hb, hascii _ h, Char.ofNat_toNat]
  · rw [hbyte b (le_of_mem_utf8EncodeChar h b hb), hchar c h]

theorem takeWhile_utf8 {p : UInt8 → Bool} {q : Char → Bool} (h : Mirrors p q) (cs : List Char) :
    (utf8 cs).takeWhile p = utf8 (cs.takeWhile q) ∧
      (utf8 cs).dropWhile p = utf8 (cs.dropWhile q) := by
  induction cs with
  | nil => exact ⟨rfl, rfl⟩
  | cons c cs ih =>
    rw [utf8_cons]
    rcases hq : q c with _ | _
    · obtain ⟨b, bs, hbs, -⟩ := exists_utf8EncodeChar c
      have hb : ¬p b = true := by
        rw [h c b (by rw [hbs]; exact List.mem_cons_self), hq]
        exact Bool.false_ne_true
      have hc : ¬q c = true := by rw [hq]; exact Bool.false_ne_true
      rw [List.takeWhile_cons_of_neg hc, List.dropWhile_cons_of_neg hc, utf8_cons, hbs,
        List.cons_append, List.takeWhile_cons_of_neg hb, List.dropWhile_cons_of_neg hb]
      exact ⟨rfl, rfl⟩
    · have hall : ∀ b ∈ String.utf8EncodeChar c, p b = true := fun b hb ↦ (h c b hb).trans hq
      rw [List.takeWhile_cons_of_pos hq, List.dropWhile_cons_of_pos hq,
        List.takeWhile_append_of_pos hall, List.dropWhile_append_of_pos hall, ih.1, utf8_cons]
      exact ⟨rfl, ih.2⟩

theorem any_utf8 {p : UInt8 → Bool} {q : Char → Bool} (h : Mirrors p q) (cs : List Char) :
    (utf8 cs).any p = cs.any q := by
  induction cs with
  | nil => rfl
  | cons c cs ih =>
    have hone : (String.utf8EncodeChar c).any p = q c := by
      obtain ⟨b, bs, hbs, -⟩ := exists_utf8EncodeChar c
      rcases hq : q c with _ | _
      · rw [List.any_eq_false]
        intro d hd
        rw [h c d hd, hq]
        exact Bool.false_ne_true
      · rw [List.any_eq_true]
        have hmem : b ∈ String.utf8EncodeChar c := by rw [hbs]; exact List.mem_cons_self
        exact ⟨b, hmem, (h c b hmem).trans hq⟩
    rw [utf8_cons, List.any_append, hone, ih, List.any_cons]

/-- A text begins with a character of ASCII just when its bytes do. -/
theorem head?_utf8 {d : Char} (hd : d.toNat < 0x80) (cs : List Char) :
    (utf8 cs).head? = some (UInt8.ofNat d.toNat) ↔ cs.head? = some d := by
  rcases cs with _ | ⟨c, cs⟩
  · exact ⟨fun h ↦ absurd h (by simp [utf8]), fun h ↦ absurd h (by simp)⟩
  · obtain ⟨b, bs, hbs, hb⟩ := exists_utf8EncodeChar c
    rw [utf8_cons, hbs, List.cons_append, List.head?_cons, List.head?_cons, Option.some.injEq,
      Option.some.injEq]
    constructor
    · rintro rfl
      rcases Nat.lt_or_ge c.toNat 0x80 with hc | hc
      · rw [utf8EncodeChar_ascii hc] at hbs
        exact not_not.mp fun hne ↦ ofNat_ne hc hd hne (List.cons.inj hbs).1
      · have hle := le_of_mem_utf8EncodeChar hc _ (by rw [hbs]; exact List.mem_cons_self)
        rw [UInt8.le_iff_toNat_le, toNat_ofNat (by omega)] at hle
        exact absurd (show 0x80 ≤ d.toNat from hle) (by omega)
    · rintro rfl
      rw [utf8EncodeChar_ascii hd] at hbs
      exact (List.cons.inj hbs).1.symm

/-- What begins a character's sequence begins no other character of ASCII. -/
theorem ne_of_utf8EncodeChar {c d : Char} {b : UInt8} {bs : List UInt8}
    (hbs : String.utf8EncodeChar c = b :: bs) (hd : d.toNat < 0x80) (h : c ≠ d) :
    b ≠ UInt8.ofNat d.toNat := by
  rintro rfl
  have hhead : (utf8 [c]).head? = some (UInt8.ofNat d.toNat) := by
    rw [utf8_cons, hbs]
    rfl
  exact h (Option.some.inj ((head?_utf8 hd [c]).mp hhead))

theorem utf8_cons_ascii {c : Char} (h : c.toNat < 0x80) (cs : List Char) :
    utf8 (c :: cs) = UInt8.ofNat c.toNat :: utf8 cs := by
  rw [utf8_cons, utf8EncodeChar_ascii h, List.singleton_append]

theorem tail_utf8 {d : Char} (hd : d.toNat < 0x80) {cs : List Char} (h : cs.head? = some d) :
    (utf8 cs).tail = utf8 cs.tail := by
  obtain ⟨cs, rfl⟩ := List.head?_eq_some_iff.mp h
  rw [utf8_cons_ascii hd, List.tail_cons, List.tail_cons]

/-! ## Scanning a literal -/

theorem quote_ascii : JsonText.quoteChar.toNat < 0x80 := by decide

theorem backslash_ascii : JsonText.backslash.toNat < 0x80 := by decide

theorem utf8_quote (cs : List Char) : utf8 (JsonText.quoteChar :: cs) = quoteByte :: utf8 cs :=
  utf8_cons_ascii quote_ascii cs

theorem utf8_backslash (cs : List Char) :
    utf8 (JsonText.backslash :: cs) = backslash :: utf8 cs := utf8_cons_ascii backslash_ascii cs

theorem scanQuoted_high {bs : List UInt8} (h : ∀ b ∈ bs, 0x80 ≤ b) (rest : List UInt8) :
    scanQuoted false (bs ++ rest)
      = (scanQuoted false rest).map fun (body, rest) ↦ (bs ++ body, rest) := by
  induction bs with
  | nil =>
    rw [List.nil_append]
    rcases scanQuoted false rest with _ | ⟨body, rest⟩
    · rfl
    · rfl
  | cons b bs ih =>
    obtain ⟨hb, hbs⟩ := List.forall_mem_cons.mp h
    have hbackslash : b ≠ backslash := by rintro rfl; exact absurd hb (by decide)
    have hquote : b ≠ quoteByte := by rintro rfl; exact absurd hb (by decide)
    rw [List.cons_append, scanQuoted, if_neg (by decide), if_neg hbackslash, if_neg hquote,
      ih hbs, Option.map_map]
    rfl

/-- A character that is neither a quote nor a backslash is passed over, and so is any character
behind a backslash. -/
theorem scanQuoted_char {c : Char} {escaped : Bool}
    (h : escaped = true ∨ c ≠ JsonText.backslash ∧ c ≠ JsonText.quoteChar) (rest : List UInt8) :
    scanQuoted escaped (String.utf8EncodeChar c ++ rest)
      = (scanQuoted false rest).map fun (body, rest) ↦
          (String.utf8EncodeChar c ++ body, rest) := by
  rcases Nat.lt_or_ge c.toNat 0x80 with hc | hc
  · rw [utf8EncodeChar_ascii hc, List.singleton_append, scanQuoted]
    rcases h with rfl | ⟨hbackslash, hquote⟩
    · rw [if_pos rfl]
      rfl
    · have hb : UInt8.ofNat c.toNat ≠ backslash := ofNat_ne hc backslash_ascii hbackslash
      have hq : UInt8.ofNat c.toNat ≠ quoteByte := ofNat_ne hc quote_ascii hquote
      rw [if_neg hb, if_neg hq, ite_self]
      rfl
  · rcases escaped with _ | _
    · exact scanQuoted_high (le_of_mem_utf8EncodeChar hc) rest
    · obtain ⟨b, bs, hbs, -⟩ := exists_utf8EncodeChar c
      have hhigh : ∀ x ∈ bs, 0x80 ≤ x := fun x hx ↦
        le_of_mem_utf8EncodeChar hc x (by rw [hbs]; exact List.mem_cons_of_mem _ hx)
      rw [hbs, List.cons_append, scanQuoted, if_pos rfl, scanQuoted_high hhigh, Option.map_map]
      rfl

/-- **The two scanners find the same literal.** -/
theorem scanQuoted_utf8 (cs : List Char) :
    scanQuoted false (utf8 cs)
      = (JsonText.scanQuoted cs).map fun (body, rest) ↦ (utf8 body, utf8 rest) := by
  have hpass : ∀ (c : Char) (r : Option (List Char × List Char)),
      ((r.map fun (body, rest) ↦ (utf8 body, utf8 rest)).map fun (body, rest) ↦
          (String.utf8EncodeChar c ++ body, rest))
        = (r.map fun (body, rest) ↦ (c :: body, rest)).map fun (body, rest) ↦
          (utf8 body, utf8 rest) := fun c r ↦ by
    rw [Option.map_map, Option.map_map]
    exact congrArg (Option.map · r) (funext fun x ↦ by
      simp only [Function.comp_apply, utf8_cons])
  fun_induction JsonText.scanQuoted cs with
  | case1 => rfl
  | case2 => rfl
  | case3 e cs ih =>
    rw [utf8_backslash, scanQuoted, if_neg (by decide), if_pos rfl, utf8_cons,
      scanQuoted_char (Or.inl rfl), ih, hpass]
    rcases JsonText.scanQuoted cs with _ | _
    · rfl
    · rfl
  | case4 cs =>
    rw [utf8_quote, scanQuoted, if_neg (by decide), if_neg (by decide), if_pos rfl]
    rfl
  | case5 c cs hbackslash hquote ih =>
    rw [utf8_cons, scanQuoted_char (Or.inr ⟨hbackslash, hquote⟩), ih, hpass]

/-! ## The code point of an escape -/

section ReadCodePoint

variable {τ σ : Type} {digit : τ → Option (ℕ × τ)} {digit' : σ → Option (ℕ × σ)}
  {behindU : τ → Option τ} {behindU' : σ → Option σ} {f : σ → τ}

def readHex4 (digit : τ → Option (ℕ × τ)) (text : τ) : Option (ℕ × τ) := do
  let (a, text) ← digit text
  let (b, text) ← digit text
  let (c, text) ← digit text
  let (d, text) ← digit text
  return (((a * 16 + b) * 16 + c) * 16 + d, text)

/-- The code point of an escape, over any kind of text that has a reader of hexadecimal digits and
one of `\u`. -/
def readCodePoint (digit : τ → Option (ℕ × τ)) (behindU : τ → Option τ) (text : τ) :
    Option (ℕ × τ) := do
  let (n, text) ← readHex4 digit text
  if 0xd800 ≤ n ∧ n ≤ 0xdbff then do
    let text ← behindU text
    let (m, text) ← readHex4 digit text
    if 0xdc00 ≤ m ∧ m ≤ 0xdfff then some (0x10000 + (n - 0xd800) * 0x400 + (m - 0xdc00), text)
    else none
  else if 0xdc00 ≤ n ∧ n ≤ 0xdfff then none
  else some (n, text)

theorem readHex4_map (hdigit : ∀ t, digit (f t) = (digit' t).map (Prod.map id f)) (t : σ) :
    readHex4 digit (f t) = (readHex4 digit' t).map (Prod.map id f) := by
  simp only [readHex4, Option.bind_eq_bind, Option.pure_def, hdigit]
  rcases digit' t with _ | ⟨a, t₁⟩
  · rfl
  simp only [Option.map_some, Option.bind_some, Prod.map_apply, id_eq, hdigit]
  rcases digit' t₁ with _ | ⟨b, t₂⟩
  · rfl
  simp only [Option.map_some, Option.bind_some, Prod.map_apply, id_eq, hdigit]
  rcases digit' t₂ with _ | ⟨c, t₃⟩
  · rfl
  simp only [Option.map_some, Option.bind_some, Prod.map_apply, id_eq, hdigit]
  rcases digit' t₃ with _ | ⟨d, t₄⟩
  · rfl
  · rfl

/-- Readers that meet along a translation read the same code point. -/
theorem readCodePoint_map (hdigit : ∀ t, digit (f t) = (digit' t).map (Prod.map id f))
    (hbehind : ∀ t, behindU (f t) = (behindU' t).map f) (t : σ) :
    readCodePoint digit behindU (f t)
      = (readCodePoint digit' behindU' t).map (Prod.map id f) := by
  rw [readCodePoint, readCodePoint, readHex4_map hdigit]
  rcases readHex4 digit' t with _ | ⟨n, t₁⟩
  · rfl
  simp only [Option.map_some, Option.bind_eq_bind, Option.bind_some, Prod.map_apply, id_eq, hbehind]
  split_ifs
  · rcases behindU' t₁ with _ | t₂
    · rfl
    simp only [Option.map_some, Option.bind_some, readHex4_map hdigit]
    rcases readHex4 digit' t₂ with _ | ⟨m, t₃⟩
    · rfl
    simp only [Option.map_some, Option.bind_some, Prod.map_apply, id_eq]
    split_ifs
    · rw [Option.map_some, Prod.map_apply, id_eq]
    · rfl
  · rfl
  · rfl

end ReadCodePoint

def digit : List UInt8 → Option (ℕ × List UInt8)
  | [] => none
  | b :: bs => (hexValue b).map fun n ↦ (n, bs)

def behindU : List UInt8 → Option (List UInt8)
  | b :: u :: bs => if b = backslash ∧ u = 'u'.toUInt8 then some bs else none
  | _ => none

theorem behindU_eq (bs : List UInt8) :
    behindU bs = if bs.head? = some backslash ∧ bs.tail.head? = some 'u'.toUInt8
      then some bs.tail.tail else none := by
  rcases bs with _ | ⟨b, _ | ⟨u, bs⟩⟩
  · rfl
  · simp [behindU]
  · simp [behindU]

theorem hex4_eq (text : List UInt8) : hex4 text = readHex4 digit text := by
  rcases text with _ | ⟨a, _ | ⟨b, _ | ⟨c, _ | ⟨d, text⟩⟩⟩⟩
  · rfl
  · simp [hex4, readHex4, digit, Option.bind_map]
  · simp [hex4, readHex4, digit, Option.bind_map]
  · simp [hex4, readHex4, digit, Option.bind_map]
  · simp [hex4, readHex4, digit, Option.bind_map]

theorem codePoint_eq (text : List UInt8) : codePoint text = readCodePoint digit behindU text := by
  rw [codePoint, readCodePoint, hex4_eq]
  rcases readHex4 digit text with _ | ⟨n, text⟩
  · rfl
  simp only [Option.bind_eq_bind, Option.bind_some]
  split_ifs with hhigh hlow
  · rcases text with _ | ⟨b, _ | ⟨u, text⟩⟩
    · rfl
    · rfl
    · simp only [behindU]
      split_ifs with hu
      · rw [Option.bind_some, hex4_eq]
      · rfl
  · rfl
  · rfl

end JsonBytes

namespace JsonText

def digit : List Char → Option (ℕ × List Char)
  | [] => none
  | c :: cs => (hexValue c).map fun n ↦ (n, cs)

def behindU : List Char → Option (List Char)
  | c :: u :: cs => if c = backslash ∧ u = 'u' then some cs else none
  | _ => none

theorem behindU_eq (cs : List Char) :
    behindU cs = if cs.head? = some backslash ∧ cs.tail.head? = some 'u'
      then some cs.tail.tail else none := by
  rcases cs with _ | ⟨c, _ | ⟨u, cs⟩⟩
  · rfl
  · simp [behindU]
  · simp [behindU]

theorem readHex4_cons (a b c d : Char) (cs : List Char) :
    JsonBytes.readHex4 digit (a :: b :: c :: d :: cs) = (hex4 a b c d).map fun n ↦ (n, cs) := by
  simp [hex4, JsonBytes.readHex4, digit, Option.bind_map, Option.map_bind]

theorem readHex4_short {cs : List Char}
    (h : ∀ a b c d rest, cs = a :: b :: c :: d :: rest → False) :
    JsonBytes.readHex4 digit cs = none := by
  rcases cs with _ | ⟨a, _ | ⟨b, _ | ⟨c, _ | ⟨d, cs⟩⟩⟩⟩
  · rfl
  · simp [JsonBytes.readHex4, digit, Option.bind_map]
  · simp [JsonBytes.readHex4, digit, Option.bind_map]
  · simp [JsonBytes.readHex4, digit, Option.bind_map]
  · exact (h a b c d cs rfl).elim

theorem eq_of_behindU {cs text : List Char} (h : behindU cs = some text) :
    cs = backslash :: 'u' :: text := by
  rw [behindU_eq] at h
  split_ifs at h with hhead
  obtain ⟨cs, rfl⟩ := List.head?_eq_some_iff.mp hhead.1
  obtain ⟨cs, rfl⟩ := List.head?_eq_some_iff.mp hhead.2
  rw [← Option.some.inj h, List.tail_cons, List.tail_cons]

theorem unescape_other {e : Char} (he : e ≠ 'u') (cs : List Char) :
    unescape (backslash :: e :: cs)
      = (simpleEscape e).bind fun c ↦ (unescape cs).map (c :: ·) := by
  rw [unescape.eq_def]
  simp only [if_true]
  split
  · next h => exact absurd (List.cons.inj h).1 he
  · next h =>
    obtain ⟨rfl, rfl⟩ := List.cons.inj h
    rcases simpleEscape e with _ | c
    · rfl
    · rfl
  · next h => simp at h

theorem unescape_u (cs : List Char) :
    unescape (backslash :: 'u' :: cs)
      = (JsonBytes.readCodePoint digit behindU cs).bind fun (n, rest) ↦
          (unescape rest).map (Char.ofNat n :: ·) := by
  rw [unescape.eq_def]
  simp only [if_true]
  split
  · next a b d e cs' h =>
    obtain rfl := (List.cons.inj h).2
    rw [JsonBytes.readCodePoint, readHex4_cons]
    rcases hex4 a b d e with _ | n
    · rfl
    simp only [Option.map_some, Option.bind_eq_bind, Option.bind_some]
    split_ifs with hhigh hlow
    · -- the escape of a low surrogate must follow
      split
      · next c' a' b' d' e' cs =>
        simp only [behindU]
        rcases Decidable.em (c' = backslash) with hc | hc
        · rw [if_pos hc, if_pos ⟨hc, trivial⟩, Option.bind_some, readHex4_cons]
          rcases hex4 a' b' d' e' with _ | m
          · rfl
          simp only [Option.map_some, Option.bind_some]
          split_ifs
          · rfl
          · rfl
        · rw [if_neg hc, if_neg fun h ↦ hc h.1]
          rfl
      · next hother =>
        rcases hbehind : behindU cs' with _ | text
        · rfl
        · have hcs := eq_of_behindU hbehind
          rw [Option.bind_some, readHex4_short fun a b c d rest htext ↦
            hother backslash a b c d rest (by rw [hcs, htext])]
          rfl
    · rfl
    · rfl
  · next e cs' hshort h =>
    obtain ⟨rfl, rfl⟩ := List.cons.inj h
    rw [JsonBytes.readCodePoint, readHex4_short fun a b c d rest hcs ↦
      hshort a b c d rest rfl hcs]
    rfl
  · next h => simp at h

end JsonText

namespace JsonBytes

/-! ## Reading a literal -/

theorem hexValue_utf8 {c : Char} {b : UInt8} (h : b ∈ String.utf8EncodeChar c) :
    hexValue b = JsonText.hexValue c := by
  rcases Nat.lt_or_ge c.toNat 0x80 with hc | hc
  · have hascii : ∀ n < 0x80, hexValue (UInt8.ofNat n) = JsonText.hexValue (Char.ofNat n) := by
      decide
    rw [utf8EncodeChar_ascii hc, List.mem_singleton] at h
    rw [h, hascii _ hc, Char.ofNat_toNat]
  · have hb := UInt8.le_iff_toNat_le.mp (le_of_mem_utf8EncodeChar hc b h)
    have hle : 0x80 ≤ b.toNat := hb
    have hout : ∀ lo hi : UInt8, hi.toNat < 0x80 → ¬within (lo, hi) b = true := by
      intro lo hi hhi hwithin
      rw [within, Bool.and_eq_true, decide_eq_true_iff, decide_eq_true_iff,
        UInt8.le_iff_toNat_le, UInt8.le_iff_toNat_le] at hwithin
      have hle' : b.toNat ≤ hi.toNat := hwithin.2
      omega
    rw [hexValue, JsonText.hexValue, if_neg (hout _ _ (by decide)), if_neg (hout _ _ (by decide)),
      if_neg (hout _ _ (by decide)), if_neg (by omega), if_neg (by omega), if_neg (by omega)]

theorem digit_utf8 (cs : List Char) :
    digit (utf8 cs) = (JsonText.digit cs).map (Prod.map id utf8) := by
  rcases cs with _ | ⟨c, cs⟩
  · rfl
  · obtain ⟨b, bs, hbs, hb⟩ := exists_utf8EncodeChar c
    have hvalue : hexValue b = JsonText.hexValue c :=
      hexValue_utf8 (by rw [hbs]; exact List.mem_cons_self)
    rw [utf8_cons, hbs, List.cons_append, digit, JsonText.digit, hvalue, Option.map_map]
    rcases hc : JsonText.hexValue c with _ | n
    · rfl
    · -- a digit is a character of ASCII
      have hascii : c.toNat < 0x80 := by
        rw [JsonText.hexValue] at hc
        split_ifs at hc <;> omega
      rw [utf8EncodeChar_ascii hascii] at hbs
      rw [← (List.cons.inj hbs).2, List.nil_append]
      rfl

theorem behindU_utf8 (cs : List Char) : behindU (utf8 cs) = (JsonText.behindU cs).map utf8 := by
  have hbackslash := head?_utf8 backslash_ascii cs
  have hu : 'u'.toNat < 0x80 := by decide
  rw [behindU_eq, JsonText.behindU_eq]
  rcases Decidable.em (cs.head? = some JsonText.backslash) with hhead | hhead
  · rw [tail_utf8 backslash_ascii hhead]
    rcases Decidable.em (cs.tail.head? = some 'u') with hnext | hnext
    · rw [if_pos ⟨hbackslash.mpr hhead, (head?_utf8 hu cs.tail).mpr hnext⟩,
        if_pos ⟨hhead, hnext⟩, tail_utf8 hu hnext]
      rfl
    · rw [if_neg fun h ↦ hnext ((head?_utf8 hu cs.tail).mp h.2), if_neg fun h ↦ hnext h.2]
      rfl
  · rw [if_neg fun h ↦ hhead (hbackslash.mp h.1), if_neg fun h ↦ hhead h.1]
    rfl

/-- Where the sequences of some bytes are complete, they are read as they stand. -/
theorem unescape_high {bs : List UInt8} {pending : Pending} (hhigh : ∀ b ∈ bs, 0x80 ≤ b)
    (hbs : wellFormed pending bs = true) (rest : List UInt8) :
    unescape pending (bs ++ rest) = (unescape [] rest).map (bs ++ ·) := by
  induction bs generalizing pending with
  | nil =>
    rcases pending with _ | ⟨bounds, pending⟩
    · exact (Option.map_id' ..).symm
    · exact absurd hbs (by simp [wellFormed])
  | cons b bs ih =>
    obtain ⟨hb, hrest⟩ := List.forall_mem_cons.mp hhigh
    rw [List.cons_append]
    rcases pending with _ | ⟨bounds, pending⟩
    · rw [wellFormed] at hbs
      split at hbs
      · exact absurd hbs (by simp)
      · next pending hfollow =>
        have hne : b ≠ backslash := by rintro rfl; exact absurd hb (by decide)
        have hplain : ¬(b = quoteByte ∨ b < 0x20) := by
          rintro (rfl | hlow)
          · exact absurd hb (by decide)
          · exact absurd (UInt8.lt_of_le_of_lt hb hlow : (0x80 : UInt8) < 0x20) (by decide)
        rw [unescape_plain hne hplain hfollow, ih hrest hbs, Option.map_map]
        rfl
    · rw [wellFormed, Bool.and_eq_true] at hbs
      rw [unescape_within hbs.1, ih hrest hbs.2, Option.map_map]
      rfl

theorem unescape_other {e : UInt8} (he : e ≠ 'u'.toUInt8) (bs : List UInt8) :
    unescape [] (backslash :: e :: bs)
      = (simpleEscape e).bind fun c ↦ (unescape [] bs).map (c :: ·) := by
  rcases hc : simpleEscape e with _ | c
  · rw [unescape, if_pos rfl]
    dsimp only
    rw [if_neg he, hc]
    rfl
  · exact unescape_simple he hc bs

theorem unescape_u (bs : List UInt8) :
    unescape [] (backslash :: 'u'.toUInt8 :: bs)
      = (readCodePoint digit behindU bs).bind fun (n, rest) ↦
          (unescape [] rest).map (encode n ++ ·) := by
  rw [← codePoint_eq]
  rcases hcode : codePoint bs with _ | ⟨n, rest⟩
  · rw [unescape.eq_def]
    dsimp only
    rw [if_pos rfl, if_pos rfl]
    split
    · rfl
    · next hsome => exact absurd (hcode.symm.trans hsome) (by simp)
  · exact unescape_code hcode

theorem simpleEscape_utf8 {e : Char} {b : UInt8} (h : b ∈ String.utf8EncodeChar e) :
    simpleEscape b = (JsonText.simpleEscape e).map fun c ↦ UInt8.ofNat c.toNat := by
  rcases Nat.lt_or_ge e.toNat 0x80 with he | he
  · have hascii : ∀ n < 0x80, simpleEscape (UInt8.ofNat n)
        = (JsonText.simpleEscape (Char.ofNat n)).map fun c ↦ UInt8.ofNat c.toNat := by decide
    rw [utf8EncodeChar_ascii he, List.mem_singleton] at h
    rw [h, hascii _ he, Char.ofNat_toNat]
  · have hb : ∀ d : UInt8, d < 0x80 → b ≠ d := by
      rintro d hd rfl
      exact absurd (UInt8.lt_of_le_of_lt (le_of_mem_utf8EncodeChar he b h) hd) (UInt8.lt_irrefl _)
    have hc : ∀ d : Char, d.toNat < 0x80 → e ≠ d := by
      rintro d hd rfl
      omega
    rw [simpleEscape, if_neg (hb _ (by decide)), if_neg (hb _ (by decide)),
      if_neg (hb _ (by decide)), if_neg (hb _ (by decide)), if_neg (hb _ (by decide)),
      if_neg (hb _ (by decide)), if_neg (hb _ (by decide)), if_neg (hb _ (by decide)),
      JsonText.simpleEscape, if_neg (hc _ (by decide)), if_neg (hc _ (by decide)),
      if_neg (hc _ (by decide)), if_neg (hc _ (by decide)), if_neg (hc _ (by decide)),
      if_neg (hc _ (by decide)), if_neg (hc _ (by decide)), if_neg (hc _ (by decide))]
    rfl

theorem simpleEscape_ascii {e c : Char} (h : JsonText.simpleEscape e = some c) :
    e.toNat < 0x80 ∧ c.toNat < 0x80 := by
  rw [JsonText.simpleEscape] at h
  split_ifs at h with h₁ h₂ h₃ h₄ h₅ h₆ h₇ h₈
  iterate 8
    rw [← Option.some.inj h]
    subst e
    decide

/-- An escape of two characters reads as the same character. -/
theorem unescape_simple_utf8 {e : Char} (he : e ≠ 'u') (cs : List Char) :
    unescape [] (utf8 (JsonText.backslash :: e :: cs))
      = (JsonText.simpleEscape e).bind fun c ↦
          (unescape [] (utf8 cs)).map (String.utf8EncodeChar c ++ ·) := by
  obtain ⟨b, bs, hbs, -⟩ := exists_utf8EncodeChar e
  have hmem : b ∈ String.utf8EncodeChar e := by rw [hbs]; exact List.mem_cons_self
  have hb : b ≠ 'u'.toUInt8 := ne_of_utf8EncodeChar hbs (by decide) he
  rw [utf8_backslash, utf8_cons, hbs, List.cons_append, unescape_other hb, simpleEscape_utf8 hmem]
  rcases hc : JsonText.simpleEscape e with _ | c
  · rfl
  · obtain ⟨he', hc'⟩ := simpleEscape_ascii hc
    rw [utf8EncodeChar_ascii he'] at hbs
    rw [← (List.cons.inj hbs).2, Option.map_some, Option.bind_some, Option.bind_some,
      utf8EncodeChar_ascii hc', List.nil_append]
    rfl

theorem encode_scalar {n : ℕ} (hn : n < 0x110000) (hsurrogate : ¬(0xd800 ≤ n ∧ n ≤ 0xdfff)) :
    encode n = String.utf8EncodeChar (Char.ofNat n) := by
  have hvalid : n.isValidChar := by
    rcases Nat.lt_or_ge n 0xd800 with h | h
    · exact Or.inl h
    · exact Or.inr ⟨by omega, hn⟩
  have htoNat : (Char.ofNat n).toNat = n := by
    rw [Char.ofNat, dif_pos hvalid]
    rfl
  rw [utf8EncodeChar_eq, htoNat]

/-- A character that needs no escape is read as it stands. -/
theorem unescape_plain_utf8 {c : Char} (hb : c ≠ JsonText.backslash)
    (hc : ¬(c = JsonText.quoteChar ∨ c.toNat < 0x20)) (cs : List Char) :
    unescape [] (utf8 (c :: cs))
      = (unescape [] (utf8 cs)).map (String.utf8EncodeChar c ++ ·) := by
  rw [utf8_cons]
  rcases Nat.lt_or_ge c.toNat 0x80 with hlt | hge
  · have hbyte : UInt8.ofNat c.toNat ≠ backslash := ofNat_ne hlt backslash_ascii hb
    have hplain : ¬(UInt8.ofNat c.toNat = quoteByte ∨ UInt8.ofNat c.toNat < 0x20) := by
      rintro (hquote | hlow)
      · exact ofNat_ne hlt quote_ascii (fun h ↦ hc (Or.inl h)) hquote
      · rw [UInt8.lt_iff_toNat_lt, toNat_ofNat (by omega)] at hlow
        exact hc (Or.inr hlow)
    have hascii : UInt8.ofNat c.toNat < 0x80 := by
      rw [UInt8.lt_iff_toNat_lt, toNat_ofNat (by omega)]
      exact hlt
    rw [utf8EncodeChar_ascii hlt, List.singleton_append,
      unescape_plain hbyte hplain (follow_of_lt hascii)]
    rfl
  · refine unescape_high (le_of_mem_utf8EncodeChar hge) ?_ _
    have hone := wellFormed_utf8 [c]
    rwa [utf8_cons, show utf8 [] = [] from rfl, List.append_nil] at hone

/-- Quotes and control characters do not stand in a literal. -/
theorem unescape_refused {c : Char} (hb : c ≠ JsonText.backslash)
    (hc : c = JsonText.quoteChar ∨ c.toNat < 0x20) (cs : List Char) :
    unescape [] (utf8 (c :: cs)) = none := by
  have hlt : c.toNat < 0x80 := by
    rcases hc with rfl | hc
    · exact quote_ascii
    · omega
  have hplain : UInt8.ofNat c.toNat = quoteByte ∨ UInt8.ofNat c.toNat < 0x20 := by
    rcases hc with rfl | hc
    · exact Or.inl rfl
    · refine Or.inr ?_
      rw [UInt8.lt_iff_toNat_lt, toNat_ofNat (by omega)]
      exact hc
  rw [utf8_cons_ascii hlt, unescape.eq_def]
  dsimp only
  rw [if_neg (show UInt8.ofNat c.toNat ≠ backslash from ofNat_ne hlt backslash_ascii hb),
    if_pos hplain]

/-- **The two readers read the same string.** -/
theorem unescape_utf8 (cs : List Char) :
    unescape [] (utf8 cs) = (JsonText.unescape cs).map utf8 := by
  have hcons : ∀ (c : Char) (r : Option (List Char)),
      (r.map utf8).map (String.utf8EncodeChar c ++ ·) = (r.map (c :: ·)).map utf8 := fun c r ↦ by
    rw [Option.map_map, Option.map_map]
    exact congrArg (Option.map · r) (funext fun s ↦ (utf8_cons c s).symm)
  -- the bytes left become fewer with every character and every escape
  induction hlength : (utf8 cs).length using Nat.strongRecOn generalizing cs with
  | _ length ih =>
    subst hlength
    rcases cs with _ | ⟨c, cs⟩
    · rw [show utf8 [] = [] from rfl, unescape, JsonText.unescape]
      rfl
    · rcases Decidable.em (c = JsonText.backslash) with rfl | hb
      · rcases cs with _ | ⟨e, cs⟩
        · rw [utf8_backslash, show utf8 [] = [] from rfl, unescape, if_pos rfl,
            JsonText.unescape.eq_def]
          rfl
        · have hshorter : (utf8 cs).length < (utf8 (JsonText.backslash :: e :: cs)).length := by
            rw [utf8_backslash, utf8_cons, List.length_cons, List.length_append]
            omega
          rcases Decidable.em (e = 'u') with rfl | he
          · rw [utf8_backslash, utf8_cons_ascii (by decide), JsonText.unescape_u]
            refine (unescape_u (utf8 cs)).trans ?_
            rw [readCodePoint_map digit_utf8 behindU_utf8]
            rcases hcode : readCodePoint JsonText.digit JsonText.behindU cs with _ | ⟨n, rest⟩
            · rfl
            · have hread : codePoint (utf8 cs) = some (n, utf8 rest) := by
                rw [codePoint_eq, readCodePoint_map digit_utf8 behindU_utf8, hcode]
                rfl
              obtain ⟨hn, hsurrogate⟩ := codePoint_scalar hread
              have hlt : (utf8 rest).length < (utf8 cs).length := length_of_codePoint hread
              have hrest := ih _ (Nat.lt_trans hlt hshorter) rest rfl
              simp only [Option.map_some, Option.bind_some, Prod.map_apply, id_eq, hrest]
              rw [encode_scalar hn hsurrogate, hcons]
          · rw [unescape_simple_utf8 he, JsonText.unescape_other he, ih _ hshorter cs rfl]
            rcases JsonText.simpleEscape e with _ | d
            · rfl
            · exact hcons d _
      · rcases Decidable.em (c = JsonText.quoteChar ∨ c.toNat < 0x20) with hc | hc
        · rw [unescape_refused hb hc, JsonText.unescape.eq_def]
          simp only [if_neg hb, if_pos hc]
          rfl
        · have hshorter : (utf8 cs).length < (utf8 (c :: cs)).length := by
            obtain ⟨b, bs, hbs, -⟩ := exists_utf8EncodeChar c
            rw [utf8_cons, hbs, List.length_append, List.length_cons]
            omega
          rw [unescape_plain_utf8 hb hc, JsonText.unescape_plain hb hc, ih _ hshorter cs rfl, hcons]

/-! ## Writing a literal -/

theorem escape_high {bs : List UInt8} (h : ∀ b ∈ bs, 0x80 ≤ b) : escape bs = bs := by
  induction bs with
  | nil => rfl
  | cons b bs ih =>
    obtain ⟨hb, hbs⟩ := List.forall_mem_cons.mp h
    have hcons : escape (b :: bs) = escapeByte b ++ escape bs := List.flatMap_cons
    rw [hcons, escapeByte_of_le hb, ih hbs, List.singleton_append]

theorem escape_char (c : Char) :
    escape (String.utf8EncodeChar c) = utf8 (JsonText.escapeChar c) := by
  rcases Nat.lt_or_ge c.toNat 0x80 with hc | hc
  · have hascii : ∀ n < 0x80, escapeByte (UInt8.ofNat n)
        = utf8 (JsonText.escapeChar (Char.ofNat n)) := by decide
    rw [utf8EncodeChar_ascii hc, ← Char.ofNat_toNat c, ← hascii _ hc, Char.ofNat_toNat]
    exact List.flatMap_singleton ..
  · have hne : ∀ d : Char, d.toNat < 0x80 → c ≠ d := by
      rintro d hd rfl
      omega
    rw [escape_high (le_of_mem_utf8EncodeChar hc), JsonText.escapeChar, if_neg (hne _ (by decide)),
      if_neg (hne _ (by decide)), if_neg (hne _ (by decide)), if_neg (hne _ (by decide)),
      if_neg (hne _ (by decide)), if_neg (hne _ (by decide)), if_neg (hne _ (by decide)),
      if_neg (by omega)]
    exact (List.flatMap_singleton ..).symm

/-- **The two writers write the same literal.** -/
theorem escape_utf8 (cs : List Char) : escape (utf8 cs) = utf8 (JsonText.escape cs) := by
  induction cs with
  | nil => rfl
  | cons c cs ih =>
    have hcons : JsonText.escape (c :: cs) = JsonText.escapeChar c ++ JsonText.escape cs :=
      List.flatMap_cons
    rw [utf8_cons, escape, List.flatMap_append, ← escape, ← escape, ih, escape_char, hcons,
      utf8_append]

end JsonBytes
