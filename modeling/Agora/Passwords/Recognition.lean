import Agora.Passwords.Formats
import Agora.Passwords.Pattern

/-!
# Which texts are hashes

The servers look at the bytes of a text and cut it at its separators, the services match two
expressions over its UTF-16 units. Both come down to one shape of the codes of the text, and all
the codes of that shape are ASCII, where the bytes and the units of a text are the same.
-/

namespace Agora

namespace Passwords

namespace Recognition

/-! ## On the servers -/

def isdigit (c : UInt8) : Bool := '0'.toUInt8 ≤ c && c ≤ '9'.toUInt8

def isalnum (c : UInt8) : Bool :=
  isdigit c || ('A'.toUInt8 ≤ c && c ≤ 'Z'.toUInt8) || ('a'.toUInt8 ≤ c && c ≤ 'z'.toUInt8)

/-- The first place of a byte from a position on. -/
def find (c : UInt8) (pos : ℕ) (value : List UInt8) : Option ℕ :=
  ((value.drop pos).idxOf? c).map (pos + ·)

def substr (pos count : ℕ) (value : List UInt8) : List UInt8 := (value.drop pos).take count

def lowercaseHex (value : List UInt8) : Bool :=
  value.all fun c ↦ isdigit c || !(c < 'a'.toUInt8 || 'f'.toUInt8 < c)

/-- Whether a byte may stand in the salt and the digest of a bcrypt hash. -/
def inBcrypt (c : UInt8) : Bool := isalnum c || c = '.'.toUInt8 || c = '/'.toUInt8

def bytes (text : String) : List UInt8 := text.toList.map Char.toUInt8

def isBcryptHash (value : List UInt8) : Bool :=
  match value with
  | c0 :: c1 :: c2 :: c3 :: c4 :: c5 :: c6 :: rest =>
    value.length = 60 && c0 = '$'.toUInt8 && c1 = '2'.toUInt8
      && (c2 = 'a'.toUInt8 || c2 = 'b'.toUInt8 || c2 = 'y'.toUInt8)
      && c3 = '$'.toUInt8 && isdigit c4 && isdigit c5 && c6 = '$'.toUInt8 && rest.all inBcrypt
  | _ => false

/-- The position after a place; the search starts anew where there is none. -/
def after : Option ℕ → ℕ
  | none => 0
  | some found => found + 1

def isPbkdf2Hash (value : List UInt8) : Bool :=
  let first := find '$'.toUInt8 0 value
  let second := find '$'.toUInt8 (after first) value
  let third := find '$'.toUInt8 (after second) value
  match first, second, third with
  | some first, some second, some third =>
    if first ≠ 6 || substr 0 first value ≠ bytes "pbkdf2" then false
    else
      let iterations := substr (first + 1) (second - first - 1) value
      let salt := substr (second + 1) (third - second - 1) value
      let digest := value.drop (third + 1)
      if iterations.isEmpty || salt.length ≠ 32 || digest.length ≠ 64 || !lowercaseHex salt
          || !lowercaseHex digest then false
      else iterations.all isdigit
  | _, _, _ => false

def isCanvasPasswordHash (value : List UInt8) : Bool := isBcryptHash value || isPbkdf2Hash value

/-! ## On the services -/

def units (text : String) : List UInt16 := text.toList.map fun c ↦ c.toNat.toUInt16

/-- One of the units between two characters. -/
def range (lo hi : Char) : RegularExpression UInt16 :=
  Pattern.oneOf ((List.range' lo.toNat (hi.toNat + 1 - lo.toNat)).map UInt16.ofNat)

def digit : RegularExpression UInt16 := range '0' '9'

def bcryptPattern : RegularExpression UInt16 :=
  Pattern.word (units "$2") * (Pattern.oneOf (units "aby") * (Pattern.word (units "$")
    * (digit ^ 2 * (Pattern.word (units "$")
      * (Pattern.oneOf (units "./") + range 'A' 'Z' + range 'a' 'z' + range '0' '9') ^ 53))))

def hexDigit : RegularExpression UInt16 := range '0' '9' + range 'a' 'f'

def pbkdf2Pattern : RegularExpression UInt16 :=
  Pattern.word (units "pbkdf2$") * (Pattern.many digit * (Pattern.word (units "$")
    * (hexDigit ^ 32 * (Pattern.word (units "$") * hexDigit ^ 64))))

/-- The null text is no hash. -/
def isHash : Option (List UInt16) → Bool
  | none => false
  | some value => bcryptPattern.rmatch value || pbkdf2Pattern.rmatch value

/-! ## The bytes of a text -/

def isHighSurrogate (u : UInt16) : Bool := 0xD800 ≤ u && u < 0xDC00

def isLowSurrogate (u : UInt16) : Bool := 0xDC00 ≤ u && u < 0xE000

/-- The bytes in UTF-8, where a surrogate without its partner becomes a question mark. -/
def getBytes : List UInt16 → List UInt8
  | [] => []
  | u :: rest =>
    if u < 0x80 then u.toUInt8 :: getBytes rest
    else if u < 0x800 then (0xC0 + u / 64).toUInt8 :: (0x80 + u % 64).toUInt8 :: getBytes rest
    else if isHighSurrogate u then
      match rest with
      | [] => ['?'.toUInt8]
      | v :: others =>
        if isLowSurrogate v then
          let code := 0x10000 + (u.toNat - 0xD800) * 1024 + (v.toNat - 0xDC00)
          (0xF0 + code / 262144).toUInt8 :: (0x80 + code / 4096 % 64).toUInt8
            :: (0x80 + code / 64 % 64).toUInt8 :: (0x80 + code % 64).toUInt8 :: getBytes others
        else '?'.toUInt8 :: getBytes (v :: others)
    else if isLowSurrogate u then '?'.toUInt8 :: getBytes rest
    else (0xE0 + u / 4096).toUInt8 :: (0x80 + u / 64 % 64).toUInt8 :: (0x80 + u % 64).toUInt8
      :: getBytes rest

/-! ## The shape of a hash -/

def IsDigit (n : ℕ) : Prop := 48 ≤ n ∧ n ≤ 57

def IsHex (n : ℕ) : Prop := IsDigit n ∨ 97 ≤ n ∧ n ≤ 102

/-- The codes that a bcrypt hash may have after its last separator. -/
def InBcrypt (n : ℕ) : Prop := IsDigit n ∨ 65 ≤ n ∧ n ≤ 90 ∨ 97 ≤ n ∧ n ≤ 122 ∨ n = 46 ∨ n = 47

def BcryptShape (codes : List ℕ) : Prop :=
  ∃ version c d rest, codes = 36 :: 50 :: version :: 36 :: c :: d :: 36 :: rest ∧
    (version = 97 ∨ version = 98 ∨ version = 121) ∧ IsDigit c ∧ IsDigit d ∧
    rest.length = 53 ∧ ∀ n ∈ rest, InBcrypt n

def Pbkdf2Shape (codes : List ℕ) : Prop :=
  ∃ iterations salt digest,
    codes = [112, 98, 107, 100, 102, 50] ++ 36 :: (iterations ++ 36 :: (salt ++ 36 :: digest)) ∧
    (iterations ≠ [] ∧ ∀ n ∈ iterations, IsDigit n) ∧
    (salt.length = 32 ∧ ∀ n ∈ salt, IsHex n) ∧ (digest.length = 64 ∧ ∀ n ∈ digest, IsHex n)

/-- The codes of a hash. -/
def HashShape (codes : List ℕ) : Prop := BcryptShape codes ∨ Pbkdf2Shape codes

/-- The codes that a hash is made of, all of them ASCII. -/
def IsLetter (n : ℕ) : Prop := n = 36 ∨ InBcrypt n

theorem IsLetter.lt {n : ℕ} (h : IsLetter n) : n < 128 := by
  simp only [IsLetter, InBcrypt, IsDigit] at h
  omega

theorem IsHex.isLetter {n : ℕ} (h : IsHex n) : IsLetter n := by
  simp only [IsHex, IsDigit] at h
  simp only [IsLetter, InBcrypt, IsDigit]
  omega

theorem IsDigit.isLetter {n : ℕ} (h : IsDigit n) : IsLetter n :=
  IsHex.isLetter (Or.inl h)

theorem IsHex.ne_separator {n : ℕ} (h : IsHex n) : n ≠ 36 := by
  simp only [IsHex, IsDigit] at h
  omega

theorem HashShape.letters {codes : List ℕ} (h : HashShape codes) : ∀ n ∈ codes, IsLetter n := by
  rcases h with ⟨version, c, d, rest, rfl, hversion, hc, hd, -, hrest⟩ |
    ⟨iterations, salt, digest, rfl, hiterations, hsalt, hdigest⟩
  · have hv : IsLetter version := by
      rcases hversion with rfl | rfl | rfl <;> simp [IsLetter, InBcrypt, IsDigit]
    have hseparator : IsLetter 36 := Or.inl rfl
    simp only [List.forall_mem_cons]
    exact ⟨hseparator, Or.inr (Or.inl (by simp [IsDigit])), hv, hseparator, hc.isLetter,
      hd.isLetter, hseparator, fun n hn ↦ Or.inr (hrest n hn)⟩
  · have hseparator : IsLetter 36 := Or.inl rfl
    have hname : ∀ n ∈ [112, 98, 107, 100, 102, 50], IsLetter n := by
      simp [IsLetter, InBcrypt, IsDigit]
    simp only [List.forall_mem_append, List.forall_mem_cons]
    exact ⟨by simpa using hname, hseparator, fun n hn ↦ (hiterations.2 n hn).isLetter, hseparator,
      fun n hn ↦ (hsalt.2 n hn).isLetter, hseparator, fun n hn ↦ (hdigest.2 n hn).isLetter⟩

/-- A word whose codes come in four parts comes in four parts. -/
theorem exists_parts {α : Type*} {code : α → ℕ} {value : List α}
    {name iterations salt digest : List ℕ}
    (h : value.map code = name ++ 36 :: (iterations ++ 36 :: (salt ++ 36 :: digest))) :
    ∃ name' c0 iterations' c1 salt' c2 digest',
      value = name' ++ c0 :: (iterations' ++ c1 :: (salt' ++ c2 :: digest')) ∧
      name'.map code = name ∧ code c0 = 36 ∧ iterations'.map code = iterations ∧ code c1 = 36 ∧
      salt'.map code = salt ∧ code c2 = 36 ∧ digest'.map code = digest := by
  obtain ⟨name', _, rfl, hname, h⟩ := List.map_eq_append_iff.mp h
  obtain ⟨c0, _, rfl, hc0, h⟩ := List.map_eq_cons_iff.mp h
  obtain ⟨iterations', _, rfl, hiterations, h⟩ := List.map_eq_append_iff.mp h
  obtain ⟨c1, _, rfl, hc1, h⟩ := List.map_eq_cons_iff.mp h
  obtain ⟨salt', _, rfl, hsalt, h⟩ := List.map_eq_append_iff.mp h
  obtain ⟨c2, digest', rfl, hc2, hdigest⟩ := List.map_eq_cons_iff.mp h
  exact ⟨name', c0, iterations', c1, salt', c2, digest', rfl, hname, hc0, hiterations, hc1, hsalt,
    hc2, hdigest⟩

/-! ## The servers see the shape -/

theorem isdigit_iff {c : UInt8} : isdigit c = true ↔ IsDigit c.toNat := by
  rw [isdigit, Bool.and_eq_true, decide_eq_true_eq, decide_eq_true_eq, UInt8.le_iff_toNat_le,
    UInt8.le_iff_toNat_le]
  rfl

theorem inBcrypt_iff {c : UInt8} : inBcrypt c = true ↔ InBcrypt c.toNat := by
  simp only [inBcrypt, isalnum, Bool.or_eq_true, isdigit_iff, Bool.and_eq_true,
    decide_eq_true_eq, UInt8.le_iff_toNat_le, ← UInt8.toNat_inj, InBcrypt, or_assoc]
  rfl

theorem lowercaseHex_iff {value : List UInt8} :
    lowercaseHex value = true ↔ ∀ n ∈ value.map UInt8.toNat, IsHex n := by
  have hletter (c : UInt8) :
      (isdigit c || !(c < 'a'.toUInt8 || 'f'.toUInt8 < c)) = true ↔ IsHex c.toNat := by
    simp only [Bool.or_eq_true, isdigit_iff, Bool.not_eq_true', Bool.or_eq_false_iff,
      decide_eq_false_iff_not, UInt8.lt_iff_toNat_lt, not_lt, IsHex]
    rfl
  rw [lowercaseHex, List.all_eq_true, List.forall_mem_map]
  exact forall₂_congr fun c _ ↦ hletter c

theorem all_isdigit_iff {value : List UInt8} :
    value.all isdigit = true ↔ ∀ n ∈ value.map UInt8.toNat, IsDigit n := by
  rw [List.all_eq_true, List.forall_mem_map]
  exact forall₂_congr fun c _ ↦ isdigit_iff

theorem isBcryptHash_iff {value : List UInt8} :
    isBcryptHash value = true ↔ BcryptShape (value.map UInt8.toNat) := by
  constructor
  · intro h
    rw [isBcryptHash.eq_def] at h
    split at h
    · simp only [Bool.and_eq_true, Bool.or_eq_true, decide_eq_true_eq, isdigit_iff,
        List.all_eq_true, inBcrypt_iff, List.length_cons] at h
      obtain ⟨⟨⟨⟨⟨⟨⟨⟨hlength, rfl⟩, rfl⟩, hversion⟩, rfl⟩, hc⟩, hd⟩, rfl⟩, hrest⟩ := h
      refine ⟨_, _, _, _, rfl, ?_, hc, hd, ?_, List.forall_mem_map.mpr hrest⟩
      · rcases hversion with (rfl | rfl) | rfl <;> decide
      · rw [List.length_map]
        omega
    · nomatch h
  · rintro ⟨version, c, d, rest, hcodes, hversion, hc, hd, hlength, hrest⟩
    simp only [List.map_eq_cons_iff] at hcodes
    obtain ⟨c0, _, rfl, h0, c1, _, rfl, h1, c2, _, rfl, rfl, c3, _, rfl, h3, c4, _, rfl, rfl,
      c5, _, rfl, rfl, c6, rest', rfl, h6, rfl⟩ := hcodes
    simp only [isBcryptHash, Bool.and_eq_true, Bool.or_eq_true, decide_eq_true_eq, isdigit_iff,
      List.all_eq_true, inBcrypt_iff, List.length_cons, ← UInt8.toNat_inj]
    rw [List.length_map] at hlength
    refine ⟨⟨⟨⟨⟨⟨⟨⟨by omega, h0⟩, h1⟩, or_assoc.mpr hversion⟩, h3⟩, hc⟩, hd⟩, h6⟩, ?_⟩
    exact List.forall_mem_map.mp hrest

theorem find_eq_some {c : UInt8} {pos found : ℕ} {value : List UInt8}
    (h : find c pos value = some found) :
    ∃ part rest, value.drop pos = part ++ c :: rest ∧ c ∉ part ∧ found = pos + part.length := by
  obtain ⟨i, hi, rfl⟩ := Option.map_eq_some_iff.mp h
  obtain ⟨hlt, heq, hbefore⟩ := List.idxOf?_eq_some_iff.mp hi
  refine ⟨(value.drop pos).take i, (value.drop pos).drop (i + 1), ?_, ?_, ?_⟩
  · rw [← heq, List.cons_getElem_drop_succ, List.take_append_drop]
  · rw [List.mem_take_iff_getElem]
    rintro ⟨j, hj, hc⟩
    exact hbefore j (by omega) hc
  · rw [List.length_take, Nat.min_eq_left hlt.le]

theorem find_append {c : UInt8} (before : List UInt8) {part : List UInt8} (rest : List UInt8)
    (h : c ∉ part) :
    find c before.length (before ++ (part ++ c :: rest)) = some (before.length + part.length) := by
  have hidx : (part ++ c :: rest).idxOf? c = some part.length := by
    refine List.idxOf?_eq_some_iff.mpr ⟨by simp, by simp, fun j hj heq ↦ h ?_⟩
    rw [List.getElem_append_left hj] at heq
    exact heq ▸ List.getElem_mem hj
  rw [find, List.drop_left, hidx]
  rfl

theorem substr_append (before part rest : List UInt8) :
    substr before.length part.length (before ++ (part ++ rest)) = part := by
  rw [substr, List.drop_left, List.take_left]

/-- Four parts with separators between them. -/
def ofParts (name iterations salt digest : List UInt8) : List UInt8 :=
  name ++ '$'.toUInt8 :: (iterations ++ '$'.toUInt8 :: (salt ++ '$'.toUInt8 :: digest))

section Parts

variable {name iterations salt digest : List UInt8}

theorem ofParts_eq_second : ofParts name iterations salt digest =
    (name ++ ['$'.toUInt8]) ++ (iterations ++ '$'.toUInt8 :: (salt ++ '$'.toUInt8 :: digest)) := by
  simp only [ofParts, List.append_assoc, List.singleton_append]

theorem ofParts_eq_third : ofParts name iterations salt digest =
    (name ++ '$'.toUInt8 :: (iterations ++ ['$'.toUInt8])) ++ (salt ++ '$'.toUInt8 :: digest) := by
  simp only [ofParts, List.append_assoc, List.cons_append, List.nil_append]

theorem ofParts_eq_last : ofParts name iterations salt digest =
    (name ++ '$'.toUInt8 :: (iterations ++ '$'.toUInt8 :: (salt ++ ['$'.toUInt8]))) ++ digest := by
  simp only [ofParts, List.append_assoc, List.cons_append, List.nil_append]

/-- The splitter finds the parts when none of the first three has a separator. -/
theorem isPbkdf2Hash_ofParts (hname : '$'.toUInt8 ∉ name) (hiterations : '$'.toUInt8 ∉ iterations)
    (hsalt : '$'.toUInt8 ∉ salt) :
    isPbkdf2Hash (ofParts name iterations salt digest) = true ↔
      name = bytes "pbkdf2" ∧ iterations ≠ [] ∧ salt.length = 32 ∧ digest.length = 64 ∧
        lowercaseHex salt = true ∧ lowercaseHex digest = true ∧ iterations.all isdigit = true := by
  have hfirst : find '$'.toUInt8 0 (ofParts name iterations salt digest) = some name.length :=
    (find_append [] _ hname).trans (congrArg some (Nat.zero_add _))
  have hsecond : find '$'.toUInt8 (name.length + 1) (ofParts name iterations salt digest) =
      some (name.length + 1 + iterations.length) := by
    have h := find_append (name ++ ['$'.toUInt8]) (salt ++ '$'.toUInt8 :: digest) hiterations
    rwa [← ofParts_eq_second, List.length_append] at h
  have hthird : find '$'.toUInt8 (name.length + 1 + iterations.length + 1)
      (ofParts name iterations salt digest) =
      some (name.length + 1 + iterations.length + 1 + salt.length) := by
    have h := find_append (name ++ '$'.toUInt8 :: (iterations ++ ['$'.toUInt8])) digest hsalt
    rw [← ofParts_eq_third] at h
    convert h using 2 <;> simp only [List.length_append, List.length_cons, List.length_nil]
      <;> omega
  have hsubName : substr 0 name.length (ofParts name iterations salt digest) = name :=
    substr_append [] name _
  have hsubIterations : substr (name.length + 1) iterations.length
      (ofParts name iterations salt digest) = iterations := by
    have h := substr_append (name ++ ['$'.toUInt8]) iterations
      ('$'.toUInt8 :: (salt ++ '$'.toUInt8 :: digest))
    rwa [← ofParts_eq_second, List.length_append] at h
  have hsubSalt : substr (name.length + 1 + iterations.length + 1) salt.length
      (ofParts name iterations salt digest) = salt := by
    have h := substr_append (name ++ '$'.toUInt8 :: (iterations ++ ['$'.toUInt8])) salt
      ('$'.toUInt8 :: digest)
    rw [← ofParts_eq_third] at h
    convert h using 2
    simp only [List.length_append, List.length_cons, List.length_nil]
    omega
  have hdrop : (ofParts name iterations salt digest).drop
      (name.length + 1 + iterations.length + 1 + salt.length + 1) = digest := by
    rw [ofParts_eq_last]
    refine List.drop_left' ?_
    simp only [List.length_append, List.length_cons, List.length_nil]
    omega
  have hlength (before part : ℕ) : before + 1 + part - before - 1 = part := by omega
  simp only [isPbkdf2Hash, hfirst, after, hsecond, hthird, hlength, hsubName, hsubIterations,
    hsubSalt, hdrop]
  rw [Bool.if_false_left, Bool.if_false_left]
  have hsix : name = bytes "pbkdf2" → name.length = 6 := fun h ↦ h ▸ rfl
  simp only [Bool.and_eq_true, Bool.not_eq_true', Bool.or_eq_false_iff, decide_eq_false_iff_not,
    not_not, List.isEmpty_eq_false_iff, Bool.not_eq_false', Bool.decide_eq_true]
  tauto

/-- What the splitter accepts has its parts. -/
theorem exists_ofParts {value : List UInt8} (h : isPbkdf2Hash value = true) :
    ∃ name iterations salt digest, value = ofParts name iterations salt digest ∧
      '$'.toUInt8 ∉ name ∧ '$'.toUInt8 ∉ iterations ∧ '$'.toUInt8 ∉ salt := by
  rw [isPbkdf2Hash] at h
  dsimp only at h
  split at h
  · next first second third hfirst hsecond hthird =>
    obtain ⟨name, rest, hvalue, hname, rfl⟩ := find_eq_some hfirst
    rw [List.drop_zero] at hvalue
    -- each search starts where the part before it has ended
    rw [hfirst, after] at hsecond
    rw [hfirst, after, hsecond, after, hvalue] at hthird
    rw [hvalue] at hsecond
    obtain ⟨iterations, rest', hrest, hiterations, rfl⟩ := find_eq_some hsecond
    rw [Nat.zero_add, List.drop_length_add_append, List.drop_one, List.tail_cons] at hrest
    rw [hrest] at hthird
    obtain ⟨salt, digest, hrest', hsalt, -⟩ := find_eq_some hthird
    have hsplit : name ++ '$'.toUInt8 :: (iterations ++ '$'.toUInt8 :: rest') =
        (name ++ '$'.toUInt8 :: (iterations ++ ['$'.toUInt8])) ++ rest' := by
      simp only [List.append_assoc, List.cons_append, List.nil_append]
    have hlength : (name ++ '$'.toUInt8 :: (iterations ++ ['$'.toUInt8])).length =
        0 + name.length + 1 + iterations.length + 1 := by
      simp only [List.length_append, List.length_cons, List.length_nil]
      omega
    rw [hsplit, List.drop_left' hlength] at hrest'
    exact ⟨name, iterations, salt, digest, by rw [hvalue, hrest, hrest', ofParts], hname,
      hiterations, hsalt⟩
  · nomatch h

theorem map_ofParts : (ofParts name iterations salt digest).map UInt8.toNat =
    name.map UInt8.toNat ++ 36 :: (iterations.map UInt8.toNat
      ++ 36 :: (salt.map UInt8.toNat ++ 36 :: digest.map UInt8.toNat)) := by
  simp only [ofParts, List.map_append, List.map_cons]
  rfl

theorem separator_notMem {part : List UInt8} (h : ∀ n ∈ part.map UInt8.toNat, IsHex n) :
    '$'.toUInt8 ∉ part :=
  fun hmem ↦ (h _ (List.mem_map_of_mem hmem)).ne_separator rfl

end Parts

theorem isPbkdf2Hash_iff {value : List UInt8} :
    isPbkdf2Hash value = true ↔ Pbkdf2Shape (value.map UInt8.toNat) := by
  have hname : (bytes "pbkdf2").map UInt8.toNat = [112, 98, 107, 100, 102, 50] := rfl
  constructor
  · intro h
    obtain ⟨name, iterations, salt, digest, rfl, hn, hi, hs⟩ := exists_ofParts h
    obtain ⟨rfl, hne, hsalt, hdigest, hsaltHex, hdigestHex, hdigits⟩ :=
      (isPbkdf2Hash_ofParts hn hi hs).mp h
    refine ⟨_, _, _, map_ofParts, ⟨?_, all_isdigit_iff.mp hdigits⟩,
      ⟨?_, lowercaseHex_iff.mp hsaltHex⟩, ⟨?_, lowercaseHex_iff.mp hdigestHex⟩⟩
    · exact fun hnil ↦ hne (List.map_eq_nil_iff.mp hnil)
    · rw [List.length_map, hsalt]
    · rw [List.length_map, hdigest]
  · rintro ⟨iterations, salt, digest, hcodes, ⟨hne, hdigits⟩, ⟨hsalt, hsaltHex⟩, hdigest,
      hdigestHex⟩
    obtain ⟨name, c0, iterations, c1, salt, c2, digest, rfl, hcodesName, h0, rfl, h1, rfl, h2,
      rfl⟩ := exists_parts hcodes
    obtain rfl : name = bytes "pbkdf2" :=
      List.map_injective_iff.mpr (fun _ _ ↦ UInt8.toNat_inj.mp) (hcodesName.trans hname.symm)
    obtain rfl : c0 = '$'.toUInt8 := UInt8.toNat_inj.mp h0
    obtain rfl : c1 = '$'.toUInt8 := UInt8.toNat_inj.mp h1
    obtain rfl : c2 = '$'.toUInt8 := UInt8.toNat_inj.mp h2
    rw [← ofParts, isPbkdf2Hash_ofParts (by decide)
      (separator_notMem fun n hn ↦ Or.inl (hdigits n hn)) (separator_notMem hsaltHex)]
    rw [List.length_map] at hsalt hdigest
    exact ⟨rfl, fun hnil ↦ hne (by rw [hnil]; rfl), hsalt, hdigest,
      lowercaseHex_iff.mpr hsaltHex, lowercaseHex_iff.mpr hdigestHex, all_isdigit_iff.mpr hdigits⟩

theorem isCanvasPasswordHash_iff {value : List UInt8} :
    isCanvasPasswordHash value = true ↔ HashShape (value.map UInt8.toNat) := by
  rw [isCanvasPasswordHash, Bool.or_eq_true, isBcryptHash_iff, isPbkdf2Hash_iff, HashShape]

/-! ## The services see the shape -/

open Pattern in
theorem matches_range {lo hi : Char} (h : hi.toNat < 0x10000) :
    (range lo hi).matches' = letters fun u ↦ lo.toNat ≤ u.toNat ∧ u.toNat ≤ hi.toNat := by
  rw [range, matches_oneOf]
  refine letters_congr fun u ↦ ?_
  simp only [List.mem_map, List.mem_range'_1]
  constructor
  · rintro ⟨n, ⟨hlo, hhi⟩, rfl⟩
    rw [UInt16.toNat_ofNat_of_lt' (by rw [UInt16.size]; omega)]
    omega
  · exact fun hu ↦ ⟨u.toNat, by omega, UInt16.ofNat_toNat⟩

theorem matches_digit : digit.matches' = Pattern.letters fun u ↦ IsDigit u.toNat :=
  matches_range (by decide)

theorem matches_hexDigit : hexDigit.matches' = Pattern.letters fun u ↦ IsHex u.toNat :=
  Pattern.matches_add (matches_range (by decide)) (matches_range (by decide))

theorem matches_inBcrypt :
    (Pattern.oneOf (units "./") + range 'A' 'Z' + range 'a' 'z' + range '0' '9').matches' =
      Pattern.letters fun u ↦ InBcrypt u.toNat := by
  rw [Pattern.matches_add (Pattern.matches_add (Pattern.matches_add (Pattern.matches_oneOf _)
    (matches_range (by decide))) (matches_range (by decide))) (matches_range (by decide))]
  refine Pattern.letters_congr fun u ↦ ?_
  have hmem : u ∈ units "./" ↔ u.toNat = 46 ∨ u.toNat = 47 := by
    rw [show units "./" = [46, 47] from rfl, List.mem_cons, List.mem_singleton,
      ← UInt16.toNat_inj, ← UInt16.toNat_inj]
    rfl
  rw [hmem]
  simp only [InBcrypt, IsDigit]
  have hA : 'A'.toNat = 65 ∧ 'Z'.toNat = 90 ∧ 'a'.toNat = 97 ∧ 'z'.toNat = 122 := by decide
  have h0 : '0'.toNat = 48 ∧ '9'.toNat = 57 := by decide
  omega

theorem mem_bcryptPattern {value : List UInt16} :
    value ∈ bcryptPattern.matches' ↔ BcryptShape (value.map UInt16.toNat) := by
  have hversion (u : UInt16) : u ∈ units "aby" ↔ u.toNat = 97 ∨ u.toNat = 98 ∨ u.toNat = 121 := by
    rw [show units "aby" = [97, 98, 121] from rfl, List.mem_cons, List.mem_cons,
      List.mem_singleton, ← UInt16.toNat_inj, ← UInt16.toNat_inj, ← UInt16.toNat_inj]
    rfl
  constructor
  · intro h
    obtain ⟨_, h₁, rfl⟩ := Pattern.mem_word_mul.mp h
    obtain ⟨version, _, hmem, h₂, rfl⟩ :=
      (Pattern.mem_letter_mul (Pattern.matches_oneOf _)).mp h₁
    obtain ⟨_, h₃, rfl⟩ := Pattern.mem_word_mul.mp h₂
    obtain ⟨digits, _, ⟨htwo, hdigits⟩, h₄, rfl⟩ := (Pattern.mem_pow_mul matches_digit).mp h₃
    obtain ⟨rest, h₅, rfl⟩ := Pattern.mem_word_mul.mp h₄
    obtain ⟨hlength, hrest⟩ := (Pattern.mem_pow matches_inBcrypt).mp h₅
    obtain ⟨c, d, rfl⟩ := List.length_eq_two.mp htwo
    refine ⟨_, _, _, _, rfl, (hversion version).mp hmem, hdigits c (by simp), hdigits d (by simp),
      ?_, List.forall_mem_map.mpr hrest⟩
    exact (List.length_map _).trans hlength
  · rintro ⟨_, _, _, _, hcodes, hmem, hc, hd, hlength, hrest⟩
    simp only [List.map_eq_cons_iff] at hcodes
    obtain ⟨c0, _, rfl, h0, c1, _, rfl, h1, version, _, rfl, rfl, c3, _, rfl, h3, c, _, rfl, rfl,
      d, _, rfl, rfl, c6, rest, rfl, h6, rfl⟩ := hcodes
    obtain rfl : c0 = 36 := UInt16.toNat_inj.mp h0
    obtain rfl : c1 = 50 := UInt16.toNat_inj.mp h1
    obtain rfl : c3 = 36 := UInt16.toNat_inj.mp h3
    obtain rfl : c6 = 36 := UInt16.toNat_inj.mp h6
    rw [List.length_map] at hlength
    refine Pattern.mem_word_mul.mpr ⟨_, ?_, rfl⟩
    refine (Pattern.mem_letter_mul (Pattern.matches_oneOf _)).mpr
      ⟨version, _, (hversion version).mpr hmem, ?_, rfl⟩
    refine Pattern.mem_word_mul.mpr ⟨_, ?_, rfl⟩
    refine (Pattern.mem_pow_mul matches_digit).mpr ⟨[c, d], _, ⟨rfl, ?_⟩, ?_, rfl⟩
    · exact List.forall_mem_cons.mpr ⟨hc, List.forall_mem_singleton.mpr hd⟩
    · exact Pattern.mem_word_mul.mpr ⟨rest, (Pattern.mem_pow matches_inBcrypt).mpr
        ⟨hlength, List.forall_mem_map.mp hrest⟩, rfl⟩

theorem mem_pbkdf2Pattern {value : List UInt16} :
    value ∈ pbkdf2Pattern.matches' ↔ Pbkdf2Shape (value.map UInt16.toNat) := by
  constructor
  · intro h
    obtain ⟨_, h₁, rfl⟩ := Pattern.mem_word_mul.mp h
    obtain ⟨iterations, _, ⟨hne, hdigits⟩, h₂, rfl⟩ := (Pattern.mem_many_mul matches_digit).mp h₁
    obtain ⟨_, h₃, rfl⟩ := Pattern.mem_word_mul.mp h₂
    obtain ⟨salt, _, ⟨hsalt, hsaltHex⟩, h₄, rfl⟩ := (Pattern.mem_pow_mul matches_hexDigit).mp h₃
    obtain ⟨digest, h₅, rfl⟩ := Pattern.mem_word_mul.mp h₄
    obtain ⟨hdigest, hdigestHex⟩ := (Pattern.mem_pow matches_hexDigit).mp h₅
    refine ⟨iterations.map UInt16.toNat, salt.map UInt16.toNat, digest.map UInt16.toNat, ?_,
      ⟨fun hnil ↦ hne (List.map_eq_nil_iff.mp hnil), List.forall_mem_map.mpr hdigits⟩,
      ⟨by rw [List.length_map, hsalt], List.forall_mem_map.mpr hsaltHex⟩,
      ⟨by rw [List.length_map, hdigest], List.forall_mem_map.mpr hdigestHex⟩⟩
    simp only [List.map_append]
    rfl
  · rintro ⟨_, _, _, hcodes, ⟨hne, hdigits⟩, ⟨hsalt, hsaltHex⟩, hdigest, hdigestHex⟩
    obtain ⟨name, c0, iterations, c1, salt, c2, digest, rfl, hname, h0, rfl, h1, rfl, h2, rfl⟩ :=
      exists_parts hcodes
    obtain rfl : name = units "pbkdf2" :=
      List.map_injective_iff.mpr (fun _ _ ↦ UInt16.toNat_inj.mp) (hname.trans rfl)
    obtain rfl : c0 = 36 := UInt16.toNat_inj.mp h0
    obtain rfl : c1 = 36 := UInt16.toNat_inj.mp h1
    obtain rfl : c2 = 36 := UInt16.toNat_inj.mp h2
    rw [List.length_map] at hsalt hdigest
    refine Pattern.mem_word_mul.mpr ⟨_, ?_, rfl⟩
    refine (Pattern.mem_many_mul matches_digit).mpr ⟨iterations, _,
      ⟨fun hnil ↦ hne (by rw [hnil]; rfl), List.forall_mem_map.mp hdigits⟩, ?_, rfl⟩
    refine Pattern.mem_word_mul.mpr ⟨_, ?_, rfl⟩
    refine (Pattern.mem_pow_mul matches_hexDigit).mpr
      ⟨salt, _, ⟨hsalt, List.forall_mem_map.mp hsaltHex⟩, ?_, rfl⟩
    exact Pattern.mem_word_mul.mpr ⟨digest, (Pattern.mem_pow matches_hexDigit).mpr
      ⟨hdigest, List.forall_mem_map.mp hdigestHex⟩, rfl⟩

theorem isHash_iff {value : List UInt16} :
    isHash (some value) = true ↔ HashShape (value.map UInt16.toNat) := by
  rw [isHash, Bool.or_eq_true, RegularExpression.rmatch_iff_matches',
    RegularExpression.rmatch_iff_matches', HashShape, mem_bcryptPattern, mem_pbkdf2Pattern]

/-! ## The bytes and the units of a text -/

theorem IsLetter.ne_question {n : ℕ} (h : IsLetter n) : n ≠ 63 := by
  simp only [IsLetter, InBcrypt, IsDigit] at h
  omega

theorem getBytes_cons_of_lt {u : UInt16} (rest : List UInt16) (h : u < 0x80) :
    getBytes (u :: rest) = u.toUInt8 :: getBytes rest := by
  rw [getBytes.eq_def]
  exact if_pos h

theorem getBytes_of_ascii {value : List UInt16} (h : ∀ u ∈ value, u.toNat < 128) :
    (getBytes value).map UInt8.toNat = value.map UInt16.toNat := by
  induction value with
  | nil => rfl
  | cons u rest ih =>
    obtain ⟨hu, hrest⟩ := List.forall_mem_cons.mp h
    have hbyte : u.toUInt8.toNat = u.toNat := by
      rw [UInt16.toNat_toUInt8]
      omega
    rw [getBytes_cons_of_lt rest (UInt16.lt_iff_toNat_lt.mpr hu), List.map_cons, List.map_cons,
      ih hrest, hbyte]

/-- The first byte of a unit that is not ASCII is not ASCII or a question mark. -/
theorem exists_not_isLetter {u : UInt16} (rest : List UInt16) (h : ¬u < 0x80) :
    ∃ b ∈ getBytes (u :: rest), ¬IsLetter b.toNat := by
  have hlarge {b : UInt8} (hb : 128 ≤ b.toNat) : ¬IsLetter b.toNat :=
    fun hletter ↦ absurd hletter.lt (not_lt.mpr hb)
  have hquestion : ¬IsLetter '?'.toUInt8.toNat := fun hletter ↦ hletter.ne_question rfl
  have hlt := u.toNat_lt
  rw [getBytes.eq_def]
  dsimp only
  rw [if_neg h]
  split
  · next htwo =>
    have hu := UInt16.lt_iff_toNat_lt.mp htwo
    refine ⟨_, List.mem_cons_self, hlarge ?_⟩
    simp at hu ⊢
    omega
  · split
    · split
      · exact ⟨_, List.mem_cons_self, hquestion⟩
      · next hhigh _ v others =>
        split
        · refine ⟨_, List.mem_cons_self, hlarge ?_⟩
          have hv := v.toNat_lt
          simp [isHighSurrogate, UInt16.le_iff_toNat_le, UInt16.lt_iff_toNat_lt] at hhigh ⊢
          omega
        · exact ⟨_, List.mem_cons_self, hquestion⟩
    · split
      · exact ⟨_, List.mem_cons_self, hquestion⟩
      · refine ⟨_, List.mem_cons_self, hlarge ?_⟩
        simp
        omega

/-- Bytes that are all letters of hashes stand for ASCII units. -/
theorem ascii_of_getBytes {value : List UInt16}
    (h : ∀ b ∈ getBytes value, IsLetter b.toNat) : ∀ u ∈ value, u.toNat < 128 := by
  induction value with
  | nil => exact fun u hu ↦ absurd hu List.not_mem_nil
  | cons u rest ih =>
    have hu : u < 0x80 := by
      by_contra hnot
      obtain ⟨b, hb, hletter⟩ := exists_not_isLetter rest hnot
      exact hletter (h b hb)
    rw [getBytes_cons_of_lt rest hu, List.forall_mem_cons] at h
    exact List.forall_mem_cons.mpr ⟨UInt16.lt_iff_toNat_lt.mp hu, ih h.2⟩

theorem hashShape_getBytes {value : List UInt16} :
    HashShape ((getBytes value).map UInt8.toNat) ↔ HashShape (value.map UInt16.toNat) := by
  constructor
  · intro h
    have hascii := ascii_of_getBytes (List.forall_mem_map.mp h.letters)
    rwa [getBytes_of_ascii hascii] at h
  · intro h
    have hascii : ∀ u ∈ value, u.toNat < 128 :=
      fun u hu ↦ (h.letters _ (List.mem_map_of_mem hu)).lt
    rwa [getBytes_of_ascii hascii]

/-- The servers and the services see the same hashes. -/
theorem isCanvasPasswordHash_getBytes (value : List UInt16) :
    isCanvasPasswordHash (getBytes value) = isHash (some value) := by
  rw [Bool.eq_iff_iff, isCanvasPasswordHash_iff, isHash_iff, hashShape_getBytes]

/-! ## Texts of characters -/

theorem isDigit_iff {c : Char} : c.isDigit = true ↔ IsDigit c.toNat := by
  rw [Char.isDigit, Bool.and_eq_true, decide_eq_true_eq, decide_eq_true_eq]
  rfl

theorem toNat_eq_iff {c d : Char} : c = d ↔ c.toNat = d.toNat :=
  ⟨congrArg _, fun h ↦ Char.ext (UInt32.toNat_inj.mp h)⟩

theorem isLowercaseHex_iff {c : Char} : isLowercaseHex c = true ↔ IsHex c.toNat := by
  rw [isLowercaseHex, Bool.or_eq_true, isDigit_iff, Bool.and_eq_true, decide_eq_true_eq,
    decide_eq_true_eq]
  rfl

theorem isAlpha_iff {c : Char} : c.isAlpha = true ↔
    ('A'.val ≤ c.val ∧ c.val ≤ 'Z'.val) ∨ ('a'.val ≤ c.val ∧ c.val ≤ 'z'.val) := by
  change (decide ('A'.val ≤ c.val ∧ c.val ≤ 'Z'.val)
    || ('a'.val ≤ c.val && c.val ≤ 'z'.val)) = true ↔ _
  simp only [Bool.or_eq_true, Bool.and_eq_true, decide_eq_true_eq]

theorem isAlphanum_iff {c : Char} :
    (c.isAlphanum || c = '.' || c = '/') = true ↔ InBcrypt c.toNat := by
  simp only [Char.isAlphanum, isAlpha_iff, Bool.or_eq_true, isDigit_iff, decide_eq_true_eq,
    toNat_eq_iff, InBcrypt]
  have hcodes : '.'.toNat = 46 ∧ '/'.toNat = 47 := by decide
  have hupper : ('A'.val ≤ c.val ∧ c.val ≤ 'Z'.val) ↔ 65 ≤ c.toNat ∧ c.toNat ≤ 90 := Iff.rfl
  have hlower : ('a'.val ≤ c.val ∧ c.val ≤ 'z'.val) ↔ 97 ≤ c.toNat ∧ c.toNat ≤ 122 := Iff.rfl
  rw [hcodes.1, hcodes.2]
  tauto

theorem all_iff {p : Char → Bool} {P : ℕ → Prop} (h : ∀ c, p c = true ↔ P c.toNat)
    {l : List Char} : l.all p = true ↔ ∀ n ∈ l.map Char.toNat, P n := by
  rw [List.all_eq_true, List.forall_mem_map]
  exact forall₂_congr fun c _ ↦ h c

theorem contains_versions {c : Char} :
    ['a', 'b', 'y'].contains c = true ↔ c.toNat = 97 ∨ c.toNat = 98 ∨ c.toNat = 121 := by
  simp only [List.contains_iff_mem, List.mem_cons, List.not_mem_nil, or_false, toNat_eq_iff]
  rfl

theorem bcryptShaped_iff {l : List Char} :
    bcryptShaped l = true ↔ BcryptShape (l.map Char.toNat) := by
  constructor
  · intro h
    rw [bcryptShaped.eq_def] at h
    split at h
    · simp only [Bool.and_eq_true, isDigit_iff, decide_eq_true_eq] at h
      obtain ⟨⟨⟨⟨hversion, hc⟩, hd⟩, hlength⟩, hrest⟩ := h
      exact ⟨_, _, _, _, rfl, contains_versions.mp hversion, hc, hd,
        (List.length_map _).trans hlength, (all_iff fun c ↦ isAlphanum_iff).mp hrest⟩
    · nomatch h
  · rintro ⟨_, _, _, _, hcodes, hversion, hc, hd, hlength, hrest⟩
    simp only [List.map_eq_cons_iff] at hcodes
    obtain ⟨c0, _, rfl, h0, c1, _, rfl, h1, version, _, rfl, rfl, c3, _, rfl, h3, c, _, rfl, rfl,
      d, _, rfl, rfl, c6, rest, rfl, h6, rfl⟩ := hcodes
    obtain rfl : c0 = '$' := toNat_eq_iff.mpr h0
    obtain rfl : c1 = '2' := toNat_eq_iff.mpr h1
    obtain rfl : c3 = '$' := toNat_eq_iff.mpr h3
    obtain rfl : c6 = '$' := toNat_eq_iff.mpr h6
    simp only [bcryptShaped, Bool.and_eq_true, isDigit_iff, decide_eq_true_eq]
    exact ⟨⟨⟨⟨contains_versions.mpr hversion, hc⟩, hd⟩, (List.length_map _).symm.trans hlength⟩,
      (all_iff fun c ↦ isAlphanum_iff).mpr hrest⟩

theorem dollar_notMem {part : List Char} (h : ∀ n ∈ part.map Char.toNat, IsHex n) : '$' ∉ part :=
  fun hmem ↦ (h _ (List.mem_map_of_mem hmem)).ne_separator rfl

theorem pbkdf2Shaped_iff {l : List Char} :
    pbkdf2Shaped l = true ↔ Pbkdf2Shape (l.map Char.toNat) := by
  constructor
  · intro h
    rw [pbkdf2Shaped] at h
    split at h
    · next name iterations salt digest hsplit =>
      simp only [Bool.and_eq_true, decide_eq_true_eq, Bool.not_eq_true',
        List.isEmpty_eq_false_iff] at h
      obtain ⟨⟨⟨⟨⟨⟨rfl, hne⟩, hdigits⟩, hsalt⟩, hsaltHex⟩, hdigest⟩, hdigestHex⟩ := h
      have hjoin : ['$'].intercalate (l.splitOn '$') = l := List.intercalate_splitOn '$'
      refine ⟨iterations.map Char.toNat, salt.map Char.toNat, digest.map Char.toNat, ?_,
        ⟨fun hnil ↦ hne (List.map_eq_nil_iff.mp hnil), (all_iff fun c ↦ isDigit_iff).mp hdigits⟩,
        ⟨(List.length_map _).trans hsalt, (all_iff fun c ↦ isLowercaseHex_iff).mp hsaltHex⟩,
        ⟨(List.length_map _).trans hdigest, (all_iff fun c ↦ isLowercaseHex_iff).mp hdigestHex⟩⟩
      rw [← hjoin, hsplit]
      simp
    · nomatch h
  · rintro ⟨_, _, _, hcodes, ⟨hne, hdigits⟩, ⟨hsalt, hsaltHex⟩, hdigest, hdigestHex⟩
    obtain ⟨name, c0, iterations, c1, salt, c2, digest, rfl, hname, h0, rfl, h1, rfl, h2, rfl⟩ :=
      exists_parts hcodes
    obtain rfl : name = "pbkdf2".toList :=
      List.map_injective_iff.mpr (fun _ _ ↦ toNat_eq_iff.mpr) (hname.trans rfl)
    obtain rfl : c0 = '$' := toNat_eq_iff.mpr h0
    obtain rfl : c1 = '$' := toNat_eq_iff.mpr h1
    obtain rfl : c2 = '$' := toNat_eq_iff.mpr h2
    rw [pbkdf2Shaped, List.splitOn_append_cons_self_of_not_mem (by decide),
      List.splitOn_append_cons_self_of_not_mem (dollar_notMem fun n hn ↦ Or.inl (hdigits n hn)),
      List.splitOn_append_cons_self_of_not_mem (dollar_notMem hsaltHex),
      List.splitOn_eq_singleton (dollar_notMem hdigestHex)]
    simp only [Bool.and_eq_true, decide_eq_true_eq, Bool.not_eq_true', List.isEmpty_eq_false_iff]
    exact ⟨⟨⟨⟨⟨⟨trivial, fun hnil ↦ hne (by rw [hnil]; rfl)⟩,
      (all_iff fun c ↦ isDigit_iff).mpr hdigits⟩, (List.length_map _).symm.trans hsalt⟩,
      (all_iff fun c ↦ isLowercaseHex_iff).mpr hsaltHex⟩, (List.length_map _).symm.trans hdigest⟩,
      (all_iff fun c ↦ isLowercaseHex_iff).mpr hdigestHex⟩

theorem isCanvasPasswordHash_text_iff {text : String} :
    Agora.isCanvasPasswordHash text = true ↔ HashShape (text.toList.map Char.toNat) := by
  rw [Agora.isCanvasPasswordHash, Bool.or_eq_true, bcryptShaped_iff, pbkdf2Shaped_iff, HashShape]

/-- The units of a character. -/
def utf16 (c : Char) : List UInt16 :=
  if c.toNat < 0x10000 then [c.toNat.toUInt16]
  else [(0xD800 + (c.toNat - 0x10000) / 1024).toUInt16, (0xDC00 + c.toNat % 1024).toUInt16]

theorem flatMap_utf16_of_ascii {l : List Char} (h : ∀ c ∈ l, c.toNat < 128) :
    (l.flatMap utf16).map UInt16.toNat = l.map Char.toNat := by
  induction l with
  | nil => rfl
  | cons c l ih =>
    obtain ⟨hc, hl⟩ := List.forall_mem_cons.mp h
    rw [List.flatMap_cons, utf16, if_pos (by omega), List.singleton_append, List.map_cons,
      List.map_cons, ih hl, Nat.toUInt16, UInt16.toNat_ofNat_of_lt' (by rw [UInt16.size]; omega)]

theorem ascii_of_flatMap_utf16 {l : List Char}
    (h : ∀ u ∈ l.flatMap utf16, u.toNat < 128) : ∀ c ∈ l, c.toNat < 128 := by
  intro c hc
  by_contra hnot
  have hunit : ∃ u ∈ utf16 c, 128 ≤ u.toNat := by
    rw [utf16]
    split
    · refine ⟨_, List.mem_singleton_self _, ?_⟩
      rw [Nat.toUInt16, UInt16.toNat_ofNat_of_lt' (by rw [UInt16.size]; omega)]
      omega
    · have hlt : c.toNat < 0x110000 := by
        rcases c.valid with hvalid | ⟨-, hvalid⟩
        · exact hvalid.trans (by decide)
        · exact hvalid
      refine ⟨_, List.mem_cons_self, ?_⟩
      rw [Nat.toUInt16, UInt16.toNat_ofNat_of_lt' (by rw [UInt16.size]; omega)]
      omega
  obtain ⟨u, hu, hle⟩ := hunit
  exact absurd (h u (List.mem_flatMap.mpr ⟨c, hc, hu⟩)) (not_lt.mpr hle)

theorem hashShape_utf16 (text : String) :
    HashShape ((text.toList.flatMap utf16).map UInt16.toNat) ↔
      HashShape (text.toList.map Char.toNat) := by
  constructor
  · intro h
    have hascii := ascii_of_flatMap_utf16 fun u hu ↦ (h.letters _ (List.mem_map_of_mem hu)).lt
    rwa [flatMap_utf16_of_ascii hascii] at h
  · intro h
    have hascii : ∀ c ∈ text.toList, c.toNat < 128 :=
      fun c hc ↦ (h.letters _ (List.mem_map_of_mem hc)).lt
    rwa [flatMap_utf16_of_ascii hascii]

/-- The units of a text of characters tell a hash as its characters do. -/
theorem isHash_utf16 (text : String) :
    isHash (some (text.toList.flatMap utf16)) = Java.isHash text := by
  rw [Bool.eq_iff_iff, isHash_iff, hashShape_utf16, ← isCanvasPasswordHash_text_iff]
  rfl

/-- The bytes of a text of characters tell a hash as its characters do. -/
theorem isCanvasPasswordHash_utf16 (text : String) :
    isCanvasPasswordHash (getBytes (text.toList.flatMap utf16)) =
      Agora.isCanvasPasswordHash text := by
  rw [Bool.eq_iff_iff, isCanvasPasswordHash_iff, hashShape_getBytes, hashShape_utf16,
    isCanvasPasswordHash_text_iff]

end Recognition

end Passwords

end Agora
