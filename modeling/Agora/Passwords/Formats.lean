import Agora.Java.Elasticsearch

/-!
# Password formats

The servers hash passwords with PBKDF2, the services with bcrypt, and the services check a password
against either. A stored text is told to be a hash by how it starts.

The two libraries are taken from outside: the digest of a password, a salt and a number of
iterations is the same on both sides, and bcrypt recognizes what it has encoded.
-/

namespace Agora

namespace Passwords

open Java (isHash)

/-! ## Digits -/

/-- A digit of a byte, lower case. -/
def hexDigit (n : ℕ) : Char := if n < 10 then Char.ofNat (0x30 + n) else Char.ofNat (0x57 + n)

def toHex (bytes : List UInt8) : List Char :=
  bytes.flatMap fun b ↦ [hexDigit (b.toNat / 16), hexDigit (b.toNat % 16)]

/-- The value of a digit, of those that a hash has. -/
def hexValue (c : Char) : Option ℕ :=
  if c.isDigit then some (c.toNat - 0x30)
  else if 'a' ≤ c ∧ c ≤ 'f' then some (c.toNat - 0x57)
  else none

def parseHex : List Char → Option (List UInt8)
  | [] => some []
  | [_] => none
  | c :: d :: l => do return UInt8.ofNat (16 * (← hexValue c) + (← hexValue d)) :: (← parseHex l)

theorem hexValue_hexDigit {n : ℕ} (h : n < 16) : hexValue (hexDigit n) = some n := by
  revert n
  decide

theorem isLowercaseHex_hexDigit {n : ℕ} (h : n < 16) : isLowercaseHex (hexDigit n) = true := by
  revert n
  decide

theorem halves_lt (b : UInt8) : b.toNat / 16 < 16 ∧ b.toNat % 16 < 16 := by
  have hlt := b.toNat_lt
  omega

theorem parseHex_toHex (bytes : List UInt8) : parseHex (toHex bytes) = some bytes := by
  induction bytes with
  | nil => rfl
  | cons b bytes ih =>
    have hhigh := hexValue_hexDigit (halves_lt b).1
    have hlow := hexValue_hexDigit (halves_lt b).2
    have hbyte : UInt8.ofNat (16 * (b.toNat / 16) + b.toNat % 16) = b := by
      rw [Nat.div_add_mod]
      exact UInt8.ofNat_toNat
    rw [toHex, List.flatMap_cons, List.cons_append, List.cons_append, List.nil_append, parseHex,
      hhigh, hlow, ← toHex, ih]
    exact congrArg (fun c ↦ some (c :: bytes)) hbyte

theorem length_toHex (bytes : List UInt8) : (toHex bytes).length = 2 * bytes.length := by
  induction bytes with
  | nil => rfl
  | cons b bytes ih =>
    rw [toHex, List.flatMap_cons, List.length_append, ← toHex, ih, List.length_cons]
    simp only [List.length_cons, List.length_nil]
    omega

theorem all_toHex (bytes : List UInt8) : (toHex bytes).all isLowercaseHex = true := by
  induction bytes with
  | nil => rfl
  | cons b bytes ih =>
    rw [toHex, List.flatMap_cons, List.all_append, ← toHex, ih, List.all_cons, List.all_cons,
      isLowercaseHex_hexDigit (halves_lt b).1, isLowercaseHex_hexDigit (halves_lt b).2]
    rfl

/-! ## The libraries -/

/-- PBKDF2 with SHA-256 and 32 bytes of digest. -/
structure Pbkdf2 where
  derive : String → List UInt8 → ℕ → List UInt8
  length_derive : ∀ password salt iterations, (derive password salt iterations).length = 32

/-- The encoder of the services. -/
structure BCrypt where
  /-- None when the text is too long. -/
  encode : String → Option String
  verify : String → String → Bool
  encode_shaped : ∀ {password hash}, encode password = some hash → bcryptShaped hash.toList
  verify_encode : ∀ {password hash}, encode password = some hash → password.utf8ByteSize ≤ 72 →
    verify password hash = true

/-- Sixteen random bytes. -/
structure Salt where
  bytes : List UInt8
  length_bytes : bytes.length = 16

/-! ## Hashing on the servers -/

def kIterations : ℕ := 310000

/-- A hash in parts, as a text. -/
def pbkdf2Text (iterations : ℕ) (salt digest : List UInt8) : String :=
  "pbkdf2$" ++ iterations.repr ++ "$" ++ .ofList (toHex salt) ++ "$" ++ .ofList (toHex digest)

section Hashing

variable (pbkdf2 : Pbkdf2)

/-- The salt is missing when OpenSSL fails. -/
def hashCanvasPassword (salt : Option Salt) (password : String) : Option String :=
  if password = "" then none
  else salt.map fun salt ↦
    pbkdf2Text kIterations salt.bytes (pbkdf2.derive password salt.bytes kIterations)

theorem pbkdf2Text_ne (iterations : ℕ) (salt digest : List UInt8) :
    pbkdf2Text iterations salt digest ≠ "" := by
  intro h
  have hlength := congrArg (fun s ↦ s.toList.length) h
  simp [pbkdf2Text] at hlength

/-- A hash is not empty. -/
theorem hashCanvasPassword_ne {salt : Option Salt} {password hash : String}
    (h : hashCanvasPassword pbkdf2 salt password = some hash) : hash ≠ "" := by
  unfold hashCanvasPassword at h
  split_ifs at h
  obtain ⟨_, -, rfl⟩ := Option.map_eq_some_iff.mp h
  exact pbkdf2Text_ne _ _ _

end Hashing

/-- Digests that are all zeros. -/
def zeroPbkdf2 : Pbkdf2 where
  derive _ _ _ := List.replicate 32 0
  length_derive _ _ _ := rfl

def zeroSalt : Salt := ⟨List.replicate 16 0, rfl⟩

end Passwords

end Agora
