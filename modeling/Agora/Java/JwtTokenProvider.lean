import Agora.Java.Result
import Mathlib.Data.Countable.Basic
import Mathlib.Logic.Equiv.List

/-!
# Tokens of the Java services

The services sign three kinds of tokens with one key: those of a login, those that the servers of a
canvas read, and those that say that a password has been given. What tells them apart is the subject
and the other claims.

The library that signs is a parameter (`Jwt`). A token is known when it is refused or something that
has been signed; a client can present no others. Times are in milliseconds, but a token holds them
in seconds, so that it runs out up to a second early.
-/

namespace Agora

namespace Java

inductive Claim where
  | text (s : String)
  | number (n : ℤ)
  deriving DecidableEq

/-- What a token says. -/
structure Claims where
  subject : String
  claims : List (String × Claim)
  issuedAt : ℤ
  expiration : ℤ
  deriving DecidableEq

/-- The library, with the key of the services. `verify` looks at the signature only. -/
structure Jwt where
  sign : Claims → String
  verify : String → Option Claims
  verify_sign : ∀ c, verify (sign c) = some c
  not_isBlank_sign : ∀ c, isBlank (sign c) = false

/-- The time as a token holds it. -/
def seconds (ms : ℤ) : ℤ := ms.tdiv 1000

def Claims.expired (c : Claims) (now : ℤ) : Bool := 1000 * c.expiration < now

namespace Jwt

variable (jwt : Jwt) (now : ℤ)

def parseSignedClaims (token : String) : Option Claims :=
  (jwt.verify token).filter fun c ↦ !c.expired now

theorem parseSignedClaims_eq_some {token : String} {c : Claims} :
    jwt.parseSignedClaims now token = some c ↔
      jwt.verify token = some c ∧ now ≤ 1000 * c.expiration := by
  rw [parseSignedClaims, Option.filter_eq_some_iff, Claims.expired, Bool.not_eq_true',
    decide_eq_false_iff_not, Int.not_lt]

/-- A token that the key accepts says what has been signed. -/
def Known (issued : List Claims) (token : String) : Prop :=
  ∀ c, jwt.verify token = some c → c ∈ issued

/-! ## Reading tokens -/

def validateToken (token : String) : Bool := (jwt.parseSignedClaims now token).isSome

def getClaims (token : String) : Result Claims :=
  match jwt.parseSignedClaims now token with
  | some c => .ok c
  | none => .error .unexpected

def getEmailFromToken (token : String) : Result String := do
  let c ← jwt.getClaims now token
  return c.subject

/-- The address of a token. A claim of another type is an error. -/
def getClientIpFromToken (token : String) : Result (Option String) := do
  let c ← jwt.getClaims now token
  match c.claims.lookup "clientIp" with
  | none => return none
  | some (.text ip) => return some ip
  | some (.number _) => .error .unexpected

/-! ## A library -/

theorem countable_claims : Countable Claims := by
  have hchar : Countable Char :=
    Function.Injective.countable (f := Char.toNat) fun _ _ ↦ Char.toNat_inj.mp
  have htext : Countable String :=
    Function.Injective.countable (f := String.toList) fun _ _ ↦ String.toList_inj.mp
  -- what a token says is made of characters and numbers
  let value : Claim → String ⊕ ℤ
    | .text s => .inl s
    | .number n => .inr n
  have hvalue : Countable Claim := by
    refine Function.Injective.countable (f := value) ?_
    rintro (s | m) (t | n) h
    · rw [Sum.inl.inj h]
    · cases h
    · cases h
    · rw [Sum.inr.inj h]
  let parts (c : Claims) := (c.subject, c.claims, c.issuedAt, c.expiration)
  refine Function.Injective.countable (f := parts) ?_
  rintro ⟨subject, claims, issuedAt, expiration⟩ ⟨subject', claims', issuedAt', expiration'⟩ h
  obtain ⟨hsubject, hrest⟩ := Prod.mk.inj h
  obtain ⟨hclaims, hrest⟩ := Prod.mk.inj hrest
  obtain ⟨hissued, hexpiration⟩ := Prod.mk.inj hrest
  dsimp only at hsubject hclaims hissued hexpiration
  rw [hsubject, hclaims, hissued, hexpiration]

theorem exists_sign : ∃ sign : Claims → String, Function.Injective sign ∧
    ∀ c, isBlank (sign c) = false := by
  have hcountable := countable_claims
  obtain ⟨number, hnumber⟩ := Countable.exists_injective_nat Claims
  refine ⟨fun c ↦ .ofList ('.' :: List.replicate (number c) '.'), fun c d h ↦ ?_, fun c ↦ ?_⟩
  · have hlist := List.cons.inj (String.ofList_inj.mp h)
    have hlength := congrArg List.length hlist.2
    rw [List.length_replicate, List.length_replicate] at hlength
    exact hnumber hlength
  · rw [isBlank, String.toList_ofList, List.all_cons]
    rfl

/-- A library that numbers what there is to say. -/
noncomputable def numbered : Jwt where
  sign := exists_sign.choose
  verify := Function.partialInv exists_sign.choose
  verify_sign := Function.partialInv_left exists_sign.choose_spec.1
  not_isBlank_sign := exists_sign.choose_spec.2

end Jwt

/-- How long tokens last, where the kind does not say it. -/
structure JwtTokenProvider extends Jwt where
  expirationMs : ℤ

namespace JwtTokenProvider

/-- Half an hour. -/
def CANVAS_PASSWORD_GRANT_EXPIRATION_MS : ℤ := 30 * 60 * 1000

section Kinds

variable (p : JwtTokenProvider) (now : ℤ)

def loginClaims (email : String) (tagNumber : ℤ) (nickname role clientIp : String) : Claims where
  subject := email
  claims := [("tagNumber", .number tagNumber), ("nickname", .text nickname), ("role", .text role),
    ("clientIp", .text clientIp)]
  issuedAt := seconds now
  expiration := seconds (now + p.expirationMs)

def isRequestId (s : String) : Bool :=
  decide (1 ≤ s.toList.length ∧ s.toList.length ≤ 64) &&
    s.toList.all fun c ↦ c.isAlphanum || ['.', '_', ':', '-'].contains c

def canvasAccessClaims (nickname : String) (tagNumber : ℤ) (canvasId : Int32)
    (clientIp serverHash : String) (settingsRevision : Int64) (requestId : Option String) :
    Claims where
  subject := "canvas-access"
  claims := [("nickname", .text nickname), ("tagNumber", .number tagNumber),
      ("canvasId", .number canvasId.toInt), ("clientIp", .text clientIp),
      ("serverHash", .text serverHash), ("settingsRevision", .number settingsRevision.toInt)] ++
    (requestId.filter isRequestId).toList.map fun id ↦ ("requestId", .text id)
  issuedAt := seconds now
  expiration := seconds (now + p.expirationMs)

def grantClaims (userId : Int64) (canvasId : Int32) (settingsRevision : Int64) : Claims where
  subject := "canvas-password-grant"
  claims := [("userId", .number userId.toInt), ("canvasId", .number canvasId.toInt),
    ("settingsRevision", .number settingsRevision.toInt)]
  issuedAt := seconds now
  expiration := seconds (now + CANVAS_PASSWORD_GRANT_EXPIRATION_MS)

end Kinds

/-! ## Grants -/

/-- Whether a claim is a number that is this one when it is cut to 64 bits. -/
def isLong (n : Int64) : Option Claim → Bool
  | some (.number m) => Int64.ofInt m = n
  | _ => false

/-- The same for 32 bits. -/
def isInt (n : Int32) : Option Claim → Bool
  | some (.number m) => Int32.ofInt m = n
  | _ => false

def grants (c : Claims) (userId : Int64) (canvasId : Int32) (settingsRevision : Int64) : Bool :=
  c.subject = "canvas-password-grant" && isLong userId (c.claims.lookup "userId") &&
    isInt canvasId (c.claims.lookup "canvasId") &&
    isLong settingsRevision (c.claims.lookup "settingsRevision")

def validateCanvasPasswordGrant (p : JwtTokenProvider) (now : ℤ) (token : Option String)
    (userId : Int64) (canvasId : Int32) (settingsRevision : Int64) : Bool :=
  match given token with
  | none => false
  | some token =>
    match p.parseSignedClaims now token with
    | none => false
    | some c => grants c userId canvasId settingsRevision

/-- A grant is good for what it was given for, and for nothing else. -/
theorem grants_grantClaims {now : ℤ} {userId userId' : Int64} {canvasId canvasId' : Int32}
    {settingsRevision settingsRevision' : Int64} :
    grants (grantClaims now userId canvasId settingsRevision) userId' canvasId' settingsRevision' ↔
      userId = userId' ∧ canvasId = canvasId' ∧ settingsRevision = settingsRevision' := by
  simp [grants, grantClaims, isLong, isInt, List.lookup_cons, and_assoc]

/-- No other token is a grant, whatever the address of the account is. -/
theorem not_grants_loginClaims (p : JwtTokenProvider) (now : ℤ) (email : String) (tagNumber : ℤ)
    (nickname role clientIp : String) (userId : Int64) (canvasId : Int32)
    (settingsRevision : Int64) :
    grants (p.loginClaims now email tagNumber nickname role clientIp) userId canvasId
      settingsRevision = false := by
  simp [grants, loginClaims, isLong, List.lookup_cons]

theorem not_grants_canvasAccessClaims (p : JwtTokenProvider) (now : ℤ) (nickname : String)
    (tagNumber : ℤ) (canvasId' : Int32) (clientIp serverHash : String)
    (settingsRevision' : Int64) (requestId : Option String) (userId : Int64) (canvasId : Int32)
    (settingsRevision : Int64) :
    grants (p.canvasAccessClaims now nickname tagNumber canvasId' clientIp serverHash
      settingsRevision' requestId) userId canvasId settingsRevision = false := by
  simp [grants, canvasAccessClaims]

end JwtTokenProvider

end Java

end Agora
