import Mathlib.Data.List.DropRight
import Mathlib.Data.Nat.Notation
import Mathlib.Algebra.GroupWithZero.Nat

/-!
# Results and texts of the Java services

A service method returns or throws. The transaction around it is rolled back when it throws.
-/

namespace Agora

namespace Java

/-! ## Results -/

inductive ErrorCode where
  | invalidCredentials
  | userSuspended
  | userWithdrawn
  | unauthorized
  | accessDenied
  | emailAlreadyExists
  | userNotFound
  | userActive
  | canvasNotFound
  | canvasPasswordRequired
  | canvasPasswordInvalid
  | canvasActive
  | elasticsearchIndexNotFound
  | badRequest
  | invalidInputValue
  | internalServerError
  deriving DecidableEq

def ErrorCode.message : ErrorCode → String
  | invalidCredentials => "이메일 또는 비밀번호가 올바르지 않습니다."
  | userSuspended => "정지된 계정입니다. 관리자에게 문의하세요."
  | userWithdrawn => "탈퇴 처리된 계정입니다."
  | unauthorized => "인증이 필요한 요청입니다."
  | accessDenied => "접근 권한이 없습니다."
  | emailAlreadyExists => "이미 사용 중인 이메일입니다."
  | userNotFound => "사용자를 찾을 수 없습니다."
  | userActive => "캔버스를 이용 중인 사용자는 이 작업을 수행할 수 없습니다."
  | canvasNotFound => "캔버스를 찾을 수 없습니다."
  | canvasPasswordRequired => "캔버스 비밀번호가 필요합니다."
  | canvasPasswordInvalid => "캔버스 비밀번호가 올바르지 않습니다."
  | canvasActive => "캔버스가 활성 상태입니다. 해당 캔버스에 접속한 뒤 캔버스 설정에서 변경해 주세요."
  | elasticsearchIndexNotFound => "Elasticsearch 인덱스가 존재하지 않습니다."
  | badRequest => "잘못된 요청입니다."
  | invalidInputValue => "입력값이 유효하지 않습니다."
  | internalServerError => "서버 내부 오류가 발생했습니다."

/-- What a method throws: an error with a code and a text, or anything else. -/
inductive Failure where
  | custom (code : ErrorCode) (message : String)
  | unexpected
  deriving DecidableEq

abbrev Result := Except Failure

variable {α β : Type}

def throwCustom (code : ErrorCode) : Result α := .error (.custom code code.message)

def throwIf (failed : Bool) (code : ErrorCode) (message : String) : Result Unit :=
  if failed then .error (.custom code message) else .ok ()

namespace Result

theorem bind_ok {x : Result α} {f : α → Result β} {b : β} :
    (x >>= f) = .ok b ↔ ∃ a, x = .ok a ∧ f a = .ok b := by
  constructor
  · intro h
    match x with
    | .ok a => exact ⟨a, rfl, h⟩
    | .error e => nomatch h
  · rintro ⟨a, rfl, hf⟩
    exact hf

@[simp] theorem pure_ok {a b : α} : (pure a : Result α) = .ok b ↔ a = b :=
  ⟨Except.ok.inj, congrArg _⟩

@[simp] theorem throwIf_ok {failed : Bool} {code : ErrorCode} {message : String} {u : Unit} :
    throwIf failed code message = .ok u ↔ failed = false := by
  cases failed
  · exact ⟨fun _ ↦ rfl, fun _ ↦ rfl⟩
  · exact ⟨nofun, nofun⟩

end Result

/-! ## Texts -/

def utf16Size (c : Char) : ℕ := if c.toNat < 0x10000 then 1 else 2

/-- The length of a text in UTF-16 units. -/
def units (s : String) : ℕ := (s.toList.map utf16Size).sum

def isWhitespace (c : Char) : Bool :=
  [0x20, 0x1680, 0x2028, 0x2029, 0x205F, 0x3000].contains c.toNat
    || (0x9 ≤ c.toNat && c.toNat ≤ 0xD) || (0x1C ≤ c.toNat && c.toNat ≤ 0x1F)
    || (0x2000 ≤ c.toNat && c.toNat ≤ 0x200A && c.toNat ≠ 0x2007)

def isBlank (s : String) : Bool := s.toList.all isWhitespace

/-- A text that is there and not blank. -/
def given (s : Option String) : Option String := s.filter fun s ↦ !isBlank s

theorem given_of_not_isBlank {s : String} (h : isBlank s = false) : given (some s) = some s := by
  rw [given, Option.filter_some, h]
  rfl

theorem given_of_isBlank {s : String} (h : isBlank s = true) : given (some s) = none := by
  rw [given, Option.filter_some, h]
  rfl

/-- A text without the control characters and blanks at its ends. -/
def trim (s : String) : String :=
  .ofList ((s.toList.dropWhile (·.toNat ≤ 0x20)).rdropWhile (·.toNat ≤ 0x20))

/-- The characters at the start that fit in so many UTF-16 units. -/
def takeUnits : ℕ → List Char → List Char
  | _, [] => []
  | n, c :: l => if utf16Size c ≤ n then c :: takeUnits (n - utf16Size c) l else []

end Java

end Agora
