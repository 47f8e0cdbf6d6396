import Agora.Java.Result
import Mathlib.Data.Int.Notation
import Mathlib.Logic.Function.Basic

/-!
# Accounts

The table of users and the operations on it: signing up, the first login with an account elsewhere,
changing a nickname, and deletion, which keeps the row under another nickname. People address each
other by nickname and tag number; the number is one above the highest of the nickname when it is
given out.

A user is told by its place in the table, since rows are never removed. Texts are compared as the
database compares them, by `collate`; `flushes` says whether the persistence layer writes a changed
nickname before it looks up the highest number.
-/

namespace Agora

namespace Accounts

open Java

inductive Role where
  | user
  | admin
  deriving DecidableEq

inductive UserStatus where
  | active
  | suspended
  | withdrawn
  deriving DecidableEq

structure User where
  email : String
  passwordHash : Option String
  nickname : String
  tagNumber : ℤ
  role : Role := .user
  status : UserStatus := .active
  oauthProvider : Option String := none
  oauthId : Option String := none
  deriving DecidableEq

/-- The users, and which of them are using a canvas. -/
structure Table where
  users : List User := []
  accessed : ℕ → Bool := fun _ ↦ false

/-- The number after another, for 32 bits. -/
def increment (n : ℤ) : ℤ := if n = 2147483647 then -2147483648 else n + 1

/-! ## Lookups -/

variable {κ : Type} [DecidableEq κ] (collate : String → κ) (encode : String → String)
  (flushes : Bool)

def existsByEmail (users : List User) (email : String) : Bool :=
  users.any fun u ↦ collate u.email = collate email

def findMaxTagNumberByNicknameForUpdate (users : List User) (nickname : String) : ℤ :=
  (((users.filter fun u ↦ collate u.nickname = collate nickname).map User.tagNumber).max?).getD 0

/-- Whether a user is addressed by a nickname and a number. -/
def hasHandle (nickname : String) (tagNumber : ℤ) (u : User) : Bool :=
  collate u.nickname = collate nickname && u.tagNumber = tagNumber

/-- The user with a nickname and a number. -/
def findByNicknameAndTagNumber (users : List User) (nickname : String) (tagNumber : ℤ) :
    Result (ℕ × User) :=
  match users.zipIdx.filter fun e ↦ hasHandle collate nickname tagNumber e.1 with
  | [] => throwCustom .userNotFound
  | [(u, i)] => .ok (i, u)
  | _ => .error .unexpected

def findByOauthProviderAndOauthId (users : List User) (provider subject : String) :
    Result (Option User) :=
  match users.filter fun u ↦ u.oauthProvider.map collate = some (collate provider)
      && u.oauthId.map collate = some (collate subject) with
  | [] => .ok none
  | [u] => .ok (some u)
  | _ => .error .unexpected

/-- The lookup of the other server, which wants the user to be active and takes the last row. -/
def getActiveUserId (users : List User) (nickname : String) (tagNumber : ℤ) : Option ℕ :=
  if nickname = "" ∨ tagNumber < 0 then none
  else
    ((users.zipIdx.filter fun e ↦ hasHandle collate nickname tagNumber e.1
      && e.1.status = .active).getLast?).map Prod.snd

/-! ## Operations -/

def checkPassword (password : String) : Result Unit :=
  throwIf (72 < password.utf8ByteSize) .invalidInputValue "비밀번호는 UTF-8 기준 72바이트 이하여야 합니다."

def checkEmail (users : List User) (email : String) : Result Unit :=
  throwIf (existsByEmail collate users email) .emailAlreadyExists
    ErrorCode.emailAlreadyExists.message

def nextTagNumber (users : List User) (nickname : String) : ℤ :=
  increment (findMaxTagNumberByNicknameForUpdate collate users nickname)

def Table.add (t : Table) (u : User) : Table := { t with users := t.users ++ [u] }

def signup (t : Table) (email password nickname : String) : Result Table := do
  checkEmail collate t.users email
  checkPassword password
  return t.add { email, passwordHash := some (encode password), nickname,
                 tagNumber := nextTagNumber collate t.users nickname }

/-- Who logs in with an account elsewhere. -/
structure OidcUser where
  subject : Option String
  email : Option String
  emailVerified : Bool
  fullName : Option String

/-- The nickname of a new account: the name there, cut to 100 UTF-16 units. A character that does
not fit is left out as a whole. -/
def googleName (fullName : Option String) : String :=
  .ofList (takeUnits 100 (trim ((given fullName).getD "Google 사용자")).toList)

def checkStatus (u : User) : Result Unit :=
  match u.status with
  | .suspended => throwCustom .userSuspended
  | .withdrawn => throwCustom .userWithdrawn
  | .active => .ok ()

/-- The subject and the address of someone who may log in. -/
def verified (principal : OidcUser) : Result (String × String) :=
  match given principal.subject, given principal.email with
  | some subject, some email => do
    throwIf (!principal.emailVerified || 255 < units email || 255 < units subject)
      .invalidCredentials ErrorCode.invalidCredentials.message
    return (subject, email)
  | _, _ => throwCustom .invalidCredentials

def loginGoogle (t : Table) (principal : OidcUser) : Result Table := do
  let claims ← verified principal
  match ← findByOauthProviderAndOauthId collate t.users "google" claims.1 with
  | some u => do
    checkStatus u
    return t
  | none => do
    checkEmail collate t.users claims.2
    let nickname := googleName principal.fullName
    return t.add { email := claims.2, passwordHash := none, nickname,
                   tagNumber := nextTagNumber collate t.users nickname,
                   oauthProvider := some "google", oauthId := some claims.1 }

/-- Who makes a request. -/
structure Caller where
  userId : Option ℕ
  admin : Bool

def validateSelfOrAdmin (target : ℕ) (caller : Caller) : Result Unit :=
  match caller.userId with
  | none => .error (.custom .unauthorized "로그인이 필요한 요청입니다.")
  | some id => throwIf (id ≠ target && !caller.admin) .accessDenied
      "해당 사용자에 대한 조회/수정/삭제 권한이 없습니다."

structure UpdateUserRequest where
  nickname : Option String
  password : Option String

/-- The nickname a request asks for, if it is another one. -/
def newNickname (request : UpdateUserRequest) (u : User) : Option String :=
  ((given request.nickname).map trim).filter (· ≠ u.nickname)

/-- The highest number of a nickname as it is looked up for a user that has just taken it. Where the
nickname is written first, the user's own number counts. -/
def highestSeen (users : List User) (i : ℕ) (u : User) (nickname : String) : ℤ :=
  findMaxTagNumberByNicknameForUpdate collate
    (if flushes then users.set i { u with nickname } else users) nickname

def renamed (users : List User) (i : ℕ) (u : User) (request : UpdateUserRequest) : User :=
  match newNickname request u with
  | none => u
  | some nickname =>
    { u with nickname, tagNumber := increment (highestSeen collate flushes users i u nickname) }

def changePassword (request : UpdateUserRequest) (u : User) : Result User :=
  match given request.password with
  | none => .ok u
  | some password => do
    checkPassword password
    return { u with passwordHash := some (encode password) }

def Table.put (t : Table) (i : ℕ) (u : User) : Table := { t with users := t.users.set i u }

def updateUser (t : Table) (nickname : String) (tagNumber : ℤ) (request : UpdateUserRequest)
    (caller : Caller) : Result Table := do
  let found ← findByNicknameAndTagNumber collate t.users nickname tagNumber
  validateSelfOrAdmin found.1 caller
  throwIf (found.2.status = .withdrawn) .userWithdrawn "탈퇴한 회원은 수정할 수 없습니다."
  let changed ← changePassword encode request
    (renamed collate flushes t.users found.1 found.2 request)
  return t.put found.1 changed

/-- The nickname of a user that is deleted. -/
def deletedName (hash : String) : String := "deleted user-" ++ hash

/-- Delete a user; the hash comes from the user and the time. -/
def deleteUser (t : Table) (nickname : String) (tagNumber : ℤ) (caller : Caller) (hash : String) :
    Result Table := do
  let found ← findByNicknameAndTagNumber collate t.users nickname tagNumber
  validateSelfOrAdmin found.1 caller
  if found.2.status = .withdrawn then pure t
  else do
    throwIf (t.accessed found.1) .userActive
      "캔버스를 이용 중인 회원은 탈퇴할 수 없습니다. 캔버스 연결을 종료한 뒤 다시 시도해 주세요."
    return t.put found.1 { found.2 with nickname := deletedName hash, status := .withdrawn }

/-! ## Runs -/

/-- A request, or a change of who is using a canvas. -/
inductive Request where
  | signup (email password nickname : String)
  | loginGoogle (principal : OidcUser)
  | updateUser (nickname : String) (tagNumber : ℤ) (request : UpdateUserRequest) (caller : Caller)
  | deleteUser (nickname : String) (tagNumber : ℤ) (caller : Caller) (hash : String)
  | access (id : ℕ) (accessed : Bool)

def answer (t : Table) : Request → Result Table
  | .signup email password nickname => signup collate encode t email password nickname
  | .loginGoogle principal => loginGoogle collate t principal
  | .updateUser nickname tagNumber request caller =>
    updateUser collate encode flushes t nickname tagNumber request caller
  | .deleteUser nickname tagNumber caller hash =>
    deleteUser collate t nickname tagNumber caller hash
  | .access id accessed => .ok { t with accessed := Function.update t.accessed id accessed }

/-- The table after a request; one that fails is rolled back. -/
def after (t : Table) (request : Request) : Table :=
  match answer collate encode flushes t request with
  | .ok t' => t'
  | .error _ => t

end Accounts

end Agora
