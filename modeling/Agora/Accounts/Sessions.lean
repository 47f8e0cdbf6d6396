import Agora.Accounts.Handles
import Agora.Java.JwtTokenProvider

/-!
# Logins and what they allow

A login gives out a token that names the account by its e-mail. A filter reads the token of every
later request, and the account that it finds is who makes the request.

Tokens are signed with one key, also those of other kinds, and a token stays good when the account
gets another nickname or another password. `authenticated_iff`: all the same, a request is made by
an account exactly when it brings the token of a login of that account, from the address of the
login and in time, and the account is active. `changed_by_owner`: an account is changed by its owner
or an administrator only, after a login with what that account is protected by.
-/

namespace Agora

namespace Sessions

open Accounts Java

/-! ## Looking up -/

/-- The user that a test picks, with its place. More than one is an error. -/
def findOne (users : List User) (test : User → Bool) : Result (Option (ℕ × User)) :=
  match users.zipIdx.filter fun e ↦ test e.1 with
  | [] => .ok none
  | [(u, i)] => .ok (some (i, u))
  | _ => .error .unexpected

theorem findOne_ok {users : List User} {test : User → Bool} {i : ℕ} {u : User}
    (h : findOne users test = .ok (some (i, u))) : users[i]? = some u ∧ test u = true := by
  rw [findOne] at h
  split at h
  · cases h
  · next u' i' hfilter =>
    obtain ⟨rfl, rfl⟩ := Prod.mk.inj (Option.some.inj (Except.ok.inj h))
    have hmem := List.mem_filter.mp (hfilter ▸ List.mem_singleton_self (u', i'))
    exact ⟨List.mk_mem_zipIdx_iff_getElem?.mp hmem.1, hmem.2⟩
  · cases h

theorem findOne_eq {users : List User} {test : User → Bool} {i : ℕ} {u : User}
    (hu : users[i]? = some u) (htest : test u = true)
    (honly : ∀ j v, users[j]? = some v → test v = true → j = i) :
    findOne users test = .ok (some (i, u)) := by
  have hmem : (u, i) ∈ users.zipIdx.filter fun e ↦ test e.1 :=
    List.mem_filter.mpr ⟨List.mk_mem_zipIdx_iff_getElem?.mpr hu, htest⟩
  have hall : ∀ e ∈ users.zipIdx.filter (fun e ↦ test e.1), e.2 = i := by
    rintro ⟨v, j⟩ he
    obtain ⟨hv, hvtest⟩ := List.mem_filter.mp he
    exact honly j v (List.mk_mem_zipIdx_iff_getElem?.mp hv) hvtest
  have hplaces : ((users.zipIdx.filter fun e ↦ test e.1).map Prod.snd).Nodup :=
    (List.filter_sublist.map Prod.snd).nodup (by
      rw [List.zipIdx_map_snd]
      exact List.nodup_range')
  -- Two that are found would have one place.
  rw [findOne]
  generalize users.zipIdx.filter (fun e ↦ test e.1) = found at hmem hall hplaces ⊢
  rcases found with _ | ⟨a, _ | ⟨b, rest⟩⟩
  · cases hmem
  · obtain rfl := List.mem_singleton.mp hmem
    rfl
  · have hsame : a.2 = b.2 := by
      rw [hall a List.mem_cons_self, hall b (List.mem_cons_of_mem a List.mem_cons_self)]
    have hne := (List.nodup_cons.mp hplaces).1
    exact absurd (hsame ▸ List.mem_cons_self) hne

theorem findOne_none {users : List User} {test : User → Bool}
    (hnone : ∀ v ∈ users, test v = false) : findOne users test = .ok none := by
  have hempty : (users.zipIdx.filter fun e ↦ test e.1) = [] := by
    rw [List.filter_eq_nil_iff]
    rintro ⟨v, j⟩ he
    rw [hnone v (List.mem_of_getElem? (List.mk_mem_zipIdx_iff_getElem?.mp he))]
    exact Bool.false_ne_true
  rw [findOne, hempty]

section Services

variable {κ : Type} [DecidableEq κ]

/-- What the services are made with: how the database compares texts, the encoder of passwords,
the check of an e-mail, the tokens. -/
structure Services (κ : Type) where
  collate : String → κ
  encode : String → String
  flushes : Bool
  matchesPassword : String → String → Bool
  isEmail : String → Bool
  tokens : JwtTokenProvider

variable (S : Services κ)

namespace Services

def findByEmail (users : List User) (email : String) : Result (Option (ℕ × User)) :=
  findOne users fun u ↦ S.collate u.email = S.collate email

def linked (subject : String) (u : User) : Bool :=
  u.oauthProvider.map S.collate = some (S.collate "google")
    && u.oauthId.map S.collate = some (S.collate subject)

/-! ## Logging in -/

structure LoginRequest where
  email : String
  password : String

def validLogin (request : LoginRequest) : Bool :=
  !isBlank request.email && S.isEmail request.email && units request.email ≤ 255
    && !isBlank request.password && units request.password ≤ 72

def passes (password : String) (u : User) : Bool :=
  u.passwordHash.any fun hash ↦ S.matchesPassword password hash

def login (t : Table) (request : LoginRequest) : Result (ℕ × User) := do
  match ← S.findByEmail t.users request.email with
  | none => throwCustom .invalidCredentials
  | some (i, u) => do
    checkStatus u
    throwIf (72 < request.password.utf8ByteSize || !S.passes request.password u)
      .invalidCredentials ErrorCode.invalidCredentials.message
    return (i, u)

/-- A login with an account elsewhere, with the place of the user. -/
def loginGoogle (t : Table) (principal : OidcUser) : Result (Table × ℕ × User) := do
  let claims ← verified principal
  match ← findOne t.users (S.linked claims.1) with
  | some (i, u) => do
    checkStatus u
    return (t, i, u)
  | none => do
    checkEmail S.collate t.users claims.2
    let nickname := googleName principal.fullName
    let u : User := { email := claims.2, passwordHash := none, nickname,
                      tagNumber := nextTagNumber S.collate t.users nickname,
                      oauthProvider := some "google", oauthId := some claims.1 }
    return (t.add u, t.users.length, u)

end Services

/-! ## Requests -/

def roleName : Role → String
  | .user => "ROLE_USER"
  | .admin => "ROLE_ADMIN"

/-- What an account has shown to log in. -/
inductive Means where
  | password (supplied : String)
  | google (subject : String)

/-- A login that has succeeded: the account as it was, where and when. -/
structure Session where
  userId : ℕ
  account : User
  means : Means
  clientIp : String
  time : ℤ

/-- The users, the time, what has been signed so far, and the logins so far. -/
structure World where
  table : Table := {}
  now : ℤ := 0
  issued : List Claims := []
  sessions : List Session := []

structure Credentials where
  authorization : Option String
  remoteAddr : String

inductive Authentication where
  | anonymous
  | refused (body : String)
  | user (i : ℕ) (u : User)

def clientIpChanged : String :=
  "\x7b\"status\":401,\"error\":\"UNAUTHORIZED\",\"code\":\"AUTH_004\"," ++
    "\"reason\":\"CLIENT_IP_CHANGED\"," ++
    "\"message\":\"접속 네트워크가 변경되었습니다. 다시 로그인해주세요.\"\x7d"

def invalidToken : String :=
  "\x7b\"status\":401,\"error\":\"UNAUTHORIZED\",\"code\":\"AUTH_004\"," ++
    "\"message\":\"유효하지 않거나 만료된 인증 토큰입니다.\"\x7d"

/-- The token of a header. -/
def resolveToken (authorization : Option String) : Option String :=
  (given authorization).bind fun header ↦
    if "Bearer ".toList.isPrefixOf header.toList then
      given (some (.ofList (header.toList.drop 7)))
    else none

namespace Session

def claims (p : JwtTokenProvider) (s : Session) : Claims :=
  p.loginClaims s.time s.account.email s.account.tagNumber s.account.nickname
    (roleName s.account.role) s.clientIp

/-- The account was active and has shown what it is protected by. -/
def Proved (s : Session) : Prop :=
  s.account.status = .active ∧
    match s.means with
    | .password supplied => S.passes supplied s.account = true
    | .google subject => S.linked subject s.account = true

end Session

namespace World

variable (w : World)

/-- Who makes a request. -/
def doFilterInternal (c : Credentials) : Result Authentication :=
  match resolveToken c.authorization with
  | none => .ok .anonymous
  | some token =>
    if S.tokens.validateToken w.now token then do
      let email ← S.tokens.getEmailFromToken w.now token
      let tokenIp ← S.tokens.getClientIpFromToken w.now token
      -- A token without an address is good from everywhere.
      if tokenIp.any (· ≠ c.remoteAddr) then return .refused clientIpChanged
      match ← S.findByEmail w.table.users email with
      | none => return .refused invalidToken
      | some (i, u) => return if u.status = .active then .user i u else .anonymous
    else .ok .anonymous

def completeLogin (i : ℕ) (u : User) (means : Means) (ip : String) : World :=
  let session : Session := ⟨i, u, means, ip, w.now⟩
  { w with
    issued := w.issued ++ [session.claims S.tokens]
    sessions := w.sessions ++ [session] }

/-- Handle a request that wants an account. -/
def authenticated (c : Credentials) (handle : Caller → Result Table) : Result World := do
  match ← w.doFilterInternal S c with
  | .user i u => return { w with table := ← handle ⟨some i, u.role = .admin⟩ }
  | .refused _ => return w
  | .anonymous => throwCustom .unauthorized

end World

structure SignupRequest where
  email : String
  password : String
  nickname : String

def Services.validSignup (request : SignupRequest) : Bool :=
  !isBlank request.email && S.isEmail request.email && units request.email ≤ 255
    && !isBlank request.password && 6 ≤ units request.password && units request.password ≤ 72
    && !isBlank request.nickname && units request.nickname ≤ 100

def validUpdate (request : UpdateUserRequest) : Bool :=
  request.nickname.all (fun s ↦ 1 ≤ units s && units s ≤ 100)
    && request.password.all fun s ↦ 4 ≤ units s && units s ≤ 72

/-- A request, a token of another kind, a change of who is using a canvas, or time that passes. -/
inductive Request where
  | signup (request : SignupRequest)
  | login (request : Services.LoginRequest) (ip : String)
  | loginGoogle (principal : OidcUser) (ip : String)
  | updateUser (c : Credentials) (nickname : String) (tagNumber : ℤ) (request : UpdateUserRequest)
  | deleteUser (c : Credentials) (nickname : String) (tagNumber : ℤ) (hash : String)
  | accessCanvas (nickname : String) (tagNumber : ℤ) (canvasId : Int32) (ip serverHash : String)
      (settingsRevision : Int64) (requestId : Option String)
  | grant (userId : Int64) (canvasId : Int32) (settingsRevision : Int64)
  | access (id : ℕ) (accessed : Bool)
  | wait (ms : ℕ)

def Request.credentials : Request → Option Credentials
  | updateUser c _ _ _ | deleteUser c _ _ _ => some c
  | _ => none

namespace World

def checkValid (valid : Bool) : Result Unit :=
  throwIf (!valid) .invalidInputValue ErrorCode.invalidInputValue.message

def sign (w : World) (claims : Claims) : World := { w with issued := w.issued ++ [claims] }

def answer (w : World) : Request → Result World
  | .signup request => do
    checkValid (S.validSignup request)
    return { w with
      table := ← signup S.collate S.encode w.table request.email request.password request.nickname }
  | .login request ip => do
    checkValid (S.validLogin request)
    let found ← S.login w.table request
    return w.completeLogin S found.1 found.2 (.password request.password) ip
  | .loginGoogle principal ip => do
    let claims ← verified principal
    let found ← S.loginGoogle w.table principal
    return { w with table := found.1 }.completeLogin S found.2.1 found.2.2 (.google claims.1) ip
  | .updateUser c nickname tagNumber request => w.authenticated S c fun caller ↦ do
    checkValid (validUpdate request)
    updateUser S.collate S.encode S.flushes w.table nickname tagNumber request caller
  | .deleteUser c nickname tagNumber hash => w.authenticated S c fun caller ↦
    deleteUser S.collate w.table nickname tagNumber caller hash
  | .accessCanvas nickname tagNumber canvasId ip serverHash settingsRevision requestId =>
    .ok (w.sign (S.tokens.canvasAccessClaims w.now nickname tagNumber canvasId ip serverHash
      settingsRevision requestId))
  | .grant userId canvasId settingsRevision =>
    .ok (w.sign (JwtTokenProvider.grantClaims w.now userId canvasId settingsRevision))
  | .access id accessed =>
    .ok { w with
      table := Accounts.after S.collate S.encode S.flushes w.table (.access id accessed) }
  | .wait ms => .ok { w with now := w.now + ms }

/-- The world after a request; one that fails is rolled back. -/
def after (w : World) (request : Request) : World :=
  match w.answer S request with
  | .ok w' => w'
  | .error _ => w

end World

end Services

/-! ## Tables -/

section Tables

variable {κ : Type} [DecidableEq κ] {S : Services κ} {users users' : List User}

/-- What the subjects of the other kinds of tokens are. -/
def otherSubjects : List String := ["canvas-access", "canvas-password-grant"]

/-- An e-mail is not written like one of these subjects. -/
def Services.Addresses (S : Services κ) : Prop :=
  ∀ email, S.isEmail email = true → ∀ subject ∈ otherSubjects,
    S.collate email ≠ S.collate subject

/-- The accounts have e-mails, and each its own. -/
structure Lawful (S : Services κ) (users : List User) : Prop where
  distinct : ∀ (i j : ℕ) (u v : User), users[i]? = some u → users[j]? = some v →
    S.collate u.email = S.collate v.email → i = j
  address : ∀ u ∈ users, ∀ subject ∈ otherSubjects, S.collate u.email ≠ S.collate subject

/-- What a request does to the table: nothing, a change of a row, or a new row with an e-mail of its
own. -/
inductive Grows (S : Services κ) (users : List User) : List User → Prop
  | same : Grows S users users
  | put {i : ℕ} {u u' : User} (hu : users[i]? = some u) (hemail : u'.email = u.email) :
      Grows S users (users.set i u')
  | add {u : User} (hfresh : existsByEmail S.collate users u.email = false)
      (hmail : S.isEmail u.email = true) : Grows S users (users ++ [u])

theorem Grows.row (h : Grows S users users') {i : ℕ} {u : User} (hu : users[i]? = some u) :
    ∃ u', users'[i]? = some u' ∧ u'.email = u.email := by
  cases h with
  | same => exact ⟨u, hu, rfl⟩
  | @put k v v' hv hemail =>
    by_cases hk : k = i
    · subst hk
      obtain rfl := Option.some.inj (hv.symm.trans hu)
      exact ⟨v', List.getElem?_set_self (List.getElem?_eq_some_iff.mp hu).1, hemail⟩
    · exact ⟨u, (List.getElem?_set_ne hk).trans hu, rfl⟩
  | add hfresh hmail =>
    exact ⟨u, (List.getElem?_append_left (List.getElem?_eq_some_iff.mp hu).1).trans hu, rfl⟩

theorem Grows.back (h : Grows S users users') {i : ℕ} {u' : User} (hu : users'[i]? = some u') :
    (∃ u, users[i]? = some u ∧ u'.email = u.email) ∨
      i = users.length ∧ existsByEmail S.collate users u'.email = false ∧
        S.isEmail u'.email = true := by
  cases h with
  | same => exact Or.inl ⟨u', hu, rfl⟩
  | @put k v v' hv hemail =>
    by_cases hk : k = i
    · subst hk
      rw [List.getElem?_set_self (List.getElem?_eq_some_iff.mp hv).1] at hu
      obtain rfl := Option.some.inj hu
      exact Or.inl ⟨v, hv, hemail⟩
    · rw [List.getElem?_set_ne hk] at hu
      exact Or.inl ⟨u', hu, rfl⟩
  | @add v hfresh hmail =>
    by_cases hlt : i < users.length
    · rw [List.getElem?_append_left hlt] at hu
      exact Or.inl ⟨u', hu, rfl⟩
    · rw [List.getElem?_append_right (Nat.le_of_not_lt hlt)] at hu
      obtain ⟨hsmall, hget⟩ := List.getElem?_eq_some_iff.mp hu
      obtain rfl : v = u' := by
        rw [← hget]
        exact (List.getElem_singleton _).symm
      rw [List.length_singleton] at hsmall
      exact Or.inr ⟨by omega, hfresh, hmail⟩

theorem existsByEmail_false {email : String} (h : existsByEmail S.collate users email = false)
    {u : User} (hu : u ∈ users) : S.collate u.email ≠ S.collate email := by
  rw [existsByEmail, List.any_eq_false] at h
  exact fun hsame ↦ h u hu (decide_eq_true hsame)

theorem Lawful.grows (hmail : S.Addresses) (hlawful : Lawful S users) (h : Grows S users users') :
    Lawful S users' where
  -- A new row differs from the old ones, since its e-mail was not there.
  distinct i j u v hu hv hsame := by
    rcases h.back hu with ⟨u₀, hu₀, hue⟩ | ⟨hi, hufresh, -⟩
    · rcases h.back hv with ⟨v₀, hv₀, hve⟩ | ⟨-, hvfresh, -⟩
      · rw [hue, hve] at hsame
        exact hlawful.distinct i j u₀ v₀ hu₀ hv₀ hsame
      · rw [hue] at hsame
        exact absurd hsame (existsByEmail_false hvfresh (List.mem_of_getElem? hu₀))
    · rcases h.back hv with ⟨v₀, hv₀, hve⟩ | ⟨hj, -, -⟩
      · rw [hve] at hsame
        exact absurd hsame.symm (existsByEmail_false hufresh (List.mem_of_getElem? hv₀))
      · rw [hi, hj]
  address u hu := by
    obtain ⟨i, hi⟩ := List.getElem?_of_mem hu
    rcases h.back hi with ⟨u₀, hu₀, hue⟩ | ⟨-, -, hemail⟩
    · rw [hue]
      exact hlawful.address u₀ (List.mem_of_getElem? hu₀)
    · exact hmail _ hemail

end Tables

/-! ## What a request can do -/

section Requests

variable {κ : Type} [DecidableEq κ] {S : Services κ} {w w' : World}

/-- What is signed with a request. -/
inductive Signs (S : Services κ) (w : World) : World → Prop
  | nothing {w' : World} (hissued : w'.issued = w.issued) (hsessions : w'.sessions = w.sessions) :
      Signs S w w'
  | other {w' : World} (claims : Claims) (hother : claims.subject ∈ otherSubjects)
      (hissued : w'.issued = w.issued ++ [claims]) (hsessions : w'.sessions = w.sessions) :
      Signs S w w'
  | login {w' : World} (session : Session) (hproved : session.Proved S)
      (hrow : w'.table.users[session.userId]? = some session.account)
      (hissued : w'.issued = w.issued ++ [session.claims S.tokens])
      (hsessions : w'.sessions = w.sessions ++ [session]) : Signs S w w'

/-- Whoever changes a row is its owner or an administrator. -/
def Owned (S : Services κ) (w w' : World) (request : Request) : Prop :=
  ∀ i u, w.table.users[i]? = some u → w'.table.users[i]? ≠ some u →
    ∃ c j v, request.credentials = some c ∧ w.doFilterInternal S c = .ok (.user j v) ∧
      (j = i ∨ v.role = .admin)

/-- What a request brings: no token that has not been signed, and from elsewhere only e-mails. -/
structure Presentable (S : Services κ) (w : World) (request : Request) : Prop where
  known : ∀ c token, request.credentials = some c → resolveToken c.authorization = some token →
    S.tokens.Known w.issued token
  address : ∀ principal ip email, request = .loginGoogle principal ip →
    principal.email = some email → S.isEmail email = true

structure Handled (S : Services κ) (w : World) (request : Request) (w' : World) : Prop where
  grows : Grows S w.table.users w'.table.users
  signs : Signs S w w'
  owned : Owned S w w' request

theorem Owned.of_grows_add {request : Request} {u : User}
    (h : w'.table.users = w.table.users ++ [u]) : Owned S w w' request := by
  intro i v hv hchanged
  rw [h, List.getElem?_append_left (List.getElem?_eq_some_iff.mp hv).1] at hchanged
  exact absurd hv hchanged

theorem Owned.of_same {request : Request} (h : w'.table.users = w.table.users) :
    Owned S w w' request := by
  intro i v hv hchanged
  rw [h] at hchanged
  exact absurd hv hchanged

theorem Handled.same {request : Request} (h : w'.table.users = w.table.users)
    (hsigns : Signs S w w') : Handled S w request w' where
  grows := h ▸ .same
  signs := hsigns
  owned := .of_same h

theorem self_or_admin {target i : ℕ} {admin : Bool}
    (h : validateSelfOrAdmin target ⟨some i, admin⟩ = .ok ()) : i = target ∨ admin = true := by
  rw [validateSelfOrAdmin] at h
  have hfailed := Result.throwIf_ok.mp h
  by_cases hi : i = target
  · exact Or.inl hi
  · rw [decide_eq_true (Ne.intro hi), Bool.true_and] at hfailed
    exact Or.inr (by simpa using hfailed)

theorem changePassword_email {encode : String → String} {request : UpdateUserRequest} {u u' : User}
    (h : changePassword encode request u = .ok u') : u'.email = u.email := by
  rw [changePassword] at h
  split at h
  · rw [Except.ok.inj h]
  · obtain ⟨_, -, h⟩ := Result.bind_ok.mp h
    rw [← Result.pure_ok.mp h]

theorem renamed_email {collate : String → κ} {flushes : Bool} {users : List User} {i : ℕ} {u : User}
    {request : UpdateUserRequest} :
    (renamed collate flushes users i u request).email = u.email := by
  rw [renamed]
  split
  · rfl
  · rfl

/-- A change puts a row in the place of one that the caller may change. -/
theorem updateUser_put {t t' : Table} {nickname : String} {tagNumber : ℤ}
    {request : UpdateUserRequest} {caller : Caller}
    (h : updateUser S.collate S.encode S.flushes t nickname tagNumber request caller = .ok t') :
    ∃ i u u', t.users[i]? = some u ∧ u'.email = u.email ∧ t'.users = t.users.set i u' ∧
      validateSelfOrAdmin i caller = .ok () := by
  obtain ⟨⟨i, u⟩, hfound, h⟩ := Result.bind_ok.mp h
  obtain ⟨⟨⟩, hcaller, h⟩ := Result.bind_ok.mp h
  obtain ⟨_, -, h⟩ := Result.bind_ok.mp h
  obtain ⟨changed, hchanged, h⟩ := Result.bind_ok.mp h
  rw [← Result.pure_ok.mp h]
  exact ⟨i, u, changed, (findByNickname_ok hfound).1,
    (changePassword_email hchanged).trans renamed_email, rfl, hcaller⟩

theorem deleteUser_put {t t' : Table} {nickname hash : String} {tagNumber : ℤ} {caller : Caller}
    (h : deleteUser S.collate t nickname tagNumber caller hash = .ok t') :
    t' = t ∨ ∃ i u u', t.users[i]? = some u ∧ u'.email = u.email ∧ t'.users = t.users.set i u' ∧
      validateSelfOrAdmin i caller = .ok () := by
  obtain ⟨⟨i, u⟩, hfound, h⟩ := Result.bind_ok.mp h
  obtain ⟨⟨⟩, hcaller, h⟩ := Result.bind_ok.mp h
  split at h
  · exact Or.inl (Result.pure_ok.mp h).symm
  · obtain ⟨_, -, h⟩ := Result.bind_ok.mp h
    rw [← Result.pure_ok.mp h]
    exact Or.inr ⟨i, u, { u with nickname := deletedName hash, status := .withdrawn },
      (findByNickname_ok hfound).1, rfl, rfl, hcaller⟩

end Requests


section Steps

variable {κ : Type} [DecidableEq κ] {S : Services κ} {w w' : World}

theorem checkStatus_active {u : User} {x : Unit} (h : checkStatus u = .ok x) :
    u.status = .active := by
  rw [checkStatus] at h
  split at h
  · cases h
  · cases h
  · assumption

theorem login_ok {t : Table} {request : Services.LoginRequest} {i : ℕ} {u : User}
    (h : S.login t request = .ok (i, u)) :
    t.users[i]? = some u ∧ u.status = .active ∧ S.passes request.password u = true := by
  obtain ⟨found, hfound, h⟩ := Result.bind_ok.mp h
  rcases found with _ | ⟨j, v⟩
  · cases h
  · obtain ⟨_, hstatus, h⟩ := Result.bind_ok.mp h
    obtain ⟨_, hpassword, h⟩ := Result.bind_ok.mp h
    obtain ⟨rfl, rfl⟩ := Prod.mk.inj (Result.pure_ok.mp h)
    have hfailed := Result.throwIf_ok.mp hpassword
    rw [Bool.or_eq_false_iff, Bool.not_eq_false'] at hfailed
    exact ⟨(findOne_ok hfound).1, checkStatus_active hstatus, hfailed.2⟩

theorem checkEmail_ok {users : List User} {email : String} {x : Unit}
    (h : checkEmail S.collate users email = .ok x) : existsByEmail S.collate users email = false :=
  Result.throwIf_ok.mp h

theorem loginGoogle_ok {t t' : Table} {principal : OidcUser} {claims : String × String} {i : ℕ}
    {u : User} (hclaims : verified principal = .ok claims)
    (hmail : S.isEmail claims.2 = true) (h : S.loginGoogle t principal = .ok (t', i, u)) :
    t'.users[i]? = some u ∧ u.status = .active ∧ S.linked claims.1 u = true ∧
      (t' = t ∨ existsByEmail S.collate t.users u.email = false ∧ S.isEmail u.email = true ∧
        t'.users = t.users ++ [u]) := by
  obtain ⟨claims', hclaims', h⟩ := Result.bind_ok.mp h
  obtain rfl := Except.ok.inj (hclaims.symm.trans hclaims')
  obtain ⟨found, hfound, h⟩ := Result.bind_ok.mp h
  rcases found with _ | ⟨j, v⟩
  · obtain ⟨_, hfresh, h⟩ := Result.bind_ok.mp h
    obtain ⟨ht, hfound⟩ := Prod.mk.inj (Result.pure_ok.mp h)
    obtain ⟨rfl, rfl⟩ := Prod.mk.inj hfound
    subst ht
    refine ⟨?_, rfl, ?_, Or.inr ⟨checkEmail_ok hfresh, hmail, rfl⟩⟩
    · rw [Table.add, List.getElem?_append_right (Nat.le_refl _), Nat.sub_self]
      rfl
    · rw [Services.linked]
      exact Bool.and_eq_true_iff.mpr ⟨decide_eq_true rfl, decide_eq_true rfl⟩
  · obtain ⟨_, hstatus, h⟩ := Result.bind_ok.mp h
    obtain ⟨rfl, hsame⟩ := Prod.mk.inj (Result.pure_ok.mp h)
    obtain ⟨rfl, rfl⟩ := Prod.mk.inj hsame
    exact ⟨(findOne_ok hfound).1, checkStatus_active hstatus, (findOne_ok hfound).2, Or.inl rfl⟩

theorem verified_email {principal : OidcUser} {claims : String × String}
    (h : verified principal = .ok claims) : principal.email = some claims.2 := by
  rw [verified] at h
  split at h
  · next subject email hsubject hemail =>
    obtain ⟨_, -, h⟩ := Result.bind_ok.mp h
    rw [← Result.pure_ok.mp h]
    exact (Option.filter_eq_some_iff.mp hemail).1
  · cases h

theorem signs_login {w₀ : World} {i : ℕ} {u : User} {means : Means} {ip : String}
    (hrow : w₀.table.users[i]? = some u)
    (hmeans : Session.Proved S ⟨i, u, means, ip, w₀.now⟩) (hissued : w₀.issued = w.issued)
    (hsessions : w₀.sessions = w.sessions) : Signs S w (w₀.completeLogin S i u means ip) := by
  refine .login ⟨i, u, means, ip, w₀.now⟩ hmeans hrow ?_ ?_
  · rw [World.completeLogin, hissued]
  · rw [World.completeLogin, hsessions]

/-- A request that wants an account comes from one, or changes nothing. -/
theorem authenticated_ok {c : Credentials} {handle : Caller → Result Table}
    (h : w.authenticated S c handle = .ok w') :
    w' = w ∨ ∃ j v t, w.doFilterInternal S c = .ok (.user j v) ∧
      handle ⟨some j, v.role = .admin⟩ = .ok t ∧ w' = { w with table := t } := by
  obtain ⟨found, hfound, h⟩ := Result.bind_ok.mp h
  cases found with
  | anonymous => cases h
  | refused body => exact Or.inl (Result.pure_ok.mp h).symm
  | user j v =>
    obtain ⟨t, ht, h⟩ := Result.bind_ok.mp h
    exact Or.inr ⟨j, v, t, hfound, ht, (Result.pure_ok.mp h).symm⟩

theorem handled_of_put {request : Request} {c : Credentials} {t : Table} {i j : ℕ} {u u' v : User}
    (hc : request.credentials = some c) (hfound : w.doFilterInternal S c = .ok (.user j v))
    (hu : w.table.users[i]? = some u) (hemail : u'.email = u.email)
    (ht : t.users = w.table.users.set i u')
    (hcaller : validateSelfOrAdmin i ⟨some j, v.role = .admin⟩ = .ok ()) :
    Handled S w request { w with table := t } where
  grows := ht ▸ .put hu hemail
  signs := .nothing rfl rfl
  owned k x hx hchanged := by
    dsimp only at hchanged
    rw [ht] at hchanged
    -- Only the row that was put differs.
    by_cases hk : i = k
    · subst hk
      refine ⟨c, j, v, hc, hfound, (self_or_admin hcaller).imp_right of_decide_eq_true⟩
    · rw [List.getElem?_set_ne hk] at hchanged
      exact absurd hx hchanged

theorem answer_handled {request : Request} (hpresent : Presentable S w request)
    (h : w.answer S request = .ok w') : Handled S w request w' := by
  cases request with
  | signup request =>
    obtain ⟨_, hvalid, h⟩ := Result.bind_ok.mp h
    obtain ⟨t, ht, h⟩ := Result.bind_ok.mp h
    rw [← Result.pure_ok.mp h]
    obtain ⟨_, hfresh, ht⟩ := Result.bind_ok.mp ht
    obtain ⟨_, -, ht⟩ := Result.bind_ok.mp ht
    rw [← Result.pure_ok.mp ht]
    have hmail : S.isEmail request.email = true := by
      have hchecked := Result.throwIf_ok.mp hvalid
      simp only [Bool.not_eq_false', Services.validSignup, Bool.and_eq_true] at hchecked
      exact hchecked.1.1.1.1.1.1.2
    exact ⟨.add (checkEmail_ok hfresh) hmail, .nothing rfl rfl, .of_grows_add rfl⟩
  | login request ip =>
    obtain ⟨_, -, h⟩ := Result.bind_ok.mp h
    obtain ⟨⟨i, u⟩, hfound, h⟩ := Result.bind_ok.mp h
    rw [← Result.pure_ok.mp h]
    obtain ⟨hrow, hactive, hpasses⟩ := login_ok hfound
    exact .same rfl (signs_login hrow ⟨hactive, hpasses⟩ rfl rfl)
  | loginGoogle principal ip =>
    obtain ⟨claims, hclaims, h⟩ := Result.bind_ok.mp h
    obtain ⟨⟨t, i, u⟩, hfound, h⟩ := Result.bind_ok.mp h
    rw [← Result.pure_ok.mp h]
    have hmail := hpresent.address principal ip claims.2 rfl (verified_email hclaims)
    -- The account may be a new one; it is active then.
    obtain ⟨hrow, hactive, hlinked, htable⟩ := loginGoogle_ok hclaims hmail hfound
    have hsigns : Signs S w ({ w with table := t }.completeLogin S i u (.google claims.1) ip) :=
      signs_login hrow ⟨hactive, hlinked⟩ rfl rfl
    rcases htable with rfl | ⟨hfresh, hemail, hadd⟩
    · exact .same rfl hsigns
    · refine ⟨?_, hsigns, .of_grows_add hadd⟩
      have hgrows := Grows.add hfresh hemail
      exact hadd.symm ▸ hgrows
  | updateUser c nickname tagNumber request =>
    rw [World.answer] at h
    rcases authenticated_ok h with rfl | ⟨j, v, t, hfound, ht, rfl⟩
    · exact .same rfl (.nothing rfl rfl)
    · obtain ⟨_, -, ht⟩ := Result.bind_ok.mp ht
      obtain ⟨i, u, u', hu, hemail, hput, hcaller⟩ := updateUser_put ht
      exact handled_of_put rfl hfound hu hemail hput hcaller
  | deleteUser c nickname tagNumber hash =>
    rw [World.answer] at h
    rcases authenticated_ok h with rfl | ⟨j, v, t, hfound, ht, rfl⟩
    · exact .same rfl (.nothing rfl rfl)
    · rcases deleteUser_put ht with rfl | ⟨i, u, u', hu, hemail, hput, hcaller⟩
      · exact .same rfl (.nothing rfl rfl)
      · exact handled_of_put rfl hfound hu hemail hput hcaller
  | accessCanvas nickname tagNumber canvasId ip serverHash settingsRevision requestId =>
    rw [← Except.ok.inj h]
    exact .same rfl (.other _ List.mem_cons_self rfl rfl)
  | grant userId canvasId settingsRevision =>
    rw [← Except.ok.inj h]
    exact .same rfl (.other _ (List.mem_cons_of_mem _ List.mem_cons_self) rfl rfl)
  | access id accessed =>
    rw [← Except.ok.inj h]
    exact .same rfl (.nothing rfl rfl)
  | wait ms =>
    rw [← Except.ok.inj h]
    exact .same rfl (.nothing rfl rfl)

/-- **A request** adds a row or changes one that it may change, and signs a token for a login that
has succeeded, or one of another kind. -/
theorem after_handled {request : Request} (hpresent : Presentable S w request) :
    Handled S w request (w.after S request) := by
  rw [World.after]
  rcases h : w.answer S request with e | w'
  · exact .same rfl (.nothing rfl rfl)
  · exact answer_handled hpresent h

/-! ## The table -/

theorem findByOauth_eq (users : List User) (subject : String) :
    findByOauthProviderAndOauthId S.collate users "google" subject
      = (findOne users (S.linked subject)).map (Option.map Prod.snd) := by
  have hfilter : (users.filter fun u ↦ u.oauthProvider.map S.collate = some (S.collate "google")
      && u.oauthId.map S.collate = some (S.collate subject))
      = (users.zipIdx.filter fun e ↦ S.linked subject e.1).map Prod.fst := by
    conv_lhs => rw [← List.zipIdx_map_fst 0 users, List.filter_map]
    rfl
  rw [findByOauthProviderAndOauthId, hfilter, findOne]
  generalize users.zipIdx.filter (fun e ↦ S.linked subject e.1) = found
  rcases found with _ | ⟨a, _ | ⟨b, rest⟩⟩
  · rfl
  · rfl
  · rfl

/-- The table after a login elsewhere. -/
theorem loginGoogle_table {t t' : Table} {principal : OidcUser} {found : ℕ × User}
    (h : S.loginGoogle t principal = .ok (t', found)) :
    Accounts.loginGoogle S.collate t principal = .ok t' := by
  obtain ⟨claims, hclaims, h⟩ := Result.bind_ok.mp h
  obtain ⟨one, hone, h⟩ := Result.bind_ok.mp h
  refine Result.bind_ok.mpr ⟨claims, hclaims, Result.bind_ok.mpr ⟨one.map Prod.snd, ?_, ?_⟩⟩
  · rw [findByOauth_eq, hone]
    rfl
  · rcases one with _ | ⟨i, u⟩
    · obtain ⟨x, hfresh, h⟩ := Result.bind_ok.mp h
      exact Result.bind_ok.mpr ⟨x, hfresh, congrArg _ (Prod.mk.inj (Result.pure_ok.mp h)).1⟩
    · obtain ⟨x, hstatus, h⟩ := Result.bind_ok.mp h
      exact Result.bind_ok.mpr ⟨x, hstatus, congrArg _ (Prod.mk.inj (Result.pure_ok.mp h)).1⟩

theorem after_of_answer {t t' : Table} {r : Accounts.Request}
    (h : Accounts.answer S.collate S.encode S.flushes t r = .ok t') :
    Accounts.after S.collate S.encode S.flushes t r = t' := by
  rw [Accounts.after, h]

/-- What is done to the table is done by a request of `Accounts`, made by who is authenticated. -/
theorem after_table (request : Request) :
    (w.after S request).table = w.table ∨ ∃ r : Accounts.Request,
      (w.after S request).table = Accounts.after S.collate S.encode S.flushes w.table r := by
  rw [World.after]
  rcases h : w.answer S request with e | w'
  · exact Or.inl rfl
  dsimp only
  cases request with
  | signup request =>
    obtain ⟨_, -, h⟩ := Result.bind_ok.mp h
    obtain ⟨t, ht, h⟩ := Result.bind_ok.mp h
    rw [← Result.pure_ok.mp h]
    let r : Accounts.Request := .signup request.email request.password request.nickname
    exact Or.inr ⟨r, (after_of_answer (r := r) ht).symm⟩
  | login request ip =>
    obtain ⟨_, -, h⟩ := Result.bind_ok.mp h
    obtain ⟨found, -, h⟩ := Result.bind_ok.mp h
    rw [← Result.pure_ok.mp h]
    exact Or.inl rfl
  | loginGoogle principal ip =>
    obtain ⟨claims, -, h⟩ := Result.bind_ok.mp h
    obtain ⟨⟨t, found⟩, hfound, h⟩ := Result.bind_ok.mp h
    rw [← Result.pure_ok.mp h]
    let r : Accounts.Request := .loginGoogle principal
    exact Or.inr ⟨r, (after_of_answer (r := r) (loginGoogle_table hfound)).symm⟩
  | updateUser c nickname tagNumber request =>
    rw [World.answer] at h
    rcases authenticated_ok h with rfl | ⟨j, v, t, -, ht, rfl⟩
    · exact Or.inl rfl
    · obtain ⟨_, -, ht⟩ := Result.bind_ok.mp ht
      let r : Accounts.Request :=
        .updateUser nickname tagNumber request ⟨some j, v.role = .admin⟩
      exact Or.inr ⟨r, (after_of_answer (r := r) ht).symm⟩
  | deleteUser c nickname tagNumber hash =>
    rw [World.answer] at h
    rcases authenticated_ok h with rfl | ⟨j, v, t, -, ht, rfl⟩
    · exact Or.inl rfl
    · let r : Accounts.Request := .deleteUser nickname tagNumber ⟨some j, v.role = .admin⟩ hash
      exact Or.inr ⟨r, (after_of_answer (r := r) ht).symm⟩
  | accessCanvas nickname tagNumber canvasId ip serverHash settingsRevision requestId =>
    rw [← Except.ok.inj h]
    exact Or.inl rfl
  | grant userId canvasId settingsRevision =>
    rw [← Except.ok.inj h]
    exact Or.inl rfl
  | access id accessed =>
    rw [← Except.ok.inj h]
    exact Or.inr ⟨.access id accessed, rfl⟩
  | wait ms =>
    rw [← Except.ok.inj h]
    exact Or.inl rfl

/-! ## Runs -/

variable (S)

/-- A database that is lawful, before the services have signed anything. -/
structure Fresh (w : World) : Prop where
  lawful : Lawful S w.table.users
  issued : w.issued = []
  sessions : w.sessions = []

inductive Reachable (start : World) : World → Prop
  | start : Reachable start start
  | step {w : World} (h : Reachable start w) (request : Request)
      (hpresent : Presentable S w request) : Reachable start (w.after S request)

/-- What is signed is for a login that has succeeded, or of another kind, and the account of a login
keeps its e-mail. -/
structure Inv (w : World) : Prop where
  lawful : Lawful S w.table.users
  issued : ∀ c ∈ w.issued, c.subject ∈ otherSubjects ∨ ∃ s ∈ w.sessions, s.claims S.tokens = c
  proved : ∀ s ∈ w.sessions, s.Proved S
  kept : ∀ s ∈ w.sessions, ∃ u, w.table.users[s.userId]? = some u ∧ u.email = s.account.email

variable {S} {start : World}

theorem Inv.of_fresh (h : Fresh S w) : Inv S w where
  lawful := h.lawful
  issued c hc := by
    rw [h.issued] at hc
    cases hc
  proved s hs := by
    rw [h.sessions] at hs
    cases hs
  kept s hs := by
    rw [h.sessions] at hs
    cases hs

theorem Inv.handled (hmail : S.Addresses) (hinv : Inv S w) {request : Request}
    (h : Handled S w request w') : Inv S w' := by
  have hkept : ∀ s ∈ w.sessions,
      ∃ u, w'.table.users[s.userId]? = some u ∧ u.email = s.account.email := by
    intro s hs
    obtain ⟨u, hu, hemail⟩ := hinv.kept s hs
    obtain ⟨u', hu', hsame⟩ := h.grows.row hu
    exact ⟨u', hu', hsame.trans hemail⟩
  cases h.signs with
  | nothing hissued hsessions =>
    refine ⟨hinv.lawful.grows hmail h.grows, ?_, ?_, ?_⟩
    · rw [hissued, hsessions]
      exact hinv.issued
    · rw [hsessions]
      exact hinv.proved
    · rw [hsessions]
      exact hkept
  | other claims hother hissued hsessions =>
    refine ⟨hinv.lawful.grows hmail h.grows, ?_, ?_, ?_⟩
    · intro c hc
      rw [hissued] at hc
      rw [hsessions]
      rcases List.mem_append.mp hc with hc | hc
      · exact hinv.issued c hc
      · rw [List.mem_singleton.mp hc]
        exact Or.inl hother
    · rw [hsessions]
      exact hinv.proved
    · rw [hsessions]
      exact hkept
  | login session hproved hrow hissued hsessions =>
    refine ⟨hinv.lawful.grows hmail h.grows, ?_, ?_, ?_⟩
    · intro c hc
      rw [hissued] at hc
      rw [hsessions]
      -- An older token is for an older login, and the new one is for the login that is added.
      rcases List.mem_append.mp hc with hc | hc
      · refine (hinv.issued c hc).imp_right ?_
        rintro ⟨s, hs, hclaims⟩
        exact ⟨s, List.mem_append_left _ hs, hclaims⟩
      · rw [List.mem_singleton.mp hc]
        exact Or.inr ⟨session, List.mem_append_right _ List.mem_cons_self, rfl⟩
    · intro s hs
      rw [hsessions] at hs
      rcases List.mem_append.mp hs with hs | hs
      · exact hinv.proved s hs
      · rw [List.mem_singleton.mp hs]
        exact hproved
    · intro s hs
      rw [hsessions] at hs
      rcases List.mem_append.mp hs with hs | hs
      · exact hkept s hs
      · rw [List.mem_singleton.mp hs]
        exact ⟨_, hrow, rfl⟩

theorem inv_of_reachable (hmail : S.Addresses) (hstart : Fresh S start)
    (h : Reachable S start w) : Inv S w := by
  induction h with
  | start => exact .of_fresh hstart
  | step _ request hpresent ih => exact ih.handled hmail (after_handled hpresent)

/-! ## Who is authenticated -/

theorem findByEmail_eq (hlawful : Lawful S w.table.users) {i : ℕ} {u : User} {email : String}
    (hu : w.table.users[i]? = some u) (hemail : u.email = email) :
    S.findByEmail w.table.users email = .ok (some (i, u)) := by
  refine findOne_eq hu (decide_eq_true (congrArg S.collate hemail)) fun j v hv hsame ↦ ?_
  rw [← hemail] at hsame
  exact hlawful.distinct j i v u hv hu (of_decide_eq_true hsame)

theorem findByEmail_none (hlawful : Lawful S w.table.users) {email : String}
    (hother : email ∈ otherSubjects) : S.findByEmail w.table.users email = .ok none := by
  refine findOne_none fun v hv ↦ ?_
  exact decide_eq_false (hlawful.address v hv email hother)

theorem getClaims_eq {jwt : Jwt} {now : ℤ} {token : String} {claims : Claims}
    (hparse : jwt.parseSignedClaims now token = some claims) :
    jwt.getClaims now token = .ok claims := by
  rw [Jwt.getClaims, hparse]

/-- What lets a request be made by an account. -/
theorem filter_user_iff {c : Credentials} {i : ℕ} {u : User} :
    w.doFilterInternal S c = .ok (.user i u) ↔
      ∃ token claims tokenIp, resolveToken c.authorization = some token ∧
        S.tokens.parseSignedClaims w.now token = some claims ∧
        S.tokens.getClientIpFromToken w.now token = .ok tokenIp ∧
        tokenIp.any (· ≠ c.remoteAddr) = false ∧
        S.findByEmail w.table.users claims.subject = .ok (some (i, u)) ∧ u.status = .active := by
  constructor
  · intro h
    -- Wherever the filter ends early, no account is found.
    rw [World.doFilterInternal] at h
    rcases htoken : resolveToken c.authorization with _ | token
    · rw [htoken] at h
      cases h
    rw [htoken] at h
    dsimp only at h
    rcases hparse : S.tokens.parseSignedClaims w.now token with _ | claims
    · rw [if_neg (by rw [Jwt.validateToken, hparse]; exact Bool.false_ne_true)] at h
      cases h
    rw [if_pos (by rw [Jwt.validateToken, hparse]; rfl), Jwt.getEmailFromToken,
      getClaims_eq hparse] at h
    obtain ⟨email, hemail, h⟩ := Result.bind_ok.mp h
    obtain rfl : claims.subject = email := Result.pure_ok.mp hemail
    obtain ⟨tokenIp, hip, h⟩ := Result.bind_ok.mp h
    refine ⟨token, claims, tokenIp, rfl, hparse, hip, ?_⟩
    rcases hdiffers : tokenIp.any (· ≠ c.remoteAddr) with _ | _
    · rw [if_neg (by rw [hdiffers]; exact Bool.false_ne_true)] at h
      obtain ⟨found, hfound, h⟩ := Result.bind_ok.mp h
      rcases found with _ | ⟨j, v⟩
      · cases Result.pure_ok.mp h
      · have hanswer := Result.pure_ok.mp h
        split_ifs at hanswer with hactive
        cases hanswer
        exact ⟨rfl, hfound, hactive⟩
    · rw [if_pos hdiffers] at h
      cases Result.pure_ok.mp h
  · rintro ⟨token, claims, tokenIp, htoken, hparse, hip, hsame, hfound, hactive⟩
    rw [World.doFilterInternal, htoken]
    dsimp only
    rw [if_pos (by rw [Jwt.validateToken, hparse]; rfl)]
    refine Result.bind_ok.mpr ⟨claims.subject, ?_, ?_⟩
    · rw [Jwt.getEmailFromToken, getClaims_eq hparse]
      rfl
    refine Result.bind_ok.mpr ⟨tokenIp, hip, ?_⟩
    rw [if_neg (by rw [hsame]; exact Bool.false_ne_true)]
    refine Result.bind_ok.mpr ⟨_, hfound, ?_⟩
    dsimp only
    rw [if_pos hactive]
    rfl

omit [DecidableEq κ] in
theorem getClientIp_session {token : String} {s : Session}
    (hparse : S.tokens.parseSignedClaims w.now token = some (s.claims S.tokens)) :
    S.tokens.getClientIpFromToken w.now token = .ok (some s.clientIp) := by
  rw [Jwt.getClientIpFromToken, getClaims_eq hparse]
  rfl

theorem authenticated_inv (hinv : Inv S w) {c : Credentials}
    (hknown : ∀ token, resolveToken c.authorization = some token →
      S.tokens.Known w.issued token) {i : ℕ} {u : User} :
    w.doFilterInternal S c = .ok (.user i u) ↔
      ∃ s ∈ w.sessions, s.userId = i ∧
        (∃ token, resolveToken c.authorization = some token ∧
          S.tokens.verify token = some (s.claims S.tokens)) ∧
        w.table.users[i]? = some u ∧ u.status = .active ∧ c.remoteAddr = s.clientIp ∧
        w.now ≤ 1000 * seconds (s.time + S.tokens.expirationMs) := by
  rw [filter_user_iff]
  constructor
  · rintro ⟨token, claims, tokenIp, htoken, hparse, hip, hsame, hfound, hactive⟩
    obtain ⟨hverify, htime⟩ := (Jwt.parseSignedClaims_eq_some _ _).mp hparse
    -- The token has been signed; no account has the e-mail that one of another kind would need.
    rcases hinv.issued claims (hknown token htoken claims hverify) with hother | ⟨s, hs, rfl⟩
    · rw [findByEmail_none hinv.lawful hother] at hfound
      cases hfound
    · obtain ⟨v, hv, hemail⟩ := hinv.kept s hs
      have hrow : S.findByEmail w.table.users (s.claims S.tokens).subject
          = .ok (some (s.userId, v)) := findByEmail_eq hinv.lawful hv hemail
      obtain ⟨rfl, rfl⟩ :=
        Prod.mk.inj (Option.some.inj (Except.ok.inj (hrow.symm.trans hfound)))
      have hfrom := Except.ok.inj (hip.symm.trans (getClientIp_session hparse))
      rw [hfrom] at hsame
      refine ⟨s, hs, rfl, ⟨token, htoken, hverify⟩, hv, hactive, ?_, htime⟩
      by_contra hne
      rw [Option.any_some, decide_eq_true (Ne.symm hne)] at hsame
      cases hsame
  · rintro ⟨s, hs, rfl, ⟨token, htoken, hverify⟩, hu, hactive, hip, htime⟩
    have hparse := (Jwt.parseSignedClaims_eq_some _ _).mpr ⟨hverify, htime⟩
    refine ⟨token, _, _, htoken, hparse, getClientIp_session hparse, ?_, ?_, hactive⟩
    · rw [Option.any_some, hip]
      exact decide_eq_false (not_not_intro rfl)
    · obtain ⟨v, hv, hemail⟩ := hinv.kept s hs
      obtain rfl := Option.some.inj (hv.symm.trans hu)
      exact findByEmail_eq hinv.lawful hv hemail

/-- **Logins are what authenticates.** A request is made by an account exactly when it brings the
token of a login of that account, from where the login came and in time, and the account is active
now. -/
theorem authenticated_iff (hmail : S.Addresses) (hstart : Fresh S start)
    (hreach : Reachable S start w) (c : Credentials)
    (hknown : ∀ token, resolveToken c.authorization = some token →
      S.tokens.Known w.issued token) (i : ℕ) (u : User) :
    w.doFilterInternal S c = .ok (.user i u) ↔
      ∃ s ∈ w.sessions, s.userId = i ∧
        (∃ token, resolveToken c.authorization = some token ∧
          S.tokens.verify token = some (s.claims S.tokens)) ∧
        w.table.users[i]? = some u ∧ u.status = .active ∧ c.remoteAddr = s.clientIp ∧
        w.now ≤ 1000 * seconds (s.time + S.tokens.expirationMs) :=
  authenticated_inv (inv_of_reachable hmail hstart hreach) hknown

/-- **Accounts are changed by their owners.** Whatever is done, an account is changed only by a
request from an active account, its own or an administrator's, that has logged in from the same
address with its password or its account elsewhere, and not too long ago; and what the request does
to the table is what the account service makes of it. -/
theorem changed_by_owner (hmail : S.Addresses) (hstart : Fresh S start)
    (hreach : Reachable S start w) {request : Request} (hpresent : Presentable S w request) {i : ℕ}
    {u : User} (hu : w.table.users[i]? = some u)
    (hchanged : (w.after S request).table.users[i]? ≠ some u) :
    (∃ r : Accounts.Request,
      (w.after S request).table = Accounts.after S.collate S.encode S.flushes w.table r) ∧
    ∃ c, request.credentials = some c ∧ ∃ s ∈ w.sessions, s.Proved S ∧
      c.remoteAddr = s.clientIp ∧ w.now ≤ 1000 * seconds (s.time + S.tokens.expirationMs) ∧
      ∃ v, w.table.users[s.userId]? = some v ∧ v.email = s.account.email ∧ v.status = .active ∧
        (s.userId = i ∨ v.role = .admin) := by
  have htable : (w.after S request).table ≠ w.table := by
    intro hsame
    rw [hsame] at hchanged
    exact hchanged hu
  have hinv := inv_of_reachable hmail hstart hreach
  obtain ⟨c, j, v, hc, hfilter, hmay⟩ := (after_handled hpresent).owned i u hu hchanged
  have hknown : ∀ token, resolveToken c.authorization = some token →
      S.tokens.Known w.issued token := fun token htoken ↦ hpresent.known c token hc htoken
  obtain ⟨s, hs, rfl, -, hv, hactive, hip, htime⟩ := (authenticated_inv hinv hknown).mp hfilter
  obtain ⟨v', hv', hemail⟩ := hinv.kept s hs
  obtain rfl := Option.some.inj (hv'.symm.trans hv)
  exact ⟨(after_table request).resolve_left htable, c, hc, s, hs, hinv.proved s hs, hip, htime, v',
    hv', hemail, hactive, hmay⟩

end Steps

/-! ## Ada -/

/-- Services that compare texts as they are and keep passwords as they are. -/
noncomputable def plainServices : Services String where
  collate := id
  encode := id
  flushes := true
  matchesPassword supplied hash := decide (supplied = hash)
  isEmail email := email.toList.contains '@'
  tokens := { Jwt.numbered with expirationMs := 86400000 }

def ada : User :=
  { email := "ada@example.com", passwordHash := some "secret", nickname := "ada", tagNumber := 1 }

def adaAlone : World := { table := { users := [ada] }, now := 1000 }

def adaSession : Session := ⟨0, ada, .password "secret", "10.0.0.1", 1000⟩

def adaLogin : Request := .login ⟨"ada@example.com", "secret"⟩ "10.0.0.1"

/-- A day is allowed, and the address is the same. -/
noncomputable def adaCredentials : Credentials where
  authorization := some ("Bearer " ++
    plainServices.tokens.sign (adaSession.claims plainServices.tokens))
  remoteAddr := "10.0.0.1"

noncomputable def adaLeaves : Request := .deleteUser adaCredentials "ada" 1 "0123456789abcdef"

noncomputable def adaLoggedIn : World :=
  adaAlone.completeLogin plainServices 0 ada (.password "secret") "10.0.0.1"

theorem after_adaLogin : adaAlone.after plainServices adaLogin = adaLoggedIn := by
  have hvalid : plainServices.validLogin ⟨"ada@example.com", "secret"⟩ = true := by decide +kernel
  have hlogin : plainServices.login adaAlone.table ⟨"ada@example.com", "secret"⟩
      = .ok (0, ada) := by decide +kernel
  rw [World.after, adaLogin, World.answer, hvalid, hlogin]
  rfl

theorem plainServices_addresses : plainServices.Addresses := by
  intro email hmail subject hsubject hsame
  have hsame : email = subject := hsame
  rw [hsame] at hmail
  simp only [otherSubjects, List.mem_cons, List.not_mem_nil, or_false] at hsubject
  rcases hsubject with rfl | rfl
  · exact absurd hmail (by decide +kernel)
  · exact absurd hmail (by decide +kernel)

theorem adaAlone_fresh : Fresh plainServices adaAlone where
  lawful :=
    { distinct := fun i j u v hu hv _ ↦ by
        have hi := (List.getElem?_eq_some_iff.mp hu).1
        have hj := (List.getElem?_eq_some_iff.mp hv).1
        simp only [adaAlone, List.length_singleton] at hi hj
        omega
      address := fun u hu subject hsubject ↦ by
        rw [List.mem_singleton.mp hu]
        exact plainServices_addresses _ (by decide +kernel) subject hsubject }
  issued := rfl
  sessions := rfl

theorem adaLoggedIn_reachable : Reachable plainServices adaAlone adaLoggedIn := by
  rw [← after_adaLogin]
  refine .step .start adaLogin ⟨fun c token hc ↦ ?_, fun principal ip email hgoogle ↦ ?_⟩
  · cases hc
  · cases hgoogle

theorem resolveToken_bearer {token : String} (h : isBlank token = false) :
    resolveToken (some ("Bearer " ++ token)) = some token := by
  have hlist : ("Bearer " ++ token).toList = "Bearer ".toList ++ token.toList :=
    String.toList_append
  have hstart : isBlank ("Bearer " ++ token) = false := by
    rw [isBlank, hlist, List.all_append]
    rfl
  have hdrop : ("Bearer ".toList ++ token.toList).drop 7 = token.toList := rfl
  rw [resolveToken, given_of_not_isBlank hstart, Option.bind_some, hlist,
    if_pos (List.isPrefixOf_iff_prefix.mpr (List.prefix_append _ _)), hdrop, String.ofList_toList,
    given_of_not_isBlank h]

theorem resolveToken_ada : resolveToken adaCredentials.authorization =
    some (plainServices.tokens.sign (adaSession.claims plainServices.tokens)) :=
  resolveToken_bearer (plainServices.tokens.not_isBlank_sign _)

theorem ada_known (token : String) (h : resolveToken adaCredentials.authorization = some token) :
    plainServices.tokens.Known adaLoggedIn.issued token := by
  obtain rfl := Option.some.inj (resolveToken_ada.symm.trans h)
  intro c hc
  rw [plainServices.tokens.verify_sign] at hc
  rw [← Option.some.inj hc]
  exact List.mem_append_right _ List.mem_cons_self

theorem ada_has_session : ∃ s ∈ adaLoggedIn.sessions, s.userId = 0 ∧
    (∃ token, resolveToken adaCredentials.authorization = some token ∧
      plainServices.tokens.verify token = some (s.claims plainServices.tokens)) ∧
    adaLoggedIn.table.users[0]? = some ada ∧ ada.status = .active ∧
    adaCredentials.remoteAddr = s.clientIp ∧
    adaLoggedIn.now ≤ 1000 * seconds (s.time + plainServices.tokens.expirationMs) := by
  refine ⟨adaSession, List.mem_append_right _ List.mem_cons_self, rfl,
    ⟨_, resolveToken_ada, plainServices.tokens.verify_sign _⟩, rfl, rfl, rfl, ?_⟩
  decide +kernel

theorem ada_authenticated :
    adaLoggedIn.doFilterInternal plainServices adaCredentials = .ok (.user 0 ada) :=
  (authenticated_iff plainServices_addresses adaAlone_fresh adaLoggedIn_reachable adaCredentials
    ada_known 0 ada).mpr ada_has_session

theorem adaLeaves_presentable : Presentable plainServices adaLoggedIn adaLeaves where
  known c token hc htoken := by
    obtain rfl := Option.some.inj hc
    exact ada_known token htoken
  address principal ip email hgoogle := by cases hgoogle

theorem adaLeaves_changes :
    (adaLoggedIn.after plainServices adaLeaves).table.users[0]? ≠ some ada := by
  have hfilter : adaLoggedIn.doFilterInternal plainServices adaCredentials = .ok (.user 0 ada) :=
    (authenticated_inv (inv_of_reachable plainServices_addresses adaAlone_fresh
      adaLoggedIn_reachable) ada_known).mpr ada_has_session
  have hanswer : adaLoggedIn.answer plainServices adaLeaves = (do
      let t ← deleteUser plainServices.collate adaLoggedIn.table "ada" 1
        ⟨some 0, ada.role = .admin⟩ "0123456789abcdef"
      return { adaLoggedIn with table := t }) := by
    rw [adaLeaves, World.answer, World.authenticated, hfilter]
    rfl
  rw [World.after, hanswer]
  decide +kernel

theorem ada_leaves :
    (∃ r : Accounts.Request, (adaLoggedIn.after plainServices adaLeaves).table
      = Accounts.after plainServices.collate plainServices.encode plainServices.flushes
          adaLoggedIn.table r) ∧
    ∃ c, adaLeaves.credentials = some c ∧ ∃ s ∈ adaLoggedIn.sessions, s.Proved plainServices ∧
      c.remoteAddr = s.clientIp ∧
      adaLoggedIn.now ≤ 1000 * seconds (s.time + plainServices.tokens.expirationMs) ∧
      ∃ v, adaLoggedIn.table.users[s.userId]? = some v ∧ v.email = s.account.email ∧
        v.status = .active ∧ (s.userId = 0 ∨ v.role = .admin) :=
  changed_by_owner plainServices_addresses adaAlone_fresh adaLoggedIn_reachable
    adaLeaves_presentable (i := 0) (u := ada) rfl adaLeaves_changes

end Sessions

end Agora
