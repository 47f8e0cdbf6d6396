import Agora.Java.JwtTokenProvider
import Agora.Passwords.Access

/-!
# Passwords that have been given

Who gives the password of a canvas gets a token that stands in for it for half an hour. With the
token the canvas is entered again, and its runtime is used, without the password.

The token names the user, the canvas and the revision of the settings. `protected_by_password`: over
any run, whatever else the services sign and however the documents change, it lets in exactly the
users who have given the password of the canvas in the last half an hour, at the revision that the
settings have now.
-/

namespace Agora

namespace Grants

open Java Passwords
open Canvases (allows)

/-- A password that was accepted: who gave it for which canvas, what was stored and when. -/
structure Shown where
  userId : Int64
  canvasId : Int32
  settingsRevision : Int64
  password : Option String
  stored : Option String
  time : ℤ

/-- What is read of the canvases, the time, what has been signed, and the passwords that were
accepted. -/
structure World where
  read : Int32 → Result CanvasDocument
  now : ℤ := 0
  issued : List Claims := []
  shown : List Shown := []

def getSettingsRevision (doc : CanvasDocument) : Int64 := Int64.ofInt doc.settingsRevision

def passwordProtected (doc : CanvasDocument) : Bool := (given doc.canvasPasswordHash).isSome

/-- The server that a user is sent to. -/
structure Allocation where
  serverId : Option ℤ
  wsPort : String
  serverHash : String

/-- Someone wants to enter a canvas. The allocation is how the choice of a server ends. -/
structure AccessRequest where
  canvasId : Int32
  user : Option Int64
  nickname : String
  tagNumber : ℤ
  clientIp : String
  requestId : Option String
  suppliedPassword : Option String
  suppliedPasswordToken : Option String
  allocation : Result Allocation

structure AccessResponse where
  serverId : Option ℤ
  wsPort : String
  canvasAccessToken : String
  canvasPasswordToken : Option String

def Shown.claims (s : Shown) : Claims :=
  JwtTokenProvider.grantClaims s.time s.userId s.canvasId s.settingsRevision

section Requests

variable (bcrypt : BCrypt) (pbkdf2 : Pbkdf2) (p : JwtTokenProvider)

def requireUser (user : Option Int64) : Result Int64 :=
  match user with
  | some userId => .ok userId
  | none => .error (.custom .unauthorized "로그인이 필요한 요청입니다.")

namespace World

variable (w : World)

/-- The document of a canvas, for a user who may see it. -/
def getCanvasDocument (canvasId : Int32) (userId : Int64) : Result CanvasDocument := do
  let doc ← w.read canvasId
  Java.throwIf (!allows doc userId.toInt) .canvasNotFound ErrorCode.canvasNotFound.message
  return doc

/-- Whether a token stands in for the password of a canvas. -/
def validPasswordToken (token : Option String) (userId : Int64) (canvasId : Int32)
    (doc : CanvasDocument) : Bool :=
  passwordProtected doc &&
    p.validateCanvasPasswordGrant w.now token userId canvasId (getSettingsRevision doc)

/-- The tokens are signed, and the password has been shown if there was none for it. -/
def enter (r : AccessRequest) (userId : Int64) (doc : CanvasDocument) (a : Allocation) :
    AccessResponse × World :=
  let access := p.canvasAccessClaims w.now r.nickname r.tagNumber r.canvasId r.clientIp
    a.serverHash (getSettingsRevision doc) r.requestId
  let shown : Shown := ⟨userId, r.canvasId, getSettingsRevision doc, r.suppliedPassword,
    doc.canvasPasswordHash, w.now⟩
  if !passwordProtected doc then
    (⟨a.serverId, a.wsPort, p.sign access, none⟩, { w with issued := w.issued ++ [access] })
  else if w.validPasswordToken p r.suppliedPasswordToken userId r.canvasId doc then
    (⟨a.serverId, a.wsPort, p.sign access, r.suppliedPasswordToken⟩,
      { w with issued := w.issued ++ [access] })
  else
    (⟨a.serverId, a.wsPort, p.sign access, some (p.sign shown.claims)⟩,
      { w with issued := w.issued ++ [access, shown.claims], shown := w.shown ++ [shown] })

def checkAccess (r : AccessRequest) (userId : Int64) (doc : CanvasDocument) : Result Unit :=
  if w.validPasswordToken p r.suppliedPasswordToken userId r.canvasId doc then .ok ()
  else checkPassword bcrypt pbkdf2 r.suppliedPassword doc.canvasPasswordHash

def accessCanvas (r : AccessRequest) : Result (AccessResponse × World) := do
  let userId ← requireUser r.user
  let doc ← w.getCanvasDocument r.canvasId userId
  w.checkAccess bcrypt pbkdf2 p r userId doc
  let a ← r.allocation
  return w.enter p r userId doc a

/-- The check before the runtime of a canvas is used. -/
def authorize (canvasId : Int32) (passwordGrant : Option String) (user : Option Int64) :
    Result Unit := do
  let userId ← requireUser user
  let doc ← w.getCanvasDocument canvasId userId
  Java.throwIf (passwordProtected doc &&
      !p.validateCanvasPasswordGrant w.now passwordGrant userId canvasId (getSettingsRevision doc))
    .canvasPasswordRequired ErrorCode.canvasPasswordRequired.message

end World

/-! ## Runs -/

/-- A request to enter a canvas, a login, a change of a canvas by anyone, or time that passes. -/
inductive Request where
  | accessCanvas (r : AccessRequest)
  | login (email : String) (tagNumber : ℤ) (nickname role clientIp : String)
  | change (canvasId : Int32) (doc : Result CanvasDocument)
  | wait (ms : ℕ)

def World.after (w : World) : Request → World
  | .accessCanvas r =>
    match w.accessCanvas bcrypt pbkdf2 p r with
    | .ok entered => entered.2
    | .error _ => w
  | .login email tagNumber nickname role clientIp =>
    { w with issued := w.issued ++ [p.loginClaims w.now email tagNumber nickname role clientIp] }
  | .change canvasId doc => { w with read := Function.update w.read canvasId doc }
  | .wait ms => { w with now := w.now + ms }

/-- No token is brought that has not been signed. -/
def Known (w : World) (token : Option String) : Prop :=
  ∀ t, given token = some t → p.Known w.issued t

inductive Reachable (read : Int32 → Result CanvasDocument) (now : ℤ) : World → Prop
  | start : Reachable read now { read, now }
  | step {w : World} (h : Reachable read now w) (request : Request)
      (hknown : ∀ r, request = .accessCanvas r → Known p w r.suppliedPasswordToken) :
      Reachable read now (w.after bcrypt pbkdf2 p request)

/-- The password was the one of the canvas. -/
def Shown.Proved (s : Shown) : Prop :=
  (given s.stored).isSome = true ∧ checkPassword bcrypt pbkdf2 s.password s.stored = .ok ()

/-- A token was given out for a password that was accepted: for this user, this canvas and this
revision, not more than half an hour ago. -/
def Remembered (w : World) (token : Option String) (userId : Int64) (canvasId : Int32)
    (settingsRevision : Int64) : Prop :=
  ∃ s ∈ w.shown, s.Proved bcrypt pbkdf2 ∧ s.userId = userId ∧ s.canvasId = canvasId ∧
    s.settingsRevision = settingsRevision ∧
    (∃ t, given token = some t ∧ p.verify t = some s.claims) ∧
    w.now ≤ 1000 * seconds (s.time + JwtTokenProvider.CANVAS_PASSWORD_GRANT_EXPIRATION_MS)

/-- What is signed is a grant for a password that was accepted, or no grant at all. -/
structure Inv (w : World) : Prop where
  issued : ∀ c ∈ w.issued, (∃ s ∈ w.shown, s.claims = c) ∨
    ∀ userId canvasId revision, JwtTokenProvider.grants c userId canvasId revision = false
  proved : ∀ s ∈ w.shown, s.Proved bcrypt pbkdf2

end Requests

section Steps

variable {bcrypt : BCrypt} {pbkdf2 : Pbkdf2} {p : JwtTokenProvider} {w w' : World}

/-- One more token that is no grant. -/
theorem Inv.sign (h : Inv bcrypt pbkdf2 w) {c : Claims}
    (hc : ∀ userId canvasId revision, JwtTokenProvider.grants c userId canvasId revision = false) :
    Inv bcrypt pbkdf2 { w with issued := w.issued ++ [c] } where
  issued c' hc' := by
    rcases List.mem_append.mp hc' with hold | hnew
    · exact h.issued c' hold
    · rw [List.mem_singleton.mp hnew]
      exact Or.inr hc
  proved := h.proved

/-- One more password, and the two tokens for it. -/
theorem Inv.accept (h : Inv bcrypt pbkdf2 w) {c : Claims} {s : Shown}
    (hc : ∀ userId canvasId revision, JwtTokenProvider.grants c userId canvasId revision = false)
    (hs : s.Proved bcrypt pbkdf2) :
    Inv bcrypt pbkdf2
      { w with issued := w.issued ++ [c, s.claims], shown := w.shown ++ [s] } where
  issued c' hc' := by
    rcases List.mem_append.mp hc' with hold | hnew
    · refine (h.issued c' hold).imp_left ?_
      rintro ⟨s', hs', hclaims⟩
      exact ⟨s', List.mem_append_left _ hs', hclaims⟩
    · rcases List.mem_cons.mp hnew with rfl | hnew
      · exact Or.inr hc
      · rw [List.mem_singleton.mp hnew]
        exact Or.inl ⟨s, List.mem_append_right _ List.mem_cons_self, rfl⟩
  proved s' hs' := by
    rcases List.mem_append.mp hs' with hold | hnew
    · exact h.proved s' hold
    · rw [List.mem_singleton.mp hnew]
      exact hs

theorem getCanvasDocument_ok {canvasId : Int32} {userId : Int64} {doc : CanvasDocument} :
    w.getCanvasDocument canvasId userId = .ok doc ↔
      w.read canvasId = .ok doc ∧ allows doc userId.toInt = true := by
  rw [World.getCanvasDocument, Result.bind_ok]
  constructor
  · rintro ⟨doc', hread, h⟩
    obtain ⟨_, hallows, h⟩ := Result.bind_ok.mp h
    obtain rfl := Result.pure_ok.mp h
    exact ⟨hread, by simpa using Result.throwIf_ok.mp hallows⟩
  · rintro ⟨hread, hallows⟩
    refine ⟨doc, hread, Result.bind_ok.mpr ⟨(), ?_, rfl⟩⟩
    rw [Result.throwIf_ok, hallows]
    rfl

theorem requireUser_ok {user : Option Int64} {userId : Int64} :
    requireUser user = .ok userId ↔ user = some userId := by
  rcases user with _ | id
  · constructor
    · intro h
      cases h
    · intro h
      cases h
  · rw [requireUser, Except.ok.injEq, Option.some.injEq]

/-- How a canvas is entered. -/
theorem accessCanvas_ok {r : AccessRequest} {entered : AccessResponse × World} :
    w.accessCanvas bcrypt pbkdf2 p r = .ok entered ↔
      ∃ userId doc a, r.user = some userId ∧ w.read r.canvasId = .ok doc ∧
        allows doc userId.toInt = true ∧ r.allocation = .ok a ∧
        (w.validPasswordToken p r.suppliedPasswordToken userId r.canvasId doc = true ∨
          checkPassword bcrypt pbkdf2 r.suppliedPassword doc.canvasPasswordHash = .ok ()) ∧
        w.enter p r userId doc a = entered := by
  rw [World.accessCanvas, Result.bind_ok]
  constructor
  · rintro ⟨userId, huser, h⟩
    obtain ⟨doc, hdoc, h⟩ := Result.bind_ok.mp h
    obtain ⟨⟨⟩, hcheck, h⟩ := Result.bind_ok.mp h
    obtain ⟨a, ha, h⟩ := Result.bind_ok.mp h
    obtain ⟨hread, hallows⟩ := getCanvasDocument_ok.mp hdoc
    refine ⟨userId, doc, a, ?_, hread, hallows, ha, ?_, Result.pure_ok.mp h⟩
    · exact requireUser_ok.mp huser
    -- The token comes before the password; only without it is the password looked at.
    · rw [World.checkAccess] at hcheck
      split_ifs at hcheck with htoken
      · exact Or.inl htoken
      · exact Or.inr hcheck
  · rintro ⟨userId, doc, a, huser, hread, hallows, ha, hgiven, hentered⟩
    refine ⟨userId, requireUser_ok.mpr huser, Result.bind_ok.mpr ⟨doc,
      getCanvasDocument_ok.mpr ⟨hread, hallows⟩,
      Result.bind_ok.mpr ⟨(), ?_, Result.bind_ok.mpr ⟨a, ha, Result.pure_ok.mpr hentered⟩⟩⟩⟩
    · rw [World.checkAccess]
      split_ifs with htoken
      · rfl
      · exact hgiven.resolve_left htoken

theorem Inv.enter (h : Inv bcrypt pbkdf2 w) {r : AccessRequest} {userId : Int64}
    {doc : CanvasDocument} {a : Allocation}
    (hgiven : w.validPasswordToken p r.suppliedPasswordToken userId r.canvasId doc = true ∨
      checkPassword bcrypt pbkdf2 r.suppliedPassword doc.canvasPasswordHash = .ok ()) :
    Inv bcrypt pbkdf2 (w.enter p r userId doc a).2 := by
  have haccess := JwtTokenProvider.not_grants_canvasAccessClaims p w.now r.nickname r.tagNumber
    r.canvasId r.clientIp a.serverHash (getSettingsRevision doc) r.requestId
  rw [World.enter]
  -- Only a password makes a grant; a token is handed back as it is, and not renewed.
  split_ifs with hopen htoken
  · exact h.sign haccess
  · exact h.sign haccess
  · refine h.accept haccess ⟨?_, hgiven.resolve_left htoken⟩
    rcases hprotected : passwordProtected doc with _ | _
    · rw [hprotected] at hopen
      exact absurd rfl hopen
    · exact hprotected

theorem Inv.after (h : Inv bcrypt pbkdf2 w) (request : Request) :
    Inv bcrypt pbkdf2 (w.after bcrypt pbkdf2 p request) := by
  cases request with
  | accessCanvas r =>
    rw [World.after]
    rcases hentered : w.accessCanvas bcrypt pbkdf2 p r with e | entered
    · exact h
    · obtain ⟨userId, doc, a, -, -, -, -, hgiven, rfl⟩ := accessCanvas_ok.mp hentered
      exact h.enter hgiven
  | login email tagNumber nickname role clientIp =>
    exact h.sign (JwtTokenProvider.not_grants_loginClaims p w.now email tagNumber nickname role
      clientIp)
  | change canvasId doc => exact ⟨h.issued, h.proved⟩
  | wait ms => exact ⟨h.issued, h.proved⟩

theorem inv_of_reachable {read : Int32 → Result CanvasDocument} {now : ℤ}
    (h : Reachable bcrypt pbkdf2 p read now w) : Inv bcrypt pbkdf2 w := by
  induction h with
  | start => exact ⟨fun c hc ↦ absurd hc List.not_mem_nil, fun s hs ↦ absurd hs List.not_mem_nil⟩
  | step _ request _ ih => exact ih.after request

/-- A token is valid exactly when the password has been given. -/
theorem validate_iff (hinv : Inv bcrypt pbkdf2 w) {token : Option String}
    (hknown : Known p w token) {userId : Int64} {canvasId : Int32} {settingsRevision : Int64} :
    p.validateCanvasPasswordGrant w.now token userId canvasId settingsRevision = true ↔
      Remembered bcrypt pbkdf2 p w token userId canvasId settingsRevision := by
  rw [JwtTokenProvider.validateCanvasPasswordGrant]
  constructor
  · intro h
    rcases htoken : given token with _ | t
    · rw [htoken] at h
      cases h
    rw [htoken] at h
    dsimp only at h
    rcases hparse : p.parseSignedClaims w.now t with _ | c
    · rw [hparse] at h
      cases h
    rw [hparse] at h
    dsimp only at h
    obtain ⟨hverify, htime⟩ := (Jwt.parseSignedClaims_eq_some _ _).mp hparse
    -- What the key accepts has been signed, so it is a grant for a password or none at all.
    rcases hinv.issued c (hknown t htoken c hverify) with ⟨s, hs, rfl⟩ | hnone
    · obtain ⟨huser, hcanvas, hrevision⟩ := JwtTokenProvider.grants_grantClaims.mp h
      exact ⟨s, hs, hinv.proved s hs, huser, hcanvas, hrevision, ⟨t, htoken, hverify⟩, htime⟩
    · rw [hnone] at h
      cases h
  · rintro ⟨s, hs, -, rfl, rfl, rfl, ⟨t, htoken, hverify⟩, htime⟩
    rw [htoken]
    dsimp only
    rw [(Jwt.parseSignedClaims_eq_some _ _).mpr ⟨hverify, htime⟩]
    exact JwtTokenProvider.grants_grantClaims.mpr ⟨rfl, rfl, rfl⟩

theorem checkPassword_of_open {supplied : Option String} {doc : CanvasDocument}
    (h : passwordProtected doc = false) :
    checkPassword bcrypt pbkdf2 supplied doc.canvasPasswordHash = .ok () := by
  rw [passwordProtected, Option.isSome_eq_false_iff, Option.isNone_iff_eq_none] at h
  rw [checkPassword, h]

/-- **Passwords protect.** In any run, a canvas is entered exactly by those who may see it and give
its password or bring a token for it that they got for the password, at the same revision and in the
last half an hour; and its runtime is used exactly by those who bring such a token, unless the
canvas has no password. -/
theorem protected_by_password {read : Int32 → Result CanvasDocument} {now : ℤ}
    (hreach : Reachable bcrypt pbkdf2 p read now w) (r : AccessRequest)
    (hknown : Known p w r.suppliedPasswordToken) :
    ((∃ entered, w.accessCanvas bcrypt pbkdf2 p r = .ok entered) ↔
      ∃ userId doc a, r.user = some userId ∧ w.read r.canvasId = .ok doc ∧
        allows doc userId.toInt = true ∧ r.allocation = .ok a ∧
        (checkPassword bcrypt pbkdf2 r.suppliedPassword doc.canvasPasswordHash = .ok () ∨
          Remembered bcrypt pbkdf2 p w r.suppliedPasswordToken userId r.canvasId
            (getSettingsRevision doc))) ∧
    (w.authorize p r.canvasId r.suppliedPasswordToken r.user = .ok () ↔
      ∃ userId doc, r.user = some userId ∧ w.read r.canvasId = .ok doc ∧
        allows doc userId.toInt = true ∧
        (passwordProtected doc = false ∨
          Remembered bcrypt pbkdf2 p w r.suppliedPasswordToken userId r.canvasId
            (getSettingsRevision doc))) := by
  have hinv := inv_of_reachable hreach
  constructor
  · constructor
    · rintro ⟨entered, h⟩
      obtain ⟨userId, doc, a, huser, hread, hallows, ha, hgiven, -⟩ := accessCanvas_ok.mp h
      refine ⟨userId, doc, a, huser, hread, hallows, ha, hgiven.symm.imp_right fun htoken ↦ ?_⟩
      exact (validate_iff hinv hknown).mp (Bool.and_eq_true_iff.mp htoken).2
    · rintro ⟨userId, doc, a, huser, hread, hallows, ha, hgiven⟩
      refine ⟨_, accessCanvas_ok.mpr ⟨userId, doc, a, huser, hread, hallows, ha, ?_, rfl⟩⟩
      rcases hgiven with hpassword | hremembered
      · exact Or.inr hpassword
      -- Without a password on the canvas the token counts for nothing, and none is needed.
      · rcases hopen : passwordProtected doc with _ | _
        · exact Or.inr (checkPassword_of_open hopen)
        · refine Or.inl (Bool.and_eq_true_iff.mpr ⟨hopen, ?_⟩)
          exact (validate_iff hinv hknown).mpr hremembered
  · rw [World.authorize, Result.bind_ok]
    constructor
    · rintro ⟨userId, huser, h⟩
      obtain ⟨doc, hdoc, h⟩ := Result.bind_ok.mp h
      obtain ⟨hread, hallows⟩ := getCanvasDocument_ok.mp hdoc
      refine ⟨userId, doc, ?_, hread, hallows, ?_⟩
      · exact requireUser_ok.mp huser
      · rcases Bool.and_eq_false_iff.mp (Result.throwIf_ok.mp h) with hopen | hvalid
        · exact Or.inl hopen
        · refine Or.inr ((validate_iff hinv hknown).mp ?_)
          simpa using hvalid
    · rintro ⟨userId, doc, huser, hread, hallows, hgiven⟩
      refine ⟨userId, requireUser_ok.mpr huser,
        Result.bind_ok.mpr ⟨doc, getCanvasDocument_ok.mpr ⟨hread, hallows⟩, ?_⟩⟩
      · rw [Result.throwIf_ok]
        rcases hgiven with hopen | hremembered
        · rw [hopen, Bool.false_and]
        · rw [(validate_iff hinv hknown).mpr hremembered, Bool.not_true, Bool.and_false]

end Steps

/-! ## Ada -/

noncomputable def plainTokens : JwtTokenProvider := { Jwt.numbered with expirationMs := 86400000 }

def secretCanvas : CanvasDocument :=
  { adminUserId := some 1, people := [some 1], canvasPasswordHash := some "secret" }

def adaFirst : AccessRequest where
  canvasId := 7
  user := some 1
  nickname := "ada"
  tagNumber := 1
  clientIp := "10.0.0.1"
  requestId := none
  suppliedPassword := some "secret"
  suppliedPasswordToken := none
  allocation := .ok ⟨some 1, "9001", "none"⟩

def adaShown : Shown := ⟨1, 7, 0, some "secret", some "secret", 0⟩

/-- Ada comes back with the token, and without the password. -/
noncomputable def adaAgain : AccessRequest :=
  { adaFirst with
    suppliedPassword := none
    suppliedPasswordToken := some (plainTokens.sign adaShown.claims) }

def before : World := { read := fun _ ↦ .ok secretCanvas }

noncomputable def adaEntered : World :=
  (before.enter plainTokens adaFirst 1 secretCanvas ⟨some 1, "9001", "none"⟩).2

theorem adaEntered_reachable :
    Reachable noBCrypt zeroPbkdf2 plainTokens (fun _ ↦ .ok secretCanvas) 0 adaEntered := by
  have hentered : before.accessCanvas noBCrypt zeroPbkdf2 plainTokens adaFirst
      = .ok (before.enter plainTokens adaFirst 1 secretCanvas ⟨some 1, "9001", "none"⟩) :=
    accessCanvas_ok.mpr ⟨1, secretCanvas, _, rfl, rfl, by decide +kernel, rfl,
      Or.inr (by decide +kernel), rfl⟩
  have hafter : before.after noBCrypt zeroPbkdf2 plainTokens (.accessCanvas adaFirst)
      = adaEntered := by
    rw [World.after, hentered]
    rfl
  rw [← hafter]
  refine .step .start (.accessCanvas adaFirst) fun r hr token htoken ↦ ?_
  obtain rfl := Request.accessCanvas.inj hr
  cases htoken

theorem adaEntered_eq : adaEntered.shown = [adaShown] ∧ adaShown.claims ∈ adaEntered.issued ∧
    adaEntered.now = 0 ∧ adaEntered.read 7 = .ok secretCanvas := by
  have hprotected : passwordProtected secretCanvas = true := by decide +kernel
  have hnone : before.validPasswordToken plainTokens adaFirst.suppliedPasswordToken 1
      adaFirst.canvasId secretCanvas = false := by
    rw [World.validPasswordToken, hprotected]
    rfl
  rw [adaEntered, World.enter, hprotected, hnone]
  exact ⟨rfl, List.mem_append_right _ (List.mem_cons_of_mem _ List.mem_cons_self), rfl, rfl⟩

theorem ada_known : Known plainTokens adaEntered adaAgain.suppliedPasswordToken := by
  intro t ht c hc
  have hsame : plainTokens.sign adaShown.claims = t :=
    Option.some.inj (Option.filter_eq_some_iff.mp ht).1
  rw [← hsame, plainTokens.verify_sign] at hc
  rw [← Option.some.inj hc]
  exact adaEntered_eq.2.1

theorem ada_remembered : Remembered noBCrypt zeroPbkdf2 plainTokens adaEntered
    adaAgain.suppliedPasswordToken 1 7 (getSettingsRevision secretCanvas) := by
  obtain ⟨hshown, -, hnow, -⟩ := adaEntered_eq
  refine ⟨adaShown, ?_, ⟨by decide +kernel, by decide +kernel⟩, rfl, rfl, rfl,
    ⟨plainTokens.sign adaShown.claims, ?_, plainTokens.verify_sign _⟩, ?_⟩
  · rw [hshown]
    exact List.mem_cons_self
  · exact Option.filter_eq_some_iff.mpr
      ⟨rfl, by rw [plainTokens.not_isBlank_sign]; rfl⟩
  · rw [hnow]
    decide +kernel

theorem ada_enters_again :
    (∃ entered, adaEntered.accessCanvas noBCrypt zeroPbkdf2 plainTokens adaAgain = .ok entered) ∧
      adaEntered.authorize plainTokens 7 adaAgain.suppliedPasswordToken (some 1) = .ok () :=
  let h := protected_by_password adaEntered_reachable adaAgain ada_known
  ⟨h.1.mpr ⟨1, secretCanvas, ⟨some 1, "9001", "none"⟩, rfl, adaEntered_eq.2.2.2,
      by decide +kernel, rfl, Or.inr ada_remembered⟩,
    h.2.mpr ⟨1, secretCanvas, rfl, adaEntered_eq.2.2.2, by decide +kernel,
      Or.inr ada_remembered⟩⟩

end Grants

end Agora
