import Agora.Canvases.Deletion
import Agora.Settings.Migration

/-!
# Entering a canvas with a password

A password becomes the protection of a canvas in the services or on the servers, or it is found in
an old document and hashed there, or left as it is. Who enters the canvas is checked by the
services.

The servers and the services do not agree about which texts are blank, and what looks like a hash is
taken for one. Otherwise the password that was set is the one that opens the canvas
(`checkPassword_iff`).
-/

namespace Agora

namespace Passwords

open Java (Result Elasticsearch CanvasDocument isBlank given isHash hashForStorage
  normalizeStoredHash normalizedFields throwCustom bcryptShaped_spec not_isBlank_of_isHash
  given_of_isBlank given_of_not_isBlank normalizeStoredHash_of_isHash)
open Snapshot (Fields passwordField)

/-! ## The check -/

def startsWith (start text : String) : Bool := start.toList.isPrefixOf text.toList

section Check

variable (bcrypt : BCrypt) (pbkdf2 : Pbkdf2)

/-- The digest of a text, compared with that of a hash in parts. -/
def digestMatches (supplied : String) (iterations : ℕ) (salt digest : List Char) : Bool :=
  match parseHex salt, parseHex digest with
  | some salt, some digest =>
    100000 ≤ iterations && iterations ≤ 1000000 && pbkdf2.derive supplied salt iterations = digest
  | _, _ => false

def pbkdf2Matches (supplied stored : String) : Bool :=
  match stored.toList.splitOn '$' with
  | [_, iterations, salt, digest] =>
    isHash stored &&
      digestMatches pbkdf2 supplied (Nat.ofDigitChars 10 iterations 0) salt digest
  | _ => false

/-- `CanvasPasswords.matches`. -/
def passwordMatches (supplied stored : String) : Bool :=
  if startsWith "$2" stored then supplied.utf8ByteSize ≤ 72 && bcrypt.verify supplied stored
  else if startsWith "pbkdf2$" stored then pbkdf2Matches pbkdf2 supplied stored
  -- A document from before passwords were hashed.
  else decide (supplied = stored)

/-- The check of `accessCanvas`, without a token for the password. -/
def checkPassword (supplied stored : Option String) : Result Unit :=
  match given stored, given supplied with
  | none, _ => .ok ()
  | some _, none => throwCustom .canvasPasswordRequired
  | some stored, some supplied =>
    if passwordMatches bcrypt pbkdf2 supplied stored then .ok ()
    else throwCustom .canvasPasswordInvalid

end Check

/-! ## How a password is set -/

/-- Who turns a text into the protection of a canvas. -/
inductive Writer where
  | createCanvas
  | updateCanvasPassword
  | settings
  | normalizeCanvasPassword
  | normalizeStoredHash
  /-- Nobody has: an old document that has the text itself. -/
  | nobody
  deriving DecidableEq

/-- What a text is stored as when it becomes the protection of a canvas. -/
inductive SetBy (es : Elasticsearch) (server : Settings.Server) (password : String) :
    Writer → String → Prop
  | createCanvas {request : Canvases.CreateCanvasRequest} {hash stored : String}
      (given_password : request.canvasPassword = some password)
      (checked : Canvases.checkCanvas request = .ok ())
      (hashed : hashForStorage es.bcrypt request.canvasPassword = .ok (some hash))
      (saved : normalizeStoredHash es.bcrypt (some hash) = .ok (some stored)) :
      SetBy es server password .createCanvas stored
  | updateCanvasPassword {doc : CanvasDocument} {fields saved : Fields} {stored : String}
      (changed : Canvases.passwordFields es.bcrypt (some password) doc = .ok fields)
      (patched : normalizedFields es fields = .ok saved)
      (kept : saved.lookup passwordField = some (.str stored)) :
      SetBy es server password .updateCanvasPassword stored
  | settings {directory : List Fault → Settings.Directory} {doc : Json} {fields : Fields}
      {s s' : Settings.Store} {stored : String}
      (planned : Settings.planText (Settings.settingsBackend server directory) "password" doc
        password s = (.ok (.ok fields), s'))
      (kept : fields.lookup passwordField = some (.str stored)) :
      SetBy es server password .settings stored
  | normalizeCanvasPassword {stored : String} (protects : stored ≠ "")
      (normalized : normalizeCanvasPassword server.hashCanvasPassword password = some stored) :
      SetBy es server password .normalizeCanvasPassword stored
  | normalizeStoredHash {stored : String}
      (normalized : normalizeStoredHash es.bcrypt (some password) = .ok (some stored)) :
      SetBy es server password .normalizeStoredHash stored
  | nobody : SetBy es server password .nobody password

/-! ## Shapes -/

theorem startsWith_of_bcryptShaped {s : String} (h : bcryptShaped s.toList = true) :
    startsWith "$2" s = true := by
  obtain ⟨rest, hrest⟩ := bcryptShaped_spec h
  rw [startsWith, hrest]
  rfl

theorem isHash_of_bcryptShaped {s : String} (h : bcryptShaped s.toList = true) :
    isHash s = true := by
  rw [isHash, h, Bool.true_or]

/-! ## Hashes of the servers -/

theorem dollar_notMem_toHex (bytes : List UInt8) : '$' ∉ toHex bytes := by
  intro h
  have hhex := List.all_eq_true.mp (all_toHex bytes) _ h
  exact absurd hhex (by decide)

theorem splitOn_pbkdf2Text (salt digest : List UInt8) :
    (pbkdf2Text kIterations salt digest).toList.splitOn '$'
      = ["pbkdf2".toList, "310000".toList, toHex salt, toHex digest] := by
  have htext : (pbkdf2Text kIterations salt digest).toList = "pbkdf2".toList ++
      '$' :: ("310000".toList ++ '$' :: (toHex salt ++ '$' :: toHex digest)) := by
    simp only [pbkdf2Text, String.toList_append, String.toList_ofList, List.append_assoc]
    rfl
  rw [htext, List.splitOn_append_cons_self_of_not_mem (by decide),
    List.splitOn_append_cons_self_of_not_mem (by decide),
    List.splitOn_append_cons_self_of_not_mem (dollar_notMem_toHex salt),
    List.splitOn_eq_singleton (dollar_notMem_toHex digest)]

theorem isHash_pbkdf2Text {salt digest : List UInt8} (hsalt : salt.length = 16)
    (hdigest : digest.length = 32) : isHash (pbkdf2Text kIterations salt digest) = true := by
  rw [isHash, pbkdf2Shaped, splitOn_pbkdf2Text]
  dsimp only
  rw [length_toHex, length_toHex, hsalt, hdigest, all_toHex, all_toHex]
  simp

theorem startsWith_pbkdf2Text (salt digest : List UInt8) :
    startsWith "$2" (pbkdf2Text kIterations salt digest) = false ∧
      startsWith "pbkdf2$" (pbkdf2Text kIterations salt digest) = true := by
  simp only [startsWith, pbkdf2Text, String.toList_append, List.append_assoc]
  exact ⟨rfl, rfl⟩

section Opening

variable {bcrypt : BCrypt} {pbkdf2 : Pbkdf2} {password stored : String}

/-- A password matches its hash of the servers. -/
theorem passwordMatches_hashCanvasPassword {salt : Option Salt}
    (h : hashCanvasPassword pbkdf2 salt password = some stored) :
    isHash stored = true ∧ passwordMatches bcrypt pbkdf2 password stored = true := by
  unfold hashCanvasPassword at h
  split_ifs at h
  obtain ⟨salt, -, rfl⟩ := Option.map_eq_some_iff.mp h
  have hhash := isHash_pbkdf2Text salt.length_bytes
    (pbkdf2.length_derive password salt.bytes kIterations)
  obtain ⟨hbcrypt, hpbkdf2⟩ := startsWith_pbkdf2Text salt.bytes
    (pbkdf2.derive password salt.bytes kIterations)
  have hiterations : Nat.ofDigitChars 10 "310000".toList 0 = kIterations := by decide
  refine ⟨hhash, ?_⟩
  rw [passwordMatches, hbcrypt, if_neg Bool.false_ne_true, hpbkdf2, if_pos rfl, pbkdf2Matches,
    splitOn_pbkdf2Text]
  dsimp only
  rw [hhash, hiterations, digestMatches, parseHex_toHex, parseHex_toHex, Bool.true_and]
  simp [kIterations]

/-- A password matches what bcrypt has encoded, as far as it is not too long. -/
theorem passwordMatches_encode (h : bcrypt.encode password = some stored) :
    passwordMatches bcrypt pbkdf2 password stored = decide (password.utf8ByteSize ≤ 72) := by
  rw [passwordMatches, startsWith_of_bcryptShaped (bcrypt.encode_shaped h), if_pos rfl]
  by_cases hlength : password.utf8ByteSize ≤ 72
  · rw [bcrypt.verify_encode h hlength, Bool.and_true]
  · rw [decide_eq_false hlength, Bool.false_and]

theorem checkPassword_of_isHash (hstored : isHash stored = true) :
    checkPassword bcrypt pbkdf2 (some password) (some stored) = .ok () ↔
      isBlank password = false ∧ passwordMatches bcrypt pbkdf2 password stored = true := by
  rw [checkPassword, given_of_not_isBlank (not_isBlank_of_isHash hstored)]
  rcases hblank : isBlank password with _ | _
  · rw [given_of_not_isBlank hblank]
    dsimp only
    rcases passwordMatches bcrypt pbkdf2 password stored with _ | _
    · exact ⟨nofun, fun h ↦ nomatch h.2⟩
    · exact ⟨fun _ ↦ ⟨rfl, rfl⟩, fun _ ↦ rfl⟩
  · rw [given_of_isBlank hblank]
    exact ⟨nofun, fun h ↦ nomatch h.1⟩

theorem hashForStorage_ok {encode : String → Option String} {value : Option String} {hash : String}
    (h : hashForStorage encode value = .ok (some hash)) :
    ∃ password, given value = some password ∧ encode password = some hash := by
  unfold hashForStorage at h
  rcases hgiven : given value with _ | password
  · rw [hgiven] at h
    nomatch h
  · rw [hgiven] at h
    dsimp only at h
    rcases hencode : encode password with _ | encoded
    · rw [hencode] at h
      nomatch h
    · rw [hencode] at h
      exact ⟨password, rfl, hencode.trans (Except.ok.inj h)⟩

theorem given_eq_some {value : Option String} {s : String} (h : given value = some s) :
    value = some s ∧ isBlank s = false := by
  obtain ⟨hvalue, hs⟩ := Option.filter_eq_some_iff.mp h
  exact ⟨hvalue, by simpa using hs⟩

/-- What the services store for a new password opens the canvas. -/
theorem checkPassword_of_encode (hblank : isBlank password = false)
    (h : bcrypt.encode password = some stored) :
    checkPassword bcrypt pbkdf2 (some password) (some stored) = .ok () ↔
      password.utf8ByteSize ≤ 72 := by
  rw [checkPassword_of_isHash (isHash_of_bcryptShaped (bcrypt.encode_shaped h)),
    passwordMatches_encode h, decide_eq_true_eq]
  exact and_iff_right hblank

/-- When the password that was set opens the canvas. -/
def Opens (bcrypt : BCrypt) (pbkdf2 : Pbkdf2) (password : String) : Writer → Prop
  | .createCanvas | .updateCanvasPassword => True
  | .settings => isBlank password = false
  | .normalizeCanvasPassword => isBlank password = false ∧
      (isHash password = true → passwordMatches bcrypt pbkdf2 password password = true)
  | .normalizeStoredHash =>
      if isHash password = true then passwordMatches bcrypt pbkdf2 password password = true
      else password.utf8ByteSize ≤ 72
  | .nobody => isBlank password = true ∨
      (startsWith "$2" password = false ∧ startsWith "pbkdf2$" password = false) ∨
      passwordMatches bcrypt pbkdf2 password password = true

variable {es : Elasticsearch} {server : Settings.Server} {salts : String → Option Salt}

theorem checkPassword_of_checked {hash : String} (hes : es.bcrypt = bcrypt.encode)
    (hlength : password.utf8ByteSize ≤ 72)
    (hashed : hashForStorage es.bcrypt (some password) = .ok (some hash))
    (saved : normalizeStoredHash es.bcrypt (some hash) = .ok (some stored)) :
    checkPassword bcrypt pbkdf2 (some password) (some stored) = .ok () := by
  rw [hes] at hashed
  obtain ⟨p, hp, hencode⟩ := hashForStorage_ok hashed
  obtain ⟨hsame, hblank⟩ := given_eq_some hp
  obtain rfl := Option.some.inj hsame
  rw [normalizeStoredHash_of_isHash (isHash_of_bcryptShaped (bcrypt.encode_shaped hencode)),
    Except.ok.injEq, Option.some.injEq] at saved
  exact (checkPassword_of_encode hblank (saved ▸ hencode)).mpr hlength

/-- What a change of the password on a server stores. -/
theorem planText_password {directory : List Fault → Settings.Directory} {doc : Json}
    {fields : Fields} {s s' : Settings.Store}
    (h : Settings.planText (Settings.settingsBackend server directory) "password" doc password s
      = (.ok (.ok fields), s')) (hkept : fields.lookup passwordField = some (.str stored)) :
    server.hashCanvasPassword password = some stored := by
  obtain ⟨_, _, -, h⟩ := Settings.Attempt.bind_ok.mp h
  obtain ⟨_, _, -, h⟩ := Settings.Attempt.bind_ok.mp h
  rw [if_neg (by decide), if_neg (by decide)] at h
  obtain ⟨_, _, -, h⟩ := Settings.Attempt.bind_ok.mp h
  split_ifs at h
  · obtain ⟨found, _, hfound, h⟩ := Settings.Attempt.bind_ok.mp h
    obtain ⟨hash, _, hhash, h⟩ := Settings.Attempt.bind_ok.mp h
    have hcall := (Prod.mk.inj (Settings.Attempt.call_ok.mp hfound)).1
    rw [← (Settings.Attempt.pure_ok.mp h).1, passwordField, List.lookup_cons_self,
      Option.some.injEq, Json.str.injEq] at hkept
    rw [← hkept, ← (Settings.Attempt.orReject_ok.mp hhash).1, ← hcall]
  · rw [← (Settings.Attempt.pure_ok.mp h).1] at hkept
    nomatch hkept

/-- **Passwords open the canvas.** The password that a canvas is protected with opens it, unless it
is blank to the services, too long for bcrypt, or looks like a hash. -/
theorem checkPassword_iff (hes : es.bcrypt = bcrypt.encode)
    (hserver : server.hashCanvasPassword =
      fun password ↦ hashCanvasPassword pbkdf2 (salts password) password) {writer : Writer}
    (h : SetBy es server password writer stored) :
    checkPassword bcrypt pbkdf2 (some password) (some stored) = .ok () ↔
      Opens bcrypt pbkdf2 password writer := by
  cases h with
  | createCanvas given_password checked hashed saved =>
    rw [given_password] at hashed
    have hlength : password.utf8ByteSize ≤ 72 := by
      obtain ⟨_, -, h⟩ := Java.Result.bind_ok.mp checked
      obtain ⟨_, -, h⟩ := Java.Result.bind_ok.mp h
      obtain ⟨_, hlength, -⟩ := Java.Result.bind_ok.mp h
      rw [Java.Result.throwIf_ok, given_password] at hlength
      simpa using hlength
    exact iff_of_true (checkPassword_of_checked hes hlength hashed saved) trivial
  -- what the update checks and hashes is saved once more, where a hash stays as it is
  | updateCanvasPassword changed patched kept =>
    obtain ⟨_, -, h⟩ := Java.Result.bind_ok.mp changed
    obtain ⟨_, -, h⟩ := Java.Result.bind_ok.mp h
    obtain ⟨_, hlength, h⟩ := Java.Result.bind_ok.mp h
    obtain ⟨hash, hhash, h⟩ := Java.Result.bind_ok.mp h
    rw [Java.Result.throwIf_ok] at hlength
    obtain rfl := Java.Result.pure_ok.mp h
    unfold normalizedFields at patched
    rw [List.lookup_cons_self] at patched
    rcases hash with _ | hash
    · rw [← Java.Result.pure_ok.mp patched] at kept
      nomatch kept
    · obtain ⟨normalized, hnormalized, patched⟩ := Java.Result.bind_ok.mp patched
      rw [← Java.Result.pure_ok.mp patched, Assoc.lookup_set_self, Option.some.injEq] at kept
      rcases normalized with _ | normalized
      · nomatch kept
      · rw [show normalized = stored from Json.str.inj kept] at hnormalized
        exact iff_of_true
          (checkPassword_of_checked hes (by simpa using hlength) hhash hnormalized) trivial
  | settings planned kept =>
    have hhash := planText_password planned kept
    rw [hserver] at hhash
    obtain ⟨hshape, hmatches⟩ := @passwordMatches_hashCanvasPassword bcrypt _ _ _ _ hhash
    rw [checkPassword_of_isHash hshape]
    exact and_iff_left hmatches
  | normalizeCanvasPassword protects normalized =>
    unfold Agora.normalizeCanvasPassword at normalized
    split_ifs at normalized with hempty hshape
    · exact absurd (Option.some.inj normalized).symm protects
    · obtain rfl := Option.some.inj normalized
      rw [checkPassword_of_isHash hshape]
      exact and_congr_right' ⟨fun hmatches _ ↦ hmatches, fun hmatches ↦ hmatches hshape⟩
    · rw [hserver] at normalized
      obtain ⟨hhash, hmatches⟩ := @passwordMatches_hashCanvasPassword bcrypt _ _ _ _ normalized
      rw [checkPassword_of_isHash hhash]
      exact and_congr_right' (iff_of_true hmatches fun hself ↦ absurd hself hshape)
  | normalizeStoredHash normalized =>
    unfold Java.normalizeStoredHash at normalized
    rcases hgiven : given (some password) with _ | given
    · rw [hgiven] at normalized
      nomatch normalized
    · obtain ⟨hsame, hblank⟩ := given_eq_some hgiven
      obtain rfl := Option.some.inj hsame
      rw [hgiven] at normalized
      dsimp only at normalized
      unfold Opens
      split_ifs at normalized ⊢ with hshape
      · obtain rfl := Option.some.inj (Except.ok.inj normalized)
        rw [checkPassword_of_isHash hshape]
        exact and_iff_right hblank
      · rw [hes] at normalized
        obtain ⟨p, hp, hencode⟩ := hashForStorage_ok normalized
        obtain rfl := Option.some.inj (given_eq_some hp).1
        exact checkPassword_of_encode hblank hencode
  | nobody =>
    rw [checkPassword, Opens]
    rcases hblank : isBlank password with _ | _
    · rw [given_of_not_isBlank hblank]
      dsimp only
      -- a text that nobody has hashed is compared as it is, unless it looks like a hash
      have hplain : startsWith "$2" password = false ∧ startsWith "pbkdf2$" password = false →
          passwordMatches bcrypt pbkdf2 password password = true := by
        rintro ⟨hbcrypt, hpbkdf2⟩
        rw [passwordMatches, hbcrypt, if_neg Bool.false_ne_true, hpbkdf2, if_neg Bool.false_ne_true]
        exact decide_eq_true rfl
      rcases hmatches : passwordMatches bcrypt pbkdf2 password password with _ | _
      · refine iff_of_false nofun ?_
        rintro (h | h | h)
        · nomatch h
        · rw [hplain h] at hmatches
          nomatch hmatches
        · nomatch h
      · exact iff_of_true rfl (Or.inr (Or.inr rfl))
    · rw [given_of_isBlank hblank]
      exact iff_of_true rfl (Or.inl rfl)

end Opening

/-! ## Two passwords -/

/-- An encoder that encodes nothing. -/
def noBCrypt : BCrypt where
  encode _ := none
  verify _ _ := false
  encode_shaped := nofun
  verify_encode := nofun

/-- A password from the settings, which is kept as a hash, and one that was stored as it is. -/
theorem checkPassword_iff_secret :
    (checkPassword noBCrypt zeroPbkdf2 (some "secret")
        (some (pbkdf2Text kIterations zeroSalt.bytes (List.replicate 32 0))) = .ok () ↔
      Opens noBCrypt zeroPbkdf2 "secret" .settings) ∧
    (checkPassword noBCrypt zeroPbkdf2 (some "secret") (some "secret") = .ok () ↔
      Opens noBCrypt zeroPbkdf2 "secret" .nobody) := by
  have hplanned : Settings.planText (Settings.settingsBackend Settings.zeroServer fun _ ↦
      ⟨fun _ _ ↦ 0, fun _ ↦ none, true⟩) "password" (.obj [("visibility", .str "private")])
      "secret" { index := [] } = (.ok (.ok [(passwordField, .str (pbkdf2Text kIterations
        zeroSalt.bytes (List.replicate 32 0)))]), { index := [] }) := rfl
  exact ⟨@checkPassword_iff noBCrypt zeroPbkdf2 "secret" _ Canvases.plainElasticsearch
      Settings.zeroServer (fun _ ↦ some zeroSalt) rfl rfl _ (.settings hplanned rfl),
    @checkPassword_iff noBCrypt zeroPbkdf2 "secret" "secret" Canvases.plainElasticsearch
      Settings.zeroServer (fun _ ↦ some zeroSalt) rfl rfl _ .nobody⟩

/-- A server takes an ideographic space for a password, and hashes it; to the services it is blank,
and nobody enters. -/
theorem checkPassword_ideographic_space :
    SetBy Canvases.plainElasticsearch Settings.zeroServer "\u3000" .settings
        (pbkdf2Text kIterations zeroSalt.bytes (List.replicate 32 0)) ∧
      checkPassword noBCrypt zeroPbkdf2 (some "\u3000")
          (some (pbkdf2Text kIterations zeroSalt.bytes (List.replicate 32 0)))
        = throwCustom .canvasPasswordRequired := by
  have hplanned : Settings.planText (Settings.settingsBackend Settings.zeroServer fun _ ↦
      ⟨fun _ _ ↦ 0, fun _ ↦ none, true⟩) "password" (.obj [("visibility", .str "private")])
      "\u3000" { index := [] } = (.ok (.ok [(passwordField, .str (pbkdf2Text kIterations
        zeroSalt.bytes (List.replicate 32 0)))]), { index := [] }) := rfl
  exact ⟨.settings hplanned rfl, by decide +kernel⟩

end Passwords

end Agora
