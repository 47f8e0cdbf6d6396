import Agora.Query.Backend

/-!
# Changing the settings of a loaded canvas

A change of the settings reads the document, checks who asks and what is asked, and writes the
changed fields with the next revision, provided the document still has the revision it was read
with. The fields then go to the snapshot store; when that fails, the fields are put back in both
places as they were.
-/

namespace Agora

namespace Settings

/-! ## Steps that may be rejected -/

/-- A step of a task that may be rejected with a code. -/
def Attempt (σ α : Type) : Type := Query σ (Except String α)

namespace Attempt

variable {σ α β : Type}

protected def bind (x : Attempt σ α) (f : α → Attempt σ β) : Attempt σ β := fun s ↦
  match x s with
  | (.ok (.ok a), s) => f a s
  | (.ok (.error code), s) => (.ok (.error code), s)
  | (.error h, s) => (.error h, s)

instance : Monad (Attempt σ) where
  pure a := fun s ↦ (.ok (.ok a), s)
  bind := Attempt.bind

instance : MonadLift (Query σ) (Attempt σ) where
  monadLift x := fun s ↦
    match x s with
    | (.ok a, s) => (.ok (.ok a), s)
    | (.error h, s) => (.error h, s)

def reject (code : String) : Attempt σ α := fun s ↦ (.ok (.error code), s)

def rejectIf (rejected : Bool) (code : String) : Attempt σ Unit :=
  if rejected then reject code else pure ()

/-- The value that is there, or a rejection. -/
def orReject (code : String) : Option α → Attempt σ α
  | some a => pure a
  | none => reject code

theorem bind_run (x : Attempt σ α) (f : α → Attempt σ β) (s : σ) :
    (x >>= f) s = match x s with
      | (.ok (.ok a), s) => f a s
      | (.ok (.error code), s) => (.ok (.error code), s)
      | (.error h, s) => (.error h, s) := rfl

theorem lift_run (x : Query σ α) (s : σ) :
    (liftM x : Attempt σ α) s = match x s with
      | (.ok a, s) => (.ok (.ok a), s)
      | (.error h, s) => (.error h, s) := rfl

theorem pure_ok {a b : α} {s s' : σ} :
    (pure a : Attempt σ α) s = (.ok (.ok b), s') ↔ a = b ∧ s = s' := by
  change ((.ok (.ok a), s) : Except Halt (Except String α) × σ) = _ ↔ _
  simp

theorem bind_ok {x : Attempt σ α} {f : α → Attempt σ β} {s s' : σ} {b : β} :
    (x >>= f) s = (.ok (.ok b), s') ↔
      ∃ a t, x s = (.ok (.ok a), t) ∧ f a t = (.ok (.ok b), s') := by
  rw [bind_run]
  rcases x s with ⟨h | code | a, t⟩
  · exact ⟨nofun, fun ⟨_, _, h, _⟩ ↦ nomatch h⟩
  · exact ⟨nofun, fun ⟨_, _, h, _⟩ ↦ nomatch h⟩
  · constructor
    · exact fun h ↦ ⟨a, t, rfl, h⟩
    · rintro ⟨_, _, ⟨⟩, h⟩
      exact h

theorem lift_ok {x : Query σ α} {s s' : σ} {a : α} :
    (liftM x : Attempt σ α) s = (.ok (.ok a), s') ↔ x s = (.ok a, s') := by
  rw [lift_run]
  rcases x s with ⟨h | a, t⟩
  · exact ⟨nofun, nofun⟩
  · simp

theorem call_ok {x : StateM σ α} {s s' : σ} {a : α} :
    (liftM x : Attempt σ α) s = (.ok (.ok a), s') ↔ x s = (a, s') := by
  change ((.ok (.ok (x s).1), (x s).2) : Except Halt (Except String α) × σ) = _ ↔ _
  constructor
  · intro h
    obtain ⟨hvalue, hstate⟩ := Prod.mk.inj h
    exact Prod.ext (Except.ok.inj (Except.ok.inj hvalue)) hstate
  · intro h
    rw [h]

theorem rejectIf_ok {rejected : Bool} {code : String} {s s' : σ} {u : Unit} :
    rejectIf rejected code s = (.ok (.ok u), s') ↔ rejected = false ∧ s = s' := by
  cases rejected
  · exact ⟨fun h ↦ ⟨rfl, (Prod.mk.inj h).2⟩, fun h ↦ by rw [h.2]; rfl⟩
  · exact ⟨nofun, fun h ↦ nomatch h.1⟩

theorem orReject_ok {code : String} {x : Option α} {s s' : σ} {a : α} :
    orReject code x s = (.ok (.ok a), s') ↔ x = some a ∧ s = s' := by
  cases x with
  | none => exact ⟨nofun, fun h ↦ nomatch h.1⟩
  | some b =>
    change ((.ok (.ok b), s) : Except Halt (Except String α) × σ) = _ ↔ _
    simp

end Attempt

open Attempt

/-! ## The document -/

def isCanvasParticipant (doc : Json) (userId : ℤ) : Bool :=
  match field? doc "people" with
  | some (.arr people) => people.any (isUser userId)
  | _ => false

/-- Whether a document has a password. -/
def isProtected (doc : Json) : Bool :=
  match field? doc "canvas-password-hash" with
  | some (.str hash) => hash ≠ ""
  | _ => false

/-- Whether a text is more than the blanks of `" \t\n\r\f\v"`. -/
def hasText (value : String) : Bool :=
  value.toList.any fun c ↦ !([0x20, 0x9, 0xA, 0xD, 0xC, 0xB].contains c.toNat)

/-- The members of a list of people that are numbers, by a conversion to `int`. -/
def memberIds (doc : Json) : List ℤ :=
  match field? doc "people" with
  | some (.arr people) => people.filterMap fun
    | .int n => some (Json.wrap 32 n)
    | _ => none
  | _ => []

section Service

variable {σ : Type} (backend : Backend σ)

/-- The participants whose handle is known. -/
def participants : List ℤ → StateM σ (List Json)
  | [] => pure []
  | userId :: rest => do
    let handle ← backend.getUserHandle userId
    let entries ← participants rest
    match handle with
    | some (nickname, tag) =>
      return .obj [("nickname", .str nickname), ("tag_number", .int tag)] :: entries
    | none => return entries

def canvasSettingsSnapshot (doc : Json) : Query σ Json := do
  let participants ← participants backend (memberIds doc)
  let canvasId ← doc.valueInt "canvas-id" 0
  let canvasName ← doc.valueString "canvas-name" ""
  let description ← doc.valueString "description" ""
  let revision ← doc.valueLong "settings-revision" 0
  return .obj [("canvas_id", .int canvasId), ("canvas_name", .str canvasName),
    ("description", .str description), ("password_protected", .bool (isProtected doc)),
    ("visibility", .str (if canvasIsPublic doc then "public" else "private")),
    ("settings_revision", .int revision), ("participants", .arr participants)]

/-! ## What is changed -/

/-- The changes that an event asks for of a document that was read. -/
structure Update where
  field : String
  doc : List (String × Json)
  revision : ℤ
  changes : List (String × Json)
  removedUserId : ℤ := 0

namespace Update

/-- The revision that follows. -/
def nextRevision (u : Update) : ℤ := Json.wrap 64 (u.revision + 1)

/-- The fields that are written. -/
def fields (u : Update) : List (String × Json) :=
  u.changes ++ [("settings-revision", .int u.nextRevision)]

/-- The fields that go to the snapshot store, in the order of a map. -/
def patch (u : Update) : List (String × Json) := Json.sortedFields u.fields

/-- The document with its changes. -/
def updated (u : Update) : List (String × Json) :=
  u.fields.foldl (fun doc e ↦ Assoc.set e.1 e.2 doc) u.doc

/-- The fields as they were; a field that was not there comes back as null. -/
def restore (u : Update) : List (String × Json) :=
  u.patch.map fun e ↦
    (e.1, if e.1 = "settings-revision" then .int u.revision else (u.doc.lookup e.1).getD .null)

end Update

/-- The text under `value`. -/
def eventValue (event : Json) : Attempt σ String :=
  orReject "SETTINGS_INVALID_INPUT" <|
    match field? event "value" with
    | some (.str value) => some value
    | _ => none

def planVisibility (doc : Json) (value : String) : Attempt σ (List (String × Json)) := do
  rejectIf (value ≠ "public" && value ≠ "private") "SETTINGS_INVALID_INPUT"
  rejectIf (value = "public" && isProtected doc) "SETTINGS_INVALID_INPUT"
  return [("visibility", .str value)]

def planPassword (doc : Json) (value : String) : Attempt σ (List (String × Json)) := do
  rejectIf (canvasIsPublic doc && hasText value) "SETTINGS_INVALID_INPUT"
  if hasText value then
    let hash ← backend.hashCanvasPassword value
    let hash ← orReject "SETTINGS_STORAGE_ERROR" hash
    return [("canvas-password-hash", .str hash)]
  else return [("canvas-password-hash", .null)]

def planText (field : String) (doc : Json) (value : String) :
    Attempt σ (List (String × Json)) := do
  rejectIf (field = "name" && value = "") "SETTINGS_INVALID_INPUT"
  rejectIf ((if field = "description" then 4000 else 256) < value.utf8ByteSize)
    "SETTINGS_INVALID_INPUT"
  if field = "name" then return [("canvas-name", .str value)]
  else if field = "description" then return [("description", .str value)]
  else planPassword backend doc value

/-- The nickname and the tag of a participant. -/
def eventTarget (event : Json) : Attempt σ (String × ℤ) := do
  let target ← orReject "SETTINGS_INVALID_INPUT" <|
    match field? event "nickname", field? event "tag_number" with
    | some (.str nickname), some (.int tag) => some (nickname, Json.wrap 32 tag)
    | _, _ => none
  rejectIf (target.1 = "" || 200 < target.1.utf8ByteSize || target.2 < 1) "SETTINGS_INVALID_INPUT"
  return target

/-- The people and the groups of a document. -/
def peopleAndGroups (doc : Json) : Attempt σ (List Json × List (String × Json)) :=
  orReject "SETTINGS_STORAGE_ERROR" <|
    match field? doc "people", field? doc "inner-group" with
    | some (.arr people), some (.obj groups) => some (people, groups)
    | _, _ => none

/-- The group that a new participant joins. -/
def joinedGroup (doc : Json) : String :=
  match field? doc "init-group" with
  | some (.str group) => group
  | _ => "default"

/-- The members of a group. -/
def groupMembers (groups : List (String × Json)) (group : String) : List Json :=
  match groups.lookup group with
  | some (.arr members) => members
  | _ => []

def planAdd (doc event : Json) : Attempt σ (List (String × Json)) := do
  let (nickname, tag) ← eventTarget event
  let (people, groups) ← peopleAndGroups doc
  let target ← backend.getActiveUserId nickname tag
  rejectIf (target ≤ 0) "SETTINGS_USER_NOT_FOUND"
  rejectIf (isCanvasParticipant doc target) "SETTINGS_ALREADY_PARTICIPANT"
  let group := joinedGroup doc
  let members := groupMembers groups group ++ [.int target]
  return [("people", .arr (people ++ [.int target])),
    ("inner-group", .obj (Assoc.set group (.arr members) groups))]

/-- The first participant with a handle. -/
def findHandle (nickname : String) (tag : ℤ) : List ℤ → StateM σ (Option ℤ)
  | [] => pure none
  | userId :: rest => do
    if (← backend.getUserHandle userId) = some (nickname, tag) then return some userId
    else findHandle nickname tag rest

/-- A list without a user. -/
def withoutUser (userId : ℤ) (members : List Json) : List Json :=
  members.filter fun member ↦ !isUser userId member

/-- Groups without a user; what is no list stays. -/
def groupsWithoutUser (userId : ℤ) (groups : List (String × Json)) : List (String × Json) :=
  groups.map fun e ↦ (e.1, match e.2 with
    | .arr members => .arr (withoutUser userId members)
    | members => members)

/-- Whether a user is the owner of a document. -/
def isOwner (doc : Json) (userId : ℤ) : Bool :=
  match field? doc "admin-user-id" with
  | some admin => isUser userId admin
  | none => false

def planRemove (doc event : Json) : Attempt σ (List (String × Json) × ℤ) := do
  let (nickname, tag) ← eventTarget event
  let (people, groups) ← peopleAndGroups doc
  let target := (← findHandle backend nickname tag (memberIds doc)).getD (-1)
  rejectIf (target ≤ 0) "SETTINGS_USER_NOT_FOUND"
  rejectIf (isOwner doc target) "SETTINGS_OWNER_REQUIRED"
  return ([("people", .arr (withoutUser target people)),
    ("inner-group", .obj (groupsWithoutUser target groups))], target)

/-- The changes that an event asks for, and the user it removes. -/
def planChanges (doc event : Json) (field : String) : Attempt σ (List (String × Json) × ℤ) :=
  if field = "visibility" then do
    return (← planVisibility doc (← eventValue event), 0)
  else if field = "name" ∨ field = "description" ∨ field = "password" then do
    return (← planText backend field doc (← eventValue event), 0)
  else if field = "participant_add" then do
    return (← planAdd backend doc event, 0)
  else if field = "participant_remove" then planRemove backend doc event
  else Attempt.reject "SETTINGS_INVALID_INPUT"

/-! ## The task -/

structure CanvasSettingsTaskResult where
  response : List (String × Json)
  changedSettings : Json := .null
  participantIds : List ℤ := []
  removedUserId : ℤ := 0
  changed : Bool := false
  /-- The new name, when the name was changed. -/
  canvasName : Option String := none

/-- What a task comes to before it writes. -/
inductive Prepared where
  | answer (response : List (String × Json))
  | update (u : Update)

def settingsResult (requestId : String) (rest : List (String × Json)) : List (String × Json) :=
  [("type", .str "canvas_settings_result"), ("ok", .bool false), ("request_id", .str requestId)]
    ++ rest

def rejected (requestId code : String) : CanvasSettingsTaskResult :=
  { response := settingsResult requestId [("code", .str code)] }

def conflict (requestId : String) (settings : Json) : List (String × Json) :=
  settingsResult requestId [("code", .str "SETTINGS_CONFLICT"), ("settings", settings)]

def loadSettings (id : ℤ) : Attempt σ (List (String × Json)) := do
  let raw ← backend.loadCanvas id
  orReject "SETTINGS_STORAGE_ERROR" <|
    match raw with
    | some (some (.obj doc)) => some doc
    | _ => none

/-- The revision an event expects. -/
def expectedRevision (event : Json) : Attempt σ ℤ :=
  orReject "SETTINGS_REVISION_REQUIRED" <|
    match field? event "expected_revision" with
    | some (.int n) => some (Json.wrap 64 n)
    | _ => none

def eventField (event : Json) : Attempt σ String :=
  orReject "SETTINGS_INVALID_INPUT" <|
    match field? event "field" with
    | some (.str field) => some field
    | _ => none

/-- The part of an update before anything is written. -/
def prepareUpdate (doc : List (String × Json)) (userId : ℤ) (event : Json) (requestId : String) :
    Attempt σ Prepared := do
  rejectIf (!(groupsForUser (.obj doc) userId).2) "SETTINGS_ACCESS_DENIED"
  let expected ← expectedRevision event
  let revision ← (Json.obj doc).valueLong "settings-revision" 0
  if expected ≠ revision then
    return .answer (conflict requestId (← canvasSettingsSnapshot backend (.obj doc)))
  else
    let field ← eventField event
    let (changes, removedUserId) ← planChanges backend (.obj doc) event field
    return .update { field, doc, revision, changes, removedUserId }

def prepareSettings (id userId : ℤ) (nickname : String) (tag : ℤ) (event : Json)
    (requestId : String) : Attempt σ Prepared := do
  let doc ← loadSettings backend id
  rejectIf (!(← backend.isCanvasAssignedToServer id)) "CANVAS_NOT_READY"
  rejectIf ((← backend.getActiveUserId nickname tag) ≠ userId
    || (!isCanvasParticipant (.obj doc) userId && !canvasIsPublic (.obj doc)))
    "SETTINGS_ACCESS_DENIED"
  let type ← event.valueString "type" ""
  if type = "canvas_settings_get" then
    return .answer [("type", .str "canvas_settings_snapshot"),
      ("settings", ← canvasSettingsSnapshot backend (.obj doc))]
  else
    rejectIf (type ≠ "canvas_settings_update") "SETTINGS_INVALID_INPUT"
    prepareUpdate backend doc userId event requestId

/-- What follows when the snapshot store has not taken the changes. -/
def rollBack (id : ℤ) (u : Update) : StateM σ Unit := do
  let _ ← backend.compareAndSetFields id u.nextRevision u.restore
  let _ ← backend.patchCanvasFields id u.restore

/-- The document that a conflict is answered with. -/
def latestDocument (u : Update) : Option Text → Json
  | some (some doc) => doc
  | _ => .obj u.updated

def commitSettings (id : ℤ) (requestId : String) (u : Update) :
    Query σ CanvasSettingsTaskResult := do
  match ← backend.compareAndSetFields id u.revision u.fields with
  | .conflict =>
    let latest := latestDocument u (← backend.loadCanvas id)
    return { response := conflict requestId (← canvasSettingsSnapshot backend latest)
             removedUserId := u.removedUserId }
  | .error =>
    return { rejected requestId "SETTINGS_STORAGE_ERROR" with removedUserId := u.removedUserId }
  | .applied =>
    if ← backend.patchCanvasFields id u.patch then
      backend.setSettingsRevision id u.nextRevision
      let settings ← canvasSettingsSnapshot backend (.obj u.updated)
      return {
        response := [("type", .str "canvas_settings_result"), ("ok", .bool true),
          ("request_id", .str requestId), ("settings", settings)]
        changedSettings := settings
        participantIds := memberIds (.obj u.updated)
        removedUserId := u.removedUserId
        changed := true
        canvasName := if u.field = "name" then
            match u.updated.lookup "canvas-name" with
            | some (.str name) => some name
            | _ => none
          else none }
    else
      rollBack backend id u
      return { rejected requestId "SETTINGS_STORAGE_ERROR" with removedUserId := u.removedUserId }

/-- `CanvasSettingsService::execute`. -/
def executeSettings (id userId : ℤ) (nickname : String) (tag : ℤ) (event : Json)
    (requestId : String) : Query σ CanvasSettingsTaskResult := do
  let prepared : Query σ (Except String Prepared) :=
    prepareSettings backend id userId nickname tag event requestId
  match ← prepared with
  | .error code => return rejected requestId code
  | .ok (.answer response) => return { response }
  | .ok (.update u) => commitSettings backend id requestId u

/-- A task is what is prepared, then written. -/
theorem executeSettings_run (id userId : ℤ) (nickname : String) (tag : ℤ) (event : Json)
    (requestId : String) (s : σ) :
    executeSettings backend id userId nickname tag event requestId s =
      match prepareSettings backend id userId nickname tag event requestId s with
      | (.ok (.error code), s) => (.ok (rejected requestId code), s)
      | (.ok (.ok (.answer response)), s) => (.ok { response }, s)
      | (.ok (.ok (.update u)), s) => commitSettings backend id requestId u s
      | (.error h, s) => (.error h, s) := by
  refine (@Query.bind_run _ (Except String Prepared) _
    (prepareSettings backend id userId nickname tag event requestId) _ s).trans ?_
  rcases prepareSettings backend id userId nickname tag event requestId s with
    ⟨h | code | response | u, t⟩ <;> rfl

end Service

end Settings

end Agora
