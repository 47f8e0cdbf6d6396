import Agora.Java.Elasticsearch
import Agora.Query.Storage
import Agora.Settings.Service

/-!
# The places of a canvas document

A canvas document is in the snapshot store and, while its row in the database says that it is
loaded, in memory. A server loads it from the one into the other and saves it back; in between it
has an object for the canvas, with the revision of the settings it knows. Each call is answered, or
fails without an effect, or has its effect with the reply lost.
-/

namespace Agora

namespace Settings

open Snapshot (Fields passwordField legacyFields)

/-- A canvas: whether its row says that it is loaded, the document in memory, the revision the
server knows when it has an object for the canvas, the snapshot store, and how the next calls
end. -/
structure Store where
  isCached : Bool := false
  document : Option Fields := none
  revision : Option ℤ := none
  index : Java.Index
  faults : List Fault := []

namespace Store

variable {α : Type}

/-- A call, and what is answered when no reply comes. -/
def acting (unanswered : α) (f : Store → α × Store) : StateM Store α := fun s ↦
  match s.faults.headD .answered with
  | .answered => f { s with faults := s.faults.tail }
  | .failed => (unanswered, { s with faults := s.faults.tail })
  | .lost => (unanswered, (f { s with faults := s.faults.tail }).2)

/-- A question to another part of the system; what it answers may change from call to call. -/
def asking (f : List Fault → α) : StateM Store α := fun s ↦
  (f s.faults, { s with faults := s.faults.tail })

/-- Where a call leads, unless it has no effect. -/
theorem acting_cases (unanswered : α) (f : Store → α × Store) (s : Store) :
    acting unanswered f s = (unanswered, { s with faults := s.faults.tail }) ∨
      (acting unanswered f s).2 = (f { s with faults := s.faults.tail }).2 ∧
        ((acting unanswered f s).1 = unanswered ∨
          acting unanswered f s = f { s with faults := s.faults.tail }) := by
  unfold acting
  rcases s.faults.headD .answered with _ | _ | _
  · exact Or.inr ⟨rfl, Or.inr rfl⟩
  · exact Or.inl rfl
  · exact Or.inr ⟨rfl, Or.inl rfl⟩

end Store

open Store

/-! ## Memory -/

/-- What a script compares with the expected revision. -/
def currentRevision (readNumber : String → Option ℚ) : Option Json → Option ℚ
  | none | some (.bool false) => some 0
  | some (.int n) => some n
  | some (.float q) => some q
  | some (.str s) => readNumber s
  | some _ => none

def setFields (doc : Fields) (fields : Fields) : Fields :=
  fields.foldl (fun doc e ↦ Assoc.set e.1 e.2 doc) doc

/-- The script that sets fields of a document with the expected revision. -/
def compareAndSetJsonPaths (readNumber : String → Option ℚ) (expected : ℤ) (fields : Fields)
    (s : Store) : CompareSetResult × Store :=
  match s.document with
  | none => (.error, s)
  | some doc =>
    if currentRevision readNumber (doc.lookup "settings-revision") = some (expected : ℚ) then
      (.applied, { s with document := some (setFields doc fields) })
    else (.conflict, s)

def loadCanvas : StateM Store (Option Fields) := acting none fun s ↦ (s.document, s)

def storeCanvas (doc : Fields) : StateM Store Bool :=
  acting false fun s ↦ (true, { s with document := some doc })

def clearCanvas : StateM Store Bool := acting false fun s ↦ (true, { s with document := none })

def ping : StateM Store Bool := acting false fun s ↦ (true, s)

def flushCanvas : StateM Store Bool := acting false fun s ↦ (true, s)

/-- Delete a document of a generation. -/
def removeCanvasGeneration (generation : String) : StateM Store Unit :=
  acting () fun s ↦
    if (s.document.bind fun doc ↦ doc.lookup "_cache_generation") = some (.str generation) then
      ((), { s with document := none })
    else ((), s)

/-! ## The row -/

/-- Mark the row as loaded; the answer is whether it was. -/
def getOrAllocateRedisAndSetCached : StateM Store (Option Bool) :=
  acting none fun s ↦ (some s.isCached, { s with isCached := true })

def updateCanvasUncached : StateM Store Bool :=
  acting false fun s ↦ (s.isCached, { s with isCached := false })

def getCanvasStorageAssignment : StateM Store (Option Bool) :=
  acting none fun s ↦ (some s.isCached, s)

/-! ## The snapshot store -/

/-- The number in a search for a canvas. -/
def searchedId (query : Json) : Option Json :=
  query.find [.key "query", .key "term", .key "canvas-id"]

def searchResponse (found : Option Json) : Json :=
  .obj [("hits", .obj [("hits", .arr (found.map fun source ↦ .obj [("_source", source)]).toList)])]

/-- The snapshot store of the servers. A document is written with its fields in the order of a
map. -/
def documentStore : JsonDocumentStore Store where
  getDocument _ id := acting none fun s ↦ (s.index.lookup id, s)
  searchDocuments _ query := acting none fun s ↦
    (some (searchResponse ((s.index.find? fun e ↦
      e.2.child (.key "canvas-id") = searchedId query).map Prod.snd)), s)
  putDocument _ id doc := acting false fun s ↦
    let source := match doc with
      | .obj fields => .obj (Json.sortedFields fields)
      | doc => doc
    (true, { s with index := Assoc.set id source s.index })
  patchDocument _ id fields := acting false fun s ↦
    match s.index.lookup id with
    | some source =>
      (true, { s with index := Assoc.set id (Json.mergeValue (some source) fields) s.index })
    | none => (false, s)

/-! ## The servers -/

/-- What a server is configured with. -/
structure Server where
  library : JsonLibrary
  hashCanvasPassword : String → Option String
  readNumber : String → Option ℚ
  index : String

/-- The users, as far as the servers ask about them. -/
structure Directory where
  getActiveUserId : String → ℤ → ℤ
  getUserHandle : ℤ → Option (String × ℤ)
  isCanvasAssignedToServer : Bool := true

/-- Calls that answer nothing. -/
def quietBackend (σ : Type) : Backend σ where
  dumpSize _ := 0
  digest _ := ""
  sha256 _ := ""
  now := pure 0
  nowMillis := pure 0
  getActiveUserId _ _ := pure 0
  getActiveUserIdChecked _ _ := pure none
  getUserHandle _ := pure none
  isCanvasAssignedToServer _ := pure false
  isCanvasAccessAuthorized _ _ _ := pure false
  loadForQuery _ := pure none
  getCanvas _ := pure none
  touchQuery _ := pure ()
  setSettingsRevision _ _ := pure ()
  loadCanvas _ := pure none
  readPath _ _ := pure none
  readBrokerItems _ _ := pure none
  applyBrokerBatch _ _ := pure none
  storeMentionState _ _ _ _ := pure false
  readChatPage _ _ := pure none
  commitChatMessage _ _ _ := pure none
  appendMessage _ _ _ _ := pure false
  storeItem _ _ _ := pure false
  removeItem _ _ := pure false
  replaceItems _ _ := pure false
  flushCanvas _ := pure false
  compareAndSetFields _ _ _ := pure .error
  patchCanvasFields _ _ := pure false
  hashCanvasPassword _ := pure none

variable (server : Server)

/-- The calls of a change of the settings. -/
def settingsBackend (directory : List Fault → Directory) : Backend Store :=
  { quietBackend Store with
    getActiveUserId := fun nickname tag ↦ asking fun t ↦
      Json.wrap 32 ((directory t).getActiveUserId nickname tag)
    getUserHandle := fun userId ↦ asking fun t ↦ (directory t).getUserHandle userId
    isCanvasAssignedToServer := fun _ ↦ asking fun t ↦ (directory t).isCanvasAssignedToServer
    hashCanvasPassword := fun value ↦ pure (server.hashCanvasPassword value)
    loadCanvas := fun _ ↦ do return (← loadCanvas).map fun doc ↦ some (.obj doc)
    compareAndSetFields := fun _ revision fields ↦
      acting .error (compareAndSetJsonPaths server.readNumber revision fields)
    patchCanvasFields := fun id fields ↦
      patchCanvasFields server.hashCanvasPassword documentStore server.index id fields
    setSettingsRevision := fun _ revision ↦ fun s ↦ ((), { s with revision := some revision }) }

/-! ### Loading and saving -/

/-- A field under an older name, moved to its name. -/
def moveLegacy (doc : Fields) (legacy : String) : Fields :=
  match doc.lookup legacy with
  | none => doc
  | some v =>
    Assoc.erase legacy
      (if (doc.lookup passwordField).isSome then doc else Assoc.set passwordField v doc)

/-- A document with its password under one name and hashed. -/
def migratedDocument (doc : Fields) : Option Fields :=
  let doc := legacyFields.foldl moveLegacy doc
  match doc.lookup passwordField with
  | some (.str stored) =>
    (normalizeCanvasPassword server.hashCanvasPassword stored).map fun normalized ↦
      Assoc.set passwordField (.str normalized) doc
  | _ => some doc

section Loading

variable (canvasId : ℤ)

def saveDocument (doc : Fields) : StateM Store Bool :=
  saveCanvasDocument server.hashCanvasPassword server.library documentStore server.index canvasId
    (.obj doc)

def initialDocument (alreadyCached : Bool) : StateM Store (Option Fields) := do
  if alreadyCached then loadCanvas
  else
    match ← getCanvasDocument server.library documentStore server.index canvasId with
    | some (.obj doc) => return some doc
    | _ => return none

/-- Save a document whose password has changed. -/
def saveMigrated (doc migrated : Fields) : StateM Store Bool :=
  if migrated = doc then pure true else saveDocument server canvasId migrated

/-- Put a document into memory, after its password has been hashed where it is stored. -/
def initializeCanvas (alreadyCached : Bool) (generation : String) :
    StateM Store (Option Fields) := do
  match (← initialDocument server canvasId alreadyCached).bind fun doc ↦
      (migratedDocument server doc).map fun migrated ↦ (doc, migrated) with
  | none => return none
  | some (doc, migrated) =>
    if ← saveMigrated server canvasId doc migrated then
      let doc := Assoc.set "_cache_generation" (.str generation) migrated
      let kept ← storeCanvas doc
      return if kept then some doc else none
    else return none

/-- Make an object for a canvas whose document is in memory. -/
def registerCanvas (doc : Fields) : StateM Store Unit := fun s ↦
  match (Json.obj doc).valueLong "settings-revision" 0 with
  | .ok revision => ((), { s with revision := some revision })
  -- The conversion throws when the field is no number; then there is no object.
  | .error _ => ((), s)

/-- What follows a load without a document; a canvas that was loaded before stays loaded. -/
def abandonLoad (wasCached : Bool) : StateM Store Unit :=
  if wasCached then pure ()
  else do
    if ← clearCanvas then
      let _ ← updateCanvasUncached

/-- What follows when memory is not there. -/
def abandonAllocation (wasCached : Bool) : StateM Store Unit :=
  if wasCached then pure ()
  else do
    let _ ← updateCanvasUncached

/-- Load a canvas that the server has no object for. -/
def getOrCreateCanvas (generation : String) : StateM Store Unit := do
  match ← getOrAllocateRedisAndSetCached with
  | none => return ()
  | some wasCached =>
    if ← ping then
      match ← initializeCanvas server canvasId wasCached generation with
      | some doc => registerCanvas doc
      | none => abandonLoad wasCached
    else abandonAllocation wasCached

/-- Save the document of a canvas; the answer is its generation. -/
def saveCanvasSnapshot : StateM Store (Option String) := do
  if !(← flushCanvas) then return none
  else
    match (← loadCanvas).bind fun doc ↦
        (doc.lookup "_cache_generation").map fun generation ↦ (doc, generation) with
    | some (doc, .str generation) =>
      let saved ← saveDocument server canvasId (Assoc.erase "_cache_generation" doc)
      return if saved then some generation else none
    | _ => return none

/-- Give up a canvas; the answer is whether it has been given up. -/
def unloadCanvas : StateM Store Bool := do
  match ← saveCanvasSnapshot server canvasId with
  | none => return false
  | some generation =>
    if ← updateCanvasUncached then
      removeCanvasGeneration generation
      return true
    else return (← getCanvasStorageAssignment) = some false

def removeCanvas : StateM Store Unit := do
  if ← unloadCanvas server canvasId then fun s ↦ ((), { s with revision := none })

end Loading

end Settings

end Agora
