import Agora.Java.CanvasDocument
import Agora.Java.Transaction
import Agora.Json.Merge

/-!
# The document store as the services use it

The store holds documents under document ids. A document of a canvas belongs under the number of the
canvas; older ones may be under its name. A call is answered, or it fails, or it has its effect and
the reply is lost; the service turns some failures into exceptions and others into `false`.
-/

namespace Agora

namespace Java

open Snapshot (Fields passwordField)

/-! ## The store -/

/-- The documents by their document ids. -/
abbrev Index := List (String × Json)

/-- What the client throws: status 404 about a document or about the index, or anything else. -/
inductive RestError where
  | documentMissing
  | indexMissing (message : String)
  | other (message : String)
  deriving DecidableEq

/-- How a call ends. -/
inductive Reply where
  | answered
  | failed (indexMissing : Bool) (message : String)
  | lost (message : String)
  deriving DecidableEq

/-- The calls of a method; each is made once at most. -/
inductive Call where
  | getById
  | searchById
  | getByName
  | searchByName
  | put
  | patch
  | deleteById
  | deleteByName
  deriving DecidableEq

abbrev Replies := Call → Reply

abbrev Rest := Except RestError

def refused (indexMissing : Bool) (message : String) : RestError :=
  if indexMissing then .indexMissing message else .other message

def restGet (reply : Reply) (id : String) (index : Index) : Rest Json :=
  match reply with
  | .answered =>
    match index.lookup id with
    | some source => .ok source
    | none => .error .documentMissing
  | .failed indexMissing message => .error (refused indexMissing message)
  | .lost message => .error (.other message)

/-- The first document with a value in a field, if any. -/
def restSearch (reply : Reply) (field : String) (value : Json) (index : Index) :
    Rest (Option Json) :=
  match reply with
  | .answered => .ok ((index.find? fun e ↦ e.2.child (.key field) = some value).map Prod.snd)
  | .failed indexMissing message => .error (refused indexMissing message)
  | .lost message => .error (.other message)

def restPut (reply : Reply) (id : String) (source : Json) (index : Index) : Rest Unit × Index :=
  match reply with
  | .answered => (.ok (), Assoc.set id source index)
  | .failed indexMissing message => (.error (refused indexMissing message), index)
  | .lost message => (.error (.other message), Assoc.set id source index)

def restDelete (reply : Reply) (id : String) (index : Index) : Rest Unit × Index :=
  match reply with
  | .answered =>
    match index.lookup id with
    | some _ => (.ok (), Assoc.erase id index)
    | none => (.error .documentMissing, index)
  | .failed indexMissing message => (.error (refused indexMissing message), index)
  | .lost message => (.error (.other message), Assoc.erase id index)

/-! ## The service -/

/-- What the service is configured with. -/
structure Elasticsearch where
  library : JsonLibrary
  coercions : Coercions
  /-- A bcrypt hash; none when the text is too long. -/
  bcrypt : String → Option String
  index : String
  failOnError : Bool

section Passwords

variable (bcrypt : String → Option String)

def isHash (value : String) : Bool := bcryptShaped value.toList || pbkdf2Shaped value.toList

def hashForStorage (value : Option String) : Result (Option String) :=
  match given value with
  | none => pure none
  | some value =>
    match bcrypt value with
    | some hash => pure (some hash)
    | none => .error .unexpected

def normalizeStoredHash (value : Option String) : Result (Option String) :=
  match given value with
  | none => pure none
  | some stored => if isHash stored then pure (some stored) else hashForStorage bcrypt (some stored)

end Passwords

/-! ### The shapes of hashes -/

theorem bcryptShaped_spec {l : List Char} (h : bcryptShaped l = true) :
    ∃ rest, l = '$' :: '2' :: rest := by
  unfold bcryptShaped at h
  split at h
  · exact ⟨_, rfl⟩
  · nomatch h

theorem pbkdf2Shaped_spec {l : List Char} (h : pbkdf2Shaped l = true) :
    ∃ rest, l = "pbkdf2$".toList ++ rest := by
  unfold pbkdf2Shaped at h
  split at h
  · next name iterations salt digest hsplit =>
    simp only [Bool.and_eq_true, decide_eq_true_eq] at h
    have hjoin : ['$'].intercalate (l.splitOn '$') = l := List.intercalate_splitOn '$'
    rw [hsplit, h.1.1.1.1.1.1] at hjoin
    exact ⟨_, hjoin.symm.trans (by rfl)⟩
  · nomatch h

/-- A hash is not blank. -/
theorem not_isBlank_of_isHash {s : String} (h : isHash s = true) : isBlank s = false := by
  have hfirst : ∃ c l, s.toList = c :: l ∧ isWhitespace c = false := by
    rcases Bool.or_eq_true_iff.mp h with hb | hp
    · obtain ⟨rest, hrest⟩ := bcryptShaped_spec hb
      exact ⟨_, _, hrest, by decide⟩
    · obtain ⟨rest, hrest⟩ := pbkdf2Shaped_spec hp
      exact ⟨_, _, hrest, by decide⟩
  obtain ⟨c, l, hl, hc⟩ := hfirst
  rw [isBlank, hl, List.all_cons, hc, Bool.false_and]

/-- A hash is stored as it is. -/
theorem normalizeStoredHash_of_isHash {bcrypt : String → Option String} {text : String}
    (h : isHash text = true) : normalizeStoredHash bcrypt (some text) = .ok (some text) := by
  rw [normalizeStoredHash, given_of_not_isBlank (not_isBlank_of_isHash h)]
  exact if_pos h

/-! ### Reading -/

variable (es : Elasticsearch) (replies : Replies)

def canvasReadFailure : RestError → Failure
  | .indexMissing _ =>
    .custom .elasticsearchIndexNotFound "Elasticsearch 캔버스 인덱스를 읽을 수 없습니다."
  | _ => .custom .internalServerError "캔버스 저장소 조회에 실패했습니다. 잠시 후 다시 시도해 주세요."

/-- A document that was found, if it can be read. -/
def decodeFound (source : Json) : Result (Option CanvasDocument) :=
  match decodeCanvasDocument es.library es.coercions source with
  | .ok document => .ok (some document)
  | .error _ => .error (canvasReadFailure (.other ""))

def searchCanvasId (canvasId : ℤ) (index : Index) : Result (Option CanvasDocument) :=
  match restSearch (replies .searchById) "canvas-id" (.int canvasId) index with
  | .ok (some source) => decodeFound es source
  | .ok none => .ok none
  | .error e => .error (canvasReadFailure e)

def getCanvasDocumentById (canvasId : ℤ) (index : Index) : Result (Option CanvasDocument) :=
  match restGet (replies .getById) (toString canvasId) index with
  | .ok source => decodeFound es source
  -- A document that is missing may still have an older document id.
  | .error .documentMissing => searchCanvasId es replies canvasId index
  | .error e => .error (canvasReadFailure e)

def getCanvasDocumentByName (canvasName : String) (index : Index) : Option CanvasDocument :=
  match restSearch (replies .searchByName) "canvas-name" (.str canvasName) index with
  | .ok (some source) => (decodeCanvasDocument es.library es.coercions source).toOption
  | .ok none =>
    match restGet (replies .getByName) canvasName index with
    | .ok source => (decodeCanvasDocument es.library es.coercions source).toOption
    | .error _ => none
  | .error _ => none

/-- How a save ends that did not succeed. -/
def saveFailure (e : RestError) : Result Bool :=
  if !es.failOnError then pure false
  else
    match e with
    | .indexMissing message => .error (.custom .elasticsearchIndexNotFound
        s!"Elasticsearch 인덱스 '{es.index}'가 존재하지 않습니다: {message}")
    | .other message =>
      .error (.custom .internalServerError s!"Elasticsearch 색인 실패: {message}")
    | .documentMissing => .error (.custom .internalServerError "Elasticsearch 색인 실패: ")

/-- `String.valueOf` of the number of a canvas. -/
def documentId (document : CanvasDocument) : String :=
  match document.canvasId with
  | some id => toString id
  | none => "null"

/-- The document with its password as it is stored. -/
def normalized (document : CanvasDocument) : Result CanvasDocument := do
  let hash ← normalizeStoredHash es.bcrypt document.canvasPasswordHash
  return { document with canvasPasswordHash := hash }

def saveCanvas (document : CanvasDocument) : Action Index Bool := fun index ↦
  match normalized es document with
  | .error _ => (saveFailure es (.other "password cannot be more than 72 bytes"), index)
  | .ok document =>
    let source := .obj (encodeCanvasDocument es.library document)
    match restPut (replies .put) (documentId document) source index with
    | (.ok (), index) => (.ok true, index)
    | (.error e, index) => (saveFailure es e, index)

/-! ### Changing a whole document -/

structure UpdateCanvasDocumentRequest where
  canvasPassword : Option String := none
  peoples : Option Longs := none
  innerGroup : Option (List (String × Option Longs)) := none
  items : Option Fields := none
  initGroup : Option String := none

/-- The properties that a request sets. -/
def UpdateCanvasDocumentRequest.sets (request : UpdateCanvasDocumentRequest) : Property → Bool
  | .canvasPasswordHash => request.canvasPassword.isSome
  | .people => request.peoples.isSome
  | .innerGroup => request.innerGroup.isSome
  | .items => request.items.isSome
  | .initGroup => (given request.initGroup).isSome
  | _ => false

def applyRequest (request : UpdateCanvasDocumentRequest) (doc : CanvasDocument) : CanvasDocument :=
  { doc with
    canvasPasswordHash := match request.canvasPassword with
      | some password => if password = "null" then none else some password
      | none => doc.canvasPasswordHash
    people := request.peoples.getD doc.people
    innerGroup := request.innerGroup.getD doc.innerGroup
    items := request.items.getD doc.items
    initGroup := (given request.initGroup).or doc.initGroup }

/-- The document that is changed: the one under the number, or the one under the name. -/
def existingDocument (canvasId : ℤ) (fallbackCanvasName : Option String) (index : Index) :
    Result (Option CanvasDocument) := do
  match ← getCanvasDocumentById es replies canvasId index, fallbackCanvasName with
  | none, some name => return getCanvasDocumentByName es replies name index
  | found, _ => return found

def updateCanvasDocument (canvasId : ℤ) (fallbackCanvasName : Option String) (ownerId : Option ℤ)
    (request : UpdateCanvasDocumentRequest) : Action Index (Option CanvasDocument) := do
  let existing ← Action.reading (existingDocument es replies canvasId fallbackCanvasName)
  let doc := applyRequest request (existing.getD (.create fallbackCanvasName (some canvasId) ownerId
    request.canvasPassword request.initGroup))
  let saved ← saveCanvas es replies doc
  return if saved then (normalized es doc).toOption else none

/-! ### Changing some fields -/

/-- The fields with a password as it is stored. -/
def normalizedFields (fields : Fields) : Result Fields :=
  match fields.lookup passwordField with
  | none => pure fields
  | some (.str stored) => do
    let hash ← normalizeStoredHash es.bcrypt (some stored)
    return Assoc.set passwordField (ofText hash) fields
  | some .null => pure fields
  | some _ => .error .unexpected

/-! ### Passwords that are not hashed yet -/

/-- A password from before passwords were hashed. -/
def legacyPassword (doc : CanvasDocument) : Option String :=
  (given doc.canvasPasswordHash).filter fun password ↦ !isHash password

def migrateLegacyCanvasPassword (doc : CanvasDocument) : Action Index CanvasDocument := do
  match legacyPassword doc with
  | none => return doc
  | some password =>
    let doc := { doc with canvasPasswordHash := ← hashForStorage es.bcrypt (some password) }
    let saved ← saveCanvas es replies doc
    throwIf (!saved) .internalServerError "기존 캔버스 비밀번호를 안전하게 이전하지 못했습니다."
    return doc

/-! ### Deleting a document -/

def deleteDocuments (canvasId : ℤ) (canvasName : Option String) : Action Index Bool := fun index ↦
  match restDelete (replies .deleteById) (toString canvasId) index with
  | (.error _, index) => (.ok false, index)
  | (.ok (), index) =>
    match canvasName with
    | none => (.ok true, index)
    | some name =>
      if name = toString canvasId then (.ok true, index)
      else (.ok true, (restDelete (replies .deleteByName) name index).2)

end Java

end Agora
