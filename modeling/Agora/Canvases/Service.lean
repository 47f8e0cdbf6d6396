import Agora.Java.Elasticsearch

/-!
# Creating and deleting canvases

A canvas is a row of the database and a document of the document store. A method changes both: what
it has done to the database is rolled back when it throws or its commit fails, what it has done to
the document store stays done.
-/

namespace Agora

namespace Canvases

open Java
open Snapshot (Fields passwordField)

/-- A row of the table of canvases. -/
structure CanvasInfo where
  canvasId : ℤ
  isCached : Bool := false
  deriving DecidableEq

/-- The logged-in user. -/
structure User where
  userId : Option ℤ
  isSystemAdmin : Bool := false

/-- The database (the rows, the queue of canvases to clean up, the number of the next row) and the
documents. -/
structure World where
  rows : List CanvasInfo := []
  cleanup : List ℤ := []
  nextId : ℤ := 1
  index : Index := []

/-- How the steps of a method end. -/
structure Outcome where
  replies : Replies := fun _ ↦ .answered
  insert : Bool := true
  image : Result String := .ok ""
  enqueue : Bool := true
  remove : Bool := true
  resources : Bool := true
  publish : Bool := true
  commits : Bool := true

/-- What a rollback restores; numbers of rows are not given out again. -/
def rollback (before after : World) : World :=
  { after with rows := before.rows, cleanup := before.cleanup }

def onIndex {α : Type} (x : Action Index α) : Action World α :=
  x.within World.index fun index w ↦ { w with index }

/-- A step that has no effect here; it may throw. -/
def step (succeeds : Bool) : Action World Unit :=
  Action.reading fun _ ↦ if succeeds then .ok () else .error .unexpected

variable (es : Elasticsearch) (outcome : Outcome)

/-! ## Creating -/

structure CreateCanvasRequest where
  canvasName : Option String
  description : Option String := none
  canvasPassword : Option String := none
  visibility : Option String := none

structure CanvasSummaryResponse where
  canvasId : Option ℤ
  image : String
  description : String
  canvasName : Option String
  userCount : ℕ
  visibility : String

def CanvasSummaryResponse.of (doc : CanvasDocument) (imagePath : String) :
    CanvasSummaryResponse where
  canvasId := doc.canvasId
  image := imagePath
  description := doc.description.getD ""
  canvasName := doc.canvasName
  userCount := doc.people.length
  visibility := doc.getVisibility

def requireUser (currentUser : Option User) (message : String) : Result ℤ :=
  match currentUser.bind User.userId with
  | some userId => pure userId
  | none => .error (.custom .unauthorized message)

def checkCanvas (request : CreateCanvasRequest) : Result Unit := do
  Java.throwIf (request.canvasName.all fun name ↦ isBlank name || 255 < units name)
    .invalidInputValue "캔버스 이름은 1자 이상 255자 이하여야 합니다."
  Java.throwIf (request.description.any fun description ↦ 4000 < units description)
    .invalidInputValue "설명은 최대 4000자까지 가능합니다."
  Java.throwIf (request.canvasPassword.any fun password ↦ 72 < password.utf8ByteSize)
    .invalidInputValue "캔버스 비밀번호는 UTF-8 기준 72바이트 이하여야 합니다."
  Java.throwIf
    (request.visibility.any fun visibility ↦ visibility ≠ "public" && visibility ≠ "private")
    .invalidInputValue "공개 설정을 확인하세요."
  Java.throwIf (request.visibility = some "public" && (given request.canvasPassword).isSome)
    .invalidInputValue "공개 캔버스에는 비밀번호를 설정할 수 없습니다."

/-- A new row, under the next number. -/
def insertCanvasInfo : Action World ℤ := fun w ↦
  if outcome.insert ∧ w.nextId ≤ 2147483647 then
    (.ok w.nextId, { w with rows := w.rows ++ [{ canvasId := w.nextId }], nextId := w.nextId + 1 })
  else (.error .unexpected, w)

def newDocument (request : CreateCanvasRequest) (canvasId userId : ℤ) (hash : Option String) :
    CanvasDocument :=
  { CanvasDocument.create request.canvasName (some canvasId) (some userId) hash
      (some "default") with
    description := some (request.description.getD "") }.setVisibility request.visibility

def createCanvas (request : CreateCanvasRequest) (currentUser : Option User) :
    Action World CanvasSummaryResponse :=
  Action.transactional rollback outcome.commits do
    let userId ← requireUser currentUser "캔버스 생성은 로그인한 사용자만 가능합니다."
    checkCanvas request
    let targetId ← insertCanvasInfo outcome
    let imagePath ← outcome.image
    let hash ← hashForStorage es.bcrypt request.canvasPassword
    let document := newDocument request targetId userId hash
    let saved ← onIndex (saveCanvas es outcome.replies document)
    Java.throwIf (!saved) .internalServerError "캔버스 저장에 실패했습니다."
    return .of document imagePath

/-! ## Reading -/

def getCanvasInfoWithLockOrThrow (canvasId : ℤ) (w : World) : Result CanvasInfo :=
  match w.rows.find? fun row ↦ row.canvasId = canvasId with
  | some row => .ok row
  | none =>
    .error (.custom .canvasNotFound s!"캔버스 메타데이터를 찾을 수 없습니다: {canvasId}")

def getCanvasDocumentOrThrow (canvasId : ℤ) (index : Index) : Result CanvasDocument := do
  match ← getCanvasDocumentById es outcome.replies canvasId index with
  | some document => return document
  | none => .error (.custom .canvasNotFound s!"캔버스를 찾을 수 없습니다: {canvasId}")

/-! ## Deleting -/

def validateCanvasOwnerOrSystemAdmin (doc : CanvasDocument) (currentUser : Option User) :
    Result Unit := do
  let userId ← requireUser currentUser "로그인이 필요한 요청입니다."
  Java.throwIf (!(currentUser.any User.isSystemAdmin) && doc.adminUserId ≠ some userId)
    .accessDenied "캔버스 소유자(admin-user-id) 또는 시스템 관리자만 삭제할 수 있습니다."

/-- The checks before a canvas is deleted, and the document that they are made on. -/
def checkDeletion (canvasId : ℤ) (currentUser : Option User) (w : World) :
    Result CanvasDocument := do
  let info ← getCanvasInfoWithLockOrThrow canvasId w
  let doc ← getCanvasDocumentOrThrow es outcome canvasId w.index
  validateCanvasOwnerOrSystemAdmin doc currentUser
  Java.throwIf info.isCached .canvasActive
    "현재 활성화 상태인 캔버스는 삭제할 수 없습니다. 모든 사용자가 연결을 종료한 후 다시 시도해 주세요."
  return doc

def enqueueCleanup (canvasId : ℤ) : Action World Unit :=
  Action.modify fun w ↦ { w with cleanup := w.cleanup ++ [canvasId] }

def deleteCanvasInfo (canvasId : ℤ) : Action World Unit :=
  Action.modify fun w ↦ { w with rows := w.rows.filter fun row ↦ row.canvasId ≠ canvasId }

def deleteCanvas (canvasId : ℤ) (currentUser : Option User) : Action World Unit :=
  Action.transactional rollback outcome.commits do
    let doc ← Action.reading (checkDeletion es outcome canvasId currentUser)
    step outcome.enqueue
    enqueueCleanup canvasId
    step outcome.remove
    deleteCanvasInfo canvasId
    let deleted ← onIndex (deleteDocuments outcome.replies canvasId doc.canvasName)
    Java.throwIf (!deleted) .internalServerError
      "캔버스 저장 문서를 삭제하지 못했습니다. 잠시 후 다시 시도해 주세요."
    step outcome.resources
    step outcome.publish

/-! ## The password of a canvas that is not loaded -/

/-- What `updateCanvasPassword` sends to the document store. -/
def passwordFields (bcrypt : String → Option String) (password : Option String)
    (doc : CanvasDocument) : Result Fields := do
  Java.throwIf password.isNone .invalidInputValue "비밀번호를 입력하세요."
  Java.throwIf (doc.isPublic && (given password).isSome) .invalidInputValue
    "공개 캔버스에는 비밀번호를 설정할 수 없습니다."
  Java.throwIf (password.any fun password ↦ 72 < password.utf8ByteSize) .invalidInputValue
    "캔버스 비밀번호는 UTF-8 기준 72바이트 이하여야 합니다."
  let hash ← hashForStorage bcrypt password
  return [(passwordField, ofText hash)]

/-! ## Who may see a canvas -/

/-- `CanvasVisibility.allows`, for a user who is logged in. -/
def allows (doc : CanvasDocument) (userId : ℤ) : Bool :=
  doc.isPublic && (given doc.canvasPasswordHash).isNone
    || doc.adminUserId = some userId || doc.people.contains (some userId)

end Canvases

end Agora
