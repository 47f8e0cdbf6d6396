import Agora.Chat.Handler
import Agora.Chat.Mentions
import Agora.Chat.Proposal
import Agora.Settings.Store

/-!
# The document behind all queries

The storage of one canvas with all the scripts that run on its document: batches, chat messages,
mentions, pages of histories, and settings. Calls to other parts of the system are left open; they
do not touch the document.
-/

namespace Agora

open Broker

/-- In which order a script records the mentions of a message. -/
structure Telling where
  order : Chat.Message → List String
  mentioned : ∀ m : Chat.Message, (order m).Perm (m.mentions.map Prod.fst)

namespace Storage

/-- A script on the document, with an answer that may be none. -/
def script {α β : Type} (answer : α → Option β) (f : Option Json → Option α × Option Json) :
    StateM Storage (Option β) := do
  let reply ← scripted fun d ↦ ((f (some d)).1, (f (some d)).2.getD d)
  return reply.bind answer

/-- The message that a commit script answers with. -/
def committed : Chat.Commit → Option Json
  | .stored message => if message.isObject then some message else none
  | _ => none

/-- The script that sets fields of a document with the expected revision. -/
def compareAndSet (readNumber : String → Option ℚ) (expected : ℤ) (fields : List (String × Json)) :
    Option Json → Option CompareSetResult × Option Json
  | some (.obj doc) =>
    if Settings.currentRevision readNumber (doc.lookup "settings-revision")
        = some (expected : ℚ) then
      (some .applied, some (.obj (Settings.setFields doc fields)))
    else (some .conflict, some (.obj doc))
  | d => (none, d)

end Storage

variable (base : Backend Storage) (readNumber : String → Option ℚ) (visit : Visit) (told : Telling)

/-- The calls about the document of a canvas, chat and settings included. -/
def canvasBackend : Backend Storage :=
  { storageBackend base readNumber visit with
    readChatPage := fun _ request ↦ do
      let page ← Storage.reading fun d ↦ Chat.readChatPage readNumber request (some d)
      -- Without a page the script answers with a text that is no JSON.
      return page.map fun page ↦ page.map Chat.recoded
    commitChatMessage := fun _ permission m ↦ Storage.script Storage.committed
      (Chat.commitChatMessage readNumber m permission (told.order m))
    appendMessage := fun _ room sequence message ↦ do
      let reply ← Storage.script some (Chat.appendChatMessage readNumber room sequence message)
      return reply = some .ok
    storeMentionState := fun _ user mention note ↦ do
      let stored ← Storage.script (fun stored : Checked Bool ↦ stored.toOption) fun d ↦
        ((some (Chat.storeMentionState readNumber user mention note false d).1),
          (Chat.storeMentionState readNumber user mention note false d).2)
      return stored = some true
    compareAndSetFields := fun _ revision fields ↦ do
      let reply ← Storage.script some (Storage.compareAndSet readNumber revision fields)
      return reply.getD .error }

/-- The calls about the clock, the users, the loaded canvases and their snapshots leave the document
alone. -/
structure Outside : Prop where
  now : ∀ s, (base.now s).2.document = s.document
  nowMillis : ∀ s, (base.nowMillis s).2.document = s.document
  getActiveUserId : ∀ nickname tag s, (base.getActiveUserId nickname tag s).2.document = s.document
  getActiveUserIdChecked : ∀ name tag s,
    (base.getActiveUserIdChecked name tag s).2.document = s.document
  getUserHandle : ∀ user s, (base.getUserHandle user s).2.document = s.document
  hashCanvasPassword : ∀ password s, (base.hashCanvasPassword password s).2.document = s.document
  isCanvasAssignedToServer : ∀ id s, (base.isCanvasAssignedToServer id s).2.document = s.document
  isCanvasAccessAuthorized : ∀ id user revision s,
    (base.isCanvasAccessAuthorized id user revision s).2.document = s.document
  loadForQuery : ∀ id s, (base.loadForQuery id s).2.document = s.document
  getCanvas : ∀ id s, (base.getCanvas id s).2.document = s.document
  touchQuery : ∀ id s, (base.touchQuery id s).2.document = s.document
  setSettingsRevision : ∀ id revision s,
    (base.setSettingsRevision id revision s).2.document = s.document
  patchCanvasFields : ∀ id fields s, (base.patchCanvasFields id fields s).2.document = s.document

end Agora
