import Agora.Chat.Handles
import Agora.Chat.History
import Agora.Query.CanvasOps

/-!
# Queries about chat rooms

A message goes to a room that is named, or to the room with the comments on an object, whose id is
computed from the id of the object; a room of that kind cannot be named directly. The room is
created with its first message. Whoever is mentioned in the message is told, if they could read it.
-/

namespace Agora

namespace Chat

open Query

/-- The handles in a text; their names are bytes, and their scanner always has a value. -/
def parseMentionHandles (text : String) : List Mentions.Handle :=
  (Mentions.parseMentionHandles text.toUTF8.toList).getD []

example : parseMentionHandles "hello @test user#12! @test user#12"
    = [(Mentions.bytes "test user", 12)] := by
  decide +kernel

/-! ## Rooms -/

section Handler

variable {σ : Type} (backend : Backend σ)

def commentRoomId (objectId : String) : String := "object-comment-" ++ backend.sha256 objectId

/-- The room a query is about: the object whose comments it holds, with its permission, and the room
as it is stored. -/
structure RoomRef where
  object : Option String
  permission : Json
  roomId : String
  room : Option Json

/-- The object of a query, which the user must have access to, and the room with its comments. -/
def commentTarget (a : Admitted) (objectId : String) : Query σ (Option String × Json × String) := do
  throwIf (!validQueryItemId objectId) "ITEM_ID_INVALID"
  match ← readItem backend a.route.id objectId with
  | none => liftM (reject "ITEM_ACCESS_DENIED" : Checked _)
  | some target => do
    let permission ← queryCommentPermission target a.groups a.admin
    return (some objectId, permission, commentRoomId backend objectId)

/-- A room that is named, which may not be one for comments. -/
def namedTarget (roomId : String) : Checked (Option String × Json × String) := do
  throwIf ("object-comment-".isPrefixOf roomId) "ITEM_ACCESS_DENIED"
  return (none, .null, roomId)

def roomTarget (a : Admitted) : Query σ (Option String × Json × String) := do
  let objectId ← a.event.valueString "object_id" ""
  let roomId ← a.event.valueString "room_id" ""
  if objectId ≠ "" then commentTarget backend a objectId else liftM (namedTarget roomId)

/-- The room of a query, which the user must have access to. -/
def findRoom (a : Admitted) : Query σ RoomRef := do
  let (object, permission, roomId) ← roomTarget backend a
  throwIf (!validQueryItemId roomId) "CHAT_INVALID_ROOM"
  let room ← readItem backend a.route.id roomId
  throwIf (room.any fun room ↦ !isChatRoomItem room
    || (object.isNone && !queryCanAccess room a.groups a.admin)) "ITEM_ACCESS_DENIED"
  return ⟨object, permission, roomId, room⟩

/-! ## Histories -/

/-- A page that is an object. -/
def answerHistory (a : Admitted) (response : Json) : Checked Json :=
  match response with
  | .obj fields => pure (envelope a.route fields [])
  | _ => typeError

def chatHistoryQuery (a : Admitted) (r : RoomRef) : Query σ Json := do
  match r.room with
  | none => do
    let response ← noHistory r.roomId r.object
    answerHistory a response
  | some _ => do
    let request ← historyRequest r.roomId a.event
    let raw ← orUnavailable (← backend.readChatPage a.route.id request)
    let response ← historyResponse r.roomId r.object (← parse raw)
    answerHistory a response

/-! ## Messages -/

/-- The users that a message mentions, with a mark that it is unread. -/
structure Mentioned where
  users : List (String × Bool) := []
  nodup : (users.map Prod.fst).Nodup := by exact List.nodup_nil

def Mentioned.add (m : Mentioned) (user : ℤ) : Mentioned :=
  ⟨Assoc.set (toString user) true m.users, Assoc.nodup_set m.nodup _ _⟩

/-- Whether a user is told of a mention: not the sender, someone with access to the canvas and to
the room. -/
def isTold (doc permission : Json) (senderId recipient : ℤ) : Bool :=
  decide (0 < recipient) && recipient ≠ senderId
    && (canvasIsPublic doc || canvasHasMember doc recipient)
    && queryCanAccess (.obj [("permission", permission)]) (groupsForUser doc recipient).1
      (groupsForUser doc recipient).2

/-- Look up a handle. -/
def mention (a : Admitted) (doc permission : Json) (m : Mentioned) (handle : Mentions.Handle) :
    Query σ Mentioned := do
  let recipient ← orUnavailable (← backend.getActiveUserIdChecked handle.1 handle.2)
  let senderId ← (← a.identity.index "user_id").getInt
  return if isTold doc permission senderId recipient then m.add recipient else m

def mentioned (a : Admitted) (permission : Json) (text : String) : Query σ Mentioned :=
  if (parseMentionHandles text).isEmpty then pure {}
  else do
    let doc ← loadDocument backend a.route.id
    (parseMentionHandles text).foldlM (mention backend a doc permission) {}

/-- The permission a room is created with, or has. -/
def roomPermission (a : Admitted) (r : RoomRef) : Json :=
  if r.object.isSome then r.permission
  else
    match r.room with
    | some room => (field? room "permission").getD .null
    | none => .arr (a.groups.map .str)

/-- The number proposed for a message. -/
def proposedSequence (r : RoomRef) : ℤ :=
  match r.room with
  | some room => chatRoomNextSequence room
  | none => 1

/-- The message of a query, before the mentions are looked up. -/
def newMessage (a : Admitted) (r : RoomRef) (text : String) : Query σ Message := do
  let sender ← a.identity.index "nickname"
  let tag ← a.identity.index "tag_number"
  let senderId ← (← a.identity.index "user_id").getLong
  let createdAt ← backend.nowMillis
  return { room := r.roomId, text, sender, tag, senderId, sequence := proposedSequence r, createdAt,
           request := a.route.requestId, object := r.object, mentions := [],
           nodup := List.nodup_nil }

def isSpace (c : Char) : Bool :=
  c = ' ' || c = '\t' || c = '\n' || c = '\r' || c.toNat = 0xb || c.toNat = 0xc

/-- A key as a number, of which only the start needs to be one. -/
def keyNumber (key : String) : Checked ℤ :=
  let text := key.toList.dropWhile isSpace
  let (negative, text) := match text with
    | '-' :: text => (true, text)
    | '+' :: text => (false, text)
    | text => (false, text)
  let digits := text.takeWhile Char.isDigit
  let n : ℤ := digits.foldl (fun n c ↦ n * 10 + (c.toNat - '0'.toNat : ℕ)) 0
  let n := if negative then -n else n
  if digits.isEmpty then reject "stoll"
  else if n < -9223372036854775808 ∨ 9223372036854775807 < n then .error (.threw .other)
  else .ok n

/-- The users that a stored message mentions. -/
def recipients (message : Json) : Checked (List ℤ) := do
  let states ← message.valueJson "mentions" (.obj [])
  states.items.mapM fun e ↦ keyNumber e.1

def mentionsChanged (users : List ℤ) : Json :=
  .obj [("user_ids", .arr (users.map .int)), ("event", .obj [("type", .str "mentions_changed")])]

/-- What is sent out about a message: the room, when it is new, the message, and who is mentioned.
-/
def messageBroadcasts (r : RoomRef) (permission : Json) (sequence : ℤ) (message : Json) :
    Checked (List Json) := do
  let users ← recipients message
  let message ← (← message.eraseKey "sender_user_id").eraseKey "mentions"
  let sent := Json.obj [("event", message), ("permission", permission)]
  let room := if r.room.isNone then [queryChatRoomBroadcast r.roomId permission (sequence + 1)]
    else []
  return room ++ [sent] ++ if users.isEmpty then [] else [mentionsChanged users]

def chatMessage (a : Admitted) (r : RoomRef) : Query σ Json := do
  let text ← a.event.valueString "text" ""
  throwIf (text = "" || 4096 < text.utf8ByteSize || a.groups.isEmpty) "CHAT_INVALID_MESSAGE"
  let permission := roomPermission a r
  let message ← newMessage backend a r text
  let m ← mentioned backend a permission text
  let committed ← orUnavailable (← backend.commitChatMessage a.route.id permission
    { message with mentions := m.users, nodup := m.nodup })
  ensure (← backend.flushCanvas a.route.id)
  let broadcasts ← messageBroadcasts r permission (proposedSequence r) committed
  return envelope a.route [("type", .str "event_ack"), ("ok", .bool true),
    ("event_type", .str a.type)] broadcasts

def chatQuery (a : Admitted) : Query σ Json := do
  let r ← findRoom backend a
  if a.type = "chat_history" then chatHistoryQuery backend a r else chatMessage backend a r

end Handler

end Chat

end Agora
