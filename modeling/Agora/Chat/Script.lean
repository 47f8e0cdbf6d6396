import Agora.Broker.Script
import Agora.Query.Rules

/-!
# The chat scripts

A chat room is an item whose messages are kept in an array under `data`, numbered from 1. The room
remembers in `requests` which request of which sender became which message, so that a request that
comes again is answered with the message it became. Whoever is mentioned in a message gets a record
under `mention-states`, and the message keeps, per mention, whether it is still unread.

Messages go through the Lua codec unchanged: they have no empty arrays, and their numbers are exact.
-/

namespace Agora

namespace Chat

open Script Broker

variable (readNumber : String → Option ℚ)

/-! ## Places -/

def typePath (room : String) : List Segment := itemPath room ++ [.key "type"]

def dataPath (room : String) : List Segment := itemPath room ++ [.key "data"]

def nextPath (room : String) : List Segment := itemPath room ++ [.key "next_sequence"]

def requestsPath (room : String) : List Segment := itemPath room ++ [.key "requests"]

def requestPath (room key : String) : List Segment :=
  itemPath room ++ [.key "requests", .key key]

def statesPath : List Segment := [.key "mention-states"]

def userPath (user : String) : List Segment := [.key "mention-states", .key user]

def statePath (user mention : String) : List Segment :=
  [.key "mention-states", .key user, .key mention]

/-! ## Messages -/

/-- A chat message. Every mentioned user is listed once. -/
structure Message where
  room : String
  text : String
  sender : Json
  tag : Json
  senderId : ℤ
  sequence : ℤ
  createdAt : ℤ
  request : String
  object : Option String
  /-- The mentioned users, and whether the message is unread by them. -/
  mentions : List (String × Bool)
  nodup : (mentions.map Prod.fst).Nodup
  deriving DecidableEq

namespace Message

def objectField (m : Message) : List (String × Json) :=
  (m.object.map fun id ↦ ("object_id", Json.str id)).toList

def mentionsJson (m : Message) : Json := .obj (m.mentions.map fun e ↦ (e.1, .bool e.2))

def toJson (m : Message) : Json :=
  .obj ([("type", .str "chat"), ("room_id", .str m.room), ("text", .str m.text),
    ("sender", m.sender), ("tag_number", m.tag), ("sender_user_id", .int m.senderId),
    ("sequence", .int m.sequence), ("created_at", .int m.createdAt),
    ("request_id", .str m.request)] ++ m.objectField ++ [("mentions", m.mentionsJson)])

/-- The key under which a room remembers the request of a message. -/
def key (m : Message) : String := toString m.senderId ++ ":" ++ m.request

/-- The id of the mentions in a message. -/
def mentionId (m : Message) : String := m.room ++ ":" ++ toString m.sequence

/-- The record of a mention. -/
def record (m : Message) (unread : Bool) : Json :=
  .obj ([("mention_id", .str m.mentionId), ("room_id", .str m.room)] ++ m.objectField ++
    [("sequence", .int m.sequence), ("sender", m.sender), ("tag_number", m.tag),
      ("text", .str m.text), ("created_at", .int m.createdAt), ("unread", .bool unread)])

end Message

/-! ## Committing a message -/

/-- The answers of the script. -/
inductive Commit where
  | missing
  | mismatch
  | badRoom
  | sequenceConflict
  /-- The message that is stored for the request. -/
  | stored (message : Json)
  deriving DecidableEq

/-- A room before its first message. -/
def newRoom (permission : Json) : Json :=
  .obj [("type", .str "chat_room"), ("permission", permission), ("data", .arr []),
    ("requests", .obj []), ("next_sequence", .int 1)]

/-- Whether a stored message says the same, by the same sender. -/
def sameMessage (previous : Json) (m : Message) : Script Bool := do
  let text ← luaIndex "text" previous
  let object ← luaIndex "object_id" previous
  let sender ← luaIndex "sender_user_id" previous
  return decide (text = some (.str m.text) ∧ object = m.object.map Json.str ∧
    sender = some (.int m.senderId))

/-- The answer to a request that has become the message at some place already. -/
def answerReceived (m : Message) (number : Option ℚ) : Script Commit := do
  match number with
  | none => raise
  | some n =>
    match ← jsonGetAt (dataPath m.room) (n - 1) with
    | none => raise
    | some previous =>
      let same ← sameMessage previous m
      return if same then .stored previous else .mismatch

/-- Give a user the record of a mention, unless there is one. -/
def recordMention (m : Message) (user : String) : Script Unit := do
  jsonSetNew (userPath user) (.obj [])
  jsonSetNew (statePath user m.mentionId) (m.record true)

/-- Give every mentioned user a record; Lua visits them in an order of its own. -/
def recordMentions (m : Message) (users : List String) : Script Unit :=
  if users.isEmpty then pure ()
  else do
    jsonSetNew statesPath (.obj [])
    users.forM (recordMention m)

/-- Store a message as the next one of its room. -/
def store (m : Message) (next : ℚ) (users : List String) : Script Commit := do
  arrAppend (dataPath m.room) m.toJson
  jsonSet (nextPath m.room) (ofNumber (next + 1))
  jsonSetNew (requestsPath m.room) (.obj [])
  jsonSet (requestPath m.room m.key) (ofNumber next)
  recordMentions m users
  return .stored m.toJson

/-- Store a message that has the next number of its room. -/
def appendNext (m : Message) (users : List String) : Script Commit := do
  let next := toNumber readNumber (← jsonGet (nextPath m.room))
  if next = some (m.sequence : ℚ) then store m m.sequence users else return .sequenceConflict

/-- Make sure there is a room, and append the message to it. -/
def appendNew (m : Message) (permission : Json) (users : List String) : Script Commit := do
  let type ← jsonGet (typePath m.room)
  if truthy type = false then do
    jsonSetNew (itemPath m.room) (newRoom permission)
    appendNext readNumber m users
  else if type = some (.str "chat_room") then appendNext readNumber m users
  else return .badRoom

def commitScript (m : Message) (permission : Json) (users : List String) : Script Commit := do
  let received ← jsonGet (requestPath m.room m.key)
  if truthy received then answerReceived m (toNumber readNumber received)
  else appendNew readNumber m permission users

/-- The script on a key: no answer when an error is raised. -/
def commitChatMessage (m : Message) (permission : Json) (users : List String) :
    Option Json → Option Commit × Option Json
  | none => (some .missing, none)
  | some d =>
    let r := commitScript readNumber m permission users d
    (r.1.toOption, some r.2)

/-! ## Mention states -/

/-- Where a message keeps whether a user has read it. -/
def markPath (room : String) (i : ℕ) (user : String) : List Segment :=
  dataPath room ++ [.index i, .key "mentions", .key user]

/-- Mark a message of a room as read, where it mentions the user. -/
def markAt (room : String) (n : ℚ) (user : String) : Script Unit := do
  if n.den ≠ 1 then raise
  else
    match ← jsonGet (dataPath room) with
    | some (.arr elements) =>
      match positionOf n.num elements.length with
      | some i => jsonSetOld (markPath room i user) (.bool false)
      | none => pure ()
    | _ => pure ()

/-- The room and the number that a record names. -/
def markTarget (room : Option Json) (sequence : Option ℚ) : Option (String × ℚ) :=
  match room, sequence with
  | some (.str room), some n => some (room, n)
  | _, _ => none

/-- Mark the message that a record is about. -/
def markMessage (user : String) (note : Json) : Script Unit := do
  let room ← luaIndex "room_id" note
  let sequence ← luaIndex "sequence" note
  if truthy room && truthy sequence then
    match markTarget room (toNumber readNumber sequence) with
    | some target => markAt target.1 (target.2 - 1) user
    | none => raise
  else pure ()

/-- A record that has been read. -/
def readRecord : Json → Script Json
  | .obj fields => pure (.obj (Assoc.set "unread" (.bool false) fields))
  | _ => raise

/-- Mark a record and its message as read. -/
def readState (user mention : String) : Script Bool := do
  let existing ← jsonGet (statePath user mention)
  if truthy existing then do
    let record ← readRecord (existing.getD .null)
    jsonSet (statePath user mention) record
    markMessage readNumber user record
    return true
  else return false

/-- Create a record, or read one. Whether the script answers `OK`. -/
def stateScript (user mention : String) (notification : Json) (unread : Bool) : Script Bool := do
  jsonSetNew statesPath (.obj [])
  jsonSetNew (userPath user) (.obj [])
  if unread then do
    jsonSetNew (statePath user mention) notification
    return true
  else readState readNumber user mention

/-- The script on a key. -/
def runStateScript (user mention : String) (notification : Json) (unread : Bool) :
    Option Json → Bool × Option Json
  | none => (false, none)
  | some d =>
    let r := stateScript readNumber user mention notification unread d
    (r.1.toOption.getD false, some r.2)

/-- What the record names as its room, which decides what is read again afterwards. -/
def changedRoom (notification : Json) (unread : Bool) : Checked Unit :=
  if !unread && notification.contains "room_id" then do
    let _ ← (← notification.index "room_id").getString
  else pure ()

def storeMentionState (user : ℤ) (mention : String) (notification : Json) (unread : Bool)
    (d : Option Json) : Checked Bool × Option Json :=
  if user ≤ 0 ∨ mention = "" ∨ 256 < mention.utf8ByteSize ∨ notification.isObject = false then
    (.ok false, d)
  else
    match notification.assign "unread" (.bool unread), changedRoom notification unread with
    | .ok record, .ok () =>
      let r := runStateScript readNumber (toString user) mention record unread d
      (.ok r.1, r.2)
    | .error h, _ | _, .error h => (.error h, d)

end Chat

end Agora
