import Agora.Chat.Handler
import Agora.Query.Crud
import Agora.Query.Join
import Agora.Settings.Service

/-!
# The query service

Every request of a connection comes here. It is routed, and either joins the connection to a canvas
or is a query of a connection that has joined. A query carries the identity the join has given out;
it is admitted when the identity is one of the connection, has not run out, and was given out under
the settings the canvas still has. Whatever is thrown is answered with its code.
-/

namespace Agora

open Query

variable {σ : Type} (backend : Backend σ)

/-! ## Admission -/

/-- Whether an identity belongs to a connection and has not run out. -/
def checkIdentity (route : Route) (identity : Json) (now : ℤ) : Checked Unit := do
  let code := "QUERY_UNAUTHORIZED"
  throwIf (!identity.isObject) code
  throwIf ((← identity.valueInt "canvas_id" 0) ≠ route.id) code
  throwIf ((← identity.valueString "connection_id" "") ≠ route.connectionId) code
  throwIf (decide ((← identity.valueLong "expires_at" 0) ≤ now)) code
  throwIf (decide ((← identity.valueInt "user_id" 0) ≤ 0)) code
  throwIf (!identity.contains "groups") code
  throwIf (!(← identity.index "groups").isArray) code
  throwIf (!identity.contains "is_admin") code
  throwIf (!(← identity.index "is_admin").isBoolean) code

/-- The groups of an identity, each once. -/
def identityGroups (identity : Json) : Checked (List String) := do
  let groups ← identity.index "groups"
  return (← groups.elements.mapM Json.getString).dedup

/-- The canvas of a query, which has been loaded and is not being unloaded. -/
def readyCanvas : Option CanvasView → Checked CanvasView
  | some canvas => if canvas.unloading then reject "CANVAS_NOT_READY" else pure canvas
  | none => reject "CANVAS_NOT_READY"

def admitted (route : Route) (input : Json) : Query σ Admitted := do
  let identity ← input.valueJson "identity" (.obj [])
  checkIdentity route identity (← backend.now)
  let canvas ← readyCanvas (← backend.getCanvas route.id)
  backend.touchQuery route.id
  throwIf (canvas.settingsRevision ≠ (← identity.valueLong "settings_revision" (-1)))
    "SETTINGS_CHANGED"
  let event ← input.valueJson "event" (.obj [])
  throwIf (!event.isObject) "QUERY_INVALID"
  let type ← event.valueString "type" ""
  let groups ← identityGroups identity
  let admin ← identity.valueBool "is_admin" false
  return { route, identity, groups, admin, event, type }

/-! ## Settings -/

/-- Everyone connects again after a change of the settings. -/
def reconnectBroadcast : Json :=
  .obj [("event", .obj [("type", .str "server_reconnect"), ("reason", .str "settings_changed"),
    ("retry_after_ms", .int 100)]), ("all", .bool true), ("close", .bool true)]

def settingsQuery (a : Admitted) : Query σ Json := do
  let userId ← (← a.identity.index "user_id").getInt
  let nickname ← (← a.identity.index "nickname").getString
  let tag ← (← a.identity.index "tag_number").getInt
  let result ← Settings.executeSettings backend a.route.id userId nickname tag a.event
    a.route.requestId
  return envelope a.route result.response (if result.changed then [reconnectBroadcast] else [])

/-! ## Mentions -/

/-- The records under a user that were found. -/
def foundStates : Option Text → Option Json
  | some (some (.arr states)) => some (states.headD (.obj []))
  | _ => none

/-- The records of the mentions of a user. -/
def readMentionStates (id userId : ℤ) : Query σ (List (String × Json)) := do
  let found ← if userId ≤ 0 then (pure none : Query σ (Option Text))
    else (liftM (backend.readPath id ["mention-states", toString userId]) : Query σ _)
  match foundStates found with
  | some (.obj states) => return states
  | _ => fail "STORAGE_UNAVAILABLE"

/-- The item whose access decides whether a mention is shown: the object, or else the room. -/
def mentionKey (note : Json) : Checked String := do
  let objectId ← note.valueString "object_id" ""
  if objectId = "" then note.valueString "room_id" "" else pure objectId

/-- Whether an item can be accessed. -/
def accessibleItem (a : Admitted) : Option Json → Checked Bool
  | some target => visibleTo a.groups a.admin target
  | none => pure false

def accessible (a : Admitted) (note : Json) : Query σ Bool := do
  let key ← mentionKey note
  if validQueryItemId key then do
    let target ← readItem backend a.route.id key
    accessibleItem a target
  else return false

/-- Mark a mention as read. A room that is no text is noticed when the record is stored. -/
def storeRead (a : Admitted) (userId : ℤ) (mentionId : String) (note : Json) : Query σ Unit := do
  ensure
    (!(decide (userId ≤ 0) || mentionId = "" || 256 < mentionId.utf8ByteSize || !note.isObject))
  Chat.changedRoom note false
  ensure (← backend.storeMentionState a.route.id userId mentionId note)
  ensure (← backend.flushCanvas a.route.id)

def mentionRead (a : Admitted) (userId : ℤ) (states : List (String × Json)) : Query σ Json := do
  let mentionId ← a.event.valueString "mention_id" ""
  match states.lookup mentionId with
  | none => liftM (reject "MENTION_NOT_FOUND" : Checked Json)
  | some note => do
    throwIf (!(← accessible backend a note)) "MENTION_NOT_FOUND"
    storeRead backend a userId mentionId note
    return envelope a.route [("type", .str "mention_read"), ("ok", .bool true),
      ("mention_id", .str mentionId)] [Chat.mentionsChanged [userId]]

/-- What mentions are ordered by. -/
def mentionOrder (note : Json) : Checked (ℤ × String × Json) := do
  return (← note.valueLong "created_at" 0, ← note.valueString "mention_id" "", note)

/-- The mentions that have not been read. -/
def unreadNotes (states : List (String × Json)) : Checked (List Json) := do
  let unread ← (Json.sortedFields states).filterM fun e ↦
    if e.2.isObject then e.2.valueBool "unread" false else pure false
  return unread.map Prod.snd

/-- The mentions that have not been read, the latest first. -/
def sortedNotes (states : List (String × Json)) : Checked (List Json) := do
  let notes ← unreadNotes states
  if notes.length ≤ 1 then return notes
  else
    let ordered ← notes.mapM mentionOrder
    return (ordered.insertionSort fun a b ↦
      a.1 > b.1 ∨ a.1 = b.1 ∧ b.2.1 ≤ a.2.1).map fun e ↦ e.2.2

/-- The first 100 mentions that are accessible. -/
def accessibleNotes (a : Admitted) : List Json → List Json → Query σ (List Json)
  | [], shown => pure shown
  | note :: notes, shown => do
    let shown := if ← accessible backend a note then shown ++ [note] else shown
    if 100 ≤ shown.length then return shown else accessibleNotes a notes shown

def mentionsGet (a : Admitted) (states : List (String × Json)) : Query σ Json := do
  let notes ← sortedNotes states
  let shown ← accessibleNotes backend a notes []
  return envelope a.route [("type", .str "mentions_snapshot"), ("notifications", .arr shown)] []

def mentionQuery (a : Admitted) : Query σ Json := do
  let userId ← (← a.identity.index "user_id").getLong
  let states ← readMentionStates backend a.route.id userId
  if a.type = "mention_read" then mentionRead backend a userId states
  else mentionsGet backend a states

/-! ## Requests -/

/-- A query that was admitted. -/
def performQuery (a : Admitted) : Query σ Json :=
  if a.type = "canvas_ops" ∨ a.type = "canvas_sync" then canvasQuery backend a
  else if a.type = "broker_lease" then
    pure (envelope a.route [("type", .str "lease_result"), ("ok", .bool true)] [])
  else if "canvas_settings_".isPrefixOf a.type then settingsQuery backend a
  else if a.type = "mentions_get" ∨ a.type = "mention_read" then mentionQuery backend a
  else if a.type = "chat" ∨ a.type = "chat_history" then Chat.chatQuery backend a
  else Crud.crud backend a

def query (input : Json) : Query σ Json := do
  let route ← routing input
  let a ← admitted backend route input
  performQuery backend a

/-- What a request asks for. -/
def perform (port : ℤ) (input : Json) : Query σ Json := do
  let command ← input.valueString "command" ""
  if command = "connect" then join backend port input
  else if command = "query" then query backend input
  else liftM (reject "QUERY_COMMAND_INVALID" : Checked Json)

/-- The code an exception is answered with. -/
def Thrown.answered : Thrown → String
  | .invalidArgument code => code
  | .json => "QUERY_DATA_INVALID"
  | .runtimeError code =>
    if code = "STORAGE_UNAVAILABLE" ∨ code = "QUERY_OUTCOME_UNKNOWN" ∨
        code = "CANVAS_NOT_READY" then
      code
    else "QUERY_UNAVAILABLE"
  | .other => "QUERY_UNAVAILABLE"

/-- The answer to an exception. Without a route the envelope looks for a request in an empty one. -/
def errorEnvelope (route : Option Route) (e : Thrown) : Checked Json :=
  match route with
  | some route => pure (envelope route [("type", .str "error"), ("ok", .bool false),
      ("code", .str e.answered)] [])
  | none => .error .missingKey

/-- `CanvasQueryService::execute`. -/
def execute (port : ℤ) (input : Json) : Query σ Json :=
  match routing input with
  | .ok route => handle (perform backend port input) fun e ↦ liftM (errorEnvelope (some route) e)
  | .error h => handle (liftM (.error h : Checked Json)) fun e ↦ liftM (errorEnvelope none e)

end Agora
