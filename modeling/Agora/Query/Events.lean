import Agora.Query.CanvasOps

/-!
# Events

An event that was accepted is applied to the stored document: a message is appended to its room, an
item is stored or removed, or all items are replaced. A stored text keeps the history it was stored
with, and a chat room that is stored without its messages keeps those it had. What was stored is
read first; a read that fails counts as nothing stored.
-/

namespace Agora

namespace Events

/-! ## What was stored -/

/-- The first of the values that were found, where they could be read. -/
def firstFound : Option Text → Option Json
  | some (some (.arr (v :: _))) => some v
  | _ => none

def canvasItemId : Json → String
  | .str key => key
  | .int n => toString (Json.wrap 64 n)
  | _ => ""

/-- A number as an unsigned one of 64 bits. -/
def getUnsigned (j : Json) : Checked ℤ := do
  return (← j.getLong) % 2 ^ 64

/-! ## Chat messages -/

/-- The request of a message, where it has one. -/
def requestField (event : Json) : List (String × Json) :=
  match field? event "request_id" with
  | some (.str request) => [("request_id", .str request)]
  | _ => []

def storedChatMessage (event : Json) : Checked Json := do
  let sequence ← event.value getUnsigned "sequence" 0
  let text ← event.valueString "text" ""
  let sender ← event.valueString "sender" ""
  let senderUserId ← event.valueInt "sender_user_id" 0
  let tagNumber ← event.valueInt "tag_number" 0
  let createdAt ← event.valueLong "created_at" 0
  return .obj ([("sequence", .int sequence), ("text", .str text), ("sender", .str sender),
    ("sender_user_id", .int senderUserId), ("tag_number", .int tagNumber),
    ("created_at", .int createdAt)] ++ requestField event)

/-- The room and the number of a message, where it has both. -/
def messageTarget (event : Json) : Option (String × ℤ) :=
  match field? event "room_id", field? event "sequence" with
  | some (.str room), some sequence =>
    match sequence with
    | .int n => if 0 ≤ n ∧ room ≠ "" then some (room, n % 2 ^ 64) else none
    | _ => none
  | _, _ => none

/-- The room a message creates. -/
def createdRoom (permission message : Json) (sequence : ℤ) : Json :=
  .obj [("type", .str "chat_room"), ("permission", permission), ("data", .arr [message]),
    ("next_sequence", .int ((sequence + 1) % 2 ^ 64))]

/-! ## Histories -/

/-- The text of a change that can be merged. -/
def mergeableText (change : Json) : Option String :=
  match field? change "change" with
  | some (.str encoded) => some encoded
  | _ => none

/-- Add the changes that can be merged to those seen, each once. -/
def appendChange (merged : List Json × List String) (change : Json) : List Json × List String :=
  match mergeableText change with
  | some encoded =>
    if merged.2.contains encoded then merged else (merged.1 ++ [change], encoded :: merged.2)
  | none => merged

def appendChanges (merged : List Json × List String) : Option Json → List Json × List String
  | some (.arr changes) => changes.foldl appendChange merged
  | _ => merged

/-- The snapshot that was there stays, where it is a text. -/
def keepBase (previous : Json) (item : List (String × Json)) : List (String × Json) :=
  match field? previous "automerge_snapshot" with
  | some (.str snapshot) => Assoc.set "automerge_snapshot" (.str snapshot) item
  | _ => item

/-- The changes that were there, and the new ones. -/
def mergedChanges (previous : Json) (item : List (String × Json)) : List Json :=
  (appendChanges (appendChanges ([], []) (field? previous "automerge_changes"))
    (item.lookup "automerge_changes")).1

/-- An item with the history of the one it replaces. -/
def preserveHistory (previous : Json) (item : List (String × Json)) : List (String × Json) :=
  let item := keepBase previous item
  Assoc.set "automerge_changes" (.arr (mergedChanges previous item)) item

/-- An item with the history of the one that was found, if that has the same kind. -/
def mergeStored (kind : String) (item : List (String × Json)) : Option Json → List (String × Json)
  | some (.obj previous) =>
    match (Json.obj previous).valueString "kind" "" with
    | .ok previousKind => if previousKind = kind then preserveHistory (.obj previous) item else item
    | .error _ => item
  | _ => item

/-! ## Chat rooms -/

/-- A room with the messages that were found. -/
def keepData (item : List (String × Json)) : Option Json → List (String × Json)
  | some data => Assoc.set "data" data item
  | none => item

/-- A room with a number that follows its messages, and is not below the one that was found. -/
def raiseNext (item : List (String × Json)) (found : Option Json) : List (String × Json) :=
  Assoc.set "next_sequence"
    (.int (max (chatRoomNextSequence (.obj item)) ((found.map positiveSequence).getD 0))) item

section Apply

variable {σ : Type} (backend : Backend σ) (id : ℤ)

/-- What is stored in a field of an item. -/
def storedField (item field : String) : StateM σ (Option Json) := do
  return firstFound (← backend.readPath id ["items", item, field])

/-- A message: its room is created with it, or it is appended to one. -/
def applyChat (event : Json) : Query σ Bool :=
  match messageTarget event with
  | none => pure false
  | some (room, sequence) => do
    let message ← storedChatMessage event
    let created ← event.valueBool "room_created" false
    if created then do
      let permission ← event.valueJson "room_permission" (.arr [])
      backend.storeItem id room (createdRoom permission message sequence)
    else backend.appendMessage id room sequence message

/-- One of the items that replace all: a room without messages keeps those it had. -/
def replacement (e : String × Json) : StateM σ (String × Json) :=
  match e.2 with
  | .obj item =>
    if isChatRoomItem (.obj item) && (item.lookup "data").isNone then do
      let data ← storedField backend id e.1 "data"
      let item := Assoc.set "data" (data.getD (.arr [])) item
      let next ← storedField backend id e.1 "next_sequence"
      return (e.1, .obj (raiseNext item next))
    else return e
  | _ => return e

def replacements : List (String × Json) → StateM σ (List (String × Json))
  | [] => pure []
  | e :: l => do
    let e ← replacement backend id e
    return e :: (← replacements l)

/-- An item that is stored, with the history that was there. -/
def withHistory (key kind : String) (item : List (String × Json)) :
    StateM σ (List (String × Json)) :=
  if keepsHistory kind then do
    return mergeStored kind item (firstFound (← backend.readPath id ["items", key]))
  else return item

/-- A chat room that is stored, with the messages that were there. -/
def withMessages (key : String) (item : List (String × Json)) :
    StateM σ (List (String × Json)) := do
  let item := keepData item (← storedField backend id key "data")
  match item.lookup "data" with
  | some (.arr _) => return raiseNext item (← storedField backend id key "next_sequence")
  | _ => return item

/-- The item that an event carries. -/
def payload (event : Json) : Option (List (String × Json)) :=
  match field? event "item" with
  | some (.obj item) => some item
  | _ =>
    match field? event "data" with
    | some (.obj item) => some item
    | _ => none

def applyItem (event : Json) (key : String) : Query σ Bool :=
  match payload event with
  | none => pure false
  | some item => do
    let kind ← (Json.obj item).valueString "kind" ""
    let item ← withHistory backend id key kind item
    let preserve ← event.valueBool "_preserve_chat_history" false
    let item ← if preserve && isChatRoomItem (.obj item) then
        (liftM (withMessages backend id key item) : Query σ _)
      else pure item
    backend.storeItem id key (.obj item)

/-- The id of the item that an event is about. -/
def eventItemId (event : Json) : Option Json :=
  match field? event "item_id" with
  | some v => some v
  | none => field? event "item-id"

def applyKeyed (event : Json) (type : String) : Query σ Bool :=
  match eventItemId event with
  | none => pure false
  | some v =>
    if canvasItemId v = "" then pure false
    else if type = "item_delete" ∨ type = "delete_item" then
      backend.removeItem id (canvasItemId v)
    else applyItem backend id event (canvasItemId v)

/-- All the items that an event carries. -/
def eventItems (event : Json) : Option (List (String × Json)) :=
  match field? event "items" with
  | some (.obj items) => some items
  | _ => none

/-- Apply an event to the document of a canvas. -/
def apply (event : Json) : Query σ Bool :=
  if event.isObject = false then pure false
  else do
    let type ← event.valueString "type" ""
    if type = "ping" ∨ type = "pong" ∨ type = "item_crdt_change" then return true
    else if type = "chat" then applyChat backend id event
    else
      match eventItems event with
      | some items => do
        let items ← replacements backend id (Json.sortedFields items)
        backend.replaceItems id (.obj items)
      | none => applyKeyed backend id event type

end Apply

end Events

end Agora
