import Agora.Query.Rules
import Agora.Broker.Script
import Agora.Chat.Page

/-!
# The storage behind the queries

What a query calls: the user registry, the pool of loaded canvases, the canvas document in memory,
the snapshot store, the clock. Each call is a computation over a storage state that is left open,
so that every outcome of every call is covered, and so that a state may be anything from a script of
replies to a model of the whole storage.
-/

namespace Agora

/-- A text as a reader sees it: the value it parses to, if it parses. -/
abbrev Text := Option Json

/-- A loaded canvas, as seen under its settings lock. -/
structure CanvasView where
  unloading : Bool
  settingsRevision : ℤ

inductive CompareSetResult where
  | applied
  | conflict
  | error
  deriving DecidableEq

structure Backend (σ : Type) where
  /-- The length of a serialized value. -/
  dumpSize : Json → ℕ
  /-- The hash of a serialized value, in hexadecimal. -/
  digest : Json → String
  /-- The hash of a text, in hexadecimal. -/
  sha256 : String → String
  /-- Seconds. -/
  now : StateM σ ℤ
  /-- Milliseconds. -/
  nowMillis : StateM σ ℤ
  getActiveUserId : String → ℤ → StateM σ ℤ
  /-- The name of a handle comes as bytes. -/
  getActiveUserIdChecked : List UInt8 → ℤ → StateM σ (Option ℤ)
  getUserHandle : ℤ → StateM σ (Option (String × ℤ))
  isCanvasAssignedToServer : ℤ → StateM σ Bool
  isCanvasAccessAuthorized : ℤ → ℤ → ℤ → StateM σ Bool
  loadForQuery : ℤ → StateM σ (Option CanvasView)
  getCanvas : ℤ → StateM σ (Option CanvasView)
  touchQuery : ℤ → StateM σ Unit
  setSettingsRevision : ℤ → ℤ → StateM σ Unit
  loadCanvas : ℤ → StateM σ (Option Text)
  /-- The values found under some keys, as a list. -/
  readPath : ℤ → List String → StateM σ (Option Text)
  /-- Several items at once, null for an item that is not there. -/
  readBrokerItems : ℤ → List String → StateM σ (Option (List (String × Json)))
  applyBrokerBatch : ℤ → Broker.Batch → StateM σ (Option Broker.Reply)
  storeMentionState : ℤ → ℤ → String → Json → StateM σ Bool
  readChatPage : ℤ → Chat.PageRequest → StateM σ (Option Text)
  /-- The message that is stored for the request, when it is an object. -/
  commitChatMessage : ℤ → Json → Chat.Message → StateM σ (Option Json)
  appendMessage : ℤ → String → ℤ → Json → StateM σ Bool
  storeItem : ℤ → String → Json → StateM σ Bool
  removeItem : ℤ → String → StateM σ Bool
  replaceItems : ℤ → Json → StateM σ Bool
  flushCanvas : ℤ → StateM σ Bool
  compareAndSetFields : ℤ → ℤ → List (String × Json) → StateM σ CompareSetResult
  patchCanvasFields : ℤ → List (String × Json) → StateM σ Bool
  hashCanvasPassword : String → StateM σ (Option String)

/-- Parse a text. -/
def parse : Text → Checked Json
  | some j => .ok j
  | none => typeError

/-- The first of the values found, when there is one. -/
def firstMatch : Json → Checked (Option Json)
  | .null | .arr [] | .obj [] => .ok none
  | .arr (v :: _) => .ok (some v)
  | _ => typeError

variable {σ : Type} (backend : Backend σ)

namespace Query

/-- What a call answers, or `STORAGE_UNAVAILABLE`. -/
def orUnavailable {α : Type} : Option α → Query σ α
  | some a => pure a
  | none => fail "STORAGE_UNAVAILABLE"

/-- Throw `STORAGE_UNAVAILABLE` unless a call has succeeded. -/
def ensure (succeeded : Bool) : Query σ Unit :=
  if succeeded then pure () else fail "STORAGE_UNAVAILABLE"

end Query

/-- The items found where one is looked for. -/
def itemMatches : Json → Query σ (Option Json)
  | .arr found => pure found.head?
  | _ => Query.fail "STORAGE_UNAVAILABLE"

def readItem (id : ℤ) (item : String) : Query σ (Option Json) := do
  let raw ← Query.orUnavailable (← backend.readPath id ["items", item])
  itemMatches (← parse raw)

/-- What the memory says about a client: the revision of the canvas, and the receipt. -/
structure SyncState where
  revision : ℤ
  receipt : Json

/-- The revision that was found, 0 without one. -/
def syncRevision (found : Option Json) : Checked ℤ :=
  match found with
  | some v => v.getLong
  | none => pure 0

/-- The first of the values under some keys, when there is one. -/
def readMatch (id : ℤ) (keys : List String) : Query σ (Option Json) := do
  let raw ← Query.orUnavailable (← backend.readPath id keys)
  firstMatch (← parse raw)

def brokerSyncState (id : ℤ) (client : String) : Query σ SyncState := do
  let revision ← syncRevision (← readMatch backend id ["__broker_sync", "revision"])
  if client = "" then return ⟨revision, .null⟩
  else
    let receipt ← readMatch backend id ["__broker_sync", "clients", client]
    return ⟨revision, receipt.getD .null⟩

/-- The route of a request. -/
structure Route where
  canvasId : ℤ
  connectionId : String
  requestId : String

/-- The canvas, by a conversion to `int`. -/
def Route.id (route : Route) : ℤ := Json.wrap 32 route.canvasId

def Route.toJson (route : Route) : Json :=
  .obj [("canvas_id", .int route.canvasId), ("connection_id", .str route.connectionId),
    ("request_id", .str route.requestId)]

/-- The answer to a query, with what is to be sent to others. -/
def envelope (route : Route) (response : List (String × Json)) (broadcasts : List Json) : Json :=
  .obj [("route", route.toJson),
    ("response", .obj (Assoc.set "request_id" (.str route.requestId) response)),
    ("broadcasts", .arr broadcasts)]

/-- A query whose sender has been checked. -/
structure Admitted where
  route : Route
  identity : Json
  groups : List String
  admin : Bool
  event : Json
  type : String

end Agora
