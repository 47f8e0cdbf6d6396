import Agora.Query.CanvasOps

/-!
# Joining a canvas

A connection is told which canvas it is about by a route. `join` checks who connects, loads the
canvas, and answers with the identity that later queries carry and with the items the user may see.
-/

namespace Agora

open Broker

/-! ## Routes -/

/-- A text of a route, which may be neither empty nor long. -/
def routeText (route : Json) (k : String) : Checked String := do
  throwIf (!route.contains k) "ROUTE_INVALID"
  throwIf (!(← route.index k).isString) "ROUTE_INVALID"
  let text ← (← route.index k).getString
  throwIf (text = "" || 128 < text.utf8ByteSize) "ROUTE_INVALID"
  return text

def routing (input : Json) : Checked Route := do
  let route ← input.valueJson "route" (.obj [])
  throwIf (!route.isObject || !route.contains "canvas_id") "ROUTE_INVALID"
  match ← route.index "canvas_id" with
  | .int canvasId => do
    throwIf (Json.wrap 32 canvasId ≤ 0) "ROUTE_INVALID"
    let connectionId ← routeText route "connection_id"
    let requestId ← routeText route "request_id"
    return ⟨canvasId, connectionId, requestId⟩
  | _ => reject "ROUTE_INVALID"

/-! ## Principals -/

variable {σ : Type} (backend : Backend σ)

/-- Who connects, and the settings that let them in. -/
structure Principal where
  userId : ℤ
  nickname : String
  tag : ℤ
  revision : ℤ

/-- Check who connects. -/
def authorize (route : Route) (input : Json) : Query σ Principal := do
  let principal ← input.valueJson "principal" (.obj [])
  throwIf (!principal.isObject) "CANVAS_ACCESS_UNAUTHORIZED"
  throwIf ((← principal.valueInt "canvas_id" 0) ≠ route.id) "CANVAS_ACCESS_UNAUTHORIZED"
  let nickname ← principal.valueString "nickname" ""
  let tag ← principal.valueInt "tag_number" (-1)
  let revision ← principal.valueLong "settings_revision" (-1)
  throwIf (nickname = "" || decide (tag < 0) || decide (revision < 0)) "CANVAS_ACCESS_UNAUTHORIZED"
  let userId ← backend.getActiveUserId nickname tag
  throwIf (decide (userId ≤ 0)) "CANVAS_ACCESS_UNAUTHORIZED"
  throwIf (!(← backend.isCanvasAccessAuthorized route.id userId revision))
    "CANVAS_ACCESS_UNAUTHORIZED"
  return ⟨userId, nickname, tag, revision⟩

/-- The identity later queries carry. -/
def Principal.identity (p : Principal) (route : Route) (groups : List String) (admin : Bool) :
    Json :=
  .obj [("user_id", .int p.userId), ("nickname", .str p.nickname), ("tag_number", .int p.tag),
    ("groups", .arr (groups.map .str)), ("is_admin", .bool admin),
    ("settings_revision", .int p.revision), ("canvas_id", .int route.id)]

/-- The items of a document, when they are asked for. -/
def joinedItems (doc : Json) (wanted : Bool) (groups : List String) (admin : Bool) :
    Checked (List (String × Json)) :=
  match field? doc "items" with
  | some (.obj fields) =>
    if wanted then visibleItems groups admin (Json.obj fields).items else pure []
  | _ => pure []

/-- Joining a canvas that is loaded, under its settings lock. -/
def joinLoaded (route : Route) (p : Principal) (input : Json) : Query σ Json := do
  let doc ← loadDocument backend route.id
  throwIf ((← doc.valueLong "settings-revision" 0) ≠ p.revision) "SETTINGS_CHANGED"
  let access := groupsForUser doc p.userId
  let wanted ← input.valueBool "include_items" true
  let items ← joinedItems doc wanted access.1 access.2
  let client ← input.valueString "client_id" ""
  let sync ← brokerSyncState backend route.id (clientKey p.userId client)
  let accepted ← acceptedCount sync.receipt
  let name ← doc.valueString "canvas-name" ""
  return .obj [("route", route.toJson), ("identity", p.identity route access.1 access.2),
    ("response", .obj [("type", .str "init_items"), ("canvas_id", .int route.id),
      ("items", .obj items), ("groups", .arr (access.1.map .str)), ("sync_protocol", .int 2),
      ("sync_user_id", .int p.userId), ("revision", .int sync.revision), ("client_id", .str client),
      ("accepted_count", .int accepted), ("canvas_name", .str name), ("status", .str "connected"),
      ("server_protocol", .str "Phoenix")])]

/-- What a call answers, or `CANVAS_NOT_READY`. -/
def orNotReady : Option CanvasView → Query σ CanvasView
  | some canvas => if canvas.unloading then Query.fail "CANVAS_NOT_READY" else pure canvas
  | none => Query.fail "CANVAS_NOT_READY"

def join (port : ℤ) (input : Json) : Query σ Json := do
  let route ← routing input
  throwIf ((← input.valueInt "ws_port" 0) ≠ port) "SERVER_ROUTE_INVALID"
  let p ← authorize backend route input
  let _ ← orNotReady (← backend.loadForQuery route.id)
  joinLoaded backend route p input

end Agora
