import Agora.Query.Rules

/-!
# Batches of item operations

A batch creates, patches, translates and deletes items. `prepare` runs it against a read function
and answers what to stage: for every item it touched the new value, or null for a removal, the
value it read, and the revision it read, `-1` for an item that was not there. Nothing is written
here.

Coordinates are doubles. A translation that takes one out of their range leaves an infinity, which
is refused among the fields of an item but not in the points of a stroke.
-/

namespace Agora

namespace Broker

/-! ## Validation -/

def itemKinds : List String :=
  ["text", "note", "code", "math", "shape", "table", "chart", "image", "link", "connector",
    "stroke", "pdf", "user-group"]

def itemFields : List String :=
  ["kind", "text", "code", "formula", "format", "filename", "language", "shapeType",
    "visualStyle", "volumeStyle", "chartType", "color", "fill", "permission", "groupId", "src",
    "url", "title", "mediaType", "from", "to", "fromPort", "toPort", "startHead", "endHead",
    "brush", "embedUrl", "videoId", "renderMode", "label", "labelMode", "groupTitle", "thumbnail",
    "cornerStyle", "runtimeRole", "runtimeResults", "shadowBlur", "shadowOpacity",
    "shadowOffsetX", "shadowOffsetY", "depth", "x", "y", "width", "height", "rotation",
    "fontSize", "strokeWidth", "bend", "opacity", "contentScale", "contentScaleX",
    "contentScaleY", "bendPointCount", "headSize", "vertexCount", "fillOpacity",
    "sketchFillOpacity", "points", "rows", "columns", "simulatePressure", "complete",
    "strokeEnabled", "shadowEnabled", "imageFrameEnabled", "bendPoints", "members",
    "automerge_snapshot", "automerge_changes"]

def numberFields : List String :=
  ["x", "y", "width", "height", "rotation", "fontSize", "strokeWidth", "depth", "shadowBlur",
    "shadowOpacity", "shadowOffsetX", "shadowOffsetY", "bend", "opacity", "contentScale",
    "contentScaleX", "contentScaleY", "bendPointCount", "headSize", "vertexCount", "fillOpacity",
    "sketchFillOpacity"]

def sizeFields : List String := ["width", "height", "fontSize", "strokeWidth"]

def resultFields : List String :=
  ["runId", "codeId", "createdAt", "output", "error", "exitCode", "timedOut", "truncated"]

def chartTypes : List String := ["bar", "line", "area", "pie", "donut", "scatter"]

/-- Throw unless the value of a field passes, when the field is there. -/
def optional (passes : Json → Checked Bool) (code : String) (j : Json) (k : String) :
    Checked Unit :=
  if j.contains k then do throwIf (!(← passes (← j.index k))) code else pure ()

/-- Throw unless the field is there and its value passes. -/
def required (passes : Json → Checked Bool) (code : String) (j : Json) (k : String) :
    Checked Unit := do
  throwIf (!j.contains k) code
  optional passes code j k

/-- A text of at most so many bytes. -/
def shortText (bytes : ℕ) : Json → Checked Bool
  | .str s => .ok (decide (s.utf8ByteSize ≤ bytes))
  | _ => .ok false

/-- One of a list of texts. -/
def oneOf (texts : List String) : Json → Checked Bool
  | .str s => .ok (texts.contains s)
  | _ => .ok false

/-- A check of the type alone. -/
def ofType (p : Json → Bool) (j : Json) : Checked Bool := .ok (p j)

def positive (j : Json) : Checked Bool := return decide (0 < (← j.getDouble))

def nonnegativeInteger (j : Json) : Checked Bool := do
  if !j.isNumberInteger then return false
  return decide (0 ≤ (← j.getLong))

def validateResult (entry : Json) : Checked Unit := do
  let code := "ITEM_RUNTIME_RESULT_INVALID"
  throwIf (!entry.isObject) code
  required (shortText 256) code entry "runId"
  required (shortText 128) code entry "codeId"
  required nonnegativeInteger code entry "createdAt"
  throwIf (!entry.items.all (resultFields.contains ·.1)) code
  ["output", "error"].forM (optional (ofType Json.isString) code entry)
  optional (ofType Json.isNumberInteger) code entry "exitCode"
  ["timedOut", "truncated"].forM (optional (ofType Json.isBoolean) code entry)

def isPoint (point : Json) : Checked Bool := do
  if !point.isObject then return false
  if !point.contains "x" then return false
  if !(← point.index "x").isNumber then return false
  if !point.contains "y" then return false
  return (← point.index "y").isNumber

variable (dumpSize : Json → ℕ)

def validateResults (item : Json) : Checked Unit :=
  if item.contains "runtimeResults" then do
    let results ← item.index "runtimeResults"
    throwIf ((← item.valueString "runtimeRole" "") ≠ "output") "ITEM_RUNTIME_RESULT_INVALID"
    throwIf (!results.isArray || 32 < results.size || 524288 < dumpSize results)
      "ITEM_RUNTIME_RESULT_INVALID"
    results.elements.forM validateResult
  else pure ()

def validateChartData (item : Json) : Checked Unit := do
  let code := "ITEM_CHART_DATA_INVALID"
  required (oneOf chartTypes) "ITEM_CHART_TYPE_INVALID" item "chartType"
  optional (shortText 480) code item "title"
  required (ofType Json.isArray) code item "columns"
  let columns ← item.index "columns"
  throwIf (columns.size < 2 || 12 < columns.size) code
  required (ofType Json.isArray) code item "rows"
  let rows ← item.index "rows"
  throwIf (rows.size = 0 || 100 < rows.size) code
  eachOrReject (shortText 4000) code columns.elements
  rows.elements.forM fun row ↦ do
    throwIf (!row.isArray || row.size ≠ columns.size) code
    eachOrReject (shortText 4000) code row.elements
  throwIf (300000 < dumpSize columns + dumpSize rows) code

def validateChart (item : Json) : Checked Unit := do
  let chart ← hasText item "kind" "chart"
  if chart then validateChartData dumpSize item else pure ()

def validateBend (item : Json) : Checked Unit :=
  if item.contains "bendPoints" then do
    let points ← item.index "bendPoints"
    let count ← item.valueInt "bendPointCount" 1
    throwIf (!points.isArray || count < 1 || 32 < count || points.size ≠ count.toNat)
      "ITEM_BEND_INVALID"
    eachOrReject isPoint "ITEM_BEND_INVALID" points.elements
  else pure ()

def validatePoints (item : Json) : Checked Unit := do
  throwIf (!item.contains "points") "ITEM_STROKE_INVALID"
  let points ← item.index "points"
  throwIf (!points.isArray || 100000 < points.size) "ITEM_STROKE_INVALID"
  eachOrReject isPoint "ITEM_STROKE_INVALID" points.elements

def validateStroke (item : Json) : Checked Unit := do
  let stroke ← hasText item "kind" "stroke"
  if stroke then validatePoints item else pure ()

def validateRole (item : Json) : Checked Unit :=
  if item.contains "runtimeRole" then do
    throwIf ((← item.valueString "kind" "") ≠ "shape") "ITEM_RUNTIME_ROLE_INVALID"
    required (oneOf ["executor", "output"]) "ITEM_RUNTIME_ROLE_INVALID" item "runtimeRole"
  else pure ()

/-- Throw unless a field is one of an item, and finite if it is a number, as every integer is. -/
def validateField (field : String × Json) : Checked Unit := do
  throwIf (!itemFields.contains field.1) "ITEM_FIELD_INVALID"
  match field.2 with
  | .float x => throwIf (!isfinite x) "ITEM_NUMBER_INVALID"
  | _ => pure ()

def validate (item : Json) : Checked Unit := do
  throwIf (!item.isObject) "ITEM_KIND_INVALID"
  throwIf (!itemKinds.contains (← item.valueString "kind" "")) "ITEM_KIND_INVALID"
  item.items.forM validateField
  numberFields.forM (optional (ofType Json.isNumber) "ITEM_NUMBER_INVALID" item)
  sizeFields.forM (optional positive "ITEM_SIZE_INVALID" item)
  optional (oneOf ["solid", "wireframe"]) "ITEM_VOLUME_STYLE_INVALID" item "volumeStyle"
  validateRole item
  validateResults dumpSize item
  validateChart dumpSize item
  validateBend item
  validateStroke item

/-! ## Preparation -/

/-- What a batch stages. -/
structure Mutation where
  items : List (String × Json) := []
  previous : List (String × Json) := []
  expected : List (String × ℤ) := []
  translations : List Json := []
  onlyTranslations : Bool := true

variable {σ : Type} (read : String → Query σ (Option Json)) (groups : List String) (admin : Bool)

/-- What was read of an item, as the operations see it: without the fields of the server, and not
at all where only a tombstone is left. -/
def visibleItem (old : Json) : Checked Json := do
  let tombstone ← hasText old "kind" "host-tombstone"
  if tombstone || old.isNull then pure .null
  else (← old.eraseKey "__host_version").eraseKey "__broker_revision"

/-- The revision an item is read at, `-1` when it is not there. -/
def readRevision (old : Json) : Checked ℤ :=
  if old.isNull then .ok (-1) else old.valueLong "__broker_revision" 0

/-- The current value of an item: the staged one, or the one that is read, which is then staged. -/
def get (result : Mutation) (id : String) : Query σ (Json × Mutation) := do
  throwIf (!validQueryItemId id) "ITEM_ID_INVALID"
  match result.items.lookup id with
  | some item => return (item, result)
  | none =>
    let old := (← read id).getD .null
    throwIf (!old.isNull && !queryCanAccess old groups admin) "ITEM_ACCESS_DENIED"
    let revision ← readRevision old
    let item ← visibleItem old
    return (item, { result with
      items := Assoc.set id item result.items
      previous := Assoc.set id old result.previous
      expected := Assoc.set id revision result.expected })

/-- A result with the value of an item replaced. -/
def Mutation.stage (result : Mutation) (id : String) (item : Json) : Mutation :=
  { result with items := Assoc.set id item result.items }

/-! ### Translations -/

def translatePoint (dx dy : ℚ) (point : Json) : Checked Json := do
  let x ← ((field? point "x").getD .null).getDouble
  let point ← point.assign "x" (.float (addDouble x dx))
  let y ← ((field? point "y").getD .null).getDouble
  point.assign "y" (.float (addDouble y dy))

/-- The points of a stroke, moved; a value of another type is visited as a range loop does. -/
def translatePoints (dx dy : ℚ) : Json → Checked Json
  | .null => .ok .null
  | .arr points => return .arr (← points.mapM (translatePoint dx dy))
  | .obj points => return .obj (← (Json.sortedFields points).mapM fun e ↦
      return (e.1, ← translatePoint dx dy e.2))
  | point => translatePoint dx dy point

def translateItem (dx dy : ℚ) (item : Json) : Checked Json := do
  let stroke ← hasText item "kind" "stroke"
  if stroke then
    item.assign "points" (← translatePoints dx dy ((field? item "points").getD .null))
  else
    let item ← item.assign "x" (.float (addDouble (← item.valueDouble "x" 0) dx))
    item.assign "y" (.float (addDouble (← item.valueDouble "y" 0) dy))

/-- Move one item; the list collects the ids so far, none of which may come again. -/
def translateOne (dx dy : ℚ) (state : Mutation × List String) (value : Json) :
    Query σ (Mutation × List String) := do
  throwIf (!value.isString) "ITEM_TRANSLATION_INVALID"
  let id ← value.getString
  throwIf (state.2.contains id) "ITEM_TRANSLATION_INVALID"
  let (item, result) ← get read groups admin state.1 id
  throwIf item.isNull "ITEM_NOT_FOUND"
  throwIf (← hasText item "kind" "connector") "ITEM_NOT_FOUND"
  throwIf (← hasText item "type" "chat_room") "ITEM_NOT_FOUND"
  let item ← translateItem dx dy item
  validate dumpSize item
  return (result.stage id item, id :: state.2)

def translate (result : Mutation) (operation : Json) : Query σ Mutation := do
  let code := "ITEM_TRANSLATION_INVALID"
  let ids ← operation.valueJson "ids" (.arr [])
  throwIf (!ids.isArray || ids.size = 0 || 10000 < ids.size) code
  required (ofType Json.isNumber) code operation "dx"
  required (ofType Json.isNumber) code operation "dy"
  let dx ← (← operation.index "dx").getDouble
  let dy ← (← operation.index "dy").getDouble
  throwIf (!isfinite dx || !isfinite dy) code
  let (result, _) ← ids.elements.foldlM (translateOne dumpSize read groups admin dx dy) (result, [])
  return { result with translations := result.translations ++
    [.obj [("ids", ids), ("dx", .float dx), ("dy", .float dy)]] }

/-! ### Creations, patches and removals -/

/-- Drop the fields a patch unsets, none of which may belong to the server. -/
def unsetFields (item : Json) : List Json → Checked Json
  | [] => .ok item
  | .str k :: l => do
    throwIf ("__".isPrefixOf k) "ITEM_PATCH_INVALID"
    unsetFields (← item.eraseKey k) l
  | _ :: _ => reject "ITEM_PATCH_INVALID"

/-- Add the changes of one source to those seen, each once. -/
def mergeChange (merged : List Json × List String) (change : Json) :
    Checked (List Json × List String) := do
  let encoded ← (← change.index "change").getString
  return if merged.2.contains encoded then merged
    else (merged.1 ++ [change], encoded :: merged.2)

/-- The snapshot a history starts from does not change. -/
def keepSnapshot (old item : Json) : Checked Json :=
  if old.contains "automerge_snapshot" then do
    item.assign "automerge_snapshot" (← old.index "automerge_snapshot")
  else pure item

/-- The history of changes after a patch: the changes from before and the new ones. -/
def mergeHistory (old item : Json) : Checked Json := do
  let item ← keepSnapshot old item
  let before ← old.valueJson "automerge_changes" (.arr [])
  let after ← item.valueJson "automerge_changes" (.arr [])
  let merged ← before.elements.foldlM mergeChange ([], [])
  let merged ← after.elements.foldlM mergeChange merged
  item.assign "automerge_changes" (.arr merged.1)

/-- Whether a patched item has kept its kind. -/
def sameKind (old item : Json) : Checked Bool :=
  if old.isNull then pure true
  else return decide ((← old.valueString "kind" "") = (← item.valueString "kind" ""))

/-- The item a patch makes of an old one. -/
def patchItem (old operation : Json) : Checked Json := do
  let patch ← operation.valueJson "patch" (.obj [])
  let unset ← operation.valueJson "unset" (.arr [])
  throwIf (!patch.isObject || !unset.isArray) "ITEM_PATCH_INVALID"
  let item ← (if old.isNull then Json.obj [] else old).update patch
  let item ← unsetFields item unset.elements
  throwIf (!(← sameKind old item)) "ITEM_KIND_INVALID"
  return item

/-- The item a creation or a patch stages. -/
def storedItem (old operation : Json) : Checked Json := do
  let item ← patchItem old operation
  validate dumpSize item
  let item ← queryUpdatedItem old item groups admin
  let kind ← item.valueString "kind" ""
  if !old.isNull && keepsHistory kind then mergeHistory old item else pure item

def deleteItem (result : Mutation) (id : String) (old : Json) : Checked Mutation := do
  throwIf (← hasText old "type" "chat_room") "CHAT_QUERY_REQUIRED"
  return result.stage id .null

def storeItem (result : Mutation) (id : String) (old : Json) (action : String)
    (operation : Json) : Checked Mutation := do
  throwIf (action ≠ "create" ∧ action ≠ "patch") "QUERY_ACTION_INVALID"
  throwIf (action = "create" ∧ !old.isNull) "ITEM_ALREADY_EXISTS"
  throwIf (action = "patch" ∧ old.isNull) "ITEM_NOT_FOUND"
  let item ← storedItem dumpSize groups admin old operation
  let result := result.stage id item
  throwIf (20000 < result.items.length) "QUERY_BATCH_INVALID"
  return result

def mutateItem (result : Mutation) (action : String) (operation : Json) : Query σ Mutation := do
  let id ← operation.valueString "id" ""
  let (old, result) ← get read groups admin { result with onlyTranslations := false } id
  if action = "delete" then deleteItem result id old
  else storeItem dumpSize groups admin result id old action operation

def translateBatch (result : Mutation) (operation : Json) : Query σ Mutation := do
  let result ← translate dumpSize read groups admin result operation
  throwIf (20000 < result.items.length) "QUERY_BATCH_INVALID"
  return result

def prepareOperation (result : Mutation) (operation : Json) : Query σ Mutation := do
  throwIf (!operation.isObject) "QUERY_ACTION_INVALID"
  let action ← operation.valueString "action" ""
  if action = "translate" then translateBatch dumpSize read groups admin result operation
  else mutateItem dumpSize read groups admin result action operation

/-! ### Connectors -/

/-- An item as staged, or else as read. -/
def readStaged (result : Mutation) (id : String) : Query σ Json :=
  match result.items.lookup id with
  | some item => pure item
  | none => do return (← read id).getD .null

def checkEndpoint (result : Mutation) (id : String) : Query σ Unit := do
  let endpoint ← readStaged read result id
  throwIf endpoint.isNull "ITEM_CONNECTOR_INVALID"
  throwIf (!queryCanAccess endpoint groups admin) "ITEM_CONNECTOR_INVALID"
  throwIf (← hasText endpoint "kind" "connector") "ITEM_CONNECTOR_INVALID"
  throwIf (← hasText endpoint "kind" "host-tombstone") "ITEM_CONNECTOR_INVALID"

def checkEnds (result : Mutation) (item : Json) : Query σ Unit := do
  let source ← item.valueString "from" ""
  let target ← item.valueString "to" ""
  throwIf (source = target || !validQueryItemId source || !validQueryItemId target)
    "ITEM_CONNECTOR_INVALID"
  checkEndpoint read groups admin result source
  checkEndpoint read groups admin result target

def checkConnector (result : Mutation) (item : Json) : Query σ Unit := do
  let connector ← hasText item "kind" "connector"
  if connector then checkEnds read groups admin result item else pure ()

/-- Run a batch. Ends of connectors are looked up after all the operations, so a batch can create
a graph in any order. -/
def prepare (operations : Json) : Query σ Mutation := do
  throwIf (!operations.isArray || operations.size = 0 || 512 < operations.size)
    "QUERY_BATCH_INVALID"
  let result ← operations.elements.foldlM (prepareOperation dumpSize read groups admin) {}
  (Json.sortedFields result.items).forM fun e ↦ checkConnector read groups admin result e.2
  throwIf (8 * 1024 * 1024 < dumpSize (.obj result.items)) "QUERY_BATCH_TOO_LARGE"
  return result

end Broker

end Agora
