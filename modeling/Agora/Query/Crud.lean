import Agora.Query.Events

/-!
# Changes of single items

The queries that are neither batches of operations nor chat messages: an item is read, created,
updated, patched or deleted, or a list of such changes is made. All the changes are checked against
what is stored before the first is applied, and no item may be changed twice. They are then applied
one after the other, and the query stops at the first that fails.
-/

namespace Agora

namespace Crud

open Query

/-! ## One change -/

/-- The item that a change is about. -/
def operationItemId (operation : Json) : Checked String := do
  let fallback ← operation.valueString "id" ""
  operation.valueString "item_id" fallback

/-- What a change does; without an action the type says whether it deletes. -/
def operationAction (operation : Json) : Checked String := do
  let action ← operation.valueString "action" ""
  let type ← operation.valueString "type" ""
  return if action ≠ "" then action
    else if type = "item_delete" ∨ type = "delete_item" then "delete" else "update"

/-- Drop the fields that a patch unsets. -/
def unsetFields (item : Json) : List Json → Checked Json
  | [] => .ok item
  | .str k :: l => do unsetFields (← item.eraseKey k) l
  | _ :: _ => reject "ITEM_PATCH_INVALID"

/-- The item that a patch makes of an old one. -/
def patchedItem (old operation : Json) : Checked Json := do
  let patch ← operation.valueJson "patch" (.obj [])
  throwIf (!patch.isObject) "ITEM_PATCH_INVALID"
  let item ← old.update patch
  let unset ← operation.valueJson "unset" (.arr [])
  unsetFields item unset.elements

/-- The item that a change asks for. -/
def givenItem (action : String) (old operation : Json) : Checked Json := do
  let item ← operation.valueJson "item" (.obj [])
  if action = "patch" then patchedItem old operation else return item

/-- What has been found out about the changes so far. -/
structure Changes where
  prepared : List Json := []
  broadcasts : List Json := []
  results : List Json := []
  touched : List String := []

def deletion (id : String) : Json := .obj [("type", .str "item_delete"), ("item_id", .str id)]

def update (type id : String) (item : Json) : Json :=
  .obj [("type", .str (if type = "item_save" then "item_save" else "item_update")),
    ("item_id", .str id), ("item", item)]

namespace Changes

variable (c : Changes)

def read (id : String) (old : Json) : Changes :=
  { c with results := c.results ++ [.obj [("item_id", .str id), ("item", old)]]
           touched := id :: c.touched }

def delete (id : String) (permission : Json) : Changes :=
  { c with
    prepared := c.prepared ++ [deletion id]
    broadcasts := c.broadcasts ++ [.obj [("event", deletion id), ("permission", permission)]]
    touched := id :: c.touched }

/-- The participants of a host session are told by the host. -/
def store (hosted : Bool) (type id : String) (item : Json) : Changes :=
  { c with
    prepared := c.prepared ++ [update type id item]
    broadcasts := if hosted then c.broadcasts
      else c.broadcasts ++ [.obj [("event", update "" id item),
        ("permission", (field? item "permission").getD .null)]]
    touched := id :: c.touched }

end Changes

/-- A change that deletes an item. -/
def deleteChange (c : Changes) (id : String) (previous : Option Json) : Checked Changes := do
  throwIf (isChatRoomItem (previous.getD .null)) "CHAT_QUERY_REQUIRED"
  let permission ← match previous with
    | some old => old.valueJson "permission" (.arr [])
    | none => pure (.arr [])
  return c.delete id permission

/-- A change that stores an item. -/
def storeChange (a : Admitted) (c : Changes) (id action : String) (previous : Option Json)
    (operation : Json) : Checked Changes := do
  throwIf (action = "create" && previous.isSome) "ITEM_ALREADY_EXISTS"
  throwIf (action = "patch" && previous.isNone) "ITEM_NOT_FOUND"
  let item ← givenItem action (previous.getD .null) operation
  let item ← queryUpdatedItem (previous.getD .null) item a.groups a.admin
  return c.store (a.type = "host_item_batch") (← operation.valueString "type" "") id item

/-- A change, given what is stored. -/
def change (a : Admitted) (c : Changes) (id : String) (previous : Option Json)
    (operation : Json) : Checked Changes := do
  throwIf (previous.isSome && !queryCanAccess (previous.getD .null) a.groups a.admin)
    "ITEM_ACCESS_DENIED"
  let action ← operationAction operation
  if action = "read" then return c.read id (previous.getD .null)
  else if action = "delete" then deleteChange c id previous
  else if action = "create" ∨ action = "update" ∨ action = "patch" then
    storeChange a c id action previous operation
  else reject "QUERY_ACTION_INVALID"

section Query

variable {σ : Type} (backend : Backend σ)

/-- Check a change against what is stored. -/
def checkChange (a : Admitted) (c : Changes) (operation : Json) : Query σ Changes := do
  let id ← operationItemId operation
  throwIf (!validQueryItemId id || c.touched.contains id) "ITEM_ID_INVALID"
  let previous ← readItem backend a.route.id id
  change a c id previous operation

/-- Apply the changes, up to the first that fails. -/
def applyAll (id : ℤ) : List Json → ℕ → Query σ (ℕ × Bool)
  | [], applied => pure (applied, true)
  | event :: l, applied => do
    let succeeded ← Events.apply backend id event
    if succeeded then applyAll id l (applied + 1) else return (applied, false)

/-- The changes that a query asks for. -/
def operations (a : Admitted) : Checked (List Json) := do
  let operations ← if a.type = "host_item_batch" ∨ a.type = "crud_batch" then
      a.event.valueJson "changes" (.arr [])
    else pure (.arr [a.event])
  throwIf (!operations.isArray || operations.size = 0 || 512 < operations.size)
    "QUERY_BATCH_INVALID"
  return operations.elements

def resultType (a : Admitted) : Json :=
  .str (if a.type = "host_item_batch" then "host_batch_result" else "crud_result")

def failed (a : Admitted) (applied : ℕ) : Json :=
  envelope a.route [("type", resultType a), ("ok", .bool false),
    ("code", .str "STORAGE_UNAVAILABLE"),
    ("applied", .int applied)] []

def crud (a : Admitted) : Query σ Json := do
  let operations ← operations a
  let c ← operations.foldlM (checkChange backend a) {}
  let (applied, succeeded) ← applyAll backend a.route.id c.prepared 0
  if succeeded then do
    let flushed ← backend.flushCanvas a.route.id
    if flushed then
      return envelope a.route [("type", resultType a), ("ok", .bool true),
        ("applied", .int applied),
        ("results", .arr c.results)] c.broadcasts
    else return failed a applied
  else return failed a applied

end Query

end Crud

end Agora
