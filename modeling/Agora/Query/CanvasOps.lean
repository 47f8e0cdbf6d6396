import Agora.Broker.Staged
import Agora.Query.Backend

/-!
# Batches and snapshots

The two queries of clients that keep a copy of the canvas. `canvas_sync` answers with all the items
the client may see; `canvas_ops` prepares a batch of operations from what is stored, gives it to the
batch script, and tells everyone what was applied.

A batch that has been applied before is not prepared again: operations that create an item would
no longer be accepted.
-/

namespace Agora

open Broker

variable {σ : Type} (backend : Backend σ)

/-! ## Snapshots -/

/-- A chat room without what stays on the server. -/
def publicItem (item : Json) : Checked Json :=
  if isChatRoomItem item then do (← item.eraseKey "data").eraseKey "requests" else pure item

/-- Whether an item is shown to a user. -/
def visibleTo (groups : List String) (admin : Bool) (item : Json) : Checked Bool := do
  let kind ← item.valueString "kind" ""
  return kind ≠ "host-tombstone" && queryCanAccess item groups admin

/-- An item, if it is shown to a user. -/
def shownItem (groups : List String) (admin : Bool) (e : String × Json) :
    Checked (List (String × Json)) := do
  let visible ← visibleTo groups admin e.2
  if visible then return [(e.1, ← publicItem e.2)] else return []

/-- The items of a list that a user may see. -/
def visibleItems (groups : List String) (admin : Bool) :
    List (String × Json) → Checked (List (String × Json))
  | [] => pure []
  | e :: l => do
    let shown ← shownItem groups admin e
    return shown ++ (← visibleItems groups admin l)

/-- The document as it is loaded. -/
def loadDocument (id : ℤ) : Query σ Json := do
  let raw ← Query.orUnavailable (← backend.loadCanvas id)
  parse raw

/-- The number of the last batch of a client. -/
def acceptedCount (receipt : Json) : Checked ℤ :=
  if receipt.isNull then pure 0 else receipt.valueLong "count" 0

def canvasSync (a : Admitted) (client : String) (sync : SyncState) (accepted : ℤ) :
    Query σ Json := do
  let doc ← loadDocument backend a.route.id
  let source ← doc.valueJson "items" (.obj [])
  let items ← visibleItems a.groups a.admin source.items
  return envelope a.route [("type", .str "canvas_snapshot"), ("sync_protocol", .int 2),
    ("sync_user_id", ← a.identity.index "user_id"), ("items", .obj items),
    ("revision", .int sync.revision), ("client_id", .str client),
    ("accepted_count", .int accepted)] []

/-! ## Batches -/

/-- What a client asks for with a batch. -/
structure BatchRequest where
  client : String
  count : ℤ
  request : String
  digest : String
  operations : Json

/-- The number of a batch. -/
def requestCount (event : Json) : Checked ℤ := do
  throwIf (!event.contains "request_count") "CLIENT_SEQUENCE_INVALID"
  throwIf (!(← event.index "request_count").isNumberInteger) "CLIENT_SEQUENCE_INVALID"
  let count ← (← event.index "request_count").getLong
  throwIf (count ≤ 0 || 9007199254740991 ≤ count) "CLIENT_SEQUENCE_INVALID"
  return count

/-- The items one operation is about. -/
def operationIds (operation : Json) : Checked (List String) := do
  throwIf (!operation.isObject) "QUERY_ACTION_INVALID"
  if (← operation.valueString "action" "") = "translate" then translationIds operation
  else ownId operation
where
  translationIds (operation : Json) : Checked (List String) := do
    let ids ← operation.valueJson "ids" (.arr [])
    throwIf (!ids.isArray || ids.size = 0 || 10000 < ids.size) "ITEM_TRANSLATION_INVALID"
    ids.elements.mapM fun item ↦ do
      throwIf (!item.isString) "ITEM_ID_INVALID"
      let id ← item.getString
      throwIf (!validQueryItemId id) "ITEM_ID_INVALID"
      return id
  ownId (operation : Json) : Checked (List String) := do
    let id ← operation.valueString "id" ""
    throwIf (!validQueryItemId id) "ITEM_ID_INVALID"
    return [id]

/-- The items a batch is about, each once. -/
def wantedIds (wanted : List String) (operation : Json) : Checked (List String) := do
  let wanted := (wanted ++ (← operationIds operation)).dedup
  throwIf (20000 < wanted.length) "QUERY_BATCH_INVALID"
  return wanted

def batchIds (operations : Json) : Checked (List String) :=
  operations.elements.foldlM wantedIds []

/-- Reading an item: from what was loaded for the batch, or else on its own. -/
def readLoaded (id : ℤ) (loaded : List (String × Json)) (item : String) :
    Query σ (Option Json) :=
  match loaded.lookup item with
  | some .null => pure none
  | some v => pure (some v)
  | none => readItem backend id item

/-- Prepare the operations of a batch that is new. -/
def prepareNew (id : ℤ) (groups : List String) (admin : Bool) (operations : Json) :
    Query σ Mutation := do
  throwIf (!operations.isArray || operations.size = 0 || 512 < operations.size)
    "QUERY_BATCH_INVALID"
  let wanted ← batchIds operations
  let loaded ← Query.orUnavailable (← backend.readBrokerItems id wanted)
  prepare backend.dumpSize (readLoaded backend id loaded) groups admin operations

section Prepare

open Query

variable {backend} {I : σ → Prop} {id : ℤ}

theorem readLoaded_keeps (hread : ∀ item, Keeps I (readItem backend id item))
    (loaded : List (String × Json)) (item : String) :
    Keeps I (readLoaded backend id loaded item) := by
  unfold readLoaded
  split
  · exact keeps_pure _
  · exact keeps_pure _
  · exact hread item

/-- The items are loaded, and then what is staged comes from them, and is the outcome of the
operations. -/
theorem prepareNew_traced (hread : ∀ item, Keeps I (readItem backend id item))
    (hload : ∀ ids, Keeps I (liftM (backend.readBrokerItems id ids) : Query σ _))
    (groups : List String) (admin : Bool) (operations : Json) :
    Yields I (prepareNew backend id groups admin operations) fun mutation ↦
      ∃ ids loaded s s', I s ∧ backend.readBrokerItems id ids s = (some loaded, s') ∧
        mutation.Traced backend.dumpSize groups admin I (readLoaded backend id loaded)
          (historyOf operations.elements) := by
  refine yields_step fun _ _ ↦ yields_step fun wanted _ ↦ ?_
  refine yields_bind (P := fun loaded ↦ ∃ s s', I s ∧
    backend.readBrokerItems id wanted s = (loaded, s')) ?_ fun loaded hloaded ↦ ?_
  · intro s loaded s' hs hrun
    have hcall : backend.readBrokerItems id wanted s = (loaded, s') := by
      rw [call_run, Prod.mk.injEq, Except.ok.injEq] at hrun
      exact Prod.ext hrun.1 hrun.2
    exact ⟨((hload wanted).yields s loaded s' hs hrun).1, s, s', hs, hcall⟩
  obtain ⟨s, s', hs, hcall⟩ := hloaded
  cases loaded with
  | none => exact fun _ _ _ _ hrun ↦ nomatch hrun
  | some loaded =>
    refine yields_bind (yields_pure (P := (· = loaded)) rfl) ?_
    rintro _ rfl
    exact (prepare_traced (readLoaded_keeps hread _) operations).mono fun mutation h ↦
      ⟨wanted, _, s, s', hs, hcall, h⟩

theorem prepareNew_keeps (hread : ∀ item, Keeps I (readItem backend id item))
    (hload : ∀ ids, Keeps I (liftM (backend.readBrokerItems id ids) : Query σ _))
    (groups : List String) (admin : Bool) (operations : Json) :
    Keeps I (prepareNew backend id groups admin operations) := by
  refine keeps_step fun _ ↦ keeps_step fun wanted ↦ keeps_bind (hload wanted) fun loaded ↦ ?_
  cases loaded with
  | none => exact keeps_fail _
  | some loaded =>
    exact keeps_bind (keeps_pure _) fun _ ↦ prepare_keeps (readLoaded_keeps hread _) operations

end Prepare

/-- Compare a batch that was applied before with its receipt. -/
def checkReceipt (receipt : Json) (request : BatchRequest) : Checked Unit := do
  throwIf ((← receipt.valueString "digest" "") ≠ request.digest) "CLIENT_REQUEST_MISMATCH"
  throwIf ((← receipt.valueString "request_id" "") ≠ request.request) "CLIENT_REQUEST_MISMATCH"

/-- What is staged for a batch: nothing when it was applied before. -/
def stageBatch (id : ℤ) (groups : List String) (admin : Bool) (receipt : Json)
    (request : BatchRequest) : Query σ Mutation := do
  let accepted ← acceptedCount receipt
  if request.count = accepted ∧ !receipt.isNull then do
    checkReceipt receipt request
    return {}
  else do
    throwIf (request.count ≠ accepted + 1) "CLIENT_SEQUENCE_CONFLICT"
    prepareNew backend id groups admin request.operations

theorem stageBatch_keeps {backend : Backend σ} {I : σ → Prop} {id : ℤ}
    (hread : ∀ item, Query.Keeps I (readItem backend id item))
    (hload : ∀ ids, Query.Keeps I (liftM (backend.readBrokerItems id ids) : Query σ _))
    (groups : List String) (admin : Bool) (receipt : Json) (request : BatchRequest) :
    Query.Keeps I (stageBatch backend id groups admin receipt request) := by
  refine Query.keeps_step fun accepted ↦ ?_
  split
  · exact Query.keeps_step fun _ ↦ Query.keeps_pure _
  · exact Query.keeps_step fun _ ↦ prepareNew_keeps hread hload groups admin _

def batchOf (request : BatchRequest) (mutation : Mutation) : Batch :=
  ⟨request.client, request.count, request.request, request.digest, mutation.items,
    mutation.expected⟩

/-! ## Answers -/

/-- The permission a client is told for an item. -/
def permissionOf (item : Json) : Checked Json :=
  if item.isNull then pure (.arr []) else item.valueJson "permission" (.arr [])

def permissionsOf : List (String × Json) → Checked (List (String × Json))
  | [] => pure []
  | (id, item) :: l => do
    let permission ← permissionOf item
    return (id, permission) :: (← permissionsOf l)

/-- A staged item with its new revision. -/
def withRevision (revision : Json) (item : Json) : Checked Json :=
  if item.isNull then pure item else item.assign "__broker_revision" revision

def withRevisions (revision : Json) : List (String × Json) → Checked (List (String × Json))
  | [] => pure []
  | (id, item) :: l => do
    let item ← withRevision revision item
    return (id, item) :: (← withRevisions revision l)

/-- What everyone is told of an applied batch: the new items, or only the translations when it
consists of nothing else. -/
def commitBroadcast (a : Admitted) (request : BatchRequest) (mutation : Mutation)
    (revision : Json) : Checked Json := do
  let staged := Json.sortedFields mutation.items
  let previous ← permissionsOf (staged.map fun e ↦
    (e.1, (mutation.previous.lookup e.1).getD .null))
  let permissions ← permissionsOf staged
  let items ← withRevisions revision staged
  let content := if mutation.onlyTranslations then ("translations", Json.arr mutation.translations)
    else ("items", .obj items)
  return .obj [("all", .bool true),
    ("event", .obj [("type", .str "canvas_commit"), ("author_id", ← a.identity.index "user_id"),
      ("revision", revision), ("client_id", .str request.client),
      ("request_count", .int request.count), ("request_id", .str a.route.requestId), content]),
    ("permissions", .obj permissions), ("previous_permissions", .obj previous)]

def watermarkBroadcast (revision : Json) : Json :=
  .obj [("all", .bool true),
    ("event", .obj [("type", .str "canvas_watermark"), ("revision", revision)])]

/-- The answer to a batch the script has accepted. -/
def batchResponse (reply : Reply) (request : BatchRequest) (client : String) :
    Checked (List (String × Json)) :=
  match reply.toJson with
  | .obj fields => pure (Assoc.set "request_count" (.int request.count)
      (Assoc.set "client_id" (.str client) (Assoc.set "ok" (.bool true)
        (Assoc.set "type" (.str "canvas_result") fields))))
  | _ => typeError

/-- Answer a batch. -/
def answerBatch (a : Admitted) (client : String) (request : BatchRequest) (mutation : Mutation) :
    Option Reply → Query σ Json
  | none => Query.fail "QUERY_OUTCOME_UNKNOWN"
  | some (.error code _) => liftM (reject code : Checked Json)
  | some (.duplicate revision serverRevision accepted) => do
    let reply := Reply.duplicate revision serverRevision accepted
    return envelope a.route (← batchResponse reply request client)
      [watermarkBroadcast (Script.ofNumber serverRevision)]
  | some (.applied revision accepted) => do
    let reply := Reply.applied revision accepted
    let response ← batchResponse reply request client
    let broadcast ← commitBroadcast a { request with client := client } mutation
      (Script.ofNumber revision)
    return envelope a.route response [broadcast]

/-- The request in an event. The key of a client is told apart by its user. -/
def batchRequest (a : Admitted) (client : String) : Checked BatchRequest := do
  let count ← requestCount a.event
  let operations ← a.event.valueJson "operations" (.arr [])
  return { client := client, count, request := a.route.requestId,
           digest := backend.digest operations, operations }

/-- The request in an event and what is staged for it, given the receipt of its client. -/
def stageRequest (a : Admitted) (key : String) (receipt : Json) :
    Query σ (BatchRequest × Mutation) := do
  let request ← batchRequest backend a key
  let mutation ← stageBatch backend a.route.id a.groups a.admin receipt request
  return (request, mutation)

theorem stageRequest_ok {backend : Backend σ} {a : Admitted} {key : String} {receipt : Json}
    {s s' : σ} {request : BatchRequest} {mutation : Mutation}
    (h : stageRequest backend a key receipt s = (.ok (request, mutation), s')) :
    batchRequest backend a key = .ok request ∧
      stageBatch backend a.route.id a.groups a.admin receipt request s = (.ok mutation, s') := by
  obtain ⟨request', t, hrequest, hrest⟩ := Query.bind_ok.mp h
  obtain ⟨mutation', t', hstage, hpair⟩ := Query.bind_ok.mp hrest
  rw [Query.pure_run, Prod.mk.injEq, Except.ok.injEq, Prod.mk.injEq] at hpair
  rw [Query.lift_run, Prod.mk.injEq] at hrequest
  obtain ⟨⟨rfl, rfl⟩, rfl⟩ := hpair
  obtain ⟨hrequest, rfl⟩ := hrequest
  exact ⟨hrequest, hstage⟩

def canvasOps (a : Admitted) (client key : String) (sync : SyncState) : Query σ Json := do
  let (request, mutation) ← stageRequest backend a key sync.receipt
  let reply ← backend.applyBrokerBatch a.route.id (batchOf request mutation)
  answerBatch a client request mutation reply

/-- The key of a client in the ledger. -/
def clientKey (userId : ℤ) (client : String) : String := toString userId ++ ":" ++ client

/-- Both queries. -/
def canvasQuery (a : Admitted) : Query σ Json := do
  let client ← a.event.valueString "client_id" ""
  throwIf (!validQueryItemId client) "CLIENT_ID_INVALID"
  let key := clientKey (← (← a.identity.index "user_id").getLong) client
  let sync ← brokerSyncState backend a.route.id key
  let accepted ← acceptedCount sync.receipt
  if a.type = "canvas_sync" then canvasSync backend a client sync accepted
  else canvasOps backend a client key sync

end Agora
