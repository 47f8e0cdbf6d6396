import Agora.Broker.Operations
import Agora.Script.Lua

/-!
# The batch script

A prepared batch is decided and applied by one script on the stored document. The document keeps,
under `__broker_sync`, the revision of the canvas and for every client the receipt of its last
batch. A batch is applied when its number follows that of the receipt and every item it was
prepared against still has the revision it was read at; a batch with the number, the request id and
the digest of the receipt has been applied before, and is answered as it was then.
-/

namespace Agora

namespace Broker

/-- What the script is given. The tables are visited in an order of Lua's own. -/
structure Batch where
  client : String
  count : ℤ
  request : String
  digest : String
  items : List (String × Json)
  expected : List (String × ℤ)

/-- The answers of the script. -/
inductive Reply where
  | error (code : String) (accepted : Option ℚ)
  | duplicate (revision : Option Json) (serverRevision accepted : ℚ)
  | applied (revision : ℚ) (accepted : ℤ)
  deriving DecidableEq

def Reply.toJson : Reply → Json
  | .error code none => .obj [("error", .str code)]
  | .error code (some accepted) =>
    .obj [("error", .str code), ("accepted_count", Script.ofNumber accepted)]
  | .duplicate revision serverRevision accepted =>
    .obj ([("duplicate", .bool true)] ++ (revision.map fun r ↦ ("revision", r)).toList ++
      [("server_revision", Script.ofNumber serverRevision),
        ("accepted_count", Script.ofNumber accepted)])
  | .applied revision accepted =>
    .obj [("duplicate", .bool false), ("revision", Script.ofNumber revision),
      ("server_revision", Script.ofNumber revision), ("accepted_count", .int accepted)]

def ledgerPath : List Segment := [.key "__broker_sync"]

def revisionPath : List Segment := [.key "__broker_sync", .key "revision"]

def clientsPath : List Segment := [.key "__broker_sync", .key "clients"]

def receiptPath (client : String) : List Segment :=
  [.key "__broker_sync", .key "clients", .key client]

def itemsPath : List Segment := [.key "items"]

def itemPath (id : String) : List Segment := [.key "items", .key id]

def itemRevisionPath (id : String) : List Segment :=
  [.key "items", .key id, .key "__broker_revision"]

def emptyLedger : Json := .obj [("revision", .int 0), ("clients", .obj [])]

/-- The number a revision may not reach. -/
def revisionLimit : ℚ := 9007199254740991

def clientLimit : ℕ := 4096

open Script

variable (readNumber : String → Option ℚ)

/-- The number of the batch a receipt is for, 0 without one. -/
def lastCount : Option Json → Script ℚ
  | none | some (.bool false) => pure 0
  | some previous => do return (toNumber readNumber (← luaIndex "count" previous)).getD 0

/-- The answer to a batch with the number of the receipt. -/
def answerRetry (batch : Batch) (previous : Json) (last revision : ℚ) : Script Reply := do
  let digest ← luaIndex "digest" previous
  let request ← luaIndex "request_id" previous
  if digest ≠ some (.str batch.digest) ∨ request ≠ some (.str batch.request) then
    return .error "CLIENT_REQUEST_MISMATCH" none
  else return .duplicate (← luaIndex "revision" previous) revision last

/-- The revision of an item that is stored, `-1` where there is none. -/
def storedRevision : Option Json → Script ℚ
  | none | some (.bool false) => pure (-1)
  | some current => do
    return (toNumber readNumber (← luaIndex "__broker_revision" current)).getD 0

/-- Whether some item has another revision than it was read at. -/
def conflicts : List (String × ℤ) → Script Bool
  | [] => pure false
  | (id, wanted) :: expected => do
    let actual ← storedRevision readNumber (← jsonGet (itemPath id))
    if actual ≠ wanted then pure true else conflicts expected

/-- The number of entries of a table. -/
def tableSize : Option Json → Script ℕ
  | none | some (.bool false) => pure 0
  | some (.obj fields) => pure fields.length
  | some (.arr elements) => pure elements.length
  | _ => raise

/-- Whether a client without a receipt comes when there are too many clients already. -/
def clientsFull (previous : Option Json) : Script Bool :=
  if truthy previous then pure false
  else do return decide (clientLimit ≤ (← tableSize (← jsonGet clientsPath)))

/-- Store or remove one item. -/
def writeItem (revision : ℚ) (e : String × Json) : Script Unit :=
  if e.2 = .null then jsonDel (itemPath e.1)
  else do
    jsonSet (itemPath e.1) e.2
    jsonSet (itemRevisionPath e.1) (ofNumber revision)

def receiptJson (batch : Batch) (revision : ℚ) : Json :=
  .obj [("count", .int batch.count), ("revision", ofNumber revision),
    ("digest", .str batch.digest), ("request_id", .str batch.request)]

/-- Apply a batch as a revision of the canvas. -/
def commitBatch (batch : Batch) (revision : ℚ) : Script Reply := do
  batch.items.forM (writeItem revision)
  jsonSet revisionPath (ofNumber revision)
  jsonSet (receiptPath batch.client) (receiptJson batch revision)
  return .applied revision batch.count

/-- Decide a batch that follows the receipt. -/
def decideBatch (batch : Batch) (previous : Option Json) (revision : ℚ) : Script Reply := do
  let conflict ← conflicts readNumber batch.expected
  if conflict then return .error "CANVAS_WRITE_CONFLICT" none
  else
    let full ← clientsFull previous
    if full then return .error "CANVAS_CLIENT_LIMIT" none
    else if revisionLimit ≤ revision + 1 then return .error "CANVAS_REVISION_LIMIT" none
    else commitBatch batch (revision + 1)

/-- Create the ledger where there is none. -/
def ensureLedger : Script Unit := do
  let ledger ← jsonGet ledgerPath
  if truthy ledger then pure () else jsonSet ledgerPath emptyLedger

/-- The script, on a document that is there. -/
def batchScript (batch : Batch) : Script Reply := do
  ensureLedger
  let previous ← jsonGet (receiptPath batch.client)
  let last ← lastCount readNumber previous
  let revision := (toNumber readNumber (← jsonGet revisionPath)).getD 0
  if batch.count = last ∧ truthy previous then
    answerRetry batch (previous.getD .null) last revision
  else if batch.count ≠ last + 1 then return .error "CLIENT_SEQUENCE_CONFLICT" (some last)
  else decideBatch readNumber batch previous revision

/-- The script on a key: no reply when an error is raised. -/
def applyBrokerBatch (batch : Batch) : Option Json → Option Reply × Option Json
  | none => (some (.error "CANVAS_NOT_READY" none), none)
  | some d =>
    let r := batchScript readNumber batch d
    (r.1.toOption, some r.2)

/-- The same batch with its tables visited in other orders. -/
structure Batch.Reordered (batch batch' : Batch) : Prop where
  client : batch'.client = batch.client
  count : batch'.count = batch.count
  request : batch'.request = batch.request
  digest : batch'.digest = batch.digest
  items : batch'.items.Perm batch.items
  expected : batch'.expected.Perm batch.expected

end Broker

end Agora
