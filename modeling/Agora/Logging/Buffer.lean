import Agora.Logging.Bulk

/-!
# The log buffer

A canvas server collects its log events in a bounded queue. One worker takes them in batches and
writes them to the log index; it tries a batch three times, then puts it back in front of the queue
and rests. Calls come in between the steps of the worker, from any thread: whatever touches the
buffer holds its lock, so that an action is one step.
-/

namespace Agora

namespace Logging

/-! ## Events -/

/-- The request that a thread is serving. -/
structure RequestLogContext where
  requestId : String := ""
  operation : String := ""
  outcome : String := ""
  errorCode : String := ""
  parentRequestId : String := ""

/-- The number and the time of an event. -/
structure Stamp where
  id : String
  now : ℤ

/-- What a call says about an event. -/
structure Entry where
  component : String
  event : String
  level : String
  message : String
  details : Json := .obj []
  outcome : String := ""
  errorCode : String := ""

/-- A call that does not say how it came out says what the request says of itself. -/
def Entry.completed (context : RequestLogContext) (entry : Entry) : Entry :=
  { entry with
    outcome := if entry.outcome = "" then context.outcome else entry.outcome
    errorCode := if entry.errorCode = "" then context.errorCode else entry.errorCode }

/-- What a server knows of itself, and how many events it writes at once. -/
structure Config where
  configured : Bool
  serverName : String
  environment : String
  version : String
  batchSize : ℕ
  batchSize_pos : 0 < batchSize

/-- The details that are fields of the event too. -/
def detailFields : List String :=
  ["http_method", "path", "http_status", "duration_ms", "error_type", "canvas_id", "user_id",
    "connection_id", "event_type", "close_code"]

def putText (key value : String) (document : Fields) : Fields :=
  if value = "" then document else Assoc.set key (.str value) document

def putDetail (details : Json) (document : Fields) (key : String) : Fields :=
  match field? details key with
  | some value => Assoc.set key value document
  | none => document

/-- There are no details. -/
def noDetails : Json → Bool
  | .null => true
  | .arr elements => elements.isEmpty
  | .obj fields => fields.isEmpty
  | _ => false

/-- The document of an event. -/
def logDocument (config : Config) (context : RequestLogContext) (stamp : Stamp) (entry : Entry) :
    Fields :=
  let document : Fields :=
    [("@timestamp", .int stamp.now), ("event_id", .str stamp.id), ("service", .str "agora-cpp"),
      ("instance", .str config.serverName), ("environment", .str config.environment),
      ("version", .str config.version), ("component", .str entry.component),
      ("event", .str entry.event), ("level", .str entry.level), ("message", .str entry.message)]
  let document := putText "request_id" context.requestId document
  let document := putText "parent_request_id" context.parentRequestId document
  let document := putText "operation" context.operation document
  let document := putText "outcome" entry.outcome document
  let document := putText "error_code" entry.errorCode document
  let document := detailFields.foldl (putDetail entry.details) document
  if noDetails entry.details then document else Assoc.set "details" entry.details document

def logEvent (config : Config) (context : RequestLogContext) (stamp : Stamp) (entry : Entry) :
    LogEvent :=
  ⟨stamp.id, logDocument config context stamp entry⟩

/-! ## The buffer -/

def maxQueueSize : ℕ := 10000

def queueFullText : String :=
  "[ElasticsearchBulkLogBuffer] Queue is full; application logs are being dropped\n"

def retryFullText : String :=
  "[ElasticsearchBulkLogBuffer] Queue is full during retry; newer logs are being dropped\n"

def rejectedText (status : ℤ) : String :=
  "[ElasticsearchBulkLogBuffer] Bulk write rejected (HTTP " ++ toString status ++ ")\n"

def failedText (events : ℕ) : String :=
  "[ElasticsearchBulkLogBuffer] Bulk write failed after bounded retries (events="
    ++ toString events ++ ")\n"

/-- What the threads share. The last two are the history: all events that were recorded, and those
of them that were dropped. -/
structure Buffer where
  queue : List LogEvent := []
  availability : List (String × Bool) := []
  primaries : List (String × String) := []
  overflowWarned : Bool := false
  stopping : Bool := false
  diagnostics : List String := []
  recorded : List LogEvent := []
  dropped : List LogEvent := []

def Buffer.writeDiagnostic (text : String) (b : Buffer) : Buffer :=
  { b with diagnostics := b.diagnostics ++ [text] }

/-- Say that events are dropped, unless it was said before. -/
def Buffer.warnOverflow (text : String) (b : Buffer) : Buffer :=
  if b.overflowWarned then b else { b.writeDiagnostic text with overflowWarned := true }

section Calls

variable (config : Config) (context : RequestLogContext) (stamp : Stamp)

def Buffer.enqueueLocked (entry : Entry) (b : Buffer) : Buffer :=
  let event := logEvent config context stamp entry
  if maxQueueSize ≤ b.queue.length then
    let b := b.warnOverflow queueFullText
    { b with dropped := b.dropped ++ [event], recorded := b.recorded ++ [event] }
  else { b with queue := b.queue ++ [event], recorded := b.recorded ++ [event] }

def Buffer.record (entry : Entry) (b : Buffer) : Buffer :=
  if config.configured then b.enqueueLocked config context stamp (entry.completed context) else b

/-- The event that says that a component has become available, or is no longer. -/
def availabilityEntry (component : String) (healthy : Bool) (details : Json) : Entry where
  component := component
  event := if healthy then "storage_recovered" else "storage_unavailable"
  level := if healthy then "INFO" else "ERROR"
  message := component ++ if healthy then " connection recovered" else " became unavailable"
  details := details

def Buffer.reportAvailability (component : String) (healthy : Bool) (details : Json)
    (b : Buffer) : Bool × Buffer :=
  if config.configured then
    let known := { b with availability := Assoc.set component healthy b.availability }
    let report :=
      (true, known.enqueueLocked config context stamp
        (availabilityEntry component healthy details))
    match b.availability.lookup component with
    | none => if healthy then (false, known) else report
    | some previous => if previous = healthy then (false, b) else report
  else (false, b)

def primaryEntry (component previous primary : String) : Entry where
  component := component
  event := "primary_changed"
  level := "WARN"
  message := component ++ " primary changed after failover"
  details := .obj [("previous_primary", .str previous), ("current_primary", .str primary)]

def Buffer.reportPrimaryChange (component primary : String) (b : Buffer) : Bool × Buffer :=
  if config.configured && primary ≠ "" then
    let known := { b with primaries := Assoc.set component primary b.primaries }
    match b.primaries.lookup component with
    | none => (false, known)
    | some previous =>
      if previous = primary then (false, b)
      else (true, known.enqueueLocked config context stamp
        (primaryEntry component previous primary))
  else (false, b)

end Calls

/-- Take what the worker is going to write. -/
def Buffer.takeBatch (config : Config) (b : Buffer) : List LogEvent × Buffer :=
  let rest := b.queue.drop config.batchSize
  (b.queue.take config.batchSize,
    { b with
      queue := rest
      overflowWarned := b.overflowWarned && decide (maxQueueSize / 2 ≤ rest.length) })

/-- Put an event back, in front; newer events are dropped while there is no room. -/
def Buffer.requeue (event : LogEvent) (b : Buffer) : Buffer :=
  let b :=
    if maxQueueSize ≤ b.queue.length then
      { b.warnOverflow retryFullText with
        queue := b.queue.take (maxQueueSize - 1)
        dropped := b.dropped ++ b.queue.drop (maxQueueSize - 1) }
    else b
  { b with queue := event :: b.queue }

/-- Put a batch back, the last event first. -/
def Buffer.requeueBatch (batch : List LogEvent) (b : Buffer) : Buffer :=
  batch.foldr Buffer.requeue b

/-! ## The worker -/

/-- Where the worker is. -/
inductive Phase where
  | waiting
  | sending (batch : List LogEvent) (attempt : ℕ)
  | failed (batch : List LogEvent)
  | resting
  | stopped

/-- What becomes of an attempt to write a batch. -/
inductive Attempt where
  | sent
  | again
  | refused (diagnostic : String)

/-- The third attempt is the last one. -/
def retryBatch (events attempt : ℕ) : Attempt :=
  if attempt < 2 then .again else .refused (failedText events)

/-- What the worker makes of a reply, or of none. -/
def sendBatch (reply : Option (ℤ × Json)) (events attempt : ℕ) : Attempt :=
  match reply with
  | some (status, body) =>
    if (200 ≤ status ∧ status < 300) ∧ acceptedBulkResponse body events then .sent
    else if 400 ≤ status ∧ status < 500 ∧ status ≠ 429 then .refused (rejectedText status)
    else retryBatch events attempt
  | none => retryBatch events attempt

/-- The buffer, its worker and the log index, with the events that were delivered. -/
structure System where
  buffer : Buffer := {}
  phase : Phase := .waiting
  index : Index := []
  delivered : List LogEvent := []

/-- The next step of the worker; `client` says that there is one, `exchange` how a request ends. -/
def System.work (config : Config) (client : Bool) (exchange : Exchange) (s : System) : System :=
  match s.phase with
  | .waiting =>
    if s.buffer.queue.isEmpty && s.buffer.stopping then { s with phase := .stopped }
    else
      let (batch, buffer) := s.buffer.takeBatch config
      let phase :=
        if batch.isEmpty then .waiting else if client then .sending batch 0 else .failed batch
      { s with buffer := buffer, phase := phase }
  | .sending batch attempt =>
    let (reply, index) := exchange.perform batch s.index
    match sendBatch reply batch.length attempt with
    | .sent => { s with index := index, delivered := s.delivered ++ batch, phase := .waiting }
    | .again => { s with index := index, phase := .sending batch (attempt + 1) }
    | .refused text =>
      { s with index := index, buffer := s.buffer.writeDiagnostic text, phase := .failed batch }
  | .failed batch =>
    if s.buffer.stopping then
      { s with
        buffer := { s.buffer with dropped := s.buffer.dropped ++ batch }, phase := .stopped }
    else { s with buffer := s.buffer.requeueBatch batch, phase := .resting }
  | .resting => { s with phase := if s.buffer.stopping then .stopped else .waiting }
  | .stopped => s

/-- What happens: a call from some thread, the end of the server, or a step of the worker. -/
inductive Action where
  | record (context : RequestLogContext) (stamp : Stamp) (entry : Entry)
  | availability (context : RequestLogContext) (stamp : Stamp) (component : String)
      (healthy : Bool) (details : Json)
  | primary (context : RequestLogContext) (stamp : Stamp) (component primary : String)
  | stop
  | work (client : Bool) (exchange : Exchange)

def System.step (config : Config) (s : System) : Action → System
  | .record context stamp entry =>
    { s with buffer := s.buffer.record config context stamp entry }
  | .availability context stamp component healthy details =>
    { s with
      buffer := (s.buffer.reportAvailability config context stamp component healthy details).2 }
  | .primary context stamp component primary =>
    { s with buffer := (s.buffer.reportPrimaryChange config context stamp component primary).2 }
  | .stop =>
    { s with buffer := { s.buffer with stopping := s.buffer.stopping || config.configured } }
  | .work client exchange => if config.configured then s.work config client exchange else s

def System.run (config : Config) (actions : List Action) (s : System) : System :=
  actions.foldl (System.step config) s

/-! ## What the queue does not touch -/

/-- What is known of the components and of the server. -/
def Buffer.facts (b : Buffer) : List (String × Bool) × List (String × String) × Bool :=
  (b.availability, b.primaries, b.stopping)

theorem warnOverflow_facts (text : String) (b : Buffer) :
    (b.warnOverflow text).facts = b.facts := by
  rw [Buffer.warnOverflow]
  split
  · rfl
  · rfl

theorem enqueueLocked_facts (config : Config) (context : RequestLogContext) (stamp : Stamp)
    (entry : Entry) (b : Buffer) :
    (b.enqueueLocked config context stamp entry).facts = b.facts := by
  rw [Buffer.enqueueLocked]
  split
  · exact warnOverflow_facts queueFullText b
  · rfl

theorem record_facts (config : Config) (context : RequestLogContext) (stamp : Stamp)
    (entry : Entry) (b : Buffer) : (b.record config context stamp entry).facts = b.facts := by
  rw [Buffer.record]
  split
  · exact enqueueLocked_facts config context stamp _ b
  · rfl

theorem requeueBatch_facts (batch : List LogEvent) (b : Buffer) :
    (b.requeueBatch batch).facts = b.facts := by
  induction batch with
  | nil => rfl
  | cons event batch ih =>
    have hcons : b.requeueBatch (event :: batch) = (b.requeueBatch batch).requeue event := rfl
    rw [hcons, ← ih, Buffer.requeue]
    split
    · exact warnOverflow_facts retryFullText _
    · rfl

theorem work_facts (config : Config) (client : Bool) (exchange : Exchange) (s : System) :
    (s.work config client exchange).buffer.facts = s.buffer.facts := by
  rw [System.work.eq_def]
  rcases s.phase with _ | ⟨batch, attempt⟩ | batch | _ | _
  · dsimp only
    split
    · rfl
    · rfl
  · dsimp only
    rcases sendBatch _ _ _ with _ | _ | text
    · rfl
    · rfl
    · rfl
  · dsimp only
    split
    · rfl
    · exact requeueBatch_facts batch s.buffer
  · rfl
  · rfl

end Logging

end Agora
