import Agora.Logging.Draining

/-!
# The log service of the API server

The API server keeps its log events in a deque that every thread may push to at any time. Who
flushes holds a lock, so that there is one flusher; it drains a batch, sends it up to three times,
and puts it back in front when that fails. Every operation on the deque is a step of its own: other
threads push between any two of them, also while a batch is being put back.

**Main results.** The deque keeps the order and the accounts of a bounded queue with retries under
any interleaving (`service_accounted`), delivered events are in the index as they were recorded
(`service_delivered`), and the flush at the end of the server writes everything while the index
answers (`shutdown_drains`).
-/

namespace Agora

namespace Logging

namespace Service

def queueCapacity : ℕ := 10000

def maxBatchesPerFlush : ℕ := 10

/-- What the server is started with. The number that a text stands for is up to the JSON library,
which also refuses some events. -/
structure Config where
  enabled : Bool
  batchSize : ℕ
  batchSize_pos : 0 < batchSize
  asInt : Json → ℤ
  asInt_int : ∀ n : ℤ, 100 ≤ n → n < 600 → asInt (.int n) = n
  serializable : LogEvent → Bool

section Replies

variable (config : Config)

/-- A member of an object; anything else has none. -/
def path (node : Json) (key : String) : Option Json := field? node key

def acceptedStatus (item : Json) : Bool :=
  isStored ((((path item "create").bind (path · "status")).map config.asInt).getD 0)

def bulkBatchAccepted (response : Json) (expectedCount : ℕ) : Bool :=
  match path response "items" with
  | some (.arr items) => items.length = expectedCount && items.all (acceptedStatus config)
  | _ => false

/-- What becomes of an attempt to write a batch. -/
inductive Attempt where
  | sent
  | again
  | failed
  deriving DecidableEq

/-- The third attempt is the last one; a flusher that is interrupted makes no other. -/
def retry (attempt : ℕ) (interrupted : Bool) : Attempt :=
  if attempt = 2 || interrupted then .failed else .again

def sendBatch (reply : Option (ℤ × Json)) (events attempt : ℕ) (interrupted : Bool) : Attempt :=
  match reply with
  | some (status, body) =>
    if 400 ≤ status then
      if status < 500 ∧ status ≠ 429 then .failed else retry attempt interrupted
    else if bulkBatchAccepted config body events then .sent
    else retry attempt interrupted
  | none => retry attempt interrupted

end Replies

/-- Where the flusher is; `left` are the batches it may still drain. -/
inductive Flush where
  | idle
  | draining (left : ℕ)
  | sending (batch : List LogEvent) (attempt left : ℕ)
  /-- The last event of the batch is offered first. -/
  | offering (batch : List LogEvent)
  /-- There was no room for it: the newest event gives way. -/
  | polling (batch : List LogEvent)

/-- The deque, the flusher and the log index, with all events by what became of them. -/
structure State where
  queue : List LogEvent := []
  flush : Flush := .idle
  index : Index := []
  delivered : List LogEvent := []
  dropped : List LogEvent := []
  recorded : List LogEvent := []

variable (config : Config)

/-- A thread records an event. -/
def record (event : LogEvent) (s : State) : State :=
  if config.enabled then
    if s.queue.length < queueCapacity then
      { s with queue := s.queue ++ [event], recorded := s.recorded ++ [event] }
    else
      { s with dropped := s.dropped ++ [event], recorded := s.recorded ++ [event] }
  else s

/-- Somebody comes to flush; while another one does there is nothing to do. -/
def flushBatches (maxBatches : ℕ) (s : State) : State :=
  match s.flush with
  | .idle => if config.enabled then { s with flush := .draining maxBatches } else s
  | _ => s

/-- The next operation of the flusher. -/
def work (exchange : Exchange) (interrupted : Bool) (s : State) : State :=
  match s.flush with
  | .idle => s
  | .draining 0 => { s with flush := .idle }
  | .draining (left + 1) =>
    let batch := s.queue.take config.batchSize
    let flush :=
      if batch.isEmpty then .idle
      else if batch.all config.serializable then .sending batch 0 left
      else .offering batch
    { s with queue := s.queue.drop config.batchSize, flush := flush }
  | .sending batch attempt left =>
    let (reply, index) := exchange.perform batch s.index
    match sendBatch config reply batch.length attempt interrupted with
    | .sent => { s with index := index, delivered := s.delivered ++ batch, flush := .draining left }
    | .again => { s with index := index, flush := .sending batch (attempt + 1) left }
    | .failed => { s with index := index, flush := .offering batch }
  | .offering batch =>
    match batch.getLast? with
    | none => { s with flush := .idle }
    | some event =>
      if s.queue.length < queueCapacity then
        { s with queue := event :: s.queue, flush := .offering batch.dropLast }
      else { s with flush := .polling batch }
  | .polling batch =>
    { s with
      queue := s.queue.take (s.queue.length - 1)
      dropped := s.dropped ++ s.queue.drop (s.queue.length - 1)
      flush := .offering batch }

/-- What happens, from any thread. -/
inductive Action where
  | record (event : LogEvent)
  | flushScheduled
  | flushOnShutdown
  | work (exchange : Exchange) (interrupted : Bool)

def step (s : State) : Action → State
  | .record event => record config event s
  | .flushScheduled => flushBatches config maxBatchesPerFlush s
  | .flushOnShutdown => flushBatches config queueCapacity s
  | .work exchange interrupted => work config exchange interrupted s

def run (actions : List Action) (s : State) : State := actions.foldl (step config) s

/-! ## Replies -/

variable {config} {s : State}

theorem bulkBatchAccepted_bulkBody (statuses : List ℤ)
    (hstatus : ∀ status ∈ statuses, 100 ≤ status ∧ status < 600) (expectedCount : ℕ) :
    bulkBatchAccepted config (bulkBody statuses) expectedCount
      = acceptedBulkResponse (bulkBody statuses) expectedCount := by
  have hitem : ∀ status ∈ statuses,
      acceptedStatus config (.obj [("create", .obj [("status", .int status)])])
        = acceptedItem (.obj [("create", .obj [("status", .int status)])]) := by
    intro status h
    rw [acceptedItem_item (hstatus status h), acceptedStatus, path, field?_obj,
      List.lookup_cons_self, Option.bind_some, path, field?_obj, List.lookup_cons_self,
      Option.map_some, Option.getD_some, config.asInt_int status (hstatus status h).1
      (hstatus status h).2]
  rw [bulkBatchAccepted, acceptedBulkResponse, path, bulkBody, field?_obj, List.lookup_cons_self]
  dsimp only
  rw [List.all_map, List.all_map]
  congr 1
  rw [Bool.eq_iff_iff, List.all_eq_true, List.all_eq_true]
  refine forall₂_congr fun status h ↦ ?_
  rw [Function.comp_apply, Function.comp_apply, hitem status h]

theorem retry_ne_sent (attempt : ℕ) (interrupted : Bool) : retry attempt interrupted ≠ .sent := by
  rw [retry]
  split
  · decide
  · decide

theorem sendBatch_eq_sent {reply : Option (ℤ × Json)} {events attempt : ℕ} {interrupted : Bool}
    (h : sendBatch config reply events attempt interrupted = .sent) :
    ∃ status body, reply = some (status, body) ∧ bulkBatchAccepted config body events := by
  rcases reply with _ | ⟨status, body⟩
  · exact absurd h (retry_ne_sent _ _)
  · rw [sendBatch] at h
    split at h
    · split at h
      · cases h
      · exact absurd h (retry_ne_sent _ _)
    · split at h
      · next haccepted => exact ⟨status, body, rfl, haccepted⟩
      · exact absurd h (retry_ne_sent _ _)

/-- A batch counts as sent only when a reply says that it is there. -/
theorem sendBatch_sent {batch : List LogEvent} {index : Index} {exchange : Exchange} {attempt : ℕ}
    {interrupted : Bool}
    (h : sendBatch config (exchange.perform batch index).1 batch.length attempt interrupted
      = .sent) {event : LogEvent} (hevent : event ∈ batch) :
    ((exchange.perform batch index).2.lookup event.id).isSome := by
  obtain ⟨status, body, hreply, haccepted⟩ := sendBatch_eq_sent h
  rcases exchange with _ | ⟨code, reason⟩ | verdicts | ⟨code, verdicts⟩
  · cases hreply
  · cases hreply
    rw [bulkBatchAccepted, path, errorBody, field?_obj] at haccepted
    simp [List.lookup_cons] at haccepted
  · cases hreply
  · cases hreply
    rw [bulkBatchAccepted_bulkBody _ fun _ ↦ isStatus_createAll] at haccepted
    exact createAll_accepted haccepted hevent

/-! ## Every interleaving -/

/-- The events that the flusher has drained. -/
def Flush.batch : Flush → List LogEvent
  | .sending batch _ _ | .offering batch | .polling batch => batch
  | _ => []

/-- The deque as a queue with retries. -/
def State.view (s : State) : RetryQueue.State LogEvent where
  queue := s.queue
  batch := s.flush.batch
  delivered := s.delivered
  dropped := s.dropped
  recorded := s.recorded

theorem work_steps (exchange : Exchange) (interrupted : Bool) (s : State) :
    RetryQueue.Steps queueCapacity s.view (work config exchange interrupted s).view := by
  obtain ⟨queue, flush, index, delivered, dropped, recorded⟩ := s
  rw [work.eq_def]
  rcases flush with _ | left | ⟨batch, attempt, left⟩ | batch | batch
  · exact .refl
  · rcases left with _ | left
    · exact .refl
    · have htake : RetryQueue.Step queueCapacity
          (State.view ⟨queue, .draining (left + 1), index, delivered, dropped, recorded⟩) _ :=
        .take _ config.batchSize rfl
      dsimp only
      split
      · next hempty =>
        have hbatch : queue.take config.batchSize = [] := List.isEmpty_iff.mp hempty
        rw [State.view] at htake
        dsimp only at htake
        rw [hbatch] at htake
        exact .single htake
      · split
        · exact .single htake
        · exact .single htake
  · dsimp only
    rcases sendBatch _ _ _ _ _ with _ | _ | _
    · exact .single (.deliver (State.view
        ⟨queue, .sending batch attempt left, index, delivered, dropped, recorded⟩))
    · exact .refl
    · exact .refl
  · dsimp only
    rcases hlast : batch.getLast? with _ | event
    · rw [List.getLast?_eq_none_iff.mp hlast]
      exact .refl
    · dsimp only
      split
      · next hroom =>
        obtain ⟨front, hfront⟩ := List.getLast?_eq_some_iff.mp hlast
        rw [hfront, List.dropLast_concat]
        exact .single (.restore (State.view
          ⟨queue, .offering (front ++ [event]), index, delivered, dropped, recorded⟩) front event
          rfl hroom)
      · exact .refl
  · exact .single (.shed (State.view
      ⟨queue, .polling batch, index, delivered, dropped, recorded⟩) (queue.length - 1))

/-- Coming to flush moves no event. -/
theorem flushBatches_eq (config : Config) (maxBatches : ℕ) (s : State) :
    flushBatches config maxBatches s = s ∨ s.flush = .idle ∧
      flushBatches config maxBatches s = { s with flush := .draining maxBatches } := by
  obtain ⟨queue, flush, index, delivered, dropped, recorded⟩ := s
  rw [flushBatches.eq_def]
  cases flush with
  | idle =>
    dsimp only
    split
    · exact Or.inr ⟨rfl, rfl⟩
    · exact Or.inl rfl
  | _ => exact Or.inl rfl

theorem flushBatches_view (maxBatches : ℕ) (s : State) :
    (flushBatches config maxBatches s).view = s.view ∧
      (flushBatches config maxBatches s).index = s.index := by
  rcases flushBatches_eq config maxBatches s with heq | ⟨hidle, heq⟩
  · rw [heq]
    exact ⟨rfl, rfl⟩
  · rw [heq, State.view, State.view, hidle]
    exact ⟨rfl, rfl⟩

/-- **Refinement.** Every operation is a step of a queue with retries, or none. -/
theorem step_refines (action : Action) (s : State) :
    RetryQueue.Steps queueCapacity s.view (step config s action).view := by
  cases action with
  | record event =>
    rw [step, record]
    split
    · split
      · next hroom => exact .single (.push s.view event hroom)
      · exact .single (.refuse s.view event)
    · exact .refl
  | flushScheduled =>
    rw [step, (flushBatches_view _ s).1]
  | flushOnShutdown =>
    rw [step, (flushBatches_view _ s).1]
  | work exchange interrupted => exact work_steps exchange interrupted s

theorem run_refines (actions : List Action) (s : State) :
    RetryQueue.Steps queueCapacity s.view (run config actions s).view := by
  induction actions generalizing s with
  | nil => exact .refl
  | cons action actions ih => exact (step_refines action s).trans (ih _)

/-- The event that a thread brings; a service that is switched off takes none. -/
def eventsOf (config : Config) : Action → List LogEvent
  | .record event => if config.enabled then [event] else []
  | _ => []

theorem work_recorded (exchange : Exchange) (interrupted : Bool) (s : State) :
    (work config exchange interrupted s).recorded = s.recorded := by
  obtain ⟨queue, flush, index, delivered, dropped, recorded⟩ := s
  rw [work.eq_def]
  rcases flush with _ | left | ⟨batch, attempt, left⟩ | batch | batch
  · rfl
  · rcases left with _ | left
    · rfl
    · rfl
  · dsimp only
    rcases sendBatch _ _ _ _ _ with _ | _ | _
    · rfl
    · rfl
    · rfl
  · dsimp only
    rcases batch.getLast? with _ | event
    · rfl
    · dsimp only
      split
      · rfl
      · rfl
  · rfl

/-- Neither the flusher nor who comes to flush records anything. -/
theorem step_recorded (action : Action) (s : State) :
    (step config s action).recorded = s.recorded ++ eventsOf config action := by
  cases action with
  | record event =>
    rw [step, record, eventsOf]
    split
    · split
      · rfl
      · rfl
    · exact (List.append_nil _).symm
  | flushScheduled =>
    exact (congrArg RetryQueue.State.recorded (flushBatches_view _ s).1).trans
      (List.append_nil _).symm
  | flushOnShutdown =>
    exact (congrArg RetryQueue.State.recorded (flushBatches_view _ s).1).trans
      (List.append_nil _).symm
  | work exchange interrupted =>
    exact (work_recorded exchange interrupted s).trans (List.append_nil _).symm

theorem run_recorded (actions : List Action) (s : State) :
    (run config actions s).recorded = s.recorded ++ actions.flatMap (eventsOf config) := by
  induction actions generalizing s with
  | nil => exact (List.append_nil _).symm
  | cons action actions ih =>
    rw [List.flatMap_cons, ← List.append_assoc, ← step_recorded]
    exact ih (step config s action)

/-- **Accounts.** What is recorded is the list of the events of the calls. Under any interleaving
the deque is bounded; what was not dropped is in the order it came, delivered first, then what the
flusher has drained and what waits; and no event is in two places or nowhere. -/
theorem service_accounted (config : Config) (actions : List Action) (index : Index) :
    let s := run config actions { index := index }
    s.recorded = actions.flatMap (eventsOf config) ∧
      s.queue.length ≤ queueCapacity ∧
      (s.delivered ++ (s.flush.batch ++ s.queue)).Sublist s.recorded ∧
      s.recorded.Perm (s.delivered ++ (s.flush.batch ++ s.queue) ++ s.dropped) := by
  intro s
  have hrecorded : s.recorded = actions.flatMap (eventsOf config) :=
    run_recorded actions { index := index }
  have hrun : RetryQueue.Run queueCapacity s.view := run_refines actions { index := index }
  exact ⟨hrecorded, hrun.length_le, hrun.sublist, hrun.perm⟩

variable {index : Index}

theorem work_stored (exchange : Exchange) (interrupted : Bool) (h : Stored index s.view s.index)
    (hrun : RetryQueue.Run queueCapacity s.view) :
    Stored index (work config exchange interrupted s).view
      (work config exchange interrupted s).index := by
  have hbatch := mem_recorded_of_mem_batch hrun
  obtain ⟨queue, flush, current, delivered, dropped, recorded⟩ := s
  rw [work.eq_def]
  rcases flush with _ | left | ⟨batch, attempt, left⟩ | batch | batch
  · exact h
  · rcases left with _ | left
    · exact h
    · exact h.mono rfl (List.Subset.refl _)
  · dsimp only
    rcases hsent : sendBatch _ _ _ _ _ with _ | _ | _
    · refine h.perform hbatch (List.Subset.refl _) fun event hevent ↦ ?_
      exact (List.mem_append.mp hevent).imp_right fun hevent ↦ sendBatch_sent hsent hevent
    · exact h.perform hbatch (List.Subset.refl _) fun event hevent ↦ Or.inl hevent
    · exact h.perform hbatch (List.Subset.refl _) fun event hevent ↦ Or.inl hevent
  · dsimp only
    rcases batch.getLast? with _ | event
    · exact h.mono rfl (List.Subset.refl _)
    · dsimp only
      split
      · exact h.mono rfl (List.Subset.refl _)
      · exact h.mono rfl (List.Subset.refl _)
  · exact h.mono rfl (List.Subset.refl _)

theorem step_stored (action : Action) (h : Stored index s.view s.index)
    (hrun : RetryQueue.Run queueCapacity s.view) :
    Stored index (step config s action).view (step config s action).index := by
  cases action with
  | record event =>
    have hrecorded : s.view.recorded ⊆ (step config s (.record event)).view.recorded :=
      (RetryQueue.Steps.recorded_prefix (step_refines (.record event) s)).subset
    rw [step, record] at hrecorded ⊢
    split
    · next hon =>
      rw [if_pos hon] at hrecorded
      split
      · next hroom =>
        rw [if_pos hroom] at hrecorded
        exact h.mono rfl hrecorded
      · next hfull =>
        rw [if_neg hfull] at hrecorded
        exact h.mono rfl hrecorded
    · exact h
  | flushScheduled =>
    rw [step, (flushBatches_view _ s).1, (flushBatches_view _ s).2]
    exact h
  | flushOnShutdown =>
    rw [step, (flushBatches_view _ s).1, (flushBatches_view _ s).2]
    exact h
  | work exchange interrupted => exact work_stored exchange interrupted h hrun

theorem run_stored (actions : List Action) (h : Stored index s.view s.index)
    (hrun : RetryQueue.Run queueCapacity s.view) :
    Stored index (run config actions s).view (run config actions s).index := by
  induction actions generalizing s with
  | nil => exact h
  | cons action actions ih =>
    exact ih (step_stored action h hrun) (hrun.trans (step_refines action s))

/-- **Delivery.** Under any interleaving, when the events have numbers of their own, a delivered
event is in the index as it was recorded, and the index has nothing else that is new. -/
theorem service_delivered (config : Config) (actions : List Action) (index : Index)
    (hids : ((run config actions { index := index }).recorded.map LogEvent.id).Nodup)
    (hnew : ∀ event ∈ (run config actions { index := index }).recorded,
      index.lookup event.id = none) :
    let s := run config actions { index := index }
    (∀ event ∈ s.delivered, s.index.lookup event.id = some event.document) ∧
      ∀ id document, s.index.lookup id = some document →
        index.lookup id = some document ∨
          ∃ event ∈ s.recorded, event.id = id ∧ event.document = document := by
  intro s
  have hrun : RetryQueue.Run queueCapacity s.view := run_refines actions { index := index }
  have hstart : Stored index (State.view { index := index }) index :=
    ⟨fun _ _ ↦ Or.inl, by simp [State.view]⟩
  have hstored : Stored index s.view s.index := run_stored actions hstart .refl
  exact ⟨fun event hevent ↦ hstored.lookup_delivered hrun hids hnew hevent, hstored.known⟩

theorem positiveSequence_status (n : ℤ) (h : 100 ≤ n) (_ : n < 600) :
    positiveSequence (.int n) = n :=
  if_pos (by omega)

/-- An event whose first reply was lost. -/
theorem resent_once :
    let s := run ⟨true, 100, Nat.succ_pos 99, positiveSequence, positiveSequence_status,
        fun _ ↦ true⟩
      [.record ⟨"1", []⟩, .flushScheduled, .work .unreachable false, .work (.unanswered []) false,
        .record ⟨"2", []⟩, .work (.answered 200 []) false] {}
    s.delivered.all fun event ↦ s.index.lookup event.id = some event.document := by
  intro s
  have hdelivered := (service_delivered ⟨true, 100, Nat.succ_pos 99, positiveSequence,
      positiveSequence_status, fun _ ↦ true⟩
    [.record ⟨"1", []⟩, .flushScheduled, .work .unreachable false, .work (.unanswered []) false,
      .record ⟨"2", []⟩, .work (.answered 200 []) false] [] (by decide) (by decide)).1
  exact List.all_eq_true.mpr fun event hevent ↦ decide_eq_true (hdelivered event hevent)

/-! ## The end of the server -/

section Shutdown

/-- The flusher's next operation when the index answers. -/
def advance (config : Config) (s : State) : State := work config healthyExchange false s

theorem sendBatch_healthy (batch : List LogEvent) (index : Index) (attempt : ℕ) :
    sendBatch config (healthyExchange.perform batch index).1 batch.length attempt false
      = .sent := by
  have haccepted :
      bulkBatchAccepted config (bulkBody (createAll batch [] index).1) batch.length := by
    rw [bulkBatchAccepted_bulkBody _ fun _ ↦ isStatus_createAll]
    exact acceptedBulkResponse_bulkBody (isStored_createAll batch index)
  have hanswered : (healthyExchange.perform batch index).1
      = some (200, bulkBody (createAll batch [] index).1) := rfl
  rw [hanswered, sendBatch, if_neg (by decide), if_pos haccepted]

theorem advance_idle (hflush : s.flush = .idle) (n : ℕ) : (advance config)^[n] s = s := by
  apply Function.iterate_fixed
  rw [advance, work.eq_def, hflush]

theorem advance_draining {left : ℕ} (hflush : s.flush = .draining (left + 1))
    (hqueue : s.queue ≠ []) (hserializable : ∀ event ∈ s.queue, config.serializable event) :
    (advance config)^[2] s = { s with
      queue := s.queue.drop config.batchSize
      index := (healthyExchange.perform (s.queue.take config.batchSize) s.index).2
      delivered := s.delivered ++ s.queue.take config.batchSize
      flush := .draining left } := by
  have hbatch : (s.queue.take config.batchSize).isEmpty = false := by
    rw [Bool.eq_false_iff, Ne, List.isEmpty_iff, List.take_eq_nil_iff]
    exact fun h ↦ h.elim (Nat.ne_of_gt config.batchSize_pos) hqueue
  have hall : (s.queue.take config.batchSize).all config.serializable :=
    List.all_eq_true.mpr fun event h ↦ hserializable event (List.mem_of_mem_take h)
  have hdrained : advance config s = { s with
      queue := s.queue.drop config.batchSize
      flush := .sending (s.queue.take config.batchSize) 0 left } := by
    rw [advance, work.eq_def, hflush]
    dsimp only
    rw [hbatch, hall]
    rfl
  rw [Function.iterate_succ_apply, Function.iterate_one, hdrained, advance, work.eq_def]
  dsimp only
  rw [sendBatch_healthy]

/-- A flusher that may drain enough batches leaves nothing behind. -/
theorem draining_drains (s : State) {left : ℕ} (hflush : s.flush = .draining left)
    (hleft : s.queue.length ≤ left) (hserializable : ∀ event ∈ s.queue, config.serializable event)
    {n : ℕ} (hn : 2 * s.queue.length + 1 ≤ n) :
    let t := (advance config)^[n] s
    t.flush = .idle ∧ t.queue = [] ∧ t.delivered = s.delivered ++ s.queue := by
  induction left generalizing s n with
  | zero =>
    obtain ⟨n, rfl⟩ := Nat.exists_eq_add_of_le' (show 1 ≤ n by omega)
    have hnone : s.queue = [] := List.length_eq_zero_iff.mp (Nat.le_zero.mp hleft)
    have hdone : advance config s = { s with flush := .idle } := by
      rw [advance, work.eq_def, hflush]
    rw [Function.iterate_succ_apply, hdone, advance_idle rfl, hnone]
    exact ⟨rfl, rfl, (List.append_nil _).symm⟩
  | succ left ih =>
    by_cases hqueue : s.queue = []
    · obtain ⟨n, rfl⟩ := Nat.exists_eq_add_of_le' (show 1 ≤ n by omega)
      have hdone : advance config s = { s with flush := .idle } := by
        rw [advance, work.eq_def, hflush]
        dsimp only
        rw [hqueue, List.take_nil, List.drop_nil]
        rfl
      rw [Function.iterate_succ_apply, hdone, advance_idle rfl, hqueue]
      exact ⟨rfl, rfl, (List.append_nil _).symm⟩
    · have hpos := List.length_pos_iff.mpr hqueue
      have hsize := config.batchSize_pos
      have hdrop : (s.queue.drop config.batchSize).length = s.queue.length - config.batchSize :=
        List.length_drop
      obtain ⟨n, rfl⟩ := Nat.exists_eq_add_of_le' (show 2 ≤ n by omega)
      intro t
      have hstep := advance_draining hflush hqueue hserializable
      have hrest := ih { s with
        queue := s.queue.drop config.batchSize
        index := (healthyExchange.perform (s.queue.take config.batchSize) s.index).2
        delivered := s.delivered ++ s.queue.take config.batchSize
        flush := .draining left } rfl (by dsimp only; omega)
        (fun event h ↦ hserializable event (List.mem_of_mem_drop h)) (n := n)
        (by dsimp only; omega)
      rw [← hstep, ← Function.iterate_add_apply, hstep] at hrest
      refine ⟨hrest.1, hrest.2.1, hrest.2.2.trans ?_⟩
      rw [List.append_assoc, List.take_append_drop]

/-- **Shutdown.** The flush at the end of the server writes all that waits, in its order, while the
index answers and the events can be written at all. -/
theorem shutdown_drains (config : Config) (henabled : config.enabled) (actions : List Action)
    (index : Index) (hidle : (run config actions { index := index }).flush = .idle)
    (hserializable : ∀ event ∈ (run config actions { index := index }).queue,
      config.serializable event) {n : ℕ} (hn : 2 * queueCapacity + 1 ≤ n) :
    let s := run config actions { index := index }
    let t := (advance config)^[n] (step config s .flushOnShutdown)
    t.flush = .idle ∧ t.queue = [] ∧ t.delivered = s.delivered ++ s.queue := by
  intro s t
  have hrun : RetryQueue.Run queueCapacity s.view := run_refines actions { index := index }
  have hlength : s.queue.length ≤ queueCapacity := hrun.length_le
  have hcome : step config s .flushOnShutdown = { s with flush := .draining queueCapacity } := by
    rw [step, flushBatches.eq_def, hidle]
    exact if_pos henabled
  have hsteps : 2 * s.queue.length + 1 ≤ n := by omega
  have hdrained := draining_drains { s with flush := .draining queueCapacity } rfl hlength
    hserializable hsteps
  have ht : t = (advance config)^[n] { s with flush := .draining queueCapacity } := by
    rw [← hcome]
  rw [ht]
  exact hdrained

/-- A server that ends with an event that was put back. -/
theorem ends_drained :
    let s := run ⟨true, 100, Nat.succ_pos 99, positiveSequence, positiveSequence_status,
        fun _ ↦ true⟩
      [.record ⟨"1", []⟩, .flushScheduled, .work .unreachable false, .work .unreachable true,
        .work .unreachable false, .work .unreachable false] {}
    ((advance ⟨true, 100, Nat.succ_pos 99, positiveSequence, positiveSequence_status,
        fun _ ↦ true⟩)^[20001]
      (step ⟨true, 100, Nat.succ_pos 99, positiveSequence, positiveSequence_status, fun _ ↦ true⟩ s
        .flushOnShutdown)).delivered = s.delivered ++ s.queue :=
  (shutdown_drains ⟨true, 100, Nat.succ_pos 99, positiveSequence, positiveSequence_status,
      fun _ ↦ true⟩ rfl
    [.record ⟨"1", []⟩, .flushScheduled, .work .unreachable false, .work .unreachable true,
      .work .unreachable false, .work .unreachable false] [] rfl (fun _ _ ↦ rfl)
    (show 2 * queueCapacity + 1 ≤ 20001 by decide)).2.2

end Shutdown

end Service

end Logging

end Agora
