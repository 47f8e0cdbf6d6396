import Agora.Logging.Transitions

/-!
# What becomes of a log event

Every action on the buffer is a number of steps of a bounded queue with retries (`step_refines`),
which brings the order of the events and where each of them is. What a delivered batch means for the
index comes from the replies: an event is created once, under its own number, and an accepted reply
says that all events of the batch are there.

**Main result.** However the calls, the worker and the failures of the index fall together, the
events that were not dropped are, in the order they were recorded, those delivered, those on their
way and those that wait, and each delivered one is in the index as it was recorded
(`recorded_delivered`).
-/

namespace Agora

namespace Logging

/-! ## The queue with retries -/

/-- The events that the worker has taken. -/
def Phase.batch : Phase → List LogEvent
  | .sending batch _ | .failed batch => batch
  | _ => []

/-- The buffer as a queue with retries. -/
def Buffer.view (batch delivered : List LogEvent) (b : Buffer) : RetryQueue.State LogEvent where
  queue := b.queue
  batch := batch
  delivered := delivered
  dropped := b.dropped
  recorded := b.recorded

def System.view (s : System) : RetryQueue.State LogEvent := s.buffer.view s.phase.batch s.delivered

section Calls

variable {config : Config} {context : RequestLogContext} {stamp : Stamp}
  {batch delivered : List LogEvent}

theorem warnOverflow_view (batch delivered : List LogEvent) (text : String) (b : Buffer) :
    (b.warnOverflow text).view batch delivered = b.view batch delivered := by
  rw [Buffer.warnOverflow]
  split
  · rfl
  · rfl

theorem enqueueLocked_step (entry : Entry) (b : Buffer) :
    RetryQueue.Step maxQueueSize (b.view batch delivered)
      ((b.enqueueLocked config context stamp entry).view batch delivered) := by
  rw [Buffer.enqueueLocked]
  split
  · have hstep : RetryQueue.Step maxQueueSize _ _ :=
      .refuse (b.view batch delivered) (logEvent config context stamp entry)
    rw [← warnOverflow_view batch delivered queueFullText b] at hstep
    rw [← warnOverflow_view batch delivered queueFullText b]
    exact hstep
  · next hroom => exact RetryQueue.Step.push (b.view batch delivered) _ (Nat.not_le.mp hroom)

/-- What is known of the components makes no difference to the queue. -/
theorem enqueueKnown_steps (entry : Entry) {b known : Buffer}
    (hknown : known.view batch delivered = b.view batch delivered) :
    RetryQueue.Steps maxQueueSize (b.view batch delivered)
      ((known.enqueueLocked config context stamp entry).view batch delivered) := by
  rw [← hknown]
  exact .single (enqueueLocked_step entry known)

theorem record_steps (entry : Entry) (b : Buffer) :
    RetryQueue.Steps maxQueueSize (b.view batch delivered)
      ((b.record config context stamp entry).view batch delivered) := by
  rw [Buffer.record]
  split
  · exact .single (enqueueLocked_step _ b)
  · exact .refl

theorem reportAvailability_steps (component : String) (healthy : Bool) (details : Json)
    (b : Buffer) :
    RetryQueue.Steps maxQueueSize (b.view batch delivered)
      ((b.reportAvailability config context stamp component healthy details).2.view
        batch delivered) := by
  rw [Buffer.reportAvailability]
  split
  · rcases b.availability.lookup component with _ | previous
    · rcases healthy with _ | _
      · exact enqueueKnown_steps _ rfl
      · exact .refl
    · dsimp only
      split
      · exact .refl
      · exact enqueueKnown_steps _ rfl
  · exact .refl

theorem reportPrimaryChange_steps (component primary : String) (b : Buffer) :
    RetryQueue.Steps maxQueueSize (b.view batch delivered)
      ((b.reportPrimaryChange config context stamp component primary).2.view batch delivered) := by
  rw [Buffer.reportPrimaryChange]
  split
  · rcases b.primaries.lookup component with _ | previous
    · exact .refl
    · dsimp only
      split
      · exact .refl
      · exact enqueueKnown_steps _ rfl
  · exact .refl

/-- Putting an event back sheds newer ones, when there is no room, and restores it. -/
theorem requeue_steps (batch : List LogEvent) (event : LogEvent) (b : Buffer) :
    RetryQueue.Steps maxQueueSize (b.view (batch ++ [event]) delivered)
      ((b.requeue event).view batch delivered) := by
  rw [Buffer.requeue]
  split
  · next hfull =>
    have hrecorded : (b.warnOverflow retryFullText).recorded = b.recorded :=
      congrArg RetryQueue.State.recorded (warnOverflow_view [] [] _ b)
    have hroom : (b.queue.take (maxQueueSize - 1)).length < maxQueueSize :=
      (List.length_take_le _ _).trans_lt (by decide)
    refine Relation.ReflTransGen.tail (.single (.shed _ (maxQueueSize - 1))) ?_
    rw [Buffer.view, Buffer.view]
    dsimp only
    rw [hrecorded]
    exact .restore _ batch event rfl hroom
  · next hroom =>
    exact .single (.restore (b.view (batch ++ [event]) delivered) batch event rfl
      (Nat.not_le.mp hroom))

theorem requeueBatch_steps (kept batch : List LogEvent) (b : Buffer) :
    RetryQueue.Steps maxQueueSize (b.view (kept ++ batch) delivered)
      ((b.requeueBatch batch).view kept delivered) := by
  induction batch generalizing kept with
  | nil =>
    rw [List.append_nil]
    exact .refl
  | cons event batch ih =>
    have hbehind := ih (kept ++ [event])
    rw [List.append_assoc, List.singleton_append] at hbehind
    exact hbehind.trans (requeue_steps kept event _)

end Calls

/-! ## Runs -/

section Runs

variable {config : Config} {s : System}

theorem takeBatch_step (config : Config) (b : Buffer) (delivered : List LogEvent) :
    RetryQueue.Step maxQueueSize (b.view [] delivered)
      ((b.takeBatch config).2.view (b.takeBatch config).1 delivered) :=
  .take (b.view [] delivered) config.batchSize rfl

theorem work_steps (client : Bool) (exchange : Exchange) (s : System) :
    RetryQueue.Steps maxQueueSize s.view (s.work config client exchange).view := by
  obtain ⟨buffer, phase, index, delivered⟩ := s
  rw [System.work.eq_def]
  cases phase with
  | waiting =>
    dsimp only
    split
    · exact .refl
    · refine .single ?_
      have htake := takeBatch_step config buffer delivered
      split
      · next hempty =>
        rw [List.isEmpty_iff.mp hempty] at htake
        exact htake
      · split
        · exact htake
        · exact htake
  | sending batch attempt =>
    dsimp only
    rcases sendBatch _ _ _ with _ | _ | text
    · exact .single (.deliver (buffer.view batch delivered))
    · exact .refl
    · exact .refl
  | failed batch =>
    dsimp only
    split
    · exact .single (.giveUp (buffer.view batch delivered))
    · exact requeueBatch_steps [] batch buffer
  | resting =>
    dsimp only
    split
    · exact .refl
    · exact .refl
  | stopped => exact .refl

/-- **Refinement.** An action is a number of steps of a queue with retries. -/
theorem step_refines (action : Action) (s : System) :
    RetryQueue.Steps maxQueueSize s.view (s.step config action).view := by
  cases action with
  | record context stamp entry => exact record_steps entry s.buffer
  | availability context stamp component healthy details =>
    exact reportAvailability_steps component healthy details s.buffer
  | primary context stamp component primary =>
    exact reportPrimaryChange_steps component primary s.buffer
  | stop => exact .refl
  | work client exchange =>
    rw [System.step]
    split
    · exact work_steps client exchange s
    · exact .refl

theorem run_refines (actions : List Action) (s : System) :
    RetryQueue.Steps maxQueueSize s.view (s.run config actions).view := by
  induction actions generalizing s with
  | nil => exact .refl
  | cons action actions ih => exact (step_refines action s).trans (ih _)

end Runs

/-! ## What is dropped -/

/-- Somebody was told that the queue is full. -/
def Buffer.SaidFull (b : Buffer) : Prop :=
  queueFullText ∈ b.diagnostics ∨ retryFullText ∈ b.diagnostics

/-- Events are dropped in the open. -/
structure Buffer.Announced (b : Buffer) : Prop where
  warned : b.overflowWarned → b.SaidFull
  dropped : b.dropped ≠ [] → b.SaidFull

section Announcements

variable {config : Config} {context : RequestLogContext} {stamp : Stamp} {b : Buffer}

theorem saidFull_warnOverflow {text : String} (htext : text = queueFullText ∨ text = retryFullText)
    (hwarned : b.overflowWarned → b.SaidFull) : (b.warnOverflow text).SaidFull := by
  rw [Buffer.warnOverflow]
  split
  · next h => exact hwarned h
  · rcases htext with rfl | rfl
    · exact Or.inl (List.mem_append_right _ List.mem_cons_self)
    · exact Or.inr (List.mem_append_right _ List.mem_cons_self)

theorem enqueueLocked_announced (h : b.Announced) (entry : Entry) :
    (b.enqueueLocked config context stamp entry).Announced := by
  rw [Buffer.enqueueLocked]
  split
  · have hsaid := saidFull_warnOverflow (Or.inl rfl) h.warned
    exact ⟨fun _ ↦ hsaid, fun _ ↦ hsaid⟩
  · exact ⟨h.warned, h.dropped⟩

theorem record_announced (h : b.Announced) (entry : Entry) :
    (b.record config context stamp entry).Announced := by
  rw [Buffer.record]
  split
  · exact enqueueLocked_announced h _
  · exact h

theorem reportAvailability_announced (h : b.Announced) (component : String) (healthy : Bool)
    (details : Json) :
    (b.reportAvailability config context stamp component healthy details).2.Announced := by
  have hknown : ∀ availability, { b with availability := availability }.Announced :=
    fun _ ↦ ⟨h.warned, h.dropped⟩
  rw [Buffer.reportAvailability]
  split
  · rcases b.availability.lookup component with _ | previous
    · rcases healthy with _ | _
      · exact enqueueLocked_announced (hknown _) _
      · exact hknown _
    · dsimp only
      split
      · exact h
      · exact enqueueLocked_announced (hknown _) _
  · exact h

theorem reportPrimaryChange_announced (h : b.Announced) (component primary : String) :
    (b.reportPrimaryChange config context stamp component primary).2.Announced := by
  have hknown : ∀ primaries, { b with primaries := primaries }.Announced :=
    fun _ ↦ ⟨h.warned, h.dropped⟩
  rw [Buffer.reportPrimaryChange]
  split
  · rcases b.primaries.lookup component with _ | previous
    · exact hknown _
    · dsimp only
      split
      · exact h
      · exact enqueueLocked_announced (hknown _) _
  · exact h

theorem requeueBatch_announced (h : b.Announced) (batch : List LogEvent) :
    (b.requeueBatch batch).Announced := by
  induction batch with
  | nil => exact h
  | cons event batch ih =>
    have hcons : b.requeueBatch (event :: batch) = (b.requeueBatch batch).requeue event := rfl
    rw [hcons, Buffer.requeue]
    split
    · have hsaid := saidFull_warnOverflow (Or.inr rfl) ih.warned
      exact ⟨fun _ ↦ hsaid, fun _ ↦ hsaid⟩
    · exact ⟨ih.warned, ih.dropped⟩

end Announcements

section Runs

variable {config : Config} {s : System}

/-- Only a worker that stops drops events without a word. -/
theorem work_announced (client : Bool) (exchange : Exchange)
    (h : s.phase = .stopped ∨ s.buffer.Announced) :
    (s.work config client exchange).phase = .stopped ∨
      (s.work config client exchange).buffer.Announced := by
  obtain ⟨buffer, phase, index, delivered⟩ := s
  rw [System.work.eq_def]
  cases phase with
  | waiting =>
    have h := h.resolve_left (by intro h; cases h)
    dsimp only
    split
    · exact Or.inl rfl
    · refine Or.inr ⟨fun hwarned ↦ h.warned ?_, h.dropped⟩
      exact (Bool.and_eq_true _ _ ▸ hwarned).1
  | sending batch attempt =>
    have h := h.resolve_left (by intro h; cases h)
    dsimp only
    rcases sendBatch _ _ _ with _ | _ | text
    · exact Or.inr h
    · exact Or.inr h
    · have hsaid : buffer.SaidFull → (buffer.writeDiagnostic text).SaidFull :=
        Or.imp (List.mem_append_left _) (List.mem_append_left _)
      exact Or.inr ⟨fun hwarned ↦ hsaid (h.warned hwarned), fun hne ↦ hsaid (h.dropped hne)⟩
  | failed batch =>
    have h := h.resolve_left (by intro h; cases h)
    dsimp only
    split
    · exact Or.inl rfl
    · exact Or.inr (requeueBatch_announced h batch)
  | resting =>
    have h := h.resolve_left (by intro h; cases h)
    exact Or.inr h
  | stopped => exact Or.inl rfl

theorem step_announced (action : Action) (h : s.phase = .stopped ∨ s.buffer.Announced) :
    (s.step config action).phase = .stopped ∨ (s.step config action).buffer.Announced := by
  cases action with
  | record context stamp entry => exact h.imp_right fun h ↦ record_announced h entry
  | availability context stamp component healthy details =>
    exact h.imp_right fun h ↦ reportAvailability_announced h component healthy details
  | primary context stamp component primary =>
    exact h.imp_right fun h ↦ reportPrimaryChange_announced h component primary
  | stop => exact h.imp_right fun h ↦ ⟨h.warned, h.dropped⟩
  | work client exchange =>
    rw [System.step]
    split
    · exact work_announced client exchange h
    · exact h

theorem run_announced (config : Config) (actions : List Action)
    (h : s.phase = .stopped ∨ s.buffer.Announced) :
    (s.run config actions).phase = .stopped ∨ (s.run config actions).buffer.Announced := by
  induction actions generalizing s with
  | nil => exact h
  | cons action actions ih => exact ih (step_announced action h)

/-! ## What is recorded -/

section Recorded

variable (config : Config)

/-- The event of an action, if it has one; what the buffer knows says whether a report is news. -/
def Action.events (b : Buffer) : Action → List LogEvent
  | .record context stamp entry =>
    if config.configured then [logEvent config context stamp (entry.completed context)] else []
  | .availability context stamp component healthy details =>
    if (b.reportAvailability config context stamp component healthy details).1 then
      [logEvent config context stamp (availabilityEntry component healthy details)]
    else []
  | .primary context stamp component name =>
    if (b.reportPrimaryChange config context stamp component name).1 then
      [logEvent config context stamp
        (primaryEntry component ((b.primaries.lookup component).getD "") name)]
    else []
  | .stop | .work _ _ => []

/-- The events of the actions of a run, in their order. -/
def eventsOf : List Action → System → List LogEvent
  | [], _ => []
  | action :: actions, s => action.events config s.buffer ++ eventsOf actions (s.step config action)

variable {config}

theorem warnOverflow_recorded (text : String) (b : Buffer) :
    (b.warnOverflow text).recorded = b.recorded :=
  congrArg RetryQueue.State.recorded (warnOverflow_view [] [] text b)

theorem requeueBatch_recorded (batch : List LogEvent) (b : Buffer) :
    (b.requeueBatch batch).recorded = b.recorded := by
  induction batch with
  | nil => rfl
  | cons event batch ih =>
    have hcons : b.requeueBatch (event :: batch) = (b.requeueBatch batch).requeue event := rfl
    rw [hcons, ← ih, Buffer.requeue]
    split
    · exact warnOverflow_recorded retryFullText _
    · rfl

/-- The worker records nothing. -/
theorem work_recorded (client : Bool) (exchange : Exchange) (s : System) :
    (s.work config client exchange).buffer.recorded = s.buffer.recorded := by
  rw [System.work.eq_def]
  rcases s.phase with _ | ⟨batch, attempt⟩ | batch | _ | _
  · dsimp only
    split
    · rfl
    · rfl
  · dsimp only
    rcases sendBatch _ _ _ with _ | _ | text
    · rfl
    · rfl
    · rfl
  · dsimp only
    split
    · rfl
    · exact requeueBatch_recorded batch s.buffer
  · rfl
  · rfl

/-- An action records its event. -/
theorem step_recorded (action : Action) (s : System) :
    (s.step config action).buffer.recorded
      = s.buffer.recorded ++ action.events config s.buffer := by
  by_cases hconfigured : config.configured
  · cases action with
    | record context stamp entry =>
      rw [System.step, Buffer.record, Action.events, if_pos hconfigured, if_pos hconfigured]
      exact enqueueLocked_recorded _ _
    | availability context stamp component healthy details =>
      exact (reportAvailability_spec config context stamp hconfigured component healthy details
        s.buffer).2.2
    | primary context stamp component primary =>
      have hspec := reportPrimaryChange_spec hconfigured context stamp component primary s.buffer
      rw [System.step, Action.events]
      -- a report of the primary that is known already is no event
      rcases hspec.2 with ⟨hsilent, hknown, hrecorded⟩ |
        ⟨previous, htold, hknown, hchange, hprimary, hrecorded⟩
      · rw [hrecorded, hsilent]
        exact (List.append_nil _).symm
      · rw [hrecorded, htold, hknown]
        rfl
    | stop => exact (List.append_nil _).symm
    | work client exchange =>
      rw [System.step, if_pos hconfigured, work_recorded]
      exact (List.append_nil _).symm
  · -- without an index every call returns at once
    have hsilent : action.events config s.buffer = [] ∧
        (s.step config action).buffer.recorded = s.buffer.recorded := by
      cases action with
      | record context stamp entry =>
        rw [System.step, Buffer.record, Action.events, if_neg hconfigured, if_neg hconfigured]
        exact ⟨rfl, rfl⟩
      | availability context stamp component healthy details =>
        rw [System.step, Action.events, Buffer.reportAvailability, if_neg hconfigured]
        exact ⟨rfl, rfl⟩
      | primary context stamp component primary =>
        have hreport : s.buffer.reportPrimaryChange config context stamp component primary
            = (false, s.buffer) := by
          rw [Buffer.reportPrimaryChange, if_neg (by simp [hconfigured])]
        rw [System.step, Action.events, hreport]
        exact ⟨rfl, rfl⟩
      | stop => exact ⟨rfl, rfl⟩
      | work client exchange =>
        rw [System.step, if_neg hconfigured]
        exact ⟨rfl, rfl⟩
    rw [hsilent.1, hsilent.2, List.append_nil]

theorem run_recorded (actions : List Action) (s : System) :
    (s.run config actions).buffer.recorded
      = s.buffer.recorded ++ eventsOf config actions s := by
  induction actions generalizing s with
  | nil => exact (List.append_nil _).symm
  | cons action actions ih =>
    rw [eventsOf, ← List.append_assoc, ← step_recorded]
    exact ih (s.step config action)

end Recorded

/-- **Accounts.** What is recorded is the list of the events of the calls. The queue is bounded;
what was not dropped is in the order it was recorded, delivered first, then what is on its way and
what waits; no event is in two places or nowhere; and before the worker has stopped nothing is
dropped without a diagnostic. -/
theorem recorded_accounted (config : Config) (actions : List Action) (index : Index) :
    let s := System.run config actions { index := index }
    s.buffer.recorded = eventsOf config actions { index := index } ∧
      s.buffer.queue.length ≤ maxQueueSize ∧
      (s.delivered ++ (s.phase.batch ++ s.buffer.queue)).Sublist s.buffer.recorded ∧
      s.buffer.recorded.Perm
        (s.delivered ++ (s.phase.batch ++ s.buffer.queue) ++ s.buffer.dropped) ∧
      (s.buffer.dropped ≠ [] → s.phase = .stopped ∨ s.buffer.SaidFull) := by
  intro s
  have hrecorded : s.buffer.recorded = eventsOf config actions { index := index } :=
    run_recorded actions { index := index }
  have hrun : RetryQueue.Run maxQueueSize s.view := run_refines actions { index := index }
  have hstart : ({} : Buffer).Announced := ⟨by simp, by simp⟩
  have hannounced := run_announced (s := { index := index }) config actions (Or.inr hstart)
  exact ⟨hrecorded, hrun.length_le, hrun.sublist, hrun.perm,
    fun h ↦ hannounced.imp_right fun h' ↦ h'.dropped h⟩

/-! ## The index -/

variable {index : Index}

theorem sendBatch_sent {reply : Option (ℤ × Json)} {events attempt : ℕ}
    (h : sendBatch reply events attempt = .sent) :
    ∃ status body, reply = some (status, body) ∧ acceptedBulkResponse body events := by
  have hretry : retryBatch events attempt ≠ .sent := by
    rw [retryBatch]
    split
    · intro h
      cases h
    · intro h
      cases h
  rcases reply with _ | ⟨status, body⟩
  · exact absurd h hretry
  · rw [sendBatch.eq_def] at h
    dsimp only at h
    split at h
    · next hsent => exact ⟨status, body, rfl, hsent.2⟩
    · split at h
      · cases h
      · exact absurd h hretry

theorem work_stored (client : Bool) (exchange : Exchange) (h : Stored index s.view s.index)
    (hrun : RetryQueue.Run maxQueueSize s.view) :
    Stored index (s.work config client exchange).view (s.work config client exchange).index := by
  have hbatch := mem_recorded_of_mem_batch hrun
  obtain ⟨buffer, phase, current, delivered⟩ := s
  rw [System.work.eq_def]
  cases phase with
  | waiting =>
    dsimp only
    split
    · exact h.mono rfl (List.Subset.refl _)
    · exact h.mono rfl (List.Subset.refl _)
  | sending batch attempt =>
    dsimp only
    rcases hsent : sendBatch _ _ _ with _ | _ | text
    · refine h.perform hbatch (List.Subset.refl _) fun event hevent ↦ ?_
      obtain ⟨status, body, hreply, haccepted⟩ := sendBatch_sent hsent
      exact (List.mem_append.mp hevent).imp_right fun hevent ↦
        perform_accepted hreply haccepted hevent
    · exact h.perform hbatch (List.Subset.refl _) fun event hevent ↦ Or.inl hevent
    · exact h.perform hbatch (List.Subset.refl _) fun event hevent ↦ Or.inl hevent
  | failed batch =>
    dsimp only
    split
    · exact h.mono rfl (List.Subset.refl _)
    · have hrecorded : buffer.recorded ⊆ (buffer.requeueBatch batch).recorded :=
        (requeueBatch_recorded batch buffer).symm ▸ List.Subset.refl _
      exact h.mono rfl hrecorded
  | resting => exact h.mono rfl (List.Subset.refl _)
  | stopped => exact h

theorem step_stored (action : Action) (h : Stored index s.view s.index)
    (hrun : RetryQueue.Run maxQueueSize s.view) :
    Stored index (s.step config action).view (s.step config action).index := by
  have hrecorded : s.buffer.recorded ⊆ (s.step config action).buffer.recorded :=
    (RetryQueue.Steps.recorded_prefix (step_refines action s)).subset
  cases action with
  | work client exchange =>
    rw [System.step]
    split
    · exact work_stored client exchange h hrun
    · exact h
  | _ => exact h.mono rfl hrecorded

theorem run_stored (actions : List Action) (h : Stored index s.view s.index)
    (hrun : RetryQueue.Run maxQueueSize s.view) :
    Stored index (s.run config actions).view (s.run config actions).index := by
  induction actions generalizing s with
  | nil => exact h
  | cons action actions ih =>
    exact ih (step_stored action h hrun) (hrun.trans (step_refines action s))

/-- **Delivery.** When the events have numbers of their own, a delivered event is in the index as it
was recorded, however often its batch was sent, and the index has nothing else that is new. -/
theorem recorded_delivered (config : Config) (actions : List Action) (index : Index)
    (hids : ((System.run config actions { index := index }).buffer.recorded.map LogEvent.id).Nodup)
    (hnew : ∀ event ∈ (System.run config actions { index := index }).buffer.recorded,
      index.lookup event.id = none) :
    let s := System.run config actions { index := index }
    (∀ event ∈ s.delivered, s.index.lookup event.id = some event.document) ∧
      ∀ id document, s.index.lookup id = some document →
        index.lookup id = some document ∨
          ∃ event ∈ s.buffer.recorded, event.id = id ∧ event.document = document := by
  intro s
  have hrun : RetryQueue.Run maxQueueSize s.view := run_refines actions { index := index }
  have hstart : Stored index (System.view { index := index }) index :=
    ⟨fun _ _ ↦ Or.inl, by simp [System.view, Buffer.view]⟩
  have hstored : Stored index s.view s.index := run_stored actions hstart .refl
  exact ⟨fun event hevent ↦ hstored.lookup_delivered hrun hids hnew hevent, hstored.known⟩

/-- An event whose first reply was lost is sent again, and is in the index once. -/
theorem resent_delivered :
    let s := System.run ⟨true, "a", "local", "1", 100, Nat.succ_pos 99⟩
      [.record {} ⟨"1", 0⟩ ⟨"redis", "started", "INFO", "up", .obj [], "", ""⟩,
        .work true .unreachable, .work true (.unanswered []), .work true (.answered 200 [])]
      { index := [] }
    s.delivered.all fun event ↦ s.index.lookup event.id = some event.document := by
  intro s
  have hdelivered := (recorded_delivered ⟨true, "a", "local", "1", 100, Nat.succ_pos 99⟩
    [.record {} ⟨"1", 0⟩ ⟨"redis", "started", "INFO", "up", .obj [], "", ""⟩,
      .work true .unreachable, .work true (.unanswered []), .work true (.answered 200 [])]
    [] (List.nodup_singleton "1") fun _ _ ↦ rfl).1
  exact List.all_eq_true.mpr fun event hevent ↦ decide_eq_true (hdelivered event hevent)

end Runs

end Logging

end Agora
