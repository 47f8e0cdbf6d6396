import Agora.Logging.Delivered

/-!
# An index that answers

While the index creates what it is sent, the worker writes all there is to write: a batch takes it
two steps, one to take it and one to send it. The steps that are left are counted by `toDo`, which
every step makes smaller until nothing is left.

**Main result.** After as many steps as the queue asks for, all that was on its way and all that
waited is delivered in its order, and a worker that was to stop has stopped (`work_drains`). A
worker that has just failed first puts its batch back (`work_recovers`). For any run of the server
this is `run_drains`.
-/

namespace Agora

namespace Logging

/-! ## Exchanges -/

/-- The index is there and refuses nothing. -/
def healthyExchange : Exchange := .answered 200 []

theorem isStored_createAll (batch : List LogEvent) (index : Index) :
    ∀ status ∈ (createAll batch [] index).1, isStored status := by
  induction batch generalizing index with
  | nil =>
    intro status h
    cases h
  | cons event batch ih =>
    intro status h
    rcases List.mem_cons.mp h with rfl | h
    · rw [List.headD_nil, create.eq_def]
      rcases index.lookup event.id with _ | document
      · rfl
      · rfl
    · exact ih _ status h

theorem acceptedBulkResponse_bulkBody {batch : List LogEvent} {verdicts : List (Option Refusal)}
    {index : Index} (h : ∀ status ∈ (createAll batch verdicts index).1, isStored status) :
    acceptedBulkResponse (bulkBody (createAll batch verdicts index).1) batch.length := by
  rw [acceptedBulkResponse, bulkBody, field?_obj, List.lookup_cons_self]
  refine (Bool.and_eq_true _ _).mpr ?_
  constructor
  · rw [List.length_map, length_createAll]
    exact decide_eq_true rfl
  · rw [List.all_map, List.all_eq_true]
    intro status hstatus
    rw [Function.comp_apply, acceptedItem_item (isStatus_createAll hstatus)]
    exact h status hstatus

theorem sendBatch_healthy (batch : List LogEvent) (index : Index) (attempt : ℕ) :
    sendBatch (healthyExchange.perform batch index).1 batch.length attempt = .sent := by
  have haccepted := acceptedBulkResponse_bulkBody (isStored_createAll batch index)
  exact if_pos ⟨by decide, haccepted⟩

/-! ## Steps -/

section Steps

variable {config : Config} {s : System}

/-- The worker's next step when the index answers. -/
def System.advance (config : Config) (s : System) : System := s.work config true healthyExchange

theorem advance_sending {batch : List LogEvent} {attempt : ℕ}
    (hphase : s.phase = .sending batch attempt) :
    s.advance config = { s with
      index := (healthyExchange.perform batch s.index).2
      delivered := s.delivered ++ batch
      phase := .waiting } := by
  rw [System.advance, System.work.eq_def, hphase]
  dsimp only
  rw [sendBatch_healthy]

theorem advance_waiting (hphase : s.phase = .waiting) (hqueue : s.buffer.queue ≠ []) :
    s.advance config = { s with
      buffer := (s.buffer.takeBatch config).2
      phase := .sending (s.buffer.queue.take config.batchSize) 0 } := by
  have htake : (s.buffer.queue.take config.batchSize).isEmpty = false := by
    rw [Bool.eq_false_iff, Ne, List.isEmpty_iff, List.take_eq_nil_iff]
    exact fun h ↦ h.elim (Nat.ne_of_gt config.batchSize_pos) hqueue
  have hgoing : (s.buffer.queue.isEmpty && s.buffer.stopping) = false := by
    rw [Bool.eq_false_iff.mpr (mt List.isEmpty_iff.mp hqueue), Bool.false_and]
  rw [System.advance, System.work.eq_def, hphase]
  dsimp only
  rw [hgoing, Buffer.takeBatch, htake]
  rfl

theorem advance_idle (hphase : s.phase = .waiting) (hqueue : s.buffer.queue = [])
    (hgoing : s.buffer.stopping = false) :
    s.advance config = { s with buffer := (s.buffer.takeBatch config).2 } := by
  rw [System.advance, System.work.eq_def, hphase]
  dsimp only
  rw [hgoing, Bool.and_false, Buffer.takeBatch, hqueue, List.take_nil]
  rfl

theorem advance_stopping (hphase : s.phase = .waiting) (hqueue : s.buffer.queue = [])
    (hstopping : s.buffer.stopping = true) : s.advance config = { s with phase := .stopped } := by
  rw [System.advance, System.work.eq_def, hphase]
  dsimp only
  rw [hstopping, hqueue]
  rfl

theorem advance_stopped (hphase : s.phase = .stopped) : s.advance config = s := by
  rw [System.advance, System.work.eq_def, hphase]

/-! ## Nothing left to do -/

/-- All of `events` is delivered, and the worker waits or has stopped. -/
structure Settled (events : List LogEvent) (stopping : Bool) (s : System) : Prop where
  delivered : s.delivered = events
  queue : s.buffer.queue = []
  stops : s.buffer.stopping = stopping
  phase : s.phase = if stopping then .stopped else .waiting

variable {events : List LogEvent} {stopping : Bool}

theorem Settled.advance (h : Settled events stopping s) :
    Settled events stopping (s.advance config) := by
  have hphase := h.phase
  rcases stopping with _ | _
  · rw [advance_idle hphase h.queue h.stops]
    refine ⟨h.delivered, ?_, h.stops, h.phase⟩
    rw [Buffer.takeBatch, h.queue]
    exact List.drop_nil
  · rw [advance_stopped hphase]
    exact h

theorem Settled.iterate (h : Settled events stopping s) (n : ℕ) :
    Settled events stopping ((System.advance config)^[n] s) := by
  induction n with
  | zero => exact h
  | succ n ih =>
    rw [Function.iterate_succ_apply']
    exact ih.advance

theorem Settled.of_idle (hphase : s.phase = .waiting) (hqueue : s.buffer.queue = []) :
    Settled (s.delivered ++ (s.phase.batch ++ s.buffer.queue)) s.buffer.stopping
      (s.advance config) := by
  have hbatch : s.phase.batch = [] := by rw [hphase]; rfl
  rw [hbatch, hqueue, List.append_nil, List.append_nil]
  rcases hstopping : s.buffer.stopping with _ | _
  · have hidle : Settled s.delivered false s := ⟨rfl, hqueue, hstopping, hphase⟩
    exact hidle.advance
  · rw [advance_stopping hphase hqueue hstopping]
    exact ⟨rfl, hqueue, hstopping, rfl⟩

/-- The steps that are left for a worker that waits or sends. -/
def System.toDo (s : System) : ℕ :=
  match s.phase with
  | .sending _ _ => 2 * s.buffer.queue.length + 2
  | _ => 2 * s.buffer.queue.length + 1

/-- The worker waits for events, or sends some. -/
def Phase.Working : Phase → Prop
  | .waiting => True
  | .sending _ _ => True
  | _ => False

theorem advance_toDo (config : Config) (hphase : s.phase.Working)
    (hbusy : ¬(s.phase = .waiting ∧ s.buffer.queue = [])) :
    (s.advance config).toDo < s.toDo := by
  rcases hcurrent : s.phase with _ | ⟨batch, attempt⟩ | batch | _ | _
  · have hqueue : s.buffer.queue ≠ [] := fun h ↦ hbusy ⟨hcurrent, h⟩
    have hpos := List.length_pos_iff.mpr hqueue
    have hbatch := config.batchSize_pos
    rw [advance_waiting hcurrent hqueue, System.toDo, System.toDo, hcurrent]
    dsimp only
    rw [Buffer.takeBatch, List.length_drop]
    omega
  · rw [advance_sending hcurrent, System.toDo, System.toDo, hcurrent]
    exact Nat.lt_succ_self _
  all_goals
    rw [hcurrent] at hphase
    exact hphase.elim

/-- A step leaves the events as they are, in their order, and moves them on. -/
theorem advance_working (config : Config) (hphase : s.phase.Working)
    (hbusy : ¬(s.phase = .waiting ∧ s.buffer.queue = [])) :
    (s.advance config).phase.Working ∧ (s.advance config).buffer.stopping = s.buffer.stopping ∧
      (s.advance config).view.kept = s.view.kept := by
  rcases hcurrent : s.phase with _ | ⟨batch, attempt⟩ | batch | _ | _
  · rw [advance_waiting hcurrent fun h ↦ hbusy ⟨hcurrent, h⟩]
    refine ⟨trivial, rfl, ?_⟩
    have hsplit := List.take_append_drop config.batchSize s.buffer.queue
    have hview : s.view.kept = s.delivered ++ s.buffer.queue := by
      rw [RetryQueue.State.kept, System.view, hcurrent]
      rfl
    rw [hview, RetryQueue.State.kept]
    exact congrArg (s.delivered ++ ·) hsplit
  · rw [advance_sending hcurrent]
    refine ⟨trivial, rfl, ?_⟩
    rw [RetryQueue.State.kept, RetryQueue.State.kept, System.view, System.view, hcurrent]
    exact List.append_assoc _ _ _
  all_goals
    rw [hcurrent] at hphase
    exact hphase.elim

/-- **Draining.** A worker that waits or sends delivers everything there is, in its order, and stops
if it was to stop. -/
theorem work_drains (config : Config) (s : System) (hphase : s.phase.Working) {n : ℕ}
    (hn : s.toDo ≤ n) :
    Settled (s.delivered ++ (s.phase.batch ++ s.buffer.queue)) s.buffer.stopping
      ((System.advance config)^[n] s) := by
  induction n generalizing s with
  | zero =>
    rw [System.toDo] at hn
    split at hn
    · cases hn
    · cases hn
  | succ n ih =>
    rw [Function.iterate_succ_apply]
    by_cases hbusy : s.phase = .waiting ∧ s.buffer.queue = []
    · exact (Settled.of_idle hbusy.1 hbusy.2).iterate n
    · obtain ⟨hworking, hstopping, hkept⟩ := advance_working config hphase hbusy
      have htodo := advance_toDo config hphase hbusy
      have hrest := ih (s.advance config) hworking (by omega)
      rw [hstopping] at hrest
      have hkept' : _ = s.delivered ++ (s.phase.batch ++ s.buffer.queue) := hkept
      rw [← hkept']
      exact hrest

/-! ## After a failure -/

/-- Putting a batch back leaves the front of the batch and the queue behind it. -/
theorem requeueBatch_queue (batch : List LogEvent) {b : Buffer}
    (hqueue : b.queue.length ≤ maxQueueSize) :
    (b.requeueBatch batch).queue = (batch ++ b.queue).take maxQueueSize := by
  induction batch with
  | nil => exact (List.take_of_length_le hqueue).symm
  | cons event batch ih =>
    have hcons : b.requeueBatch (event :: batch) = (b.requeueBatch batch).requeue event := rfl
    have hshed : ((b.requeueBatch batch).requeue event).queue
        = event :: (b.requeueBatch batch).queue.take (maxQueueSize - 1) := by
      rw [Buffer.requeue]
      split
      · rfl
      · next hroom =>
        rw [List.take_of_length_le (Nat.le_sub_one_of_lt (Nat.not_le.mp hroom))]
    rw [hcons, hshed, ih, List.take_take]
    rfl

theorem requeueBatch_stopping (batch : List LogEvent) (b : Buffer) :
    (b.requeueBatch batch).stopping = b.stopping :=
  congrArg (fun facts ↦ facts.2.2) (requeueBatch_facts batch b)

theorem advance_failed {batch : List LogEvent} (hphase : s.phase = .failed batch)
    (hgoing : s.buffer.stopping = false) :
    s.advance config = { s with buffer := s.buffer.requeueBatch batch, phase := .resting } := by
  rw [System.advance, System.work.eq_def, hphase]
  dsimp only
  rw [hgoing]
  rfl

theorem advance_resting (hphase : s.phase = .resting) (hgoing : s.buffer.stopping = false) :
    s.advance config = { s with phase := .waiting } := by
  rw [System.advance, System.work.eq_def, hphase]
  dsimp only
  rw [hgoing]
  rfl

theorem work_rested (s : System) (hphase : s.phase = .resting)
    (hgoing : s.buffer.stopping = false) (hqueue : s.buffer.queue.length ≤ maxQueueSize) {n : ℕ}
    (hn : 2 * maxQueueSize + 2 ≤ n) :
    Settled (s.delivered ++ s.buffer.queue) false ((System.advance config)^[n] s) := by
  obtain ⟨n, rfl⟩ := Nat.exists_eq_add_of_le' (show 1 ≤ n by omega)
  rw [Function.iterate_succ_apply, advance_resting hphase hgoing]
  have hdrained := work_drains config { s with phase := .waiting } trivial
    (show 2 * s.buffer.queue.length + 1 ≤ n by omega)
  rw [hgoing] at hdrained
  exact hdrained

/-- **Recovery.** After a failure, as long as the worker is not to stop, what fits in the queue is
delivered, older events before newer ones. -/
theorem work_recovers (s : System) {batch : List LogEvent} (hphase : s.phase = .failed batch)
    (hgoing : s.buffer.stopping = false) (hqueue : s.buffer.queue.length ≤ maxQueueSize)
    {n : ℕ} (hn : 2 * maxQueueSize + 3 ≤ n) :
    Settled (s.delivered ++ (batch ++ s.buffer.queue).take maxQueueSize) false
      ((System.advance config)^[n] s) := by
  obtain ⟨n, rfl⟩ := Nat.exists_eq_add_of_le' (show 1 ≤ n by omega)
  have hrequeued := requeueBatch_queue batch hqueue
  rw [Function.iterate_succ_apply, advance_failed hphase hgoing, ← hrequeued]
  refine work_rested { s with buffer := s.buffer.requeueBatch batch, phase := .resting } rfl
    ((requeueBatch_stopping batch s.buffer).trans hgoing) ?_ (by omega)
  rw [hrequeued]
  exact List.length_take_le _ _

end Steps

/-! ## Runs -/

section Runs

variable {config : Config} {context : RequestLogContext} {stamp : Stamp} {s : System}

theorem enqueueLocked_stopping (entry : Entry) (b : Buffer) :
    (b.enqueueLocked config context stamp entry).stopping = b.stopping :=
  congrArg (fun facts ↦ facts.2.2) (enqueueLocked_facts config context stamp entry b)

theorem reportAvailability_stopping (component : String) (healthy : Bool) (details : Json)
    (b : Buffer) :
    (b.reportAvailability config context stamp component healthy details).2.stopping
      = b.stopping := by
  rw [Buffer.reportAvailability]
  split
  · rcases b.availability.lookup component with _ | previous
    · rcases healthy with _ | _
      · exact enqueueLocked_stopping _ _
      · rfl
    · dsimp only
      split
      · rfl
      · exact enqueueLocked_stopping _ _
  · rfl

theorem reportPrimaryChange_stopping (component primary : String) (b : Buffer) :
    (b.reportPrimaryChange config context stamp component primary).2.stopping = b.stopping := by
  rw [Buffer.reportPrimaryChange]
  split
  · rcases b.primaries.lookup component with _ | previous
    · rfl
    · dsimp only
      split
      · rfl
      · exact enqueueLocked_stopping _ _
  · rfl

/-- A worker stops when it is told to. -/
theorem work_stopped (client : Bool) (exchange : Exchange)
    (h : s.phase = .stopped → s.buffer.stopping)
    (hstopped : (s.work config client exchange).phase = .stopped) :
    (s.work config client exchange).buffer.stopping := by
  obtain ⟨buffer, phase, index, delivered⟩ := s
  rw [System.work.eq_def] at hstopped ⊢
  cases phase with
  | waiting =>
    dsimp only at hstopped ⊢
    split
    · next hstop => exact (Bool.and_eq_true _ _ ▸ hstop).2
    · next hgoing =>
      rw [if_neg hgoing] at hstopped
      dsimp only at hstopped
      split at hstopped
      · cases hstopped
      · split at hstopped
        · cases hstopped
        · cases hstopped
  | sending batch attempt =>
    dsimp only at hstopped
    rcases hsent : sendBatch _ _ _ with _ | _ | text
    all_goals
      rw [hsent] at hstopped
      cases hstopped
  | failed batch =>
    dsimp only at hstopped ⊢
    split
    · next hstop => exact hstop
    · next hgoing =>
      rw [if_neg hgoing] at hstopped
      cases hstopped
  | resting =>
    dsimp only at hstopped
    split at hstopped
    · next hstop => exact hstop
    · cases hstopped
  | stopped => exact h rfl

theorem step_stopped (action : Action) (h : s.phase = .stopped → s.buffer.stopping)
    (hstopped : (s.step config action).phase = .stopped) :
    (s.step config action).buffer.stopping := by
  cases action with
  | record context stamp entry =>
    have hfacts := record_facts config context stamp entry s.buffer
    exact (congrArg (fun facts ↦ facts.2.2) hfacts).trans (h hstopped)
  | availability context stamp component healthy details =>
    exact (reportAvailability_stopping component healthy details s.buffer).trans (h hstopped)
  | primary context stamp component primary =>
    exact (reportPrimaryChange_stopping component primary s.buffer).trans (h hstopped)
  | stop =>
    rw [System.step]
    exact (Bool.or_eq_true _ _).mpr (Or.inl (h hstopped))
  | work client exchange =>
    rw [System.step] at hstopped ⊢
    split
    · next hconfigured =>
      rw [if_pos hconfigured] at hstopped
      exact work_stopped client exchange h hstopped
    · next hoff =>
      rw [if_neg hoff] at hstopped
      exact h hstopped

theorem run_stopped (actions : List Action) (h : s.phase = .stopped → s.buffer.stopping)
    (hstopped : (s.run config actions).phase = .stopped) :
    (s.run config actions).buffer.stopping := by
  induction actions generalizing s with
  | nil => exact h hstopped
  | cons action actions ih => exact ih (step_stopped action h) hstopped

/-- **Progress.** After any run, while the index answers: a worker that is not to stop delivers what
fits in the queue, older events first and all of them if there is room; and a worker that is not
putting a batch back delivers everything before it stops. -/
theorem run_drains (config : Config) (actions : List Action) (index : Index) {n : ℕ}
    (hn : 2 * maxQueueSize + 4 ≤ n) :
    let s := System.run config actions { index := index }
    let t := (System.advance config)^[n] s
    (s.buffer.stopping = false → ∃ events, Settled (s.delivered ++ events) false t ∧
        events <+: s.phase.batch ++ s.buffer.queue ∧
        ((s.phase.batch ++ s.buffer.queue).length ≤ maxQueueSize →
          events = s.phase.batch ++ s.buffer.queue)) ∧
      (s.phase.Working →
        Settled (s.delivered ++ (s.phase.batch ++ s.buffer.queue)) s.buffer.stopping t) := by
  intro s t
  have hrun : RetryQueue.Run maxQueueSize s.view := run_refines actions { index := index }
  have hqueue : s.buffer.queue.length ≤ maxQueueSize := hrun.length_le
  have hdrains : s.phase.Working →
      Settled (s.delivered ++ (s.phase.batch ++ s.buffer.queue)) s.buffer.stopping t := by
    refine fun hworking ↦ work_drains config s hworking ?_
    rw [System.toDo]
    split <;> omega
  refine ⟨fun hgoing ↦ ?_, hdrains⟩
  rcases hphase : s.phase with _ | ⟨batch, attempt⟩ | batch | _ | _
  · have hsettled := hdrains (hphase ▸ trivial)
    rw [hgoing, hphase] at hsettled
    exact ⟨_, hsettled, List.prefix_refl _, fun _ ↦ rfl⟩
  · have hsettled := hdrains (hphase ▸ trivial)
    rw [hgoing, hphase] at hsettled
    exact ⟨_, hsettled, List.prefix_refl _, fun _ ↦ rfl⟩
  · refine ⟨_, work_recovers s hphase hgoing hqueue (by omega), List.take_prefix _ _, ?_⟩
    exact List.take_of_length_le
  · exact ⟨_, work_rested s hphase hgoing hqueue (by omega), List.prefix_refl _, fun _ ↦ rfl⟩
  · have hstopping : s.buffer.stopping := run_stopped actions (by simp) hphase
    rw [hgoing] at hstopping
    cases hstopping

/-- A server that stops while its index was away for a moment. -/
theorem stop_drains :
    let s := System.run ⟨true, "a", "local", "1", 100, Nat.succ_pos 99⟩
      [.record {} ⟨"1", 0⟩ ⟨"redis", "started", "INFO", "up", .obj [], "", ""⟩,
        .work true .unreachable, .work true .unreachable, .stop] { index := [] }
    Settled (s.delivered ++ (s.phase.batch ++ s.buffer.queue)) s.buffer.stopping
      ((System.advance ⟨true, "a", "local", "1", 100, Nat.succ_pos 99⟩)^[20004] s) :=
  (run_drains ⟨true, "a", "local", "1", 100, Nat.succ_pos 99⟩
    [.record {} ⟨"1", 0⟩ ⟨"redis", "started", "INFO", "up", .obj [], "", ""⟩,
      .work true .unreachable, .work true .unreachable, .stop] []
    (show 2 * maxQueueSize + 4 ≤ 20004 by decide)).2 trivial

end Runs

end Logging

end Agora
