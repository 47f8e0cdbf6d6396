import Agora.Persistence.Queue

/-!
# Waiting for the persistence queue

Whoever waits for the events of a canvas waits until the number of the last completed event has
reached a ticket. The worker takes the events in the order of their tickets, one at a time, so the
number is that of the last event that was taken and is over, or a cancellation has raised it to the
last ticket of all (`Marked`). A cancellation raises it only when no event is under way, and this is
not enough: when it takes queued events away while an event is under way, nobody raises the number
beyond the ticket of that event, and whoever waits for one of the events that were taken away waits
forever (`released_iff_gentle`).
-/

namespace Agora

namespace Persistence

variable {dumpSize : Json → ℕ} {s : Pool}

/-! ## The number of the last completed event -/

/-- What the number of the last completed event says. -/
structure Marked (s : Pool) : Prop where
  busy : ∀ ticket ∈ s.inFlight, ticket = s.delivered.length
  mark : s.canvas.lastCompletedPersistence + s.inFlight.length = s.delivered.length ∨
    s.inFlight = [] ∧ s.queued = [] ∧ s.canvas.persistenceFailed ∧
      s.canvas.lastCompletedPersistence = s.canvas.lastEnqueuedPersistence

theorem marked_start : Marked {} where
  busy := nofun
  mark := Or.inl rfl

theorem inFlight_enqueue (hs : Balanced s) (event : Json) (requestId parentRequestId : String) :
    (s.enqueue dumpSize event requestId parentRequestId).inFlight = s.inFlight := by
  rcases hbytes : Canvas.eventBytes dumpSize event requestId parentRequestId with bytes
  rcases hrefuses : s.canvas.refuses bytes with _ | _
  · obtain ⟨-, -, -, hfailed, -⟩ := enqueue_taken hrefuses
    rw [enqueue_of_taken hbytes hrefuses hs]
    rcases hrunning : s.canvas.persistenceWorkerRunning with _ | _
    · obtain hnone | ⟨hfailed', -⟩ := (hs.idle hrunning).2
      · simp [hnone, Pool.inFlight]
      · rw [hfailed] at hfailed'
        contradiction
    · rfl
  · rw [enqueue_refused (by rw [hbytes, hrefuses])]

theorem Marked.enqueue (h : Marked s) (hs : Balanced s) (event : Json)
    (requestId parentRequestId : String) :
    Marked (s.enqueue dumpSize event requestId parentRequestId) := by
  have hflight : (s.enqueue dumpSize event requestId parentRequestId).inFlight = s.inFlight :=
    inFlight_enqueue hs event requestId parentRequestId
  rcases hbytes : Canvas.eventBytes dumpSize event requestId parentRequestId with bytes
  rcases hrefuses : s.canvas.refuses bytes with _ | _
  · obtain ⟨-, -, -, hfailed, -⟩ := enqueue_taken hrefuses
    have hmark : s.canvas.lastCompletedPersistence + s.inFlight.length = s.delivered.length := by
      rcases h.mark with hmark | ⟨-, -, hfailed', -⟩
      · exact hmark
      · rw [hfailed] at hfailed'
        nomatch hfailed'
    have hbusy := h.busy
    rw [← hflight] at hmark hbusy
    rw [enqueue_of_taken hbytes hrefuses hs] at hmark hbusy ⊢
    exact ⟨hbusy, Or.inl hmark⟩
  · rw [enqueue_refused (by rw [hbytes, hrefuses])]
    exact h

/-- A worker takes the first event of the queue. -/
theorem next_of_cons {worker : ℕ} {entry : PersistenceEntry} {queue : List PersistenceEntry}
    (hqueue : s.canvas.persistenceQueue = entry :: queue) : ∃ bytes, s.next worker = { s with
      canvas := { s.canvas with queuedPersistenceBytes := bytes, persistenceQueue := queue }
      workers := s.workers.set worker (.busy entry.ticket)
      delivered := s.delivered ++ [entry.ticket] } := by
  refine ⟨sub64 s.canvas.queuedPersistenceBytes entry.bytes, ?_⟩
  unfold Pool.next Canvas.nextPersistence
  rw [hqueue]

/-- The first event of the queue is the one after those that were taken. -/
theorem Balanced.first (hs : Balanced s) {entry : PersistenceEntry} {queue : List PersistenceEntry}
    (hqueue : s.canvas.persistenceQueue = entry :: queue) :
    entry.ticket = s.delivered.length + 1 := by
  have htickets := hs.tickets
  have hcancelled : s.cancelled = [] := by
    by_contra hne
    have hempty := (hs.cancelled hne).2
    rw [Pool.queued, hqueue] at hempty
    contradiction
  rw [hcancelled, List.append_nil, Pool.queued, hqueue, hs.given, eq_comm,
    List.range'_eq_append_iff] at htickets
  obtain ⟨count, -, htaken, hrest⟩ := htickets
  have hfirst := List.head?_eq_some_iff.mpr ⟨_, hrest.symm⟩
  rw [List.head?_range'] at hfirst
  split_ifs at hfirst
  rw [htaken, List.length_range', ← Option.some.inj hfirst]
  omega

theorem Marked.next (h : Marked s) (hs : Balanced s) {worker : ℕ}
    (hworker : s.workers[worker]? = some .ready) : Marked (s.next worker) := by
  obtain ⟨rfl, hworkers⟩ := hs.workers_eq hworker
  have hflight : s.inFlight = [] := by rw [Pool.inFlight, hworkers]; rfl
  have hmark := h.mark
  rcases hqueue : s.canvas.persistenceQueue with _ | ⟨entry, queue⟩
  · unfold Pool.next Canvas.nextPersistence
    rw [hqueue]
    refine ⟨?_, ?_⟩
    · simp [Pool.inFlight, hworkers]
    · simpa [Pool.inFlight, Pool.queued, hworkers, hqueue] using hmark
  · have hticket := hs.first hqueue
    have hmark' : s.canvas.lastCompletedPersistence = s.delivered.length := by
      rcases hmark with hmark | ⟨-, hempty, -⟩
      · rw [hflight] at hmark
        exact hmark
      · rw [Pool.queued, hqueue] at hempty
        contradiction
    obtain ⟨bytes, hnext⟩ := @next_of_cons s 0 entry queue hqueue
    rw [hnext]
    refine ⟨?_, Or.inl ?_⟩
    · simp [Pool.inFlight, hworkers, hticket]
    · simp [Pool.inFlight, hworkers, hmark']

theorem Marked.finish (h : Marked s) (hs : Balanced s) {worker ticket : ℕ} (succeeded : Bool)
    (hworker : s.workers[worker]? = some (.busy ticket)) :
    Marked (s.finish worker ticket succeeded) := by
  obtain ⟨rfl, hworkers⟩ := hs.workers_eq hworker
  have hflight : s.inFlight = [ticket] := by rw [Pool.inFlight, hworkers]; rfl
  have hmem : ticket ∈ s.inFlight := by rw [hflight]; exact List.mem_singleton_self _
  have hticket : ticket = s.delivered.length := h.busy ticket hmem
  have hmark : s.canvas.lastCompletedPersistence + 1 = s.delivered.length := by
    rcases h.mark with hmark | ⟨hnone, -⟩
    · rw [hflight] at hmark
      exact hmark
    · rw [hflight] at hnone
      contradiction
  refine ⟨?_, Or.inl ?_⟩
  · simp [Pool.inFlight, Pool.finish, hworkers]
  · simp only [Pool.finish, Canvas.endPersistence, Pool.inFlight, hworkers, List.set_cons_zero,
      List.filterMap_cons, List.filterMap_nil, List.length_nil]
    omega

/-- What a cancellation leaves. -/
theorem cancel_completed (hs : Balanced s) : s.cancel.canvas.lastCompletedPersistence
    = if s.inFlight = [] then s.canvas.lastEnqueuedPersistence
      else s.canvas.lastCompletedPersistence := by
  have hcount := hs.pending
  have hle := hs.pending_le
  have hsub : (if s.canvas.persistenceQueue.length ≤ s.canvas.pendingPersistence then
      sub64 s.canvas.pendingPersistence s.canvas.persistenceQueue.length else 0)
        = s.inFlight.length := by
    rw [Pool.queued, List.length_map] at hcount
    rw [if_pos (by omega), sub64_eq (by omega) (by omega)]
    omega
  simp only [Pool.cancel, Canvas.cancelPersistenceQueue, hsub, List.length_eq_zero_iff]

theorem Marked.cancel (h : Marked s) (hs : Balanced s) : Marked s.cancel := by
  have hcompleted := cancel_completed hs
  refine ⟨h.busy, ?_⟩
  rcases hflight : s.inFlight with _ | ⟨ticket, tickets⟩
  · rw [if_pos hflight] at hcompleted
    exact Or.inr ⟨hflight, rfl, rfl, hcompleted⟩
  · rw [if_neg (by rw [hflight]; exact List.cons_ne_nil _ _)] at hcompleted
    rcases h.mark with hmark | ⟨hnone, -⟩
    · rw [← hcompleted] at hmark
      exact Or.inl hmark
    · rw [hflight] at hnone
      nomatch hnone

theorem Marked.step (h : Marked s) (hs : Balanced s) (action : Step) :
    Marked (s.step dumpSize action) := by
  cases action with
  | enqueue event requestId parentRequestId => exact h.enqueue hs event requestId parentRequestId
  | next worker =>
    dsimp only [Pool.step]
    split
    · next hworker => exact h.next hs hworker
    · exact h
  | finish worker succeeded =>
    dsimp only [Pool.step]
    split
    · next ticket hworker => exact h.finish hs succeeded hworker
    · exact h
  | cancel => exact h.cancel hs
  | setUnloading unloading => exact ⟨h.busy, h.mark⟩

theorem run_concat (dumpSize : Json → ℕ) (steps : List Step) (action : Step) :
    Pool.run dumpSize (steps ++ [action]) = (Pool.run dumpSize steps).step dumpSize action :=
  List.foldl_concat ..

theorem marked_run (dumpSize : Json → ℕ) (steps : List Step) :
    Marked (Pool.run dumpSize steps) := by
  induction steps using List.reverseRecOn with
  | nil => exact marked_start
  | append_singleton steps action ih =>
    rw [run_concat]
    exact ih.step (balanced_run dumpSize steps) action

/-- Whether someone who waits for the events up to a ticket goes on. -/
def Canvas.passed (ticket : ℕ) (c : Canvas) : Bool := ticket ≤ c.lastCompletedPersistence

/-- When nothing is queued and nothing is under way, the number of the last completed event is the
last ticket, and whoever waits for a ticket that was given out goes on. -/
def Released (s : Pool) : Prop :=
  s.queued = [] → s.inFlight = [] →
    s.canvas.lastCompletedPersistence = s.canvas.lastEnqueuedPersistence ∧
      ∀ ticket ∈ s.given, s.canvas.passed ticket

/-- No cancellation takes queued events away while an event is under way. -/
def Gentle (dumpSize : Json → ℕ) (steps : List Step) : Prop :=
  ∀ before, before ++ [.cancel] <+: steps →
    (Pool.run dumpSize before).inFlight = [] ∨ (Pool.run dumpSize before).queued = []

theorem Gentle.of_prefix {steps steps' : List Step} (h : Gentle dumpSize steps)
    (hsteps : steps' <+: steps) : Gentle dumpSize steps' :=
  fun before hbefore ↦ h before (hbefore.trans hsteps)

theorem Gentle.finish {steps : List Step} (h : Gentle dumpSize steps) (worker : ℕ)
    (succeeded : Bool) : Gentle dumpSize (steps ++ [.finish worker succeeded]) := by
  intro before hbefore
  rcases List.prefix_concat_iff.mp hbefore with heq | hbefore
  · nomatch (List.append_inj' heq rfl).2
  · exact h before hbefore

/-- Nothing was taken away, or everything is over. -/
def Settled (s : Pool) : Prop :=
  s.cancelled = [] ∨ s.inFlight = [] ∧ s.queued = [] ∧ s.canvas.persistenceFailed ∧
    s.canvas.lastCompletedPersistence = s.canvas.lastEnqueuedPersistence

theorem Settled.step (h : Settled s) (hs : Balanced s) {action : Step}
    (hgentle : action = .cancel → s.inFlight = [] ∨ s.queued = []) :
    Settled (s.step dumpSize action) := by
  cases action with
  | enqueue event requestId parentRequestId =>
    change Settled (s.enqueue dumpSize event requestId parentRequestId)
    rcases hbytes : Canvas.eventBytes dumpSize event requestId parentRequestId with bytes
    rcases hrefuses : s.canvas.refuses bytes with _ | _
    · obtain ⟨-, -, -, hfailed, -⟩ := enqueue_taken hrefuses
      rw [enqueue_of_taken hbytes hrefuses hs]
      rcases h with hnone | ⟨-, -, hfailed', -⟩
      · exact Or.inl hnone
      · rw [hfailed] at hfailed'
        contradiction
    · rw [enqueue_refused (by rw [hbytes, hrefuses])]
      exact h
  | next worker =>
    dsimp only [Pool.step]
    split
    · next hworker =>
      obtain ⟨rfl, hworkers⟩ := hs.workers_eq hworker
      rcases hqueue : s.canvas.persistenceQueue with _ | ⟨entry, queue⟩
      · unfold Pool.next Canvas.nextPersistence
        rw [hqueue]
        rcases h with hnone | ⟨-, -, hfailed, hlast⟩
        · exact Or.inl hnone
        · exact Or.inr ⟨by simp [Pool.inFlight, hworkers], rfl, hfailed, hlast⟩
      · obtain ⟨bytes, hnext⟩ := @next_of_cons s 0 entry queue hqueue
        rw [hnext]
        rcases h with hnone | ⟨-, hempty, -⟩
        · exact Or.inl hnone
        · rw [Pool.queued, hqueue] at hempty
          contradiction
    · exact h
  | finish worker succeeded =>
    dsimp only [Pool.step]
    split
    · next ticket hworker =>
      obtain ⟨rfl, hworkers⟩ := hs.workers_eq hworker
      rcases h with hnone | ⟨hflight, -⟩
      · exact Or.inl hnone
      · rw [Pool.inFlight, hworkers] at hflight
        contradiction
    · exact h
  | cancel =>
    have hall : s.inFlight = [] → Settled s.cancel := by
      intro hflight
      refine Or.inr ⟨hflight, rfl, rfl, ?_⟩
      rw [cancel_completed hs, if_pos hflight]
      rfl
    rcases hgentle rfl with hflight | hempty
    · exact hall hflight
    · rcases h with hnone | ⟨hflight, -⟩
      · left
        change s.cancelled ++ s.queued = []
        rw [hnone, hempty]
        rfl
      · exact hall hflight
  | setUnloading unloading => exact h

theorem Gentle.settled {steps : List Step} (h : Gentle dumpSize steps) :
    Settled (Pool.run dumpSize steps) := by
  induction steps using List.reverseRecOn with
  | nil => exact Or.inl rfl
  | append_singleton steps action ih =>
    rw [run_concat]
    refine (ih (h.of_prefix (List.prefix_append _ _))).step (balanced_run dumpSize steps) ?_
    rintro rfl
    exact h steps (List.prefix_refl _)

theorem Settled.released (h : Settled s) (hs : Balanced s) (hmarked : Marked s) : Released s := by
  intro hempty hflight
  have hlast : s.canvas.lastCompletedPersistence = s.canvas.lastEnqueuedPersistence := by
    rcases h with hnone | ⟨-, -, -, hlast⟩
    · rcases hmarked.mark with hmark | ⟨-, -, -, hlast⟩
      · have htickets := hs.tickets
        rw [hnone, hempty, List.append_nil, List.append_nil, hs.given] at htickets
        rw [hflight, List.length_nil, Nat.add_zero, htickets, List.length_range'] at hmark
        exact hmark
      · exact hlast
    · exact hlast
  refine ⟨hlast, fun ticket hmem ↦ decide_eq_true ?_⟩
  rw [hs.given, List.mem_range'_1] at hmem
  omega

/-- The event that is under way when queued events are taken away is the last one that is counted.
-/
theorem not_released_of_cancel (hs : Balanced s) (hmarked : Marked s) (hflight : s.inFlight ≠ [])
    (hqueued : s.queued ≠ []) :
    ¬Released ((s.step dumpSize .cancel).step dumpSize (.finish 0 true)) := by
  have hlength := hs.length_le
  obtain ⟨ticket, hworkers⟩ : ∃ ticket, s.workers = [.busy ticket] := by
    rcases hworkers : s.workers with _ | ⟨w, workers⟩
    · rw [Pool.inFlight, hworkers] at hflight
      exact absurd rfl hflight
    · rw [hworkers, List.length_cons] at hlength
      obtain rfl : workers = [] := List.eq_nil_of_length_eq_zero (by omega)
      cases w with
      | ready =>
        rw [Pool.inFlight, hworkers] at hflight
        exact absurd rfl hflight
      | busy ticket => exact ⟨ticket, rfl⟩
  have hone : s.inFlight = [ticket] := by rw [Pool.inFlight, hworkers]; rfl
  have hticket := hmarked.busy ticket (by rw [hone]; exact List.mem_singleton_self _)
  have hmark : s.canvas.lastCompletedPersistence + 1 = s.delivered.length := by
    rcases hmarked.mark with hmark | ⟨hnone, -⟩
    · rw [hone] at hmark
      exact hmark
    · exact absurd hnone hflight
  have hcompleted := cancel_completed hs
  rw [if_neg hflight] at hcompleted
  have hlast : s.delivered.length < s.canvas.lastEnqueuedPersistence := by
    have htickets := congrArg List.length hs.tickets
    rw [hs.given, List.length_range', List.length_append, List.length_append] at htickets
    have hpositive := List.length_pos_iff.mpr hqueued
    omega
  have hstep : (s.step dumpSize .cancel).step dumpSize (.finish 0 true)
      = s.cancel.finish 0 ticket true := by
    dsimp only [Pool.step]
    rw [show s.cancel.workers = [.busy ticket] from hworkers]
    rfl
  rw [hstep]
  intro hreleased
  have hflight' : (s.cancel.finish 0 ticket true).inFlight = [] := by
    rw [Pool.inFlight, Pool.finish, show s.cancel.workers = [.busy ticket] from hworkers]
    rfl
  have hstuck := (hreleased rfl hflight').1
  change max s.cancel.canvas.lastCompletedPersistence ticket = s.canvas.lastEnqueuedPersistence
    at hstuck
  omega

/-- **Released waiters.** In every state of a run, also after the event that is under way, whoever
waits for an event that is over or was cancelled goes on, if and only if no cancellation of the run
takes queued events away while an event is under way. -/
theorem released_iff_gentle (dumpSize : Json → ℕ) (steps : List Step) :
    (∀ before, before <+: steps → Released (Pool.run dumpSize before) ∧ ∀ worker succeeded,
      Released (Pool.run dumpSize (before ++ [.finish worker succeeded]))) ↔
        Gentle dumpSize steps := by
  constructor
  · intro h before hbefore
    by_contra hboth
    rw [not_or] at hboth
    have hstuck := (h _ hbefore).2 0 true
    rw [run_concat, run_concat] at hstuck
    exact not_released_of_cancel (balanced_run dumpSize before) (marked_run dumpSize before)
      hboth.1 hboth.2 hstuck
  · intro h before hbefore
    have hgentle : ∀ {steps : List Step}, Gentle dumpSize steps →
        Released (Pool.run dumpSize steps) :=
      fun hsteps ↦ hsteps.settled.released (balanced_run dumpSize _) (marked_run dumpSize _)
    exact ⟨hgentle (h.of_prefix hbefore), fun worker succeeded ↦
      hgentle ((h.of_prefix hbefore).finish worker succeeded)⟩

/-- The second of two events is taken away while the first is under way. -/
def strandingSteps : List Step :=
  [.enqueue .null "" "", .enqueue .null "" "", .next 0, .cancel, .finish 0 true]

theorem stranded :
    ¬∀ (dumpSize : Json → ℕ) (steps : List Step), Released (Pool.run dumpSize steps) := by
  intro h
  have hlast := (h (fun _ ↦ 0) strandingSteps rfl rfl).1
  exact absurd hlast (by decide)

/-! ## Waiting before a canvas is saved -/

namespace Canvas

/-- How `waitForPendingPersistence` starts: the queue is closed, and the last ticket is waited for.
-/
def closeQueue (c : Canvas) : ℕ × Canvas :=
  (c.lastEnqueuedPersistence, { c with unloading := true })

end Canvas

/-- The queue of a canvas, and the document that its events are applied to. Whoever waits before
saving the canvas holds the lock of its settings. -/
structure Watched (D : Type) where
  pool : Pool := {}
  /-- The events that were accepted, in the order of their tickets. -/
  accepted : List Json := []
  /-- The tickets of the events that are over, and whether these were applied. -/
  ended : List (ℕ × Bool) := []
  document : D
  /-- The ticket that is waited for under the lock of the settings. -/
  target : Option ℕ := none

inductive Action (D : Type) where
  | enqueue (event : Json) (requestId parentRequestId : String)
  | next (worker : ℕ)
  /-- A worker is done with its event; what an event that failed leaves can be anything. -/
  | finish (worker : ℕ) (succeeded : Bool) (left : D)
  | cancel
  | startWaiting
  | stopWaiting
  /-- A change of the flag, under the lock of the settings. -/
  | setUnloading (unloading : Bool)

namespace Watched

variable {D : Type} (dumpSize : Json → ℕ) (effect : Json → D → D)

def enqueue (event : Json) (requestId parentRequestId : String) (w : Watched D) : Watched D :=
  { w with
    pool := w.pool.enqueue dumpSize event requestId parentRequestId
    accepted :=
      if (w.pool.canvas.enqueuePersistence dumpSize event requestId parentRequestId).1.1 then
        w.accepted ++ [event]
      else w.accepted }

def finish (worker ticket : ℕ) (succeeded : Bool) (left : D) (w : Watched D) : Watched D :=
  { w with
    pool := w.pool.finish worker ticket succeeded
    ended := w.ended ++ [(ticket, succeeded)]
    document :=
      if succeeded then (w.accepted[ticket - 1]?.map (effect · w.document)).getD w.document
      else left }

/-- Whether the wait is over. -/
def canStop (w : Watched D) : Bool := w.target.any w.pool.canvas.passed

def step (w : Watched D) : Action D → Watched D
  | .enqueue event requestId parentRequestId => w.enqueue dumpSize event requestId parentRequestId
  | .next worker => { w with pool := w.pool.step dumpSize (.next worker) }
  | .finish worker succeeded left =>
    match w.pool.workers[worker]? with
    | some (.busy ticket) => w.finish effect worker ticket succeeded left
    | _ => w
  | .cancel => { w with pool := w.pool.cancel }
  | .startWaiting =>
    if w.target.isNone then
      { w with
        pool := { w.pool with canvas := w.pool.canvas.closeQueue.2 }
        target := some w.pool.canvas.closeQueue.1 }
    else w
  | .stopWaiting => if w.canStop then { w with target := none } else w
  | .setUnloading unloading =>
    if w.target.isNone then { w with pool := w.pool.step dumpSize (.setUnloading unloading) } else w

def run (start : D) (actions : List (Action D)) : Watched D :=
  actions.foldl (step dumpSize effect) { document := start }

/-- The document after some events. -/
def after (start : D) (events : List Json) : D := events.foldl (fun d event ↦ effect event d) start

end Watched

/-- What a queue, its document and whoever waits have to do with each other. -/
structure Watching {D : Type} (effect : Json → D → D) (start : D) (w : Watched D) : Prop where
  balanced : Balanced w.pool
  marked : Marked w.pool
  ended : w.ended.map Prod.fst ++ w.pool.inFlight = w.pool.delivered
  accepted : w.accepted.length = w.pool.canvas.lastEnqueuedPersistence
  success : w.pool.canvas.persistenceFailed = false → ∀ e ∈ w.ended, e.2 = true
  document : w.pool.canvas.persistenceFailed = false →
    w.document = Watched.after effect start (w.accepted.take w.ended.length)
  target : ∀ ticket, w.target = some ticket →
    w.pool.canvas.unloading ∧ ticket = w.pool.canvas.lastEnqueuedPersistence

section Watching

variable {D : Type} {effect : Json → D → D} {start : D} {w : Watched D}

theorem Watching.ended_le (h : Watching effect start w) : w.ended.length ≤ w.accepted.length := by
  have hended := congrArg List.length h.ended
  have htickets := congrArg List.length h.balanced.tickets
  rw [h.balanced.given, List.length_range', List.length_append, List.length_append] at htickets
  rw [List.length_append, List.length_map] at hended
  rw [h.accepted]
  omega

theorem Watching.enqueue (h : Watching effect start w) (event : Json)
    (requestId parentRequestId : String) :
    Watching effect start (w.enqueue dumpSize event requestId parentRequestId) := by
  have hbalanced : Balanced (w.pool.enqueue dumpSize event requestId parentRequestId) :=
    h.balanced.enqueue event requestId parentRequestId
  have hmarked : Marked (w.pool.enqueue dumpSize event requestId parentRequestId) :=
    h.marked.enqueue h.balanced event requestId parentRequestId
  have hflight : (w.pool.enqueue dumpSize event requestId parentRequestId).inFlight
      = w.pool.inFlight := inFlight_enqueue h.balanced event requestId parentRequestId
  rcases hbytes : Canvas.eventBytes dumpSize event requestId parentRequestId with bytes
  rcases hrefuses : w.pool.canvas.refuses bytes with _ | _
  · have htaken : (w.pool.canvas.enqueuePersistence dumpSize event requestId parentRequestId).1.1
        = true := by
      unfold Canvas.enqueuePersistence
      rw [hbytes, if_neg (by rw [hrefuses]; exact Bool.false_ne_true)]
    have hopen : w.pool.canvas.unloading = false := by
      simp only [Canvas.refuses, Bool.or_eq_false_iff] at hrefuses
      exact hrefuses.1.1.2
    have hpool : w.pool.enqueue dumpSize event requestId parentRequestId = _ :=
      enqueue_of_taken hbytes hrefuses h.balanced
    unfold Watched.enqueue
    rw [if_pos htaken]
    constructor
    case balanced => exact hbalanced
    case marked => exact hmarked
    case ended =>
      dsimp only
      rw [hflight, hpool]
      exact h.ended
    case accepted =>
      dsimp only
      rw [hpool, List.length_append, h.accepted]
      rfl
    case success =>
      dsimp only
      rw [hpool]
      exact h.success
    case document =>
      dsimp only
      rw [hpool, List.take_append_of_le_length h.ended_le]
      exact h.document
    case target =>
      intro ticket hticket
      have hclosed := (h.target ticket hticket).1
      rw [hopen] at hclosed
      contradiction
  · have hrefused : (w.pool.canvas.enqueuePersistence dumpSize event requestId parentRequestId).1.1
        = false := by
      unfold Canvas.enqueuePersistence
      rw [hbytes, if_pos hrefuses]
    have hsame : w.enqueue dumpSize event requestId parentRequestId = w := by
      unfold Watched.enqueue
      rw [hrefused, if_neg Bool.false_ne_true, enqueue_refused (by rw [hbytes, hrefuses])]
    rw [hsame]
    exact h

theorem Watching.next (h : Watching effect start w) (worker : ℕ) :
    Watching effect start { w with pool := w.pool.step dumpSize (.next worker) } := by
  have hbalanced : Balanced (w.pool.step dumpSize (.next worker)) := h.balanced.step _
  have hmarked : Marked (w.pool.step dumpSize (.next worker)) := h.marked.step h.balanced _
  suffices hfields : w.ended.map Prod.fst ++ (w.pool.step dumpSize (.next worker)).inFlight
        = (w.pool.step dumpSize (.next worker)).delivered ∧
      (w.pool.step dumpSize (.next worker)).canvas.lastEnqueuedPersistence
        = w.pool.canvas.lastEnqueuedPersistence ∧
      (w.pool.step dumpSize (.next worker)).canvas.persistenceFailed
        = w.pool.canvas.persistenceFailed ∧
      (w.pool.step dumpSize (.next worker)).canvas.unloading = w.pool.canvas.unloading by
    obtain ⟨hended, hlast, hfailed, hunloading⟩ := hfields
    constructor
    case balanced => exact hbalanced
    case marked => exact hmarked
    case ended => exact hended
    case accepted => exact h.accepted.trans hlast.symm
    case success => exact fun hsuccess ↦ h.success (hfailed.symm.trans hsuccess)
    case document => exact fun hsuccess ↦ h.document (hfailed.symm.trans hsuccess)
    case target =>
      dsimp only
      rw [hlast, hunloading]
      exact h.target
  dsimp only [Pool.step]
  split
  · next hworker =>
    obtain ⟨rfl, hworkers⟩ := h.balanced.workers_eq hworker
    have hflight : w.pool.inFlight = [] := by rw [Pool.inFlight, hworkers]; rfl
    have hended := h.ended
    rw [hflight, List.append_nil] at hended
    rcases hqueue : w.pool.canvas.persistenceQueue with _ | ⟨entry, queue⟩
    · unfold Pool.next Canvas.nextPersistence
      rw [hqueue]
      refine ⟨?_, rfl, rfl, rfl⟩
      simp [Pool.inFlight, hworkers, hended]
    · obtain ⟨bytes, hnext⟩ := @next_of_cons w.pool 0 entry queue hqueue
      rw [hnext]
      refine ⟨?_, rfl, rfl, rfl⟩
      simp [Pool.inFlight, hworkers, hended]
  · exact ⟨h.ended, rfl, rfl, rfl⟩

theorem Watching.finish (h : Watching effect start w) {worker ticket : ℕ}
    (hworker : w.pool.workers[worker]? = some (.busy ticket)) (succeeded : Bool) (left : D) :
    Watching effect start (w.finish effect worker ticket succeeded left) := by
  have hbalanced := h.balanced.finish succeeded hworker
  have hmarked := h.marked.finish h.balanced succeeded hworker
  obtain ⟨rfl, hworkers⟩ := h.balanced.workers_eq hworker
  have hflight : w.pool.inFlight = [ticket] := by rw [Pool.inFlight, hworkers]; rfl
  have hended := h.ended
  rw [hflight] at hended
  have hticket : ticket = w.ended.length + 1 := by
    have hlength := congrArg List.length hended
    have hbusy := h.marked.busy ticket (by rw [hflight]; exact List.mem_singleton_self _)
    rw [List.length_append, List.length_map, List.length_singleton] at hlength
    omega
  have hsplit : (w.pool.finish 0 ticket succeeded).canvas.persistenceFailed = false ↔
      w.pool.canvas.persistenceFailed = false ∧ succeeded = true := by
    change (w.pool.canvas.persistenceFailed || !succeeded) = false ↔ _
    simp
  constructor
  case balanced => exact hbalanced
  case marked => exact hmarked
  case ended =>
    change (w.ended ++ [(ticket, succeeded)]).map Prod.fst ++ _ = w.pool.delivered
    rw [← hended]
    simp [Watched.finish, Pool.finish, Pool.inFlight, hworkers]
  case accepted => exact h.accepted
  case success =>
    intro hsuccess e he
    obtain ⟨hbefore, rfl⟩ := hsplit.mp hsuccess
    rcases List.mem_append.mp he with he | he
    · exact h.success hbefore e he
    · rw [List.mem_singleton.mp he]
  case document =>
    intro hsuccess
    obtain ⟨hbefore, rfl⟩ := hsplit.mp hsuccess
    have hlt : w.ended.length < w.accepted.length := by
      have htickets := congrArg List.length h.balanced.tickets
      have hlength := congrArg List.length hended
      rw [h.balanced.given, List.length_range', List.length_append, List.length_append] at htickets
      rw [List.length_append, List.length_map, List.length_singleton] at hlength
      rw [h.accepted]
      omega
    change (if true = true then (w.accepted[ticket - 1]?.map (effect · w.document)).getD w.document
      else left) = Watched.after effect start (w.accepted.take (w.ended ++ [(ticket, true)]).length)
    rw [if_pos rfl, hticket, Nat.add_sub_cancel, List.length_append, List.length_singleton,
      List.take_succ_eq_append_getElem hlt, List.getElem?_eq_getElem hlt, h.document hbefore,
      Watched.after, Watched.after, List.foldl_append]
    rfl
  case target => exact h.target

theorem Watching.step (h : Watching effect start w) (action : Action D) :
    Watching effect start (w.step dumpSize effect action) := by
  cases action with
  | enqueue event requestId parentRequestId => exact h.enqueue event requestId parentRequestId
  | next worker => exact h.next worker
  | finish worker succeeded left =>
    dsimp only [Watched.step]
    split
    · next ticket hworker => exact h.finish hworker succeeded left
    · exact h
  | cancel =>
    exact ⟨h.balanced.cancel, h.marked.cancel h.balanced, h.ended, h.accepted, nofun, nofun,
      h.target⟩
  | startWaiting =>
    dsimp only [Watched.step]
    split
    · refine ⟨(h.balanced.step (.setUnloading true) : Balanced (w.pool.step dumpSize _)),
        (h.marked.step h.balanced (.setUnloading true) : Marked (w.pool.step dumpSize _)),
        h.ended, h.accepted, h.success, h.document, fun ticket hticket ↦ ⟨rfl, ?_⟩⟩
      exact (Option.some.inj hticket).symm
    · exact h
  | stopWaiting =>
    dsimp only [Watched.step]
    split
    · exact ⟨h.balanced, h.marked, h.ended, h.accepted, h.success, h.document, nofun⟩
    · exact h
  | setUnloading unloading =>
    dsimp only [Watched.step]
    split
    · next hnone =>
      have hbalanced : Balanced (w.pool.step dumpSize (.setUnloading unloading)) :=
        h.balanced.step _
      have hmarked : Marked (w.pool.step dumpSize (.setUnloading unloading)) :=
        h.marked.step h.balanced _
      refine ⟨hbalanced, hmarked, h.ended, h.accepted, h.success, h.document,
        fun ticket hticket ↦ ?_⟩
      dsimp only at hticket
      rw [hticket] at hnone
      nomatch hnone
    · exact h

/-- A closed queue with nothing left in it, and the document with all its events. -/
structure Drained (effect : Json → D → D) (start : D) (events : List Json) (w : Watched D) :
    Prop where
  unloading : w.pool.canvas.unloading = true
  queue : w.pool.canvas.persistenceQueue = []
  idle : ∀ ticket, Worker.busy ticket ∉ w.pool.workers
  accepted : w.accepted = events
  document : w.document = Watched.after effect start events

/-- Nothing is accepted any more until the flag is taken back. -/
theorem Drained.step {events : List Json} (h : Drained effect start events w) {action : Action D}
    (haction : action ≠ .setUnloading false) :
    Drained effect start events (w.step dumpSize effect action) := by
  cases action with
  | enqueue event requestId parentRequestId =>
    have hrefuses : w.pool.canvas.refuses
        (Canvas.eventBytes dumpSize event requestId parentRequestId) = true := by
      simp [Canvas.refuses, h.unloading]
    have hrefused : (w.pool.canvas.enqueuePersistence dumpSize event requestId parentRequestId).1.1
        = false := by
      unfold Canvas.enqueuePersistence
      rw [if_pos hrefuses]
    dsimp only [Watched.step, Watched.enqueue]
    rw [hrefused, if_neg Bool.false_ne_true, enqueue_refused hrefuses]
    exact h
  | next worker =>
    dsimp only [Watched.step, Pool.step]
    split
    · unfold Pool.next Canvas.nextPersistence
      rw [h.queue]
      refine ⟨h.unloading, rfl, fun ticket hmem ↦ ?_, h.accepted, h.document⟩
      exact h.idle ticket (List.mem_of_mem_eraseIdx hmem)
    · exact h
  | finish worker succeeded left =>
    dsimp only [Watched.step]
    split
    · next ticket hworker => exact absurd (List.mem_of_getElem? hworker) (h.idle ticket)
    · exact h
  | cancel => exact ⟨h.unloading, rfl, h.idle, h.accepted, h.document⟩
  | startWaiting =>
    dsimp only [Watched.step]
    split
    · exact ⟨rfl, h.queue, h.idle, h.accepted, h.document⟩
    · exact h
  | stopWaiting =>
    dsimp only [Watched.step]
    split
    · exact ⟨h.unloading, h.queue, h.idle, h.accepted, h.document⟩
    · exact h
  | setUnloading unloading =>
    cases unloading with
    | true =>
      dsimp only [Watched.step]
      split
      · exact ⟨rfl, h.queue, h.idle, h.accepted, h.document⟩
      · exact h
    | false => exact absurd rfl haction

theorem Drained.run {events : List Json} (h : Drained effect start events w)
    {more : List (Action D)} (hmore : Action.setUnloading false ∉ more) :
    Drained effect start events (more.foldl (Watched.step dumpSize effect) w) := by
  induction more generalizing w with
  | nil => exact h
  | cons action more ih =>
    rw [List.mem_cons, not_or] at hmore
    exact ih (h.step (Ne.symm hmore.1)) hmore.2

end Watching

end Persistence

end Agora
