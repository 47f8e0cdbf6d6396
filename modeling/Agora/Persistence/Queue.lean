import Agora.Json.Basic
import Mathlib.Algebra.BigOperators.Group.List.Basic
import Mathlib.Data.List.Range
import Mathlib.Algebra.GroupWithZero.Nat

/-!
# The persistence queue

Events that are to be persisted wait in a queue of their canvas. Whoever enqueues the first one
starts a worker, which takes one event after the other until the queue is empty; the queue may be
cancelled at any time, also while the worker is at an event.

The counters are machine integers. That they never wrap, and that there is never a second worker,
rests on one invariant of the counters, the queue and the flags: a cancellation takes the flag of a
running worker away, but it also marks the queue as failed, and then nothing is enqueued again.
-/

namespace Agora

namespace Persistence

/-! ## Machine integers -/

def add64 (a b : ℕ) : ℕ := (a + b) % 2 ^ 64

def sub64 (a b : ℕ) : ℕ := (a + 2 ^ 64 - b) % 2 ^ 64

theorem add64_eq {a b : ℕ} (h : a + b < 2 ^ 64) : add64 a b = a + b := Nat.mod_eq_of_lt h

theorem sub64_eq {a b : ℕ} (hab : b ≤ a) (ha : a < 2 ^ 64) : sub64 a b = a - b := by
  unfold sub64
  omega

/-! ## The canvas -/

structure PersistenceEntry where
  ticket : ℕ
  bytes : ℕ
  event : Json
  requestId : String
  parentRequestId : String

/-- The part of a canvas that the queue uses. -/
structure Canvas where
  unloading : Bool := false
  pendingPersistence : ℕ := 0
  queuedPersistenceBytes : ℕ := 0
  lastEnqueuedPersistence : ℕ := 0
  lastCompletedPersistence : ℕ := 0
  persistenceQueue : List PersistenceEntry := []
  persistenceWorkerRunning : Bool := false
  persistenceFailed : Bool := false

namespace Canvas

def maxBytes : ℕ := 64 * 1024 * 1024

/-- What an event takes of the queue; `dumpSize` is the length of its text. -/
def eventBytes (dumpSize : Json → ℕ) (event : Json) (requestId parentRequestId : String) : ℕ :=
  add64 (add64 (dumpSize event) requestId.utf8ByteSize) parentRequestId.utf8ByteSize

/-- Whether an event of so many bytes is refused. -/
def refuses (c : Canvas) (bytes : ℕ) : Bool :=
  1024 ≤ c.pendingPersistence || maxBytes < bytes
    || sub64 maxBytes bytes < c.queuedPersistenceBytes
    || c.unloading || c.persistenceFailed || c.lastEnqueuedPersistence = 2 ^ 64 - 1

/-- The answers are whether the event is taken, and whether a worker is to be started. -/
def enqueuePersistence (dumpSize : Json → ℕ) (event : Json) (requestId parentRequestId : String)
    (c : Canvas) : (Bool × Bool) × Canvas :=
  let bytes := eventBytes dumpSize event requestId parentRequestId
  if c.refuses bytes then ((false, false), c)
  else
    let ticket := add64 c.lastEnqueuedPersistence 1
    ((true, !c.persistenceWorkerRunning), { c with
      lastEnqueuedPersistence := ticket
      persistenceQueue :=
        c.persistenceQueue ++ [{ ticket, bytes, event, requestId, parentRequestId }]
      queuedPersistenceBytes := add64 c.queuedPersistenceBytes bytes
      pendingPersistence := add64 c.pendingPersistence 1
      persistenceWorkerRunning := true })

def nextPersistence (c : Canvas) : Option PersistenceEntry × Canvas :=
  match c.persistenceQueue with
  | [] => (none, { c with persistenceWorkerRunning := false })
  | entry :: queue => (some entry, { c with
      queuedPersistenceBytes := sub64 c.queuedPersistenceBytes entry.bytes
      persistenceQueue := queue })

def cancelPersistenceQueue (c : Canvas) : Canvas :=
  let pending :=
    if c.persistenceQueue.length ≤ c.pendingPersistence then
      sub64 c.pendingPersistence c.persistenceQueue.length
    else 0
  { c with
    persistenceFailed := true
    pendingPersistence := pending
    persistenceQueue := []
    queuedPersistenceBytes := 0
    persistenceWorkerRunning := false
    lastCompletedPersistence :=
      if pending = 0 then c.lastEnqueuedPersistence else c.lastCompletedPersistence }

def endPersistence (ticket : ℕ) (succeeded : Bool) (c : Canvas) : Canvas :=
  { c with
    persistenceFailed := c.persistenceFailed || !succeeded
    pendingPersistence :=
      if 0 < c.pendingPersistence then sub64 c.pendingPersistence 1 else c.pendingPersistence
    lastCompletedPersistence := max c.lastCompletedPersistence ticket }

end Canvas

/-! ## Enqueuers and workers -/

/-- A worker is about to take the next event, or at the event with a ticket. -/
inductive Worker where
  | ready
  | busy (ticket : ℕ)
  deriving DecidableEq

/-- A canvas with its workers, those about to start among them, and with the tickets that have been
given out, delivered to a worker, and cancelled. -/
structure Pool where
  canvas : Canvas := {}
  workers : List Worker := []
  given : List ℕ := []
  delivered : List ℕ := []
  cancelled : List ℕ := []

inductive Step where
  | enqueue (event : Json) (requestId parentRequestId : String)
  | next (worker : ℕ)
  | finish (worker : ℕ) (succeeded : Bool)
  | cancel
  | setUnloading (unloading : Bool)

namespace Pool

variable (dumpSize : Json → ℕ)

def enqueue (event : Json) (requestId parentRequestId : String) (s : Pool) : Pool :=
  match s.canvas.enqueuePersistence dumpSize event requestId parentRequestId with
  | ((true, start), canvas) => { s with
      canvas
      workers := if start then s.workers ++ [.ready] else s.workers
      given := s.given ++ [canvas.lastEnqueuedPersistence] }
  | ((false, _), canvas) => { s with canvas }

/-- A worker takes the next event, or is done. -/
def next (worker : ℕ) (s : Pool) : Pool :=
  match s.canvas.nextPersistence with
  | (some entry, canvas) => { s with
      canvas
      workers := s.workers.set worker (.busy entry.ticket)
      delivered := s.delivered ++ [entry.ticket] }
  | (none, canvas) => { s with canvas, workers := s.workers.eraseIdx worker }

def finish (worker ticket : ℕ) (succeeded : Bool) (s : Pool) : Pool :=
  { s with
    canvas := s.canvas.endPersistence ticket succeeded
    workers := s.workers.set worker .ready }

def cancel (s : Pool) : Pool :=
  { s with
    canvas := s.canvas.cancelPersistenceQueue
    cancelled := s.cancelled ++ s.canvas.persistenceQueue.map PersistenceEntry.ticket }

/-- A step; a worker that is not there, or is at something else, does nothing. -/
def step (s : Pool) : Step → Pool
  | .enqueue event requestId parentRequestId => s.enqueue dumpSize event requestId parentRequestId
  | .next worker =>
    match s.workers[worker]? with
    | some .ready => s.next worker
    | _ => s
  | .finish worker succeeded =>
    match s.workers[worker]? with
    | some (.busy ticket) => s.finish worker ticket succeeded
    | _ => s
  | .cancel => s.cancel
  | .setUnloading unloading => { s with canvas := { s.canvas with unloading } }

def run (steps : List Step) : Pool := steps.foldl (step dumpSize) {}

/-- The tickets of the events that workers are at. -/
def inFlight (s : Pool) : List ℕ :=
  s.workers.filterMap fun
    | .busy ticket => some ticket
    | .ready => none

def queued (s : Pool) : List ℕ := s.canvas.persistenceQueue.map PersistenceEntry.ticket

end Pool

open Pool

/-! ## The invariant -/

/-- The sizes of the queued events. -/
def queuedSizes (c : Canvas) : List ℕ := c.persistenceQueue.map PersistenceEntry.bytes

/-- What the counters, the queue, the flags and the workers have to do with each other. -/
structure Balanced (s : Pool) : Prop where
  given : s.given = List.range' 1 s.canvas.lastEnqueuedPersistence
  last : s.canvas.lastEnqueuedPersistence < 2 ^ 64
  tickets : s.delivered ++ s.cancelled ++ s.queued = s.given
  cancelled : s.cancelled ≠ [] → s.canvas.persistenceFailed ∧ s.queued = []
  pending : s.canvas.pendingPersistence = s.queued.length + s.inFlight.length
  pending_le : s.canvas.pendingPersistence ≤ 1024
  bytes : s.canvas.queuedPersistenceBytes = (queuedSizes s.canvas).sum
  bytes_le : s.canvas.queuedPersistenceBytes ≤ Canvas.maxBytes
  running : s.canvas.persistenceWorkerRunning → s.workers.length = 1
  idle : s.canvas.persistenceWorkerRunning = false →
    s.queued = [] ∧ (s.workers = [] ∨ s.canvas.persistenceFailed ∧ s.workers.length = 1)

theorem balanced_start : Balanced {} where
  given := rfl
  last := by decide
  tickets := rfl
  cancelled h := absurd rfl h
  pending := rfl
  pending_le := by decide
  bytes := rfl
  bytes_le := by decide
  running := nofun
  idle _ := ⟨rfl, Or.inl rfl⟩

section Steps

variable {dumpSize : Json → ℕ} {s : Pool}

theorem Balanced.length_le (h : Balanced s) : s.workers.length ≤ 1 := by
  rcases hrunning : s.canvas.persistenceWorkerRunning with _ | _
  · rcases (h.idle hrunning).2 with hnone | ⟨-, hone⟩
    · rw [hnone]
      exact Nat.zero_le 1
    · exact le_of_eq hone
  · exact le_of_eq (h.running hrunning)

/-- What an event that is taken does to the canvas. -/
theorem enqueue_taken {c : Canvas} {bytes : ℕ} (h : c.refuses bytes = false) :
    c.pendingPersistence < 1024 ∧ bytes ≤ Canvas.maxBytes ∧
      c.queuedPersistenceBytes + bytes ≤ Canvas.maxBytes ∧ c.persistenceFailed = false ∧
        c.lastEnqueuedPersistence ≠ 2 ^ 64 - 1 := by
  simp only [Canvas.refuses, Bool.or_eq_false_iff, decide_eq_false_iff_not, not_le, not_lt] at h
  obtain ⟨⟨⟨⟨⟨hpending, hbytes⟩, hqueued⟩, -⟩, hfailed⟩, hlast⟩ := h
  have hmax : Canvas.maxBytes < 2 ^ 64 := by decide
  rw [sub64_eq hbytes hmax] at hqueued
  exact ⟨hpending, hbytes, by omega, hfailed, hlast⟩

theorem enqueue_refused {event : Json} {requestId parentRequestId : String}
    (h : s.canvas.refuses (Canvas.eventBytes dumpSize event requestId parentRequestId) = true) :
    s.enqueue dumpSize event requestId parentRequestId = s := by
  unfold Pool.enqueue Canvas.enqueuePersistence
  rw [if_pos h]

/-- An event that is taken is at the end of the queue, and there is a worker for it. -/
theorem enqueue_of_taken {event : Json} {requestId parentRequestId : String} {bytes : ℕ}
    (hbytes : Canvas.eventBytes dumpSize event requestId parentRequestId = bytes)
    (hrefuses : s.canvas.refuses bytes = false) (h : Balanced s) :
    s.enqueue dumpSize event requestId parentRequestId =
      { s with
        canvas := { s.canvas with
          lastEnqueuedPersistence := s.canvas.lastEnqueuedPersistence + 1
          persistenceQueue := s.canvas.persistenceQueue ++
            [⟨s.canvas.lastEnqueuedPersistence + 1, bytes, event, requestId, parentRequestId⟩]
          queuedPersistenceBytes := s.canvas.queuedPersistenceBytes + bytes
          pendingPersistence := s.canvas.pendingPersistence + 1
          persistenceWorkerRunning := true }
        workers := if s.canvas.persistenceWorkerRunning then s.workers else [.ready]
        given := s.given ++ [s.canvas.lastEnqueuedPersistence + 1] } := by
  obtain ⟨hpending, -, hsum, hfailed, hlast⟩ := enqueue_taken hrefuses
  have hmax : Canvas.maxBytes < 2 ^ 64 := by decide
  have hbound := h.last
  have hticket : add64 s.canvas.lastEnqueuedPersistence 1
      = s.canvas.lastEnqueuedPersistence + 1 := add64_eq (by omega)
  have hcount : add64 s.canvas.pendingPersistence 1 = s.canvas.pendingPersistence + 1 :=
    add64_eq (by omega)
  have htotal : add64 s.canvas.queuedPersistenceBytes bytes
      = s.canvas.queuedPersistenceBytes + bytes := add64_eq (by omega)
  unfold Pool.enqueue Canvas.enqueuePersistence
  rw [hbytes, if_neg (by rw [hrefuses]; exact Bool.false_ne_true), hticket, hcount, htotal]
  rcases hrunning : s.canvas.persistenceWorkerRunning with _ | _
  · -- There was no worker, since the queue has not failed.
    obtain hnone | ⟨hfailed', -⟩ := (h.idle hrunning).2
    · simp [hnone]
    · rw [hfailed] at hfailed'
      nomatch hfailed'
  · rfl

theorem Balanced.enqueue (h : Balanced s) (event : Json) (requestId parentRequestId : String) :
    Balanced (s.enqueue dumpSize event requestId parentRequestId) := by
  rcases hbytes : Canvas.eventBytes dumpSize event requestId parentRequestId with bytes
  rcases hrefuses : s.canvas.refuses bytes with _ | _
  · obtain ⟨hpending, -, hsum, hfailed, hlast⟩ := enqueue_taken hrefuses
    have hcancelled : s.cancelled = [] := by
      by_contra hne
      rw [(h.cancelled hne).1] at hfailed
      nomatch hfailed
    have hworkers : (if s.canvas.persistenceWorkerRunning then s.workers else [.ready]).length = 1 ∧
        (if s.canvas.persistenceWorkerRunning then s.workers else [.ready]).filterMap (fun
          | .busy ticket => some ticket
          | .ready => none) = s.inFlight := by
      rcases hrunning : s.canvas.persistenceWorkerRunning with _ | _
      · obtain hnone | ⟨hfailed', -⟩ := (h.idle hrunning).2
        · simp [hnone, Pool.inFlight]
        · rw [hfailed] at hfailed'
          nomatch hfailed'
      · exact ⟨h.running hrunning, rfl⟩
    rw [enqueue_of_taken hbytes hrefuses h]
    constructor
    case given => simp [h.given, List.range'_concat, Nat.add_comm]
    case last =>
      have hbound := h.last
      dsimp only
      omega
    case tickets => simp [Pool.queued, ← h.tickets]
    case cancelled => exact fun hne ↦ absurd hcancelled hne
    case pending =>
      rw [Pool.inFlight, hworkers.2]
      have hcount := h.pending
      simp only [Pool.queued, List.map_append, List.length_append, List.length_map] at hcount ⊢
      simp only [List.length_cons, List.length_nil]
      omega
    case pending_le => exact hpending
    case bytes => simp [queuedSizes, h.bytes]
    case bytes_le => exact hsum
    case running => exact fun _ ↦ hworkers.1
    case idle => nofun
  · rw [enqueue_refused (by rw [hbytes, hrefuses])]
    exact h

/-- The only worker. -/
theorem Balanced.workers_eq (h : Balanced s) {worker : ℕ} {w : Worker}
    (hworker : s.workers[worker]? = some w) : worker = 0 ∧ s.workers = [w] := by
  obtain ⟨hlt, hw⟩ := List.getElem?_eq_some_iff.mp hworker
  have hlen := h.length_le
  obtain rfl : worker = 0 := by omega
  refine ⟨rfl, ?_⟩
  obtain ⟨w', hworkers⟩ := List.length_eq_one_iff.mp (by omega : s.workers.length = 1)
  simp only [hworkers, List.getElem_cons_zero] at hw
  rw [hworkers, hw]

theorem Balanced.next (h : Balanced s) {worker : ℕ} (hworker : s.workers[worker]? = some .ready) :
    Balanced (s.next worker) := by
  obtain ⟨rfl, hworkers⟩ := h.workers_eq hworker
  have hcount := h.pending
  have hmax : Canvas.maxBytes < 2 ^ 64 := by decide
  unfold Pool.next Canvas.nextPersistence
  rcases hqueue : s.canvas.persistenceQueue with _ | ⟨entry, queue⟩
  · have htickets := h.tickets
    have hcancelled := h.cancelled
    have hbytes := h.bytes
    simp only [Pool.queued, queuedSizes, hqueue] at htickets hcancelled hbytes hcount
    constructor
    case given => exact h.given
    case last => exact h.last
    case tickets => exact htickets
    case cancelled => exact hcancelled
    case pending =>
      simp only [hworkers, Pool.inFlight, List.eraseIdx_cons_zero] at hcount ⊢
      exact hcount
    case pending_le => exact h.pending_le
    case bytes => exact hbytes
    case bytes_le => exact h.bytes_le
    case running => nofun
    case idle => exact fun _ ↦ ⟨rfl, Or.inl (by simp [hworkers])⟩
  · have hnonempty : s.queued ≠ [] := by simp [Pool.queued, hqueue]
    -- nothing is queued behind a cancellation
    have hcancelled : s.cancelled = [] := by
      by_contra hne
      exact hnonempty (h.cancelled hne).2
    have hbytes : s.canvas.queuedPersistenceBytes
        = entry.bytes + (queue.map PersistenceEntry.bytes).sum := by
      rw [h.bytes, queuedSizes, hqueue, List.map_cons, List.sum_cons]
    have hle := h.bytes_le
    have hsub : sub64 s.canvas.queuedPersistenceBytes entry.bytes
        = (queue.map PersistenceEntry.bytes).sum := by
      rw [sub64_eq (by omega) (by omega)]
      omega
    simp only [hsub]
    constructor
    case given => exact h.given
    case last => exact h.last
    case tickets =>
      have htickets := h.tickets
      simp only [hcancelled, Pool.queued, hqueue, List.append_nil, List.map_cons] at htickets ⊢
      rw [← htickets, List.append_assoc, List.singleton_append]
    case cancelled => exact fun hne ↦ absurd hcancelled hne
    case pending =>
      simp only [hworkers, Pool.queued, Pool.inFlight, hqueue, List.map_cons, List.length_cons,
        List.length_map, List.filterMap_cons, List.filterMap_nil, List.length_nil,
        List.set_cons_zero] at hcount ⊢
      omega
    case pending_le => exact h.pending_le
    case bytes => rfl
    case bytes_le =>
      dsimp only
      omega
    case running => exact fun _ ↦ by simp [hworkers]
    case idle => exact fun hidle ↦ absurd (h.idle hidle).1 hnonempty

theorem Balanced.finish (h : Balanced s) {worker ticket : ℕ} (succeeded : Bool)
    (hworker : s.workers[worker]? = some (.busy ticket)) :
    Balanced (s.finish worker ticket succeeded) := by
  obtain ⟨rfl, hworkers⟩ := h.workers_eq hworker
  have hcount := h.pending
  have hle := h.pending_le
  have hflight : s.inFlight = [ticket] := by rw [Pool.inFlight, hworkers]; rfl
  rw [hflight, List.length_singleton] at hcount
  have hsub : (if 0 < s.canvas.pendingPersistence then sub64 s.canvas.pendingPersistence 1
      else s.canvas.pendingPersistence) = s.queued.length := by
    rw [if_pos (by omega), sub64_eq (by omega) (by omega)]
    omega
  unfold Pool.finish Canvas.endPersistence
  rw [hsub]
  constructor
  case given => exact h.given
  case last => exact h.last
  case tickets => exact h.tickets
  case cancelled => exact fun hne ↦ ⟨by simp [(h.cancelled hne).1], (h.cancelled hne).2⟩
  case pending => simp [Pool.inFlight, Pool.queued, hworkers]
  case pending_le =>
    dsimp only
    omega
  case bytes => exact h.bytes
  case bytes_le => exact h.bytes_le
  case running => exact fun _ ↦ by simp [hworkers]
  case idle =>
    intro hidle
    obtain ⟨hqueued, hnone | ⟨hfailed, -⟩⟩ := h.idle hidle
    · rw [hworkers] at hnone
      nomatch hnone
    · exact ⟨hqueued, Or.inr ⟨by simp [hfailed], by simp [hworkers]⟩⟩

theorem Balanced.cancel (h : Balanced s) : Balanced s.cancel := by
  have hcount := h.pending
  have hle := h.pending_le
  have hlen := h.length_le
  have hsub : (if s.canvas.persistenceQueue.length ≤ s.canvas.pendingPersistence then
      sub64 s.canvas.pendingPersistence s.canvas.persistenceQueue.length else 0)
        = s.inFlight.length := by
    rw [Pool.queued, List.length_map] at hcount
    rw [if_pos (by omega), sub64_eq (by omega) (by omega)]
    omega
  unfold Pool.cancel Canvas.cancelPersistenceQueue
  rw [hsub]
  constructor
  case given => exact h.given
  case last => exact h.last
  case tickets =>
    have htickets := h.tickets
    simp only [Pool.queued] at htickets ⊢
    rw [List.map_nil, List.append_nil, ← List.append_assoc, htickets]
  case cancelled => exact fun _ ↦ ⟨rfl, rfl⟩
  case pending => simp [Pool.inFlight, Pool.queued]
  case pending_le =>
    dsimp only
    omega
  case bytes => rfl
  case bytes_le => exact Nat.zero_le _
  case running => nofun
  case idle =>
    intro _
    refine ⟨rfl, ?_⟩
    rcases hworkers : s.workers with _ | ⟨w, workers⟩
    · exact Or.inl rfl
    · rw [hworkers, List.length_cons] at hlen
      exact Or.inr ⟨rfl, by rw [List.length_cons]; omega⟩

theorem Balanced.step (h : Balanced s) (action : Step) : Balanced (s.step dumpSize action) := by
  cases action with
  | enqueue event requestId parentRequestId => exact h.enqueue event requestId parentRequestId
  | next worker =>
    dsimp only [Pool.step]
    split
    · next hworker => exact h.next hworker
    · exact h
  | finish worker succeeded =>
    dsimp only [Pool.step]
    split
    · next ticket hworker => exact h.finish succeeded hworker
    · exact h
  | cancel => exact h.cancel
  | setUnloading unloading =>
    exact ⟨h.given, h.last, h.tickets, h.cancelled, h.pending, h.pending_le, h.bytes, h.bytes_le,
      h.running, h.idle⟩

theorem balanced_run (dumpSize : Json → ℕ) (steps : List Step) : Balanced (run dumpSize steps) := by
  suffices hall : ∀ s, Balanced s → Balanced (steps.foldl (Pool.step dumpSize) s) from
    hall {} balanced_start
  induction steps with
  | nil => exact fun _ h ↦ h
  | cons action steps ih => exact fun s h ↦ ih _ (h.step action)

end Steps

/-! ## What holds over a run -/

theorem cancelled_run {dumpSize : Json → ℕ} {steps : List Step} (hsteps : Step.cancel ∉ steps) :
    (run dumpSize steps).cancelled = [] := by
  suffices hall : ∀ s : Pool, s.cancelled = [] →
      (steps.foldl (Pool.step dumpSize) s).cancelled = [] from hall {} rfl
  induction steps with
  | nil => exact fun _ h ↦ h
  | cons action steps ih =>
    rw [List.mem_cons, not_or] at hsteps
    obtain ⟨haction, hsteps⟩ := hsteps
    intro s h
    refine ih hsteps _ ?_
    cases action with
    | enqueue event requestId parentRequestId =>
      dsimp only [Pool.step, Pool.enqueue]
      split <;> exact h
    | next worker =>
      dsimp only [Pool.step, Pool.next]
      split
      · split <;> exact h
      · exact h
    | finish worker succeeded =>
      dsimp only [Pool.step]
      split <;> exact h
    | cancel => exact absurd rfl haction
    | setUnloading unloading => exact h

/-- The accounts of a queue: the tickets that are given out and delivered, the counters and their
bounds, what a refusal changes, and the workers. -/
structure Accounts (dumpSize : Json → ℕ) (s : Pool) : Prop where
  given : s.given = List.range' 1 s.given.length
  delivered : s.delivered <+: s.given
  pending : s.canvas.pendingPersistence = s.queued.length + s.inFlight.length
  pending_le : s.canvas.pendingPersistence ≤ 1024
  bytes : s.canvas.queuedPersistenceBytes = (queuedSizes s.canvas).sum
  bytes_le : s.canvas.queuedPersistenceBytes ≤ 64 * 1024 * 1024
  refused : ∀ event requestId parentRequestId,
    (s.canvas.enqueuePersistence dumpSize event requestId parentRequestId).1.1 = false →
      (s.canvas.enqueuePersistence dumpSize event requestId parentRequestId).2 = s.canvas
  one_worker : s.workers.length ≤ 1
  worker : s.queued ≠ [] → s.workers ≠ []

theorem Balanced.accounts {s : Pool} (h : Balanced s) (dumpSize : Json → ℕ) :
    Accounts dumpSize s where
  given := by
    have hlength : s.given.length = s.canvas.lastEnqueuedPersistence := by
      rw [h.given, List.length_range']
    rw [hlength]
    exact h.given
  delivered := by
    rw [← h.tickets, List.append_assoc]
    exact List.prefix_append _ _
  pending := h.pending
  pending_le := h.pending_le
  bytes := h.bytes
  bytes_le := h.bytes_le
  refused event requestId parentRequestId hrefused := by
    unfold Canvas.enqueuePersistence at hrefused ⊢
    dsimp only at hrefused ⊢
    split_ifs at hrefused ⊢
    rfl
  one_worker := h.length_le
  worker hqueued hnone := by
    rcases hrunning : s.canvas.persistenceWorkerRunning with _ | _
    · exact hqueued (h.idle hrunning).1
    · have hone := h.running hrunning
      rw [hnone] at hone
      nomatch hone

/-- **Accounts of the queue.** They are in order after any steps of enqueuers and workers, with
cancellations between them, and without a cancellation no ticket is passed over. -/
theorem persistence_accounts (dumpSize : Json → ℕ) (steps : List Step) :
    Accounts dumpSize (run dumpSize steps) ∧
      (Step.cancel ∉ steps → (run dumpSize steps).delivered ++ (run dumpSize steps).queued
        = (run dumpSize steps).given) := by
  have h := balanced_run dumpSize steps
  refine ⟨h.accounts dumpSize, fun hsteps ↦ ?_⟩
  have htickets := h.tickets
  rwa [cancelled_run hsteps, List.append_nil] at htickets

end Persistence

end Agora
