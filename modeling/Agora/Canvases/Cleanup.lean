import Agora.Canvases.Pairing
import Agora.Delivery.Waiting
import Mathlib.Data.Prod.Lex
import Mathlib.Logic.Function.Basic
import Mathlib.Logic.Relation

/-!
# Cleaning up after deleted canvases

The runtime of a canvas is removed after the canvas: a deletion leaves a task in a table, in the
same transaction, and workers do the tasks. A worker looks whether the task is still there, looks
whether a canvas has the number, asks the runtime manager to delete the runtime, and removes the
task when the answer says so; otherwise the task waits for thirty seconds. A listener starts a
worker when the deletion has committed, and a pass every thirty seconds attempts the first sixteen
tasks that are due. Workers run side by side, and each may be stopped between any two steps.

A task is in the table when its deletion commits, but it has the time at which it was inserted: a
deletion that takes long can come before tasks that are due already.

`runtimes_accounted`: no runtime of a canvas is ever asked to be deleted while the canvas is there
or will be, and no deleted canvas is forgotten before its runtime is deleted. `attempted_in_time`: a
task that is due is attempted within as many passes as its place says, in the table and among the
deletions under way, whatever else happens.
-/

namespace Agora

namespace Canvases

open Java

/-! ## The table and its workers -/

/-- How far a worker has come with a task. -/
inductive Phase where
  | idle
  /-- The task is in the table. -/
  | contained (id : ℤ)
  /-- No canvas has the number. -/
  | absent (id : ℤ)
  /-- The runtime manager has answered, or the request has failed. -/
  | answered (id : ℤ) (deleted : Bool)
  deriving DecidableEq

/-- The task of a worker. -/
def Phase.task : Phase → Option ℤ
  | idle => none
  | contained id | absent id | answered id _ => some id

/-- The canvases, the columns of the table beside the numbers in `World.cleanup`, and the workers:
`none` makes the passes, and `pending` is what its pass has still to attempt. A deletion under way
has inserted its task, at the time that is with it, and has not ended. The lists at the end say what
has been done so far. Times are in steps of 100 nanoseconds. -/
structure Background (T : Type) where
  world : World := {}
  attemptCount : ℤ → ℕ := fun _ ↦ 0
  nextAttemptAt : ℤ → ℕ := fun _ ↦ 0
  now : ℕ := 0
  phase : Option T → Phase := fun _ ↦ .idle
  pending : List ℤ := []
  passes : ℕ := 0
  deleting : List (ℤ × ℕ) := []
  deleted : List ℤ := []
  asked : List ℤ := []
  removed : List ℤ := []

namespace Background

variable {T : Type} (s : Background T)

/-- Tasks are ordered by their next attempts, then by their numbers. -/
def time (id : ℤ) : ℕ ×ₗ ℤ := toLex (s.nextAttemptAt id, id)

/-- The tasks that are due. -/
def ready : List ℤ := s.world.cleanup.filter fun id ↦ s.nextAttemptAt id ≤ s.now

def due : List ℤ := Waiting.first s.time 16 s.ready

def contains (id : ℤ) : Bool := decide (id ∈ s.world.cleanup)

def existsById (id : ℤ) : Bool := s.world.rows.any fun row ↦ row.canvasId = id

def complete (id : ℤ) : Background T :=
  { s with world := { s.world with cleanup := s.world.cleanup.filter (· ≠ id) } }

/-- Thirty seconds. -/
def retryDelay : ℕ := 30 * 10000000

/-- An attempt is counted, with the time of the update. -/
def retry (id : ℤ) (time : ℕ) : Background T :=
  if s.contains id then
    { s with
      attemptCount := Function.update s.attemptCount id (s.attemptCount id + 1)
      nextAttemptAt := Function.update s.nextAttemptAt id (time + retryDelay) }
  else s

/-- A deletion inserts its task. -/
def enqueue (id : ℤ) : Background T := { s with deleting := s.deleting ++ [(id, s.now)] }

variable [DecidableEq T]

def enter (t : Option T) (phase : Phase) : Background T :=
  { s with phase := Function.update s.phase t phase }

@[simp] theorem phase_enter_self (t : Option T) (phase : Phase) :
    (s.enter t phase).phase t = phase :=
  Function.update_self _ _ _

theorem phase_enter_of_ne {t t' : Option T} (h : t' ≠ t) (phase : Phase) :
    (s.enter t phase).phase t' = s.phase t' :=
  Function.update_of_ne h _ _

/-- A worker looks for a task. -/
def start (t : Option T) (id : ℤ) : Background T :=
  s.enter t (if s.contains id then .contained id else .idle)

/-- A worker looks for a canvas with the number of its task. -/
def inspect (t : Option T) (id : ℤ) : Background T :=
  s.enter t (if s.existsById id then .idle else .absent id)

/-- The runtime manager is asked to delete a runtime. -/
def deleteRuntime (t : Option T) (id : ℤ) (deleted : Bool) : Background T :=
  { s.enter t (.answered id deleted) with
    asked := s.asked ++ [id]
    removed := if deleted then s.removed ++ [id] else s.removed }

omit [DecidableEq T] in
/-- A deletion ends. The row of the canvas has been locked by it, so that but for the time of the
insert it may as well have been done now. -/
def deleteCanvas (es : Elasticsearch) (outcome : Outcome) (id : ℤ) (time : ℕ)
    (user : Option User) : Background T :=
  let r := Canvases.deleteCanvas es outcome id user s.world
  let deleting := s.deleting.erase (id, time)
  match r.1 with
  | .ok _ =>
    { s with
      world := r.2
      attemptCount := Function.update s.attemptCount id 0
      nextAttemptAt := Function.update s.nextAttemptAt id time
      deleting
      deleted := s.deleted ++ [id] }
  | .error _ => { s with world := r.2, deleting }

/-! ## Steps -/

section Steps

variable (es : Elasticsearch)

/-- The steps of requests and workers. Everything else that is done with canvases neither removes a
row nor gives out a number. -/
inductive Step : Background T → Background T → Prop where
  | tick (s : Background T) (later : ℕ) (hlater : s.now ≤ later) : Step s { s with now := later }
  | use (s : Background T) (rows : List CanvasInfo) (index : Index)
      (hrows : rows.map CanvasInfo.canvasId = s.world.rows.map CanvasInfo.canvasId) :
      Step s { s with world := { s.world with rows, index } }
  | create (s : Background T) (outcome : Outcome) (request : CreateCanvasRequest)
      (user : Option User) :
      Step s { s with world := (createCanvas es outcome request user s.world).2 }
  | enqueue (s : Background T) (id : ℤ) (hrow : HasRow s.world id) : Step s (s.enqueue id)
  | deleteCanvas (s : Background T) (outcome : Outcome) (id : ℤ) (time : ℕ) (user : Option User)
      (hdeleting : (id, time) ∈ s.deleting) : Step s (s.deleteCanvas es outcome id time user)
  | due (s : Background T) (hidle : s.phase none = .idle) (hpending : s.pending = []) :
      Step s { s with pending := s.due, passes := s.passes + 1 }
  | next (s : Background T) (id : ℤ) (rest : List ℤ) (hidle : s.phase none = .idle)
      (hpending : s.pending = id :: rest) :
      Step s ({ s with pending := rest }.start none id)
  | start (s : Background T) (t : T) (id : ℤ) (hidle : s.phase (some t) = .idle) :
      Step s (s.start (some t) id)
  | inspect (s : Background T) (t : Option T) (id : ℤ) (hphase : s.phase t = .contained id) :
      Step s (s.inspect t id)
  | deleteRuntime (s : Background T) (t : Option T) (id : ℤ) (hphase : s.phase t = .absent id)
      (deleted : Bool) : Step s (s.deleteRuntime t id deleted)
  | complete (s : Background T) (t : Option T) (id : ℤ) (hphase : s.phase t = .answered id true) :
      Step s ((s.complete id).enter t .idle)
  /-- Also when the task could not be removed. The update commits before the thirty seconds are
  over. -/
  | retry (s : Background T) (t : Option T) (id : ℤ) (deleted : Bool)
      (hphase : s.phase t = .answered id deleted) (time : ℕ) (htime : time ≤ s.now)
      (hsoon : s.now < time + retryDelay) : Step s ((s.retry id time).enter t .idle)
  | abandon (s : Background T) (t : T) : Step s (s.enter (some t) .idle)

/-- A pass fails at a task or ends early, or the process stops. -/
inductive Mishap : Background T → Background T → Prop where
  | attempt (s : Background T) : Mishap s (s.enter none .idle)
  | stop (s : Background T) :
      Mishap s { s with phase := fun _ ↦ .idle, pending := [], deleting := [] }

/-- What can be reached from an empty database. -/
inductive Reachable : Background T → Prop where
  | start : Reachable {}
  | step {s s' : Background T} (h : Reachable s) (hstep : Step es s s') : Reachable s'
  | fail {s s' : Background T} (h : Reachable s) (hfails : Mishap s s') : Reachable s'

end Steps

/-! ## Canvases and tasks -/

section Tasks

variable {es : Elasticsearch} {w w' : World} {deleted removed removed' : List ℤ}

/-- What a creation does to the database. -/
theorem createCanvas_cases (outcome : Outcome) (request : CreateCanvasRequest)
    (user : Option User) (w : World) :
    ∃ index, (createCanvas es outcome request user w).2 = { w with index } ∨
      (createCanvas es outcome request user w).2 = { w with nextId := w.nextId + 1, index } ∨
      (createCanvas es outcome request user w).2 = { withCanvas w with index } := by
  rcases hdoc : preparedDocument es outcome request user w with e | doc
  · refine ⟨w.index, ?_⟩
    rcases createCanvas_of_refused ⟨e, hdoc⟩ with h | h
    · exact Or.inl h
    · exact Or.inr (Or.inl h)
  · obtain ⟨-, h⟩ := createCanvas_of_prepared hdoc
    rw [h]
    by_cases hsaved : outcome.replies .put = .answered ∧ outcome.commits
    · rw [if_pos hsaved]
      exact ⟨_, Or.inr (Or.inr rfl)⟩
    · rw [if_neg hsaved]
      exact ⟨_, Or.inr (Or.inl rfl)⟩

/-- A deletion commits, and then the canvas was there, or leaves the database alone. -/
theorem deleteCanvas_cases (outcome : Outcome) (id : ℤ) (user : Option User) (w : World) :
    ∃ index, (HasRow w id ∧
        Canvases.deleteCanvas es outcome id user w = (.ok (), { withoutCanvas id w with index })) ∨
      ∃ e, Canvases.deleteCanvas es outcome id user w = (.error e, { w with index }) := by
  rcases hcheck : checkDeletion es outcome id user w with e | doc
  · refine ⟨w.index, Or.inr ⟨e, ?_⟩⟩
    rw [Canvases.deleteCanvas, Action.transactional, Action.bind_run, Action.reading_run, hcheck]
    rfl
  have hrow := hasRow_of_checked hcheck
  obtain ⟨b, hb⟩ := deleteDocuments_ok outcome.replies id doc.canvasName w.index
  rcases hdocuments : deleteDocuments outcome.replies id doc.canvasName w.index with ⟨r, index⟩
  obtain rfl : r = .ok b := by rw [← hb, hdocuments]
  simp only [Canvases.deleteCanvas, Action.transactional, Action.bind_run, Action.reading_run,
    hcheck, step, enqueueCleanup, deleteCanvasInfo, onIndex, Action.within, Action.modify_run,
    Action.lift_run, Java.throwIf, rollback]
  -- a step that throws leaves the rest undone
  rcases outcome.enqueue
  · exact ⟨w.index, Or.inr ⟨_, rfl⟩⟩
  rcases outcome.remove
  · exact ⟨w.index, Or.inr ⟨_, rfl⟩⟩
  simp only [if_true, hdocuments]
  rcases b
  · exact ⟨_, Or.inr ⟨_, rfl⟩⟩
  rcases outcome.resources
  · exact ⟨_, Or.inr ⟨_, rfl⟩⟩
  rcases outcome.publish
  · exact ⟨_, Or.inr ⟨_, rfl⟩⟩
  rcases outcome.commits
  · exact ⟨_, Or.inr ⟨_, rfl⟩⟩
  · exact ⟨_, Or.inl ⟨hrow, rfl⟩⟩

/-- Rows, tasks and deleted canvases: a number is given out once, every task is of a deleted canvas,
and a deleted canvas has its task until its runtime is removed. -/
structure Kept (w : World) (deleted removed : List ℤ) : Prop where
  numbered : ∀ id, HasRow w id → id < w.nextId
  gone : ∀ id ∈ deleted, id < w.nextId ∧ ¬HasRow w id
  queued : ∀ id ∈ w.cleanup, id ∈ deleted
  nodup : w.cleanup.Nodup
  kept : ∀ id ∈ deleted, id ∈ w.cleanup ∨ id ∈ removed

theorem Kept.congr (h : Kept w deleted removed) (hrows : ∀ id, HasRow w' id ↔ HasRow w id)
    (hcleanup : w'.cleanup = w.cleanup) (hnext : w.nextId ≤ w'.nextId) :
    Kept w' deleted removed where
  numbered id hid := (h.numbered id ((hrows id).mp hid)).trans_le hnext
  gone id hid := by
    obtain ⟨hlt, hrow⟩ := h.gone id hid
    exact ⟨hlt.trans_le hnext, fun hid' ↦ hrow ((hrows id).mp hid')⟩
  queued := by
    rw [hcleanup]
    exact h.queued
  nodup := by
    rw [hcleanup]
    exact h.nodup
  kept := by
    rw [hcleanup]
    exact h.kept

theorem Kept.mono (h : Kept w deleted removed) (hremoved : removed ⊆ removed') :
    Kept w deleted removed' :=
  { h with kept := fun id hid ↦ (h.kept id hid).imp_right fun hid ↦ hremoved hid }

theorem hasRow_withCanvas (id : ℤ) : HasRow (withCanvas w) id ↔ HasRow w id ∨ id = w.nextId := by
  rw [HasRow, HasRow, withCanvas]
  constructor
  · rintro ⟨row, hrow, rfl⟩
    rcases List.mem_append.mp hrow with hrow | hrow
    · exact Or.inl ⟨row, hrow, rfl⟩
    · rw [List.mem_singleton] at hrow
      rw [hrow]
      exact Or.inr rfl
  · rintro (⟨row, hrow, rfl⟩ | rfl)
    · exact ⟨row, List.mem_append_left _ hrow, rfl⟩
    · exact ⟨_, List.mem_append_right _ List.mem_cons_self, rfl⟩

theorem Kept.withCanvas (h : Kept w deleted removed) (index : Index) :
    Kept { withCanvas w with index } deleted removed where
  numbered id hid := by
    have hlt : id < w.nextId ∨ id = w.nextId :=
      ((hasRow_withCanvas id).mp hid).imp_left (h.numbered id)
    exact Int.lt_add_one_of_le (le_iff_lt_or_eq.mpr hlt)
  gone id hid := by
    obtain ⟨hlt, hrow⟩ := h.gone id hid
    refine ⟨Int.lt_add_one_of_le hlt.le, fun hid' ↦ ?_⟩
    -- the new number is not one that has been given out
    rcases (hasRow_withCanvas id).mp hid' with hid' | rfl
    · exact hrow hid'
    · exact lt_irrefl _ hlt
  queued := h.queued
  nodup := h.nodup
  kept := h.kept

theorem Kept.createCanvas (h : Kept w deleted removed) (outcome : Outcome)
    (request : CreateCanvasRequest) (user : Option User) :
    Kept (createCanvas es outcome request user w).2 deleted removed := by
  obtain ⟨index, hw | hw | hw⟩ := createCanvas_cases outcome request user w
  · rw [hw]
    exact h.congr (fun _ ↦ Iff.rfl) rfl (le_refl _)
  · rw [hw]
    exact h.congr (fun _ ↦ Iff.rfl) rfl (Int.le_add_one (le_refl _))
  · rw [hw]
    exact h.withCanvas index

theorem hasRow_withoutCanvas {id i : ℤ} : HasRow (withoutCanvas id w) i ↔ HasRow w i ∧ i ≠ id := by
  rw [HasRow, HasRow, Canvases.withoutCanvas]
  constructor
  · rintro ⟨row, hrow, rfl⟩
    obtain ⟨hrow, hne⟩ := List.mem_filter.mp hrow
    exact ⟨⟨row, hrow, rfl⟩, of_decide_eq_true hne⟩
  · rintro ⟨⟨row, hrow, rfl⟩, hne⟩
    exact ⟨row, List.mem_filter.mpr ⟨hrow, decide_eq_true hne⟩, rfl⟩

theorem Kept.withoutCanvas (h : Kept w deleted removed) {id : ℤ} (hrow : HasRow w id)
    (index : Index) : Kept { withoutCanvas id w with index } (deleted ++ [id]) removed where
  numbered i hi := h.numbered i (hasRow_withoutCanvas.mp hi).1
  gone i hi := by
    rcases List.mem_append.mp hi with hi | hi
    · obtain ⟨hlt, hno⟩ := h.gone i hi
      exact ⟨hlt, fun hi' ↦ hno (hasRow_withoutCanvas.mp hi').1⟩
    · obtain rfl := List.mem_singleton.mp hi
      exact ⟨h.numbered i hrow, fun hi' ↦ (hasRow_withoutCanvas.mp hi').2 rfl⟩
  queued i hi := by
    rcases List.mem_append.mp hi with hi | hi
    · exact List.mem_append_left _ (h.queued i hi)
    · exact List.mem_append_right _ hi
  nodup := by
    change (w.cleanup ++ [id]).Nodup
    rw [← List.concat_eq_append]
    exact h.nodup.concat fun hid ↦ (h.gone id (h.queued id hid)).2 hrow
  kept i hi := by
    rcases List.mem_append.mp hi with hi | hi
    · exact (h.kept i hi).imp_left (List.mem_append_left _)
    · exact Or.inl (List.mem_append_right _ hi)

theorem Kept.complete (h : Kept w deleted removed) {id : ℤ} (hid : id ∈ removed) :
    Kept { w with cleanup := w.cleanup.filter (· ≠ id) } deleted removed where
  numbered := h.numbered
  gone := h.gone
  queued i hi := h.queued i (List.mem_of_mem_filter hi)
  nodup := h.nodup.filter _
  kept i hi := by
    rcases h.kept i hi with hi | hi
    · by_cases heq : i = id
      · rw [heq]
        exact Or.inr hid
      · exact Or.inl (List.mem_filter.mpr ⟨hi, decide_eq_true heq⟩)
    · exact Or.inr hi

end Tasks

/-! ## Workers -/

section Workers

variable {es : Elasticsearch} {s s' : Background T}

/-- Workers work at tasks of deleted canvases. -/
structure Attended (s : Background T) : Prop where
  working : ∀ t id, (s.phase t).task = some id → id ∈ s.deleted
  answered : ∀ t id, s.phase t = .answered id true → id ∈ s.removed
  asked : ∀ id ∈ s.asked, id ∈ s.deleted

structure Inv (s : Background T) : Prop where
  kept : Kept s.world s.deleted s.removed
  attended : Attended s
  begun : ∀ d ∈ s.deleting, d.1 < s.world.nextId

theorem Attended.enter (h : Attended s) (t : Option T) {phase : Phase}
    (hworking : ∀ id, phase.task = some id → id ∈ s.deleted)
    (hanswered : ∀ id, phase = .answered id true → id ∈ s.removed) :
    Attended (s.enter t phase) where
  working t' id hid := by
    by_cases ht : t' = t
    · subst ht
      rw [phase_enter_self] at hid
      exact hworking id hid
    · rw [phase_enter_of_ne s ht] at hid
      exact h.working t' id hid
  answered t' id hid := by
    by_cases ht : t' = t
    · subst ht
      rw [phase_enter_self] at hid
      exact hanswered id hid
    · rw [phase_enter_of_ne s ht] at hid
      exact h.answered t' id hid
  asked := h.asked

theorem Attended.idle (h : Attended s) (t : Option T) : Attended (s.enter t .idle) := by
  apply h.enter
  · intro id hid
    cases hid
  · intro id hid
    cases hid

theorem Inv.start (h : Inv s) (t : Option T) (id : ℤ) : Inv (s.start t id) := by
  refine ⟨h.kept, ?_, h.begun⟩
  rw [Background.start]
  split
  · next hcontains =>
    apply h.attended.enter
    · intro i hi
      obtain rfl := Option.some.inj hi
      exact h.kept.queued _ (of_decide_eq_true hcontains)
    · intro i hi
      cases hi
  · exact h.attended.idle t

theorem Inv.inspect (h : Inv s) {t : Option T} {id : ℤ} (hphase : s.phase t = .contained id) :
    Inv (s.inspect t id) := by
  refine ⟨h.kept, ?_, h.begun⟩
  rw [Background.inspect]
  split
  · exact h.attended.idle t
  · apply h.attended.enter
    · intro i hi
      apply h.attended.working t
      rw [hphase]
      exact hi
    · intro i hi
      cases hi

theorem Inv.deleteRuntime (h : Inv s) {t : Option T} {id : ℤ} (hphase : s.phase t = .absent id)
    (deleted : Bool) : Inv (s.deleteRuntime t id deleted) := by
  have hid : id ∈ s.deleted := by
    apply h.attended.working t
    rw [hphase]
    rfl
  have hsubset : s.removed ⊆ (s.deleteRuntime t id deleted).removed := by
    intro i hi
    rw [Background.deleteRuntime]
    split
    · exact List.mem_append_left _ hi
    · exact hi
  have hasked : Attended
      { s with asked := s.asked ++ [id], removed := (s.deleteRuntime t id deleted).removed } := by
    refine ⟨h.attended.working, fun t' i hi ↦ hsubset (h.attended.answered t' i hi), fun i hi ↦ ?_⟩
    rcases List.mem_append.mp hi with hi | hi
    · exact h.attended.asked i hi
    · rw [List.mem_singleton.mp hi]
      exact hid
  refine ⟨h.kept.mono hsubset, hasked.enter t (fun i hi ↦ ?_) (fun i hi ↦ ?_), h.begun⟩
  · obtain rfl := Option.some.inj hi
    exact hid
  · cases hi
    exact List.mem_append_right _ List.mem_cons_self

omit [DecidableEq T] in
theorem Attended.congr (h : Attended s) (hphase : s'.phase = s.phase)
    (hdeleted : s.deleted ⊆ s'.deleted) (hasked : s'.asked = s.asked)
    (hremoved : s'.removed = s.removed) : Attended s' where
  working t id hid := by
    rw [hphase] at hid
    exact hdeleted (h.working t id hid)
  answered t id hid := by
    rw [hphase] at hid
    rw [hremoved]
    exact h.answered t id hid
  asked id hid := by
    rw [hasked] at hid
    exact hdeleted (h.asked id hid)

omit [DecidableEq T] in
theorem Inv.deleteCanvas (h : Inv s) (outcome : Outcome) (id : ℤ) (time : ℕ)
    (user : Option User) : Inv (s.deleteCanvas es outcome id time user) := by
  have hbegun : ∀ d ∈ s.deleting.erase (id, time), d.1 < s.world.nextId :=
    fun d hd ↦ h.begun d (List.mem_of_mem_erase hd)
  rw [Background.deleteCanvas]
  obtain ⟨index, ⟨hrow, hrun⟩ | ⟨e, hrun⟩⟩ := @deleteCanvas_cases es outcome id user s.world
  · rw [hrun]
    exact ⟨h.kept.withoutCanvas hrow index,
      h.attended.congr rfl (List.subset_append_left _ _) rfl rfl, hbegun⟩
  · rw [hrun]
    exact ⟨h.kept.congr (fun _ ↦ Iff.rfl) rfl (le_refl _),
      h.attended.congr rfl (List.Subset.refl _) rfl rfl, hbegun⟩

omit [DecidableEq T] in
theorem Inv.enqueue (h : Inv s) {id : ℤ} (hrow : HasRow s.world id) : Inv (s.enqueue id) := by
  refine ⟨h.kept, h.attended.congr rfl (List.Subset.refl _) rfl rfl, fun d hd ↦ ?_⟩
  rcases List.mem_append.mp hd with hd | hd
  · exact h.begun d hd
  · rw [List.mem_singleton.mp hd]
    exact h.kept.numbered id hrow

theorem nextId_createCanvas (outcome : Outcome) (request : CreateCanvasRequest)
    (user : Option User) (w : World) :
    w.nextId ≤ (createCanvas es outcome request user w).2.nextId := by
  obtain ⟨index, hw | hw | hw⟩ := @createCanvas_cases es outcome request user w
  · rw [hw]
  · rw [hw]
    exact Int.le_add_one (le_refl _)
  · rw [hw]
    exact Int.le_add_one (le_refl _)

omit [DecidableEq T] in
theorem retry_frame (s : Background T) (id : ℤ) (time : ℕ) :
    ∃ counts nexts, s.retry id time
      = { s with attemptCount := counts, nextAttemptAt := nexts } := by
  rw [Background.retry]
  split
  · exact ⟨_, _, rfl⟩
  · exact ⟨_, _, rfl⟩

theorem Inv.step (h : Inv s) (hstep : Step es s s') : Inv s' := by
  cases hstep with
  | tick later hlater =>
    exact ⟨h.kept, h.attended.congr rfl (List.Subset.refl _) rfl rfl, h.begun⟩
  | use rows index hrows =>
    refine ⟨h.kept.congr (fun id ↦ ?_) rfl (le_refl _),
      h.attended.congr rfl (List.Subset.refl _) rfl rfl, h.begun⟩
    rw [HasRow, HasRow, ← List.mem_map, ← List.mem_map, hrows]
  | create outcome request user =>
    exact ⟨h.kept.createCanvas outcome request user,
      h.attended.congr rfl (List.Subset.refl _) rfl rfl,
      fun d hd ↦ (h.begun d hd).trans_le (nextId_createCanvas outcome request user s.world)⟩
  | enqueue id hrow => exact h.enqueue hrow
  | deleteCanvas outcome id time user hdeleting => exact h.deleteCanvas outcome id time user
  | due hidle hpending =>
    exact ⟨h.kept, h.attended.congr rfl (List.Subset.refl _) rfl rfl, h.begun⟩
  | next id rest hidle hpending =>
    apply Inv.start
    exact ⟨h.kept, h.attended.congr rfl (List.Subset.refl _) rfl rfl, h.begun⟩
  | start t id hidle => exact h.start (some t) id
  | inspect t id hphase => exact h.inspect hphase
  | deleteRuntime t id hphase deleted => exact h.deleteRuntime hphase deleted
  | complete t id hphase =>
    have hcomplete : Attended (s.complete id) :=
      h.attended.congr rfl (List.Subset.refl _) rfl rfl
    exact ⟨h.kept.complete (h.attended.answered t id hphase), hcomplete.idle t, h.begun⟩
  | retry t id deleted hphase time htime hsoon =>
    obtain ⟨counts, nexts, hretry⟩ := retry_frame s id time
    rw [hretry]
    refine ⟨h.kept, Attended.idle ?_ t, h.begun⟩
    exact h.attended.congr rfl (List.Subset.refl _) rfl rfl
  | abandon t => exact ⟨h.kept, h.attended.idle (some t), h.begun⟩

theorem Inv.mishap (h : Inv s) (hmishap : Mishap s s') : Inv s' := by
  cases hmishap with
  | attempt => exact ⟨h.kept, h.attended.idle none, h.begun⟩
  | stop =>
    refine ⟨h.kept, ⟨fun t id hid ↦ ?_, fun t id hid ↦ ?_, h.attended.asked⟩, fun d hd ↦ ?_⟩
    · cases hid
    · cases hid
    · cases hd

theorem kept_start : Kept {} [] [] where
  numbered id hid := by
    obtain ⟨row, hrow, -⟩ := hid
    cases hrow
  gone id hid := by cases hid
  queued id hid := by cases hid
  nodup := List.nodup_nil
  kept id hid := by cases hid

omit [DecidableEq T] in
theorem attended_start : Attended ({} : Background T) where
  working t id hid := by cases hid
  answered t id hid := by cases hid
  asked id hid := by cases hid

theorem Reachable.inv (h : Reachable es s) : Inv s := by
  induction h with
  | start => exact ⟨kept_start, attended_start, fun d hd ↦ absurd hd List.not_mem_nil⟩
  | step _ hstep ih => exact ih.step hstep
  | fail _ hmishap ih => exact ih.mishap hmishap

/-- **No runtime too many, none too few.** Whatever requests and workers do side by side, and
whatever fails: a runtime is asked to be deleted only when its canvas has been deleted, for good,
and a deleted canvas keeps its task, one and no more, until its runtime is deleted. -/
theorem runtimes_accounted (h : Reachable es s) :
    (∀ id ∈ s.asked, id ∈ s.deleted ∧ ¬HasRow s.world id) ∧
      (∀ id ∈ s.deleted, id ∈ s.world.cleanup ∨ id ∈ s.removed) ∧
      (∀ id ∈ s.world.cleanup, id ∈ s.deleted) ∧ s.world.cleanup.Nodup := by
  obtain ⟨hkept, hattended, -⟩ := h.inv
  refine ⟨fun id hid ↦ ?_, hkept.kept, hkept.queued, hkept.nodup⟩
  have hdeleted := hattended.asked id hid
  exact ⟨hdeleted, (hkept.gone id hdeleted).2⟩

end Workers

/-! ## Passes -/

section Passes

variable {es : Elasticsearch} {s s' : Background T} {k : ℤ} {b c : ℕ}

/-- What the pass has still to attempt, and what it works at. -/
def todo (s : Background T) : List ℤ := s.pending ++ (s.phase none).task.toList

/-- No pass is being made. -/
def AtRest (s : Background T) : Prop := s.phase none = .idle ∧ s.pending = []

/-- The tasks before a task. -/
def before (s : Background T) (k : ℤ) : Finset ℤ := Waiting.ahead s.time s.world.cleanup k

/-- The canvases whose tasks will be before a task when their deletions commit: a task has been
inserted already, or the clock stands at the time of the task. -/
def overtaking (s : Background T) (k : ℤ) : Finset ℤ :=
  (s.world.rows.map CanvasInfo.canvasId).toFinset.filter fun id ↦
    (∃ d ∈ s.deleting, d.1 = id ∧ toLex (d.2, id) < s.time k) ∨
      s.nextAttemptAt k = s.now ∧ id < k

omit [DecidableEq T] in
theorem time_lt {i j : ℤ} : s.time i < s.time j ↔
    s.nextAttemptAt i < s.nextAttemptAt j ∨ s.nextAttemptAt i = s.nextAttemptAt j ∧ i < j :=
  Prod.Lex.toLex_lt_toLex

omit [DecidableEq T] in
theorem time_injective (s : Background T) : s.time.Injective := by
  intro i j h
  exact (Prod.mk.inj (toLex_inj.mp h)).2

omit [DecidableEq T] in
theorem mem_before {j : ℤ} : j ∈ s.before k ↔ j ∈ s.world.cleanup ∧ s.time j < s.time k :=
  Waiting.mem_ahead

omit [DecidableEq T] in
theorem mem_overtaking {j : ℤ} : j ∈ s.overtaking k ↔ HasRow s.world j ∧
    ((∃ d ∈ s.deleting, d.1 = j ∧ toLex (d.2, j) < s.time k) ∨
      s.nextAttemptAt k = s.now ∧ j < k) := by
  rw [overtaking, Finset.mem_filter, List.mem_toFinset, List.mem_map]
  rfl

omit [DecidableEq T] in
/-- Where no row and no deletion is new, no more canvases come before a task that is due. -/
theorem overtaking_subset (hrows : ∀ j, HasRow s'.world j → j < k ∨ (∃ d ∈ s'.deleting, d.1 = j) →
      HasRow s.world j) (hdeleting : s'.deleting ⊆ s.deleting)
    (hnext : s'.nextAttemptAt k = s.nextAttemptAt k) (hnow : s.now ≤ s'.now)
    (hdue : s.nextAttemptAt k ≤ s.now) : s'.overtaking k ⊆ s.overtaking k := by
  intro j hj
  rw [mem_overtaking, time, hnext] at hj
  obtain ⟨hrow, ⟨d, hd, hid, hlt⟩ | ⟨hnow', hlt⟩⟩ := hj
  · exact mem_overtaking.mpr
      ⟨hrows j hrow (Or.inr ⟨d, hd, hid⟩), Or.inl ⟨d, hdeleting hd, hid, hlt⟩⟩
  · refine mem_overtaking.mpr ⟨hrows j hrow (Or.inl hlt), Or.inr ⟨?_, hlt⟩⟩
    omega

omit [DecidableEq T] in
theorem AtRest.todo (h : AtRest s) : s.todo = [] := by
  rw [Background.todo, h.1, h.2]
  rfl

theorem todo_enter_some (s : Background T) (t : T) (phase : Phase) :
    (s.enter (some t) phase).todo = s.todo := by
  rw [todo, phase_enter_of_ne s (Option.some_ne_none t).symm, todo]
  rfl

theorem todo_enter_none (s : Background T) (phase : Phase) :
    (s.enter none phase).todo = s.pending ++ phase.task.toList := by
  rw [todo, phase_enter_self]
  rfl

/-- What a pass may still take before it comes to a task. -/
def remaining (k : ℤ) (s : Background T) : Finset ℤ :=
  s.before k \ s.todo.toFinset ∪ s.overtaking k

/-- The pass has come to a task, or the task is due and every pass so far has left fewer tasks
before it. -/
def Waits (k : ℤ) (b : ℕ) (s : Background T) : Prop :=
  k ∈ s.todo ∨ s.nextAttemptAt k ≤ s.now ∧ (s.remaining k).card + 16 * s.passes ≤ b

omit [DecidableEq T] in
theorem remaining_subset (hbefore : ∀ j ∈ s'.before k, j ∉ s'.todo → j ∈ s.before k ∧ j ∉ s.todo)
    (hovertaking : s'.overtaking k ⊆ s.overtaking k) : s'.remaining k ⊆ s.remaining k := by
  refine Finset.union_subset_union (fun j hj ↦ ?_) hovertaking
  rw [Finset.mem_sdiff, List.mem_toFinset] at hj ⊢
  exact hbefore j hj.1 hj.2

/-- A step that leaves a task waiting, and no other before it. -/
structure Calm (k : ℤ) (s s' : Background T) : Prop where
  todo : k ∈ s.todo → k ∈ s'.todo
  next : s'.nextAttemptAt k = s.nextAttemptAt k
  now : s.now ≤ s'.now
  passes : s'.passes = s.passes
  remaining : s.nextAttemptAt k ≤ s.now → s'.remaining k ⊆ s.remaining k

omit [DecidableEq T] in
theorem Calm.waits (h : Calm k s s') (hwaits : Waits k b s) : Waits k b s' := by
  rcases hwaits with htodo | ⟨hdue, hb⟩
  · exact Or.inl (h.todo htodo)
  · refine Or.inr ⟨?_, ?_⟩
    · rw [h.next]
      exact hdue.trans h.now
    · have hcard := Finset.card_le_card (h.remaining hdue)
      rw [h.passes]
      omega

/-- What the place of a task depends on. -/
structure SamePlaces (s s' : Background T) : Prop where
  rows : ∀ j, HasRow s'.world j ↔ HasRow s.world j
  cleanup : s'.world.cleanup = s.world.cleanup
  next : s'.nextAttemptAt = s.nextAttemptAt
  now : s.now ≤ s'.now
  deleting : s'.deleting = s.deleting

omit [DecidableEq T] in
theorem SamePlaces.refl (s : Background T) : SamePlaces s s where
  rows _ := Iff.rfl
  cleanup := rfl
  next := rfl
  now := le_refl _
  deleting := rfl

theorem SamePlaces.enter (s : Background T) (t : Option T) (phase : Phase) :
    SamePlaces s (s.enter t phase) where
  rows _ := Iff.rfl
  cleanup := rfl
  next := rfl
  now := le_refl _
  deleting := rfl

omit [DecidableEq T] in
theorem SamePlaces.overtaking (h : SamePlaces s s') (hdue : s.nextAttemptAt k ≤ s.now) :
    s'.overtaking k ⊆ s.overtaking k := by
  refine overtaking_subset (fun j hj _ ↦ (h.rows j).mp hj) ?_ (congrFun h.next k) h.now hdue
  rw [h.deleting]
  exact List.Subset.refl _

omit [DecidableEq T] in
theorem Calm.of_same (h : SamePlaces s s') (hpasses : s'.passes = s.passes)
    (htodo : s'.todo = s.todo) : Calm k s s' where
  todo hk := by rwa [htodo]
  next := by rw [h.next]
  now := h.now
  passes := hpasses
  remaining hdue := by
    refine remaining_subset (fun j hj hnot ↦ ?_) (h.overtaking hdue)
    rw [htodo] at hnot
    rw [mem_before, h.cleanup, time_lt, h.next, ← time_lt, ← mem_before] at hj
    exact ⟨hj, hnot⟩

/-- Where the task of a deleted canvas stands: it is gone, it has been attempted, or it waits. -/
def Pursued (k : ℤ) (c b : ℕ) (s : Background T) : Prop :=
  k ∈ s.world.cleanup → c < s.attemptCount k ∨ c = s.attemptCount k ∧ Waits k b s

omit [DecidableEq T] in
theorem Pursued.calm (h : Pursued k c b s) (hcleanup : k ∈ s'.world.cleanup → k ∈ s.world.cleanup)
    (hcount : s'.attemptCount k = s.attemptCount k)
    (hcalm : k ∈ s'.world.cleanup → Calm k s s') : Pursued k c b s' := by
  intro hk
  rw [hcount]
  exact (h (hcleanup hk)).imp_right fun hwaits ↦ ⟨hwaits.1, (hcalm hk).waits hwaits.2⟩

omit [DecidableEq T] in
theorem Pursued.same (h : Pursued k c b s) (hplaces : SamePlaces s s')
    (hcount : s'.attemptCount = s.attemptCount) (hpasses : s'.passes = s.passes)
    (htodo : s'.todo = s.todo) : Pursued k c b s' := by
  apply h.calm
  · rw [hplaces.cleanup]
    exact id
  · rw [hcount]
  · intro _
    exact .of_same hplaces hpasses htodo

omit [DecidableEq T] in
/-- A pass that passes a task over takes sixteen of the tasks before it. -/
theorem Pursued.due (h : Pursued k c b s) (hinv : Inv s) (hrest : AtRest s) :
    Pursued k c b { s with pending := s.due, passes := s.passes + 1 } := by
  intro hk
  refine (h hk).imp_right fun ⟨hcount, hwaits⟩ ↦ ⟨hcount, ?_⟩
  obtain ⟨hdue, hb⟩ : s.nextAttemptAt k ≤ s.now ∧
      (s.before k ∪ s.overtaking k).card + 16 * s.passes ≤ b := by
    rw [Waits, remaining, hrest.todo, List.toFinset_nil, Finset.sdiff_empty] at hwaits
    exact hwaits.resolve_left List.not_mem_nil
  have htodo :
      ({ s with pending := s.due, passes := s.passes + 1 } : Background T).todo = s.due := by
    rw [todo, hrest.1]
    exact List.append_nil _
  rw [Waits, remaining, htodo]
  by_cases hfirst : k ∈ s.due
  · exact Or.inl hfirst
  · refine Or.inr ⟨hdue, ?_⟩
    have hready : k ∈ s.ready := List.mem_filter.mpr ⟨hk, decide_eq_true hdue⟩
    have hcard := Waiting.card_ahead_sdiff_first s.time_injective hinv.kept.nodup hready
      List.filter_sublist hfirst
    -- a task is of a canvas that is not there
    have hdisjoint : Disjoint (s.before k) (s.overtaking k) := by
      rw [Finset.disjoint_left]
      intro j hj hover
      exact (hinv.kept.gone j (hinv.kept.queued j (mem_before.mp hj).1)).2
        (mem_overtaking.mp hover).1
    have hunion := Finset.card_union_of_disjoint hdisjoint
    have hle := Finset.card_union_le (s.before k \ s.due.toFinset) (s.overtaking k)
    change (s.before k \ s.due.toFinset ∪ s.overtaking k).card + 16 * (s.passes + 1) ≤ b
    change (s.before k \ s.due.toFinset).card + 16 = (s.before k).card at hcard
    omega

theorem Pursued.next (h : Pursued k c b s) {id : ℤ} {rest : List ℤ} (hidle : s.phase none = .idle)
    (hpending : s.pending = id :: rest) :
    Pursued k c b ({ s with pending := rest }.start none id) := by
  have htodo : s.todo = id :: rest := by
    rw [todo, hidle, hpending]
    exact List.append_nil _
  rw [start]
  split
  -- The task moves from the list into the hands of the worker.
  · have hmem (j : ℤ) :
        j ∈ (enter { s with pending := rest } none (.contained id)).todo ↔ j ∈ s.todo := by
      rw [todo_enter_none, htodo]
      exact List.mem_append.trans (or_comm.trans List.mem_append.symm)
    refine h.calm (fun hk ↦ hk) rfl fun _ ↦ ⟨(hmem k).mpr, rfl, le_refl _, rfl, fun hdue ↦
      remaining_subset (fun j hj hnot ↦ ?_) ((SamePlaces.refl s).overtaking hdue)⟩
    exact ⟨hj, fun hin ↦ hnot ((hmem j).mpr hin)⟩
  · next hgone =>
    -- A task that has been completed elsewhere is dropped; no one waits for it.
    have hnot : ∀ j ∈ s.world.cleanup, j ≠ id := by
      rintro j hj rfl
      exact hgone (decide_eq_true hj)
    have hmem : ∀ j ∈ s.world.cleanup,
        (j ∈ (enter { s with pending := rest } none .idle).todo ↔ j ∈ s.todo) := by
      intro j hj
      rw [todo_enter_none, htodo]
      refine (List.mem_append.trans (or_iff_left List.not_mem_nil)).trans ?_
      exact (List.mem_cons.trans (or_iff_right (hnot j hj))).symm
    refine h.calm (fun hk ↦ hk) rfl fun hk ↦ ⟨(hmem k hk).mpr, rfl, le_refl _, rfl, fun hdue ↦
      remaining_subset (fun j hj hout ↦ ?_) ((SamePlaces.refl s).overtaking hdue)⟩
    exact ⟨hj, fun hin ↦ hout ((hmem j (mem_before.mp hj).1).mpr hin)⟩

/-- A worker goes on with its task. -/
theorem Pursued.advance (h : Pursued k c b s) {t : Option T} {phase : Phase}
    (htask : phase.task = (s.phase t).task) : Pursued k c b (s.enter t phase) := by
  refine h.same (.enter s t phase) rfl rfl ?_
  rcases t with _ | t
  · rw [todo_enter_none, htask, todo]
  · exact todo_enter_some s t phase

theorem Pursued.inspect (h : Pursued k c b s) (hinv : Inv s) {t : Option T} {id : ℤ}
    (hphase : s.phase t = .contained id) : Pursued k c b (s.inspect t id) := by
  have hdeleted : id ∈ s.deleted := by
    apply hinv.attended.working t
    rw [hphase]
    rfl
  -- the canvas of a task does not come back
  have habsent : s.existsById id = false := by
    rw [existsById, List.any_eq_false]
    intro row hrow heq
    exact (hinv.kept.gone id hdeleted).2 ⟨row, hrow, of_decide_eq_true heq⟩
  rw [Background.inspect, habsent]
  apply h.advance
  rw [hphase]
  rfl

theorem Pursued.deleteRuntime (h : Pursued k c b s) {t : Option T} {id : ℤ}
    (hphase : s.phase t = .absent id) (deleted : Bool) :
    Pursued k c b (s.deleteRuntime t id deleted) := by
  have hadvance : Pursued k c b (s.enter t (.answered id deleted)) := by
    apply h.advance
    rw [hphase]
    rfl
  exact hadvance

/-- A worker is done with another task. -/
theorem mem_todo_done {t : Option T} {id j : ℤ} {deleted : Bool}
    (hphase : s.phase t = .answered id deleted) (hne : j ≠ id) :
    j ∈ (s.enter t .idle).todo ↔ j ∈ s.todo := by
  rcases t with _ | t
  · rw [todo_enter_none, todo, hphase]
    refine (List.mem_append.trans (or_iff_left List.not_mem_nil)).trans ?_
    refine (or_iff_left ?_).symm.trans List.mem_append.symm
    exact fun hj ↦ hne (List.mem_singleton.mp hj)
  · rw [todo_enter_some]

theorem Pursued.complete (h : Pursued k c b s) {t : Option T} {id : ℤ} {deleted : Bool}
    (hphase : s.phase t = .answered id deleted) :
    Pursued k c b ((s.complete id).enter t .idle) := by
  have hleft : ∀ {j}, j ∈ (s.complete id).world.cleanup → j ∈ s.world.cleanup ∧ j ≠ id := by
    intro j hj
    obtain ⟨hj, hne⟩ := List.mem_filter.mp hj
    exact ⟨hj, of_decide_eq_true hne⟩
  refine h.calm (fun hk ↦ (hleft hk).1) rfl fun hk ↦ ⟨?_, rfl, le_refl _, rfl, fun hdue ↦
    remaining_subset (fun j hj hout ↦ ?_) ((SamePlaces.refl s).overtaking hdue)⟩
  · exact (mem_todo_done (s := s) hphase (hleft hk).2).mpr
  · obtain ⟨hj, hbefore⟩ := mem_before.mp hj
    obtain ⟨hj, hne⟩ := hleft hj
    refine ⟨mem_before.mpr ⟨hj, hbefore⟩, fun hin ↦ hout ?_⟩
    exact (mem_todo_done (s := s) hphase hne).mpr hin

theorem Pursued.retry (h : Pursued k c b s) {t : Option T} {id : ℤ} {deleted : Bool}
    (hphase : s.phase t = .answered id deleted) {time : ℕ} (hsoon : s.now < time + retryDelay) :
    Pursued k c b ((s.retry id time).enter t .idle) := by
  rw [Background.retry]
  split
  · next hcontains =>
    by_cases heq : k = id
    · subst heq
      -- the attempt is counted
      intro hk
      refine Or.inl ?_
      change c < Function.update s.attemptCount k (s.attemptCount k + 1) k
      rw [Function.update_self]
      rcases h hk with hcount | ⟨hcount, -⟩
      · omega
      · omega
    · have hnext : ∀ j ≠ id,
          Function.update s.nextAttemptAt id (time + retryDelay) j = s.nextAttemptAt j :=
        fun j hj ↦ Function.update_of_ne hj _ _
      refine h.calm (fun hk ↦ hk) (Function.update_of_ne heq _ _) fun hk ↦
        ⟨?_, hnext k heq, le_refl _, rfl, fun hdue ↦ remaining_subset (fun j hj hout ↦ ?_) ?_⟩
      · exact (mem_todo_done (s := s) hphase heq).mpr
      · obtain ⟨hj, hbefore⟩ := mem_before.mp hj
        rw [time_lt] at hbefore
        change Function.update s.nextAttemptAt id (time + retryDelay) j
            < Function.update s.nextAttemptAt id (time + retryDelay) k ∨
          Function.update s.nextAttemptAt id (time + retryDelay) j
            = Function.update s.nextAttemptAt id (time + retryDelay) k ∧ j < k at hbefore
        rw [hnext k heq] at hbefore
        -- the retried task is behind the one that is due
        have hne : j ≠ id := by
          rintro rfl
          rw [Function.update_self] at hbefore
          omega
        rw [hnext j hne, ← time_lt] at hbefore
        refine ⟨mem_before.mpr ⟨hj, hbefore⟩, fun hin ↦ hout ?_⟩
        exact (mem_todo_done (s := s) hphase hne).mpr hin
      · exact overtaking_subset (fun j hj _ ↦ hj) (List.Subset.refl _) (hnext k heq) (le_refl _)
          hdue
  · next hgone =>
    have hne : ∀ j ∈ s.world.cleanup, j ≠ id := by
      rintro j hj rfl
      exact hgone (decide_eq_true hj)
    refine h.calm (fun hk ↦ hk) rfl fun hk ↦ ⟨?_, rfl, le_refl _, rfl, fun hdue ↦
      remaining_subset (fun j hj hout ↦ ?_) ((SamePlaces.refl s).overtaking hdue)⟩
    · exact (mem_todo_done (s := s) hphase (hne k hk)).mpr
    · have hmem := mem_todo_done (s := s) hphase (hne j (mem_before.mp hj).1)
      exact ⟨hj, fun hin ↦ hout (hmem.mpr hin)⟩

omit [DecidableEq T] in
/-- A deletion that commits puts its task where it has been expected. -/
theorem Pursued.deleteCanvas (h : Pursued k c b s) (hinv : Inv s) (hk : k ∈ s.deleted)
    (outcome : Outcome) {id : ℤ} {time : ℕ} (user : Option User)
    (hdeleting : (id, time) ∈ s.deleting) :
    Pursued k c b (s.deleteCanvas es outcome id time user) := by
  have hfewer : s.deleting.erase (id, time) ⊆ s.deleting := List.erase_subset
  rw [Background.deleteCanvas]
  obtain ⟨index, ⟨hrow, hrun⟩ | ⟨e, hrun⟩⟩ := @deleteCanvas_cases es outcome id user s.world
  · rw [hrun]
    have heq : k ≠ id := by
      rintro rfl
      exact (hinv.kept.gone k hk).2 hrow
    have hnext : ∀ j ≠ id, Function.update s.nextAttemptAt id time j = s.nextAttemptAt j :=
      fun j hj ↦ Function.update_of_ne hj _ _
    have hcleanup : ∀ j ≠ id, j ∈ s.world.cleanup ++ [id] → j ∈ s.world.cleanup := by
      intro j hj hmem
      exact (List.mem_append.mp hmem).resolve_right fun h ↦ hj (List.mem_singleton.mp h)
    refine h.calm (hcleanup k heq) (Function.update_of_ne heq _ _) fun _ ↦
      ⟨fun hin ↦ hin, hnext k heq, le_refl _, rfl, fun hdue ↦ Finset.union_subset ?_ ?_⟩
    · intro j hj
      rw [Finset.mem_sdiff, List.mem_toFinset] at hj
      obtain ⟨hj, hout⟩ := hj
      obtain ⟨hj, hbefore⟩ := mem_before.mp hj
      rw [time_lt] at hbefore
      change Function.update s.nextAttemptAt id time j < Function.update s.nextAttemptAt id time k ∨
        Function.update s.nextAttemptAt id time j = Function.update s.nextAttemptAt id time k ∧
          j < k at hbefore
      rw [hnext k heq] at hbefore
      by_cases hne : j = id
      · subst hne
        rw [Function.update_self] at hbefore
        exact Finset.mem_union_right _ (mem_overtaking.mpr
          ⟨hrow, Or.inl ⟨(j, time), hdeleting, rfl, Prod.Lex.toLex_lt_toLex.mpr hbefore⟩⟩)
      · rw [hnext j hne, ← time_lt] at hbefore
        refine Finset.mem_union_left _ (Finset.mem_sdiff.mpr
          ⟨mem_before.mpr ⟨hcleanup j hne hj, hbefore⟩, fun hin ↦ hout ?_⟩)
        exact List.mem_toFinset.mp hin
    · refine Finset.Subset.trans ?_ Finset.subset_union_right
      refine overtaking_subset (fun j hj _ ↦ ?_) hfewer (hnext k heq) (le_refl _) hdue
      exact (hasRow_withoutCanvas.mp hj).1
  · rw [hrun]
    refine h.calm (fun hk ↦ hk) rfl fun _ ↦ ⟨fun hin ↦ hin, rfl, le_refl _, rfl, fun hdue ↦
      remaining_subset (fun j hj hout ↦ ⟨hj, hout⟩) ?_⟩
    exact overtaking_subset (fun j hj _ ↦ hj) hfewer rfl (le_refl _) hdue

omit [DecidableEq T] in
/-- A deletion that begins when a task is due stays behind it. -/
theorem Pursued.enqueue (h : Pursued k c b s) (id : ℤ) : Pursued k c b (s.enqueue id) := by
  refine h.calm (fun hk ↦ hk) rfl fun _ ↦ ⟨fun hin ↦ hin, rfl, le_refl _, rfl, fun hdue ↦
    remaining_subset (fun j hj hout ↦ ⟨hj, hout⟩) fun j hj ↦ ?_⟩
  obtain ⟨hrow, ⟨d, hd, hid, hlt⟩ | hnow⟩ := mem_overtaking.mp hj
  · rcases List.mem_append.mp hd with hd | hd
    · exact mem_overtaking.mpr ⟨hrow, Or.inl ⟨d, hd, hid, hlt⟩⟩
    · -- the clock stands at the time of the task, or it is behind already
      rw [List.mem_singleton.mp hd] at hlt
      refine mem_overtaking.mpr ⟨hrow, Or.inr ?_⟩
      rcases Prod.Lex.toLex_lt_toLex.mp hlt with hlt | ⟨heq, hlt⟩
      · exact absurd hlt (Nat.not_lt.mpr hdue)
      · exact ⟨heq.symm, hlt⟩
  · exact mem_overtaking.mpr ⟨hrow, Or.inr hnow⟩

omit [DecidableEq T] in
/-- A new canvas has a number of its own, after that of a task. -/
theorem Pursued.create (h : Pursued k c b s) (hinv : Inv s) (hk : k ∈ s.deleted)
    (outcome : Outcome) (request : CreateCanvasRequest) (user : Option User) :
    Pursued k c b { s with world := (createCanvas es outcome request user s.world).2 } := by
  have hcleanup : (createCanvas es outcome request user s.world).2.cleanup = s.world.cleanup := by
    obtain ⟨index, hw | hw | hw⟩ := @createCanvas_cases es outcome request user s.world
    all_goals exact (congrArg World.cleanup hw).trans rfl
  have hrows : ∀ j, HasRow (createCanvas es outcome request user s.world).2 j →
      HasRow s.world j ∨ j = s.world.nextId := by
    intro j hj
    obtain ⟨index, hw | hw | hw⟩ := @createCanvas_cases es outcome request user s.world
    · rw [hw] at hj
      exact Or.inl hj
    · rw [hw] at hj
      exact Or.inl hj
    · rw [hw] at hj
      exact (hasRow_withCanvas j).mp hj
  refine h.calm (fun hk ↦ hcleanup ▸ hk) rfl fun _ ↦ ⟨fun hin ↦ hin, rfl, le_refl _, rfl,
    fun hdue ↦ remaining_subset (fun j hj hout ↦ ⟨?_, hout⟩) ?_⟩
  · obtain ⟨hj, hbefore⟩ := mem_before.mp hj
    exact mem_before.mpr ⟨hcleanup ▸ hj, hbefore⟩
  · refine overtaking_subset (fun j hj hbelow ↦ ?_) (List.Subset.refl _) rfl (le_refl _) hdue
    rcases hrows j hj with hrow | rfl
    · exact hrow
    · rcases hbelow with hlt | ⟨d, hd, hid⟩
      · exact absurd (hlt.trans (hinv.kept.gone k hk).1) (lt_irrefl _)
      · exact absurd (hid ▸ hinv.begun d hd) (lt_irrefl _)

theorem deleted_subset (hstep : Step es s s') : s.deleted ⊆ s'.deleted := by
  cases hstep with
  | deleteCanvas outcome id time user hdeleting =>
    rw [Background.deleteCanvas]
    split
    · exact List.subset_append_left _ _
    · exact List.Subset.refl _
  | retry t id deleted hphase time htime hsoon =>
    obtain ⟨counts, nexts, hretry⟩ := retry_frame s id time
    rw [hretry]
    exact List.Subset.refl _
  | _ => exact List.Subset.refl _

theorem Pursued.step (h : Pursued k c b s) (hinv : Inv s) (hk : k ∈ s.deleted)
    (hstep : Step es s s') : Pursued k c b s' := by
  cases hstep with
  | tick later hlater => exact h.same ⟨fun _ ↦ Iff.rfl, rfl, rfl, hlater, rfl⟩ rfl rfl rfl
  | use rows index hrows =>
    refine h.same ⟨fun j ↦ ?_, rfl, rfl, le_refl _, rfl⟩ rfl rfl rfl
    rw [HasRow, HasRow, ← List.mem_map, ← List.mem_map, hrows]
  | create outcome request user => exact h.create hinv hk outcome request user
  | enqueue id hrow => exact h.enqueue id
  | deleteCanvas outcome id time user hdeleting =>
    exact h.deleteCanvas hinv hk outcome user hdeleting
  | due hidle hpending => exact h.due hinv ⟨hidle, hpending⟩
  | next id rest hidle hpending => exact h.next hidle hpending
  | start t id hidle => exact h.same (.enter s _ _) rfl rfl (todo_enter_some s t _)
  | inspect t id hphase => exact h.inspect hinv hphase
  | deleteRuntime t id hphase deleted => exact h.deleteRuntime hphase deleted
  | complete t id hphase => exact h.complete hphase
  | retry t id deleted hphase time htime hsoon => exact h.retry hphase hsoon
  | abandon t => exact h.same (.enter s _ _) rfl rfl (todo_enter_some s t _)

/-- Steps one after the other, none of which stops a pass. -/
abbrev Steps (es : Elasticsearch) : Background T → Background T → Prop :=
  Relation.ReflTransGen (Step es)

theorem Pursued.steps (h : Pursued k c b s) (hinv : Inv s) (hk : k ∈ s.deleted)
    (hsteps : Steps es s s') : Pursued k c b s' := by
  have hall : Inv s' ∧ k ∈ s'.deleted ∧ Pursued k c b s' := by
    induction hsteps with
    | refl => exact ⟨hinv, hk, h⟩
    | tail _ hstep ih =>
      obtain ⟨hinv, hk, h⟩ := ih
      exact ⟨hinv.step hstep, deleted_subset hstep hk, h.step hinv hk hstep⟩
  exact hall.2.2

/-- **No task is passed over for long.** Between two moments at rest, with passes that are not
stopped, a task that is due at the first is done or attempted by the second, as soon as the passes
are one more than a sixteenth of the tasks that are before it, or will be when the deletions under
way commit. Later deletions, other workers and failing requests do not delay it. -/
theorem attempted_in_time (h : Reachable es s) (hrest : AtRest s) (hk : k ∈ s.world.cleanup)
    (hdue : s.nextAttemptAt k ≤ s.now) (hsteps : Steps es s s') (hrest' : AtRest s')
    (hpasses : s.passes + (s.before k ∪ s.overtaking k).card / 16 + 1 ≤ s'.passes) :
    k ∉ s'.world.cleanup ∨ s.attemptCount k < s'.attemptCount k := by
  have hinv := h.inv
  have hstart : Pursued k (s.attemptCount k)
      ((s.before k ∪ s.overtaking k).card + 16 * s.passes) s := by
    refine fun _ ↦ Or.inr ⟨rfl, Or.inr ⟨hdue, ?_⟩⟩
    rw [remaining, hrest.todo, List.toFinset_nil, Finset.sdiff_empty]
  have hend := hstart.steps hinv (hinv.kept.queued k hk) hsteps
  by_cases hleft : k ∈ s'.world.cleanup
  · refine Or.inr ((hend hleft).resolve_right ?_)
    rintro ⟨-, hwaits⟩
    rw [Waits, hrest'.todo] at hwaits
    -- every pass left sixteen tasks less before it
    obtain ⟨-, hb⟩ := hwaits.resolve_left List.not_mem_nil
    omega
  · exact Or.inl hleft

/-- A canvas is being deleted. -/
def deletingCanvas : Background Unit :=
  enqueue
    { world := (createCanvas plainElasticsearch {} { canvasName := some "notes" } ada {}).2 } 1

/-- A canvas has been deleted, some time ago. -/
def deletedCanvas : Background Unit :=
  { deletingCanvas.deleteCanvas plainElasticsearch {} 1 0 ada with now := 1 }

theorem reachable_deletedCanvas : Reachable plainElasticsearch deletedCanvas := by
  have hcreated : Reachable plainElasticsearch deletingCanvas :=
    (Reachable.start.step (.create _ {} { canvasName := some "notes" } ada)).step
      (.enqueue _ 1 ⟨{ canvasId := 1 }, by decide +kernel, rfl⟩)
  exact (hcreated.step (.deleteCanvas _ {} 1 0 ada (by decide +kernel))).step
    (.tick _ 1 (by decide +kernel))

/-- A worker whose request fails. -/
def failedRequest : Background Unit :=
  ((((deletedCanvas.start (some ()) 1).inspect (some ()) 1).deleteRuntime (some ()) 1 false).retry
    1 1).enter (some ()) .idle

theorem failed_request_accounted :
    (1 ∈ failedRequest.deleted ∧ ¬HasRow failedRequest.world 1) ∧
      (1 ∈ failedRequest.world.cleanup ∨ 1 ∈ failedRequest.removed) := by
  have hreachable : Reachable plainElasticsearch failedRequest :=
    (((reachable_deletedCanvas.step (.start _ () 1 (by decide +kernel))).step
      (.inspect _ (some ()) 1 (by decide +kernel))).step
      (.deleteRuntime _ (some ()) 1 (by decide +kernel) false)).step
      (.retry _ (some ()) 1 false (by decide +kernel) 1 (by decide +kernel) (by decide +kernel))
  obtain ⟨hasked, hkept, -⟩ := runtimes_accounted hreachable
  exact ⟨hasked 1 (by decide +kernel), hkept 1 (by decide +kernel)⟩

/-- A pass that removes the runtime. -/
def pass : Background Unit :=
  let s := { deletedCanvas with pending := deletedCanvas.due, passes := deletedCanvas.passes + 1 }
  (((({ s with pending := [] }.start none 1).inspect none 1).deleteRuntime none 1 true).complete 1)
    |>.enter none .idle

theorem pass_attempts :
    1 ∉ pass.world.cleanup ∨ deletedCanvas.attemptCount 1 < pass.attemptCount 1 := by
  have hsteps : Steps plainElasticsearch deletedCanvas pass := by
    refine ((((Relation.ReflTransGen.refl.tail (.due _ ?_ ?_)).tail
      (.next _ 1 [] ?_ ?_)).tail (.inspect _ none 1 ?_)).tail
      (.deleteRuntime _ none 1 ?_ true)).tail (.complete _ none 1 ?_)
    all_goals decide +kernel
  exact attempted_in_time reachable_deletedCanvas ⟨by decide +kernel, by decide +kernel⟩
    (by decide +kernel) (by decide +kernel) hsteps ⟨by decide +kernel, by decide +kernel⟩
    (by decide +kernel)

end Passes

end Background

end Canvases

end Agora
