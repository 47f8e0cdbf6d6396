import Agora.Query.CanvasOps

/-!
# A storage with faults

The storage of one canvas: its document, and how the next calls end. A call is answered, or it fails
without an effect, or it has its effect and the reply is lost. A script visits its tables in any
order.
-/

namespace Agora

open Broker

/-- How a call to the storage ends. -/
inductive Fault where
  | answered
  | failed
  | lost
  deriving DecidableEq

/-- A canvas document, and how the next calls end; when the list is used up, they are answered. -/
structure Storage where
  document : Json
  faults : List Fault

/-- An order in which a script visits its tables. -/
structure Visit where
  order : Batch → Batch
  reordered : ∀ batch : Batch, batch.Reordered (order batch)

theorem reordered_refl (batch : Batch) : batch.Reordered batch :=
  ⟨rfl, rfl, rfl, rfl, .refl _, .refl _⟩

def asVisited : Visit := ⟨id, reordered_refl⟩

namespace Storage

variable {α : Type}

/-- How the next call ends. -/
def next (s : Storage) : Fault × Storage :=
  (s.faults.headD .answered, { s with faults := s.faults.tail })

/-- A call that reads. -/
def reading (f : Json → α) : StateM Storage (Option α) := fun s ↦
  match s.next with
  | (.answered, s) => (some (f s.document), s)
  | (_, s) => (none, s)

/-- A script; its answer may be none when it raises an error. -/
def scripted (f : Json → Option α × Json) : StateM Storage (Option α) := fun s ↦
  match s.next with
  | (.answered, s) => ((f s.document).1, { s with document := (f s.document).2 })
  | (.lost, s) => (none, { s with document := (f s.document).2 })
  | (.failed, s) => (none, s)

/-- A write; it fails where there is no place for the value. -/
def writing (f : Json → Option Json) : StateM Storage Bool := fun s ↦
  match s.next, f s.document with
  | (.answered, s), some d => (true, { s with document := d })
  | (.lost, s), some d => (false, { s with document := d })
  | (_, s), _ => (false, s)

/-- Reading changes nothing, and what is read is there. -/
theorem reading_run (f : Json → α) (s : Storage) : ((reading f s).2.document = s.document) ∧
    ∀ a, (reading f s).1 = some a → a = f s.document := by
  unfold reading next
  cases s.faults.headD .answered with
  | answered => exact ⟨rfl, fun a h ↦ (Option.some.inj h).symm⟩
  | failed => exact ⟨rfl, nofun⟩
  | lost => exact ⟨rfl, nofun⟩

/-- A script that is answered has run. -/
theorem scripted_run {f : Json → Option α × Json} {s s' : Storage} {a : α}
    (h : scripted f s = (some a, s')) : f s.document = (some a, s'.document) := by
  unfold scripted next at h
  cases hfault : s.faults.headD .answered with
  | answered =>
    rw [hfault, Prod.mk.injEq] at h
    rw [← h.2]
    exact Prod.ext h.1 rfl
  | failed =>
    rw [hfault] at h
    nomatch h
  | lost =>
    rw [hfault] at h
    nomatch h

/-- What the document may be after a script, however it ends. -/
theorem scripted_document (f : Json → Option α × Json) (s : Storage) :
    (scripted f s).2.document = s.document ∨ (scripted f s).2.document = (f s.document).2 := by
  unfold scripted next
  cases s.faults.headD .answered <;> simp

/-- What the document may be after a write, however it ends. -/
theorem writing_document (f : Json → Option Json) (s : Storage) :
    (writing f s).2.document = s.document ∨ f s.document = some (writing f s).2.document := by
  unfold writing next
  cases s.faults.headD .answered <;> cases f s.document <;> simp

end Storage

/-- Calls that answer nothing. -/
def silentBackend : Backend Storage where
  dumpSize _ := 0
  digest _ := ""
  sha256 _ := ""
  now := pure 0
  nowMillis := pure 0
  getActiveUserId _ _ := pure 0
  getActiveUserIdChecked _ _ := pure none
  getUserHandle _ := pure none
  isCanvasAssignedToServer _ := pure false
  isCanvasAccessAuthorized _ _ _ := pure false
  loadForQuery _ := pure none
  getCanvas _ := pure none
  touchQuery _ := pure ()
  setSettingsRevision _ _ := pure ()
  loadCanvas _ := pure none
  readPath _ _ := pure none
  readBrokerItems _ _ := pure none
  applyBrokerBatch _ _ := pure none
  storeMentionState _ _ _ _ := pure false
  readChatPage _ _ := pure none
  commitChatMessage _ _ _ := pure none
  appendMessage _ _ _ _ := pure false
  storeItem _ _ _ := pure false
  removeItem _ _ := pure false
  replaceItems _ _ := pure false
  flushCanvas _ := pure false
  compareAndSetFields _ _ _ := pure .error
  patchCanvasFields _ _ := pure false
  hashCanvasPassword _ := pure none

variable (base : Backend Storage) (readNumber : String → Option ℚ) (visit : Visit)

/-- The calls about the document of a canvas; the others are left open. -/
def storageBackend : Backend Storage :=
  { base with
    loadCanvas := fun _ ↦ Storage.reading some
    readPath := fun _ keys ↦ Storage.reading fun d ↦ some (.arr (d.find (keys.map .key)).toList)
    readBrokerItems := fun _ ids ↦ Storage.reading fun d ↦
      ids.map fun id ↦ (id, (d.find (itemPath id)).getD .null)
    applyBrokerBatch := fun _ batch ↦ Storage.scripted fun d ↦
      let r := applyBrokerBatch readNumber (visit.order batch) (some d)
      (r.1, r.2.getD d)
    storeItem := fun _ id item ↦ Storage.writing fun d ↦ d.set (itemPath id) item
    removeItem := fun _ id ↦ Storage.writing fun d ↦ some (d.prune fun p ↦ p = itemPath id)
    replaceItems := fun _ items ↦ Storage.writing fun d ↦ d.set itemsPath items
    flushCanvas := fun _ ↦ Storage.writing some }

/-- A storage whose scripts visit their tables as they are. -/
def plainBackend : Backend Storage :=
  storageBackend silentBackend (fun _ ↦ none) ⟨id, fun _ ↦ ⟨rfl, rfl, rfl, rfl, .refl _, .refl _⟩⟩

end Agora
