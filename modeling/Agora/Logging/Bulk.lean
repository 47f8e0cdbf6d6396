import Agora.Query.Rules
import Agora.Delivery.RetryQueue

/-!
# Log events in the log index

The servers write their log events in batches. Each event has a number of its own and is only ever
created: an event that is sent again is already there. So a batch whose reply was lost can be sent
again, and whatever is answered about it, an event is in the index once and as it was first written
(`lookup_createAll`).
-/

namespace Agora

namespace Logging

abbrev Fields := List (String × Json)

/-- A log event, with the number it is stored under. -/
structure LogEvent where
  id : String
  document : Fields
  deriving DecidableEq

/-- The documents of the log index, by their numbers. -/
abbrev Index := List (String × Fields)

/-- The statuses that say that an event is in the index: it was created, or was there. -/
def isStored (status : ℤ) : Bool := status = 200 || status = 201 || status = 409

/-- A status that an event is refused with. -/
structure Refusal where
  status : ℤ
  refused : isStored status = false
  isStatus : 100 ≤ status ∧ status < 600

/-- Create an event, unless it is refused or is there; the answer is its status. -/
def create (event : LogEvent) (verdict : Option Refusal) (index : Index) : ℤ × Index :=
  match verdict with
  | some refusal => (refusal.status, index)
  | none =>
    match index.lookup event.id with
    | some _ => (409, index)
    | none => (201, Assoc.set event.id event.document index)

/-- Create the events of a batch, one after the other. -/
def createAll : List LogEvent → List (Option Refusal) → Index → List ℤ × Index
  | [], _, index => ([], index)
  | event :: batch, verdicts, index =>
    let first := create event (verdicts.headD none) index
    let rest := createAll batch verdicts.tail first.2
    (first.1 :: rest.1, rest.2)

/-! ## Replies -/

/-- What is answered about the events of a batch. -/
def bulkBody (statuses : List ℤ) : Json :=
  .obj [("items", .arr (statuses.map fun status ↦
    .obj [("create", .obj [("status", .int status)])]))]

/-- What is answered to a request that is refused as a whole. -/
def errorBody (status : ℤ) (reason : Json) : Json :=
  .obj [("error", reason), ("status", .int status)]

/-- How a request ends: it does not arrive, or it is refused, or its events are created, and then
the reply may be lost. -/
inductive Exchange where
  | unreachable
  | rejected (status : ℤ) (reason : Json)
  | unanswered (verdicts : List (Option Refusal))
  | answered (status : ℤ) (verdicts : List (Option Refusal))

/-- The reply to a request, if there is one, and the index then. -/
def Exchange.perform (batch : List LogEvent) (index : Index) :
    Exchange → Option (ℤ × Json) × Index
  | .unreachable => (none, index)
  | .rejected status reason => (some (status, errorBody status reason), index)
  | .unanswered verdicts => (none, (createAll batch verdicts index).2)
  | .answered status verdicts =>
    let r := createAll batch verdicts index
    (some (status, bulkBody r.1), r.2)

/-- Every event is in the index, as an item of a reply says. -/
def acceptedItem (item : Json) : Bool :=
  match field? item "create" with
  | some result =>
    match field? result "status" with
    | some (.int status) => isStored (Json.wrap 32 status)
    | _ => false
  | none => false

/-- All events of a batch are in the index, as a reply says. -/
def acceptedBulkResponse (body : Json) (expectedCount : ℕ) : Bool :=
  match field? body "items" with
  | some (.arr items) => items.length = expectedCount && items.all acceptedItem
  | _ => false

theorem acceptedItem_item {status : ℤ} (h : 100 ≤ status ∧ status < 600) :
    acceptedItem (.obj [("create", .obj [("status", .int status)])]) = isStored status := by
  have hwrap : Json.wrap 32 status = status := by
    rw [Json.wrap]
    omega
  simp [acceptedItem, field?_obj, hwrap]

/-- An error is no acceptance. -/
theorem acceptedBulkResponse_errorBody (status : ℤ) (reason : Json) (expectedCount : ℕ) :
    acceptedBulkResponse (errorBody status reason) expectedCount = false := by
  simp [acceptedBulkResponse, errorBody, field?_obj, List.lookup_cons]

/-! ## The index -/

/-- Documents are never replaced. -/
theorem lookup_create_of_isSome {event : LogEvent} {verdict : Option Refusal} {index : Index}
    {id : String} (h : (index.lookup id).isSome) :
    (create event verdict index).2.lookup id = index.lookup id := by
  rw [create.eq_def]
  rcases verdict with _ | refusal
  · rcases hfound : index.lookup event.id with _ | document
    · refine Assoc.lookup_set_of_ne (fun heq ↦ ?_) _ _
      rw [← heq, hfound] at h
      cases h
    · rfl
  · rfl

/-- What is new in the index is the event. -/
theorem lookup_create {event : LogEvent} {verdict : Option Refusal} {index : Index} {id : String}
    {document : Fields} (h : (create event verdict index).2.lookup id = some document) :
    index.lookup id = some document ∨ event.id = id ∧ event.document = document := by
  rw [create.eq_def] at h
  rcases verdict with _ | refusal
  · rcases hfound : index.lookup event.id with _ | found
    · rw [hfound] at h
      by_cases heq : event.id = id
      · subst heq
        rw [Assoc.lookup_set_self] at h
        exact Or.inr ⟨rfl, Option.some.inj h⟩
      · rw [Assoc.lookup_set_of_ne heq] at h
        exact Or.inl h
    · rw [hfound] at h
      exact Or.inl h
  · exact Or.inl h

/-- An event whose status says so is in the index. -/
theorem lookup_create_stored {event : LogEvent} {verdict : Option Refusal} {index : Index}
    (h : isStored (create event verdict index).1) :
    ((create event verdict index).2.lookup event.id).isSome := by
  rw [create.eq_def] at h ⊢
  rcases verdict with _ | refusal
  · rcases hfound : index.lookup event.id with _ | document
    · rw [Assoc.lookup_set_self]
      rfl
    · dsimp only
      rw [hfound]
      rfl
  · rw [refusal.refused] at h
    cases h

theorem isStatus_create {event : LogEvent} {verdict : Option Refusal} {index : Index} :
    100 ≤ (create event verdict index).1 ∧ (create event verdict index).1 < 600 := by
  rw [create.eq_def]
  rcases verdict with _ | refusal
  · rcases hfound : index.lookup event.id with _ | document
    · dsimp only
      omega
    · dsimp only
      omega
  · exact refusal.isStatus

section Batches

variable {batch : List LogEvent} {verdicts : List (Option Refusal)} {index : Index} {id : String}

theorem lookup_createAll_of_isSome (h : (index.lookup id).isSome) :
    (createAll batch verdicts index).2.lookup id = index.lookup id := by
  induction batch generalizing verdicts index with
  | nil => rfl
  | cons event batch ih =>
    have hfirst := @lookup_create_of_isSome event (verdicts.headD none) index id h
    exact (ih (by rwa [hfirst])).trans hfirst

/-- **Creating.** What is new in the index are events of the batch, as they were written. -/
theorem lookup_createAll {document : Fields}
    (h : (createAll batch verdicts index).2.lookup id = some document) :
    index.lookup id = some document ∨
      ∃ event ∈ batch, event.id = id ∧ event.document = document := by
  induction batch generalizing verdicts index with
  | nil => exact Or.inl h
  | cons event batch ih =>
    rcases ih h with hfirst | ⟨other, hother, heq⟩
    · rcases lookup_create hfirst with hold | hnew
      · exact Or.inl hold
      · exact Or.inr ⟨event, List.mem_cons_self, hnew⟩
    · exact Or.inr ⟨other, List.mem_cons_of_mem _ hother, heq⟩

/-- The statuses of a batch are statuses. -/
theorem isStatus_createAll {status : ℤ} (h : status ∈ (createAll batch verdicts index).1) :
    100 ≤ status ∧ status < 600 := by
  induction batch generalizing verdicts index with
  | nil => cases h
  | cons event batch ih =>
    rcases List.mem_cons.mp h with rfl | h
    · exact isStatus_create
    · exact ih h

theorem length_createAll : (createAll batch verdicts index).1.length = batch.length := by
  induction batch generalizing verdicts index with
  | nil => rfl
  | cons event batch ih => exact congrArg (· + 1) ih

/-- A batch all of whose statuses say so is in the index. -/
theorem lookup_createAll_stored (h : ∀ status ∈ (createAll batch verdicts index).1, isStored status)
    {event : LogEvent} (hevent : event ∈ batch) :
    ((createAll batch verdicts index).2.lookup event.id).isSome := by
  induction batch generalizing verdicts index with
  | nil => cases hevent
  | cons first batch ih =>
    obtain ⟨hfirst, hrest⟩ := List.forall_mem_cons.mp h
    rcases List.mem_cons.mp hevent with rfl | hevent
    · have hthere := lookup_create_stored hfirst
      change ((createAll batch verdicts.tail _).2.lookup event.id).isSome
      rwa [lookup_createAll_of_isSome hthere]
    · exact ih hrest hevent

/-- What is accepted is in the index. -/
theorem createAll_accepted {expectedCount : ℕ}
    (h : acceptedBulkResponse (bulkBody (createAll batch verdicts index).1) expectedCount)
    {event : LogEvent} (hevent : event ∈ batch) :
    ((createAll batch verdicts index).2.lookup event.id).isSome := by
  apply lookup_createAll_stored (fun status hstatus ↦ ?_) hevent
  rw [acceptedBulkResponse, bulkBody, field?_obj] at h
  have hall := (Bool.and_eq_true _ _ ▸ h).2
  have hitem := List.all_eq_true.mp hall _ (List.mem_map_of_mem hstatus)
  rw [acceptedItem_item (isStatus_createAll hstatus)] at hitem
  exact hitem

/-! ## Requests -/

variable {exchange : Exchange}

theorem lookup_perform_of_isSome (h : (index.lookup id).isSome) :
    (exchange.perform batch index).2.lookup id = index.lookup id := by
  rcases exchange with _ | ⟨status, reason⟩ | verdicts | ⟨status, verdicts⟩
  · rfl
  · rfl
  · exact lookup_createAll_of_isSome h
  · exact lookup_createAll_of_isSome h

theorem lookup_perform {document : Fields}
    (h : (exchange.perform batch index).2.lookup id = some document) :
    index.lookup id = some document ∨
      ∃ event ∈ batch, event.id = id ∧ event.document = document := by
  rcases exchange with _ | ⟨status, reason⟩ | verdicts | ⟨status, verdicts⟩
  · exact Or.inl h
  · exact Or.inl h
  · exact lookup_createAll h
  · exact lookup_createAll h

/-- **Truthful replies.** After a reply that accepts a batch, the batch is in the index. -/
theorem perform_accepted {status : ℤ} {body : Json} {expectedCount : ℕ}
    (hreply : (exchange.perform batch index).1 = some (status, body))
    (h : acceptedBulkResponse body expectedCount) {event : LogEvent} (hevent : event ∈ batch) :
    ((exchange.perform batch index).2.lookup event.id).isSome := by
  rcases exchange with _ | ⟨code, reason⟩ | verdicts | ⟨code, verdicts⟩
  · cases hreply
  · cases hreply
    rw [acceptedBulkResponse_errorBody] at h
    cases h
  · cases hreply
  · cases hreply
    exact createAll_accepted h hevent

end Batches

/-! ## Senders -/

/-- Every delivered event is in the index, where all that is new was recorded. -/
structure Stored (index : Index) (v : RetryQueue.State LogEvent) (current : Index) : Prop where
  known : ∀ id document, current.lookup id = some document →
    index.lookup id = some document ∨
      ∃ event ∈ v.recorded, event.id = id ∧ event.document = document
  stored : ∀ event ∈ v.delivered, (current.lookup event.id).isSome

section Senders

variable {index current : Index} {v w : RetryQueue.State LogEvent}

/-- A sender that writes nothing may record events. -/
theorem Stored.mono (h : Stored index v current) (hdelivered : w.delivered = v.delivered)
    (hrecorded : v.recorded ⊆ w.recorded) : Stored index w current := by
  constructor
  · intro id document hlookup
    exact (h.known id document hlookup).imp_right
      (Exists.imp fun event hevent ↦ ⟨hrecorded hevent.1, hevent.2⟩)
  · intro event hevent
    rw [hdelivered] at hevent
    exact h.stored event hevent

/-- After an attempt the index holds what it held and events of the batch. -/
theorem Stored.perform {exchange : Exchange} (h : Stored index v current)
    (hbatch : ∀ event ∈ v.batch, event ∈ v.recorded) (hrecorded : v.recorded ⊆ w.recorded)
    (hdelivered : ∀ event ∈ w.delivered, event ∈ v.delivered ∨
      ((exchange.perform v.batch current).2.lookup event.id).isSome) :
    Stored index w (exchange.perform v.batch current).2 := by
  constructor
  · intro id document hlookup
    rcases lookup_perform hlookup with hold | ⟨event, hevent, heq⟩
    · exact (h.known id document hold).imp_right
        (Exists.imp fun event hevent ↦ ⟨hrecorded hevent.1, hevent.2⟩)
    · exact Or.inr ⟨event, hrecorded (hbatch event hevent), heq⟩
  · intro event hevent
    rcases hdelivered event hevent with hold | hnew
    · have hthere := h.stored event hold
      rwa [lookup_perform_of_isSome hthere]
    · exact hnew

/-- Where events have numbers of their own, a delivered event is in the index as it was recorded. -/
theorem Stored.lookup_delivered {capacity : ℕ} (h : Stored index v current)
    (hrun : RetryQueue.Run capacity v) (hids : (v.recorded.map LogEvent.id).Nodup)
    (hnew : ∀ event ∈ v.recorded, index.lookup event.id = none) {event : LogEvent}
    (hevent : event ∈ v.delivered) : current.lookup event.id = some event.document := by
  have hrecorded : event ∈ v.recorded := hrun.sublist.subset (List.mem_append_left _ hevent)
  obtain ⟨document, hlookup⟩ := Option.isSome_iff_exists.mp (h.stored event hevent)
  rcases h.known _ _ hlookup with hold | ⟨other, hother, hid, hdocument⟩
  · rw [hnew event hrecorded] at hold
    cases hold
  · -- There is one event of that number.
    obtain rfl := List.inj_on_of_nodup_map hids hother hrecorded hid
    rw [hlookup, hdocument]

/-- The batch that is on its way was recorded. -/
theorem mem_recorded_of_mem_batch {capacity : ℕ} (hrun : RetryQueue.Run capacity v) :
    ∀ event ∈ v.batch, event ∈ v.recorded :=
  fun _ hevent ↦ hrun.sublist.subset (List.mem_append_right _ (List.mem_append_left _ hevent))

end Senders

end Logging

end Agora
