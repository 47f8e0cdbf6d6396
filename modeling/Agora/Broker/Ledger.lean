import Agora.Broker.Script
import Agora.Broker.Staged

/-!
# What the batch script does

A document is read as a board: the revision of the canvas, the receipt of every client, and the
items (`Shows`). On a board a batch is either answered, and nothing changes, or applied, and then
the board moves by `Board.apply` (`Outcome`). `batchScript_spec` says that the script does just
that, in whatever order Lua visits its tables, and leaves every other part of the document alone.
-/

namespace Agora

namespace Broker

open Script

variable {readNumber : String → Option ℚ}

/-! ## Boards -/

structure Receipt where
  count : ℤ
  revision : ℤ
  digest : String
  request : String
  deriving DecidableEq

def Receipt.toJson (r : Receipt) : Json :=
  .obj [("count", .int r.count), ("revision", .int r.revision), ("digest", .str r.digest),
    ("request_id", .str r.request)]

structure Board where
  revision : ℤ
  receipts : String → Option Receipt
  items : String → Option Json

/-- The number of the last batch of a client, 0 before the first. -/
def Board.last (b : Board) (client : String) : ℤ := ((b.receipts client).map Receipt.count).getD 0

/-- A staged value as it is stored: null removes, an object gets the revision. -/
def stamp (revision : ℤ) : Json → Option Json
  | .null => none
  | .obj fields => some (.obj (Assoc.set "__broker_revision" (.int revision) fields))
  | v => some v

def Batch.receipt (batch : Batch) (revision : ℤ) : Receipt :=
  ⟨batch.count, revision, batch.digest, batch.request⟩

/-- The board after a batch is applied. -/
def Board.apply (b : Board) (batch : Batch) : Board where
  revision := b.revision + 1
  receipts := Function.update b.receipts batch.client (some (batch.receipt (b.revision + 1)))
  items id := match batch.items.lookup id with
    | some v => stamp (b.revision + 1) v
    | none => b.items id

theorem Board.receipts_apply (b : Board) (batch : Batch) : (b.apply batch).receipts
    = Function.update b.receipts batch.client (some (batch.receipt (b.revision + 1))) := rfl

/-- The revision the script compares, if the item can be indexed at all. -/
def revisionAt (readNumber : String → Option ℚ) : Option Json → Option ℚ
  | none | some (.bool false) => some (-1)
  | some (.obj fields) => some ((toNumber readNumber (fields.lookup "__broker_revision")).getD 0)
  | some (.arr _) | some (.str _) => some 0
  | _ => none

/-- What the preparation guarantees of a batch: each item once, with an expected revision, and
nothing but objects and removals. -/
structure Batch.Staged (batch : Batch) : Prop where
  nodup : (batch.items.map Prod.fst).Nodup
  expected : ∀ e ∈ batch.items, ∃ w, (e.1, w) ∈ batch.expected
  itemlike : ∀ e ∈ batch.items, Itemlike e.2

/-- How a batch ends on a board with receipts of so many clients. An error that is raised, when an
item cannot be indexed, has no reply and changes nothing either. -/
inductive Outcome (readNumber : String → Option ℚ) (b : Board) (clients : ℕ) (batch : Batch) :
    Option Reply → Board → Prop
  | mismatch (r : Receipt) (receipt : b.receipts batch.client = some r)
      (count : batch.count = r.count)
      (differs : r.digest ≠ batch.digest ∨ r.request ≠ batch.request) :
      Outcome readNumber b clients batch (some (.error "CLIENT_REQUEST_MISMATCH" none)) b
  | duplicate (r : Receipt) (receipt : b.receipts batch.client = some r)
      (count : batch.count = r.count) (digest : r.digest = batch.digest)
      (request : r.request = batch.request) :
      Outcome readNumber b clients batch
        (some (.duplicate (some (.int r.revision)) b.revision r.count)) b
  | gap (unanswered : ∀ r, b.receipts batch.client = some r → batch.count ≠ r.count)
      (count : batch.count ≠ b.last batch.client + 1) :
      Outcome readNumber b clients batch
        (some (.error "CLIENT_SEQUENCE_CONFLICT" (some (b.last batch.client)))) b
  | conflict (count : batch.count = b.last batch.client + 1) (e : String × ℤ)
      (mem : e ∈ batch.expected) (differs : revisionAt readNumber (b.items e.1) ≠ some (e.2 : ℚ)) :
      Outcome readNumber b clients batch (some (.error "CANVAS_WRITE_CONFLICT" none)) b
  | clientLimit (count : batch.count = b.last batch.client + 1)
      (unknown : b.receipts batch.client = none) (full : clientLimit ≤ clients) :
      Outcome readNumber b clients batch (some (.error "CANVAS_CLIENT_LIMIT" none)) b
  | revisionLimit (count : batch.count = b.last batch.client + 1)
      (limit : revisionLimit ≤ b.revision + 1) :
      Outcome readNumber b clients batch (some (.error "CANVAS_REVISION_LIMIT" none)) b
  | raised (count : batch.count = b.last batch.client + 1) (e : String × ℤ)
      (mem : e ∈ batch.expected) (unreadable : revisionAt readNumber (b.items e.1) = none) :
      Outcome readNumber b clients batch none b
  | applied (count : batch.count = b.last batch.client + 1)
      (room : ¬(b.receipts batch.client = none ∧ clientLimit ≤ clients))
      (unchanged : ∀ e ∈ batch.expected, revisionAt readNumber (b.items e.1) = some (e.2 : ℚ))
      (limit : (b.revision : ℚ) + 1 < Broker.revisionLimit) :
      Outcome readNumber b clients batch (some (.applied ((b.revision + 1 : ℤ) : ℚ) batch.count))
        (b.apply batch)

/-! ## Documents -/

/-- The ledger of a document. -/
structure LedgerShown (d : Json) (b : Board) : Prop where
  revision : d.find revisionPath = some (.int b.revision)
  clients : ∃ clients, d.find clientsPath = some (.obj clients)
  receipts : ∀ client, d.find (receiptPath client) = (b.receipts client).map Receipt.toJson

/-- A document without a ledger. -/
structure NoLedger (d : Json) (b : Board) : Prop where
  ledger : d.find ledgerPath = none
  revision : b.revision = 0
  receipts : ∀ client, b.receipts client = none

/-- A document with an object under `items`, read as a board. -/
structure Shows (d : Json) (b : Board) : Prop where
  holder : ∃ fields, d.find itemsPath = some (.obj fields)
  items : ∀ id, d.find (itemPath id) = b.items id
  ledger : NoLedger d b ∨ LedgerShown d b

theorem Shows.receipts {d : Json} {b : Board} (h : Shows d b) (client : String) :
    d.find (receiptPath client) = (b.receipts client).map Receipt.toJson := by
  rcases h.ledger with hnone | hshown
  · rw [hnone.receipts client, show receiptPath client = ledgerPath ++ [.key "clients", .key client]
      from rfl, Json.find_append, hnone.ledger]
    rfl
  · exact hshown.receipts client

/-- The number of clients with a receipt. -/
def clientCount (d : Json) : ℕ :=
  match d.find clientsPath with
  | some (.obj clients) => clients.length
  | _ => 0

/-- A ledger is created where there was none, and nothing else happens. -/
def LedgerCreated (d d' : Json) : Prop :=
  d' = d ∨ d.find ledgerPath = none ∧ d.set ledgerPath emptyLedger = some d'

theorem apart_head {s t : Segment} (hst : s ≠ t) (p q : List Segment) :
    Json.Apart (s :: p) (t :: q) := by
  rw [Json.apart_cons_iff]
  exact Or.inl hst

theorem apart_ledger_items (p q : List Segment) :
    Json.Apart (.key "__broker_sync" :: p) (.key "items" :: q) := apart_head (by decide) p q

theorem ensureLedger_spec {d : Json} {b : Board} (h : Shows d b) :
    ∃ d', ensureLedger d = (.ok (), d') ∧ Shows d' b ∧ LedgerShown d' b ∧ LedgerCreated d d' ∧
      clientCount d' = clientCount d := by
  rcases h.ledger with hnone | hshown
  · obtain ⟨fields, hfields⟩ := h.holder
    obtain ⟨top, htop⟩ := @Json.find_holder [] _ _ _ hfields
    obtain rfl : d = .obj top := Option.some.inj htop
    obtain ⟨d', hset⟩ := Option.isSome_iff_exists.mp
      (Json.set_key_isSome (Json.find_nil (.obj top)) "__broker_sync" emptyLedger)
    have hkeep : ∀ q, d'.find (.key "items" :: q) = (Json.obj top).find (.key "items" :: q) :=
      fun q ↦ Json.find_set_of_apart (apart_ledger_items [] q) hset
    have hbelow : ∀ q, d'.find (.key "__broker_sync" :: q) = emptyLedger.find q :=
      fun q ↦ Json.find_append_set hset q
    have hshown : LedgerShown d' b := by
      refine ⟨?_, ⟨[], hbelow [.key "clients"]⟩, fun client ↦ ?_⟩
      · rw [hnone.revision]
        exact hbelow [.key "revision"]
      · rw [hnone.receipts client]
        exact hbelow [.key "clients", .key client]
    refine ⟨d', ?_, ?_, hshown, Or.inr ⟨hnone.ledger, hset⟩, ?_⟩
    · rw [ensureLedger, Query.bind_run, jsonGet_run, hnone.ledger]
      exact jsonSet_run hset
    · exact ⟨⟨fields, (hkeep []).trans hfields⟩, fun id ↦ (hkeep [.key id]).trans (h.items id),
        Or.inr hshown⟩
    · have hclients : (Json.obj top).find clientsPath = none := by
        rw [show clientsPath = ledgerPath ++ [.key "clients"] from rfl, Json.find_append,
          hnone.ledger]
        rfl
      rw [clientCount, clientCount, hclients, show d'.find clientsPath = some (.obj []) from
        hbelow [.key "clients"]]
      rfl
  · obtain ⟨fields, hfields⟩ := @Json.find_holder ledgerPath _ _ _ hshown.revision
    refine ⟨d, ?_, h, hshown, Or.inl rfl, rfl⟩
    rw [ensureLedger, Query.bind_run, jsonGet_run, hfields]
    rfl

/-! ## Deciding -/

theorem lastCount_run (receipt : Option Receipt) (d : Json) :
    lastCount readNumber (receipt.map Receipt.toJson) d
      = (.ok (((receipt.map Receipt.count).getD 0 : ℤ) : ℚ), d) := by
  cases receipt <;> rfl

theorem answerRetry_run (batch : Batch) (r : Receipt) (last revision : ℚ) (d : Json) :
    answerRetry batch r.toJson last revision d
      = (.ok (if r.digest = batch.digest ∧ r.request = batch.request then
          .duplicate (some (.int r.revision)) revision last
        else .error "CLIENT_REQUEST_MISMATCH" none), d) := by
  have hdigest : luaIndex "digest" r.toJson = pure (some (.str r.digest)) := rfl
  have hrequest : luaIndex "request_id" r.toJson = pure (some (.str r.request)) := rfl
  have hrevision : luaIndex "revision" r.toJson = pure (some (.int r.revision)) := rfl
  rw [answerRetry, Query.bind_run, hdigest, Query.pure_run]
  dsimp only
  rw [Query.bind_run, hrequest, Query.pure_run]
  dsimp only
  have hcond : (some (Json.str r.digest) ≠ some (.str batch.digest) ∨
      some (Json.str r.request) ≠ some (.str batch.request)) ↔
        ¬(r.digest = batch.digest ∧ r.request = batch.request) := by simp [imp_iff_not_or]
  by_cases h : r.digest = batch.digest ∧ r.request = batch.request
  · rw [if_pos h, if_neg (not_not.mpr h ∘ hcond.mp), Query.bind_run, hrevision]
    rfl
  · rw [if_neg h, if_pos (hcond.mpr h)]
    rfl

theorem storedRevision_run (v : Option Json) (d : Json) :
    storedRevision readNumber v d = match revisionAt readNumber v with
      | some q => (.ok q, d)
      | none => (.error (.threw .other), d) := by
  rcases v with _ | v
  · rfl
  · rcases v with _ | b | _ | _ | _ | _ | _
    case bool => cases b <;> rfl
    all_goals rfl

/-- Comparing revisions reads only, and finds what there is. -/
theorem conflicts_spec (readNumber : String → Option ℚ) (expected : List (String × ℤ))
    (d : Json) :
    (conflicts readNumber expected d).2 = d ∧
      ((conflicts readNumber expected d).1 = .ok false → ∀ e ∈ expected,
        revisionAt readNumber (d.find (itemPath e.1)) = some (e.2 : ℚ)) ∧
      ((conflicts readNumber expected d).1 = .ok true → ∃ e ∈ expected,
        revisionAt readNumber (d.find (itemPath e.1)) ≠ some (e.2 : ℚ)) ∧
      ∀ halt, (conflicts readNumber expected d).1 = .error halt → ∃ e ∈ expected,
        revisionAt readNumber (d.find (itemPath e.1)) = none := by
  induction expected with
  | nil => exact ⟨rfl, fun _ ↦ nofun, fun h ↦ by simp [conflicts] at h, nofun⟩
  | cons e expected ih =>
    obtain ⟨id, wanted⟩ := e
    have hrun : conflicts readNumber ((id, wanted) :: expected) d
        = match revisionAt readNumber (d.find (itemPath id)) with
          | some q => if q ≠ wanted then (.ok true, d) else conflicts readNumber expected d
          | none => (.error (.threw .other), d) := by
      rw [conflicts, Query.bind_run, jsonGet_run]
      dsimp only
      rw [Query.bind_run, storedRevision_run]
      cases revisionAt readNumber (d.find (itemPath id)) with
      | none => rfl
      | some q =>
        dsimp only
        split <;> rfl
    rw [hrun]
    cases hat : revisionAt readNumber (d.find (itemPath id)) with
    | none => exact ⟨rfl, nofun, nofun, fun _ _ ↦ ⟨(id, wanted), List.mem_cons_self, hat⟩⟩
    | some q =>
      dsimp only
      by_cases hq : q = wanted
      · rw [if_neg (not_not.mpr hq)]
        refine ⟨ih.1, fun hok e he ↦ ?_, fun hok ↦ ?_, fun halt herror ↦ ?_⟩
        · rcases List.mem_cons.mp he with rfl | he
          · rw [hat, hq]
          · exact ih.2.1 hok e he
        · obtain ⟨e, he, hne⟩ := ih.2.2.1 hok
          exact ⟨e, List.mem_cons_of_mem _ he, hne⟩
        · obtain ⟨e, he, hnone⟩ := ih.2.2.2 halt herror
          exact ⟨e, List.mem_cons_of_mem _ he, hnone⟩
      · rw [if_pos hq]
        refine ⟨rfl, nofun, fun _ ↦ ⟨(id, wanted), List.mem_cons_self, ?_⟩, nofun⟩
        rw [hat]
        exact fun h ↦ hq (Option.some.inj h)

theorem clientsFull_run {d : Json} {b : Board} (h : LedgerShown d b) (client : String) :
    clientsFull ((b.receipts client).map Receipt.toJson) d
      = (.ok (decide (b.receipts client = none ∧ clientLimit ≤ clientCount d)), d) := by
  obtain ⟨clients, hclients⟩ := h.clients
  have hcount : clientCount d = clients.length := by rw [clientCount, hclients]
  cases hreceipt : b.receipts client with
  | some r =>
    simp only [reduceCtorEq, false_and, decide_false]
    rfl
  | none =>
    have hget : jsonGet clientsPath d = (.ok (some (.obj clients)), d) := by
      rw [jsonGet_run, hclients]
    simp only [true_and, hcount]
    exact (Query.bind_of_ok hget _).trans rfl

/-! ## Writing -/

/-- What writing some staged values leaves: the items of the list as staged, everything outside the
items as before. -/
structure Wrote (revision : ℤ) (written : List (String × Json)) (d d' : Json) : Prop where
  holder : ∃ fields, d'.find itemsPath = some (.obj fields)
  items : ∀ id, d'.find (itemPath id) = match written.lookup id with
    | some v => stamp revision v
    | none => d.find (itemPath id)
  elsewhere : ∀ q, (∀ e ∈ written, Json.Apart (itemPath e.1) q) → d'.find q = d.find q

theorem apart_items {id id' : String} (h : id ≠ id') : Json.Apart (itemPath id) (itemPath id') :=
  Json.apart_of_length_eq rfl fun heq ↦ h (by simpa [itemPath] using heq)

theorem apart_receipts {client client' : String} (h : client ≠ client') :
    Json.Apart (receiptPath client) (receiptPath client') :=
  Json.apart_of_length_eq rfl fun heq ↦ h (by simpa [receiptPath] using heq)

theorem apart_revision_clients (p : List Segment) :
    Json.Apart revisionPath (clientsPath ++ p) :=
  Json.apart_cons_iff.mpr (Or.inr (apart_head (by decide) [] p))

theorem itemPath_not_index (id : String) : ∀ r i, itemPath id ≠ r ++ [.index i] := by
  intro r i h
  have hlast := congrArg List.getLast? h
  simp [itemPath] at hlast

theorem writeItem_spec (revision : ℤ) {d : Json} {fields : List (String × Json)}
    (hholder : d.find itemsPath = some (.obj fields)) {e : String × Json} (he : Itemlike e.2) :
    ∃ d', writeItem revision e d = (.ok (), d') ∧ Wrote revision [e] d d' := by
  obtain ⟨id, v⟩ := e
  have hsingle : ∀ id', List.lookup id' [(id, v)] = if id = id' then some v else none := by
    intro id'
    by_cases h : id = id'
    · simp [h]
    · rw [if_neg h, Assoc.lookup_cons_of_ne h]
      rfl
  rcases he with hnull | hobj
  · obtain rfl : v = .null := hnull
    refine ⟨d.prune fun p ↦ p = itemPath id, ?_, ?_, ?_, ?_⟩
    · rw [writeItem, if_pos rfl]
      rfl
    · exact @Json.find_holder_prune itemsPath _ _ hholder id
    · intro id'
      rw [hsingle]
      by_cases h : id = id'
      · rw [if_pos h, ← h]
        exact Json.find_prune_key itemsPath id d
      · rw [if_neg h]
        exact Json.find_prune_of_apart (itemPath_not_index id) (apart_items h) d
    · intro q hq
      exact Json.find_prune_of_apart (itemPath_not_index id) (hq _ List.mem_cons_self) d
  · obtain ⟨entries, rfl⟩ : ∃ entries, v = .obj entries := by
      cases v <;> simp [Json.isObject] at hobj ⊢
    obtain ⟨d₁, (hset₁ : d.set (itemPath id) (.obj entries) = some d₁)⟩ :=
      Option.isSome_iff_exists.mp (@Json.set_key_isSome itemsPath _ _ hholder id (.obj entries))
    have hitem₁ : d₁.find (itemPath id) = some (.obj entries) := Json.find_set_self hset₁
    obtain ⟨d₂, (hset₂ : d₁.set (itemRevisionPath id) (.int revision) = some d₂)⟩ :=
      Option.isSome_iff_exists.mp
        (@Json.set_key_isSome (itemPath id) _ _ hitem₁ "__broker_revision" (.int revision))
    -- the second write is a write of the stamped item at the same place
    have hboth : d₁.set (itemPath id)
        (.obj (Assoc.set "__broker_revision" (.int revision) entries)) = some d₂ := by
      rw [← hset₂]
      exact (Json.set_append hitem₁ [.key "__broker_revision"] (.int revision)).symm
    refine ⟨d₂, ?_, ?_, ?_, ?_⟩
    · rw [writeItem, if_neg (by simp), ofNumber_intCast]
      exact Query.bind_ok.mpr ⟨(), d₁, jsonSet_run hset₁, jsonSet_run hset₂⟩
    · exact @Json.find_holder itemsPath _ _ _ (Json.find_set_self hboth)
    · intro id'
      rw [hsingle]
      by_cases h : id = id'
      · rw [if_pos h, ← h]
        exact Json.find_set_self hboth
      · rw [if_neg h, Json.find_set_of_apart (apart_items h) hboth,
          Json.find_set_of_apart (apart_items h) hset₁]
    · intro q hq
      have hapart := hq _ List.mem_cons_self
      rw [Json.find_set_of_apart hapart hboth, Json.find_set_of_apart hapart hset₁]

/-- Writing a list of values, each item once. -/
theorem writeItems_spec (revision : ℤ) {items : List (String × Json)}
    (hnodup : (items.map Prod.fst).Nodup) (hlike : ∀ e ∈ items, Itemlike e.2) {d : Json}
    (hholder : ∃ fields, d.find itemsPath = some (.obj fields)) :
    ∃ d', items.forM (writeItem revision) d = (.ok (), d') ∧ Wrote revision items d d' := by
  induction items generalizing d with
  | nil => exact ⟨d, rfl, hholder, fun _ ↦ rfl, fun _ _ ↦ rfl⟩
  | cons e items ih =>
    obtain ⟨fields, hfields⟩ := hholder
    rw [List.map_cons, List.nodup_cons] at hnodup
    obtain ⟨d₁, hrun₁, h₁⟩ := writeItem_spec revision hfields (hlike e List.mem_cons_self)
    obtain ⟨d₂, hrun₂, h₂⟩ := ih hnodup.2 (fun e he ↦ hlike e (List.mem_cons_of_mem _ he)) h₁.holder
    refine ⟨d₂, ?_, h₂.holder, ?_, ?_⟩
    · exact Query.bind_ok.mpr ⟨(), d₁, hrun₁, hrun₂⟩
    · intro id
      obtain ⟨id', v⟩ := e
      rw [h₂.items id]
      by_cases hid : id' = id
      · subst hid
        have hnone : items.lookup id' = none := by
          rw [← Option.not_isSome_iff_eq_none, Assoc.lookup_isSome_iff]
          exact hnodup.1
        rw [hnone, List.lookup_cons_self]
        simpa using h₁.items id'
      · rw [Assoc.lookup_cons_of_ne hid]
        cases items.lookup id with
        | some v => rfl
        | none => simpa [Assoc.lookup_cons_of_ne hid] using h₁.items id
    · intro q hq
      rw [h₂.elsewhere q fun e he ↦ hq e (List.mem_cons_of_mem _ he),
        h₁.elsewhere q fun e' he ↦ hq e' (List.mem_singleton.mp he ▸ List.mem_cons_self)]

/-! ## The script -/

/-- What an application leaves alone: every location apart from the ledger and the staged items. -/
def FramesBatch (batch : Batch) (d d' : Json) : Prop :=
  ∀ q, Json.Apart ledgerPath q → (∀ e ∈ batch.items, Json.Apart (itemPath e.1) q) →
    d'.find q = d.find q

theorem commitBatch_spec {batch : Batch} (hstaged : batch.Staged) {d : Json} {b : Board}
    (h : Shows d b) (hledger : LedgerShown d b) :
    ∃ d', commitBatch batch ((b.revision + 1 : ℤ) : ℚ) d
        = (.ok (.applied ((b.revision + 1 : ℤ) : ℚ) batch.count), d') ∧
      Shows d' (b.apply batch) ∧ FramesBatch batch d d' := by
  obtain ⟨d₁, hrun₁, h₁⟩ := writeItems_spec (b.revision + 1) hstaged.nodup
    hstaged.itemlike h.holder
  -- the ledger is away from the items
  have hledger₁ : ∀ p, d₁.find (.key "__broker_sync" :: p) = d.find (.key "__broker_sync" :: p) :=
    fun p ↦ h₁.elsewhere _ fun e _ ↦ (apart_ledger_items p [.key e.1]).symm
  obtain ⟨d₂, hset₂⟩ := Option.isSome_iff_exists.mp (Json.set_isSome_of_find
    (show (d₁.find revisionPath).isSome by
      rw [show d₁.find revisionPath = d.find revisionPath from hledger₁ _, hledger.revision]
      rfl) (.int (b.revision + 1)))
  have hclients : ∃ clients, d₂.find clientsPath = some (.obj clients) := by
    obtain ⟨clients, hclients⟩ := hledger.clients
    refine ⟨clients, ?_⟩
    exact (Json.find_set_of_apart (apart_revision_clients []) hset₂).trans
      ((hledger₁ _).trans hclients)
  obtain ⟨clients, hclients⟩ := hclients
  obtain ⟨d₃, (hset₃ : d₂.set (receiptPath batch.client) (batch.receipt (b.revision + 1)).toJson
    = some d₃)⟩ := Option.isSome_iff_exists.mp (@Json.set_key_isSome clientsPath _ _ hclients
      batch.client (batch.receipt (b.revision + 1)).toJson)
  have hitems₃ : ∀ p, d₃.find (.key "items" :: p) = d₁.find (.key "items" :: p) := by
    intro p
    rw [Json.find_set_of_apart (apart_ledger_items _ p) hset₃,
      Json.find_set_of_apart (apart_ledger_items _ p) hset₂]
  refine ⟨d₃, ?_, ⟨?_, ?_, Or.inr ⟨?_, ?_, ?_⟩⟩, ?_⟩
  · refine Query.bind_ok.mpr ⟨(), d₁, hrun₁, Query.bind_ok.mpr ⟨(), d₂, ?_, ?_⟩⟩
    · rw [ofNumber_intCast]
      exact jsonSet_run hset₂
    · refine Query.bind_ok.mpr ⟨(), d₃, ?_, rfl⟩
      rw [receiptJson, ofNumber_intCast]
      exact jsonSet_run hset₃
  · obtain ⟨fields, hfields⟩ := h₁.holder
    exact ⟨fields, (hitems₃ []).trans hfields⟩
  · intro id
    refine ((hitems₃ [.key id]).trans (h₁.items id)).trans ?_
    rw [h.items id]
    rfl
  · exact (Json.find_set_of_apart (apart_revision_clients [.key batch.client]).symm hset₃).trans
      (Json.find_set_self hset₂)
  · exact @Json.find_holder clientsPath _ _ _ (Json.find_set_self hset₃)
  · intro client
    by_cases hclient : batch.client = client
    · rw [← hclient, Json.find_set_self hset₃]
      simp [Board.apply]
    · have hkept : d₃.find (receiptPath client) = d₂.find (receiptPath client) :=
        Json.find_set_of_apart (apart_receipts hclient) hset₃
      have hkept₂ : d₂.find (receiptPath client) = d₁.find (receiptPath client) :=
        Json.find_set_of_apart (apart_revision_clients [.key client]) hset₂
      refine hkept.trans (hkept₂.trans ((hledger₁ _).trans ((hledger.receipts client).trans ?_)))
      simp [Board.apply, Function.update_of_ne (Ne.symm hclient)]
  · intro q hq hitems
    have hbelow : ∀ p, Json.Apart (.key "__broker_sync" :: p) q := fun p ↦ hq.append_left p
    rw [Json.find_set_of_apart (hbelow _) hset₃, Json.find_set_of_apart (hbelow _) hset₂]
    exact h₁.elsewhere q hitems

theorem LedgerShown.find_ledger {d : Json} {b : Board} (h : LedgerShown d b) :
    d.find ledgerPath ≠ none := by
  obtain ⟨fields, hfields⟩ := @Json.find_holder ledgerPath _ _ _ h.revision
  simp [hfields]

/-- A ledger is created once. -/
theorem LedgerCreated.trans {d d' d'' : Json} {b : Board} (h : LedgerCreated d d')
    (hledger : LedgerShown d' b) (h' : LedgerCreated d' d'') : LedgerCreated d d'' := by
  rcases h' with rfl | ⟨hnone, -⟩
  · exact h
  · exact absurd hnone hledger.find_ledger

theorem LedgerCreated.frames {d d' d'' : Json} {batch : Batch} (h : LedgerCreated d d')
    (h' : FramesBatch batch d' d'') : FramesBatch batch d d'' := by
  intro q hq hitems
  rw [h' q hq hitems]
  rcases h with rfl | ⟨-, hset⟩
  · rfl
  · exact Json.find_set_of_apart hq hset

/-- What a run of the script leaves: the board it ends on, and nothing else touched. -/
structure Ran (readNumber : String → Option ℚ) (b : Board) (batch : Batch) (d : Json)
    (reply : Option Reply) (d' : Json) (b' : Board) : Prop where
  outcome : Outcome readNumber b (clientCount d) batch reply b'
  shows : Shows d' b'
  frame : LedgerCreated d d' ∧ b' = b ∨ FramesBatch batch d d' ∧ b' = b.apply batch

theorem decideBatch_spec {batch : Batch} (hstaged : batch.Staged) {d : Json} {b : Board}
    (h : Shows d b) (hledger : LedgerShown d b)
    (hcount : batch.count = b.last batch.client + 1) :
    ∃ r d' b', decideBatch readNumber batch ((b.receipts batch.client).map Receipt.toJson)
        b.revision d = (r, d') ∧ Ran readNumber b batch d r.toOption d' b' := by
  have hidle : ∀ {reply : Option Reply}, Outcome readNumber b (clientCount d) batch reply b →
      Ran readNumber b batch d reply d b := fun hout ↦ ⟨hout, h, Or.inl ⟨Or.inl rfl, rfl⟩⟩
  obtain ⟨hsame, hclear, hconflict, herror⟩ := conflicts_spec readNumber batch.expected d
  unfold decideBatch
  rcases hc : conflicts readNumber batch.expected d with ⟨halt | conflict, d₁⟩
  · obtain rfl : d₁ = d := by simpa [hc] using hsame
    obtain ⟨e, he, hnone⟩ := herror halt (by rw [hc])
    rw [h.items] at hnone
    exact ⟨_, _, b, Query.bind_of_error hc _, hidle (.raised hcount e he hnone)⟩
  obtain rfl : d₁ = d := by simpa [hc] using hsame
  rw [Query.bind_of_ok hc]
  by_cases hyes : conflict = true
  · subst hyes
    obtain ⟨e, he, hne⟩ := hconflict (by rw [hc])
    rw [h.items] at hne
    exact ⟨_, _, b, rfl, hidle (.conflict hcount e he hne)⟩
  obtain rfl : conflict = false := by simpa using hyes
  have hunchanged : ∀ e ∈ batch.expected, revisionAt readNumber (b.items e.1) = some (e.2 : ℚ) := by
    intro e he
    rw [← h.items]
    exact hclear (by rw [hc]) e he
  rw [if_neg Bool.false_ne_true, Query.bind_of_ok (clientsFull_run hledger batch.client)]
  by_cases hfull : b.receipts batch.client = none ∧ clientLimit ≤ clientCount d₁
  · rw [if_pos (decide_eq_true hfull)]
    exact ⟨_, _, b, rfl, hidle (.clientLimit hcount hfull.1 hfull.2)⟩
  rw [if_neg (by simpa using hfull)]
  by_cases hlimit : Broker.revisionLimit ≤ (b.revision : ℚ) + 1
  · rw [if_pos hlimit]
    exact ⟨_, _, b, rfl, hidle (.revisionLimit hcount hlimit)⟩
  · rw [if_neg hlimit]
    obtain ⟨d', hrun, hshows, hframe⟩ := commitBatch_spec hstaged h hledger
    refine ⟨.ok (.applied ((b.revision + 1 : ℤ) : ℚ) batch.count), d', b.apply batch, ?_,
      .applied hcount hfull hunchanged (not_le.mp hlimit), hshows, Or.inr ⟨hframe, rfl⟩⟩
    rw [← hrun, Int.cast_add, Int.cast_one]

/-- **The script.** Whatever it answers, the document still shows a board: the same one, or the one
on which the batch is applied. -/
theorem applyBrokerBatch_spec (readNumber : String → Option ℚ) {batch : Batch}
    (hstaged : batch.Staged) {d : Json} {b : Board} (h : Shows d b) :
    ∃ reply d' b', applyBrokerBatch readNumber batch (some d) = (reply, some d') ∧
      Ran readNumber b batch d reply d' b' := by
  obtain ⟨d₁, hrun₁, h₁, hledger₁, hcreated, hclients⟩ := ensureLedger_spec h
  have hidle : ∀ {reply : Option Reply}, Outcome readNumber b (clientCount d) batch reply b →
      Ran readNumber b batch d reply d₁ b := fun hout ↦ ⟨hout, h₁, Or.inl ⟨hcreated, rfl⟩⟩
  -- the document from which the script decides
  have hstart : batchScript readNumber batch d
      = (if batch.count = (b.last batch.client : ℚ) ∧
            truthy ((b.receipts batch.client).map Receipt.toJson) then
          answerRetry batch (((b.receipts batch.client).map Receipt.toJson).getD .null)
            (b.last batch.client : ℚ) b.revision
        else if batch.count ≠ (b.last batch.client : ℚ) + 1 then
          pure (.error "CLIENT_SEQUENCE_CONFLICT" (some (b.last batch.client : ℚ)))
        else decideBatch readNumber batch ((b.receipts batch.client).map Receipt.toJson)
          b.revision : Script Reply) d₁ := by
    rw [batchScript, Query.bind_of_ok hrun₁, Query.bind_of_ok (jsonGet_run _ _),
      hledger₁.receipts batch.client, Query.bind_of_ok (lastCount_run _ _),
      Query.bind_of_ok (jsonGet_run _ _), hledger₁.revision]
    rfl
  have hscript : ∀ r d', batchScript readNumber batch d = (r, d') →
      applyBrokerBatch readNumber batch (some d) = (r.toOption, some d') := by
    intro r d' hr
    rw [applyBrokerBatch, hr]
  by_cases hretry : ∃ r, b.receipts batch.client = some r ∧ batch.count = r.count
  · obtain ⟨r, hreceipt, hcount⟩ := hretry
    have hlast : b.last batch.client = r.count := by rw [Board.last, hreceipt]; rfl
    rw [hreceipt, hlast, hcount, if_pos ⟨rfl, rfl⟩] at hstart
    have hanswer := hscript _ _ (hstart.trans (answerRetry_run batch r r.count b.revision d₁))
    by_cases hsame : r.digest = batch.digest ∧ r.request = batch.request
    · rw [if_pos hsame] at hanswer
      exact ⟨_, _, b, hanswer, hidle (.duplicate r hreceipt hcount hsame.1 hsame.2)⟩
    · rw [if_neg hsame] at hanswer
      exact ⟨_, _, b, hanswer, hidle (.mismatch r hreceipt hcount (not_and_or.mp hsame))⟩
  · have hfirst : ¬((batch.count : ℚ) = (b.last batch.client : ℚ) ∧
        truthy ((b.receipts batch.client).map Receipt.toJson)) := by
      rintro ⟨hcount, htruthy⟩
      cases hreceipt : b.receipts batch.client with
      | none => simp [hreceipt, truthy] at htruthy
      | some r =>
        refine hretry ⟨r, hreceipt, ?_⟩
        simpa [Board.last, hreceipt] using hcount
    rw [if_neg hfirst] at hstart
    by_cases hcount : batch.count = b.last batch.client + 1
    · rw [if_neg (by rw [hcount]; push_cast; exact fun h ↦ h rfl)] at hstart
      obtain ⟨r, d', b', hdecide, hran⟩ := decideBatch_spec hstaged h₁ hledger₁ hcount
      refine ⟨_, d', b', hscript _ _ (hstart.trans hdecide), hclients ▸ hran.outcome,
        hran.shows, ?_⟩
      exact hran.frame.imp (fun hsame ↦ ⟨hcreated.trans hledger₁ hsame.1, hsame.2⟩)
        fun happlied ↦ ⟨hcreated.frames happlied.1, happlied.2⟩
    · rw [if_pos (by exact_mod_cast hcount)] at hstart
      exact ⟨_, _, b, hscript _ _ hstart, hidle (.gap (fun r hr hc ↦ hretry ⟨r, hr, hc⟩) hcount)⟩

end Broker

end Agora
