import Agora.Broker.ExactlyOnce

/-!
# A storage that goes back

A replica is promoted that misses recent writes, or a document is loaded again from an older
snapshot, while a receipt that was read before is still at hand. So the receipt a batch is prepared
against need not be the one the script finds.

A receipt is backed when the history of its document contains the request it is for, with the
effects of the operations of that request. `receipts_backed_iff`: receipts are backed, and a request
is answered with ok only when the effects of its own operations are in the history, as long as no
request that repeats the receipt it was prepared against, and for which nothing is staged, meets a
document in which its number is still the next one. There the script applies the empty batch.

A server compares digests and not operations. Of the digests it is used that no two of the requests
have the same one with different operations.
-/

namespace Agora

namespace Broker

variable {readNumber : String → Option ℚ}

/-! ## The history of a document -/

/-- A request on its way, the receipt it was prepared against, and what was staged for it. -/
structure Sent where
  receipt : Json
  request : BatchRequest
  mutation : Mutation

def Sent.batch (sent : Sent) : Batch := batchOf sent.request sent.mutation

/-- What was staged comes from the operations of the request, by reading. -/
def Sent.Prepared (sent : Sent) : Prop :=
  ∃ (σ : Type) (backend : Backend σ) (s s' : σ) (id : ℤ) (groups : List String) (admin : Bool),
    prepareNew backend id groups admin sent.request.operations s = (.ok sent.mutation, s')

/-- A request that was applied, and the documents before and after it. -/
structure Entry where
  sent : Sent
  before : Json
  after : Json

/-- The document has the effects of the operations of the request. -/
structure Entry.Effective (entry : Entry) : Prop where
  prepared : entry.sent.Prepared
  effects : ∃ revision, ∀ id, entry.after.find (itemPath id)
    = match entry.sent.mutation.items.lookup id with
      | some v => stamp revision v
      | none => entry.before.find (itemPath id)

/-- The request of an entry is the one that a receipt is for. -/
structure Entry.For (entry : Entry) (digest : Json → String) (client : String) (r : Receipt) :
    Prop where
  client : entry.sent.request.client = client
  count : entry.sent.request.count = r.count
  request : entry.sent.request.request = r.request
  digest : digest entry.sent.request.operations = r.digest

/-- A document and the requests that were applied on the way to it. -/
structure Stored where
  document : Json
  history : List Entry

/-- The history contains the effects of the operations of a request. -/
def Stored.Contains (st : Stored) (request : BatchRequest) : Prop :=
  ∃ entry ∈ st.history, entry.Effective ∧ entry.sent.request.client = request.client ∧
    entry.sent.request.count = request.count ∧ entry.sent.request.request = request.request ∧
    entry.sent.request.operations = request.operations

/-- No receipt stands for a request that was not applied. -/
def Stored.Backed (st : Stored) (digest : Json → String) : Prop :=
  ∀ client (r : Receipt), st.document.find (receiptPath client) = some r.toJson →
    ∃ entry ∈ st.history, entry.Effective ∧ entry.For digest client r

/-! ## Runs -/

structure Replicas where
  current : Stored
  past : List Stored
  inFlight : List Sent

def Stored.applied (st : Stored) (sent : Sent) (d : Json) : Option Reply → Stored
  | some (.applied _ _) => ⟨d, st.history ++ [⟨sent, st.document, d⟩]⟩
  | _ => ⟨d, st.history⟩

namespace Replicas

inductive Event where
  | prepared (sent : Sent)
  | ran (sent : Sent) (reply : Option Reply) (lost : Bool)
  | wentBack
  | edited

/-- The storage goes on to another document; the one before may come back. -/
def goOn (S : Replicas) (st : Stored) : Replicas :=
  { S with current := st, past := S.current :: S.past }

/-- The servers take the same digest of operations. -/
inductive Step (digest : Json → String) (readNumber : String → Option ℚ) :
    Replicas → Event → Replicas → Prop
  /-- A request is prepared against a receipt that is, or was, stored. -/
  | prepare (S : Replicas) (seen : Stored) {σ : Type} (backend : Backend σ)
      (hdigest : backend.digest = digest) (s s' : σ)
      (a : Admitted) (key : String) (request : BatchRequest) (mutation : Mutation)
      (mem : seen = S.current ∨ seen ∈ S.past)
      (h : stageRequest backend a key (storedReceipt seen.document key) s
        = (.ok (request, mutation), s')) :
      Step digest readNumber S (.prepared ⟨storedReceipt seen.document key, request, mutation⟩)
        { S with inFlight := ⟨storedReceipt seen.document key, request, mutation⟩ :: S.inFlight }
  /-- The script runs. -/
  | run (S : Replicas) (sent : Sent) (batch' : Batch) (reply : Option Reply) (d : Json)
      (lost : Bool) (mem : sent ∈ S.inFlight) (order : sent.batch.Reordered batch')
      (h : applyBrokerBatch readNumber batch' (some S.current.document) = (reply, some d)) :
      Step digest readNumber S (.ran sent reply lost)
        (S.goOn (S.current.applied sent d reply))
  | goBack (S : Replicas) (st : Stored) (mem : st ∈ S.past) :
      Step digest readNumber S .wentBack (S.goOn st)
  /-- Something else changes, but not the ledger. -/
  | edit (S : Replicas) (d : Json) (holder : ∃ fields, d.find itemsPath = some (.obj fields))
      (ledger : ∀ p, d.find (ledgerPath ++ p) = S.current.document.find (ledgerPath ++ p)) :
      Step digest readNumber S .edited (S.goOn ⟨d, S.current.history⟩)

/-- A request repeats the receipt it was prepared against. -/
def Repeats (sent : Sent) : Prop := ∃ r : Receipt, sent.receipt = r.toJson ∧
  sent.request.count = r.count ∧ sent.request.request = r.request ∧
    sent.request.digest = r.digest

/-- A document accepts the next batch of a client, when it is the one with this number and no
revision is in its way. -/
def Accepts (d : Json) (client : String) (count : ℤ) : Prop :=
  ∃ b, Shows d b ∧ count = b.last client + 1 ∧
    ¬(b.receipts client = none ∧ clientLimit ≤ clientCount d) ∧
      (b.revision : ℚ) + 1 < Broker.revisionLimit

/-- No request that repeats its receipt meets a document that accepts its number. -/
def Sound (S : Replicas) (e : Event) : Prop := ∀ sent reply lost, e = .ran sent reply lost →
  ¬(Repeats sent ∧ Accepts S.current.document sent.request.client sent.request.count)

/-- Runs whose steps are sound. -/
inductive SoundRun (digest : Json → String) (readNumber : String → Option ℚ) (start : Json) :
    Replicas → Prop
  | init : SoundRun digest readNumber start ⟨⟨start, []⟩, [], []⟩
  | step {S S' : Replicas} {e : Event} (h : SoundRun digest readNumber start S)
      (hstep : Step digest readNumber S e S') (sound : Sound S e) :
      SoundRun digest readNumber start S'

/-- No two requests that were sent have one digest and different operations. -/
def CollisionFree (digest : Json → String) (S : Replicas) : Prop :=
  ∀ sent ∈ S.inFlight, ∀ sent' ∈ S.inFlight,
    digest sent.request.operations = digest sent'.request.operations →
      sent.request.operations = sent'.request.operations

/-- The answers of the script that are answered with ok. -/
def Ok : Option Reply → Prop
  | some (.applied _ _) | some (.duplicate _ _ _) => True
  | _ => False

/-- A request that is answered with ok has its effects in the history, and so has every request
that a receipt is for. -/
structure Honest (digest : Json → String) (e : Event) (S' : Replicas) : Prop where
  answers : ∀ sent reply lost, e = .ran sent reply lost → Ok reply →
    S'.current.Contains sent.request
  backed : S'.current.Backed digest

end Replicas

/-! ## Boards are determined -/

theorem Receipt.toJson_injective : Function.Injective Receipt.toJson := by
  rintro ⟨count, revision, digest, request⟩ ⟨count', revision', digest', request'⟩ h
  simpa [Receipt.toJson] using h

theorem NoLedger.not_shown {d : Json} {b b' : Board} (h : NoLedger d b) : ¬LedgerShown d b' :=
  fun h' ↦ h'.find_ledger h.ledger

theorem Shows.unique {d : Json} {b b' : Board} (h : Shows d b) (h' : Shows d b') : b = b' := by
  obtain ⟨revision, receipts, items⟩ := b
  obtain ⟨revision', receipts', items'⟩ := b'
  have hitems : items = items' := funext fun id ↦ (h.items id).symm.trans (h'.items id)
  subst hitems
  rcases h.ledger with hnone | hshown
  · have hnone' := h'.ledger.resolve_right hnone.not_shown
    have hrevision : revision = revision' := hnone.revision.trans hnone'.revision.symm
    have hreceipts : receipts = receipts' :=
      funext fun client ↦ (hnone.receipts client).trans (hnone'.receipts client).symm
    rw [hrevision, hreceipts]
  · have hshown' := h'.ledger.resolve_left fun hnone ↦ hnone.not_shown hshown
    have hrevision := hshown.revision.symm.trans hshown'.revision
    rw [Option.some.injEq, Json.int.injEq] at hrevision
    have hreceipts : receipts = receipts' := funext fun client ↦
      Option.map_injective Receipt.toJson_injective
        ((hshown.receipts client).symm.trans (hshown'.receipts client))
    obtain rfl : revision = revision' := hrevision
    rw [hreceipts]

/-- The receipt that is stored. -/
theorem Shows.receipt {d : Json} {b : Board} (h : Shows d b) {client : String} {r : Receipt}
    (hfind : d.find (receiptPath client) = some r.toJson) : b.receipts client = some r := by
  rcases h.ledger with hnone | hshown
  · have hbelow : d.find (ledgerPath ++ [.key "clients", .key client]) = none := by
      rw [Json.find_append, hnone.ledger]
      rfl
    rw [show ledgerPath ++ [.key "clients", .key client] = receiptPath client from rfl, hfind]
      at hbelow
    nomatch hbelow
  · rw [hshown.receipts] at hfind
    exact Option.map_injective Receipt.toJson_injective hfind

/-- The ledger alone decides about revision and receipts. -/
theorem Shows.edit {d d' : Json} {b : Board} (h : Shows d b)
    (hholder : ∃ fields, d'.find itemsPath = some (.obj fields))
    (hledger : ∀ p, d'.find (ledgerPath ++ p) = d.find (ledgerPath ++ p)) :
    Shows d' { b with items := fun id ↦ d'.find (itemPath id) } where
  holder := hholder
  items _ := rfl
  ledger := by
    rcases h.ledger with hnone | hshown
    · exact Or.inl ⟨(hledger []).trans hnone.ledger, hnone.revision, hnone.receipts⟩
    · obtain ⟨clients, hclients⟩ := hshown.clients
      refine Or.inr ⟨(hledger [.key "revision"]).trans hshown.revision, ⟨clients, ?_⟩,
        fun client ↦ ?_⟩
      · exact (hledger [.key "clients"]).trans hclients
      · exact (hledger [.key "clients", .key client]).trans (hshown.receipts client)

/-! ## A batch that was prepared is not empty -/

section NotEmpty

open Query

variable {σ : Type} {I : σ → Prop} {read : String → Query σ (Option Json)}
  {dumpSize : Json → ℕ} {groups : List String} {admin : Bool}

theorem Mutation.stage_ne_nil (result : Mutation) (id : String) (item : Json) :
    (result.stage id item).items ≠ [] := by
  intro h
  have hlookup : (result.stage id item).items.lookup id = some item := by simp [Mutation.stage]
  rw [h] at hlookup
  contradiction

variable (hread : ∀ id, Keeps I (read id))

include hread

theorem translateOne_ne_nil (dx dy : ℚ) (state : Mutation × List String) (value : Json) :
    Yields I (translateOne dumpSize read groups admin dx dy state value) fun r ↦
      r.1.items ≠ [] := by
  refine yields_step fun _ _ ↦ yields_step fun id _ ↦ yields_step fun _ _ ↦ ?_
  refine yields_bind (get_keeps hread _ _).yields fun r _ ↦ ?_
  refine yields_step fun _ _ ↦ yields_step fun _ _ ↦ yields_step fun _ _ ↦ ?_
  refine yields_step fun _ _ ↦ yields_step fun _ _ ↦ yields_step fun _ _ ↦ ?_
  exact yields_step fun _ _ ↦ yields_pure (Mutation.stage_ne_nil _ _ _)

theorem translate_ne_nil (result : Mutation) (operation : Json) :
    Yields I (translate dumpSize read groups admin result operation) fun r ↦ r.items ≠ [] := by
  refine yields_step fun ids _ ↦ yields_step fun _ hids ↦ yields_step fun _ _ ↦ ?_
  refine yields_step fun _ _ ↦ yields_step fun _ _ ↦ yields_step fun dx _ ↦ ?_
  refine yields_step fun _ _ ↦ yields_step fun dy _ ↦ yields_step fun _ _ ↦ ?_
  refine yields_bind (yields_foldlM (P := fun done (r : Mutation × List String) ↦
    done ≠ [] → r.1.items ≠ []) ?_ ids.elements [] (absurd rfl)) fun r hr ↦ ?_
  · intro done state value _
    exact (translateOne_ne_nil hread dx dy state value).mono fun _ h _ ↦ h
  · refine yields_pure (hr ?_)
    have hchecked := Checked.throwIf_ok.mp hids
    simp only [Bool.or_eq_false_iff, decide_eq_false_iff_not] at hchecked
    obtain ⟨⟨harray, hsize⟩, -⟩ := hchecked
    cases ids with
    | arr elements => simpa [Json.elements, Json.size] using hsize
    | _ => simp [Json.isArray] at harray

theorem prepareOperation_ne_nil (result : Mutation) (operation : Json) :
    Yields I (prepareOperation dumpSize read groups admin result operation) fun r ↦
      r.items ≠ [] := by
  refine yields_step fun _ _ ↦ yields_step fun action _ ↦ ?_
  split
  · refine yields_bind (translate_ne_nil hread _ _) fun r hr ↦ yields_step fun _ _ ↦ ?_
    exact yields_pure hr
  · refine yields_step fun id _ ↦ yields_bind (get_keeps hread _ _).yields fun r _ ↦ ?_
    dsimp only
    split
    · refine yields_lift fun r' hr' ↦ ?_
      obtain ⟨_, -, hr'⟩ := Checked.bind_ok.mp hr'
      obtain ⟨_, -, hr'⟩ := Checked.bind_ok.mp hr'
      rw [← Checked.pure_ok.mp hr']
      exact Mutation.stage_ne_nil _ _ _
    · refine yields_lift fun r' hr' ↦ ?_
      unfold storeItem at hr'
      simp only [Checked.bind_ok, Checked.pure_ok] at hr'
      obtain ⟨_, -, _, -, _, -, item, -, _, -, rfl⟩ := hr'
      exact Mutation.stage_ne_nil _ _ _

theorem prepare_ne_nil (operations : Json) :
    Yields I (prepare dumpSize read groups admin operations) fun r ↦ r.items ≠ [] := by
  refine yields_step fun _ hoperations ↦ ?_
  refine yields_bind (yields_foldlM (P := fun done (r : Mutation) ↦ done ≠ [] → r.items ≠ [])
    ?_ operations.elements [] (absurd rfl)) fun result hresult ↦ ?_
  · intro done result operation _
    exact (prepareOperation_ne_nil hread result operation).mono fun _ h _ ↦ h
  · refine yields_bind (keeps_forM (fun e : String × Json ↦
      checkConnector_keeps hread result e.2) _).yields fun _ _ ↦ ?_
    refine yields_step fun _ _ ↦ yields_pure (hresult ?_)
    have hchecked := Checked.throwIf_ok.mp hoperations
    simp only [Bool.or_eq_false_iff, decide_eq_false_iff_not] at hchecked
    obtain ⟨⟨harray, hsize⟩, -⟩ := hchecked
    cases operations with
    | arr elements => simpa [Json.elements, Json.size] using hsize
    | _ => simp [Json.isArray] at harray

end NotEmpty

theorem Sent.Prepared.items_ne_nil {sent : Sent} (h : sent.Prepared) :
    sent.mutation.items ≠ [] := by
  obtain ⟨σ, backend, s, s', id, groups, admin, hrun⟩ := h
  have hyields : Query.Yields (fun _ : σ ↦ True)
      (prepareNew backend id groups admin sent.request.operations) fun r ↦ r.items ≠ [] := by
    refine Query.yields_step fun _ _ ↦ Query.yields_step fun wanted _ ↦ ?_
    refine Query.yields_bind (P := fun _ ↦ True) (fun _ _ _ _ _ ↦ ⟨trivial, trivial⟩) fun _ _ ↦ ?_
    refine Query.yields_bind (P := fun _ ↦ True) (fun _ _ _ _ _ ↦ ⟨trivial, trivial⟩) fun _ _ ↦ ?_
    exact prepare_ne_nil (fun _ _ _ ↦ trivial) _
  exact (hyields s sent.mutation s' trivial hrun).2

/-! ## What is staged -/

/-- Nothing is staged exactly for a request that repeats the receipt it is prepared against. -/
theorem stageRequest_origin {σ : Type} {backend : Backend σ} {s s' : σ} {a : Admitted}
    {key : String} {d : Json} {b : Board} (h : Shows d b) (hsane : b.Sane) {sent : Sent}
    (hreceipt : sent.receipt = storedReceipt d key)
    (hrun : stageRequest backend a key sent.receipt s
      = (.ok (sent.request, sent.mutation), s')) :
    (0 < sent.request.count ∧ sent.request.count < 9007199254740991) ∧
      sent.request.digest = backend.digest sent.request.operations ∧
      ((sent.mutation = {} ∧ Replicas.Repeats sent) ∨
        (sent.Prepared ∧ ¬Replicas.Repeats sent)) := by
  obtain ⟨request, t, hrequest, hrun⟩ := Query.bind_ok.mp hrun
  obtain ⟨mutation, t', hstage, hrun⟩ := Query.bind_ok.mp hrun
  rw [Query.pure_run, Prod.mk.injEq, Except.ok.injEq, Prod.mk.injEq] at hrun
  obtain ⟨⟨rfl, rfl⟩, -⟩ := hrun
  rw [Query.lift_run, Prod.mk.injEq] at hrequest
  obtain ⟨hkey, hcount⟩ := batchRequest_spec hrequest.1
  have hdigest : sent.request.digest = backend.digest sent.request.operations := by
    have hmade := hrequest.1
    simp only [batchRequest, Checked.bind_ok, Checked.pure_ok] at hmade
    obtain ⟨_, -, _, -, heq⟩ := hmade
    rw [← heq]
  refine ⟨hcount, hdigest, ?_⟩
  rw [storedReceipt_eq h] at hreceipt
  obtain ⟨accepted, t₁, haccepted, hstage⟩ := Query.bind_ok.mp hstage
  rw [Query.lift_run, hreceipt, acceptedCount_eq hsane, Prod.mk.injEq, Except.ok.injEq]
    at haccepted
  obtain ⟨rfl, -⟩ := haccepted
  -- a request with the last number is held against the receipt, any other one must be the next
  split at hstage
  · next hrepeated =>
    obtain ⟨_, t₂, hcheck, hstage⟩ := Query.bind_ok.mp hstage
    rw [Query.pure_run, Prod.mk.injEq, Except.ok.injEq] at hstage
    refine Or.inl ⟨hstage.1.symm, ?_⟩
    rw [Query.lift_run, Prod.mk.injEq] at hcheck
    cases hr : b.receipts key with
    | none =>
      rw [hreceipt, hr] at hrepeated
      simp [Json.isNull] at hrepeated
    | some r =>
      have hjson : sent.receipt = r.toJson := by rw [hreceipt, hr]; rfl
      have hd : r.toJson.valueString "digest" "" = .ok r.digest := rfl
      have hq : r.toJson.valueString "request_id" "" = .ok r.request := rfl
      rw [hjson, checkReceipt, hd, hq] at hcheck
      simp only [Checked.bind_ok, Except.ok.injEq, exists_eq_left', Checked.throwIf_ok,
        exists_const, decide_eq_false_iff_not, ne_eq, not_not] at hcheck
      refine ⟨r, hjson, ?_, hcheck.1.2.symm, hcheck.1.1.symm⟩
      rw [hrepeated.1, Board.last, hr]
      rfl
  · obtain ⟨_, t₂, hnext, hstage⟩ := Query.bind_ok.mp hstage
    rw [Query.lift_run, Prod.mk.injEq] at hnext
    have hcount' : sent.request.count = b.last key + 1 := by
      simpa using Checked.throwIf_ok.mp hnext.1
    refine Or.inr ⟨⟨σ, backend, t₂, t', _, _, _, hstage⟩, ?_⟩
    rintro ⟨r, hjson, hc, -⟩
    rw [hreceipt] at hjson
    cases hr : b.receipts key with
    | none =>
      rw [hr] at hjson
      contradiction
    | some r' =>
      rw [hr] at hjson
      obtain rfl : r' = r := Receipt.toJson_injective hjson
      rw [Board.last, hr, Option.map_some, Option.getD_some] at hcount'
      omega

theorem Outcome.duplicate_inv {b b' : Board} {clients : ℕ} {batch : Batch} {revision : Option Json}
    {serverRevision accepted : ℚ}
    (h : Outcome readNumber b clients batch
      (some (.duplicate revision serverRevision accepted)) b') :
    ∃ r, b.receipts batch.client = some r ∧ batch.count = r.count ∧ r.digest = batch.digest ∧
      r.request = batch.request := by
  cases h with
  | duplicate r hr hc hd hq => exact ⟨r, hr, hc, hd, hq⟩

/-! ## Sound runs -/

namespace Replicas

variable {digest : Json → String}

/-- A document whose receipts are backed by its history, which is of requests that were sent. -/
structure Kept (digest : Json → String) (inFlight : List Sent) (st : Stored) (b : Board) :
    Prop where
  shows : Shows st.document b
  sane : b.Sane
  backed : ∀ client r, b.receipts client = some r →
    ∃ entry ∈ st.history, entry.Effective ∧ entry.For digest client r
  bounded : ∀ entry ∈ st.history, entry.sent.request.count ≤ b.last entry.sent.request.client
  sent : ∀ entry ∈ st.history, entry.sent ∈ inFlight

structure Carried (digest : Json → String) (sent : Sent) : Prop where
  staged : sent.batch.Staged
  count : 0 < sent.request.count ∧ sent.request.count < 9007199254740991
  digest : sent.request.digest = digest sent.request.operations
  origin : (sent.mutation = {} ∧ Repeats sent) ∨ (sent.Prepared ∧ ¬Repeats sent)

structure Inv (digest : Json → String) (S : Replicas) : Prop where
  current : ∃ b, Kept digest S.inFlight S.current b
  past : ∀ st ∈ S.past, ∃ b, Kept digest S.inFlight st b
  inFlight : ∀ sent ∈ S.inFlight, Carried digest sent

theorem Kept.isBacked {inFlight : List Sent} {st : Stored} {b : Board}
    (h : Kept digest inFlight st b) : st.Backed digest := fun client r hr ↦
  h.backed client r (h.shows.receipt hr)

theorem Kept.mono {inFlight inFlight' : List Sent} {st : Stored} {b : Board}
    (h : Kept digest inFlight st b) (hsubset : inFlight ⊆ inFlight') :
    Kept digest inFlight' st b :=
  { h with sent := fun entry hmem ↦ hsubset (h.sent entry hmem) }

theorem Inv.goOn {S : Replicas} (h : Inv digest S) {st : Stored} {b : Board}
    (hst : Kept digest S.inFlight st b) : Inv digest (S.goOn st) where
  current := ⟨b, hst⟩
  past := by
    intro st' hmem
    rcases List.mem_cons.mp hmem with rfl | hmem
    · exact h.current
    · exact h.past st' hmem
  inFlight := h.inFlight

theorem carried_of_stage {σ : Type} {backend : Backend σ} (hdigest : backend.digest = digest)
    {s s' : σ} {a : Admitted} {key : String} {inFlight : List Sent} {st : Stored} {b : Board}
    (h : Kept digest inFlight st b) {request : BatchRequest} {mutation : Mutation}
    (hrun : stageRequest backend a key (storedReceipt st.document key) s
      = (.ok (request, mutation), s')) :
    Carried digest ⟨storedReceipt st.document key, request, mutation⟩ := by
  obtain ⟨hcount, hmade, horigin⟩ :=
    @stageRequest_origin σ backend s s' a key st.document b h.shows h.sane
      ⟨storedReceipt st.document key, request, mutation⟩ rfl hrun
  rw [hdigest] at hmade
  exact ⟨(flying_of_stage h.shows h.sane hrun).staged, hcount, hmade, horigin⟩

/-- What a run of the script does to what was sent. -/
theorem ran_of_run {S : Replicas} {b : Board} (h : Kept digest S.inFlight S.current b)
    {sent : Sent} (hsent : Carried digest sent) {batch' : Batch}
    (horder : sent.batch.Reordered batch')
    {reply : Option Reply} {d : Json}
    (hrun : applyBrokerBatch readNumber batch' (some S.current.document) = (reply, some d)) :
    ∃ b', Ran readNumber b sent.batch S.current.document reply d b' := by
  obtain ⟨reply', d', b', hrun', hran⟩ :=
    applyBrokerBatch_spec readNumber (horder.staged hsent.staged) h.shows
  rw [hrun, Prod.mk.injEq, Option.some.injEq] at hrun'
  obtain ⟨rfl, rfl⟩ := hrun'
  refine ⟨b', horder.outcome hsent.staged hran.outcome, hran.shows, ?_⟩
  exact hran.frame.imp_right fun ⟨hframe, hb⟩ ↦
    ⟨horder.frames hframe, hb.trans (horder.apply hsent.staged b)⟩

/-- A request that is applied as it was prepared is kept with its effects. -/
theorem Kept.apply {inFlight : List Sent} {st : Stored} {b : Board}
    (h : Kept digest inFlight st b) {sent : Sent} (hmem : sent ∈ inFlight)
    (hsent : Carried digest sent) (hprepared : sent.Prepared)
    (hcount : sent.request.count = b.last sent.request.client + 1) {d : Json}
    (hshows : Shows d (b.apply sent.batch)) :
    Kept digest inFlight ⟨d, st.history ++ [⟨sent, st.document, d⟩]⟩ (b.apply sent.batch) ∧
      Stored.Contains ⟨d, st.history ++ [⟨sent, st.document, d⟩]⟩ sent.request := by
  have heffective : Entry.Effective ⟨sent, st.document, d⟩ := by
    refine ⟨hprepared, b.revision + 1, fun id ↦ ?_⟩
    rw [hshows.items, h.shows.items]
    rfl
  have hlast : (⟨sent, st.document, d⟩ : Entry) ∈ st.history ++ [⟨sent, st.document, d⟩] :=
    List.mem_append_right _ (List.mem_singleton_self _)
  refine ⟨⟨hshows, h.sane.apply hsent.count, fun client r hr ↦ ?_, fun entry hmem ↦ ?_,
    fun entry hentry ↦ ?_⟩, _, hlast, heffective, rfl, rfl, rfl, rfl⟩
  · rw [Board.receipts_apply, show sent.batch.client = sent.request.client from rfl] at hr
    by_cases hclient : client = sent.request.client
    · subst hclient
      rw [Function.update_self, Option.some.injEq] at hr
      rw [← hr]
      exact ⟨_, hlast, heffective, rfl, rfl, rfl, hsent.digest.symm⟩
    · rw [Function.update_of_ne hclient] at hr
      obtain ⟨entry, hentry, hrest⟩ := h.backed client r hr
      exact ⟨entry, List.mem_append_left _ hentry, hrest⟩
  · rw [Board.last_apply, show sent.batch.client = sent.request.client from rfl,
      show sent.batch.count = sent.request.count from rfl]
    rcases List.mem_append.mp hmem with hmem | hmem
    · have hbound := h.bounded entry hmem
      by_cases hclient : entry.sent.request.client = sent.request.client
      · rw [hclient] at hbound ⊢
        rw [Function.update_self]
        omega
      · rwa [Function.update_of_ne hclient]
    · rw [List.mem_singleton.mp hmem]
      exact (Function.update_self sent.request.client sent.request.count b.last).ge
  · rcases List.mem_append.mp hentry with hentry | hentry
    · exact h.sent entry hentry
    · rw [List.mem_singleton.mp hentry]
      exact hmem

/-- A run of the script that is not applied. -/
theorem Kept.unapplied {inFlight : List Sent} {st : Stored} {b : Board}
    (h : Kept digest inFlight st b) {d : Json} (hshows : Shows d b) :
    Kept digest inFlight ⟨d, st.history⟩ b := ⟨hshows, h.sane, h.backed, h.bounded, h.sent⟩

/-- The entry that a receipt is for is one for every request with the digest of the receipt. -/
theorem Kept.contains {S : Replicas} {st : Stored} {b : Board} (h : Kept digest S.inFlight st b)
    (hfree : CollisionFree digest S) {sent : Sent} (hmem : sent ∈ S.inFlight)
    (hsent : Carried digest sent) {r : Receipt}
    (hr : b.receipts sent.request.client = some r) (hcount : sent.request.count = r.count)
    (hdigest : r.digest = sent.request.digest) (hrequest : r.request = sent.request.request) :
    st.Contains sent.request := by
  obtain ⟨entry, hentry, heffective, hfor⟩ := h.backed sent.request.client r hr
  have hsame : digest entry.sent.request.operations = digest sent.request.operations :=
    hfor.digest.trans (hdigest.trans hsent.digest)
  exact ⟨entry, hentry, heffective, hfor.client, hfor.count.trans hcount.symm,
    hfor.request.trans hrequest, hfree _ (h.sent entry hentry) _ hmem hsame⟩

/-- A batch with no place to store is accepted exactly where its number is the next one. -/
theorem accepts_of_applied {b b' : Board} {d : Json} {sent : Sent} {r : ℚ} {n : ℤ}
    (hshows : Shows d b)
    (hout : Outcome readNumber b (clientCount d) sent.batch (some (.applied r n)) b') :
    Accepts d sent.request.client sent.request.count := by
  cases hout with
  | applied hcount hroom _ hlimit => exact ⟨b, hshows, hcount, hroom, hlimit⟩

theorem applied_of_accepts {b b' : Board} {d : Json} {sent : Sent} {reply : Option Reply}
    (hshows : Shows d b) (hempty : sent.mutation = {})
    (haccepts : Accepts d sent.request.client sent.request.count)
    (hout : Outcome readNumber b (clientCount d) sent.batch reply b') :
    ∃ r n, reply = some (.applied r n) := by
  obtain ⟨b₁, hshows₁, hcount, hroom, hlimit⟩ := haccepts
  obtain rfl := hshows₁.unique hshows
  have hnext : ∀ r, b₁.receipts sent.request.client = some r → sent.request.count ≠ r.count := by
    intro r hr
    rw [Board.last, hr, Option.map_some, Option.getD_some] at hcount
    omega
  have hexpected : sent.batch.expected = [] := by rw [Sent.batch, batchOf, hempty]
  cases hout with
  | mismatch r hr hc => exact absurd hc (hnext r hr)
  | duplicate r hr hc => exact absurd hc (hnext r hr)
  | gap _ hc => exact absurd hcount hc
  | conflict _ e he => simp [hexpected] at he
  | clientLimit _ hu hf => exact absurd ⟨hu, hf⟩ hroom
  | revisionLimit _ hl => exact absurd hlimit (not_lt.mpr hl)
  | raised _ e he => simp [hexpected] at he
  | applied => exact ⟨_, _, rfl⟩

/-- One step of a sound run keeps the invariant. -/
theorem Inv.next {S S' : Replicas} (h : Inv digest S) {e : Event}
    (hstep : Step digest readNumber S e S') (hsound : Sound S e) :
    Inv digest S' ∧ ∀ sent reply lost, e = .ran sent reply lost → Ok reply →
      CollisionFree digest S → S'.current.Contains sent.request := by
  obtain ⟨b, hb⟩ := h.current
  cases hstep with
  | prepare seen backend hdigest s s' a key request mutation hmem hrun =>
    have hseen : ∃ b, Kept digest S.inFlight seen b := by
      rcases hmem with rfl | hmem
      · exact h.current
      · exact h.past seen hmem
    obtain ⟨b₁, hb₁⟩ := hseen
    refine ⟨⟨⟨b, hb.mono (List.subset_cons_self _ _)⟩, fun st hst ↦ ?_, fun sent hsent ↦ ?_⟩,
      nofun⟩
    · obtain ⟨b₂, hb₂⟩ := h.past st hst
      exact ⟨b₂, hb₂.mono (List.subset_cons_self _ _)⟩
    · rcases List.mem_cons.mp hsent with rfl | hsent
      · exact carried_of_stage hdigest hb₁ hrun
      · exact h.inFlight sent hsent
  | goBack st hmem =>
    obtain ⟨b₁, hb₁⟩ := h.past st hmem
    exact ⟨h.goOn hb₁, nofun⟩
  | edit d hholder hledger =>
    have hd : Kept digest S.inFlight ⟨d, S.current.history⟩
        { b with items := fun id ↦ d.find (itemPath id) } :=
      ⟨hb.shows.edit hholder hledger, hb.sane, hb.backed, hb.bounded, hb.sent⟩
    exact ⟨h.goOn hd, nofun⟩
  | run sent batch' reply d lost hmem horder hrun =>
    have hsent := h.inFlight sent hmem
    obtain ⟨b', hran⟩ := ran_of_run hb hsent horder hrun
    -- a batch that is applied was prepared: a repetition would not be accepted here
    by_cases happlied : ∃ r n, reply = some (.applied r n)
    · obtain ⟨r, n, rfl⟩ := happlied
      obtain ⟨rfl, -, -, hcount, -⟩ := hran.outcome.applied_inv
      have hprepared : sent.Prepared := by
        rcases hsent.origin with ⟨-, hrepeats⟩ | ⟨hprepared, -⟩
        · exact absurd ⟨hrepeats, accepts_of_applied hb.shows hran.outcome⟩ (hsound sent _ lost rfl)
        · exact hprepared
      obtain ⟨hkept, hcontains⟩ := hb.apply hmem hsent hprepared hcount hran.shows
      refine ⟨h.goOn hkept, ?_⟩
      rintro sent₁ reply₁ lost₁ hevent - -
      obtain ⟨rfl, -, -⟩ := Event.ran.inj hevent
      exact hcontains
    · -- otherwise the document stays, and an accepted reply is that of a duplicate
      have hother : ∀ r n, reply ≠ some (.applied r n) := fun r n hr ↦ happlied ⟨r, n, hr⟩
      obtain rfl := hran.outcome.unapplied hother
      have hkept := hb.unapplied hran.shows
      have hend : S.current.applied sent d reply = ⟨d, S.current.history⟩ := by
        unfold Stored.applied
        split
        · exact absurd rfl (hother _ _)
        · rfl
      rw [hend]
      refine ⟨h.goOn hkept, ?_⟩
      rintro sent₁ reply₁ lost₁ hevent hok hfree
      obtain ⟨rfl, rfl, -⟩ := Event.ran.inj hevent
      unfold Ok at hok
      split at hok
      · exact absurd rfl (hother _ _)
      · obtain ⟨r, hr, hc, hd, hq⟩ := hran.outcome.duplicate_inv
        exact hkept.contains hfree hmem hsent hr hc hd hq
      · exact absurd hok id

theorem SoundRun.inv {start : Json} {b₀ : Board} (hstart : Shows start b₀)
    (hnone : ∀ client, b₀.receipts client = none) {S : Replicas}
    (h : SoundRun digest readNumber start S) : Inv digest S := by
  induction h with
  | init =>
    have hsane : b₀.Sane := fun client r hr ↦ by simp [hnone] at hr
    exact ⟨⟨b₀, hstart, hsane, fun client r hr ↦ by simp [hnone] at hr, nofun, nofun⟩, nofun,
      nofun⟩
  | step _ hstep hsound ih => exact (ih.next hstep hsound).1

/-- A step that is not sound applies a batch without effects. -/
theorem Inv.dishonest {S S' : Replicas} (h : Inv digest S) {e : Event}
    (hstep : Step digest readNumber S e S') (hunsound : ¬Sound S e) : ¬Honest digest e S' := by
  intro hhonest
  obtain ⟨b, hb⟩ := h.current
  unfold Sound at hunsound
  push Not at hunsound
  obtain ⟨sent, reply, lost, rfl, hrepeats, haccepts⟩ := hunsound
  cases hstep with
  | run _ batch' _ d _ hmem horder hrun =>
    have hsent := h.inFlight sent hmem
    have hempty : sent.mutation = {} := by
      rcases hsent.origin with ⟨hempty, -⟩ | ⟨-, hnot⟩
      · exact hempty
      · exact absurd hrepeats hnot
    obtain ⟨b', hran⟩ := ran_of_run hb hsent horder hrun
    obtain ⟨r, n, rfl⟩ := applied_of_accepts hb.shows hempty haccepts hran.outcome
    obtain ⟨-, -, -, hcount, -⟩ := hran.outcome.applied_inv
    obtain ⟨entry, hentry, heffective, hclient, hsame, -⟩ :=
      hhonest.answers sent _ lost rfl trivial
    rcases List.mem_append.mp hentry with hold | hnew
    · have hbound := hb.bounded entry hold
      have hnext : sent.request.count = b.last sent.request.client + 1 := hcount
      rw [hclient, hsame] at hbound
      omega
    · rw [List.mem_singleton.mp hnew] at heffective
      refine heffective.prepared.items_ne_nil ?_
      change sent.mutation.items = []
      rw [hempty]

/-- **Receipts are backed.** -/
theorem receipts_backed_iff {start : Json} {b₀ : Board} (hstart : Shows start b₀)
    (hnone : ∀ client, b₀.receipts client = none) {S : Replicas}
    (h : SoundRun digest readNumber start S) (hfree : CollisionFree digest S) :
    S.current.Backed digest ∧ (∀ st ∈ S.past, st.Backed digest) ∧
      ∀ e S', Step digest readNumber S e S' → (Honest digest e S' ↔ Sound S e) := by
  have hinv := h.inv hstart hnone
  obtain ⟨b, hb⟩ := hinv.current
  refine ⟨hb.isBacked, fun st hmem ↦ ?_, fun e S' hstep ↦ ⟨fun hhonest ↦ ?_, fun hsound ↦ ?_⟩⟩
  · obtain ⟨b₁, hb₁⟩ := hinv.past st hmem
    exact hb₁.isBacked
  · by_contra hunsound
    exact hinv.dishonest hstep hunsound hhonest
  · obtain ⟨hinv', hanswers⟩ := hinv.next hstep hsound
    obtain ⟨b', hb'⟩ := hinv'.current
    exact ⟨fun sent reply lost hevent hok ↦ hanswers sent reply lost hevent hok hfree,
      hb'.isBacked⟩

/-! ### A receipt without effects -/

/-- Runs with any steps. -/
inductive Run (digest : Json → String) (readNumber : String → Option ℚ) (start : Json) :
    Replicas → Prop
  | init : Run digest readNumber start ⟨⟨start, []⟩, [], []⟩
  | step {S S' : Replicas} {e : Event} (h : Run digest readNumber start S)
      (hstep : Step digest readNumber S e S') : Run digest readNumber start S'

theorem SoundRun.run {start : Json} {S : Replicas} (h : SoundRun digest readNumber start S) :
    Run digest readNumber start S := by
  induction h with
  | init => exact .init
  | step _ hstep _ ih => exact ih.step hstep

def sentCreation : Sent := ⟨.null, stagedCreation.1, stagedCreation.2⟩

/-- The storage after the creation. -/
def createdReplicas : Replicas where
  current := ⟨shapeDocument, [⟨sentCreation, blankDocument, shapeDocument⟩]⟩
  past := [⟨blankDocument, []⟩]
  inFlight := [sentCreation]

theorem createdReplicas_sound :
    SoundRun plainBackend.digest (fun _ ↦ none) blankDocument createdReplicas := by
  have hprepare : Step plainBackend.digest (fun _ ↦ none) ⟨⟨blankDocument, []⟩, [], []⟩
      (.prepared sentCreation) ⟨⟨blankDocument, []⟩, [], [sentCreation]⟩ :=
    .prepare _ ⟨blankDocument, []⟩ plainBackend rfl ⟨blankDocument, []⟩ ⟨blankDocument, []⟩ sender
      "5:tab" stagedCreation.1 stagedCreation.2 (Or.inl rfl) rfl
  have hrun : Step plainBackend.digest (fun _ ↦ none) ⟨⟨blankDocument, []⟩, [], [sentCreation]⟩
      (.ran sentCreation (some (.applied 1 1)) false) createdReplicas := by
    refine .run _ sentCreation creationBatch _ shapeDocument false List.mem_cons_self ?_ ?_
    · exact ⟨rfl, rfl, rfl, rfl, .refl _, .refl _⟩
    · decide +kernel
  refine (SoundRun.init.step hprepare nofun).step hrun ?_
  rintro sent reply lost hevent ⟨⟨r, hreceipt, -⟩, -⟩
  obtain ⟨rfl, -, -⟩ := Event.ran.inj hevent
  nomatch hreceipt

theorem receipts_backed_iff_created :
    createdReplicas.current.Backed plainBackend.digest ∧
      (∀ st ∈ createdReplicas.past, st.Backed plainBackend.digest) ∧
      ∀ e S', Step plainBackend.digest (fun _ ↦ none) createdReplicas e S' →
        (Honest plainBackend.digest e S' ↔ Sound createdReplicas e) :=
  receipts_backed_iff blankDocument_shows (fun _ ↦ rfl) createdReplicas_sound (by
    intro sent hsent sent' hsent' _
    rw [List.mem_singleton.mp hsent, List.mem_singleton.mp hsent'])

/-- The creation, sent again. -/
def sentAgain : Sent := ⟨storedReceipt shapeDocument "5:tab", stagedCreation.1, {}⟩

/-- The creation is sent again, and then the storage goes back. -/
def regressedReplicas : Replicas where
  current := ⟨blankDocument, []⟩
  past := [createdReplicas.current, ⟨blankDocument, []⟩]
  inFlight := [sentAgain, sentCreation]

/-- Nothing is staged for the creation that is sent again. -/
theorem sentAgain_staged : stageRequest plainBackend sender "5:tab"
    (storedReceipt shapeDocument "5:tab") ⟨shapeDocument, []⟩
      = (.ok (stagedCreation.1, {}), ⟨shapeDocument, []⟩) := by
  with_unfolding_all rfl

theorem regressedReplicas_sound :
    SoundRun plainBackend.digest (fun _ ↦ none) blankDocument regressedReplicas := by
  have hprepare : Step plainBackend.digest (fun _ ↦ none) createdReplicas (.prepared sentAgain)
      { createdReplicas with inFlight := [sentAgain, sentCreation] } :=
    .prepare _ createdReplicas.current plainBackend rfl ⟨shapeDocument, []⟩ ⟨shapeDocument, []⟩
      sender "5:tab" stagedCreation.1 {} (Or.inl rfl) sentAgain_staged
  have hback : Step plainBackend.digest (fun _ ↦ none)
      { createdReplicas with inFlight := [sentAgain, sentCreation] } .wentBack regressedReplicas :=
    .goBack _ ⟨blankDocument, []⟩ List.mem_cons_self
  exact (createdReplicas_sound.step hprepare nofun).step hback nofun

/-- The script applies the creation that was sent again as an empty batch. -/
theorem receipt_without_effects : ¬∀ S, Run plainBackend.digest (fun _ ↦ none) blankDocument S →
    CollisionFree plainBackend.digest S → ∀ e S',
      Step plainBackend.digest (fun _ ↦ none) S e S' → Honest plainBackend.digest e S' := by
  intro h
  have hrun : Step plainBackend.digest (fun _ ↦ none) regressedReplicas
      (.ran sentAgain (some (.applied 1 1)) false)
      (regressedReplicas.goOn (regressedReplicas.current.applied sentAgain
        ((applyBrokerBatch (fun _ ↦ none) sentAgain.batch (some blankDocument)).2.getD .null)
        (some (.applied 1 1)))) := by
    refine .run _ sentAgain sentAgain.batch _ _ false List.mem_cons_self ?_ ?_
    · exact ⟨rfl, rfl, rfl, rfl, .refl _, .refl _⟩
    · decide +kernel
  have hinv := regressedReplicas_sound.inv blankDocument_shows fun _ ↦ rfl
  have hfree : CollisionFree plainBackend.digest regressedReplicas := by
    have hsame : ∀ sent ∈ regressedReplicas.inFlight, sent.request = stagedCreation.1 := by
      intro sent hsent
      rcases List.mem_cons.mp hsent with rfl | hsent
      · rfl
      · rw [List.mem_singleton.mp hsent]
        rfl
    intro sent hsent sent' hsent' _
    rw [hsame sent hsent, hsame sent' hsent']
  refine hinv.dishonest hrun ?_ (h _ regressedReplicas_sound.run hfree _ _ hrun)
  intro hsound
  refine hsound sentAgain _ false rfl ⟨⟨⟨1, 1, stagedCreation.1.digest,
    stagedCreation.1.request⟩, ?_, rfl, rfl, rfl⟩, ?_⟩
  · decide +kernel
  · refine ⟨_, blankDocument_shows, rfl, ?_, ?_⟩
    · rintro ⟨-, hfull⟩
      exact absurd hfull (by decide +kernel)
    · decide +kernel

end Replicas

end Broker

end Agora
