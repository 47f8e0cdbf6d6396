import Agora.Broker.Ledger
import Agora.Query.Storage
import Agora.Receipts.Sequence

/-!
# Exactly once

Any number of clients send batches against one document. A batch is prepared from the receipt that
is stored at that moment and from whatever the items are read as, at whatever moments; later, or
never, or more than once, the script runs on it, and the reply may be lost. Preparations and scripts
interleave in any order.

`batches_exactly_once`: what has been applied for a client is an interval of numbers, each once; a
batch with the number, the request id and the digest of a stored receipt is answered as it was then;
whatever is not applied changes nothing but to create the ledger; and a batch is applied only as it
was prepared, at the revisions it was prepared at, with exactly its staged effects.

The proof carries one invariant about what is in flight: a batch for which nothing was staged, since
its receipt was there, has a number that is never accepted again.
-/

namespace Agora

namespace Broker

open Receipts

/-- The receipt as it is read. -/
def storedReceipt (d : Json) (client : String) : Json := (d.find (receiptPath client)).getD .null

/-- The document, the batches in flight, and what has been applied so far. -/
structure System where
  document : Json
  inFlight : List Batch
  log : List (String × ℤ)

inductive Event where
  /-- A request is refused before anything is sent; it may not even be one. -/
  | refused (request : Option BatchRequest) (halt : Halt)
  /-- A request is prepared. -/
  | prepared (request : BatchRequest)
  /-- The script runs; its reply may be lost. -/
  | ran (batch : Batch) (reply : Option Reply) (lost : Bool)

/-- What is in the log after a reply of the script. -/
def logged (log : List (String × ℤ)) (batch : Batch) : Option Reply → List (String × ℤ)
  | some (.applied _ accepted) => log ++ [(batch.client, accepted)]
  | _ => log

inductive Step (readNumber : String → Option ℚ) : System → Event → System → Prop
  | refuse (S : System) {σ : Type} (backend : Backend σ) (s s' : σ) (a : Admitted) (key : String)
      (halt : Halt)
      (h : stageRequest backend a key (storedReceipt S.document key) s = (.error halt, s')) :
      Step readNumber S (.refused (batchRequest backend a key).toOption halt) S
  | prepare (S : System) {σ : Type} (backend : Backend σ) (s s' : σ) (a : Admitted) (key : String)
      (request : BatchRequest) (mutation : Mutation)
      (h : stageRequest backend a key (storedReceipt S.document key) s
        = (.ok (request, mutation), s')) :
      Step readNumber S (.prepared request)
        { S with inFlight := batchOf request mutation :: S.inFlight }
  | run (S : System) (batch batch' : Batch) (reply : Option Reply) (d : Json) (lost : Bool)
      (mem : batch ∈ S.inFlight) (order : batch.Reordered batch')
      (h : applyBrokerBatch readNumber batch' (some S.document) = (reply, some d)) :
      Step readNumber S (.ran batch reply lost)
        { S with document := d, log := logged S.log batch reply }

/-- The systems that runs from a document reach. -/
inductive Reachable (readNumber : String → Option ℚ) (start : Json) : System → Prop
  | init : Reachable readNumber start ⟨start, [], []⟩
  | step {S S' : System} {e : Event} (h : Reachable readNumber start S)
      (hstep : Step readNumber S e S') : Reachable readNumber start S'

/-- A batch as it was prepared from a request, by reading. -/
def Prepared (batch : Batch) : Prop :=
  ∃ (σ : Type) (backend : Backend σ) (s s' : σ) (id : ℤ) (groups : List String) (admin : Bool)
    (request : BatchRequest) (mutation : Mutation),
    prepareNew backend id groups admin request.operations s = (.ok mutation, s') ∧
      batch = batchOf request mutation

/-! ## Batches in other orders -/

variable {readNumber : String → Option ℚ}

theorem Batch.Reordered.staged {batch batch' : Batch} (h : batch.Reordered batch')
    (hstaged : batch.Staged) : batch'.Staged where
  nodup := (h.items.map Prod.fst).nodup_iff.mpr hstaged.nodup
  expected := by
    intro e he
    obtain ⟨w, hw⟩ := hstaged.expected e (h.items.mem_iff.mp he)
    exact ⟨w, h.expected.mem_iff.mpr hw⟩
  itemlike e he := hstaged.itemlike e (h.items.mem_iff.mp he)

theorem Batch.Reordered.apply {batch batch' : Batch} (h : batch.Reordered batch')
    (hstaged : batch.Staged) (b : Board) : b.apply batch' = b.apply batch := by
  have hlookup : ∀ id, batch'.items.lookup id = batch.items.lookup id :=
    Assoc.lookup_perm hstaged.nodup h.items
  simp only [Board.apply, hlookup, Batch.receipt, h.client, h.count, h.digest, h.request]

/-- How a run ends does not depend on the order in which the tables are visited. -/
theorem Batch.Reordered.outcome {batch batch' : Batch} (h : batch.Reordered batch')
    (hstaged : batch.Staged) {b b' : Board} {clients : ℕ} {reply : Option Reply}
    (hout : Outcome readNumber b clients batch' reply b') :
    Outcome readNumber b clients batch reply b' := by
  cases hout with
  | mismatch r hr hc hd =>
    exact .mismatch r (h.client ▸ hr) (h.count ▸ hc) (h.digest ▸ h.request ▸ hd)
  | duplicate r hr hc hd hq =>
    exact .duplicate r (h.client ▸ hr) (h.count ▸ hc) (h.digest ▸ hd) (h.request ▸ hq)
  | gap hu hc =>
    rw [h.client, h.count] at hc
    rw [h.client]
    exact .gap (fun r hr ↦ h.count ▸ hu r (h.client.symm ▸ hr)) hc
  | conflict hc e he hne =>
    rw [h.client, h.count] at hc
    exact .conflict hc e (h.expected.mem_iff.mp he) hne
  | clientLimit hc hu hf =>
    rw [h.client, h.count] at hc
    exact .clientLimit hc (h.client ▸ hu) hf
  | revisionLimit hc hl =>
    rw [h.client, h.count] at hc
    exact .revisionLimit hc hl
  | raised hc e he hnone =>
    rw [h.client, h.count] at hc
    exact .raised hc e (h.expected.mem_iff.mp he) hnone
  | applied hc hr hu hl =>
    rw [h.client, h.count] at hc
    rw [h.client] at hr
    rw [h.count, h.apply hstaged]
    exact .applied hc hr (fun e he ↦ hu e (h.expected.mem_iff.mpr he)) hl

theorem Batch.Reordered.frames {batch batch' : Batch} (h : batch.Reordered batch') {d d' : Json}
    (hframe : FramesBatch batch' d d') : FramesBatch batch d d' := fun q hq hitems ↦
  hframe q hq fun e he ↦ hitems e (h.items.mem_iff.mp he)

/-! ## What is prepared -/

/-- The numbers of the receipts are ones a request may have. -/
def Board.Sane (b : Board) : Prop := ∀ client r, b.receipts client = some r →
  0 < r.count ∧ r.count < 9007199254740991

/-- A request repeats the one its client's receipt is for. -/
def Board.Repeats (b : Board) (request : BatchRequest) : Prop :=
  ∃ r, b.receipts request.client = some r ∧ request.count = r.count ∧
    request.request = r.request ∧ request.digest = r.digest

theorem storedReceipt_eq {d : Json} {b : Board} (h : Shows d b) (client : String) :
    storedReceipt d client = ((b.receipts client).map Receipt.toJson).getD .null := by
  rcases h.ledger with hnone | hshown
  · have hbelow : d.find (receiptPath client) = none := by
      rw [receiptPath, show [Segment.key "__broker_sync", .key "clients", .key client]
        = ledgerPath ++ [.key "clients", .key client] from rfl, Json.find_append, hnone.ledger]
      rfl
    rw [storedReceipt, hbelow, hnone.receipts client]
    rfl
  · rw [storedReceipt, hshown.receipts client]

theorem acceptedCount_eq {b : Board} (hsane : b.Sane) (client : String) :
    acceptedCount (((b.receipts client).map Receipt.toJson).getD .null) = .ok (b.last client) := by
  cases hreceipt : b.receipts client with
  | none => simp [acceptedCount, Json.isNull, Board.last, hreceipt, pure, Except.pure]
  | some r =>
    obtain ⟨hlow, hhigh⟩ := hsane client r hreceipt
    have hlong : acceptedCount r.toJson = .ok (Json.wrap 64 r.count) := rfl
    simp only [Option.map_some, Option.getD_some, Board.last, hreceipt]
    rw [hlong, Json.wrap_64 (by omega) (by omega)]

theorem requestCount_range {event : Json} {count : ℤ} (h : requestCount event = .ok count) :
    0 < count ∧ count < 9007199254740991 := by
  unfold requestCount at h
  simp only [Checked.bind_ok, Checked.throwIf_ok, Checked.pure_ok, exists_const] at h
  obtain ⟨-, _, -, -, _, -, n, -, hrange, rfl⟩ := h
  simpa using hrange

theorem batchRequest_spec {σ : Type} {backend : Backend σ} {a : Admitted} {key : String}
    {request : BatchRequest} (h : batchRequest backend a key = .ok request) :
    request.client = key ∧ 0 < request.count ∧ request.count < 9007199254740991 := by
  unfold batchRequest at h
  simp only [Checked.bind_ok, Checked.pure_ok] at h
  obtain ⟨count, hcount, operations, -, rfl⟩ := h
  exact ⟨rfl, requestCount_range hcount⟩

section Staging

variable {σ : Type} {backend : Backend σ} {s s' : σ} {id : ℤ} {groups : List String}
  {admin : Bool} {d : Json} {b : Board} {request : BatchRequest} {mutation : Mutation}

/-- A batch is prepared against the receipt that is stored: it repeats it and stages nothing, or it
is prepared by reading. -/
theorem stageBatch_cases (h : Shows d b) (hsane : b.Sane)
    (hrun : stageBatch backend id groups admin (storedReceipt d request.client) request s
      = (.ok mutation, s')) :
    (mutation = {} ∧ request.count ≤ b.last request.client) ∨
      prepareNew backend id groups admin request.operations s = (.ok mutation, s') := by
  rw [storedReceipt_eq h] at hrun
  unfold stageBatch at hrun
  obtain ⟨accepted, t, haccepted, hrun⟩ := Query.bind_ok.mp hrun
  rw [Query.lift_run, acceptedCount_eq hsane, Prod.mk.injEq, Except.ok.injEq] at haccepted
  obtain ⟨rfl, rfl⟩ := haccepted
  split at hrun
  · next hcount =>
    obtain ⟨_, _, -, hrun⟩ := Query.bind_ok.mp hrun
    rw [Query.pure_run, Prod.mk.injEq, Except.ok.injEq] at hrun
    exact Or.inl ⟨hrun.1.symm, hcount.1.le⟩
  · obtain ⟨_, t, hlift, hrun⟩ := Query.bind_ok.mp hrun
    rw [Query.lift_run, Prod.mk.injEq] at hlift
    exact Or.inr (hlift.2 ▸ hrun)

/-- A request that repeats the stored receipt is accepted, and stages nothing. -/
theorem stageBatch_repeats (h : Shows d b) (hsane : b.Sane) (hrepeats : b.Repeats request) :
    stageBatch backend id groups admin (storedReceipt d request.client) request s
      = (.ok {}, s) := by
  obtain ⟨r, hreceipt, hcount, hrequest, hdigest⟩ := hrepeats
  have hlast : b.last request.client = r.count := by rw [Board.last, hreceipt]; rfl
  have haccepted := acceptedCount_eq hsane request.client
  rw [hreceipt, hlast] at haccepted
  have hcheck : checkReceipt r.toJson request = .ok () := by
    have hd : r.toJson.valueString "digest" "" = .ok r.digest := rfl
    have hq : r.toJson.valueString "request_id" "" = .ok r.request := rfl
    unfold checkReceipt
    simp [hd, hq, hdigest, hrequest, throwIf, bind, Except.bind, pure, Except.pure]
  rw [storedReceipt_eq h, hreceipt]
  refine (Query.bind_of_ok (t := s) (a := r.count) ?_ _).trans ?_
  · rw [Query.lift_run]
    exact congrArg (·, s) haccepted
  · rw [if_pos ⟨hcount, rfl⟩]
    refine Query.bind_of_ok (t := s) (a := ()) ?_ _
    rw [Query.lift_run]
    exact congrArg (·, s) hcheck

end Staging

theorem Mutation.Traced.staged {σ : Type} {I : σ → Prop} {dumpSize : Json → ℕ}
    {groups : List String} {admin : Bool} {read : String → Query σ (Option Json)}
    {history : String → List Change} {mutation : Mutation}
    (h : mutation.Traced dumpSize groups admin I read history) (request : BatchRequest) :
    (batchOf request mutation).Staged where
  nodup := h.nodup
  expected := by
    intro e he
    obtain ⟨_, revision, -, hrevision, -⟩ := h.of_lookup (Assoc.lookup_of_mem h.nodup he)
    exact ⟨revision, Assoc.mem_of_lookup hrevision⟩
  itemlike := by
    intro e he
    obtain ⟨_, _, -, -, htrace⟩ := h.of_lookup (Assoc.lookup_of_mem h.nodup he)
    exact htrace.itemlike

/-! ## The invariant -/

/-- A batch in flight: its tables are in order, and it either repeats a batch of the past and stages
nothing, or is what was prepared from a request. -/
structure Flying (b : Board) (batch : Batch) : Prop where
  staged : batch.Staged
  count : 0 < batch.count ∧ batch.count < 9007199254740991
  origin : (batch.items = [] ∧ batch.count ≤ b.last batch.client) ∨ Prepared batch

structure Inv (b₀ : Board) (S : System) (b : Board) : Prop where
  shows : Shows S.document b
  sane : b.Sane
  sequenced : Sequenced b₀.last S.log b.last
  flying : ∀ batch ∈ S.inFlight, Flying b batch

theorem Board.last_apply (b : Board) (batch : Batch) :
    (b.apply batch).last = Function.update b.last batch.client batch.count := by
  funext client
  by_cases h : client = batch.client
  · subst h
    simp [Board.last, Board.apply, Batch.receipt]
  · simp [Board.last, Board.apply, Function.update_of_ne h]

theorem Board.Sane.apply {b : Board} (h : b.Sane) {batch : Batch}
    (hcount : 0 < batch.count ∧ batch.count < 9007199254740991) : (b.apply batch).Sane := by
  intro client r hr
  by_cases hclient : client = batch.client
  · subst hclient
    rw [Board.receipts_apply, Function.update_self, Option.some.injEq] at hr
    rw [← hr]
    exact hcount
  · rw [Board.receipts_apply, Function.update_of_ne hclient] at hr
    exact h client r hr

/-- The numbers that were accepted stay accepted. -/
theorem Flying.apply {b : Board} {batch batch' : Batch} (h : Flying b batch)
    (hcount : batch'.count = b.last batch'.client + 1) : Flying (b.apply batch') batch := by
  refine ⟨h.staged, h.count, h.origin.imp_left fun ⟨hitems, hle⟩ ↦ ⟨hitems, ?_⟩⟩
  rw [Board.last_apply]
  by_cases hclient : batch.client = batch'.client
  · rw [hclient, Function.update_self]
    rw [hclient] at hle
    omega
  · rwa [Function.update_of_ne hclient]

theorem flying_of_stage {σ : Type} {backend : Backend σ} {s s' : σ} {a : Admitted} {key : String}
    {d : Json} {b : Board} (h : Shows d b) (hsane : b.Sane) {request : BatchRequest}
    {mutation : Mutation}
    (hrun : stageRequest backend a key (storedReceipt d key) s = (.ok (request, mutation), s')) :
    Flying b (batchOf request mutation) := by
  obtain ⟨request', t, hrequest, hrun⟩ := Query.bind_ok.mp hrun
  obtain ⟨mutation', t', hstage, hrun⟩ := Query.bind_ok.mp hrun
  rw [Query.pure_run, Prod.mk.injEq, Except.ok.injEq, Prod.mk.injEq] at hrun
  obtain ⟨⟨rfl, rfl⟩, -⟩ := hrun
  rw [Query.lift_run, Prod.mk.injEq] at hrequest
  obtain ⟨hkey, hcount⟩ := batchRequest_spec hrequest.1
  rw [← hkey] at hstage
  rcases stageBatch_cases h hsane hstage with ⟨hempty, hle⟩ | hnew
  · subst hempty
    exact ⟨⟨List.nodup_nil, nofun, nofun⟩, hcount, Or.inl ⟨rfl, hle⟩⟩
  · obtain ⟨-, _, _, _, _, -, -, htraced⟩ := prepareNew_traced (I := fun _ ↦ True)
      (fun _ _ _ ↦ trivial) (fun _ _ _ ↦ trivial) _ _ _ _ _ _ trivial hnew
    exact ⟨htraced.staged request', hcount,
      Or.inr ⟨σ, backend, t, t', _, _, _, request', mutation', hnew, rfl⟩⟩

/-- What a run of the script does to a batch in flight. -/
theorem run_spec {S : System} {b b₀ : Board} (h : Inv b₀ S b) {batch batch' : Batch}
    (hmem : batch ∈ S.inFlight) (horder : batch.Reordered batch') {reply : Option Reply}
    {d : Json} (hrun : applyBrokerBatch readNumber batch' (some S.document) = (reply, some d)) :
    ∃ b', Ran readNumber b batch S.document reply d b' := by
  have hstaged := (h.flying batch hmem).staged
  obtain ⟨reply', d', b', hrun', hran⟩ :=
    applyBrokerBatch_spec readNumber (horder.staged hstaged) h.shows
  rw [hrun, Prod.mk.injEq, Option.some.injEq] at hrun'
  obtain ⟨rfl, rfl⟩ := hrun'
  refine ⟨b', horder.outcome hstaged hran.outcome, hran.shows, ?_⟩
  exact hran.frame.imp_right fun ⟨hframe, hb⟩ ↦
    ⟨horder.frames hframe, hb.trans (horder.apply hstaged b)⟩

theorem step_inv {S S' : System} {b b₀ : Board} (h : Inv b₀ S b) {e : Event}
    (hstep : Step readNumber S e S') : ∃ b', Inv b₀ S' b' := by
  cases hstep with
  | refuse => exact ⟨b, h⟩
  | prepare backend s s' a key request mutation hrun =>
    refine ⟨b, h.shows, h.sane, h.sequenced, fun batch hbatch ↦ ?_⟩
    rcases List.mem_cons.mp hbatch with rfl | hbatch
    · exact flying_of_stage h.shows h.sane hrun
    · exact h.flying batch hbatch
  | run batch batch' reply d lost hmem horder hrun =>
    obtain ⟨b', hout, hshows, -⟩ := run_spec h hmem horder hrun
    cases hout with
    | applied hcount =>
      refine ⟨b.apply batch, hshows, h.sane.apply (h.flying batch hmem).count, ?_,
        fun other hother ↦ (h.flying other hother).apply hcount⟩
      rw [Board.last_apply, hcount]
      exact h.sequenced.snoc batch.client
    | _ => exact ⟨b, hshows, h.sane, h.sequenced, h.flying⟩

theorem reachable_inv {start : Json} {b₀ : Board} (hstart : Shows start b₀) (hsane : b₀.Sane)
    {S : System} (h : Reachable readNumber start S) : ∃ b, Inv b₀ S b := by
  induction h with
  | init => exact ⟨b₀, hstart, hsane, .nil, nofun⟩
  | step _ hstep ih =>
    obtain ⟨b, hb⟩ := ih
    exact step_inv hb hstep

/-! ## Exactly once -/

/-- What a step may do to a document that shows a board. -/
structure Respects (readNumber : String → Option ℚ) (b : Board) (S : System) (e : Event)
    (S' : System) : Prop where
  /-- Refusing changes nothing, and never happens to a request that repeats a receipt. -/
  refused : ∀ request halt, e = .refused request halt → S' = S ∧ ∀ q ∈ request, ¬b.Repeats q
  /-- Preparing writes nothing, and stages nothing for a request that repeats a receipt. -/
  prepared : ∀ request, e = .prepared request → S'.document = S.document ∧ S'.log = S.log ∧
    (b.Repeats request → S'.inFlight = batchOf request {} :: S.inFlight)
  /-- A batch that repeats a receipt is answered as it was then. -/
  repeated : ∀ batch reply lost, e = .ran batch reply lost → ∀ r,
    b.receipts batch.client = some r → batch.count = r.count → batch.request = r.request →
      batch.digest = r.digest →
        reply = some (.duplicate (some (.int r.revision)) b.revision r.count) ∧
          S'.document = S.document ∧ S'.log = S.log
  /-- A batch that is not applied changes no item, no revision and no receipt. -/
  unapplied : ∀ batch reply lost, e = .ran batch reply lost →
    (∀ r n, reply ≠ some (.applied r n)) →
      LedgerCreated S.document S'.document ∧ S'.log = S.log ∧ Shows S'.document b
  /-- A batch that is applied takes effect as it was prepared, on the items it was prepared on, and
  leaves the other clients their receipts. -/
  applied : ∀ batch r n lost, e = .ran batch (some (.applied r n)) lost →
    Prepared batch ∧ batch.Staged ∧ n = batch.count ∧ n = b.last batch.client + 1 ∧
      r = ((b.revision + 1 : ℤ) : ℚ) ∧ S'.log = S.log ++ [(batch.client, n)] ∧
      (∀ w ∈ batch.expected, revisionAt readNumber (S.document.find (itemPath w.1))
        = some (w.2 : ℚ)) ∧
      S'.document.find revisionPath = some (.int (b.revision + 1)) ∧
      S'.document.find (receiptPath batch.client)
        = some (batch.receipt (b.revision + 1)).toJson ∧
      (∀ client, client ≠ batch.client →
        S'.document.find (receiptPath client) = S.document.find (receiptPath client)) ∧
      (∀ id, S'.document.find (itemPath id) = match batch.items.lookup id with
        | some v => stamp (b.revision + 1) v
        | none => S.document.find (itemPath id)) ∧
      FramesBatch batch S.document S'.document

/-- A receipt is there only when the ledger is, and then the ledger is not created. -/
theorem Shows.not_created {d d' : Json} {b : Board} (h : Shows d b) {client : String} {r : Receipt}
    (hreceipt : b.receipts client = some r) (hcreated : LedgerCreated d d') : d' = d := by
  rcases hcreated with hsame | ⟨hnone, -⟩
  · exact hsame
  · rcases h.ledger with hno | hshown
    · simp [hno.receipts client] at hreceipt
    · exact absurd hnone hshown.find_ledger

theorem Outcome.applied_inv {b b' : Board} {clients : ℕ} {batch : Batch} {r : ℚ} {n : ℤ}
    (h : Outcome readNumber b clients batch (some (.applied r n)) b') :
    b' = b.apply batch ∧ n = batch.count ∧ r = ((b.revision + 1 : ℤ) : ℚ) ∧
      batch.count = b.last batch.client + 1 ∧
      ∀ e ∈ batch.expected, revisionAt readNumber (b.items e.1) = some (e.2 : ℚ) := by
  cases h with
  | applied hcount _ hunchanged _ => exact ⟨rfl, rfl, rfl, hcount, hunchanged⟩

theorem Outcome.unapplied {b b' : Board} {clients : ℕ} {batch : Batch} {reply : Option Reply}
    (h : Outcome readNumber b clients batch reply b')
    (hreply : ∀ r n, reply ≠ some (.applied r n)) : b' = b := by
  cases h with
  | applied => exact absurd rfl (hreply _ _)
  | _ => rfl

theorem Outcome.repeated {b b' : Board} {clients : ℕ} {batch : Batch} {reply : Option Reply}
    {r : Receipt}
    (h : Outcome readNumber b clients batch reply b') (hreceipt : b.receipts batch.client = some r)
    (hcount : batch.count = r.count) (hrequest : batch.request = r.request)
    (hdigest : batch.digest = r.digest) :
    b' = b ∧ reply = some (.duplicate (some (.int r.revision)) b.revision r.count) := by
  have hlast : b.last batch.client = r.count := by rw [Board.last, hreceipt]; rfl
  cases h with
  | mismatch r' hr' hc' hd' =>
    obtain rfl : r' = r := Option.some.inj (hr'.symm.trans hreceipt)
    rcases hd' with hd' | hd'
    · exact absurd hdigest.symm hd'
    · exact absurd hrequest.symm hd'
  | duplicate r' hr' =>
    obtain rfl : r' = r := Option.some.inj (hr'.symm.trans hreceipt)
    exact ⟨rfl, rfl⟩
  | gap hu => exact absurd hcount (hu r hreceipt)
  | _ hc => omega

/-- A request that repeats a receipt is prepared, as soon as it is one, and stages nothing. -/
theorem stageRequest_repeats {σ : Type} {backend : Backend σ} {a : Admitted} {key : String}
    {d : Json} {b : Board} (h : Shows d b) (hsane : b.Sane) {request : BatchRequest}
    (hrequest : batchRequest backend a key = .ok request) (hrepeats : b.Repeats request) (s : σ) :
    stageRequest backend a key (storedReceipt d key) s = (.ok (request, {}), s) := by
  obtain ⟨hkey, -⟩ := batchRequest_spec hrequest
  have hlift :
      (liftM (batchRequest backend a key) : Query σ BatchRequest) s = (.ok request, s) := by
    rw [Query.lift_run, hrequest]
  rw [← hkey] at hlift ⊢
  rw [stageRequest, Query.bind_of_ok hlift, Query.bind_of_ok (stageBatch_repeats h hsane hrepeats)]
  rfl

theorem Ran.repeated {b b' : Board} {batch : Batch} {d d' : Json} {reply : Option Reply}
    (h : Ran readNumber b batch d reply d' b') (hshows : Shows d b) {r : Receipt}
    (hreceipt : b.receipts batch.client = some r) (hcount : batch.count = r.count)
    (hrequest : batch.request = r.request) (hdigest : batch.digest = r.digest) :
    d' = d ∧ reply = some (.duplicate (some (.int r.revision)) b.revision r.count) := by
  obtain ⟨hb, hreply⟩ := h.outcome.repeated hreceipt hcount hrequest hdigest
  rcases h.frame with ⟨hcreated, -⟩ | ⟨-, happly⟩
  · exact ⟨hshows.not_created hreceipt hcreated, hreply⟩
  · have hrevision : b.revision = b.revision + 1 := congrArg Board.revision (hb.symm.trans happly)
    omega

theorem Ran.unapplied {b b' : Board} {batch : Batch} {d d' : Json} {reply : Option Reply}
    (h : Ran readNumber b batch d reply d' b') (hreply : ∀ r n, reply ≠ some (.applied r n)) :
    LedgerCreated d d' ∧ Shows d' b := by
  obtain rfl := h.outcome.unapplied hreply
  rcases h.frame with ⟨hcreated, -⟩ | ⟨-, happly⟩
  · exact ⟨hcreated, h.shows⟩
  · have hrevision : b'.revision = b'.revision + 1 := congrArg Board.revision happly
    omega

/-- A step respects the board that is shown. -/
theorem step_respects {S S' : System} {b b₀ : Board} (h : Inv b₀ S b) {e : Event}
    (hstep : Step readNumber S e S') : Respects readNumber b S e S' := by
  cases hstep with
  | refuse backend s s' a key halt hrun =>
    refine ⟨?_, nofun, nofun, nofun, nofun⟩
    rintro request halt' hevent
    obtain ⟨rfl, rfl⟩ := Event.refused.inj hevent
    refine ⟨rfl, fun q hq hrepeats ↦ ?_⟩
    have hrequest : batchRequest backend a key = .ok q := by
      cases hb : batchRequest backend a key <;> simp_all [Except.toOption]
    rw [stageRequest_repeats h.shows h.sane hrequest hrepeats s] at hrun
    exact nomatch congrArg Prod.fst hrun
  | prepare backend s s' a key request mutation hrun =>
    refine ⟨nofun, ?_, nofun, nofun, nofun⟩
    rintro request' hevent
    obtain rfl := Event.prepared.inj hevent
    refine ⟨rfl, rfl, fun hrepeats ↦ ?_⟩
    have hrequest : batchRequest backend a key = .ok request := by
      obtain ⟨request', t, hrequest, hrest⟩ := Query.bind_ok.mp hrun
      obtain ⟨_, _, -, hrest⟩ := Query.bind_ok.mp hrest
      rw [Query.pure_run, Prod.mk.injEq, Except.ok.injEq, Prod.mk.injEq] at hrest
      rw [Query.lift_run, Prod.mk.injEq] at hrequest
      rw [hrequest.1, hrest.1.1]
    rw [stageRequest_repeats h.shows h.sane hrequest hrepeats s, Prod.mk.injEq, Except.ok.injEq,
      Prod.mk.injEq] at hrun
    rw [← hrun.1.2]
  | run batch batch' reply d lost hmem horder hrun =>
    obtain ⟨b', hran⟩ := run_spec h hmem horder hrun
    have hflying := h.flying batch hmem
    refine ⟨nofun, nofun, ?_, ?_, ?_⟩
    · rintro batch₁ reply₁ lost₁ hevent r hreceipt hcount hrequest hdigest
      obtain ⟨rfl, rfl, rfl⟩ := Event.ran.inj hevent
      obtain ⟨hdocument, hreply⟩ := hran.repeated h.shows hreceipt hcount hrequest hdigest
      exact ⟨hreply, hdocument, by rw [hreply]; rfl⟩
    · rintro batch₁ reply₁ lost₁ hevent hreply
      obtain ⟨rfl, rfl, rfl⟩ := Event.ran.inj hevent
      obtain ⟨hcreated, hshows⟩ := hran.unapplied hreply
      refine ⟨hcreated, ?_, hshows⟩
      cases reply with
      | none => rfl
      | some reply =>
        cases reply with
        | applied r n => exact absurd rfl (hreply r n)
        | _ => rfl
    · rintro batch₁ r n lost₁ hevent
      obtain ⟨rfl, rfl, rfl⟩ := Event.ran.inj hevent
      obtain ⟨hb, hn, hr, hcount, hunchanged⟩ := hran.outcome.applied_inv
      subst hb hn hr
      -- a batch that repeats an answered request carries no higher number, and is not applied
      have hprepared : Prepared batch := by
        rcases hflying.origin with ⟨-, hle⟩ | hprepared
        · omega
        · exact hprepared
      have hframes : FramesBatch batch S.document d := by
        rcases hran.frame with ⟨-, hsame⟩ | ⟨hframes, -⟩
        · have hrevision : b.revision + 1 = b.revision := congrArg Board.revision hsame
          omega
        · exact hframes
      have hledger : LedgerShown d (b.apply batch) := by
        rcases hran.shows.ledger with hnone | hshown
        · have hreceipts := hnone.receipts batch.client
          simp [Board.receipts_apply] at hreceipts
        · exact hshown
      refine ⟨hprepared, hflying.staged, rfl, hcount, rfl, rfl, ?_, hledger.revision, ?_,
        fun client hother ↦ ?_, ?_, hframes⟩
      · intro w hw
        rw [h.shows.items]
        exact hunchanged w hw
      · rw [hledger.receipts, Board.receipts_apply, Function.update_self]
        rfl
      · rw [hledger.receipts, Board.receipts_apply, Function.update_of_ne hother, h.shows.receipts]
      · intro id
        rw [hran.shows.items, h.shows.items]
        rfl

/-- **Exactly once.** -/
theorem batches_exactly_once {start : Json} {b₀ : Board} (hstart : Shows start b₀)
    (hsane : b₀.Sane) {S : System} (h : Reachable readNumber start S) :
    ∃ b : Board, Shows S.document b ∧
      (∀ client, ∃ length : ℕ, accepted client S.log = following (b₀.last client) length ∧
        b.last client = b₀.last client + length) ∧
      ∀ e S', Step readNumber S e S' → Respects readNumber b S e S' := by
  obtain ⟨b, hb⟩ := reachable_inv hstart hsane h
  exact ⟨b, hb.shows, hb.sequenced.accepted_eq, fun _ _ ↦ step_respects hb⟩

/-- A canvas without items. -/
def blankDocument : Json := .obj [("items", .obj [])]

/-- A user creates a shape. -/
def sender : Admitted where
  route := ⟨7, "connection", "request-1"⟩
  identity := .obj [("user_id", .int 5)]
  groups := ["staff"]
  admin := false
  event := .obj [("request_count", .int 1), ("operations", .arr [.obj [("action", .str "create"),
    ("id", .str "shape-1"),
    ("patch", .obj [("kind", .str "shape"), ("permission", .str "staff")])]])]
  type := "canvas_ops"

def stagedCreation : BatchRequest × Mutation :=
  match (stageRequest plainBackend sender "5:tab" .null ⟨blankDocument, []⟩).1 with
  | .ok r => r
  | .error _ => (⟨"", 0, "", "", .null⟩, {})

def creationBatch : Batch := batchOf stagedCreation.1 stagedCreation.2

/-- The canvas with the shape. -/
def shapeDocument : Json :=
  (applyBrokerBatch (fun _ ↦ none) creationBatch (some blankDocument)).2.getD .null

theorem shapeDocument_reachable :
    Reachable (fun _ ↦ none) blankDocument ⟨shapeDocument, [creationBatch], [("5:tab", 1)]⟩ := by
  refine .step (.step .init (.prepare _ plainBackend ⟨blankDocument, []⟩ ⟨blankDocument, []⟩ sender
    "5:tab" stagedCreation.1 stagedCreation.2 ?_)) (.run _ creationBatch creationBatch
    (some (.applied 1 1)) shapeDocument true List.mem_cons_self ?_ ?_)
  · rfl
  · exact ⟨rfl, rfl, rfl, rfl, .refl _, .refl _⟩
  · decide +kernel

theorem blankDocument_shows : Shows blankDocument ⟨0, fun _ ↦ none, fun _ ↦ none⟩ := by
  refine ⟨⟨[], rfl⟩, fun id ↦ rfl, Or.inl ⟨rfl, rfl, fun client ↦ rfl⟩⟩

theorem shape_created_exactly_once :
    ∃ b : Board, Shows shapeDocument b ∧
      (∀ client, ∃ length : ℕ, accepted client [("5:tab", 1)] = following 0 length ∧
        b.last client = 0 + length) ∧
      ∀ e S', Step (fun _ ↦ none) ⟨shapeDocument, [creationBatch], [("5:tab", 1)]⟩ e S' →
        Respects (fun _ ↦ none) b ⟨shapeDocument, [creationBatch], [("5:tab", 1)]⟩ e S' :=
  batches_exactly_once blankDocument_shows nofun shapeDocument_reachable

end Broker

end Agora
