import Agora.Query.Accepted
import Agora.Query.Service

/-!
# What a query leaves of an item

A query that changes items makes of each one of four things, however its calls end: it leaves it as
it is, it stores what a batch has staged for it, it removes it, or it stores an item that was
checked against it (`performQuery_written`). Which calls fail, and whether a write was made whose
reply was lost, decides only which of them.
-/

namespace Agora

open Broker

/-! ## Computations that end elsewhere -/

namespace Query

variable {σ α β : Type} {I J : σ → Prop}

/-- From a storage state in `I` the computation comes to one in `J`, however it ends. -/
def Leads (I J : σ → Prop) (x : Query σ α) : Prop := ∀ s, I s → J (x s).2

theorem Keeps.leads {x : Query σ α} (h : Keeps I x) (hIJ : ∀ s, I s → J s) : Leads I J x :=
  fun s hs ↦ hIJ _ (h s hs)

theorem leads_bind {P : α → Prop} {x : Query σ α} {f : α → Query σ β} (hkeeps : Keeps I x)
    (hyields : Yields I x P) (hIJ : ∀ s, I s → J s) (hf : ∀ a, P a → Leads I J (f a)) :
    Leads I J (x >>= f) := by
  intro s hs
  have hkept := hkeeps s hs
  rw [bind_run]
  rcases hx : x s with ⟨halt | a, t⟩
  · exact hIJ t (by rwa [hx] at hkept)
  · obtain ⟨ht, ha⟩ := hyields s a t hs hx
    exact hf a ha t ht

/-- What holds at the end of a part is kept by the rest. -/
theorem Leads.bind {x : Query σ α} {f : α → Query σ β} (hx : Leads I J x)
    (hf : ∀ a, Keeps J (f a)) : Leads I J (x >>= f) := by
  intro s hs
  have ht := hx s hs
  rw [bind_run]
  rcases hrun : x s with ⟨halt | a, t⟩
  · rwa [hrun] at ht
  · exact hf a t (by rwa [hrun] at ht)

theorem leads_step {x : Checked α} {f : α → Query σ β} (hIJ : ∀ s, I s → J s)
    (hf : ∀ a, x = .ok a → Leads I J (f a)) : Leads I J (liftM x >>= f) :=
  leads_bind (keeps_lift x) (yields_lift fun _ ha ↦ ha) hIJ hf

end Query

open Query

/-! ## A batch stages what it is asked for -/

section Asked

variable {σ : Type} {I : σ → Prop} {read : String → Query σ (Option Json)} {dumpSize : Json → ℕ}
  {groups : List String} {admin : Bool}

/-- Nothing else was staged since but items with a property. -/
def StagesOnly (result : Mutation) (P : String → Prop) (r : Mutation) : Prop :=
  ∀ id, (r.items.lookup id).isSome → (result.items.lookup id).isSome ∨ P id

theorem StagesOnly.stage {result r : Mutation} {P : String → Prop} (h : StagesOnly result P r)
    {id : String} (hid : (r.items.lookup id).isSome) (item : Json) :
    StagesOnly result P (r.stage id item) := by
  intro id' hstaged
  rw [Mutation.stage, Assoc.lookup_set] at hstaged
  split at hstaged
  · next heq => exact h id' (heq ▸ hid)
  · exact h id' hstaged

variable (hread : ∀ id, Keeps I (read id)) {result : Mutation}

include hread

theorem get_stagesOnly (id : String) :
    Yields I (get read groups admin result id) fun r ↦
      StagesOnly result (· = id) r.2 ∧ (r.2.items.lookup id).isSome := by
  refine yields_step fun _ _ ↦ ?_
  rcases hlookup : result.items.lookup id with _ | item
  · refine yields_bind (hread id).yields fun found _ ↦ yields_step fun _ _ ↦ ?_
    refine yields_step fun _ _ ↦ yields_step fun item _ ↦ yields_pure ⟨fun id' hstaged ↦ ?_, ?_⟩
    · rw [Assoc.lookup_set] at hstaged
      split at hstaged
      · next heq => exact Or.inr heq.symm
      · exact Or.inl hstaged
    · rw [Assoc.lookup_set, if_pos rfl]
      rfl
  · exact yields_pure ⟨fun _ ↦ Or.inl, by rw [hlookup]; rfl⟩

theorem translateAll_stagesOnly {dx dy : ℚ} (ids : List Json) :
    Yields I (ids.foldlM (translateOne dumpSize read groups admin dx dy) (result, [])) fun r ↦
      StagesOnly result (fun id ↦ .str id ∈ ids) r.1 := by
  refine yields_foldlM (P := fun done (state : Mutation × List String) ↦
    StagesOnly result (fun id ↦ Json.str id ∈ done) state.1) ?_ ids [] fun _ ↦ Or.inl
  intro done state value hdone
  refine yields_step fun _ _ ↦ yields_step fun id hid ↦ yields_step fun _ _ ↦ ?_
  refine yields_bind (get_stagesOnly hread id) fun r hr ↦ ?_
  refine yields_step fun _ _ ↦ yields_step fun _ _ ↦ yields_step fun _ _ ↦ ?_
  refine yields_step fun _ _ ↦ yields_step fun _ _ ↦ yields_step fun item _ ↦ ?_
  refine yields_step fun _ _ ↦ yields_pure ?_
  refine StagesOnly.stage (fun id' hstaged ↦ ?_) hr.2 item
  rcases hr.1 id' hstaged with hold | rfl
  · exact (hdone id' hold).imp_right (List.mem_append_left _)
  · rw [getString_ok hid]
    exact Or.inr (List.mem_append_right _ (List.mem_singleton_self _))

/-- What a translation lists is what it moves. -/
theorem translate_stagesOnly {operation : Json}
    (haction : field? operation "action" = some (.str "translate")) :
    Yields I (translate dumpSize read groups admin result operation)
      (StagesOnly result fun id ↦ changesOf id operation ≠ []) := by
  refine yields_step fun ids hids ↦ yields_step fun _ hsize ↦ yields_step fun _ _ ↦ ?_
  refine yields_step fun _ _ ↦ yields_step fun x _ ↦ yields_step fun dx _ ↦ ?_
  refine yields_step fun y _ ↦ yields_step fun dy _ ↦ yields_step fun _ _ ↦ ?_
  refine yields_bind (translateAll_stagesOnly hread ids.elements) fun r hr ↦ yields_pure ?_
  intro id hstaged
  refine (hr id hstaged).imp_right fun hmem ↦ ?_
  rw [Checked.throwIf_ok] at hsize
  obtain ⟨list, rfl, hfield⟩ : ∃ list, ids = .arr list ∧
      field? operation "ids" = some (.arr list) := by
    rcases ids
    case arr list =>
      refine ⟨list, rfl, ?_⟩
      rcases field?_of_value hids with ⟨v, hv, hsame⟩ | ⟨-, hempty⟩
      · rw [hv, Except.ok.inj hsame]
      · obtain rfl : [] = list := Json.arr.inj hempty
        cases hmem
    all_goals simp [Json.isArray] at hsize
  have hlists : lists operation id := by
    rw [lists, hfield]
    exact decide_eq_true hmem
  rw [changesOf, haction]
  simp [hlists]

theorem mutateItem_stagesOnly {action : String} {operation : Json}
    (haction : operation.valueString "action" "" = .ok action) :
    Yields I (mutateItem dumpSize read groups admin result action operation)
      (StagesOnly result fun id ↦ changesOf id operation ≠ []) := by
  refine yields_step fun id hid ↦ ?_
  refine yields_bind (P := fun r : Json × Mutation ↦ validQueryItemId id ∧
    StagesOnly result (· = id) r.2 ∧ (r.2.items.lookup id).isSome) ?_ ?_
  · intro s r s' hs hrun
    obtain ⟨hs', hr⟩ := get_stagesOnly hread id s r s' hs hrun
    obtain ⟨_, t, hvalid, -⟩ := bind_ok.mp hrun
    rw [lift_run, Prod.mk.injEq, Checked.throwIf_ok] at hvalid
    exact ⟨hs', by simpa using hvalid.1, hr⟩
  rintro ⟨old, r⟩ ⟨hvalid, hr, hstaged⟩
  have hchanged : ∀ {item : Json} {change : Change},
      (∀ id', changesOf id' operation = if id = id' then [change] else []) →
        StagesOnly result (fun id ↦ changesOf id operation ≠ []) (r.stage id item) := by
    intro item change hchanges id' hid'
    refine (hr.stage hstaged item id' hid').imp_right ?_
    rintro rfl
    rw [hchanges, if_pos rfl]
    exact List.cons_ne_nil _ _
  dsimp only
  split
  · next hdelete =>
    subst hdelete
    refine yields_lift fun r' hr' ↦ ?_
    obtain ⟨rfl, -, hchanges⟩ := @deleteItem_edit dumpSize groups admin _ _ _ _ _ hvalid hid
      haction hr'
    exact hchanged hchanges
  · refine yields_lift fun r' hr' ↦ ?_
    obtain ⟨item, change, rfl, -, hchanges⟩ := storeItem_edit hvalid hid haction hr'
    exact hchanged hchanges

theorem prepareOperation_stagesOnly (operation : Json) :
    Yields I (prepareOperation dumpSize read groups admin result operation)
      (StagesOnly result fun id ↦ changesOf id operation ≠ []) := by
  refine yields_step fun _ _ ↦ yields_step fun action haction ↦ ?_
  split
  · next htranslate =>
    subst htranslate
    have hfield := field?_of_valueString haction (by decide)
    refine yields_bind (translate_stagesOnly hread hfield) fun r hr ↦ ?_
    exact yields_step fun _ _ ↦ yields_pure hr
  · exact mutateItem_stagesOnly hread haction

/-- Every item that is staged is one the batch asks to change. -/
theorem prepare_asked (operations : Json) :
    Yields I (prepare dumpSize read groups admin operations) fun r ↦
      ∀ id, (r.items.lookup id).isSome → historyOf operations.elements id ≠ [] := by
  refine yields_step fun _ _ ↦ ?_
  refine yields_bind (yields_foldlM (P := fun done (r : Mutation) ↦
    ∀ id, (r.items.lookup id).isSome → historyOf done id ≠ []) ?_ operations.elements [] ?_) ?_
  · intro done r operation hr
    refine (prepareOperation_stagesOnly hread operation).mono fun r' hr' id hstaged ↦ ?_
    rw [historyOf_snoc]
    intro hnone
    obtain ⟨hbefore, hlast⟩ := List.append_eq_nil_iff.mp hnone
    exact (hr' id hstaged).elim (fun hold ↦ hr id hold hbefore) fun hnew ↦ hnew hlast
  · intro id hstaged
    exact absurd hstaged Bool.false_ne_true
  · intro result hresult
    refine yields_bind (keeps_forM (fun e : String × Json ↦
      checkConnector_keeps hread result e.2) _).yields ?_
    exact fun _ _ ↦ yields_step fun _ _ ↦ yields_pure hresult

end Asked

/-! ## Documents in order -/

/-- A document that shows a board. -/
def InOrder (d : Json) : Prop := ∃ b : Board, Shows d b ∧ b.Sane

/-- What is shown when the items change and the ledger does not. -/
theorem Broker.Shows.of_ledger {d d' : Json} {b : Board} (h : Shows d b)
    (hholder : ∃ fields, d'.find itemsPath = some (.obj fields))
    (hledger : ∀ p, d'.find (.key "__broker_sync" :: p) = d.find (.key "__broker_sync" :: p)) :
    Shows d' { b with items := fun id ↦ d'.find (itemPath id) } := by
  refine ⟨hholder, fun id ↦ rfl, ?_⟩
  rcases h.ledger with hnone | hshown
  · exact Or.inl ⟨(hledger []).trans hnone.ledger, hnone.revision, hnone.receipts⟩
  · obtain ⟨clients, hclients⟩ := hshown.clients
    exact Or.inr ⟨(hledger _).trans hshown.revision, ⟨clients, (hledger _).trans hclients⟩,
      fun client ↦ (hledger _).trans (hshown.receipts client)⟩

theorem InOrder.of_ledger {d d' : Json} (h : InOrder d)
    (hholder : ∃ fields, d'.find itemsPath = some (.obj fields))
    (hledger : ∀ p, d'.find (.key "__broker_sync" :: p) = d.find (.key "__broker_sync" :: p)) :
    InOrder d' := by
  obtain ⟨b, hshows, hsane⟩ := h
  exact ⟨_, hshows.of_ledger hholder hledger, hsane⟩

theorem itemOf_eq {d d' : Json} {id : String} (h : d'.find (itemPath id) = d.find (itemPath id)) :
    itemOf d' id = itemOf d id := by
  rw [itemOf, itemOf, h]

/-- Storing an item. -/
theorem InOrder.set {d d' : Json} (h : InOrder d) {id : String} {item : Json}
    (hset : d.set (itemPath id) item = some d') :
    InOrder d' ∧ itemOf d' id = item ∧ ∀ id', id' ≠ id → itemOf d' id' = itemOf d id' := by
  refine ⟨h.of_ledger ?_ fun p ↦ ?_, ?_, fun id' hid ↦ ?_⟩
  · exact @Json.find_holder itemsPath _ _ _ (Json.find_set_self hset)
  · exact Json.find_set_of_apart (apart_ledger_items p [.key id]).symm hset
  · rw [itemOf, Json.find_set_self hset, Option.getD_some]
  · exact itemOf_eq (Json.find_set_of_apart (apart_items hid.symm) hset)

/-- Removing an item. -/
theorem InOrder.prune {d : Json} (h : InOrder d) (id : String) :
    InOrder (d.prune fun p ↦ p = itemPath id) ∧
      itemOf (d.prune fun p ↦ p = itemPath id) id = .null ∧
      ∀ id', id' ≠ id → itemOf (d.prune fun p ↦ p = itemPath id) id' = itemOf d id' := by
  obtain ⟨b, hshows, hsane⟩ := h
  obtain ⟨fields, hfields⟩ := hshows.holder
  refine ⟨InOrder.of_ledger ⟨b, hshows, hsane⟩ ?_ fun p ↦ ?_, ?_, fun id' hid ↦ ?_⟩
  · exact @Json.find_holder_prune itemsPath _ _ hfields id
  · exact Json.find_prune_of_apart (itemPath_not_index id) (apart_ledger_items p [.key id]).symm d
  · rw [itemOf, show (d.prune fun p ↦ p = itemPath id).find (itemPath id) = none from
      Json.find_prune_key itemsPath id d, Option.getD_none]
  · exact itemOf_eq (Json.find_prune_of_apart (itemPath_not_index id) (apart_items hid.symm) d)

/-! ## Where an item comes from -/

/-- A query that is neither about batches nor about the lease of a broker. -/
def Single (a : Admitted) : Prop := a.type ∉ ["canvas_ops", "canvas_sync", "broker_lease"]

instance (a : Admitted) : Decidable (Single a) := inferInstanceAs (Decidable (¬_))

theorem Single.ne_ops {a : Admitted} (h : Single a) : a.type ≠ "canvas_ops" := by
  intro htype
  exact h (htype ▸ List.mem_cons_self)

/-- The changes of single items that a query asks for. -/
def changed (a : Admitted) : List Json := (Crud.operations a).toOption.getD []

/-- A change stores an item under an id. -/
def stores (id : String) (operation : Json) : Prop :=
  (Crud.operationItemId operation).toOption = some id ∧
    (Crud.operationAction operation).toOption ∉ [some "read", some "delete"]

instance (id : String) (operation : Json) : Decidable (stores id operation) :=
  inferInstanceAs (Decidable (_ ∧ _))

/-- Two items differ in nothing but the history of their text. -/
def SameFields (item item' : Json) : Prop :=
  ∀ k, k ≠ "automerge_snapshot" → k ≠ "automerge_changes" → field? item' k = field? item k

/-- What a query makes of an item; null stands for an item that is not there. -/
inductive Origin (dumpSize : Json → ℕ) (a : Admitted) (id : String) (old : Json) : Json → Prop
  | kept : Origin dumpSize a id old old
  | staged {start item : Json} (batch : a.type = "canvas_ops")
      (access : old = .null ∨ queryCanAccess old a.groups a.admin)
      (visible : visibleItem old = .ok start)
      (asked : historyOf (requested a) id ≠ [])
      (edits : Edits dumpSize a.groups a.admin (historyOf (requested a) id) start item)
      (revision : ℤ) : Origin dumpSize a id old ((stamp revision item).getD .null)
  | removed (single : Single a)
      (access : old = .null ∨ queryCanAccess old a.groups a.admin)
      (room : isChatRoomItem old = false) : Origin dumpSize a id old .null
  | stored {item item' : Json} (single : Single a)
      (checked : queryUpdatedItem old item a.groups a.admin = .ok item)
      (same : SameFields item item') (asked : ∃ operation ∈ changed a, stores id operation) :
      Origin dumpSize a id old item'

/-! ## Batches -/

section Batch

variable {base : Backend Storage} {readNumber : String → Option ℚ} {visit : Visit}

/-- The script leaves what it is given, or applies the batch, whatever becomes of its reply. -/
theorem applyBrokerBatch_document {batch : Batch} (hstaged : batch.Staged)
    (hcount : 0 < batch.count ∧ batch.count < 9007199254740991) {s : Storage} {b : Board}
    (hshows : Shows s.document b) (hsane : b.Sane) (id : ℤ) :
    let d' := ((storageBackend base readNumber visit).applyBrokerBatch id batch s).2.document
    InOrder d' ∧ ((∀ item, itemOf d' item = itemOf s.document item) ∨
      batch.count = b.last batch.client + 1 ∧
        ∀ item, d'.find (itemPath item) = (b.apply batch).items item) := by
  intro d'
  have horder := visit.reordered batch
  obtain ⟨reply, d₁, b₁, hrun, hran⟩ :=
    applyBrokerBatch_spec readNumber (horder.staged hstaged) hshows
  have hends := Storage.scripted_document (fun d ↦
    let r := applyBrokerBatch readNumber (visit.order batch) (some d)
    (r.1, r.2.getD d)) s
  dsimp only at hends
  rw [hrun, Option.getD_some] at hends
  rcases hends with hsame | happlied
  · rw [show d' = s.document from hsame]
    exact ⟨⟨b, hshows, hsane⟩, Or.inl fun _ ↦ rfl⟩
  · rw [show d' = d₁ from happlied]
    have hout := horder.outcome hstaged hran.outcome
    have hshows₁ := hran.shows
    by_cases hreply : ∃ r n, reply = some (.applied r n)
    · obtain ⟨r, n, rfl⟩ := hreply
      obtain ⟨rfl, -, -, hnext, -⟩ := hout.applied_inv
      exact ⟨⟨_, hshows₁, hsane.apply hcount⟩, Or.inr ⟨hnext, hshows₁.items⟩⟩
    · obtain rfl := hout.unapplied fun r n heq ↦ hreply ⟨r, n, heq⟩
      refine ⟨⟨_, hshows₁, hsane⟩, Or.inl fun item ↦ itemOf_eq ?_⟩
      rw [hshows₁.items, hshows.items]

/-- Reading what is stored about a client changes nothing. -/
theorem brokerSyncState_keeps {P : Json → Prop} (id : ℤ) (client : String) :
    Keeps (fun s : Storage ↦ P s.document)
      (brokerSyncState (storageBackend base readNumber visit) id client) := by
  have hmatch : ∀ keys, Keeps (fun s : Storage ↦ P s.document)
      (readMatch (storageBackend base readNumber visit) id keys) := by
    intro keys
    refine keeps_bind (keeps_reading _) fun raw ↦ keeps_bind ?_ fun _ ↦ keeps_step fun _ ↦ ?_
    · rcases raw with _ | text
      · exact keeps_fail _
      · exact keeps_pure _
    · exact keeps_lift _
  refine keeps_bind (hmatch _) fun _ ↦ keeps_step fun _ ↦ ?_
  split
  · exact keeps_pure _
  · exact keeps_bind (hmatch _) fun _ ↦ keeps_pure _

theorem canvasSync_keeps {P : Json → Prop} (a : Admitted) (client : String) (sync : SyncState)
    (accepted : ℤ) : Keeps (fun s : Storage ↦ P s.document)
      (canvasSync (storageBackend base readNumber visit) a client sync accepted) := by
  refine keeps_bind (keeps_bind (keeps_reading _) fun raw ↦ keeps_bind ?_ fun _ ↦ keeps_lift _) ?_
  · rcases raw with _ | text
    · exact keeps_fail _
    · exact keeps_pure _
  · intro doc
    exact keeps_step fun _ ↦ keeps_step fun _ ↦ keeps_step fun _ ↦ keeps_pure _

/-- Answering changes nothing. -/
theorem answerBatch_keeps {I : Storage → Prop} (a : Admitted) (client : String)
    (request : BatchRequest) (mutation : Mutation) (reply : Option Reply) :
    Keeps I (answerBatch a client request mutation reply) := by
  rcases reply with _ | reply
  · exact keeps_fail _
  · rcases reply with ⟨code, last⟩ | ⟨revision, server, last⟩ | ⟨revision, last⟩
    · exact keeps_lift _
    · exact keeps_step fun _ ↦ keeps_pure _
    · exact keeps_step fun _ ↦ keeps_step fun _ ↦ keeps_pure _

/-- What a query may leave, given what was stored before it. -/
def Written (dumpSize : Json → ℕ) (a : Admitted) (d d' : Json) : Prop :=
  InOrder d' ∧ ∀ id, Origin dumpSize a id (itemOf d id) (itemOf d' id)

theorem Written.refl {dumpSize : Json → ℕ} {a : Admitted} {d : Json} (h : InOrder d) :
    Written dumpSize a d d := ⟨h, fun _ ↦ .kept⟩

/-- What is known about a batch that is given to the script. -/
structure ReadyBatch (dumpSize : Json → ℕ) (a : Admitted) (d : Json) (b : Board)
    (r : BatchRequest × Mutation) : Prop where
  staged : (batchOf r.1 r.2).Staged
  count : 0 < r.1.count ∧ r.1.count < 9007199254740991
  origin : r.1.count ≤ b.last r.1.client ∨
    StagedFrom dumpSize a.groups a.admin d (requested a) r.2 ∧
      ∀ id, (r.2.items.lookup id).isSome → historyOf (requested a) id ≠ []

theorem stageRequest_ready {a : Admitted} {key : String} {d : Json} {b : Board}
    (hshows : Shows d b) (hsane : b.Sane) :
    Yields (fun s : Storage ↦ s.document = d)
      (stageRequest (storageBackend base readNumber visit) a key (storedReceipt d key))
      (ReadyBatch base.dumpSize a d b) := by
  rintro s ⟨request, mutation⟩ s' rfl hrun
  obtain ⟨hdocument, hstaged, -, hcount, hoperations, horigin⟩ :=
    stageRequest_new hshows hsane hrun
  refine ⟨hdocument, hstaged, requestCount_range hcount, horigin.imp_right fun hprepared ↦ ?_⟩
  rw [requested_eq hoperations]
  obtain ⟨read, t, hread, -, ht, hprepare⟩ := prepareNew_prepare hprepared
  exact ⟨(prepareNew_staged hprepared).1,
    (prepare_asked hread request.operations t mutation s' ht hprepare).2⟩

theorem stageRequest_keeps {P : Json → Prop} (a : Admitted) (key : String) (receipt : Json) :
    Keeps (fun s : Storage ↦ P s.document)
      (stageRequest (storageBackend base readNumber visit) a key receipt) := by
  refine keeps_step fun request ↦ keeps_bind ?_ fun _ ↦ keeps_pure _
  exact stageBatch_keeps (@readItem_keeps base readNumber visit _ P) (fun ids ↦ keeps_reading _)
    _ _ _ _

theorem canvasOps_written {a : Admitted} (htype : a.type = "canvas_ops") {client key : String}
    {sync : SyncState} {d : Json} {b : Board} (hshows : Shows d b) (hsane : b.Sane)
    (hreceipt : sync.receipt = storedReceipt d key) :
    Leads (fun s : Storage ↦ s.document = d) (fun s ↦ Written base.dumpSize a d s.document)
      (canvasOps (storageBackend base readNumber visit) a client key sync) := by
  have hstart : ∀ s : Storage, s.document = d → Written base.dumpSize a d s.document := by
    rintro s rfl
    exact .refl ⟨b, hshows, hsane⟩
  rw [canvasOps, hreceipt]
  refine leads_bind (@stageRequest_keeps base readNumber visit (· = d) a key _)
    (stageRequest_ready hshows hsane) hstart ?_
  rintro ⟨request, mutation⟩ hready
  refine Leads.bind ?_ fun reply ↦ answerBatch_keeps a client request mutation reply
  rintro s rfl
  obtain ⟨hin, hitems⟩ := @applyBrokerBatch_document base readNumber visit _ hready.staged
    hready.count _ _ hshows hsane a.route.id
  refine ⟨hin, fun id ↦ ?_⟩
  rw [call_run]
  rcases hitems with hsame | ⟨hnext, hitems⟩
  · rw [hsame id]
    exact .kept
  · -- only a batch that was prepared has the next number
    have hnew : ¬request.count ≤ b.last request.client := by
      change request.count = b.last request.client + 1 at hnext
      omega
    obtain ⟨hstaged, hasked⟩ := hready.origin.resolve_left hnew
    have hitem : itemOf ((storageBackend base readNumber visit).applyBrokerBatch a.route.id
        (batchOf request mutation) s).2.document id
        = (((b.apply (batchOf request mutation)).items id)).getD .null := by
      rw [itemOf, hitems id]
    rw [hitem]
    rcases hlookup : mutation.items.lookup id with _ | v
    · have hkept :
          (b.apply (batchOf request mutation)).items id = s.document.find (itemPath id) := by
        rw [hshows.items id]
        simp [Board.apply, batchOf, hlookup]
      rw [hkept]
      exact .kept
    · obtain ⟨start, hstart, hedits⟩ := hstaged.edited id v hlookup
      have hstamp : (b.apply (batchOf request mutation)).items id = stamp (b.revision + 1) v := by
        simp [Board.apply, batchOf, hlookup]
      rw [hstamp]
      exact .staged htype (hstaged.access id v hlookup) hstart
        (hasked id (by rw [hlookup]; rfl)) hedits _

/-- A batch query, however its calls end. -/
theorem canvasQuery_written {a : Admitted} (htype : a.type = "canvas_ops" ∨ a.type = "canvas_sync")
    {d : Json} (h : InOrder d) :
    Leads (fun s : Storage ↦ s.document = d) (fun s ↦ Written base.dumpSize a d s.document)
      (canvasQuery (storageBackend base readNumber visit) a) := by
  obtain ⟨b, hshows, hsane⟩ := h
  have hstart : ∀ s : Storage, s.document = d → Written base.dumpSize a d s.document := by
    rintro s rfl
    exact .refl ⟨b, hshows, hsane⟩
  refine leads_step hstart fun client _ ↦ leads_step hstart fun _ _ ↦ ?_
  refine leads_step hstart fun user _ ↦ leads_step hstart fun number _ ↦ ?_
  refine leads_bind (P := fun sync ↦ sync.receipt = storedReceipt d (clientKey number client))
    (@brokerSyncState_keeps base readNumber visit (· = d) _ _) ?_ hstart ?_
  · rintro s sync s' rfl hrun
    obtain ⟨hdocument, -, hreceipt⟩ := brokerSyncState_run (clientKey_ne_empty number client) hrun
    exact ⟨hdocument, hreceipt⟩
  · intro sync hreceipt
    refine leads_step hstart fun accepted _ ↦ ?_
    split
    · exact (@canvasSync_keeps base readNumber visit (· = d) _ _ _ _).leads hstart
    · next hsync => exact canvasOps_written (htype.resolve_right hsync) hshows hsane hreceipt

end Batch

/-! ## Changes of single items -/

section Crud

variable {base : Backend Storage} {readNumber : String → Option ℚ} {visit : Visit}

/-- An event of some changes, checked against what is stored. -/
inductive CheckedEvent (a : Admitted) (d : Json) (operations : List Json) : Json → Prop
  | delete {id : String} (valid : validQueryItemId id)
      (access : itemOf d id = .null ∨ queryCanAccess (itemOf d id) a.groups a.admin)
      (room : isChatRoomItem (itemOf d id) = false) :
      CheckedEvent a d operations (Crud.deletion id)
  | store {type id : String} {item : Json} (valid : validQueryItemId id)
      (checked : queryUpdatedItem (itemOf d id) item a.groups a.admin = .ok item)
      (asked : ∃ operation ∈ operations, stores id operation) :
      CheckedEvent a d operations (Crud.update type id item)

theorem CheckedEvent.snoc {a : Admitted} {d e : Json} {operations : List Json}
    (h : CheckedEvent a d operations e) (operation : Json) :
    CheckedEvent a d (operations ++ [operation]) e := by
  rcases h with ⟨hvalid, haccess, hroom⟩ | ⟨hvalid, hchecked, asked, hmem, hstores⟩
  · exact .delete hvalid haccess hroom
  · exact .store hvalid hchecked ⟨asked, List.mem_append_left _ hmem, hstores⟩

theorem change_checks {a : Admitted} {d : Json} {c c' : Crud.Changes} {id : String}
    {previous : Option Json} {operations : List Json} {operation : Json}
    (hid : Crud.operationItemId operation = .ok id) (hvalid : validQueryItemId id)
    (hprevious : previous.getD .null = itemOf d id)
    (hc : ∀ e ∈ c.prepared, CheckedEvent a d operations e)
    (h : Crud.change a c id previous operation = .ok c') :
    ∀ e ∈ c'.prepared, CheckedEvent a d (operations ++ [operation]) e := by
  obtain ⟨_, hdenied, h⟩ := Checked.bind_ok.mp h
  obtain ⟨action, haction, h⟩ := Checked.bind_ok.mp h
  have haccess : itemOf d id = .null ∨ queryCanAccess (itemOf d id) a.groups a.admin := by
    rw [Checked.throwIf_ok] at hdenied
    rcases previous with _ | old
    · exact Or.inl hprevious.symm
    · rw [← hprevious]
      exact Or.inr (by simpa using hdenied)
  have hsnoc : ∀ {event : Json}, CheckedEvent a d (operations ++ [operation]) event →
      ∀ e ∈ c.prepared ++ [event], CheckedEvent a d (operations ++ [operation]) e := by
    intro event hevent e he
    rcases List.mem_append.mp he with he | he
    · exact (hc e he).snoc operation
    · exact List.mem_singleton.mp he ▸ hevent
  split at h
  · obtain rfl := Checked.pure_ok.mp h
    exact fun e he ↦ (hc e he).snoc operation
  · next hread =>
    split at h
    · obtain ⟨_, hroom, h⟩ := Checked.bind_ok.mp h
      have hdelete : ∃ permission, c.delete id permission = c' := by
        rcases previous with _ | old
        all_goals
          obtain ⟨permission, -, h⟩ := Checked.bind_ok.mp h
          exact ⟨permission, Checked.pure_ok.mp h⟩
      obtain ⟨permission, rfl⟩ := hdelete
      rw [Checked.throwIf_ok, hprevious] at hroom
      exact hsnoc (.delete hvalid haccess hroom)
    · next hdelete =>
      split at h
      · unfold Crud.storeChange at h
        simp only [Checked.bind_ok, Checked.pure_ok] at h
        obtain ⟨_, -, _, -, given, -, item, hitem, type, -, rfl⟩ := h
        obtain rfl := queryUpdatedItem_eq hitem
        have hstores : stores id operation := by
          rw [stores, hid, haction]
          simp [Except.toOption, hread, hdelete]
        exact hsnoc (.store hvalid (hprevious ▸ hitem)
          ⟨operation, List.mem_append_right _ (List.mem_singleton_self _), hstores⟩)
      · exact absurd h Checked.reject_ok

theorem checkChange_checks {a : Admitted} {d : Json} {c : Crud.Changes} {operations : List Json}
    (hc : ∀ e ∈ c.prepared, CheckedEvent a d operations e) (operation : Json) :
    Yields (fun s : Storage ↦ s.document = d)
      (Crud.checkChange (storageBackend base readNumber visit) a c operation)
      fun c' ↦ ∀ e ∈ c'.prepared, CheckedEvent a d (operations ++ [operation]) e := by
  refine yields_step fun id hid ↦ yields_step fun _ hvalid ↦ ?_
  have hvalid : validQueryItemId id := by
    have hid := Checked.throwIf_ok.mp hvalid
    simp only [Bool.or_eq_false_iff, Bool.not_eq_false'] at hid
    exact hid.1
  refine yields_bind (P := fun previous ↦ previous.getD .null = itemOf d id) ?_ fun previous h ↦ ?_
  · rintro s previous s' rfl hrun
    have hkept := @readItem_keeps base readNumber visit a.route.id (· = s.document) id s rfl
    rw [hrun] at hkept
    exact ⟨hkept, readItem_run hrun⟩
  · exact yields_lift fun c' hchange ↦ change_checks hid hvalid h hc hchange

theorem checkChange_keeps {P : Json → Prop} (a : Admitted) (c : Crud.Changes) (operation : Json) :
    Keeps (fun s : Storage ↦ P s.document)
      (Crud.checkChange (storageBackend base readNumber visit) a c operation) := by
  refine keeps_step fun id ↦ keeps_step fun _ ↦ keeps_bind (readItem_keeps _) fun previous ↦ ?_
  exact keeps_lift _

/-! ### Applying -/

/-- What an event makes of an item. -/
inductive Makes (id : String) : Json → Json → Prop
  | delete : Makes id (Crud.deletion id) .null
  | store {type : String} {item item' : Json} (same : SameFields item item') :
      Makes id (Crud.update type id item) item'

/-- The events so far, of those that were checked, were applied or were not. -/
structure Applying (d : Json) (events : List Json) (d' : Json) : Prop where
  inOrder : InOrder d'
  items : ∀ id, itemOf d' id = itemOf d id ∨ ∃ e ∈ events, Makes id e (itemOf d' id)

/-- A write of an item was made or was not. -/
theorem Applying.writing {d : Json} {events : List Json} {s : Storage}
    (h : Applying d events s.document)
    {f : Json → Option Json} {id : String} {event item : Json} (hevent : event ∈ events)
    (hmakes : Makes id event item)
    (hf : ∀ d', f s.document = some d' → InOrder d' ∧ itemOf d' id = item ∧
      ∀ id', id' ≠ id → itemOf d' id' = itemOf s.document id') :
    Applying d events (Storage.writing f s).2.document := by
  rcases Storage.writing_document f s with hsame | hwritten
  · exact ⟨hsame ▸ h.inOrder, fun id' ↦ hsame ▸ h.items id'⟩
  · obtain ⟨hin, hitem, hothers⟩ := hf _ hwritten
    refine ⟨hin, fun id' ↦ ?_⟩
    by_cases hid : id' = id
    · rw [hid, hitem]
      exact Or.inr ⟨event, hevent, hmakes⟩
    · rw [hothers id' hid]
      exact h.items id'

theorem deletion_keeps {d : Json} {events : List Json} {id : String} (hvalid : validQueryItemId id)
    (hevent : Crud.deletion id ∈ events) (canvas : ℤ) :
    Keeps (fun s ↦ Applying d events s.document)
      (Events.apply (storageBackend base readNumber visit) canvas (Crud.deletion id)) := by
  have hid : id ≠ "" := by
    rintro rfl
    exact absurd hvalid (by decide)
  have hrun : Events.apply (storageBackend base readNumber visit) canvas (Crud.deletion id)
      = liftM ((storageBackend base readNumber visit).removeItem canvas id) := by
    change (if id = "" then (pure false : Query Storage Bool) else
      liftM ((storageBackend base readNumber visit).removeItem canvas id)) = _
    rw [if_neg hid]
  rw [hrun]
  intro s hs
  rw [call_run]
  refine Applying.writing hs hevent .delete fun d' hd' ↦ ?_
  obtain rfl := Option.some.inj hd'
  exact InOrder.prune (Applying.inOrder hs) id

/-- Merging histories changes nothing else. -/
theorem mergeStored_same (kind : String) (item : List (String × Json)) (found : Option Json) :
    SameFields (.obj item) (.obj (Events.mergeStored kind item found)) := by
  have hkeep : ∀ previous, SameFields (.obj item) (.obj (Events.keepBase previous item)) := by
    intro previous k hsnapshot _
    rw [Events.keepBase]
    split
    · rw [field?_obj, field?_obj, Assoc.lookup_set_of_ne hsnapshot.symm]
    · rfl
  have hpreserve : ∀ previous,
      SameFields (.obj item) (.obj (Events.preserveHistory previous item)) := by
    intro previous k hsnapshot hchanges
    rw [Events.preserveHistory, field?_obj, Assoc.lookup_set_of_ne hchanges.symm]
    exact hkeep previous k hsnapshot hchanges
  rw [Events.mergeStored.eq_def]
  split
  · split
    · split
      · exact hpreserve _
      · exact fun _ _ _ ↦ rfl
    · exact fun _ _ _ ↦ rfl
  · exact fun _ _ _ ↦ rfl

theorem withHistory_same {P : Json → Prop} (canvas : ℤ) (key kind : String)
    (item : List (String × Json)) :
    Yields (fun s : Storage ↦ P s.document)
      (liftM (Events.withHistory (storageBackend base readNumber visit) canvas key kind item) :
        Query Storage _) fun item' ↦ SameFields (.obj item) (.obj item') := by
  unfold Events.withHistory
  split
  · rintro s item' s' hs hrun
    rw [call_run, Prod.mk.injEq, Except.ok.injEq] at hrun
    obtain ⟨hitem, hdocument⟩ := hrun
    have hread := (Storage.reading_run (fun d ↦
      some (Json.arr (d.find (["items", key].map .key)).toList)) s).1
    refine ⟨?_, ?_⟩
    · rw [← hdocument]
      change P (Storage.reading (fun d ↦
        some (Json.arr (d.find (["items", key].map .key)).toList)) s).2.document
      rw [hread]
      exact hs
    · rw [← hitem]
      exact mergeStored_same kind item _
  · exact yields_pure fun _ _ _ ↦ rfl

theorem withHistory_keeps {P : Json → Prop} (canvas : ℤ) (key kind : String)
    (item : List (String × Json)) :
    Keeps (fun s : Storage ↦ P s.document)
      (liftM (Events.withHistory (storageBackend base readNumber visit) canvas key kind item) :
        Query Storage _) := by
  intro s hs
  exact (withHistory_same canvas key kind item s _ _ hs rfl).1

theorem update_keeps {d : Json} {events : List Json} {type id : String}
    {fields : List (String × Json)} (hvalid : validQueryItemId id)
    (hevent : Crud.update type id (.obj fields) ∈ events) (canvas : ℤ) :
    Keeps (fun s ↦ Applying d events s.document)
      (Events.apply (storageBackend base readNumber visit) canvas
        (Crud.update type id (.obj fields))) := by
  have hid : id ≠ "" := by
    rintro rfl
    exact absurd hvalid (by decide)
  have hrun : Events.apply (storageBackend base readNumber visit) canvas
      (Crud.update type id (.obj fields)) = liftM ((Json.obj fields).valueString "kind" "") >>=
        fun kind ↦ (liftM (Events.withHistory (storageBackend base readNumber visit) canvas id
          kind fields) : Query Storage _) >>= fun item ↦
            liftM ((storageBackend base readNumber visit).storeItem canvas id (.obj item)) := by
    rw [Crud.update]
    split
    all_goals
      change (if id = "" then (pure false : Query Storage Bool) else _) = _
      rw [if_neg hid]
      rfl
  rw [hrun]
  refine keeps_step fun kind ↦ ?_
  refine leads_bind (withHistory_keeps (P := Applying d events) _ _ _ _)
    (withHistory_same (P := Applying d events) _ _ _ _) (fun _ hs ↦ hs) fun item hsame s hs ↦ ?_
  rw [call_run]
  exact Applying.writing hs hevent (.store hsame) fun d' hd' ↦ InOrder.set (Applying.inOrder hs) hd'

/-- Applying an event that was checked. -/
theorem apply_keeps {a : Admitted} {d : Json} {operations events : List Json} {event : Json}
    (hchecks : CheckedEvent a d operations event) (hevent : event ∈ events) (canvas : ℤ) :
    Keeps (fun s ↦ Applying d events s.document)
      (Events.apply (storageBackend base readNumber visit) canvas event) := by
  rcases hchecks with ⟨hvalid, -, -⟩ | @⟨type, id, item, hvalid, hchecked, -⟩
  · exact deletion_keeps hvalid hevent canvas
  · obtain ⟨_, hobject, -⟩ := Checked.bind_ok.mp hchecked
    rw [Checked.throwIf_ok] at hobject
    obtain ⟨fields, rfl⟩ : ∃ fields, item = .obj fields := by
      rcases item
      all_goals simp [Json.isObject] at hobject ⊢
    exact update_keeps hvalid hevent canvas

theorem applyAll_keeps {a : Admitted} {d : Json} {operations events : List Json} (canvas : ℤ)
    (l : List Json) (hl : ∀ e ∈ l, CheckedEvent a d operations e ∧ e ∈ events) (applied : ℕ) :
    Keeps (fun s ↦ Applying d events s.document)
      (Crud.applyAll (storageBackend base readNumber visit) canvas l applied) := by
  induction l generalizing applied with
  | nil => exact keeps_pure _
  | cons event l ih =>
    obtain ⟨⟨hchecks, hevent⟩, hrest⟩ := List.forall_mem_cons.mp hl
    refine keeps_bind (apply_keeps hchecks hevent canvas) fun succeeded ↦ ?_
    rcases succeeded
    · exact keeps_pure _
    · exact ih hrest _

/-- An item that was made by an event that was checked. -/
theorem Makes.origin {dumpSize : Json → ℕ} {a : Admitted} {d event item' : Json} {id : String}
    (hsingle : Single a) (hmakes : Makes id event item')
    (hchecks : CheckedEvent a d (changed a) event) :
    Origin dumpSize a id (itemOf d id) item' := by
  rcases hmakes with _ | @⟨type, item, _, hsame⟩
  · generalize hevent : Crud.deletion id = event at hchecks
    rcases hchecks with @⟨id', -, haccess, hroom⟩ | ⟨-, -, -⟩
    · obtain rfl : id = id' := by simpa [Crud.deletion] using hevent
      exact .removed hsingle haccess hroom
    · simp [Crud.deletion, Crud.update] at hevent
  · generalize hevent : Crud.update type id item = event at hchecks
    rcases hchecks with ⟨-, -, -⟩ | @⟨type', id', item', -, hchecked, hasked⟩
    · simp [Crud.deletion, Crud.update] at hevent
    · obtain ⟨-, rfl, rfl⟩ : _ ∧ id = id' ∧ item = item' := by
        simpa [Crud.update] using hevent
      exact .stored hsingle hchecked hsame hasked

theorem Applying.written {dumpSize : Json → ℕ} {a : Admitted} {d d' : Json} {events : List Json}
    (hsingle : Single a) (h : Applying d events d')
    (hchecks : ∀ e ∈ events, CheckedEvent a d (changed a) e) : Written dumpSize a d d' := by
  refine ⟨h.inOrder, fun id ↦ ?_⟩
  rcases h.items id with hsame | ⟨event, hevent, hmakes⟩
  · rw [hsame]
    exact .kept
  · exact hmakes.origin hsingle (hchecks event hevent)

/-- A query for changes of single items, however its calls end. -/
theorem crud_written {a : Admitted} (hsingle : Single a) {d : Json}
    (h : InOrder d) :
    Leads (fun s : Storage ↦ s.document = d) (fun s ↦ Written base.dumpSize a d s.document)
      (Crud.crud (storageBackend base readNumber visit) a) := by
  have hstart : ∀ s : Storage, s.document = d → Written base.dumpSize a d s.document := by
    rintro s rfl
    exact .refl h
  refine leads_step hstart fun operations hoperations ↦ ?_
  have hchanged : changed a = operations := by
    rw [changed, hoperations]
    rfl
  refine leads_bind (P := fun c : Crud.Changes ↦ ∀ e ∈ c.prepared, CheckedEvent a d (changed a) e)
    (keeps_foldlM (fun c operation ↦ @checkChange_keeps base readNumber visit (· = d) a c operation)
      _ _) ?_ hstart ?_
  · rw [hchanged]
    refine yields_foldlM (P := fun done (c : Crud.Changes) ↦
      ∀ e ∈ c.prepared, CheckedEvent a d done e)
      (fun _ c operation hc ↦ checkChange_checks hc operation) operations [] ?_
    exact List.forall_mem_nil _
  · rintro c hchecks s rfl
    refine Applying.written hsingle ?_ hchecks
    refine keeps_bind (I := fun t ↦ Applying s.document c.prepared t.document)
      (applyAll_keeps (a := a) a.route.id c.prepared (fun e he ↦ ⟨hchecks e he, he⟩) 0) ?_ s
      ⟨h, fun _ ↦ Or.inl rfl⟩
    rintro ⟨applied, succeeded⟩
    rcases succeeded
    · exact keeps_pure _
    · refine keeps_bind ?_ fun flushed ↦ ?_
      · intro t ht
        rw [call_run]
        rcases Storage.writing_document some t with hsame | hwritten
        · exact hsame ▸ ht
        · exact Option.some.inj hwritten ▸ ht
      · rcases flushed
        · exact keeps_pure _
        · exact keeps_pure _

end Crud

/-! ## Queries -/

/-- A query that may change items: neither of the settings, nor of the mentions, nor of a chat. -/
def ItemQuery (a : Admitted) : Prop :=
  "canvas_settings_".isPrefixOf a.type = false ∧
    a.type ∉ ["mentions_get", "mention_read", "chat", "chat_history"]

instance (a : Admitted) : Decidable (ItemQuery a) := inferInstanceAs (Decidable (_ ∧ _))

/-- **What a query leaves.** -/
theorem performQuery_written {base : Backend Storage} {readNumber : String → Option ℚ}
    {visit : Visit} {a : Admitted} (ha : ItemQuery a) {d : Json} (h : InOrder d) :
    Leads (fun s : Storage ↦ s.document = d) (fun s ↦ Written base.dumpSize a d s.document)
      (performQuery (storageBackend base readNumber visit) a) := by
  obtain ⟨hsettings, hother⟩ := ha
  simp only [List.mem_cons, List.not_mem_nil, or_false, not_or] at hother
  obtain ⟨hmentions, hread, hchat, hhistory⟩ := hother
  rw [performQuery]
  split
  · next hbatch => exact canvasQuery_written hbatch h
  · next hbatch =>
    split
    · rintro s rfl
      exact .refl h
    · next hlease =>
      rw [hsettings, if_neg Bool.false_ne_true, if_neg (not_or.mpr ⟨hmentions, hread⟩),
        if_neg (not_or.mpr ⟨hchat, hhistory⟩)]
      refine crud_written (fun hmem ↦ ?_) h
      simp only [List.mem_cons, List.not_mem_nil, or_false] at hmem
      rcases hmem with hops | hsync | hleased
      · exact hbatch (Or.inl hops)
      · exact hbatch (Or.inr hsync)
      · exact hlease hleased

end Agora
