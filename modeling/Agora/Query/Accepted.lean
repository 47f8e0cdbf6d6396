import Agora.Broker.ExactlyOnce

/-!
# Accepted batches

What a `canvas_ops` query does that is answered, on a storage with faults: either its batch was
applied before, and at most an empty ledger is created, or its batch is applied as it was staged
from the very document it is applied to (`canvasQuery_accepted`).
-/

namespace Agora

open Broker Query

/-! ## Staging from a document -/

/-- A stored item, null when it is not there. -/
def itemOf (d : Json) (id : String) : Json := (d.find (itemPath id)).getD .null

/-- Whether an operation is a translation. -/
def isTranslation (operation : Json) : Bool :=
  decide (field? operation "action" = some (.str "translate"))

/-- A translation as everyone is told of it. -/
def translationOf (operation : Json) : Json :=
  .obj [("ids", (field? operation "ids").getD .null),
    ("dx", .float (numberIn (field? operation "dx"))),
    ("dy", .float (numberIn (field? operation "dy")))]

/-- An operation lists items, each once. -/
def ListsOnce (operation : Json) : Prop :=
  ∃ ids, field? operation "ids" = some (.arr ids) ∧ ids.Nodup

/-- Everything that is staged for a batch comes from the items of a document. -/
structure StagedFrom (dumpSize : Json → ℕ) (groups : List String) (admin : Bool) (d : Json)
    (operations : List Json) (mutation : Mutation) : Prop where
  nodup : (mutation.items.map Prod.fst).Nodup
  expected : mutation.expected.map Prod.fst = mutation.items.map Prod.fst
  untouched : ∀ id, mutation.items.lookup id = none → historyOf operations id = []
  previous : ∀ id item, mutation.items.lookup id = some item →
    mutation.previous.lookup id = some (itemOf d id)
  access : ∀ id item, mutation.items.lookup id = some item →
    itemOf d id = .null ∨ queryCanAccess (itemOf d id) groups admin
  revision : ∀ id item, mutation.items.lookup id = some item → ∃ revision,
    mutation.expected.lookup id = some revision ∧ readRevision (itemOf d id) = .ok revision
  edited : ∀ id item, mutation.items.lookup id = some item → ∃ start,
    visibleItem (itemOf d id) = .ok start ∧
      Edits dumpSize groups admin (historyOf operations id) start item
  only : mutation.onlyTranslations = operations.all isTranslation
  translations : mutation.translations = (operations.filter isTranslation).map translationOf
  once : ∀ operation ∈ operations, isTranslation operation → ListsOnce operation

/-! ### The translations of a batch -/

section Translations

variable {σ : Type} {I : σ → Prop} {read : String → Query σ (Option Json)}
  {dumpSize : Json → ℕ} {groups : List String} {admin : Bool}

/-- The translations that were staged so far. -/
structure Translated (operations : List Json) (result : Mutation) : Prop where
  only : result.onlyTranslations = operations.all isTranslation
  translations : result.translations = (operations.filter isTranslation).map translationOf
  once : ∀ operation ∈ operations, isTranslation operation → ListsOnce operation

variable (hread : ∀ id, Keeps I (read id))

include hread

theorem get_translated {operations : List Json} {result : Mutation}
    (h : Translated operations result) (id : String) :
    Yields I (get read groups admin result id) fun r ↦ Translated operations r.2 := by
  refine yields_step fun _ _ ↦ ?_
  cases result.items.lookup id with
  | some item => exact yields_pure h
  | none =>
    refine yields_bind (hread id).yields fun found _ ↦ yields_step fun _ _ ↦ ?_
    exact yields_step fun _ _ ↦ yields_step fun _ _ ↦ yields_pure ⟨h.only, h.translations, h.once⟩

theorem translateOne_translated {operations : List Json} {dx dy : ℚ}
    {state : Mutation × List String} (h : Translated operations state.1) (value : Json) :
    Yields I (translateOne dumpSize read groups admin dx dy state value) fun r ↦
      Translated operations r.1 ∧ ∃ id, value = .str id ∧ id ∉ state.2 ∧ r.2 = id :: state.2 := by
  refine yields_step fun _ _ ↦ yields_step fun id hid ↦ yields_step fun _ hnew ↦ ?_
  refine yields_bind (get_translated hread h _) fun r hr ↦ ?_
  refine yields_step fun _ _ ↦ yields_step fun _ _ ↦ yields_step fun _ _ ↦ ?_
  refine yields_step fun _ _ ↦ yields_step fun _ _ ↦ yields_step fun _ _ ↦ ?_
  refine yields_step fun _ _ ↦ yields_pure ⟨⟨hr.only, hr.translations, hr.once⟩, id, ?_, ?_, rfl⟩
  · exact getString_ok hid
  · simpa using Checked.throwIf_ok.mp hnew

/-- The items that were moved so far, each once. -/
structure MovedOnce (operations : List Json) (done : List Json) (state : Mutation × List String) :
    Prop where
  translated : Translated operations state.1
  seen : ∀ id, Json.str id ∈ done → id ∈ state.2
  nodup : done.Nodup

theorem translateAll_translated {operations : List Json} {dx dy : ℚ} {result : Mutation}
    (h : Translated operations result) (ids : List Json) :
    Yields I (ids.foldlM (translateOne dumpSize read groups admin dx dy) (result, []))
      (MovedOnce operations ids) := by
  refine yields_foldlM (P := MovedOnce operations) ?_ ids [] ⟨h, by simp, List.nodup_nil⟩
  intro done state value hdone
  refine (translateOne_translated hread hdone.translated value).mono ?_
  rintro r ⟨htranslated, id, rfl, hnew, hseen⟩
  have hnotMem : Json.str id ∉ done := fun hmem ↦ hnew (hdone.seen id hmem)
  refine ⟨htranslated, fun id' hmem ↦ ?_, ?_⟩
  · rw [hseen, List.mem_cons]
    rcases List.mem_append.mp hmem with hmem | hmem
    · exact Or.inr (hdone.seen id' hmem)
    · exact Or.inl (Json.str.inj (List.mem_singleton.mp hmem))
  · rw [List.nodup_append]
    refine ⟨hdone.nodup, List.nodup_singleton _, ?_⟩
    intro v hv w hw heq
    rw [List.mem_singleton] at hw
    exact hnotMem (hw ▸ heq ▸ hv)

theorem translate_translated {operations : List Json} {result : Mutation}
    (h : Translated operations result) {operation : Json}
    (haction : field? operation "action" = some (.str "translate")) :
    Yields I (translate dumpSize read groups admin result operation)
      (Translated (operations ++ [operation])) := by
  refine yields_step fun ids hids ↦ yields_step fun _ hsize ↦ yields_step fun _ _ ↦ ?_
  refine yields_step fun _ _ ↦ yields_step fun x hx ↦ yields_step fun dx hdx ↦ ?_
  refine yields_step fun y hy ↦ yields_step fun dy hdy ↦ yields_step fun _ _ ↦ ?_
  refine yields_bind (translateAll_translated hread h ids.elements) ?_
  intro r hr
  have hfield : field? operation "ids" = some ids ∧ ids.isArray := by
    rw [Checked.throwIf_ok] at hsize
    rcases field?_of_value hids with ⟨v, hv, hsame⟩ | ⟨-, rfl⟩
    · refine ⟨hv.trans (congrArg some (Except.ok.inj hsame)), ?_⟩
      simp only [Bool.or_eq_false_iff, Bool.not_eq_false'] at hsize
      exact hsize.1.1
    · simp [Json.isArray, Json.size] at hsize
  refine yields_pure ⟨?_, ?_, ?_⟩
  · rw [List.all_append, ← hr.translated.only]
    simp [isTranslation, haction]
  · rw [List.filter_append, List.map_append, ← hr.translated.translations]
    simp [isTranslation, haction, translationOf, hfield.1, field?_of_index hx, field?_of_index hy,
      numberIn_of_getDouble hdx, numberIn_of_getDouble hdy]
  · intro operation' hmem htranslation
    rcases List.mem_append.mp hmem with hmem | hmem
    · exact hr.translated.once operation' hmem htranslation
    · obtain rfl := List.mem_singleton.mp hmem
      cases ids with
      | arr elements => exact ⟨elements, hfield.1, hr.nodup⟩
      | _ => exact absurd hfield.2 Bool.false_ne_true

theorem prepareOperation_translated {operations : List Json} {result : Mutation}
    (h : Translated operations result) (operation : Json) :
    Yields I (prepareOperation dumpSize read groups admin result operation)
      (Translated (operations ++ [operation])) := by
  refine yields_step fun _ _ ↦ yields_step fun action haction ↦ ?_
  split
  · next htranslate =>
    subst htranslate
    have hfield := field?_of_valueString haction (by decide)
    refine yields_bind (translate_translated hread h hfield) fun r hr ↦ ?_
    exact yields_step fun _ _ ↦ yields_pure hr
  · next hother =>
    have hno : isTranslation operation = false := by
      rw [isTranslation, decide_eq_false_iff_not]
      intro hfield
      rcases field?_of_value haction with ⟨v, hv, hs⟩ | ⟨hnone, -⟩
      · rw [hfield, Option.some.injEq] at hv
        rw [← hv] at hs
        exact hother (Except.ok.inj hs).symm
      · rw [hfield] at hnone
        nomatch hnone
    have hnext :
        Translated (operations ++ [operation]) { result with onlyTranslations := false } := by
      refine ⟨?_, ?_, ?_⟩
      · simp [hno]
      · rw [List.filter_append, List.map_append, ← h.translations]
        simp [hno]
      · intro operation' hmem htranslation
        rcases List.mem_append.mp hmem with hmem | hmem
        · exact h.once operation' hmem htranslation
        · rw [List.mem_singleton.mp hmem, hno] at htranslation
          exact absurd htranslation (by decide)
    refine yields_step fun id _ ↦ yields_bind (get_translated hread hnext id) fun r hr ↦ ?_
    dsimp only
    split
    · refine yields_lift fun r' hr' ↦ ?_
      obtain ⟨_, -, hr'⟩ := Checked.bind_ok.mp hr'
      obtain ⟨_, -, hr'⟩ := Checked.bind_ok.mp hr'
      rw [← Checked.pure_ok.mp hr']
      exact ⟨hr.only, hr.translations, hr.once⟩
    · refine yields_lift fun r' hr' ↦ ?_
      unfold Broker.storeItem at hr'
      simp only [Checked.bind_ok, Checked.pure_ok] at hr'
      obtain ⟨_, -, _, -, _, -, item, -, _, -, rfl⟩ := hr'
      exact ⟨hr.only, hr.translations, hr.once⟩

theorem prepare_translated (operations : Json) :
    Yields I (prepare dumpSize read groups admin operations)
      (Translated operations.elements) := by
  refine yields_step fun _ _ ↦ ?_
  refine yields_bind (yields_foldlM (P := Translated) ?_ operations.elements []
    ⟨rfl, rfl, by simp⟩) ?_
  · exact fun _ _ operation h ↦ prepareOperation_translated hread h operation
  · intro result hresult
    refine yields_bind (keeps_forM (fun e : String × Json ↦
      checkConnector_keeps hread result e.2) _).yields ?_
    exact fun _ _ ↦ yields_step fun _ _ ↦ yields_pure hresult

end Translations

/-! ## Reading from the storage -/

section Storage

variable {base : Backend Storage} {readNumber : String → Option ℚ} {visit : Visit}
  {id : ℤ}

theorem keeps_reading {α : Type} {P : Json → Prop} (f : Json → α) :
    Keeps (fun s : Storage ↦ P s.document) (liftM (Storage.reading f) : Query Storage _) := by
  intro s hs
  rw [call_run]
  dsimp only
  rw [(Storage.reading_run f s).1]
  exact hs

theorem itemOf_list (d : Json) (id : String) :
    (d.find (itemPath id)).toList.head?.getD .null = itemOf d id := by
  rw [itemOf]
  cases d.find (itemPath id) <;> rfl

theorem readItem_keeps {P : Json → Prop} (item : String) :
    Keeps (fun s : Storage ↦ P s.document)
      (readItem (storageBackend base readNumber visit) id item) := by
  refine keeps_bind (keeps_reading _) fun raw ↦ keeps_bind ?_ fun _ ↦ keeps_bind (keeps_lift _) ?_
  · cases raw with
    | none => exact keeps_fail _
    | some text => exact keeps_pure _
  · intro found
    unfold itemMatches
    split
    · exact keeps_pure _
    · exact keeps_fail _

/-- An item that is read is the one that is stored. -/
theorem readItem_run {s s' : Storage} {item : String} {found : Option Json}
    (h : readItem (storageBackend base readNumber visit) id item s = (.ok found, s')) :
    found.getD .null = itemOf s.document item := by
  obtain ⟨raw, t, hread, hrest⟩ := bind_ok.mp h
  obtain ⟨text, t₁, htext, hrest₁⟩ := bind_ok.mp hrest
  obtain ⟨v, t₂, hparse, hitem⟩ := bind_ok.mp hrest₁
  cases raw with
  | none => nomatch htext
  | some raw =>
    have hraw := (Storage.reading_run (fun d ↦
      some (Json.arr (d.find (["items", item].map .key)).toList)) s).2 raw
      (by rw [call_run, Prod.mk.injEq, Except.ok.injEq] at hread; exact hread.1)
    rw [orUnavailable, pure_run, Prod.mk.injEq, Except.ok.injEq] at htext
    rw [← htext.1, hraw, lift_run, parse, Prod.mk.injEq, Except.ok.injEq] at hparse
    rw [← hparse.1, itemMatches, pure_run, Prod.mk.injEq, Except.ok.injEq] at hitem
    rw [← hitem.1]
    exact itemOf_list s.document item

/-- An item that was loaded, or is read, is the one that is stored. -/
theorem reads_loaded {s s' : Storage} {ids : List String} {loaded : List (String × Json)}
    (hload : (storageBackend base readNumber visit).readBrokerItems id ids s = (some loaded, s'))
    {item : String} {old : Json} (h : Reads (fun t : Storage ↦ t.document = s.document)
      (readLoaded (storageBackend base readNumber visit) id loaded) item old) :
    old = itemOf s.document item := by
  have hloaded : loaded = ids.map fun id ↦ (id, itemOf s.document id) :=
    (Storage.reading_run (fun d ↦ ids.map fun id ↦ (id, itemOf d id)) s).2 loaded
      (congrArg Prod.fst hload)
  obtain ⟨t, t', found, ht, hrun, rfl⟩ := h
  have hlookup : ∀ v, loaded.lookup item = some v → v = itemOf s.document item := by
    intro v hv
    have hmem := Assoc.mem_of_lookup hv
    rw [hloaded] at hmem
    obtain ⟨id', -, heq⟩ := List.mem_map.mp hmem
    rw [Prod.mk.injEq] at heq
    rw [← heq.2, heq.1]
  cases hitem : loaded.lookup item with
  | none =>
    simp only [readLoaded, hitem] at hrun
    rw [readItem_run hrun, ht]
  | some v =>
    have hfound : found.getD .null = v := by
      cases v <;>
        simp only [readLoaded, hitem, pure_run, Prod.mk.injEq, Except.ok.injEq] at hrun <;>
        rw [← hrun.1] <;> rfl
    rw [hfound]
    exact hlookup v hitem

/-- A batch is prepared from what is stored. -/
theorem prepareNew_prepare {groups : List String} {admin : Bool} {operations : Json}
    {mutation : Mutation} {s s' : Storage}
    (h : prepareNew (storageBackend base readNumber visit) id groups admin operations s
      = (.ok mutation, s')) :
    ∃ read t, (∀ item, Keeps (fun t : Storage ↦ t.document = s.document) (read item)) ∧
      (∀ item old, Reads (fun t : Storage ↦ t.document = s.document) read item old →
        old = itemOf s.document item) ∧ t.document = s.document ∧
      prepare base.dumpSize read groups admin operations t = (.ok mutation, s') := by
  have hread : ∀ item, Keeps (fun t : Storage ↦ t.document = s.document)
      (readItem (storageBackend base readNumber visit) id item) :=
    @readItem_keeps base readNumber visit id (· = s.document)
  obtain ⟨_, t, hcheck, h⟩ := bind_ok.mp h
  obtain ⟨wanted, t₁, hwanted, h⟩ := bind_ok.mp h
  obtain ⟨answer, t₂, hanswer, h⟩ := bind_ok.mp h
  obtain ⟨loaded, t₃, hloaded, h⟩ := bind_ok.mp h
  rw [lift_run, Prod.mk.injEq] at hcheck hwanted
  rw [call_run, Prod.mk.injEq, Except.ok.injEq] at hanswer
  obtain rfl : s = t₁ := hcheck.2.trans hwanted.2
  cases answer with
  | none => nomatch hloaded
  | some answer =>
    rw [orUnavailable, pure_run, Prod.mk.injEq, Except.ok.injEq] at hloaded
    obtain ⟨rfl, rfl⟩ := hloaded
    refine ⟨_, t₂, readLoaded_keeps hread answer, fun item old hold ↦ ?_, ?_, h⟩
    · exact reads_loaded (Prod.ext hanswer.1 rfl) hold
    · rw [← hanswer.2]
      exact @keeps_reading _ (· = s.document)
        (fun d ↦ wanted.map fun id ↦ (id, itemOf d id)) s rfl

/-- What is staged comes from the document, and staging changes nothing. -/
theorem prepareNew_staged {groups : List String} {admin : Bool} {operations : Json}
    {mutation : Mutation} {s s' : Storage}
    (h : prepareNew (storageBackend base readNumber visit) id groups admin operations s
      = (.ok mutation, s')) :
    StagedFrom base.dumpSize groups admin s.document operations.elements mutation ∧
      s'.document = s.document := by
  obtain ⟨read, t, hread, hreads, ht, hprepare⟩ := prepareNew_prepare h
  obtain ⟨hdocument, htraced⟩ := prepare_traced hread operations t mutation s' ht hprepare
  obtain ⟨-, htranslated⟩ := prepare_translated hread operations t mutation s' ht hprepare
  have htrace : ∀ item v, mutation.items.lookup item = some v → ∃ revision,
      mutation.previous.lookup item = some (itemOf s.document item) ∧
        mutation.expected.lookup item = some revision ∧
        Trace base.dumpSize groups admin (fun t : Storage ↦ t.document = s.document) read
          (historyOf operations.elements item) item (itemOf s.document item) revision v := by
    intro item v hv
    obtain ⟨old, revision, hprevious, hexpected, htrace⟩ := htraced.of_lookup hv
    obtain rfl := hreads item old htrace.reads
    exact ⟨revision, hprevious, hexpected, htrace⟩
  refine ⟨⟨htraced.nodup, htraced.expected, htraced.untouched, ?_, ?_, ?_, ?_, htranslated.only,
    htranslated.translations, htranslated.once⟩, hdocument⟩
  · intro item v hv
    obtain ⟨_, hprevious, -, -⟩ := htrace item v hv
    exact hprevious
  · intro item v hv
    obtain ⟨_, -, -, hv⟩ := htrace item v hv
    exact hv.access
  · intro item v hv
    obtain ⟨revision, -, hexpected, hv⟩ := htrace item v hv
    exact ⟨revision, hexpected, hv.revision⟩
  · intro item v hv
    obtain ⟨_, -, -, hv⟩ := htrace item v hv
    exact hv.edited

/-! ## What the memory says about a client -/

theorem firstMatch_toList (found : Option Json) :
    firstMatch (.arr found.toList) = .ok found := by
  cases found <;> rfl

theorem readMatch_run {keys : List String} {s s' : Storage} {found : Option Json}
    (h : readMatch (storageBackend base readNumber visit) id keys s = (.ok found, s')) :
    s'.document = s.document ∧ found = s.document.find (keys.map .key) := by
  obtain ⟨raw, t, hread, hrest⟩ := bind_ok.mp h
  obtain ⟨text, t₁, htext, hrest₁⟩ := bind_ok.mp hrest
  obtain ⟨v, t₂, hparse, hfirst⟩ := bind_ok.mp hrest₁
  have hrun := Storage.reading_run (fun d ↦ some (Json.arr (d.find (keys.map .key)).toList)) s
  rw [call_run, Prod.mk.injEq, Except.ok.injEq] at hread
  cases raw with
  | none => nomatch htext
  | some raw =>
    rw [orUnavailable, pure_run, Prod.mk.injEq, Except.ok.injEq] at htext
    rw [← htext.1, hrun.2 raw hread.1, lift_run, parse, Prod.mk.injEq, Except.ok.injEq] at hparse
    rw [← hparse.1, firstMatch_toList, lift_run, Prod.mk.injEq, Except.ok.injEq] at hfirst
    refine ⟨?_, hfirst.1.symm⟩
    rw [← hfirst.2, ← hparse.2, ← htext.2, ← hread.2]
    exact hrun.1

/-- What is read about a client is what is stored. -/
theorem brokerSyncState_run {client : String} {s s' : Storage} {sync : SyncState}
    (hclient : client ≠ "")
    (h : brokerSyncState (storageBackend base readNumber visit) id client s = (.ok sync, s')) :
    s'.document = s.document ∧ syncRevision (s.document.find revisionPath) = .ok sync.revision ∧
      sync.receipt = storedReceipt s.document client := by
  obtain ⟨found, t, hfound, hrest⟩ := bind_ok.mp h
  obtain ⟨revision, t₁, hrevision, hrest₁⟩ := bind_ok.mp hrest
  rw [if_neg hclient] at hrest₁
  obtain ⟨receipt, t₂, hreceipt, hsync⟩ := bind_ok.mp hrest₁
  rw [pure_run, Prod.mk.injEq, Except.ok.injEq] at hsync
  rw [lift_run, Prod.mk.injEq] at hrevision
  obtain ⟨hdocument, rfl⟩ := readMatch_run hfound
  obtain ⟨hdocument₂, rfl⟩ := readMatch_run hreceipt
  rw [← hrevision.2] at hdocument₂
  rw [← hsync.1, ← hsync.2]
  refine ⟨hdocument₂.trans hdocument, hrevision.1, ?_⟩
  rw [storedReceipt, ← hdocument, hrevision.2]
  rfl

/-! ## Accepted batches -/

/-- What a query leaves that is answered: its batch was applied before, or is applied as it was
staged from the document. -/
inductive Accepted (dumpSize : Json → ℕ) (a : Admitted) (operations : List Json) (d : Json)
    (b : Board) (reply : Json) (d' : Json) : Board → Prop
  | duplicate (created : LedgerCreated d d') (response : List (String × Json)) (revision : Json)
      (flag : response.lookup "duplicate" = some (.bool true))
      (reply_eq : reply = envelope a.route response [watermarkBroadcast revision]) :
      Accepted dumpSize a operations d b reply d' b
  | applied (request : BatchRequest) (mutation : Mutation) (response : List (String × Json))
      (broadcast : Json) (flag : response.lookup "duplicate" = some (.bool false))
      (staged : StagedFrom dumpSize a.groups a.admin d operations mutation)
      (limit : (b.revision : ℚ) + 1 < Broker.revisionLimit)
      (frame : FramesBatch (batchOf request mutation) d d')
      (told : ∃ client, commitBroadcast a { request with client := client } mutation
        (.int (b.revision + 1)) = .ok broadcast)
      (reply_eq : reply = envelope a.route response [broadcast]) :
      Accepted dumpSize a operations d b reply d' (b.apply (batchOf request mutation))

theorem clientKey_ne_empty (userId : ℤ) (client : String) : clientKey userId client ≠ "" := by
  intro h
  have hlist := congrArg String.toList h
  rw [clientKey, String.toList_append, String.toList_append] at hlist
  simp at hlist

/-- The script on the storage, when it is answered. -/
theorem applyBrokerBatch_run {batch : Batch} (hstaged : batch.Staged) {s s' : Storage} {b : Board}
    (hshows : Shows s.document b) {reply : Reply}
    (h : (storageBackend base readNumber visit).applyBrokerBatch id batch s = (some reply, s')) :
    ∃ b', Ran readNumber b batch s.document (some reply) s'.document b' := by
  have horder := visit.reordered batch
  obtain ⟨reply', d', b', hrun, hran⟩ :=
    applyBrokerBatch_spec readNumber (horder.staged hstaged) hshows
  have hscript := @Storage.scripted_run _ (fun d ↦
    let r := applyBrokerBatch readNumber (visit.order batch) (some d)
    (r.1, r.2.getD d)) s s' reply h
  simp only [hrun, Option.getD_some, Prod.mk.injEq] at hscript
  obtain ⟨rfl, rfl⟩ := hscript
  refine ⟨b', horder.outcome hstaged hran.outcome, hran.shows, ?_⟩
  exact hran.frame.imp_right fun ⟨hframe, hb⟩ ↦
    ⟨horder.frames hframe, hb.trans (horder.apply hstaged b)⟩

theorem Broker.Outcome.limit {b b' : Board} {clients : ℕ} {batch : Batch} {r : ℚ} {n : ℤ}
    (h : Outcome readNumber b clients batch (some (.applied r n)) b') :
    (b.revision : ℚ) + 1 < Broker.revisionLimit := by
  cases h with
  | applied _ _ _ hlimit => exact hlimit

theorem Broker.Outcome.duplicate_last {b b' : Board} {clients : ℕ} {batch : Batch}
    {revision : Option Json} {serverRevision n : ℚ}
    (h : Outcome readNumber b clients batch (some (.duplicate revision serverRevision n)) b') :
    batch.count = b.last batch.client := by
  cases h with
  | duplicate r receipt count =>
    rw [count, Board.last, receipt]
    rfl

theorem batchResponse_flag {reply : Reply} {request : BatchRequest} {client : String}
    {response : List (String × Json)} (h : batchResponse reply request client = .ok response)
    {fields : List (String × Json)} (hfields : reply.toJson = .obj fields) :
    response.lookup "duplicate" = fields.lookup "duplicate" := by
  rw [batchResponse, hfields] at h
  rw [← Checked.pure_ok.mp h, Assoc.lookup_set_of_ne (by decide),
    Assoc.lookup_set_of_ne (by decide), Assoc.lookup_set_of_ne (by decide),
    Assoc.lookup_set_of_ne (by decide)]

/-- A batch that was staged for a request has applied, or repeats one that has. -/
theorem answerBatch_accepted {a : Admitted} {client : String} {request : BatchRequest}
    {mutation : Mutation} {reply : Option Reply} {s s' : Storage} {answer : Json}
    (h : answerBatch a client request mutation reply s = (.ok answer, s')) : s' = s ∧
      ((∃ revision serverRevision accepted response,
        reply = some (.duplicate revision serverRevision accepted) ∧
          response.lookup "duplicate" = some (.bool true) ∧
          answer = envelope a.route response
            [watermarkBroadcast (Script.ofNumber serverRevision)]) ∨
        ∃ revision accepted response broadcast, reply = some (.applied revision accepted) ∧
          response.lookup "duplicate" = some (.bool false) ∧
          commitBroadcast a { request with client := client } mutation (Script.ofNumber revision)
            = .ok broadcast ∧ answer = envelope a.route response [broadcast]) := by
  cases reply with
  | none => nomatch h
  | some reply =>
    cases reply with
    | error code accepted => nomatch h
    | duplicate revision serverRevision accepted =>
      obtain ⟨response, t, hresponse, hrest⟩ := bind_ok.mp h
      rw [lift_run, Prod.mk.injEq] at hresponse
      rw [pure_run, Prod.mk.injEq, Except.ok.injEq] at hrest
      refine ⟨(hresponse.2.trans hrest.2).symm, Or.inl ⟨_, _, _, response, rfl, ?_, hrest.1.symm⟩⟩
      exact batchResponse_flag hresponse.1 rfl
    | applied revision accepted =>
      obtain ⟨response, t, hresponse, hrest⟩ := bind_ok.mp h
      obtain ⟨broadcast, t₁, hbroadcast, hrest₁⟩ := bind_ok.mp hrest
      rw [lift_run, Prod.mk.injEq] at hresponse hbroadcast
      rw [pure_run, Prod.mk.injEq, Except.ok.injEq] at hrest₁
      refine ⟨((hresponse.2.trans hbroadcast.2).trans hrest₁.2).symm, Or.inr ?_⟩
      exact ⟨_, _, response, broadcast, rfl, batchResponse_flag hresponse.1 rfl, hbroadcast.1,
        hrest₁.1.symm⟩

theorem batchRequest_ok {a : Admitted} {key : String} {request : BatchRequest}
    (h : batchRequest (storageBackend base readNumber visit) a key = .ok request) :
    requestCount a.event = .ok request.count ∧
      a.event.valueJson "operations" (.arr []) = .ok request.operations := by
  obtain ⟨count, hcount, hrest⟩ := Checked.bind_ok.mp h
  obtain ⟨operations, hoperations, hrequest⟩ := Checked.bind_ok.mp hrest
  rw [← Checked.pure_ok.mp hrequest]
  exact ⟨hcount, hoperations⟩

/-- What is staged for a request, given the receipt that is stored: nothing when its batch was
applied before, and else what is prepared. -/
theorem stageRequest_new {a : Admitted} {key : String} {s s' : Storage} {b : Board}
    (hshows : Shows s.document b) (hsane : b.Sane) {request : BatchRequest} {mutation : Mutation}
    (h : stageRequest (storageBackend base readNumber visit) a key (storedReceipt s.document key) s
      = (.ok (request, mutation), s')) :
    s'.document = s.document ∧ (batchOf request mutation).Staged ∧
      request.client = key ∧ requestCount a.event = .ok request.count ∧
      a.event.valueJson "operations" (.arr []) = .ok request.operations ∧
      (request.count ≤ b.last request.client ∨
        prepareNew (storageBackend base readNumber visit) a.route.id a.groups a.admin
          request.operations s = (.ok mutation, s')) := by
  have hflying := flying_of_stage hshows hsane h
  obtain ⟨hrequest, hstage⟩ := stageRequest_ok h
  obtain ⟨hkey, -⟩ := batchRequest_spec hrequest
  rw [← hkey] at hstage
  have hkeeps : Keeps (fun t : Storage ↦ t.document = s.document) (stageBatch
      (storageBackend base readNumber visit) a.route.id a.groups a.admin
      (storedReceipt s.document request.client) request) :=
    stageBatch_keeps (@readItem_keeps base readNumber visit _ (· = s.document))
      (fun ids ↦ @keeps_reading _ (· = s.document) _) _ _ _ _
  have hkept := hkeeps s rfl
  rw [hstage] at hkept
  obtain ⟨hcount, hoperations⟩ := batchRequest_ok hrequest
  refine ⟨hkept, hflying.staged, hkey, hcount, hoperations, ?_⟩
  exact (stageBatch_cases hshows hsane hstage).imp_left And.right

/-- Both queries first look up what is stored about their client. -/
theorem canvasQuery_key {a : Admitted} {s s' : Storage} {answer : Json}
    (h : canvasQuery (storageBackend base readNumber visit) a s = (.ok answer, s')) :
    ∃ client user sync accepted t, a.event.valueString "client_id" "" = .ok client ∧
      (a.identity.index "user_id" >>= Json.getLong) = .ok user ∧ t.document = s.document ∧
      syncRevision (s.document.find revisionPath) = .ok sync.revision ∧
      sync.receipt = storedReceipt s.document (clientKey user client) ∧
      (if a.type = "canvas_sync" then
        canvasSync (storageBackend base readNumber visit) a client sync accepted
      else canvasOps (storageBackend base readNumber visit) a client (clientKey user client) sync) t
        = (.ok answer, s') := by
  obtain ⟨client, t, hclient, hrest⟩ := bind_ok.mp h
  obtain ⟨_, t₁, hvalid, hrest₁⟩ := bind_ok.mp hrest
  obtain ⟨identity, t₂, hidentity, hrest₂⟩ := bind_ok.mp hrest₁
  obtain ⟨user, t₃, huser, hrest₃⟩ := bind_ok.mp hrest₂
  obtain ⟨sync, t₄, hsync, hrest₄⟩ := bind_ok.mp hrest₃
  obtain ⟨accepted, t₅, haccepted, hquery⟩ := bind_ok.mp hrest₄
  rw [lift_run, Prod.mk.injEq] at hclient hvalid hidentity huser haccepted
  obtain ⟨hclient, rfl⟩ := hclient
  obtain ⟨-, rfl⟩ := hvalid
  obtain ⟨hidentity, rfl⟩ := hidentity
  obtain ⟨huser, rfl⟩ := huser
  obtain ⟨-, rfl⟩ := haccepted
  obtain ⟨hdocument, hrevision, hreceipt⟩ :=
    brokerSyncState_run (clientKey_ne_empty user client) hsync
  refine ⟨client, user, sync, accepted, _, hclient, ?_, hdocument, hrevision, hreceipt, hquery⟩
  exact Checked.bind_ok.mpr ⟨identity, hidentity, huser⟩

theorem canvasQuery_ok {a : Admitted} {s s' : Storage} {answer : Json}
    (h : canvasQuery (storageBackend base readNumber visit) a s = (.ok answer, s')) :
    ∃ client user sync accepted t, t.document = s.document ∧
      syncRevision (s.document.find revisionPath) = .ok sync.revision ∧
      sync.receipt = storedReceipt s.document (clientKey user client) ∧
      (if a.type = "canvas_sync" then
        canvasSync (storageBackend base readNumber visit) a client sync accepted
      else canvasOps (storageBackend base readNumber visit) a client (clientKey user client) sync) t
        = (.ok answer, s') := by
  obtain ⟨client, user, sync, accepted, t, -, -, h⟩ := canvasQuery_key h
  exact ⟨client, user, sync, accepted, t, h⟩

/-- The last batch that was applied for the client of a query has its number. -/
def RepeatsLast (a : Admitted) (d : Json) : Prop :=
  ∃ client user count, a.event.valueString "client_id" "" = .ok client ∧
    (a.identity.index "user_id" >>= Json.getLong) = .ok user ∧
    requestCount a.event = .ok count ∧
    acceptedCount (storedReceipt d (clientKey user client)) = .ok count

/-- What a query leaves that is answered, with the preparation of its batch. -/
inductive Performed (base : Backend Storage) (readNumber : String → Option ℚ) (visit : Visit)
    (a : Admitted) (operations : Json) (d : Json) (b : Board) (reply : Json) (d' : Json) :
    Board → Prop
  | duplicate (repeats : RepeatsLast a d) (created : LedgerCreated d d')
      (response : List (String × Json)) (revision : Json)
      (flag : response.lookup "duplicate" = some (.bool true))
      (reply_eq : reply = envelope a.route response [watermarkBroadcast revision]) :
      Performed base readNumber visit a operations d b reply d' b
  | applied (fresh : ¬RepeatsLast a d) (request : BatchRequest) (mutation : Mutation)
      (t t' : Storage) (document : t.document = d)
      (prepared : prepareNew (storageBackend base readNumber visit) a.route.id a.groups a.admin
        operations t = (.ok mutation, t'))
      (response : List (String × Json)) (broadcast : Json)
      (flag : response.lookup "duplicate" = some (.bool false))
      (limit : (b.revision : ℚ) + 1 < Broker.revisionLimit)
      (frame : FramesBatch (batchOf request mutation) d d')
      (told : ∃ client, commitBroadcast a { request with client := client } mutation
        (.int (b.revision + 1)) = .ok broadcast)
      (reply_eq : reply = envelope a.route response [broadcast]) :
      Performed base readNumber visit a operations d b reply d' (b.apply (batchOf request mutation))

theorem repeatsLast_iff {a : Admitted} {d : Json} {b : Board} (hshows : Shows d b) (hsane : b.Sane)
    {client : String} {user count : ℤ} (hclient : a.event.valueString "client_id" "" = .ok client)
    (huser : (a.identity.index "user_id" >>= Json.getLong) = .ok user)
    (hcount : requestCount a.event = .ok count) :
    RepeatsLast a d ↔ count = b.last (clientKey user client) := by
  have haccepted : acceptedCount (storedReceipt d (clientKey user client))
      = .ok (b.last (clientKey user client)) := by
    rw [storedReceipt_eq hshows]
    exact acceptedCount_eq hsane _
  constructor
  · rintro ⟨client', user', count', hclient', huser', hcount', haccepted'⟩
    obtain rfl := Except.ok.inj (hclient.symm.trans hclient')
    obtain rfl := Except.ok.inj (huser.symm.trans huser')
    obtain rfl := Except.ok.inj (hcount.symm.trans hcount')
    exact Except.ok.inj (haccepted'.symm.trans haccepted)
  · rintro rfl
    exact ⟨client, user, _, hclient, huser, hcount, haccepted⟩

/-- **Answered batches.** -/
theorem canvasQuery_performed {a : Admitted} {s s' : Storage} {answer : Json} {b : Board}
    (hshows : Shows s.document b) (hsane : b.Sane) (htype : a.type ≠ "canvas_sync")
    (h : canvasQuery (storageBackend base readNumber visit) a s = (.ok answer, s')) :
    ∃ operations b', a.event.valueJson "operations" (.arr []) = .ok operations ∧
      Performed base readNumber visit a operations s.document b answer s'.document b' ∧
        Shows s'.document b' ∧ b'.Sane := by
  obtain ⟨client, user, sync, accepted, t, hclient, huser, hdocument, -, hreceipt, hquery⟩ :=
    canvasQuery_key h
  rw [if_neg htype] at hquery
  obtain ⟨⟨request, mutation⟩, t₁, hstage, hanswer⟩ := bind_ok.mp hquery
  obtain ⟨reply, t₂, hreply, hanswer⟩ := bind_ok.mp hanswer
  rw [call_run, Prod.mk.injEq, Except.ok.injEq] at hreply
  obtain ⟨hready, hanswered⟩ := answerBatch_accepted hanswer
  rw [hready, ← hreply.2]
  rw [hreceipt, ← hdocument] at hstage
  rw [← hdocument] at hshows ⊢
  obtain ⟨hkept, hstaged, hkey, hcount, hoperations, horigin⟩ :=
    stageRequest_new hshows hsane hstage
  have hrepeats := repeatsLast_iff hshows hsane hclient huser hcount
  rw [← hkey] at hrepeats
  rw [← hkept] at hshows
  rcases hanswered with ⟨revision, serverRevision, accepted, response, rfl, hflag, rfl⟩ |
    ⟨revision, accepted, response, broadcast, rfl, hflag, htold, rfl⟩
  · obtain ⟨b', hran⟩ := applyBrokerBatch_run hstaged hshows (Prod.ext hreply.1 rfl)
    have hlast := hran.outcome.duplicate_last
    obtain rfl := hran.outcome.unapplied nofun
    have hcreated : LedgerCreated t.document
        (((storageBackend base readNumber visit).applyBrokerBatch a.route.id
          (batchOf request mutation)) t₁).2.document := by
      rcases hran.frame with ⟨hcreated, -⟩ | ⟨-, hsame⟩
      · exact hkept ▸ hcreated
      · have hrevision : b'.revision = b'.revision + 1 := congrArg Board.revision hsame
        omega
    exact ⟨_, b', hoperations, .duplicate (hrepeats.mpr hlast) hcreated response _ hflag rfl,
      hran.shows, hsane⟩
  · obtain ⟨b', hran⟩ := applyBrokerBatch_run hstaged hshows (Prod.ext hreply.1 rfl)
    have hlimit := hran.outcome.limit
    obtain ⟨rfl, -, rfl, hnext, -⟩ := hran.outcome.applied_inv
    have hnext : request.count = b.last request.client + 1 := hnext
    have hprepared := horigin.resolve_left fun hle ↦ by omega
    have hframe : FramesBatch (batchOf request mutation) t.document
        (((storageBackend base readNumber visit).applyBrokerBatch
          a.route.id (batchOf request mutation)) t₁).2.document := by
      rcases hran.frame with ⟨-, hsame⟩ | ⟨hframe, -⟩
      · have hrevision : b.revision + 1 = b.revision := congrArg Board.revision hsame
        omega
      · exact hkept ▸ hframe
    rw [Script.ofNumber_intCast] at htold
    refine ⟨_, _, hoperations, .applied ?_ request mutation t t₁ rfl hprepared response broadcast
      hflag hlimit hframe ⟨client, htold⟩ rfl, hran.shows,
      hsane.apply (requestCount_range hcount)⟩
    intro hrepeated
    have hlast := hrepeats.mp hrepeated
    omega

/-- **Accepted batches.** -/
theorem canvasQuery_accepted {a : Admitted} {s s' : Storage} {answer : Json} {b : Board}
    (hshows : Shows s.document b) (hsane : b.Sane) (htype : a.type ≠ "canvas_sync")
    (h : canvasQuery (storageBackend base readNumber visit) a s = (.ok answer, s')) :
    ∃ operations b', a.event.valueJson "operations" (.arr []) = .ok operations ∧
      Accepted base.dumpSize a operations.elements s.document b answer s'.document b' ∧
        Shows s'.document b' ∧ b'.Sane := by
  obtain ⟨operations, b', hoperations, hperformed, hafter⟩ :=
    canvasQuery_performed hshows hsane htype h
  refine ⟨operations, b', hoperations, ?_, hafter⟩
  cases hperformed with
  | duplicate _ created response revision flag reply_eq =>
    exact .duplicate created response revision flag reply_eq
  | applied _ request mutation t t' document prepared response broadcast flag limit frame told
      reply_eq =>
    have hstaged := (prepareNew_staged prepared).1
    rw [document] at hstaged
    exact .applied request mutation response broadcast flag hstaged limit frame told reply_eq

/-! ## Runs of accepted batches -/

/-- The operations a query asks for. -/
def requested (a : Admitted) : List Json :=
  ((field? a.event "operations").getD (.arr [])).elements

theorem requested_eq {a : Admitted} {operations : Json}
    (h : a.event.valueJson "operations" (.arr []) = .ok operations) :
    requested a = operations.elements := by
  rcases field?_of_value h with ⟨v, hv, hsame⟩ | ⟨hnone, hdefault⟩
  · rw [requested, hv, Option.getD_some, Except.ok.inj hsame]
  · rw [requested, hnone, Option.getD_none, hdefault]

/-- A query and its answer. -/
structure Answered where
  query : Admitted
  answer : Json

namespace Answered

/-- Whether the answer says that the batch was applied before. -/
def repeated (e : Answered) : Bool :=
  decide (((field? e.answer "response").bind (field? · "duplicate")) = some (.bool true))

/-- The operations that were applied. -/
def operations (e : Answered) : List Json := if e.repeated then [] else requested e.query

theorem repeated_envelope {e : Answered} {route : Route} {response : List (String × Json)}
    {broadcasts : List Json} (h : e.answer = envelope route response broadcasts) {flag : Bool}
    (hflag : response.lookup "duplicate" = some (.bool flag)) : e.repeated = flag := by
  have hresponse : field? e.answer "response"
      = some (.obj (Assoc.set "request_id" (.str route.requestId) response)) := by rw [h]; rfl
  rw [repeated, hresponse, Option.bind_some, field?_obj, Assoc.lookup_set_of_ne (by decide), hflag]
  cases flag <;> decide

end Answered

/-- `canvas_ops` queries on a canvas that are all answered, whatever else happens to their calls. -/
inductive Commits (base : Backend Storage) (readNumber : String → Option ℚ) (d : Json) :
    List Answered → Json → Prop
  | nil : Commits base readNumber d [] d
  | snoc {past : List Answered} {d' : Json} (h : Commits base readNumber d past d') (a : Admitted)
      (type : a.type = "canvas_ops") (visit : Visit) (faults : List Fault) (answer : Json)
      (s : Storage) (run : canvasQuery (storageBackend base readNumber visit) a ⟨d', faults⟩
        = (.ok answer, s)) :
      Commits base readNumber d (past ++ [⟨a, answer⟩]) s.document

/-- What holds at the start and is kept by accepted batches holds after a run of them. -/
theorem Commits.rule {P : List Answered → Json → Board → Prop} {d : Json} {b : Board}
    (hshows : Shows d b) (hsane : b.Sane) (start : P [] d b)
    (step : ∀ past d₁ b₁ a answer d₂ b₂, Shows d₁ b₁ → P past d₁ b₁ →
      Accepted base.dumpSize a (requested a) d₁ b₁ answer d₂ b₂ → Shows d₂ b₂ →
      P (past ++ [⟨a, answer⟩]) d₂ b₂)
    {past : List Answered} {d' : Json} (h : Commits base readNumber d past d') :
    ∃ b', Shows d' b' ∧ b'.Sane ∧ P past d' b' := by
  induction h with
  | nil => exact ⟨b, hshows, hsane, start⟩
  | snoc _ a htype visit faults answer s hrun ih =>
    obtain ⟨b₁, hshows₁, hsane₁, hP⟩ := ih
    have hne : a.type ≠ "canvas_sync" := by
      rw [htype]
      decide
    obtain ⟨operations, b₂, hoperations, haccepted, hshows₂, hsane₂⟩ :=
      canvasQuery_accepted hshows₁ hsane₁ hne hrun
    rw [← requested_eq hoperations] at haccepted
    exact ⟨b₂, hshows₂, hsane₂, step _ _ b₁ a answer _ b₂ hshows₁ hP haccepted hshows₂⟩

/-- The answer to a query without faults, null when it is rejected. -/
def answerTo (a : Admitted) (d : Json) : Json :=
  match (canvasQuery plainBackend a ⟨d, []⟩).1 with
  | .ok answer => answer
  | .error _ => .null

/-- The document after a query without faults. -/
def documentAfter (a : Admitted) (d : Json) : Json :=
  (canvasQuery plainBackend a ⟨d, []⟩).2.document

end Storage

end Agora
