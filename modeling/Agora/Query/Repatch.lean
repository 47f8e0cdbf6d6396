import Agora.Query.Editable

/-!
# Patches that change nothing

Whether a caller's patch of an item is accepted when it changes nothing: the item is valid, its
history fits, it is not too large, and a connector has its ends (`patches_iff`).
-/

namespace Agora

open Broker Query

/-! ## A patch that changes nothing -/

def identityOperation (id : String) : Json :=
  .obj [("action", .str "patch"), ("id", .str id), ("patch", .obj [])]

/-- A caller's patch of an item of a document that changes nothing is accepted. -/
def Patches (dumpSize : Json → ℕ) (d : Json) (groups : List String) (admin : Bool) (id : String) :
    Prop :=
  ∃ mutation, (prepare dumpSize (fun id ↦ pure (d.find (itemPath id))) groups admin
    (.arr [identityOperation id]) : Query Unit Mutation) () = (.ok mutation, ())

/-! ### What it takes -/

section Steps

variable {σ α β : Type}

theorem Query.step_ok {x : Checked α} {f : α → Query σ β} {s s' : σ} {b : β} :
    (liftM x >>= f : Query σ β) s = (.ok b, s') ↔ ∃ a, x = .ok a ∧ f a s = (.ok b, s') := by
  rw [Query.bind_ok]
  constructor
  · rintro ⟨a, t, hx, hf⟩
    rw [Query.lift_run, Prod.mk.injEq] at hx
    exact ⟨a, hx.1, hx.2 ▸ hf⟩
  · rintro ⟨a, hx, hf⟩
    exact ⟨a, s, by rw [Query.lift_run, hx], hf⟩

theorem Query.pure_step {a : α} {f : α → Query σ β} {s : σ} :
    (pure a >>= f : Query σ β) s = f a s := rfl

end Steps

/-- An end that a caller can attach a connector to. -/
structure Reaches (groups : List String) (admin : Bool) (item : Json) : Prop where
  canEnd : CanEnd item
  kind : ∃ kind, item.valueString "kind" "" = .ok kind
  access : queryCanAccess item groups admin

theorem isNull_of_ne {item : Json} (h : item ≠ .null) : item.isNull = false := by
  match item with
  | .null => exact absurd rfl h
  | .bool _ | .int _ | .float _ | .str _ | .arr _ | .obj _ => rfl

theorem hasText_of_kind {item : Json} {kind : String} (hthere : item ≠ .null)
    (hkind : item.valueString "kind" "" = .ok kind) (text : String) :
    hasText item "kind" text = .ok (decide (kind = text)) := by
  rw [hasText, isNull_of_ne hthere, hkind]
  rfl

theorem kind_of_hasText {item : Json} {text : String} {b : Bool} (hthere : item ≠ .null)
    (h : hasText item "kind" text = .ok b) : ∃ kind, item.valueString "kind" "" = .ok kind := by
  rw [hasText, isNull_of_ne hthere] at h
  obtain ⟨kind, hkind, -⟩ := Checked.bind_ok.mp h
  exact ⟨kind, hkind⟩

section Ends

variable {σ : Type} {groups : List String} {admin : Bool} {result : Mutation}

/-- The checks of an end. -/
theorem checkEnd_iff {v : Json} {s s' : σ} {u : Unit} :
    (do throwIf v.isNull "ITEM_CONNECTOR_INVALID"
        throwIf (!queryCanAccess v groups admin) "ITEM_CONNECTOR_INVALID"
        throwIf (← hasText v "kind" "connector") "ITEM_CONNECTOR_INVALID"
        throwIf (← hasText v "kind" "host-tombstone") "ITEM_CONNECTOR_INVALID" :
      Query σ Unit) s = (.ok u, s') ↔ Reaches groups admin v ∧ s = s' := by
  simp only [Query.step_ok, Checked.throwIf_ok, Query.lift_run, Prod.mk.injEq]
  constructor
  · rintro ⟨-, hnull, -, haccess, connector, hconnector, -, hc, tombstone, htombstone, ht, hs⟩
    have hthere := ne_null_of_isNull hnull
    rw [hasText_ok (by decide) hconnector, decide_eq_false_iff_not] at hc
    rw [hasText_ok (by decide) htombstone, decide_eq_false_iff_not] at ht
    exact ⟨⟨⟨hthere, hc, ht⟩, kind_of_hasText hthere hconnector, by simpa using haccess⟩, hs⟩
  · rintro ⟨⟨⟨hthere, hc, ht⟩, ⟨kind, hkind⟩, haccess⟩, hs⟩
    have hconnector := hasText_of_kind hthere hkind "connector"
    have htombstone := hasText_of_kind hthere hkind "host-tombstone"
    refine ⟨(), isNull_of_ne hthere, (), by simp [haccess], _, hconnector, (), ?_, _, htombstone,
      ?_, hs⟩
    · rw [hasText_ok (by decide) hconnector, decide_eq_false_iff_not]
      exact hc
    · rw [hasText_ok (by decide) htombstone, decide_eq_false_iff_not]
      exact ht

/-- A connector with ends that a caller can attach it to, as they are seen. -/
def Attaches (groups : List String) (admin : Bool) (sees : String → Json → Prop) (item : Json) :
    Prop :=
  ∃ source target, Joins item source target ∧ source ≠ target ∧ validQueryItemId source ∧
    validQueryItemId target ∧ (∃ v, sees source v ∧ Reaches groups admin v) ∧
    ∃ v, sees target v ∧ Reaches groups admin v

theorem Attaches.congr {sees sees' : String → Json → Prop} {item item' : Json}
    (hfrom : field? item' "from" = field? item "from") (hto : field? item' "to" = field? item "to")
    (hsees : ∀ id, (∃ v, sees id v ∧ Reaches groups admin v) →
      ∃ v, sees' id v ∧ Reaches groups admin v)
    (h : Attaches groups admin sees item) : Attaches groups admin sees' item' := by
  obtain ⟨source, target, hjoins, hne, hsource, htarget, hreach, hreach'⟩ := h
  exact ⟨source, target, ⟨hfrom.trans hjoins.source_eq, hto.trans hjoins.target_eq⟩, hne, hsource,
    htarget, hsees _ hreach, hsees _ hreach'⟩

variable {I : σ → Prop} {read : String → Query σ (Option Json)}
  (hread : ∀ id, Keeps I (read id))

include hread

theorem checkEndpoint_reaches (id : String) :
    Yields I (checkEndpoint read groups admin result id) fun _ ↦
      ∃ v, Sees I read result id v ∧ Reaches groups admin v := by
  refine yields_bind (readStaged_sees hread id) fun v hv s u s' hs hrun ↦ ?_
  obtain ⟨hreaches, rfl⟩ := checkEnd_iff.mp hrun
  exact ⟨hs, v, hv, hreaches⟩

theorem checkConnector_attaches (item : Json) :
    Yields I (checkConnector read groups admin result item) fun _ ↦
      IsConnector item → Attaches groups admin (Sees I read result) item := by
  refine yields_step fun connector hconnector ↦ ?_
  rw [hasText_ok (by decide) hconnector]
  split
  · refine yields_step fun source hsource ↦ yields_step fun target htarget ↦ ?_
    refine yields_step fun _ hends ↦ yields_bind (checkEndpoint_reaches hread source) fun _ hs ↦ ?_
    refine (checkEndpoint_reaches hread target).mono fun _ ht _ ↦ ?_
    simp only [Checked.throwIf_ok, Bool.or_eq_false_iff, decide_eq_false_iff_not,
      Bool.not_eq_false'] at hends
    obtain ⟨⟨hne, hvalidSource⟩, hvalidTarget⟩ := hends
    exact ⟨source, target, ⟨field?_of_validEnd hvalidSource hsource,
      field?_of_validEnd hvalidTarget htarget⟩, hne, hvalidSource, hvalidTarget, hs, ht⟩
  · next hno => exact yields_pure fun hyes ↦ absurd (decide_eq_true hyes) hno

/-- The staged connectors are attached, and the batch is not too large. -/
theorem prepare_attaches {dumpSize : Json → ℕ} (operations : Json) :
    Yields I (prepare dumpSize read groups admin operations) fun result ↦
      (∀ id item, result.items.lookup id = some item → IsConnector item →
        Attaches groups admin (Sees I read result) item) ∧
      dumpSize (.obj result.items) ≤ 8 * 1024 * 1024 := by
  refine yields_step fun _ _ ↦ ?_
  refine yields_bind (keeps_foldlM (fun _ _ ↦ prepareOperation_keeps hread _ _) _ _).yields ?_
  intro result _
  refine yields_bind (yields_forM (P := fun e : String × Json ↦ IsConnector e.2 →
    Attaches groups admin (Sees I read result) e.2) _ fun e ↦
      checkConnector_attaches hread e.2) fun _ hall ↦ ?_
  refine yields_step fun _ hsize ↦ yields_pure ⟨fun id item hitem ↦ ?_, ?_⟩
  · exact hall (id, item) ((Json.sortedFields_perm _).mem_iff.mpr (Assoc.mem_of_lookup hitem))
  · simpa using Checked.throwIf_ok.mp hsize

omit hread in
/-- A connector whose ends are in a document passes the check. -/
theorem checkConnector_of_attaches {d item : Json}
    (hvalid : ∃ kind, item.valueString "kind" "" = .ok kind) (hthere : item ≠ .null)
    (h : IsConnector item → Attaches groups admin
      (fun id v ↦ v = (result.items.lookup id).getD (itemOf d id)) item) :
    checkConnector (fun id ↦ (pure (d.find (itemPath id)) : Query Unit _)) groups admin result
      item () = (.ok (), ()) := by
  obtain ⟨kind, hkind⟩ := hvalid
  have hendpoint {id : String} {v : Json} (hv : v = (result.items.lookup id).getD (itemOf d id))
      (hreaches : Reaches groups admin v) :
      checkEndpoint (fun id ↦ (pure (d.find (itemPath id)) : Query Unit _)) groups admin result
        id () = (.ok (), ()) := by
    have hstaged : readStaged (fun id ↦ (pure (d.find (itemPath id)) : Query Unit _)) result id ()
        = (.ok v, ()) := by
      rw [hv, readStaged]
      rcases result.items.lookup id with _ | item <;> rfl
    exact (Query.bind_of_ok hstaged _).trans (checkEnd_iff.mpr ⟨hreaches, rfl⟩)
  refine Query.step_ok.mpr ⟨_, hasText_of_kind hthere hkind "connector", ?_⟩
  split
  · next hconnector =>
    have hfield : IsConnector item := by
      have hkind' : kind = "connector" := by simpa using hconnector
      refine field?_of_valueString (hkind' ▸ hkind) (by decide)
    obtain ⟨source, target, hjoins, hne, hsource, htarget, ⟨v, hv, hreach⟩, w, hw, hreach'⟩ :=
      h hfield
    refine Query.step_ok.mpr ⟨source, valueString_of_field? hjoins.source_eq "", ?_⟩
    refine Query.step_ok.mpr ⟨target, valueString_of_field? hjoins.target_eq "", ?_⟩
    refine Query.step_ok.mpr ⟨(), Checked.throwIf_ok.mpr (by simp [hne, hsource, htarget]), ?_⟩
    exact (Query.bind_of_ok (hendpoint hv hreach) _).trans (hendpoint hw hreach')
  · rfl

end Ends

/-! ### Preparing it -/

section Identity

variable {dumpSize : Json → ℕ} {groups : List String} {admin : Bool} {d : Json} {id : String}

/-- The item of a document as `prepare` reads it. -/
def readFrom (d : Json) (id : String) : Query Unit (Option Json) := pure (d.find (itemPath id))

/-- What a patch that changes nothing stages. -/
def identityMutation (d : Json) (id : String) (revision : ℤ) (item : Json) : Mutation where
  items := [(id, item)]
  previous := [(id, itemOf d id)]
  expected := [(id, revision)]
  onlyTranslations := false

theorem get_readFrom {mutation : Mutation} {item : Json} :
    Broker.get (readFrom d) groups admin { onlyTranslations := false } id ()
        = (.ok (item, mutation), ()) ↔
      validQueryItemId id ∧
        (!(itemOf d id).isNull && !queryCanAccess (itemOf d id) groups admin) = false ∧
          ∃ revision, readRevision (itemOf d id) = .ok revision ∧
            visibleItem (itemOf d id) = .ok item ∧
              mutation = identityMutation d id revision item := by
  unfold Broker.get
  rw [Query.step_ok]
  simp only [Checked.throwIf_ok, Bool.not_eq_false', exists_and_left, exists_const,
    List.lookup_nil]
  refine and_congr_right fun _ ↦ ?_
  rw [readFrom, Query.pure_step]
  simp only [Query.step_ok, Checked.throwIf_ok, exists_and_left, exists_const, Query.pure_run,
    Prod.mk.injEq, Except.ok.injEq, and_true]
  refine and_congr_right fun _ ↦ exists_congr fun revision ↦ and_congr_right fun _ ↦ ?_
  constructor
  · rintro ⟨start, hstart, rfl, rfl⟩
    exact ⟨hstart, rfl⟩
  · rintro ⟨hstart, rfl⟩
    exact ⟨item, hstart, rfl, rfl⟩

/-- What a caller needs for a patch that changes nothing, up to the ends of a connector. -/
structure Repatches (dumpSize : Json → ℕ) (groups : List String) (admin : Bool) (d : Json)
    (id : String) (revision : ℤ) (item : Json) : Prop where
  validId : validQueryItemId id
  access : queryCanAccess (itemOf d id) groups admin
  revision : readRevision (itemOf d id) = .ok revision
  stored : ∃ start, visibleItem (itemOf d id) = .ok start ∧ start.isNull = false ∧
    storedItem dumpSize groups admin start (identityOperation id) = .ok item

theorem prepareOperation_identity {mutation : Mutation} :
    prepareOperation dumpSize (readFrom d) groups admin {} (identityOperation id) ()
        = (.ok mutation, ()) ↔
      ∃ revision item, Repatches dumpSize groups admin d id revision item ∧
        mutation = identityMutation d id revision item := by
  have hstage (revision : ℤ) (start item : Json) :
      (identityMutation d id revision start).stage id item
        = identityMutation d id revision item := by
    simp [Mutation.stage, identityMutation, Assoc.set]
  unfold prepareOperation
  simp only [Query.step_ok]
  constructor
  · rintro ⟨-, -, action, haction, h⟩
    obtain rfl : "patch" = action := Except.ok.inj haction
    rw [if_neg (by decide)] at h
    obtain ⟨id', hid, h⟩ := Query.step_ok.mp h
    obtain rfl : id = id' := Except.ok.inj hid
    obtain ⟨⟨start, read⟩, ⟨⟩, hget, h⟩ := Query.bind_ok.mp h
    obtain ⟨hvalid, haccess, revision, hrevision, hstart, rfl⟩ := get_readFrom.mp hget
    dsimp only at h
    rw [if_neg (by decide), Query.lift_run, Prod.mk.injEq] at h
    have hstore := h.1
    unfold storeItem at hstore
    simp only [Checked.bind_ok, Checked.throwIf_ok] at hstore
    obtain ⟨-, -, -, -, -, hnull, item, hitem, -, -, hmutation⟩ := hstore
    have hnull : start.isNull = false := by simpa using hnull
    refine ⟨revision, item, ⟨hvalid, ?_, hrevision, start, hstart, hnull, hitem⟩, ?_⟩
    · have hthere : (itemOf d id).isNull = false := by
        refine isNull_of_ne fun hnone ↦ ?_
        rw [hnone, show visibleItem .null = .ok .null from rfl, Except.ok.injEq] at hstart
        rw [← hstart] at hnull
        contradiction
      simpa [hthere] using haccess
    · rw [← Checked.pure_ok.mp hmutation, hstage]
  · rintro ⟨revision, item, ⟨hvalid, haccess, hrevision, start, hstart, hnull, hitem⟩, rfl⟩
    refine ⟨(), rfl, "patch", rfl, ?_⟩
    rw [if_neg (by decide)]
    refine Query.step_ok.mpr ⟨id, rfl, ?_⟩
    refine Query.bind_ok.mpr ⟨(start, identityMutation d id revision start), (), ?_, ?_⟩
    · exact get_readFrom.mpr ⟨hvalid, by simp [haccess], revision, hrevision, hstart, rfl⟩
    · dsimp only
      rw [if_neg (by decide), Query.lift_run, Prod.mk.injEq]
      refine ⟨?_, rfl⟩
      unfold storeItem
      simp only [Checked.bind_ok, Checked.throwIf_ok, hstage]
      exact ⟨(), by simp, (), by simp, (), by simp [hnull], item, hitem, (), by
        simp [identityMutation], rfl⟩

end Identity

/-! ### What is stored -/

/-- An item after a patch that changes nothing: repeated changes are dropped from its history. -/
def repatched (item : Json) : Json :=
  match field? item "kind", item with
  | some (.str kind), .obj fields =>
    if keepsHistory kind then
      .obj (Assoc.set "automerge_changes" (.arr (firstChanges (changesIn item))) fields)
    else item
  | _, _ => item

theorem field?_repatched {item : Json} {k : String} (hk : k ≠ "automerge_changes") :
    field? (repatched item) k = field? item k := by
  unfold repatched
  split
  · split
    · exact Assoc.lookup_set_of_ne hk.symm _ _
    · rfl
  · rfl

section Stored

variable {dumpSize : Json → ℕ} {groups : List String} {admin : Bool} {id : String}

theorem patchItem_identity {start : Json} (hobject : start.isObject) {kind : String}
    (hkind : start.valueString "kind" "" = .ok kind) :
    patchItem start (identityOperation id) = .ok start := by
  match start with
  | .obj fields =>
    unfold patchItem
    simp only [Checked.bind_ok, Checked.throwIf_ok]
    refine ⟨.obj [], rfl, .arr [], rfl, (), rfl, .obj fields, rfl, .obj fields, rfl, true, ?_, (),
      rfl, rfl⟩
    simp only [sameKind, Json.isNull, Checked.bind_ok, Bool.false_eq_true, if_false]
    exact ⟨kind, hkind, kind, hkind, by simp [Checked.pure_ok]⟩

theorem eq_of_patchItem_identity {start item : Json} (hnull : start.isNull = false)
    (h : patchItem start (identityOperation id) = .ok item) : start = item := by
  unfold patchItem at h
  simp only [Checked.bind_ok, hnull, Bool.false_eq_true, if_false] at h
  obtain ⟨patch, hpatch, unset, hunset, _, -, updated, hupdated, dropped, hdropped, _, -, _, -,
    h⟩ := h
  obtain rfl : .obj [] = patch := Except.ok.inj hpatch
  obtain rfl : .arr [] = unset := Except.ok.inj hunset
  obtain rfl : updated = dropped := Except.ok.inj hdropped
  obtain rfl := Checked.pure_ok.mp h
  match start with
  | .obj fields => exact Except.ok.inj hupdated
  | .bool _ | .int _ | .float _ | .str _ | .arr _ => nomatch hupdated

theorem validChange_text {kind : String} {change : Json} (h : validChange kind change = .ok true) :
    ∃ text, field? change "change" = some (.str text) := by
  unfold validChange at h
  split at h
  · nomatch h
  · obtain ⟨v, hv, h⟩ := Checked.bind_ok.mp h
    match v with
    | .str text => exact ⟨text, field?_of_index hv⟩
    | .null | .bool _ | .int _ | .float _ | .arr _ | .obj _ => nomatch h

/-- Merging a history with itself. -/
theorem mergeHistory_self {item : Json} {kind : String}
    (hkind : field? item "kind" = some (.str kind)) (hkeeps : keepsHistory kind)
    (hchecked : checkHistory kind item = .ok ()) :
    mergeHistory item item = .ok (repatched item) := by
  obtain ⟨⟨text, htext⟩, changes, hchanges, -, hvalid⟩ := (checkHistory_iff hkeeps).mp hchecked
  have htexts : ∀ change ∈ changes, ∃ text, field? change "change" = some (.str text) :=
    fun change hchange ↦ validChange_text (hvalid change hchange)
  match item with
  | .obj fields =>
    have hkept : keepSnapshot (.obj fields) (.obj fields) = .ok (.obj fields) := by
      have hindex : (Json.obj fields).index "automerge_snapshot" = .ok (.str text) := by
        simp only [Json.index, show fields.lookup _ = _ from htext]
      rw [keepSnapshot, hindex]
      split
      · exact congrArg (fun fields ↦ Except.ok (Json.obj fields)) (Assoc.set_of_lookup htext)
      · rfl
    have hfield :
        (Json.obj fields).valueJson "automerge_changes" (.arr []) = .ok (.arr changes) := by
      simp only [Json.valueJson, Json.value, show fields.lookup _ = _ from hchanges]
    obtain ⟨m₁, hm₁⟩ := foldlM_mergeChange_of_texts htexts ([], [])
    obtain ⟨m₂, hm₂⟩ := foldlM_mergeChange_of_texts htexts m₁
    have hempty : Seen ([], []) := fun text ↦ by simp
    obtain ⟨hseen, hfirst⟩ := foldlM_mergeChange hempty hm₁
    obtain ⟨-, hsecond⟩ := foldlM_mergeChange hseen hm₂
    rw [hfirst, ← firstChanges, ← firstChanges_append, firstChanges_append_self] at hsecond
    unfold mergeHistory
    simp only [Checked.bind_ok]
    refine ⟨_, hkept, _, hfield, _, hfield, m₁, hm₁, m₂, hm₂, ?_⟩
    have hin : changesIn (.obj fields) = changes := by rw [changesIn, hchanges]; rfl
    simp only [repatched, hkind, hkeeps, if_true, hin, hsecond, Json.assign]

theorem repatched_of_not {item : Json} {kind : String}
    (hkind : field? item "kind" = some (.str kind)) (hkeeps : keepsHistory kind = false) :
    repatched item = item := by
  unfold repatched
  split
  · next kind' fields hkind' =>
    obtain rfl := Json.str.inj (Option.some.inj (hkind.symm.trans hkind'))
    rw [if_neg (by simp [hkeeps])]
  · rfl

/-- An item that can be patched again, size apart. -/
structure Passes (dumpSize : Json → ℕ) (item : Json) : Prop where
  valid : validate dumpSize item = .ok ()
  history : ∃ kind, field? item "kind" = some (.str kind) ∧ checkHistory kind item = .ok ()

theorem storedItem_identity {start item : Json} (hnull : start.isNull = false) :
    storedItem dumpSize groups admin start (identityOperation id) = .ok item ↔
      Passes dumpSize start ∧ queryCanAccess start groups admin ∧ item = repatched start := by
  constructor
  · intro h
    unfold storedItem at h
    simp only [Checked.bind_ok] at h
    obtain ⟨patched, hpatched, _, hvalid, updated, hupdated, kind', hvalue, h⟩ := h
    obtain rfl := eq_of_patchItem_identity hnull hpatched
    obtain rfl := queryUpdatedItem_eq hupdated
    obtain ⟨kind, hvalue', hkind⟩ := field?_kind_of_validate hvalid
    obtain rfl := Except.ok.inj (hvalue'.symm.trans hvalue)
    have hchecked := queryUpdatedItem_checked hupdated hvalue
    refine ⟨⟨hvalid, kind, hkind, hchecked⟩, ?_, ?_⟩
    · unfold queryUpdatedItem at hupdated
      simp only [Checked.bind_ok, Checked.throwIf_ok] at hupdated
      obtain ⟨_, -, _, -, _, haccess, -⟩ := hupdated
      simpa using haccess
    · rw [hnull, Bool.not_false, Bool.true_and] at h
      split at h
      · next hkeeps =>
        rw [mergeHistory_self hkind hkeeps hchecked, Except.ok.injEq] at h
        exact h.symm
      · next hkeeps =>
        rw [repatched_of_not hkind (by simpa using hkeeps)]
        exact (Checked.pure_ok.mp h).symm
  · rintro ⟨⟨hvalid, kind, hkind, hchecked⟩, haccess, rfl⟩
    have hvalue := valueString_of_field? hkind ""
    unfold storedItem
    simp only [Checked.bind_ok]
    refine ⟨start, patchItem_identity (validate_object hvalid) hvalue, (), hvalid, start,
      (queryUpdatedItem_self hvalid haccess hkind).mpr hchecked, kind, hvalue, ?_⟩
    rw [hnull, Bool.not_false, Bool.true_and]
    split
    · next hkeeps => exact mergeHistory_self hkind hkeeps hchecked
    · next hkeeps =>
      rw [repatched_of_not hkind (by simpa using hkeeps)]
      rfl

end Stored

/-! ### Who can patch what -/

/-- The most that the items of a batch may take. -/
def batchLimit : ℕ := 8 * 1024 * 1024

/-- A stored item that whoever has access to it can patch, ends apart. -/
structure Editable (dumpSize : Json → ℕ) (id : String) (stored : Json) : Prop where
  validId : validQueryItemId id
  revision : ∃ revision, readRevision stored = .ok revision
  seen : ∃ start, visibleItem stored = .ok start ∧ Passes dumpSize start ∧
    dumpSize (.obj [(id, repatched start)]) ≤ batchLimit

section Patches

variable {dumpSize : Json → ℕ} {groups : List String} {admin : Bool} {d : Json} {id : String}

theorem visibleItem_fields {old start : Json} (h : visibleItem old = .ok start)
    (hstart : start.isNull = false) {k : String} (hrevision : k ≠ "__broker_revision")
    (hversion : k ≠ "__host_version") : field? start k = field? old k := by
  unfold visibleItem at h
  obtain ⟨tombstone, -, h⟩ := Checked.bind_ok.mp h
  split at h
  · obtain rfl := Checked.pure_ok.mp h
    nomatch hstart
  · obtain ⟨erased, herased, h⟩ := Checked.bind_ok.mp h
    rw [field?_eraseKey h, if_neg hrevision.symm, field?_eraseKey herased, if_neg hversion.symm]

theorem prepare_identity {mutation : Mutation} :
    prepare dumpSize (readFrom d) groups admin (.arr [identityOperation id]) () = (.ok mutation, ())
      ↔ ∃ revision item, Repatches dumpSize groups admin d id revision item ∧
        mutation = identityMutation d id revision item ∧
        checkConnector (readFrom d) groups admin mutation item () = (.ok (), ()) ∧
        dumpSize (.obj [(id, item)]) ≤ batchLimit := by
  have hone : (Json.arr [identityOperation id]).elements = [identityOperation id] := rfl
  have hsorted (revision : ℤ) (item : Json) :
      Json.sortedFields (identityMutation d id revision item).items = [(id, item)] := rfl
  unfold prepare
  rw [hone, Query.step_ok]
  simp only [List.foldlM_cons, List.foldlM_nil]
  constructor
  · rintro ⟨-, -, h⟩
    obtain ⟨result, ⟨⟩, hfold, h⟩ := Query.bind_ok.mp h
    obtain ⟨result', ⟨⟩, hoperation, hfold⟩ := Query.bind_ok.mp hfold
    obtain rfl : result' = result := Except.ok.inj (congrArg Prod.fst hfold)
    obtain ⟨revision, item, hrepatches, rfl⟩ := prepareOperation_identity.mp hoperation
    rw [hsorted] at h
    obtain ⟨_, ⟨⟩, hconnector, h⟩ := Query.bind_ok.mp h
    obtain ⟨_, hsize, h⟩ := Query.step_ok.mp h
    obtain rfl := Except.ok.inj (congrArg Prod.fst h)
    obtain ⟨_, ⟨⟩, hconnector, -⟩ := Query.bind_ok.mp hconnector
    exact ⟨revision, item, hrepatches, rfl, hconnector,
      not_lt.mp (of_decide_eq_false (Checked.throwIf_ok.mp hsize))⟩
  · rintro ⟨revision, item, hrepatches, rfl, hconnector, hsize⟩
    refine ⟨(), rfl, Query.bind_ok.mpr ⟨identityMutation d id revision item, (), ?_, ?_⟩⟩
    · exact Query.bind_ok.mpr ⟨_, (), prepareOperation_identity.mpr ⟨_, _, hrepatches, rfl⟩, rfl⟩
    · rw [hsorted]
      refine Query.bind_ok.mpr ⟨(), (), Query.bind_ok.mpr ⟨(), (), hconnector, rfl⟩, ?_⟩
      exact Query.step_ok.mpr ⟨(), Checked.throwIf_ok.mpr (decide_eq_false (not_lt.mpr hsize)), rfl⟩

/-- What the ends of a connector that is patched are checked against. -/
theorem stagedEnd_iff {item : Json} {groups : List String} {admin : Bool}
    (hitem : ¬CanEnd item) (hstored : ¬CanEnd (itemOf d id)) {other : String} :
    (∃ v, v = ([(id, item)].lookup other).getD (itemOf d other) ∧ Reaches groups admin v) ↔
      Reaches groups admin (itemOf d other) := by
  rw [exists_eq_left]
  by_cases hother : other = id
  · subst hother
    rw [List.lookup_cons_self, Option.getD_some]
    exact iff_of_false (fun h ↦ hitem h.canEnd) fun h ↦ hstored h.canEnd
  · rw [Assoc.lookup_cons_of_ne (Ne.symm hother)]
    rfl

theorem Passes.repatched_kind {start : Json} (h : Passes dumpSize start) :
    ∃ kind, (repatched start).valueString "kind" "" = .ok kind := by
  obtain ⟨kind, hkind, -⟩ := h.history
  rw [← field?_repatched (by decide)] at hkind
  exact ⟨kind, valueString_of_field? hkind ""⟩

theorem Passes.repatched_there {start : Json} (h : Passes dumpSize start) :
    repatched start ≠ .null := by
  obtain ⟨kind, hkind, -⟩ := h.history
  rw [← field?_repatched (by decide)] at hkind
  intro hnull
  rw [hnull] at hkind
  nomatch hkind

/-- Whether a caller can patch an item. -/
theorem patches_iff : Patches dumpSize d groups admin id ↔
    Editable dumpSize id (itemOf d id) ∧ queryCanAccess (itemOf d id) groups admin ∧
      (IsConnector (itemOf d id) →
        Attaches groups admin (fun id v ↦ v = itemOf d id) (itemOf d id)) := by
  -- a connector is patched with the ends it had
  have hfields {start : Json} (hstart : visibleItem (itemOf d id) = .ok start)
      (hnull : start.isNull = false) {k : String} (hk : k ∈ ["kind", "from", "to", "permission"]) :
      field? (repatched start) k = field? (itemOf d id) k ∧
        field? start k = field? (itemOf d id) k := by
    have hne : k ≠ "automerge_changes" ∧ k ≠ "__broker_revision" ∧ k ≠ "__host_version" := by
      simp only [List.mem_cons, List.not_mem_nil, or_false] at hk
      rcases hk with rfl | rfl | rfl | rfl <;> decide
    have hsame := visibleItem_fields hstart hnull hne.2.1 hne.2.2
    exact ⟨(field?_repatched hne.1).trans hsame, hsame⟩
  have hnot {item : Json} (hkind : IsConnector item) : ¬CanEnd item := fun h ↦ h.connector hkind
  constructor
  · rintro ⟨mutation, h⟩
    obtain ⟨revision, item, ⟨hvalid, haccess, hrevision, start, hstart, hnull, hstored⟩, rfl,
      hconnector, hsize⟩ := prepare_identity.mp h
    obtain ⟨hpasses, -, rfl⟩ := (storedItem_identity hnull).mp hstored
    refine ⟨⟨hvalid, ⟨revision, hrevision⟩, start, hstart, hpasses, hsize⟩, haccess, fun hkind ↦ ?_⟩
    have hkind' : IsConnector (repatched start) :=
      (hfields hstart hnull (by simp)).1.trans hkind
    have hread : ∀ id, Keeps (fun _ : Unit ↦ True) (readFrom d id) := fun _ _ _ ↦ trivial
    refine ((checkConnector_attaches hread _) () () () trivial hconnector).2 hkind' |>.congr
      (hfields hstart hnull (by simp)).1.symm (hfields hstart hnull (by simp)).1.symm ?_
    rintro other ⟨v, hv, hreaches⟩
    refine ⟨_, rfl, (stagedEnd_iff (hnot hkind') (hnot hkind)).mp ⟨v, ?_, hreaches⟩⟩
    rcases hv with hstaged | ⟨hnone, s, s', found, -, hfound, rfl⟩
    · rw [show List.lookup other [(id, repatched start)] = _ from hstaged, Option.getD_some]
    · rw [show List.lookup other [(id, repatched start)] = _ from hnone, Option.getD_none]
      exact congrArg (Option.getD · .null) (Except.ok.inj (congrArg Prod.fst hfound)).symm
  · rintro ⟨⟨hvalid, ⟨revision, hrevision⟩, start, hstart, hpasses, hsize⟩, haccess, hattaches⟩
    have hnull := isNull_of_ne (ne_null_of_isObject (validate_object hpasses.valid))
    refine ⟨identityMutation d id revision (repatched start), prepare_identity.mpr
      ⟨revision, repatched start, ⟨hvalid, haccess, hrevision, start, hstart, hnull, ?_⟩, rfl, ?_,
        hsize⟩⟩
    · refine (storedItem_identity hnull).mpr ⟨hpasses, ?_, rfl⟩
      rwa [queryCanAccess_congr (hfields hstart hnull (by simp)).2]
    · refine checkConnector_of_attaches hpasses.repatched_kind hpasses.repatched_there ?_
      intro hkind'
      have hkind : IsConnector (itemOf d id) :=
        (hfields hstart hnull (by simp)).1.symm.trans hkind'
      refine (hattaches hkind).congr (hfields hstart hnull (by simp)).1
        (hfields hstart hnull (by simp)).1 ?_
      rintro other ⟨v, rfl, hreaches⟩
      exact (stagedEnd_iff (hnot hkind') (hnot hkind)).mpr hreaches

end Patches

end Agora
