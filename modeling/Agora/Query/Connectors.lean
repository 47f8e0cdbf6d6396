import Agora.Query.Converge
import Mathlib.Data.Set.Defs

/-!
# Connectors

A connector joins two other items. Preparation looks up the ends of every connector it stages, after
all the operations of the batch, but not of the connectors the batch says nothing about. So a batch
keeps all connectors attached when it spares their ends, and only then (`attached_iff_spares`).
-/

namespace Agora

/-! ## Links in a store -/

namespace Links

variable {κ α : Type*}

/-- Some values of a store are links, and join two of its keys. -/
structure Kind (κ α : Type*) where
  link : α → Prop
  joins : α → κ → κ → Prop
  anchor : α → Prop
  unique : ∀ {v x y x' y'}, joins v x y → joins v x' y' → x = x' ∧ y = y'

/-- A link between two different keys with values that can be joined. -/
def Kind.Tied (kind : Kind κ α) (store : κ → α) (v : α) : Prop :=
  ∃ x y, kind.joins v x y ∧ x ≠ y ∧ kind.anchor (store x) ∧ kind.anchor (store y)

def Kind.Attached (kind : Kind κ α) (store : κ → α) : Prop :=
  ∀ k, kind.link (store k) → kind.Tied store (store k)

/-- After a change that ties the links it writes, all links are tied just when the ends of the
others can still be joined. -/
theorem Kind.attached_iff {kind : Kind κ α} {store store' : κ → α} {written : Set κ}
    (hstore : kind.Attached store) (hframe : ∀ k, k ∉ written → store' k = store k)
    (hwritten : ∀ k, k ∈ written → kind.link (store' k) → kind.Tied store' (store' k)) :
    kind.Attached store' ↔ ∀ k, k ∉ written → kind.link (store k) →
      ∀ x y, kind.joins (store k) x y → kind.anchor (store' x) ∧ kind.anchor (store' y) := by
  constructor
  · intro h k hk hlink x y hjoins
    have hsame := hframe k hk
    obtain ⟨x', y', hjoins', -, hx, hy⟩ := h k (hsame ▸ hlink)
    rw [hsame] at hjoins'
    obtain ⟨rfl, rfl⟩ := kind.unique hjoins hjoins'
    exact ⟨hx, hy⟩
  · intro h k hlink
    by_cases hk : k ∈ written
    · exact hwritten k hk hlink
    · rw [hframe k hk] at hlink ⊢
      obtain ⟨x, y, hjoins, hne, -⟩ := hstore k hlink
      obtain ⟨hx, hy⟩ := h k hk hlink x y hjoins
      exact ⟨x, y, hjoins, hne, hx, hy⟩

end Links

open Broker Query

/-! ## Connectors among items -/

def IsConnector (item : Json) : Prop := field? item "kind" = some (.str "connector")

instance (item : Json) : Decidable (IsConnector item) := inferInstanceAs (Decidable (_ = _))

/-- An item a connector can be attached to. -/
structure CanEnd (item : Json) : Prop where
  there : item ≠ .null
  connector : ¬IsConnector item
  tombstone : field? item "kind" ≠ some (.str "host-tombstone")

/-- The two ends a connector names. -/
structure Joins (item : Json) (source target : String) : Prop where
  source_eq : field? item "from" = some (.str source)
  target_eq : field? item "to" = some (.str target)

def connectors : Links.Kind String Json where
  link := IsConnector
  joins := Joins
  anchor := CanEnd
  unique h h' := ⟨Json.str.inj (Option.some.inj (h.source_eq.symm.trans h'.source_eq)),
    Json.str.inj (Option.some.inj (h.target_eq.symm.trans h'.target_eq))⟩

/-- No connector of a document dangles. -/
def Attached (d : Json) : Prop := connectors.Attached (itemOf d)

/-- What an item is to connectors depends on its kind alone. -/
theorem CanEnd.congr {item item' : Json} (hkind : field? item' "kind" = field? item "kind")
    (hthere : item ≠ .null → item' ≠ .null) (h : CanEnd item) : CanEnd item' := by
  refine ⟨hthere h.there, ?_, ?_⟩
  · rw [IsConnector, hkind]
    exact h.connector
  · rw [hkind]
    exact h.tombstone

theorem canEnd_iff {item item' : Json} (hkind : field? item' "kind" = field? item "kind")
    (hitem : item ≠ .null) (hitem' : item' ≠ .null) : CanEnd item' ↔ CanEnd item :=
  ⟨.congr hkind.symm fun _ ↦ hitem, .congr hkind fun _ ↦ hitem'⟩

theorem ne_null_of_isObject {item : Json} (h : item.isObject) : item ≠ .null := by
  rintro rfl
  exact absurd h Bool.false_ne_true

theorem ne_null_of_isNull {item : Json} (h : item.isNull = false) : item ≠ .null := by
  rintro rfl
  exact absurd h (by decide)

/-! ## What is checked of a staged connector -/

section Checks

variable {σ : Type} {I : σ → Prop} {read : String → Query σ (Option Json)}
  {dumpSize : Json → ℕ} {groups : List String} {admin : Bool} {result : Mutation}

/-- An item as the check of an end sees it. -/
def Sees (I : σ → Prop) (read : String → Query σ (Option Json)) (result : Mutation) (id : String)
    (item : Json) : Prop :=
  result.items.lookup id = some item ∨ result.items.lookup id = none ∧ Reads I read id item

/-- A staged connector whose ends were looked up. -/
def Checks (I : σ → Prop) (read : String → Query σ (Option Json)) (result : Mutation)
    (item : Json) : Prop :=
  ∃ source target, Joins item source target ∧ source ≠ target ∧
    (∃ v, Sees I read result source v ∧ CanEnd v) ∧ ∃ v, Sees I read result target v ∧ CanEnd v

variable (hread : ∀ id, Keeps I (read id))

include hread

theorem readStaged_sees (id : String) :
    Yields I (readStaged read result id) (Sees I read result id) := by
  unfold readStaged
  split
  · next item hitem => exact yields_pure (Or.inl hitem)
  · next hnone =>
    refine yields_bind (P := fun found ↦ Reads I read id (found.getD .null)) ?_ fun found hfound ↦
      yields_pure (Or.inr ⟨hnone, hfound⟩)
    intro s found s' hs hfound
    exact ⟨((hread id).yields s found s' hs hfound).1, s, s', found, hs, hfound, rfl⟩

theorem checkEndpoint_sees (id : String) :
    Yields I (checkEndpoint read groups admin result id) fun _ ↦
      ∃ v, Sees I read result id v ∧ CanEnd v := by
  refine yields_bind (readStaged_sees hread id) fun v hv ↦ ?_
  refine yields_step fun _ hnull ↦ yields_step fun _ _ ↦ yields_step fun connector hconnector ↦ ?_
  refine yields_step fun _ hc ↦ yields_step fun tombstone htombstone ↦ yields_lift fun _ ht ↦ ?_
  rw [Checked.throwIf_ok] at hnull hc ht
  rw [hasText_ok (by decide) hconnector, decide_eq_false_iff_not] at hc
  rw [hasText_ok (by decide) htombstone, decide_eq_false_iff_not] at ht
  exact ⟨v, hv, ne_null_of_isNull hnull, hc, ht⟩

omit hread in
theorem field?_of_validEnd {item : Json} {k id : String} (hvalid : validQueryItemId id)
    (h : item.valueString k "" = .ok id) : field? item k = some (.str id) := by
  refine field?_of_valueString h ?_
  rintro rfl
  exact absurd hvalid (by decide)

theorem checkConnector_checks (item : Json) :
    Yields I (checkConnector read groups admin result item) fun _ ↦
      IsConnector item → Checks I read result item := by
  refine yields_step fun connector hconnector ↦ ?_
  rw [hasText_ok (by decide) hconnector]
  split
  · refine yields_step fun source hsource ↦ yields_step fun target htarget ↦ ?_
    refine yields_step fun _ hends ↦ yields_bind (checkEndpoint_sees hread source) fun _ hs ↦ ?_
    refine (checkEndpoint_sees hread target).mono fun _ ht _ ↦ ?_
    simp only [Checked.throwIf_ok, Bool.or_eq_false_iff, decide_eq_false_iff_not,
      Bool.not_eq_false'] at hends
    obtain ⟨⟨hne, hvalidSource⟩, hvalidTarget⟩ := hends
    exact ⟨source, target, ⟨field?_of_validEnd hvalidSource hsource,
      field?_of_validEnd hvalidTarget htarget⟩, hne, hs, ht⟩
  · next hno => exact yields_pure fun hyes ↦ absurd (decide_eq_true hyes) hno

/-- The ends of every staged connector are looked up. -/
theorem prepare_checks (operations : Json) :
    Yields I (prepare dumpSize read groups admin operations) fun result ↦
      ∀ id item, result.items.lookup id = some item → IsConnector item →
        Checks I read result item := by
  refine yields_step fun _ _ ↦ ?_
  refine yields_bind (keeps_foldlM (fun _ _ ↦ prepareOperation_keeps hread _ _) _ _).yields ?_
  intro result _
  refine yields_bind (yields_forM (P := fun e : String × Json ↦ IsConnector e.2 →
    Checks I read result e.2) _ fun e ↦ checkConnector_checks hread e.2) fun _ hall ↦ ?_
  refine yields_step fun _ _ ↦ yields_pure fun id item hitem ↦ ?_
  exact hall (id, item) ((Json.sortedFields_perm _).mem_iff.mpr (Assoc.mem_of_lookup hitem))

end Checks

/-! ## What a batch leaves of an end -/

section Edits

variable {dumpSize : Json → ℕ} {groups : List String} {admin : Bool}

/-- Whether a change leaves an item a connector can be attached to. -/
def Broker.Change.leavesEnd (before : Bool) : Change → Bool
  | .delete => false
  | .create operation => decide (field? (patchFields operation) "kind" ≠ some (.str "connector"))
  | _ => before

/-- Whether a batch leaves an end as one: it is not deleted, or created again as something that is
no connector. -/
def leavesEnd (changes : List Change) : Bool := changes.foldl Change.leavesEnd true

theorem leavesEnd_snoc (changes : List Change) (change : Change) :
    leavesEnd (changes ++ [change]) = change.leavesEnd (leavesEnd changes) := List.foldl_append

theorem patchItem_create {operation item : Json} (h : patchItem .null operation = .ok item)
    (k : String) : field? item k = field? (patchFields operation) k ∨ field? item k = none := by
  unfold patchItem at h
  simp only [Checked.bind_ok, Json.isNull, if_true] at h
  obtain ⟨patch, hpatch, unset, -, _, -, updated, hupdated, dropped, hdropped, _, -, _, -, h⟩ := h
  have hgiven : patchFields operation = updated := by
    rcases field?_of_value hpatch with ⟨v, hv, hsame⟩ | ⟨hnone, rfl⟩
    · rw [patchFields, hv, Option.getD_some, Except.ok.inj hsame, hupdated]
    · rw [patchFields, hnone, Option.getD_none, hupdated]
  obtain rfl := Checked.pure_ok.mp h
  rw [hgiven]
  exact unsetFields_ok hdropped k

/-- The kind of an item that passes is one of the known ones. -/
theorem field?_kind_of_validate {item : Json} (h : validate dumpSize item = .ok ()) :
    ∃ kind, item.valueString "kind" "" = .ok kind ∧ field? item "kind" = some (.str kind) := by
  obtain ⟨kind, hkind, hmem⟩ := validate_kind h
  refine ⟨kind, hkind, field?_of_valueString hkind ?_⟩
  rintro rfl
  exact absurd hmem (by decide)

/-- What is stored has the kind that was checked. -/
theorem storedItem_patched {old operation item : Json}
    (h : storedItem dumpSize groups admin old operation = .ok item) :
    ∃ patched, patchItem old operation = .ok patched ∧ validate dumpSize patched = .ok () ∧
      field? item "kind" = field? patched "kind" := by
  unfold storedItem at h
  simp only [Checked.bind_ok] at h
  obtain ⟨patched, hpatched, _, hvalid, updated, hupdated, kind, -, h⟩ := h
  obtain rfl := queryUpdatedItem_eq hupdated
  refine ⟨updated, hpatched, hvalid, ?_⟩
  split at h
  · exact (mergeHistory_ok h).2.1 "kind" (by decide) (by decide)
  · rw [Checked.pure_ok.mp h]

theorem storedItem_create_kind {operation item : Json}
    (h : storedItem dumpSize groups admin .null operation = .ok item) :
    field? item "kind" = field? (patchFields operation) "kind" := by
  obtain ⟨patched, hpatched, hvalid, hkind⟩ := storedItem_patched h
  obtain ⟨kind, -, hfield⟩ := field?_kind_of_validate hvalid
  rw [hkind]
  refine (patchItem_create hpatched "kind").resolve_right fun hnone ↦ ?_
  rw [hfield] at hnone
  nomatch hnone

theorem storedItem_patch_kind {old operation item : Json} (hold : old.isNull = false)
    (h : storedItem dumpSize groups admin old operation = .ok item) :
    field? item "kind" = field? old "kind" := by
  obtain ⟨patched, hpatched, hvalid, hkind⟩ := storedItem_patched h
  obtain ⟨kind, hvalue, hfield⟩ := field?_kind_of_validate hvalid
  have hne : "" ≠ kind := by
    obtain ⟨kind', hvalue', hmem⟩ := validate_kind hvalid
    obtain rfl := Except.ok.inj (hvalue.symm.trans hvalue')
    rintro rfl
    exact absurd hmem (by decide)
  unfold patchItem at hpatched
  simp only [Checked.bind_ok, hold, Bool.false_eq_true, if_false] at hpatched
  obtain ⟨_, -, _, -, _, -, _, -, dropped, -, same, hsame, _, hthrow, hpatched⟩ := hpatched
  obtain rfl := Checked.pure_ok.mp hpatched
  simp only [sameKind, hold, Bool.false_eq_true, if_false, Checked.bind_ok, hvalue,
    Except.ok.injEq, exists_eq_left', Checked.pure_ok] at hsame
  obtain ⟨before, hbefore, rfl⟩ := hsame
  obtain rfl : before = kind := by simpa using Checked.throwIf_ok.mp hthrow
  rw [hkind, hfield, field?_of_valueString hbefore hne]

/-- One change: by the changes that were accepted before it. -/
theorem Broker.Edit.canEnd_iff {change : Change} {item item' : Json} {before : Bool}
    (h : Edit dumpSize groups admin change item item') (hbefore : CanEnd item ↔ before = true) :
    CanEnd item' ↔ change.leavesEnd before = true := by
  cases h with
  | move there connector room moved valid =>
    rw [show (Change.move _ _).leavesEnd before = before from rfl, ← hbefore]
    refine Agora.canEnd_iff ?_ (ne_null_of_isNull there)
      (ne_null_of_isObject (validate_object valid))
    exact translateItem_fields moved (by decide) (by decide) (by decide)
  | delete room => exact iff_of_false (fun hend ↦ hend.there rfl) Bool.false_ne_true
  | @create operation _ stored =>
    have hkind := storedItem_create_kind stored
    rw [Change.leavesEnd, decide_eq_true_iff, ← hkind]
    constructor
    · exact fun hend ↦ hend.connector
    · exact fun hne ↦ ⟨ne_null_of_isObject (storedItem_object stored), hne, storedItem_kind stored⟩
  | patch there stored =>
    rw [show (Change.patch _).leavesEnd before = before from rfl, ← hbefore]
    exact Agora.canEnd_iff (storedItem_patch_kind there stored) (ne_null_of_isNull there)
      (ne_null_of_isObject (storedItem_object stored))

/-- All the changes, from an item that was an end. -/
theorem Broker.Edits.canEnd_iff {changes : List Change} {start item : Json} (hstart : CanEnd start)
    (h : Edits dumpSize groups admin changes start item) :
    CanEnd item ↔ leavesEnd changes = true := by
  induction h with
  | nil => exact iff_of_true hstart rfl
  | snoc _ edit ih =>
    rw [leavesEnd_snoc]
    exact edit.canEnd_iff (ih hstart)

theorem Broker.Edits.eq_of_nil {changes : List Change} {start item : Json}
    (h : Edits dumpSize groups admin changes start item) (hnil : changes = []) : start = item := by
  cases h with
  | nil => rfl
  | snoc => exact absurd hnil (List.append_ne_nil_of_right_ne_nil _ (List.cons_ne_nil _ _))

/-- Being an end does not depend on the fields of the server. -/
theorem visibleItem_kind {old start : Json} (h : visibleItem old = .ok start)
    (hold : field? old "kind" ≠ some (.str "host-tombstone")) :
    field? start "kind" = field? old "kind" ∧ (old ≠ .null → start ≠ .null) ∧
      (∀ k, k = "from" ∨ k = "to" → field? start k = field? old k) := by
  unfold visibleItem at h
  obtain ⟨tombstone, htombstone, h⟩ := Checked.bind_ok.mp h
  rw [hasText_ok (by decide) htombstone, decide_eq_false hold, Bool.false_or] at h
  split at h
  · next hnull =>
    obtain rfl := Checked.pure_ok.mp h
    obtain rfl : old = .null := by
      cases old with
      | null => rfl
      | _ => exact absurd hnull Bool.false_ne_true
    exact ⟨rfl, id, fun _ _ ↦ rfl⟩
  · obtain ⟨dropped, hdropped, h⟩ := Checked.bind_ok.mp h
    have hfield : ∀ k, k ≠ "__broker_revision" → k ≠ "__host_version" →
        field? start k = field? old k := by
      intro k hbroker hhost
      rw [field?_eraseKey h, if_neg hbroker.symm, field?_eraseKey hdropped, if_neg hhost.symm]
    refine ⟨hfield "kind" (by decide) (by decide), fun _ ↦ ?_, ?_⟩
    · exact ne_null_of_isObject (Json.eraseKey_ok h)
    · rintro k (rfl | rfl)
      · exact hfield "from" (by decide) (by decide)
      · exact hfield "to" (by decide) (by decide)

theorem stamp_kind {item : Json} (hitem : Itemlike item) (revision : ℤ) (k : String)
    (hk : k ≠ "__broker_revision") :
    field? ((stamp revision item).getD .null) k = field? item k ∧
      ((stamp revision item).getD .null = .null ↔ item = .null) := by
  rcases hitem with rfl | hobject
  · exact ⟨rfl, Iff.rfl⟩
  · cases item with
    | obj fields => exact ⟨Assoc.lookup_set_of_ne hk.symm _ _, by simp [stamp]⟩
    | _ => exact absurd hobject Bool.false_ne_true

end Edits

section Storage

variable {base : Backend Storage} {readNumber : String → Option ℚ} {visit : Visit} {id : ℤ}

/-- What a batch leaves of the items of a document, revisions apart. -/
def stagedItem (d : Json) (mutation : Mutation) (id : String) : Json :=
  (mutation.items.lookup id).getD (itemOf d id)

theorem prepareNew_tied {groups : List String} {admin : Bool} {operations : Json}
    {mutation : Mutation} {s s' : Storage}
    (h : prepareNew (storageBackend base readNumber visit) id groups admin operations s
      = (.ok mutation, s')) {item : String} {v : Json} (hv : mutation.items.lookup item = some v)
    (hconnector : IsConnector v) : connectors.Tied (stagedItem s.document mutation) v := by
  obtain ⟨read, t, hread, hreads, ht, hprepare⟩ := prepareNew_prepare h
  have hsees : ∀ {end' w}, Sees (fun t : Storage ↦ t.document = s.document) read mutation end' w →
      stagedItem s.document mutation end' = w := by
    intro end' w hw
    rcases hw with hstaged | ⟨hnone, hread⟩
    · rw [stagedItem, hstaged, Option.getD_some]
    · rw [stagedItem, hnone, Option.getD_none, hreads end' w hread]
  obtain ⟨source, target, hjoins, hne, ⟨w, hw, hsource⟩, u, hu, htarget⟩ :=
    (prepare_checks hread operations t mutation s' ht hprepare).2 item v hv hconnector
  exact ⟨source, target, hjoins, hne, hsees hw ▸ hsource, hsees hu ▸ htarget⟩

/-- The changes a batch makes to the ends of the connectors it says nothing about: each is left as
an end. -/
def SparesEnds (d : Json) (operations : List Json) : Prop :=
  ∀ id, historyOf operations id = [] → IsConnector (itemOf d id) →
    ∀ source target, Joins (itemOf d id) source target →
      leavesEnd (historyOf operations source) ∧ leavesEnd (historyOf operations target)

/-- What a batch that is applied leaves of an item, revisions apart. -/
structure Leaves (item item' : Json) : Prop where
  fields : ∀ k, k ≠ "__broker_revision" → field? item' k = field? item k
  there : item' = .null ↔ item = .null

theorem Leaves.canEnd {item item' : Json} (h : Leaves item item') : CanEnd item' ↔ CanEnd item := by
  have hkind := h.fields "kind" (by decide)
  constructor
  · exact .congr hkind.symm fun hthere hnull ↦ hthere (h.there.mpr hnull)
  · exact .congr hkind fun hthere hnull ↦ hthere (h.there.mp hnull)

theorem Leaves.joins {item item' : Json} (h : Leaves item item') {source target : String} :
    Joins item' source target ↔ Joins item source target := by
  constructor
  · rintro ⟨hsource, htarget⟩
    exact ⟨(h.fields "from" (by decide)).symm.trans hsource,
      (h.fields "to" (by decide)).symm.trans htarget⟩
  · rintro ⟨hsource, htarget⟩
    exact ⟨(h.fields "from" (by decide)).trans hsource,
      (h.fields "to" (by decide)).trans htarget⟩

/-- The items of a board that a batch is applied to. -/
theorem items_apply (b : Board) (request : BatchRequest) (mutation : Mutation) (id : String) :
    (b.apply (batchOf request mutation)).items id
      = (mutation.items.lookup id).elim (b.items id) (stamp (b.revision + 1)) := by
  rcases hitem : mutation.items.lookup id with _ | v
  · simp only [Board.apply, batchOf, hitem, Option.elim_none]
  · simp only [Board.apply, batchOf, hitem, Option.elim_some]

theorem StagedFrom.leaves {dumpSize : Json → ℕ} {groups : List String} {admin : Bool} {d d' : Json}
    {b : Board} {operations : List Json} {request : BatchRequest} {mutation : Mutation}
    (h : StagedFrom dumpSize groups admin d operations mutation) (hshows : Shows d b)
    (hshows' : Shows d' (b.apply (batchOf request mutation))) (id : String) :
    Leaves (stagedItem d mutation id) (itemOf d' id) := by
  rw [itemOf, hshows'.items, items_apply, stagedItem]
  cases hitem : mutation.items.lookup id with
  | none =>
    rw [Option.elim_none, ← hshows.items, ← itemOf]
    exact ⟨fun _ _ ↦ rfl, Iff.rfl⟩
  | some v =>
    obtain ⟨start, hstart, hedits⟩ := h.edited id v hitem
    have hlike := hedits.itemlike (visibleItem_itemlike hstart)
    exact ⟨fun k hk ↦ (stamp_kind hlike _ k hk).1,
      (stamp_kind hlike (b.revision + 1) "kind" (by decide)).2⟩

section Applied

variable {dumpSize : Json → ℕ} {groups : List String} {admin : Bool} {d d' : Json} {b : Board}
  {operations : List Json} {request : BatchRequest} {mutation : Mutation}
  (h : StagedFrom dumpSize groups admin d operations mutation) (hshows : Shows d b)
  (hshows' : Shows d' (b.apply (batchOf request mutation)))

include h hshows hshows'

/-- Whether an end is left as one can be read off the batch. -/
theorem StagedFrom.canEnd_iff {id : String} (hend : CanEnd (itemOf d id)) :
    CanEnd (itemOf d' id) ↔ leavesEnd (historyOf operations id) = true := by
  rw [(h.leaves hshows hshows' id).canEnd, stagedItem]
  cases hitem : mutation.items.lookup id with
  | none =>
    rw [h.untouched id hitem]
    exact iff_of_true hend rfl
  | some v =>
    obtain ⟨start, hstart, hedits⟩ := h.edited id v hitem
    obtain ⟨hkind, hthere, -⟩ := visibleItem_kind hstart hend.tombstone
    exact hedits.canEnd_iff (hend.congr hkind hthere)

/-- Connectors that are written are tied, when those that are staged are. -/
theorem StagedFrom.tied (htied : ∀ {id v}, mutation.items.lookup id = some v → IsConnector v →
      connectors.Tied (stagedItem d mutation) v) {id : String} {v : Json}
    (hitem : mutation.items.lookup id = some v) (hconnector : IsConnector (itemOf d' id)) :
    connectors.Tied (itemOf d') (itemOf d' id) := by
  have hleaves := h.leaves hshows hshows'
  have hstaged : stagedItem d mutation id = v := by rw [stagedItem, hitem, Option.getD_some]
  have hv : IsConnector v := by
    rw [← hstaged, IsConnector, ← (hleaves id).fields "kind" (by decide)]
    exact hconnector
  obtain ⟨x, y, hjoins, hne, hx, hy⟩ := htied hitem hv
  rw [← hstaged] at hjoins
  exact ⟨x, y, (hleaves id).joins.mpr hjoins, hne, (hleaves x).canEnd.mpr hx,
    (hleaves y).canEnd.mpr hy⟩

theorem StagedFrom.attached_iff (htied : ∀ {id v}, mutation.items.lookup id = some v →
      IsConnector v → connectors.Tied (stagedItem d mutation) v) (hattached : Attached d) :
    Attached d' ↔ SparesEnds d operations := by
  have hframe : ∀ id, id ∉ {id | (mutation.items.lookup id).isSome} →
      itemOf d' id = itemOf d id := by
    intro id hid
    have hnone := Option.not_isSome_iff_eq_none.mp hid
    rw [itemOf, hshows'.items, items_apply, hnone, Option.elim_none, itemOf, hshows.items]
  have hwritten : ∀ id, id ∈ {id | (mutation.items.lookup id).isSome} → IsConnector (itemOf d' id) →
      connectors.Tied (itemOf d') (itemOf d' id) := by
    intro id hid hconnector
    obtain ⟨v, hv⟩ := Option.isSome_iff_exists.mp hid
    exact h.tied hshows hshows' htied hv hconnector
  -- the ends a connector of the document names can be read off the batch
  have hends : ∀ {id x y}, IsConnector (itemOf d id) → Joins (itemOf d id) x y →
      (CanEnd (itemOf d' x) ∧ CanEnd (itemOf d' y) ↔
        leavesEnd (historyOf operations x) = true ∧ leavesEnd (historyOf operations y) = true) := by
    intro id x y hconnector hjoins
    obtain ⟨x', y', hjoins', -, hx, hy⟩ := hattached id hconnector
    obtain ⟨rfl, rfl⟩ := connectors.unique hjoins hjoins'
    exact and_congr (h.canEnd_iff hshows hshows' hx) (h.canEnd_iff hshows hshows' hy)
  rw [Attached, connectors.attached_iff hattached hframe hwritten]
  constructor
  · intro hkept id hhistory hconnector x y hjoins
    refine (hends hconnector hjoins).mp ?_
    by_cases hid : (mutation.items.lookup id).isSome
    · -- a connector that was only read is staged as it was
      obtain ⟨v, hv⟩ := Option.isSome_iff_exists.mp hid
      obtain ⟨start, hstart, hedits⟩ := h.edited id v hv
      obtain rfl := hedits.eq_of_nil hhistory
      have hkept : field? (itemOf d id) "kind" ≠ some (.str "host-tombstone") := by
        rw [show field? (itemOf d id) "kind" = some (.str "connector") from hconnector]
        decide
      obtain ⟨hkind, -, hfields⟩ := visibleItem_kind hstart hkept
      have hleaves := h.leaves hshows hshows' id
      rw [stagedItem, hv, Option.getD_some] at hleaves
      have hafter : IsConnector (itemOf d' id) :=
        ((hleaves.fields "kind" (by decide)).trans hkind).trans hconnector
      have hjoins' : Joins (itemOf d' id) x y := hleaves.joins.mpr
        ⟨(hfields "from" (Or.inl rfl)).trans hjoins.source_eq,
          (hfields "to" (Or.inr rfl)).trans hjoins.target_eq⟩
      obtain ⟨x', y', hjoins'', -, hx, hy⟩ := h.tied hshows hshows' htied hv hafter
      obtain ⟨rfl, rfl⟩ := connectors.unique hjoins' hjoins''
      exact ⟨hx, hy⟩
    · exact hkept id hid hconnector x y hjoins
  · intro hspares id hid hconnector x y hjoins
    refine (hends hconnector hjoins).mpr ?_
    have hnone := Option.not_isSome_iff_eq_none.mp hid
    exact hspares id (h.untouched id hnone) hconnector x y hjoins

end Applied

/-- **Connectors stay attached** when the batch repeats one that was applied, or leaves the ends of
the connectors it says nothing about, and only then. -/
theorem attached_iff_spares {a : Admitted} {s s' : Storage} {answer : Json} {b : Board}
    (hshows : Shows s.document b) (hsane : b.Sane) (htype : a.type = "canvas_ops")
    (h : canvasQuery (storageBackend base readNumber visit) a s = (.ok answer, s'))
    (hattached : Attached s.document) :
    Attached s'.document ↔ RepeatsLast a s.document ∨ SparesEnds s.document (requested a) := by
  have hne : a.type ≠ "canvas_sync" := by
    rw [htype]
    decide
  obtain ⟨operations, b', hoperations, hperformed, hshows', -⟩ :=
    canvasQuery_performed hshows hsane hne h
  rw [requested_eq hoperations]
  cases hperformed with
  | duplicate repeats created =>
    refine iff_of_true ?_ (Or.inl repeats)
    have hsame : itemOf s'.document = itemOf s.document := by
      funext id
      rw [itemOf, itemOf, hshows'.items, hshows.items]
    rw [Attached, hsame]
    exact hattached
  | applied fresh request mutation t t' document prepared =>
    have hstaged := (prepareNew_staged prepared).1
    have htied : ∀ {item v}, mutation.items.lookup item = some v → IsConnector v →
        connectors.Tied (stagedItem t.document mutation) v := prepareNew_tied prepared
    rw [document] at hstaged htied
    rw [hstaged.attached_iff hshows hshows' htied hattached]
    exact (or_iff_right fresh).symm

end Storage

def boxItem : Json := .obj [("kind", .str "shape"), ("permission", .str "staff")]

def wireItem : Json := .obj [("kind", .str "connector"), ("permission", .str "staff"),
  ("from", .str "box-1"), ("to", .str "box-2")]

/-- Two shapes and a connector between them. -/
def wiredDocument : Json :=
  .obj [("items", .obj [("box-1", boxItem), ("box-2", boxItem), ("wire", wireItem)])]

/-- A user deletes one of the shapes. -/
def remover : Admitted :=
  { sender with event := .obj [("client_id", .str "tab"), ("request_count", .int 1),
      ("operations", .arr [.obj [("action", .str "delete"), ("id", .str "box-1")]])] }

theorem wiredDocument_shows : Shows wiredDocument ⟨0, fun _ ↦ none, fun id ↦
    [("box-1", boxItem), ("box-2", boxItem), ("wire", wireItem)].lookup id⟩ := by
  refine ⟨⟨_, rfl⟩, fun id ↦ ?_, Or.inl ⟨rfl, rfl, fun _ ↦ rfl⟩⟩
  change (Json.obj [("box-1", boxItem), ("box-2", boxItem), ("wire", wireItem)]).find [.key id] = _
  simp [Json.find, Json.child]

theorem wiredDocument_attached : Attached wiredDocument := by
  intro id hconnector
  have hitem : itemOf wiredDocument id = ([("box-1", boxItem), ("box-2", boxItem),
      ("wire", wireItem)].lookup id).getD .null := by rw [itemOf, wiredDocument_shows.items]
  have hbox : CanEnd boxItem := ⟨by simp [boxItem], by decide, by decide⟩
  have hwire : itemOf wiredDocument id = wireItem := by
    change IsConnector _ at hconnector
    rw [hitem] at hconnector ⊢
    cases hlookup : [("box-1", boxItem), ("box-2", boxItem), ("wire", wireItem)].lookup id with
    | none =>
      rw [hlookup] at hconnector
      contradiction
    | some v =>
      rw [hlookup] at hconnector
      have hmem := Assoc.mem_of_lookup hlookup
      simp only [List.mem_cons, Prod.mk.injEq, List.not_mem_nil, or_false] at hmem
      rcases hmem with ⟨-, rfl⟩ | ⟨-, rfl⟩ | ⟨-, rfl⟩
      · exact absurd hconnector (by decide)
      · exact absurd hconnector (by decide)
      · rfl
  rw [hwire]
  exact ⟨"box-1", "box-2", ⟨rfl, rfl⟩, by decide, hbox, hbox⟩

theorem removal_detaches : Attached wiredDocument ∧
    (∃ answer, (canvasQuery plainBackend remover ⟨wiredDocument, []⟩).1 = .ok answer) ∧
    ¬Attached (documentAfter remover wiredDocument) := by
  refine ⟨wiredDocument_attached, ⟨_, by with_unfolding_all rfl⟩, fun h ↦ ?_⟩
  obtain ⟨x, y, hjoins, -, hx, -⟩ := h "wire" (by with_unfolding_all rfl)
  have hsource : field? (itemOf (documentAfter remover wiredDocument) "wire") "from"
      = some (.str "box-1") := by with_unfolding_all rfl
  obtain rfl : x = "box-1" :=
    Json.str.inj (Option.some.inj (hjoins.source_eq.symm.trans hsource))
  exact hx.there (by with_unfolding_all rfl)

theorem removal_attached_iff : Attached (documentAfter remover wiredDocument) ↔
    RepeatsLast remover wiredDocument ∨ SparesEnds wiredDocument (requested remover) :=
  @attached_iff_spares silentBackend (fun _ ↦ none) asVisited remover ⟨wiredDocument, []⟩
    (canvasQuery plainBackend remover ⟨wiredDocument, []⟩).2 (answerTo remover wiredDocument) _
    wiredDocument_shows nofun rfl (by with_unfolding_all rfl) wiredDocument_attached

end Agora
