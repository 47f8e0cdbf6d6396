import Agora.Query.Range
import Agora.Json.Text
import Mathlib.Algebra.GroupWithZero.Nat

/-!
# Batches and patches to come

After a batch is accepted and stored, every item of the canvas can still be patched by whoever may
patch it, when the batch spares the ends of the connectors it says nothing about, leaves histories
that fit and moves no stroke out of range, and only then (`items_stay_patchable`).
-/

namespace Agora

open Broker Query

/-! ## Canvases whose items can be patched -/

/-- An item of one of the kinds that batches write. -/
def Known (item : Json) : Prop := ∃ kind ∈ itemKinds, field? item "kind" = some (.str kind)

/-- A caller has access to an item, and to the ends of a connector. -/
structure MayPatch (d : Json) (groups : List String) (admin : Bool) (id : String) : Prop where
  access : queryCanAccess (itemOf d id) groups admin
  ends : IsConnector (itemOf d id) → ∀ source target, Joins (itemOf d id) source target →
    queryCanAccess (itemOf d source) groups admin ∧ queryCanAccess (itemOf d target) groups admin

/-- Every item can be patched by everyone who may. -/
def Patchable (dumpSize : Json → ℕ) (d : Json) : Prop :=
  ∀ id, Known (itemOf d id) → ∀ groups admin, MayPatch d groups admin id →
    Patches dumpSize d groups admin id

/-- What is relied on of the size of a dump: a field is no longer than all of them, and an array no
longer than one it is a part of. -/
structure Shortens (dumpSize : Json → ℕ) : Prop where
  field : ∀ {fields : List (String × Json)} {k : String} {v : Json}, (k, v) ∈ fields →
    dumpSize (.obj [(k, v)]) ≤ dumpSize (.obj fields)
  part : ∀ {fields : List (String × Json)} {id k : String} {l l' : List Json},
    fields.lookup k = some (.arr l) → l'.Sublist l →
    dumpSize (.obj [(id, .obj (Assoc.set k (.arr l') fields))])
      ≤ dumpSize (.obj [(id, .obj fields)])

section Length

variable (fraction : ℚ → ℕ)

/-- The bytes of a text as it is written. -/
def textLength (s : String) : ℕ := ((JsonText.quote s.toList).map Char.utf8Size).sum

mutual

/-- The bytes of a dump without spaces, given those of a fraction. -/
def dumpLength : Json → ℕ
  | .null => 4
  | .bool b => if b then 4 else 5
  | .int n => (toString n).utf8ByteSize
  | .float q => fraction q
  | .str s => textLength s
  | .arr elements => max 2 (1 + elementsLength elements)
  | .obj fields => max 2 (1 + fieldsLength fields)

/-- The bytes of the elements of an array, each with what comes after it. -/
def elementsLength : List Json → ℕ
  | [] => 0
  | v :: l => dumpLength v + 1 + elementsLength l

/-- The bytes of the fields of an object. -/
def fieldsLength : List (String × Json) → ℕ
  | [] => 0
  | (k, v) :: l => textLength k + 1 + dumpLength v + 1 + fieldsLength l

end

theorem elementsLength_le_of_sublist {l l' : List Json} (h : l'.Sublist l) :
    elementsLength fraction l' ≤ elementsLength fraction l := by
  induction h with
  | slnil => exact le_rfl
  | cons v _ ih =>
    rw [elementsLength]
    exact ih.trans (Nat.le_add_left _ _)
  | cons_cons v _ ih =>
    rw [elementsLength, elementsLength]
    exact Nat.add_le_add_left ih _

theorem fieldsLength_le_of_mem {k : String} {v : Json} {fields : List (String × Json)}
    (h : (k, v) ∈ fields) : fieldsLength fraction [(k, v)] ≤ fieldsLength fraction fields := by
  induction fields with
  | nil => nomatch h
  | cons e fields ih =>
    obtain ⟨k', v'⟩ := e
    rcases List.mem_cons.mp h with hsame | hmem
    · obtain ⟨rfl, rfl⟩ := Prod.mk.inj hsame
      simp only [fieldsLength]
      omega
    · rw [fieldsLength.eq_def _ ((k', v') :: fields)]
      exact (ih hmem).trans (Nat.le_add_left _ _)

theorem fieldsLength_set_le {k : String} {v v' : Json} {fields : List (String × Json)}
    (h : fields.lookup k = some v) (hv : dumpLength fraction v' ≤ dumpLength fraction v) :
    fieldsLength fraction (Assoc.set k v' fields) ≤ fieldsLength fraction fields := by
  induction fields with
  | nil => nomatch h
  | cons e fields ih =>
    obtain ⟨k', w⟩ := e
    by_cases hk : k' = k
    · subst hk
      rw [List.lookup_cons_self, Option.some.injEq] at h
      subst h
      rw [Assoc.set, if_pos rfl, fieldsLength, fieldsLength]
      omega
    · rw [Assoc.lookup_cons_of_ne hk] at h
      rw [Assoc.set, if_neg hk, fieldsLength, fieldsLength]
      exact Nat.add_le_add_left (ih h) _

/-- The length of a dump is such a size. -/
theorem dumpLength_shortens : Shortens (dumpLength fraction) := by
  refine ⟨fun {fields k v} h ↦ ?_, fun {fields id k l l'} h hsub ↦ ?_⟩
  · rw [dumpLength, dumpLength]
    exact max_le_max_left 2 (Nat.add_le_add_left (fieldsLength_le_of_mem fraction h) 1)
  · have harray : dumpLength fraction (.arr l') ≤ dumpLength fraction (.arr l) := by
      rw [dumpLength, dumpLength]
      exact max_le_max_left 2 (Nat.add_le_add_left (elementsLength_le_of_sublist fraction hsub) 1)
    have hfields := fieldsLength_set_le fraction h harray
    simp only [dumpLength, fieldsLength]
    omega

end Length

section Patchable

variable {dumpSize : Json → ℕ} {groups : List String} {admin : Bool} {d d' : Json} {id : String}

theorem queryCanAccess_admin (item : Json) : queryCanAccess item groups true = true :=
  Bool.true_or _

theorem Reaches.elevate {item : Json} (h : Reaches groups admin item) : Reaches [] true item :=
  ⟨h.canEnd, h.kind, queryCanAccess_admin item⟩

theorem Attaches.elevate {sees : String → Json → Prop} {item : Json}
    (h : Attaches groups admin sees item) : Attaches [] true sees item := by
  obtain ⟨source, target, hjoins, hne, hsource, htarget, ⟨v, hv, hreaches⟩, w, hw, hreaches'⟩ := h
  exact ⟨source, target, hjoins, hne, hsource, htarget, ⟨v, hv, hreaches.elevate⟩, w, hw,
    hreaches'.elevate⟩

theorem IsConnector.known {item : Json} (h : IsConnector item) : Known item :=
  ⟨"connector", by decide, h⟩

/-- Whoever may patch an item can when an administrator can. -/
theorem MayPatch.patches (hmay : MayPatch d groups admin id) (h : Patches dumpSize d [] true id) :
    Patches dumpSize d groups admin id := by
  obtain ⟨heditable, -, hattaches⟩ := patches_iff.mp h
  refine patches_iff.mpr ⟨heditable, hmay.access, fun hconnector ↦ ?_⟩
  obtain ⟨source, target, hjoins, hne, hsource, htarget, ⟨v, rfl, hv⟩, w, rfl, hw⟩ :=
    hattaches hconnector
  obtain ⟨haccess, haccess'⟩ := hmay.ends hconnector source target hjoins
  exact ⟨source, target, hjoins, hne, hsource, htarget, ⟨_, rfl, hv.canEnd, hv.kind, haccess⟩,
    _, rfl, hw.canEnd, hw.kind, haccess'⟩

theorem patchable_iff :
    Patchable dumpSize d ↔ ∀ id, Known (itemOf d id) → Patches dumpSize d [] true id := by
  constructor
  · exact fun h id hknown ↦ h id hknown [] true
      ⟨queryCanAccess_admin _, fun _ _ _ _ ↦ ⟨queryCanAccess_admin _, queryCanAccess_admin _⟩⟩
  · exact fun h id hknown groups admin hmay ↦ hmay.patches (h id hknown)

theorem patchable_congr (hsame : itemOf d' = itemOf d) :
    Patchable dumpSize d' ↔ Patchable dumpSize d := by
  simp only [patchable_iff, patches_iff, hsame]

theorem mayPatch_congr (hsame : itemOf d' = itemOf d) :
    MayPatch d' groups admin id ↔ MayPatch d groups admin id := by
  constructor
  · exact fun h ↦ ⟨hsame ▸ h.access, hsame ▸ h.ends⟩
  · exact fun h ↦ ⟨hsame ▸ h.access, hsame ▸ h.ends⟩

theorem Patchable.attached (h : Patchable dumpSize d) : Attached d := by
  intro id hconnector
  obtain ⟨-, -, hattaches⟩ := patches_iff.mp (patchable_iff.mp h id hconnector.known)
  obtain ⟨source, target, hjoins, hne, -, -, ⟨v, rfl, hv⟩, w, rfl, hw⟩ := hattaches hconnector
  exact ⟨source, target, hjoins, hne, hv.canEnd, hw.canEnd⟩

theorem known_of_validate {item : Json} (h : validate dumpSize item = .ok ()) : Known item := by
  obtain ⟨kind, hvalue, hmem⟩ := validate_kind h
  obtain ⟨kind', hvalue', hkind⟩ := field?_kind_of_validate h
  obtain rfl := Except.ok.inj (hvalue.symm.trans hvalue')
  exact ⟨kind, hmem, hkind⟩

theorem mem_itemKinds {kind : String} (h : keepsHistory kind) : kind ∈ itemKinds := by
  simp only [keepsHistory, Bool.or_eq_true, decide_eq_true_eq] at h
  rcases h with (rfl | rfl) | rfl <;> decide

/-- The histories of a canvas whose items can be patched fit as they are. -/
theorem Patchable.keepsHistory_nil (h : Patchable dumpSize d) : KeepsHistory (itemOf d id) [] := by
  intro kind hkind hkeeps
  change checkHistory kind (seenItem (itemOf d id)) = .ok ()
  change field? (seenItem (itemOf d id)) "kind" = some (.str kind) at hkind
  cases hstart : visibleItem (itemOf d id) with
  | error =>
    rw [seenItem, hstart] at hkind
    contradiction
  | ok start =>
    rw [seenItem_eq hstart] at hkind ⊢
    have hnull : start.isNull = false := isNull_of_ne fun hnull ↦ by
      rw [hnull] at hkind
      contradiction
    have hknown : Known (itemOf d id) := ⟨kind, mem_itemKinds hkeeps,
      (visibleItem_fields hstart hnull (by decide) (by decide)).symm.trans hkind⟩
    obtain ⟨⟨-, -, start', hstart', hpasses, -⟩, -⟩ :=
      patches_iff.mp (patchable_iff.mp h id hknown)
    obtain rfl := Except.ok.inj (hstart.symm.trans hstart')
    obtain ⟨kind', hkind', hchecked⟩ := hpasses.history
    obtain rfl := Json.str.inj (Option.some.inj (hkind.symm.trans hkind'))
    exact hchecked

end Patchable

/-! ## What is stored of a canvas -/

/-- No item holds an infinity, as none does that was parsed. -/
def ItemsInRange (d : Json) : Prop := ∀ id, inRange (itemOf d id)

theorem itemOf_written (d : Json) (id : String) :
    itemOf (written d) id = written (itemOf d id) := by
  have hitems (d : Json) : itemOf d id = ((field? d "items").bind (field? · id)).getD .null := by
    change (Option.bind _ fun c ↦ Option.bind _ some).getD _ = _
    simp only [Option.bind_fun_some]
    rfl
  rw [hitems, hitems, field?_written]
  cases field? d "items" with
  | none => rfl
  | some items =>
    change (field? (written items) id).getD .null = written ((field? items id).getD .null)
    rw [field?_written]
    cases field? items id <;> rfl

/-- Without infinities the items are stored as they are. -/
theorem ItemsInRange.itemOf_written {d : Json} (h : ItemsInRange d) :
    itemOf (written d) = itemOf d :=
  funext fun id ↦ (Agora.itemOf_written d id).trans (written_of_inRange (h id))

theorem inRange_stamp {item : Json} (h : inRange item) (revision : ℤ) :
    inRange ((stamp revision item).getD .null) := by
  cases item with
  | obj fields => exact inRangeFields_set h rfl
  | _ => exact h

/-! ## What a batch leaves -/

section Stamped

variable {dumpSize : Json → ℕ} {item : Json} {id : String}

/-- A valid item is seen as it was before it was stamped. -/
theorem visibleItem_stamp (hvalid : validate dumpSize item = .ok ()) (revision : ℤ) :
    visibleItem ((stamp revision item).getD .null) = .ok item := by
  have hrevision := field?_of_validate hvalid
    (by decide : itemFields.contains "__broker_revision" = false)
  have hversion := field?_of_validate hvalid
    (by decide : itemFields.contains "__host_version" = false)
  obtain ⟨kind, hmem, hkind⟩ := known_of_validate hvalid
  match item, validate_object hvalid with
  | .obj fields, _ =>
    have hkind' : field? (.obj (Assoc.set "__broker_revision" (.int revision) fields)) "kind"
        = some (.str kind) := by
      rwa [field?_obj, Assoc.lookup_set_of_ne (by decide)]
    have htombstone : hasText (.obj (Assoc.set "__broker_revision" (.int revision) fields)) "kind"
        "host-tombstone" = .ok false := by
      rw [hasText_of_kind (by nofun) (valueString_of_field? hkind' "")]
      refine congrArg Except.ok (decide_eq_false ?_)
      rintro rfl
      exact absurd hmem (by decide)
    have herased : Assoc.erase "__host_version" (Assoc.set "__broker_revision" (.int revision)
        fields) = Assoc.set "__broker_revision" (.int revision) fields := by
      rw [Assoc.erase_of_lookup]
      rwa [Assoc.lookup_set_of_ne (by decide)]
    change visibleItem (.obj (Assoc.set "__broker_revision" (.int revision) fields)) = _
    unfold visibleItem
    rw [htombstone]
    change (do
      let erased ← Except.ok (Json.obj (Assoc.erase "__host_version" (Assoc.set "__broker_revision"
        (.int revision) fields)))
      Json.eraseKey erased "__broker_revision" : Checked Json) = _
    rw [herased]
    change Except.ok (Json.obj (Assoc.erase "__broker_revision" (Assoc.set "__broker_revision"
      (.int revision) fields))) = _
    rw [Assoc.erase_set_self, Assoc.erase_of_lookup hrevision]

theorem readRevision_stamp (hobject : item.isObject) (revision : ℤ) :
    ∃ read, readRevision ((stamp revision item).getD .null) = .ok read := by
  match item with
  | .obj fields =>
    refine ⟨Json.wrap 64 revision, ?_⟩
    change (Json.obj (Assoc.set "__broker_revision" (.int revision) fields)).valueLong
      "__broker_revision" 0 = _
    simp only [Json.valueLong, Json.value, Assoc.lookup_set_self]
    rfl

/-- A repatched item is no longer than it was. -/
theorem Passes.shortens (hdump : Shortens dumpSize) (h : Passes dumpSize item) (id : String) :
    dumpSize (.obj [(id, repatched item)]) ≤ dumpSize (.obj [(id, item)]) := by
  obtain ⟨kind, hkind, hchecked⟩ := h.history
  cases hkeeps : keepsHistory kind with
  | false => rw [repatched_of_not hkind hkeeps]
  | true =>
    obtain ⟨-, changes, hchanges, -⟩ := (checkHistory_iff hkeeps).mp hchecked
    match item, validate_object h.valid with
    | .obj fields, _ =>
      have hin : changesIn (.obj fields) = changes := by rw [changesIn, hchanges]; rfl
      have hsame : repatched (.obj fields)
          = .obj (Assoc.set "automerge_changes" (.arr (firstChanges changes)) fields) := by
        simp only [repatched, hkind, hkeeps, if_true, hin]
      rw [hsame]
      exact hdump.part hchanges (firstChanges_sublist changes)

/-- A stamped item can be patched when it passes. -/
theorem editable_stamp (hdump : Shortens dumpSize) (hid : validQueryItemId id)
    (hvalid : validate dumpSize item = .ok ()) (hsize : dumpSize (.obj [(id, item)]) ≤ batchLimit)
    (revision : ℤ) : Editable dumpSize id ((stamp revision item).getD .null) ↔
      Passes dumpSize item := by
  constructor
  · rintro ⟨-, -, start, hstart, hpasses, -⟩
    rw [visibleItem_stamp hvalid, Except.ok.injEq] at hstart
    rwa [hstart]
  · intro hpasses
    exact ⟨hid, readRevision_stamp (validate_object hvalid) revision, item,
      visibleItem_stamp hvalid revision, hpasses, (hpasses.shortens hdump id).trans hsize⟩

end Stamped

/-- What a batch stages can be stored. -/
structure Storable (dumpSize : Json → ℕ) (groups : List String) (admin : Bool) (d : Json)
    (mutation : Mutation) : Prop where
  validId : ∀ {id item}, mutation.items.lookup id = some item → validQueryItemId id
  valid : ∀ {id item}, mutation.items.lookup id = some item →
    item = .null ∨ validate dumpSize item = .ok ()
  attaches : ∀ {id item}, mutation.items.lookup id = some item → IsConnector item →
    Attaches groups admin (fun id v ↦ v = stagedItem d mutation id) item
  size : dumpSize (.obj mutation.items) ≤ batchLimit

theorem prepareNew_storable {base : Backend Storage} {readNumber : String → Option ℚ}
    {visit : Visit} {id : ℤ} {groups : List String} {admin : Bool} {operations : Json}
    {mutation : Mutation} {s s' : Storage}
    (h : prepareNew (storageBackend base readNumber visit) id groups admin operations s
      = (.ok mutation, s'))
    (hdamaged : ∀ id item, mutation.items.lookup id = some item → ¬Damaged item) :
    Storable base.dumpSize groups admin s.document mutation := by
  obtain ⟨read, t, hread, hreads, ht, hprepare⟩ := prepareNew_prepare h
  obtain ⟨hattaches, hsize⟩ :=
    (prepare_attaches hread operations t mutation s' ht hprepare).2
  refine ⟨fun {id item} hitem ↦ ?_, fun {id item} hitem ↦ ?_, fun {id item} hitem hconnector ↦ ?_,
    hsize⟩
  · obtain ⟨old, revision, -, -, htrace⟩ :=
      (prepare_traced hread operations t mutation s' ht hprepare).2.trace id item hitem
    exact htrace.valid
  · exact ((prepare_validated hread operations t mutation s' ht hprepare).2 id item hitem).imp_right
      (·.resolve_right (hdamaged id item hitem))
  · refine (hattaches id item hitem hconnector).congr rfl rfl ?_
    rintro other ⟨v, hv, hreaches⟩
    refine ⟨v, ?_, hreaches⟩
    rcases hv with hstaged | ⟨hnone, hread⟩
    · rw [stagedItem, hstaged, Option.getD_some]
    · rw [stagedItem, hnone, Option.getD_none, hreads other v hread]

/-- What is left of an item a connector can be attached to. -/
theorem Leaves.reaches {groups : List String} {admin : Bool} {item item' : Json}
    (h : Leaves item item') (hobject : item.isObject → item'.isObject)
    (hreaches : Reaches groups admin item) : Reaches groups admin item' := by
  obtain ⟨kind, hkind⟩ := hreaches.kind
  refine ⟨h.canEnd.mpr hreaches.canEnd, ⟨kind, ?_⟩, ?_⟩
  · match item with
    | .obj fields =>
      match item', hobject rfl with
      | .obj fields', _ =>
        rw [← hkind]
        exact value_congr (h.fields "kind" (by decide))
    | .null | .bool _ | .int _ | .float _ | .str _ | .arr _ => nomatch hkind
  · rw [queryCanAccess_congr (h.fields "permission" (by decide))]
    exact hreaches.access

section Applied

variable {dumpSize : Json → ℕ} {groups : List String} {admin : Bool} {d d' : Json} {b : Board}
  {operations : List Json} {request : BatchRequest} {mutation : Mutation} {id : String}
  (hshows : Shows d b) (hshows' : Shows d' (b.apply (batchOf request mutation)))

include hshows'

theorem itemOf_staged {item : Json} (hitem : mutation.items.lookup id = some item) :
    itemOf d' id = (stamp (b.revision + 1) item).getD .null := by
  rw [itemOf, hshows'.items, items_apply, hitem]
  rfl

include hshows

theorem itemOf_unstaged (hitem : mutation.items.lookup id = none) : itemOf d' id = itemOf d id := by
  rw [itemOf, hshows'.items, items_apply, hitem, Option.elim_none, itemOf, hshows.items]

variable (hfrom : StagedFrom dumpSize groups admin d operations mutation)
  (hstorable : Storable dumpSize groups admin d mutation)

include hfrom

/-- What connectors see of an item that a batch leaves. -/
theorem StagedFrom.reaches {groups' : List String} {admin' : Bool}
    (hreaches : Reaches groups' admin' (stagedItem d mutation id)) :
    Reaches groups' admin' (itemOf d' id) := by
  refine (hfrom.leaves hshows hshows' id).reaches (fun hobject ↦ ?_) hreaches
  cases hitem : mutation.items.lookup id with
  | none =>
    rw [itemOf_unstaged hshows hshows' hitem]
    rwa [stagedItem, hitem] at hobject
  | some item =>
    rw [stagedItem, hitem, Option.getD_some] at hobject
    rw [itemOf_staged hshows' hitem]
    rcases item with _ | _ | _ | _ | _ | _ | fields
    case obj => rfl
    all_goals exact absurd hobject Bool.false_ne_true

include hstorable

/-- A connector that was written can be attached by the one who wrote it. -/
theorem Storable.attaches_after {item : Json} (hitem : mutation.items.lookup id = some item)
    (hconnector : IsConnector (itemOf d' id)) :
    Attaches groups admin (fun id v ↦ v = itemOf d' id) (itemOf d' id) := by
  have hleaves := hfrom.leaves hshows hshows' id
  rw [stagedItem, hitem, Option.getD_some] at hleaves
  have hkind : IsConnector item := (hleaves.fields "kind" (by decide)).symm.trans hconnector
  refine (hstorable.attaches hitem hkind).congr (hleaves.fields "from" (by decide))
    (hleaves.fields "to" (by decide)) ?_
  rintro other ⟨v, rfl, hreaches⟩
  exact ⟨_, rfl, hfrom.reaches hshows hshows' hreaches⟩

omit hshows hshows' in
/-- An item that was written passes when its history fits. -/
theorem Storable.passes_iff {item : Json} (hitem : mutation.items.lookup id = some item) :
    (item ≠ .null → Passes dumpSize item) ↔
      KeepsHistory (itemOf d id) (historyOf operations id) := by
  obtain ⟨start, hstart, hedits⟩ := hfrom.edited id item hitem
  rw [KeepsHistory, seenItem_eq hstart]
  rcases hstorable.valid hitem with rfl | hvalid
  · exact iff_of_true (fun hnull ↦ absurd rfl hnull) hedits.mergeable_null
  · obtain ⟨kind, -, hkind⟩ := field?_kind_of_validate hvalid
    rw [← hedits.mergeable_iff hkind]
    constructor
    · intro hpasses
      obtain ⟨kind', hkind', hchecked⟩ :=
        (hpasses (ne_null_of_isObject (validate_object hvalid))).history
      obtain rfl := Json.str.inj (Option.some.inj (hkind.symm.trans hkind'))
      exact hchecked
    · exact fun hchecked _ ↦ ⟨hvalid, kind, hkind, hchecked⟩

/-- An end that a batch leaves as one. -/
theorem Storable.reaches_left (hend : Reaches [] true (itemOf d id))
    (hleft : leavesEnd (historyOf operations id) = true) : Reaches [] true (itemOf d' id) := by
  have hcan := (hfrom.canEnd_iff hshows hshows' hend.canEnd).mpr hleft
  refine ⟨hcan, ?_, queryCanAccess_admin _⟩
  cases hitem : mutation.items.lookup id with
  | none =>
    rw [itemOf_unstaged hshows hshows' hitem]
    exact hend.kind
  | some item =>
    have hleaves := hfrom.leaves hshows hshows' id
    rw [stagedItem, hitem, Option.getD_some] at hleaves
    have hthere : item ≠ .null := fun hnull ↦ hcan.there (hleaves.there.mpr hnull)
    obtain ⟨kind, -, hkind⟩ := field?_kind_of_validate ((hstorable.valid hitem).resolve_left hthere)
    exact ⟨kind, valueString_of_field? ((hleaves.fields "kind" (by decide)).trans hkind) ""⟩

variable (hdump : Shortens dumpSize)

include hdump

/-- An item that was written can be patched when its history fits. -/
theorem Storable.patches_staged_iff {item : Json} (hitem : mutation.items.lookup id = some item)
    (hthere : item ≠ .null) : Patches dumpSize d' [] true id ↔
      KeepsHistory (itemOf d id) (historyOf operations id) := by
  have hvalid := (hstorable.valid hitem).resolve_left hthere
  have hsize : dumpSize (.obj [(id, item)]) ≤ batchLimit :=
    (hdump.field (Assoc.mem_of_lookup hitem)).trans hstorable.size
  rw [← hstorable.passes_iff hfrom hitem, patches_iff]
  have heditable : Editable dumpSize id (itemOf d' id) ↔ Passes dumpSize item := by
    rw [itemOf_staged hshows' hitem]
    exact editable_stamp hdump (hstorable.validId hitem) hvalid hsize _
  rw [heditable]
  constructor
  · exact fun h _ ↦ h.1
  · intro hpasses
    refine ⟨hpasses hthere, queryCanAccess_admin _, fun hconnector ↦ ?_⟩
    exact (hstorable.attaches_after hshows hshows' hfrom hitem hconnector).elevate

/-- A batch leaves every item as one that can be patched when it spares the ends of the other
connectors and leaves histories that fit, and only then. -/
theorem Storable.patchable_iff (hpatchable : Patchable dumpSize d) :
    Patchable dumpSize d' ↔ SparesEnds d operations ∧
      ∀ id, KeepsHistory (itemOf d id) (historyOf operations id) := by
  have hadmin := Agora.patchable_iff.mp hpatchable
  constructor
  · intro hpatchable'
    refine ⟨?_, fun id ↦ ?_⟩
    · refine (hfrom.attached_iff hshows hshows' (fun hitem hconnector ↦ ?_)
        hpatchable.attached).mp hpatchable'.attached
      obtain ⟨source, target, hjoins, hne, -, -, ⟨v, rfl, hv⟩, w, rfl, hw⟩ :=
        hstorable.attaches hitem hconnector
      exact ⟨source, target, hjoins, hne, hv.canEnd, hw.canEnd⟩
    · cases hitem : mutation.items.lookup id with
      | none =>
        rw [hfrom.untouched id hitem]
        exact hpatchable.keepsHistory_nil
      | some item =>
        by_cases hthere : item = .null
        · exact (hstorable.passes_iff hfrom hitem).mp fun hne ↦ absurd hthere hne
        · have hleaves := hfrom.leaves hshows hshows' id
          rw [stagedItem, hitem, Option.getD_some] at hleaves
          obtain ⟨kind, hmem, hkind⟩ := known_of_validate
            ((hstorable.valid hitem).resolve_left hthere)
          exact (hstorable.patches_staged_iff hshows hshows' hfrom hdump hitem hthere).mp
            (Agora.patchable_iff.mp hpatchable' id
              ⟨kind, hmem, (hleaves.fields "kind" (by decide)).trans hkind⟩)
  · rintro ⟨hspares, hkeeps⟩
    refine Agora.patchable_iff.mpr fun id hknown ↦ ?_
    cases hitem : mutation.items.lookup id with
    | some item =>
      refine (hstorable.patches_staged_iff hshows hshows' hfrom hdump hitem ?_).mpr (hkeeps id)
      rintro rfl
      rw [itemOf_staged hshows' hitem] at hknown
      obtain ⟨kind, -, hkind⟩ := hknown
      contradiction
    | none =>
      -- the item is as it was, and so are its ends
      have hsame := itemOf_unstaged hshows hshows' hitem
      rw [hsame] at hknown
      obtain ⟨heditable, haccess, hattaches⟩ := patches_iff.mp (hadmin id hknown)
      rw [patches_iff, hsame]
      refine ⟨heditable, haccess, fun hconnector ↦ ?_⟩
      obtain ⟨source, target, hjoins, hne, hsource, htarget, ⟨v, rfl, hv⟩, w, rfl, hw⟩ :=
        hattaches hconnector
      obtain ⟨hleft, hleft'⟩ :=
        hspares id (hfrom.untouched id hitem) hconnector source target hjoins
      exact ⟨source, target, hjoins, hne, hsource, htarget,
        ⟨_, rfl, hstorable.reaches_left hshows hshows' hfrom hv hleft⟩,
        _, rfl, hstorable.reaches_left hshows hshows' hfrom hw hleft'⟩

omit hdump hstorable hshows hshows'

/-- What a batch stages, by the points that were given. -/
theorem StagedFrom.drawn {item : Json} (hpatchable : Patchable dumpSize d) (hrange : ItemsInRange d)
    (hoperations : ∀ operation ∈ operations, inRange operation)
    (hitem : mutation.items.lookup id = some item) :
    Edits dumpSize groups admin (historyOf operations id) (seenItem (itemOf d id)) item ∧
      Drawn (drawnOf (seenItem (itemOf d id)) (historyOf operations id)) item := by
  obtain ⟨start, hstart, hedits⟩ := hfrom.edited id item hitem
  rw [seenItem_eq hstart]
  refine ⟨hedits, hedits.drawn (inRange_historyOf hoperations id) (visibleItem_itemlike hstart) ?_⟩
  have hseen := seenItem_eq hstart ▸ inRange_seenItem (hrange id)
  refine @drawn_start dumpSize _ hseen fun hstroke ↦ ?_
  have hthere : start.isNull = false := isNull_of_ne fun hnull ↦ by
    rw [hnull] at hstroke
    nomatch hstroke
  have hknown : Known (itemOf d id) := ⟨"stroke", by decide,
    (visibleItem_fields hstart hthere (by decide) (by decide)).symm.trans hstroke⟩
  obtain ⟨⟨-, -, start', hstart', hpasses, -⟩, -⟩ :=
    patches_iff.mp (Agora.patchable_iff.mp hpatchable id hknown)
  obtain rfl := Except.ok.inj (hstart.symm.trans hstart')
  exact hpasses.valid

include hshows' hstorable

/-- The items that a batch leaves are in range when they can be patched as they are stored. -/
theorem Storable.inRange_of_patchable {item : Json} (hpatchable : Patchable dumpSize d)
    (hrange : ItemsInRange d) (hoperations : ∀ operation ∈ operations, inRange operation)
    (hpatchable' : Patchable dumpSize (written d')) (hitem : mutation.items.lookup id = some item) :
    inRange item := by
  rcases hstorable.valid hitem with rfl | hvalid
  · rfl
  obtain ⟨kind, hmem, hkind⟩ := known_of_validate hvalid
  have hfields {k : String} (hk : k ≠ "__broker_revision") :
      field? (itemOf (written d') id) k = (field? item k).map written := by
    rw [itemOf_written, field?_written, itemOf_staged hshows' hitem,
      (stamp_kind (Or.inr (validate_object hvalid)) _ k hk).1]
  have hknown : Known (itemOf (written d') id) :=
    ⟨kind, hmem, by rw [hfields (by decide), hkind]; rfl⟩
  obtain ⟨⟨-, -, start, hstart, hpasses, -⟩, -⟩ :=
    patches_iff.mp (Agora.patchable_iff.mp hpatchable' id hknown)
  have hthere := isNull_of_ne (ne_null_of_isObject (validate_object hpasses.valid))
  refine (hfrom.drawn hpatchable hrange hoperations hitem).2.inRange_of_stored hpasses.valid ?_
  intro k hk
  have hne : k ≠ "__broker_revision" ∧ k ≠ "__host_version" := by
    rcases List.mem_pair.mp hk with rfl | rfl <;> decide
  rw [visibleItem_fields hstart hthere hne.1 hne.2, hfields hne.1]

include hshows

omit hfrom hstorable in
theorem ItemsInRange.staged (hrange : ItemsInRange d)
    (h : ∀ id item, mutation.items.lookup id = some item → inRange item) : ItemsInRange d' := by
  intro id
  cases hitem : mutation.items.lookup id with
  | some item =>
    rw [itemOf_staged hshows' hitem]
    exact inRange_stamp (h id item hitem) _
  | none =>
    rw [itemOf_unstaged hshows hshows' hitem]
    exact hrange id

include hdump

/-- A batch leaves every item as one that can be patched as it is stored when it also moves no
stroke out of range, and only then. -/
theorem Storable.written_patchable_iff (hpatchable : Patchable dumpSize d) (hrange : ItemsInRange d)
    (hoperations : ∀ operation ∈ operations, inRange operation) :
    Patchable dumpSize (written d') ↔ SparesEnds d operations ∧
      ∀ id, KeepsHistory (itemOf d id) (historyOf operations id) ∧
        KeepsRange (itemOf d id) (historyOf operations id) := by
  have hkeeps {id : String} {item : Json} (hitem : mutation.items.lookup id = some item) :
      inRange item ↔ KeepsRange (itemOf d id) (historyOf operations id) := by
    obtain ⟨hedits, hdrawn⟩ := hfrom.drawn hpatchable hrange hoperations hitem
    exact hedits.keepsRange_iff hdrawn
  have hiff (hitems : ∀ id item, mutation.items.lookup id = some item → inRange item) :
      Patchable dumpSize (written d') ↔ SparesEnds d operations ∧
        ∀ id, KeepsHistory (itemOf d id) (historyOf operations id) := by
    rw [patchable_congr (hrange.staged hshows hshows' hitems).itemOf_written]
    exact hstorable.patchable_iff hshows hshows' hfrom hdump hpatchable
  constructor
  · intro hpatchable'
    have hitems : ∀ id item, mutation.items.lookup id = some item → inRange item :=
      fun id item ↦ hstorable.inRange_of_patchable hshows' hfrom hpatchable hrange hoperations
        hpatchable'
    obtain ⟨hspares, hhistory⟩ := (hiff hitems).mp hpatchable'
    refine ⟨hspares, fun id ↦ ⟨hhistory id, ?_⟩⟩
    cases hitem : mutation.items.lookup id with
    | some item => exact (hkeeps hitem).mp (hitems id item hitem)
    | none =>
      rw [hfrom.untouched id hitem]
      exact fun _ _ _ ↦ rfl
  · rintro ⟨hspares, hkept⟩
    refine (hiff fun id item hitem ↦ (hkeeps hitem).mpr (hkept id).2).mpr
      ⟨hspares, fun id ↦ (hkept id).1⟩

omit hdump

/-- Whoever wrote an item may patch it. -/
theorem Storable.mayPatch {item : Json} (hitem : mutation.items.lookup id = some item)
    (hknown : Known (itemOf d' id)) : MayPatch d' groups admin id := by
  have hleaves := hfrom.leaves hshows hshows' id
  rw [stagedItem, hitem, Option.getD_some] at hleaves
  refine ⟨?_, fun hconnector source target hjoins ↦ ?_⟩
  · obtain ⟨start, hstart, hedits⟩ := hfrom.edited id item hitem
    rw [queryCanAccess_congr (hleaves.fields "permission" (by decide))]
    refine (hedits.access (visibleItem_access hstart (hfrom.access id item hitem))).resolve_left ?_
    rintro rfl
    obtain ⟨kind, -, hkind⟩ := hknown
    rw [hleaves.fields "kind" (by decide)] at hkind
    contradiction
  · obtain ⟨source', target', hjoins', -, -, -, ⟨v, rfl, hv⟩, w, rfl, hw⟩ :=
      hstorable.attaches_after hshows hshows' hfrom hitem hconnector
    obtain ⟨rfl, rfl⟩ := connectors.unique hjoins hjoins'
    exact ⟨hv.access, hw.access⟩

end Applied

/-! ## Runs -/

section Storage

variable {base : Backend Storage} {readNumber : String → Option ℚ} {visit : Visit}

/-- An accepted batch that leaves every item as one that can be patched: it repeats the last one, or
spares the ends of the connectors it says nothing about, leaves histories that fit and moves no
stroke out of range. -/
def KeepsPatchable (a : Admitted) (d : Json) : Prop :=
  RepeatsLast a d ∨ SparesEnds d (requested a) ∧
    ∀ id, KeepsHistory (itemOf d id) (historyOf (requested a) id) ∧
      KeepsRange (itemOf d id) (historyOf (requested a) id)

/-- A request that was parsed. -/
def Admitted.InRange (a : Admitted) : Prop := ∀ operation ∈ requested a, inRange operation

/-- One accepted batch. -/
theorem patchable_step (hdump : Shortens base.dumpSize) {a : Admitted} {s s' : Storage}
    {answer : Json} {b : Board} (hshows : Shows s.document b) (hsane : b.Sane)
    (htype : a.type = "canvas_ops") (hrequest : a.InRange)
    (h : canvasQuery (storageBackend base readNumber visit) a s = (.ok answer, s'))
    (hrange : ItemsInRange s.document) (hpatchable : Patchable base.dumpSize s.document) :
    (Patchable base.dumpSize (written s'.document) ↔ KeepsPatchable a s.document) ∧
      (KeepsPatchable a s.document → ItemsInRange s'.document) ∧
      (KeepsPatchable a s.document → ¬RepeatsLast a s.document →
        ∀ id, historyOf (requested a) id ≠ [] → Known (itemOf (written s'.document) id) →
          Patches base.dumpSize (written s'.document) a.groups a.admin id) := by
  have hne : a.type ≠ "canvas_sync" := by
    rw [htype]
    decide
  obtain ⟨operations, b', hoperations, hperformed, hshows', -⟩ :=
    canvasQuery_performed hshows hsane hne h
  rw [Admitted.InRange] at hrequest
  rw [KeepsPatchable]
  rw [requested_eq hoperations] at hrequest ⊢
  cases hperformed with
  -- a repeated request writes no item
  | duplicate repeats created =>
    have hsame : itemOf s'.document = itemOf s.document := by
      funext id
      rw [itemOf, itemOf, hshows'.items, hshows.items]
    have hrange' : ItemsInRange s'.document := fun id ↦ hsame ▸ hrange id
    refine ⟨iff_of_true ?_ (Or.inl repeats), fun _ ↦ hrange', fun _ hfresh ↦ absurd repeats hfresh⟩
    exact (patchable_congr (hrange'.itemOf_written.trans hsame)).mpr hpatchable
  | applied fresh request mutation t t' document prepared =>
    have hfrom := (prepareNew_staged prepared).1
    rw [document] at hfrom
    have hdrawn {id : String} {item : Json} (hitem : mutation.items.lookup id = some item) :=
      hfrom.drawn hpatchable hrange hrequest hitem
    have hstorable := prepareNew_storable prepared fun id item hitem ↦ (hdrawn hitem).2.not_damaged
    rw [document] at hstorable
    have hiff :=
      hstorable.written_patchable_iff hshows hshows' hfrom hdump hpatchable hrange hrequest
    rw [hiff, or_iff_right fresh]
    -- edits that keep the range leave every item within it
    have hitems (hkeeps : ∀ id,
        KeepsHistory (itemOf s.document id) (historyOf operations.elements id) ∧
          KeepsRange (itemOf s.document id) (historyOf operations.elements id)) :
        ItemsInRange s'.document := by
      refine hrange.staged hshows hshows' fun id item hitem ↦ ?_
      obtain ⟨hedits, hitemDrawn⟩ := hdrawn hitem
      exact (hedits.keepsRange_iff hitemDrawn).mpr (hkeeps id).2
    refine ⟨Iff.rfl, fun hkeeps ↦ hitems hkeeps.2, fun hkeeps _ id hwritten hknown ↦ ?_⟩
    obtain ⟨item, hitem⟩ := Option.ne_none_iff_exists'.mp
      fun hnone ↦ hwritten (hfrom.untouched id hnone)
    refine hiff.mpr hkeeps id hknown a.groups a.admin ?_
    rw [mayPatch_congr (hitems hkeeps.2).itemOf_written]
    rw [(hitems hkeeps.2).itemOf_written] at hknown
    exact hstorable.mayPatch hshows hshows' hfrom hitem hknown

/-- A run of accepted batches that leave every item as one that can be patched. -/
inductive Careful (base : Backend Storage) (readNumber : String → Option ℚ) (d : Json) :
    List Answered → Json → Prop
  | nil : Careful base readNumber d [] d
  | snoc {past : List Answered} {d' : Json} (h : Careful base readNumber d past d') (a : Admitted)
      (type : a.type = "canvas_ops") (inRange : a.InRange) (keeps : KeepsPatchable a d')
      (visit : Visit) (faults : List Fault) (answer : Json) (s : Storage)
      (run : canvasQuery (storageBackend base readNumber visit) a ⟨d', faults⟩ = (.ok answer, s)) :
      Careful base readNumber d (past ++ [⟨a, answer⟩]) s.document

theorem Careful.commits {d d' : Json} {past : List Answered}
    (h : Careful base readNumber d past d') : Commits base readNumber d past d' := by
  induction h with
  | nil => exact .nil
  | snoc _ a type _ keeps visit faults answer s run ih =>
    exact ih.snoc a type visit faults answer s run

/-- Every run: the items are stored as they are, and can be patched. -/
theorem Careful.patchable (hdump : Shortens base.dumpSize) {d d' : Json} {b : Board}
    (hshows : Shows d b) (hsane : b.Sane) (hrange : ItemsInRange d)
    (hpatchable : Patchable base.dumpSize d) {past : List Answered}
    (h : Careful base readNumber d past d') :
    ItemsInRange d' ∧ Patchable base.dumpSize d' := by
  induction h with
  | nil => exact ⟨hrange, hpatchable⟩
  | snoc h a type hrequest keeps visit faults answer s run ih =>
    obtain ⟨hrange', hpatchable'⟩ := ih
    obtain ⟨b', hshows', hsane'⟩ := h.commits.shows hshows hsane
    obtain ⟨hiff, hitems, -⟩ :=
      patchable_step hdump hshows' hsane' type hrequest run hrange' hpatchable'
    exact ⟨hitems keeps, (patchable_congr (hitems keeps).itemOf_written).mp (hiff.mpr keeps)⟩

/-- **Items stay patchable**: what a batch stages passes again when its histories fit, and no item
is left that cannot be patched by runs of batches that also spare the ends of connectors and move no
stroke out of range. -/
theorem items_stay_patchable (base : Backend Storage) (readNumber : String → Option ℚ) :
    (∀ {σ : Type} (dumpSize : Json → ℕ) (read : String → Query σ (Option Json))
      (groups : List String) (admin : Bool) (operations : Json) (s s' : σ) (mutation : Mutation),
      prepare dumpSize read groups admin operations s = (.ok mutation, s') →
      ((∀ id item, mutation.items.lookup id = some item → item ≠ .null →
        validate dumpSize item = .ok () ∧ queryUpdatedItem item item groups admin = .ok item) ↔
      ∀ id old, mutation.previous.lookup id = some old →
        KeepsHistory old (historyOf operations.elements id))) ∧
    ∀ {d d' : Json} {b : Board} {past : List Answered}, Shortens base.dumpSize → Shows d b →
      b.Sane → ItemsInRange d → Patchable base.dumpSize d → Careful base readNumber d past d' →
      ItemsInRange d' ∧ Patchable base.dumpSize d' ∧
        ∀ (a : Admitted) (visit : Visit) (faults : List Fault) (answer : Json) (s : Storage),
          a.type = "canvas_ops" → a.InRange →
          canvasQuery (storageBackend base readNumber visit) a ⟨d', faults⟩ = (.ok answer, s) →
          (Patchable base.dumpSize (written s.document) ↔ KeepsPatchable a d') ∧
            (KeepsPatchable a d' → ¬RepeatsLast a d' → ∀ id, historyOf (requested a) id ≠ [] →
              Known (itemOf (written s.document) id) →
              Patches base.dumpSize (written s.document) a.groups a.admin id) := by
  refine ⟨fun dumpSize read groups admin operations s s' mutation h ↦ staged_pass_iff h, ?_⟩
  intro d d' b past hdump hshows hsane hrange hpatchable h
  obtain ⟨hrange', hpatchable'⟩ := h.patchable hdump hshows hsane hrange hpatchable
  obtain ⟨b', hshows', hsane'⟩ := h.commits.shows hshows hsane
  refine ⟨hrange', hpatchable', fun a visit faults answer s htype hrequest hrun ↦ ?_⟩
  obtain ⟨hiff, -, hpatches⟩ :=
    patchable_step hdump hshows' hsane' htype hrequest hrun hrange' hpatchable'
  exact ⟨hiff, hpatches⟩

end Storage

/-- Calls that answer nothing, and dumps of their length. -/
def measuringBackend : Backend Storage :=
  { silentBackend with dumpSize := dumpLength fun _ ↦ 1 }

def strokeItem : Json :=
  .obj [("kind", .str "stroke"), ("permission", .str "staff"), ("points", .arr
    [.obj [("x", .int 1), ("y", .int 2)], .obj [("x", .float (5 / 2)), ("y", .int (-4))]])]

/-- A canvas with a note and a stroke. -/
def drawing : Json := .obj [("items", .obj [("note-1", noteItem), ("stroke-1", strokeItem)])]

def noteOperation : Json :=
  .obj [("action", .str "patch"), ("id", .str "note-1"), ("patch", .obj [("automerge_changes",
    .arr [noteChange "second", noteChange "first"])])]

def strokeOperation : Json :=
  .obj [("action", .str "translate"), ("ids", .arr [.str "stroke-1"]), ("dx", .int 10),
    ("dy", .float (1 / 2))]

/-- A user who changes the note and moves the stroke. -/
def redraw : Admitted :=
  { sender with event := .obj [("client_id", .str "tab"), ("request_count", .int 1),
      ("operations", .arr [noteOperation, strokeOperation])] }

def redrawAnswer : Json := answerTo redraw drawing

def redrawn : Json := documentAfter redraw drawing

theorem drawing_shows : Shows drawing ⟨0, fun _ ↦ none, fun id ↦
    [("note-1", noteItem), ("stroke-1", strokeItem)].lookup id⟩ := by
  refine ⟨⟨_, rfl⟩, fun id ↦ ?_, Or.inl ⟨rfl, rfl, fun _ ↦ rfl⟩⟩
  change (Json.obj [("note-1", noteItem), ("stroke-1", strokeItem)]).find [.key id] = _
  simp [Json.find, Json.child]

theorem itemOf_drawing (id : String) : itemOf drawing id =
    if id = "note-1" then noteItem else if id = "stroke-1" then strokeItem else .null := by
  rw [itemOf, drawing_shows.items]
  dsimp only
  split
  · next hid => rw [hid, List.lookup_cons_self, Option.getD_some]
  · next hid =>
    rw [Assoc.lookup_cons_of_ne (Ne.symm hid)]
    split
    · next hid => rw [hid, List.lookup_cons_self, Option.getD_some]
    · next hid =>
      rw [Assoc.lookup_cons_of_ne (Ne.symm hid)]
      rfl

theorem drawing_inRange : ItemsInRange drawing := by
  intro id
  rw [itemOf_drawing]
  split
  · rfl
  · split
    · with_unfolding_all rfl
    · rfl

theorem drawing_patchable : Patchable measuringBackend.dumpSize drawing := by
  refine patchable_iff.mpr fun id hknown ↦ ?_
  rw [itemOf_drawing] at hknown
  split at hknown
  · next hid =>
    subst hid
    exact ⟨_, by with_unfolding_all rfl⟩
  · split at hknown
    · next hid =>
      subst hid
      exact ⟨_, by with_unfolding_all rfl⟩
    · obtain ⟨kind, -, hkind⟩ := hknown
      nomatch hkind

theorem noteItem_keepsHistory {operation : Json} {merged : List Json}
    (hmerged : firstChanges (changesIn noteItem ++ changesIn (patchFields operation)) = merged)
    (hlength : merged.length ≤ 100000) (hvalid : ∀ change ∈ merged,
      validChange "note" change = .ok true) : KeepsHistory noteItem [.patch operation] := by
  intro kind hkind _
  obtain rfl : "note" = kind := Json.str.inj (Option.some.inj hkind)
  have hsupplied : firstChanges (changesIn noteItem ++ suppliedChanges [.patch operation])
      = merged := by
    rw [← hmerged]
    simp [suppliedChanges]
  change if true = true then (∀ v, field? noteItem "automerge_snapshot" = some v → v.isString) ∧
    (firstChanges (changesIn noteItem ++ suppliedChanges [.patch operation])).length ≤ 100000 ∧
    ∀ change ∈ firstChanges (changesIn noteItem ++ suppliedChanges [.patch operation]),
      validChange "note" change = .ok true else _
  rw [if_pos rfl, hsupplied]
  refine ⟨fun v hv ↦ ?_, hlength, hvalid⟩
  obtain rfl : .str "base" = v := Option.some.inj hv
  rfl

theorem historyOf_redraw (id : String) : historyOf (requested redraw) id =
    if id = "note-1" then [.patch noteOperation]
    else if id = "stroke-1" then [.move 10 (1 / 2)] else [] := by
  have hten : toDouble ((10 : ℤ) : ℚ) = 10 := by with_unfolding_all rfl
  change (if some (Json.str "note-1") = some (.str id) then [Change.patch noteOperation] else [])
    ++ ((if decide (Json.str id ∈ [Json.str "stroke-1"]) = true then
      [Change.move (toDouble ((10 : ℤ) : ℚ)) (1 / 2)] else []) ++ []) = _
  simp only [hten, List.append_nil, Option.some.injEq, Json.str.injEq, List.mem_singleton,
    decide_eq_true_eq]
  by_cases hnote : id = "note-1"
  · subst hnote
    rfl
  · rw [if_neg (Ne.symm hnote), if_neg hnote, List.nil_append]

theorem redraw_keepsPatchable : KeepsPatchable redraw drawing := by
  refine Or.inr ⟨fun id _ hconnector ↦ ?_, fun id ↦ ?_⟩
  · rw [itemOf_drawing] at hconnector
    split at hconnector
    · exact absurd hconnector (by decide)
    · split at hconnector
      · exact absurd hconnector (by decide)
      · nomatch hconnector
  · rw [itemOf_drawing, historyOf_redraw]
    split
    · refine ⟨@noteItem_keepsHistory _ [noteChange "first", noteChange "second"]
        (by with_unfolding_all rfl) (by decide) fun change hchange ↦ ?_, fun hstroke ↦ ?_⟩
      · rcases List.mem_pair.mp hchange with rfl | rfl <;> with_unfolding_all rfl
      · obtain hsame : "note" = "stroke" := Json.str.inj (Option.some.inj hstroke)
        exact absurd hsame (by decide)
    · split
      · refine ⟨fun kind hkind hkeeps ↦ ?_, fun _ point hpoint ↦ ?_⟩
        · obtain rfl : "stroke" = kind := Json.str.inj (Option.some.inj hkind)
          exact absurd hkeeps (by decide)
        · rcases List.mem_pair.mp hpoint with rfl | rfl <;> with_unfolding_all rfl
      · exact ⟨fun kind hkind ↦ (nomatch hkind), fun hstroke ↦ (nomatch hstroke)⟩

theorem redraw_run : canvasQuery (storageBackend measuringBackend (fun _ ↦ none) asVisited) redraw
    ⟨drawing, []⟩ = (.ok redrawAnswer, (canvasQuery plainBackend redraw ⟨drawing, []⟩).2) := by
  with_unfolding_all rfl

theorem redraw_inRange : redraw.InRange := by
  intro operation hoperation
  rcases List.mem_pair.mp hoperation with rfl | rfl <;> with_unfolding_all rfl

theorem redraw_fresh : ¬RepeatsLast redraw drawing := by
  rintro ⟨client, user, count, hclient, huser, hcount, haccepted⟩
  obtain rfl : "tab" = client := Except.ok.inj hclient
  obtain rfl : 5 = user := Except.ok.inj huser
  obtain rfl : 1 = count := Except.ok.inj hcount
  have hnone : acceptedCount (storedReceipt drawing (clientKey 5 "tab")) = .ok 0 := by
    with_unfolding_all rfl
  rw [hnone] at haccepted
  nomatch haccepted

theorem redraw_careful : Careful measuringBackend (fun _ ↦ none) drawing
    [⟨redraw, redrawAnswer⟩] redrawn :=
  .snoc .nil redraw rfl redraw_inRange redraw_keepsPatchable asVisited [] redrawAnswer _ redraw_run

theorem redrawn_stays_patchable :
    (∀ id item, (identityMutation drawing "note-1" 0 noteItem).items.lookup id = some item →
      item ≠ .null → validate (dumpLength fun _ ↦ 1) item = .ok () ∧
        queryUpdatedItem item item ["staff"] false = .ok item) ∧
    (ItemsInRange redrawn ∧ Patchable measuringBackend.dumpSize redrawn) ∧
    Patches measuringBackend.dumpSize (written redrawn) ["staff"] false "stroke-1" := by
  refine ⟨?_, ?_, ?_⟩
  · refine ((items_stay_patchable measuringBackend fun _ ↦ none).1 (dumpLength fun _ ↦ 1)
      (readFrom drawing) ["staff"] false (.arr [identityOperation "note-1"]) () () _
        (by with_unfolding_all rfl)).mpr ?_
    intro id old hold
    by_cases hid : id = "note-1"
    · subst hid
      obtain rfl : noteItem = old := Option.some.inj hold
      refine @noteItem_keepsHistory (identityOperation "note-1") [noteChange "first"]
        (by with_unfolding_all rfl) (by decide) fun change hchange ↦ ?_
      obtain rfl := List.mem_singleton.mp hchange
      with_unfolding_all rfl
    · rw [identityMutation, Assoc.lookup_cons_of_ne (Ne.symm hid)] at hold
      contradiction
  · obtain ⟨hrange, hpatchable, -⟩ := (items_stay_patchable measuringBackend fun _ ↦ none).2
      (dumpLength_shortens _) drawing_shows (fun _ _ h ↦ by cases h) drawing_inRange
      drawing_patchable redraw_careful
    exact ⟨hrange, hpatchable⟩
  · refine (((items_stay_patchable measuringBackend fun _ ↦ none).2 (dumpLength_shortens _)
      drawing_shows (fun _ _ h ↦ by cases h) drawing_inRange drawing_patchable .nil).2.2 redraw
        asVisited [] redrawAnswer _ rfl redraw_inRange redraw_run).2 redraw_keepsPatchable
          redraw_fresh "stroke-1" ?_ ⟨"stroke", by decide, by with_unfolding_all rfl⟩
    rw [historyOf_redraw, if_neg (by decide), if_pos rfl]
    exact List.cons_ne_nil _ _

/-- A note without a history, and a user who moves it. -/
def bareDocument : Json :=
  .obj [("items", .obj [("note-1", .obj [("kind", .str "note"), ("permission", .str "staff")])])]

def moving : Json :=
  .obj [("action", .str "translate"), ("ids", .arr [.str "note-1"]), ("dx", .int 1), ("dy", .int 1)]

def movedNote : Json :=
  .obj [("kind", .str "note"), ("permission", .str "staff"), ("x", .float 1), ("y", .float 1)]

/-- A stroke far out, and a user who moves it further. -/
def farDrawing : Json :=
  .obj [("items", .obj [("stroke-1", .obj [("kind", .str "stroke"), ("permission", .str "staff"),
    ("points", .arr [.obj [("x", .float (1 <<< 1023 : ℕ)),
      ("y", .int 0)]])])])]

def pusher : Admitted :=
  { sender with event := .obj [("client_id", .str "tab"), ("request_count", .int 1),
      ("operations", .arr [.obj [("action", .str "translate"), ("ids", .arr [.str "stroke-1"]),
        ("dx", .float (1 <<< 1023 : ℕ)), ("dy", .int 0)]])] }

set_option maxRecDepth 20000 in
theorem accepted_not_patchable :
    (∃ mutation, (prepare (dumpLength fun _ ↦ 1) (readFrom bareDocument) ["staff"] false
        (.arr [moving]) : Query Unit Mutation) () = (.ok mutation, ()) ∧
      mutation.items.lookup "note-1" = some movedNote ∧
      queryUpdatedItem movedNote movedNote ["staff"] false ≠ .ok movedNote) ∧
    (Patches (dumpLength fun _ ↦ 1) farDrawing ["staff"] false "stroke-1" ∧
      (∃ answer, (canvasQuery plainBackend pusher ⟨farDrawing, []⟩).1 = .ok answer) ∧
      ¬Patches (dumpLength fun _ ↦ 1) (written (documentAfter pusher farDrawing)) ["staff"] false
        "stroke-1") ∧
    Patches (dumpLength fun _ ↦ 1) wiredDocument ["staff"] false "wire" ∧
    (∃ answer, (canvasQuery plainBackend remover ⟨wiredDocument, []⟩).1 = .ok answer) ∧
    ¬Patches (dumpLength fun _ ↦ 1) (documentAfter remover wiredDocument) ["staff"] false
      "wire" := by
  refine ⟨⟨_, by with_unfolding_all rfl, by with_unfolding_all rfl, ?_⟩,
    ⟨⟨_, by with_unfolding_all rfl⟩, ⟨_, by with_unfolding_all rfl⟩, fun ⟨mutation, h⟩ ↦ ?_⟩,
    ⟨_, by with_unfolding_all rfl⟩, ⟨_, by with_unfolding_all rfl⟩, fun ⟨mutation, h⟩ ↦ ?_⟩
  · have hrejected : queryUpdatedItem movedNote movedNote ["staff"] false
        = reject "ITEM_SAVE_INVALID" := by with_unfolding_all rfl
    rw [hrejected]
    nofun
  · have hrejected : (prepare (dumpLength fun _ ↦ 1)
        (fun id ↦ pure ((written (documentAfter pusher farDrawing)).find (itemPath id))) ["staff"]
        false (.arr [identityOperation "stroke-1"]) : Query Unit Mutation) ()
          = (reject "ITEM_STROKE_INVALID", ()) := by with_unfolding_all rfl
    rw [hrejected] at h
    nomatch h
  · have hrejected : (prepare (dumpLength fun _ ↦ 1)
        (fun id ↦ pure ((documentAfter remover wiredDocument).find (itemPath id))) ["staff"] false
        (.arr [identityOperation "wire"]) : Query Unit Mutation) ()
          = (reject "ITEM_CONNECTOR_INVALID", ()) := by with_unfolding_all rfl
    rw [hrejected] at h
    nomatch h

end Agora
