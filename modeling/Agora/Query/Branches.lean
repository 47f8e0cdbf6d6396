import Agora.Query.Accepted

/-!
# Branches of a text

The text of a text, note or code item is kept as a history: a snapshot and the changes since.
Clients that were offline send their changes in patches, and the batches merge them like sets
(`branches_merge`): whatever the patches set and unset, no change that was stored or sent is lost,
none is stored twice, and the order of the batches does not matter.
-/

namespace Agora

open Broker Query

/-! ## Histories -/

/-- An item whose text is kept as a history of changes. -/
def HasHistory (item : Json) : Prop :=
  ∃ kind, field? item "kind" = some (.str kind) ∧ keepsHistory kind

/-- What a change is recognized by. -/
def changeText (change : Json) : Option String :=
  match field? change "change" with
  | some (.str text) => some text
  | _ => none

/-- The changes that are stored with an item. -/
def changeTexts (item : Json) : List String :=
  ((field? item "automerge_changes").getD .null).elements.filterMap changeText

theorem changeTexts_congr {item item' : Json}
    (h : field? item "automerge_changes" = field? item' "automerge_changes") :
    changeTexts item = changeTexts item' := by
  rw [changeTexts, changeTexts, h]

theorem HasHistory.congr {item item' : Json} (h : HasHistory item)
    (hkind : field? item' "kind" = field? item "kind") : HasHistory item' := by
  obtain ⟨kind, hfield, hkeeps⟩ := h
  exact ⟨kind, hkind.trans hfield, hkeeps⟩

/-- What a patch sets. -/
def patchFields (operation : Json) : Json :=
  match (Json.obj []).update ((field? operation "patch").getD (.obj [])) with
  | .ok given => given
  | .error _ => .null

/-- The changes that come with a patch. -/
def suppliedTexts (operation : Json) : List String := changeTexts (patchFields operation)

/-! ### Merging -/

/-- The changes collected so far have these texts, each once. -/
structure Collected (texts : List String) (merged : List Json × List String) : Prop where
  nodup : (merged.1.filterMap changeText).Nodup
  seen : ∀ s, s ∈ merged.2 ↔ s ∈ texts
  texts : ∀ s, s ∈ merged.1.filterMap changeText ↔ s ∈ texts

theorem mergeChange_collected {texts : List String} {merged merged' : List Json × List String}
    {change : Json} (h : Collected texts merged)
    (hmerge : mergeChange merged change = .ok merged') :
    Collected (texts ++ (changeText change).toList) merged' := by
  unfold mergeChange at hmerge
  simp only [Checked.bind_ok, Checked.pure_ok] at hmerge
  obtain ⟨v, hv, text, htext, rfl⟩ := hmerge
  have hchange : changeText change = some text := by
    rw [changeText, field?_of_index hv, getString_ok htext]
  rw [hchange, Option.toList_some]
  split
  · next hseen =>
    have hold : text ∈ texts := (h.seen text).mp (by simpa using hseen)
    have hsame : ∀ s, s ∈ texts ↔ s ∈ texts ++ [text] := by
      intro s
      rw [List.mem_append, List.mem_singleton]
      exact ⟨Or.inl, fun hs ↦ hs.elim id fun heq ↦ heq ▸ hold⟩
    exact ⟨h.nodup, fun s ↦ (h.seen s).trans (hsame s), fun s ↦ (h.texts s).trans (hsame s)⟩
  · next hseen =>
    have hnew : text ∉ merged.1.filterMap changeText := by
      rw [h.texts, ← h.seen]
      simpa using hseen
    refine ⟨?_, fun s ↦ ?_, fun s ↦ ?_⟩
    · rw [List.filterMap_append, List.filterMap_cons_some hchange, List.filterMap_nil,
        List.nodup_append]
      refine ⟨h.nodup, List.nodup_singleton text, ?_⟩
      intro s hs t ht heq
      rw [List.mem_singleton] at ht
      exact hnew (ht ▸ heq ▸ hs)
    · rw [List.mem_cons, List.mem_append, List.mem_singleton, h.seen, or_comm]
    · rw [List.filterMap_append, List.mem_append, List.mem_append, h.texts]
      simp [hchange]

theorem foldlM_collected {texts : List String} {merged merged' : List Json × List String}
    (h : Collected texts merged) (changes : List Json)
    (hmerge : changes.foldlM mergeChange merged = .ok merged') :
    Collected (texts ++ changes.filterMap changeText) merged' := by
  induction changes generalizing texts merged with
  | nil =>
    obtain rfl := Checked.pure_ok.mp hmerge
    simpa using h
  | cons change changes ih =>
    rw [List.foldlM_cons] at hmerge
    obtain ⟨next, hnext, hrest⟩ := Checked.bind_ok.mp hmerge
    have hall := ih (mergeChange_collected h hnext) hrest
    rw [List.append_assoc] at hall
    cases hchange : changeText change <;> simpa [hchange] using hall

/-- What merging leaves: the snapshot and the changes of both sides, each once. -/
theorem mergeHistory_ok {old item merged : Json} (h : mergeHistory old item = .ok merged) :
    (∀ v, field? old "automerge_snapshot" = some v →
      field? merged "automerge_snapshot" = some v) ∧
    (∀ k, k ≠ "automerge_snapshot" → k ≠ "automerge_changes" → field? merged k = field? item k) ∧
    (changeTexts merged).Nodup ∧
    ∀ s, s ∈ changeTexts merged ↔ s ∈ changeTexts old ∨ s ∈ changeTexts item := by
  unfold mergeHistory at h
  simp only [Checked.bind_ok] at h
  obtain ⟨kept, hkept, before, hbefore, after, hafter, m₁, hm₁, m₂, hm₂, h⟩ := h
  have hkeptFields : (∀ v, field? old "automerge_snapshot" = some v →
      field? kept "automerge_snapshot" = some v) ∧
      ∀ k, k ≠ "automerge_snapshot" → field? kept k = field? item k := by
    unfold keepSnapshot at hkept
    split at hkept
    · obtain ⟨snapshot, hsnapshot, hassign⟩ := Checked.bind_ok.mp hkept
      refine ⟨fun v hv ↦ ?_, fun k hk ↦ ?_⟩
      · rw [field?_assign hassign, if_pos rfl, ← hv, field?_of_index hsnapshot]
      · rw [field?_assign hassign, if_neg hk.symm]
    · next hnone =>
      obtain rfl := Checked.pure_ok.mp hkept
      refine ⟨fun v hv ↦ ?_, fun _ _ ↦ rfl⟩
      rw [Json.contains, show old.child (.key "automerge_snapshot") = some v from hv] at hnone
      exact absurd rfl hnone
  have helements : ∀ {j v : Json}, j.valueJson "automerge_changes" (.arr []) = .ok v →
      v.elements.filterMap changeText = changeTexts j := by
    intro j v hv
    rcases field?_of_value hv with ⟨w, hw, hsame⟩ | ⟨hnone, rfl⟩
    · rw [changeTexts, hw, Option.getD_some, Except.ok.inj hsame]
    · rw [changeTexts, hnone]
      rfl
  have hempty : Collected [] ([], []) := ⟨List.nodup_nil, fun s ↦ by simp, fun s ↦ by simp⟩
  have hall := foldlM_collected (foldlM_collected hempty _ hm₁) _ hm₂
  rw [List.nil_append, helements hbefore, helements hafter] at hall
  have hchanges : field? merged "automerge_changes" = some (.arr m₂.1) := by
    rw [field?_assign h, if_pos rfl]
  have htexts : changeTexts merged = m₂.1.filterMap changeText := by
    rw [changeTexts, hchanges]
    rfl
  have hitem : changeTexts kept = changeTexts item :=
    changeTexts_congr (hkeptFields.2 _ (by decide))
  refine ⟨fun v hv ↦ ?_, fun k hk hk' ↦ ?_, htexts ▸ hall.nodup, fun s ↦ ?_⟩
  · rw [field?_assign h, if_neg (by decide), hkeptFields.1 v hv]
  · rw [field?_assign h, if_neg hk'.symm, hkeptFields.2 k hk]
  · rw [htexts, hall.texts, List.mem_append, hitem]

/-! ### Edits -/

theorem unsetFields_ok {item item' : Json} {unset : List Json}
    (h : unsetFields item unset = .ok item') (k : String) :
    field? item' k = field? item k ∨ field? item' k = none := by
  induction unset generalizing item with
  | nil =>
    obtain rfl : item = item' := Except.ok.inj h
    exact Or.inl rfl
  | cons v unset ih =>
    cases v with
    | str key =>
      obtain ⟨_, -, h⟩ := Checked.bind_ok.mp h
      obtain ⟨dropped, hdropped, h⟩ := Checked.bind_ok.mp h
      rcases ih h with hkept | hnone
      · rw [hkept, field?_eraseKey hdropped]
        split
        · exact Or.inr rfl
        · exact Or.inl rfl
      · exact Or.inr hnone
    | _ => exact absurd h Checked.reject_ok

/-- What the fields of a patched item are. -/
theorem patchItem_ok {old operation item : Json} (hold : old.isNull = false)
    (h : patchItem old operation = .ok item) (k : String) :
    field? item k = (field? (patchFields operation) k).or (field? old k) ∨
      field? item k = none := by
  unfold patchItem at h
  simp only [Checked.bind_ok, hold, Bool.false_eq_true, if_false] at h
  obtain ⟨patch, hpatch, unset, -, _, -, updated, hupdated, dropped, hdropped, _, -, _, -, h⟩ := h
  obtain ⟨given, hgiven, hfields⟩ := field?_update hupdated
  have hgivenPatch : patchFields operation = given := by
    rcases field?_of_value hpatch with ⟨v, hv, hsame⟩ | ⟨hnone, rfl⟩
    · obtain rfl := Except.ok.inj hsame
      rw [patchFields, hv, Option.getD_some, hgiven]
    · rw [patchFields, hnone, Option.getD_none, hgiven]
  obtain rfl := Checked.pure_ok.mp h
  rw [hgivenPatch, ← hfields]
  exact unsetFields_ok hdropped k

/-- The changes that come with the patches among some edits. -/
def suppliedBy (changes : List Change) : List String :=
  changes.flatMap fun
    | .patch operation => suppliedTexts operation
    | _ => []

/-- What edits make of an item whose text is a history. -/
structure Merged (changes : List Change) (start item : Json) : Prop where
  kind : field? item "kind" = field? start "kind"
  snapshot : ∀ v, field? start "automerge_snapshot" = some v →
    field? item "automerge_snapshot" = some v
  texts : ∀ s, s ∈ changeTexts item ↔ s ∈ changeTexts start ∨ s ∈ suppliedBy changes
  patched : (∃ operation, .patch operation ∈ changes) → (changeTexts item).Nodup
  nodup : (changeTexts start).Nodup → (changeTexts item).Nodup

/-- An item that keeps the fields of its history. -/
theorem Merged.of_fields {item item' : Json} (hkind : field? item' "kind" = field? item "kind")
    (hsnapshot : field? item' "automerge_snapshot" = field? item "automerge_snapshot")
    (hchanges : field? item' "automerge_changes" = field? item "automerge_changes")
    {changes : List Change} (hnone : ∀ operation, Change.patch operation ∉ changes) :
    Merged changes item item' := by
  have hsame := changeTexts_congr hchanges
  have hsupplied : suppliedBy changes = [] := by
    rw [suppliedBy, List.flatMap_eq_nil_iff]
    intro change hmem
    cases change with
    | patch operation => exact absurd hmem (hnone operation)
    | _ => rfl
  refine ⟨hkind, fun v hv ↦ hsnapshot.trans hv, fun s ↦ ?_, ?_, fun hnodup ↦ hsame ▸ hnodup⟩
  · rw [hsame, hsupplied]
    simp
  · rintro ⟨operation, hmem⟩
    exact absurd hmem (hnone operation)

theorem Merged.trans {changes changes' : List Change} {start item item' : Json}
    (h : Merged changes start item) (h' : Merged changes' item item') :
    Merged (changes ++ changes') start item' := by
  refine ⟨h'.kind.trans h.kind, fun v hv ↦ h'.snapshot v (h.snapshot v hv), fun s ↦ ?_, ?_,
    fun hnodup ↦ h'.nodup (h.nodup hnodup)⟩
  · rw [h'.texts, h.texts, suppliedBy, suppliedBy, suppliedBy, List.flatMap_append,
      List.mem_append, or_assoc]
  · rintro ⟨operation, hmem⟩
    rcases List.mem_append.mp hmem with hmem | hmem
    · exact h'.nodup (h.patched ⟨operation, hmem⟩)
    · exact h'.patched ⟨operation, hmem⟩

variable {dumpSize : Json → ℕ} {groups : List String} {admin : Bool}

theorem patchItem_kind {old operation item : Json} (hold : old.isNull = false)
    (h : patchItem old operation = .ok item) {kind : String}
    (hkind : old.valueString "kind" "" = .ok kind) : item.valueString "kind" "" = .ok kind := by
  unfold patchItem at h
  simp only [Checked.bind_ok, hold, Bool.false_eq_true, if_false] at h
  obtain ⟨_, -, _, -, _, -, _, -, dropped, -, same, hsame, _, hthrow, h⟩ := h
  obtain rfl := Checked.pure_ok.mp h
  simp only [sameKind, hold, Bool.false_eq_true, if_false, Checked.bind_ok, hkind,
    Except.ok.injEq, exists_eq_left', Checked.pure_ok] at hsame
  obtain ⟨kind', hkind', rfl⟩ := hsame
  obtain rfl : kind = kind' := by simpa using Checked.throwIf_ok.mp hthrow
  exact hkind'

/-- An item that is stored has a history that can be merged. -/
theorem queryUpdatedItem_checked {previous input item : Json}
    (h : queryUpdatedItem previous input groups admin = .ok item) {kind : String}
    (hkind : input.valueString "kind" "" = .ok kind) : checkHistory kind input = .ok () := by
  unfold queryUpdatedItem at h
  simp only [Checked.bind_ok, hkind, Except.ok.injEq, exists_eq_left'] at h
  obtain ⟨_, -, _, -, _, -, _, -, _, -, _, -, _, -, _, -, _, -, _, -, _, hchecked, -⟩ := h
  exact hchecked

theorem checkHistory_ok {kind : String} {input : Json} (hkeeps : keepsHistory kind)
    (h : checkHistory kind input = .ok ()) : (field? input "automerge_changes").isSome := by
  unfold checkHistory at h
  rw [if_pos hkeeps] at h
  simp only [Checked.bind_ok, Checked.throwIf_ok] at h
  obtain ⟨_, -, _, -, _, -, _, hcontains, -⟩ := h
  simpa [Json.contains, field?] using hcontains

theorem storedItem_merged {old operation item : Json} (hold : old.isNull = false)
    (hhistory : HasHistory old) (h : storedItem dumpSize groups admin old operation = .ok item) :
    Merged [.patch operation] old item := by
  obtain ⟨kind, hkind, hkeeps⟩ := hhistory
  have hempty : "" ≠ kind := by
    rintro rfl
    exact absurd hkeeps (by decide)
  unfold storedItem at h
  simp only [Checked.bind_ok] at h
  obtain ⟨patched, hpatched, _, -, updated, hupdated, kind', hkind', h⟩ := h
  have hkindPatched := patchItem_kind hold hpatched (valueString_of_field? hkind "")
  have hchecked := queryUpdatedItem_checked hupdated hkindPatched
  obtain rfl := queryUpdatedItem_eq hupdated
  obtain rfl : kind = kind' := Except.ok.inj (hkindPatched.symm.trans hkind')
  rw [hold, hkeeps, if_pos (by rfl)] at h
  obtain ⟨hsnapshot, hfields, hnodup, htexts⟩ := mergeHistory_ok h
  -- the list of changes was not unset, so it is what the patch sets, or what was there
  have hpatchedTexts : ∀ s, s ∈ changeTexts old ∨ s ∈ changeTexts updated
      ↔ s ∈ changeTexts old ∨ s ∈ suppliedTexts operation := by
    intro s
    have hsome := checkHistory_ok hkeeps hchecked
    rcases patchItem_ok hold hpatched "automerge_changes" with hfield | hnone
    · cases hgiven : field? (patchFields operation) "automerge_changes" with
      | none =>
        rw [hgiven, Option.none_or] at hfield
        rw [changeTexts_congr hfield, suppliedTexts, changeTexts, changeTexts, hgiven]
        simp [Json.elements]
      | some v =>
        rw [hgiven, Option.some_or, ← hgiven] at hfield
        rw [changeTexts_congr hfield, suppliedTexts]
    · rw [hnone] at hsome
      nomatch hsome
  refine ⟨?_, hsnapshot, fun s ↦ ?_, fun _ ↦ hnodup, fun _ ↦ hnodup⟩
  · rw [hfields _ (by decide) (by decide), field?_of_valueString hkindPatched hempty, hkind]
  · rw [htexts, hpatchedTexts, suppliedBy, List.flatMap_singleton]

/-- A translation changes nothing but coordinates. -/
theorem translateItem_fields {dx dy : ℚ} {item item' : Json}
    (h : translateItem dx dy item = .ok item') {k : String} (hpoints : k ≠ "points")
    (hx : k ≠ "x") (hy : k ≠ "y") : field? item' k = field? item k := by
  unfold translateItem at h
  obtain ⟨stroke, -, h⟩ := Checked.bind_ok.mp h
  split at h
  · obtain ⟨points, -, h⟩ := Checked.bind_ok.mp h
    rw [field?_assign h, if_neg hpoints.symm]
  · simp only [Checked.bind_ok] at h
    obtain ⟨x, -, moved, hmoved, y, -, h⟩ := h
    rw [field?_assign h, if_neg hy.symm, field?_assign hmoved, if_neg hx.symm]

theorem HasHistory.ne_null {item : Json} (h : HasHistory item) : item.isNull = false := by
  obtain ⟨kind, hkind, -⟩ := h
  cases item with
  | null => nomatch hkind
  | _ => rfl

theorem Broker.Edit.merged {change : Change} {item item' : Json}
    (h : Edit dumpSize groups admin change item item') (hhistory : HasHistory item)
    (hkept : change ≠ .delete) : Merged [change] item item' := by
  cases h with
  | move there connector room moved valid =>
    have hfields := @translateItem_fields _ _ _ _ moved
    exact .of_fields (hfields (by decide) (by decide) (by decide))
      (hfields (by decide) (by decide) (by decide)) (hfields (by decide) (by decide) (by decide))
      (by simp)
  | delete => exact absurd rfl hkept
  | create stored => exact absurd hhistory.ne_null (by decide)
  | patch there stored => exact storedItem_merged there hhistory stored

theorem Broker.Edits.merged {changes : List Change} {item item' : Json}
    (h : Edits dumpSize groups admin changes item item') (hhistory : HasHistory item)
    (hkept : .delete ∉ changes) : Merged changes item item' := by
  induction h with
  | nil => exact .of_fields rfl rfl rfl (by simp)
  | snoc _ hedit ih =>
    rw [List.mem_append, List.mem_singleton, not_or] at hkept
    have hbefore := ih hhistory hkept.1
    exact hbefore.trans (hedit.merged (hhistory.congr hbefore.kind) (Ne.symm hkept.2))

/-! ## Batches -/

/-- What an operation sees of an item whose text is a history. -/
theorem visibleItem_merged {item start : Json} (hhistory : HasHistory item)
    (h : visibleItem item = .ok start) : Merged [] item start := by
  obtain ⟨kind, hkind, hkeeps⟩ := hhistory
  unfold visibleItem at h
  simp only [Checked.bind_ok] at h
  obtain ⟨tombstone, htombstone, h⟩ := h
  have hnull : item.isNull = false := HasHistory.ne_null ⟨kind, hkind, hkeeps⟩
  have hother : tombstone = false := by
    simp only [hasText, hnull, valueString_of_field? hkind, Bool.false_eq_true, if_false,
      Checked.bind_ok, Checked.pure_ok, Except.ok.injEq, exists_eq_left'] at htombstone
    rw [← htombstone, decide_eq_false_iff_not]
    rintro rfl
    exact absurd hkeeps (by decide)
  rw [hother, hnull, Bool.or_false, if_neg (by decide)] at h
  obtain ⟨dropped, hdropped, h⟩ := Checked.bind_ok.mp h
  have hfields : ∀ k, k ≠ "__host_version" → k ≠ "__broker_revision" →
      field? start k = field? item k := by
    intro k hhost hrevision
    rw [field?_eraseKey h, if_neg hrevision.symm, field?_eraseKey hdropped, if_neg hhost.symm]
  exact .of_fields (hfields _ (by decide) (by decide)) (hfields _ (by decide) (by decide))
    (hfields _ (by decide) (by decide)) (by simp)

/-- Storing an item whose text is a history. -/
theorem stamp_merged {item : Json} (hhistory : HasHistory item) (revision : ℤ) :
    ∃ stored, stamp revision item = some stored ∧ Merged [] item stored := by
  obtain ⟨kind, hkind, -⟩ := hhistory
  cases item with
  | obj fields =>
    refine ⟨_, rfl, .of_fields ?_ ?_ ?_ (by simp)⟩
    all_goals
      rw [field?_obj, field?_obj]
      exact Assoc.lookup_set_of_ne (by decide) _ _
  | _ => nomatch hkind

/-- An item is patched by an operation. -/
def patches (id : String) (operation : Json) : Prop :=
  field? operation "action" = some (.str "patch") ∧ field? operation "id" = some (.str id)

/-- An item is deleted by an operation. -/
def deletes (id : String) (operation : Json) : Prop :=
  field? operation "action" = some (.str "delete") ∧ field? operation "id" = some (.str id)

instance (id : String) (operation : Json) : Decidable (patches id operation) :=
  inferInstanceAs (Decidable (_ ∧ _))

instance (id : String) (operation : Json) : Decidable (deletes id operation) :=
  inferInstanceAs (Decidable (_ ∧ _))

theorem patch_mem_changesOf {id : String} {operation operation' : Json} :
    Change.patch operation ∈ changesOf id operation' ↔
      operation = operation' ∧ patches id operation' := by
  unfold changesOf patches
  split <;> (try split) <;> simp_all

theorem delete_mem_changesOf {id : String} {operation : Json} :
    Change.delete ∈ changesOf id operation ↔ deletes id operation := by
  unfold changesOf deletes
  split <;> (try split) <;> simp_all

theorem patch_mem_historyOf {id : String} {operations : List Json} {operation : Json} :
    Change.patch operation ∈ historyOf operations id ↔
      operation ∈ operations ∧ patches id operation := by
  rw [historyOf, List.mem_flatMap]
  constructor
  · rintro ⟨operation', hmem, hpatch⟩
    obtain ⟨rfl, hpatches⟩ := patch_mem_changesOf.mp hpatch
    exact ⟨hmem, hpatches⟩
  · rintro ⟨hmem, hpatches⟩
    exact ⟨operation, hmem, patch_mem_changesOf.mpr ⟨rfl, hpatches⟩⟩

theorem delete_mem_historyOf {id : String} {operations : List Json} :
    Change.delete ∈ historyOf operations id ↔ ∃ operation ∈ operations, deletes id operation := by
  rw [historyOf, List.mem_flatMap]
  exact exists_congr fun operation ↦ and_congr_right fun _ ↦ delete_mem_changesOf

theorem mem_suppliedBy {changes : List Change} {s : String} :
    s ∈ suppliedBy changes ↔ ∃ operation, .patch operation ∈ changes ∧
      s ∈ suppliedTexts operation := by
  rw [suppliedBy, List.mem_flatMap]
  constructor
  · rintro ⟨change, hmem, hs⟩
    cases change with
    | patch operation => exact ⟨operation, hmem, hs⟩
    | _ => simp at hs
  · rintro ⟨operation, hmem, hs⟩
    exact ⟨_, hmem, hs⟩

/-- The operations of a run that were applied, batch by batch. -/
def batches (past : List Answered) : List (List Json) := past.map Answered.operations

/-- What an accepted batch makes of an item whose text is a history. -/
theorem Accepted.merged {dumpSize : Json → ℕ} {a : Admitted} {d d' : Json} {b b' : Board}
    {answer : Json} (h : Accepted dumpSize a (requested a) d b answer d' b') (hshows : Shows d b)
    {id : String} {item : Json} (hitem : b.items id = some item) (hhistory : HasHistory item)
    (hkept : ∀ operation ∈ Answered.operations ⟨a, answer⟩, ¬deletes id operation) :
    ∃ item', b'.items id = some item' ∧
      Merged (historyOf (Answered.operations ⟨a, answer⟩) id) item item' := by
  cases h with
  | duplicate created response revision flag reply_eq =>
    have hrepeated : Answered.repeated ⟨a, answer⟩ = true :=
      Answered.repeated_envelope reply_eq flag
    refine ⟨item, hitem, ?_⟩
    rw [Answered.operations, if_pos hrepeated]
    exact .of_fields rfl rfl rfl (by simp [historyOf])
  | applied request mutation response broadcast flag staged limit frame told reply_eq =>
    have hrepeated : Answered.repeated ⟨a, answer⟩ = false :=
      Answered.repeated_envelope reply_eq flag
    rw [Answered.operations, hrepeated, if_neg (by decide)] at hkept ⊢
    have hof : itemOf d id = item := by rw [itemOf, hshows.items, hitem, Option.getD_some]
    cases hlookup : mutation.items.lookup id with
    | none =>
      refine ⟨item, ?_, ?_⟩
      · rw [← hitem]
        simp [Board.apply, batchOf, hlookup]
      · rw [staged.untouched id hlookup]
        exact .of_fields rfl rfl rfl (by simp)
    | some v =>
      obtain ⟨start, hstart, hedits⟩ := staged.edited id v hlookup
      rw [hof] at hstart
      have hvisible := visibleItem_merged hhistory hstart
      have hstartHistory := hhistory.congr hvisible.kind
      have hdelete : Change.delete ∉ historyOf (requested a) id := by
        rw [delete_mem_historyOf]
        rintro ⟨operation, hmem, hdeletes⟩
        exact hkept operation hmem hdeletes
      have hedited := hedits.merged hstartHistory hdelete
      obtain ⟨stored, hstored, hstamped⟩ :=
        stamp_merged (hstartHistory.congr hedited.kind) (b.revision + 1)
      refine ⟨stored, ?_, ?_⟩
      · rw [← hstored]
        simp [Board.apply, batchOf, hlookup]
      · simpa using (hvisible.trans hedited).trans hstamped

/-- What a run of accepted batches makes of an item whose text is a history. -/
theorem Commits.merged {base : Backend Storage} {readNumber : String → Option ℚ} {d d' : Json}
    {b : Board} (hshows : Shows d b) (hsane : b.Sane) {past : List Answered}
    (h : Commits base readNumber d past d') {id : String} {item : Json}
    (hitem : d.find (itemPath id) = some item) (hhistory : HasHistory item)
    (hkept : ∀ operation ∈ (batches past).flatten, ¬deletes id operation) :
    ∃ item', d'.find (itemPath id) = some item' ∧
      Merged (historyOf (batches past).flatten id) item item' := by
  have hrule : ∃ b', Shows d' b' ∧ b'.Sane ∧
      ((∀ operation ∈ (batches past).flatten, ¬deletes id operation) →
        ∃ item', b'.items id = some item' ∧
          Merged (historyOf (batches past).flatten id) item item') := by
    refine h.rule (P := fun past _ b ↦ (∀ operation ∈ (batches past).flatten,
      ¬deletes id operation) → ∃ item', b.items id = some item' ∧
        Merged (historyOf (batches past).flatten id) item item') hshows hsane ?_ ?_
    · intro _
      exact ⟨item, (hshows.items id).symm.trans hitem, .of_fields rfl rfl rfl
        (by simp [batches, historyOf])⟩
    · intro past d₁ b₁ a answer d₂ b₂ hshows₁ hbefore haccepted _ hkept
      have hflatten : (batches (past ++ [⟨a, answer⟩])).flatten
          = (batches past).flatten ++ Answered.operations ⟨a, answer⟩ := by simp [batches]
      rw [hflatten] at hkept ⊢
      obtain ⟨item₁, hitem₁, hmerged₁⟩ :=
        hbefore fun operation hmem ↦ hkept operation (List.mem_append_left _ hmem)
      obtain ⟨item₂, hitem₂, hmerged₂⟩ := haccepted.merged hshows₁ hitem₁
        (hhistory.congr hmerged₁.kind)
        fun operation hmem ↦ hkept operation (List.mem_append_right _ hmem)
      refine ⟨item₂, hitem₂, ?_⟩
      rw [historyOf, List.flatMap_append]
      exact hmerged₁.trans hmerged₂
  obtain ⟨b', hshows', -, hrun⟩ := hrule
  obtain ⟨item', hitem', hmerged⟩ := hrun hkept
  exact ⟨item', (hshows'.items id).trans hitem', hmerged⟩

/-- A batch does not delete an item. -/
def Spares (id : String) (past : List Answered) : Prop :=
  ∀ operations ∈ batches past, ∀ operation ∈ operations, ¬deletes id operation

instance (id : String) (past : List Answered) : Decidable (Spares id past) :=
  inferInstanceAs (Decidable (∀ operations ∈ batches past, ∀ operation ∈ operations,
    ¬deletes id operation))

/-- A change that comes with a patch of an item. -/
def Supplied (id : String) (past : List Answered) (s : String) : Prop :=
  ∃ operations ∈ batches past, ∃ operation ∈ operations,
    patches id operation ∧ s ∈ suppliedTexts operation

theorem mem_suppliedBy_historyOf {id : String} {past : List Answered} {s : String} :
    s ∈ suppliedBy (historyOf (batches past).flatten id) ↔ Supplied id past s := by
  rw [mem_suppliedBy]
  constructor
  · rintro ⟨operation, hmem, hs⟩
    obtain ⟨hmem, hpatches⟩ := patch_mem_historyOf.mp hmem
    obtain ⟨operations, hoperations, hmem⟩ := List.mem_flatten.mp hmem
    exact ⟨operations, hoperations, operation, hmem, hpatches, hs⟩
  · rintro ⟨operations, hoperations, operation, hmem, hpatches, hs⟩
    refine ⟨operation, ?_, hs⟩
    exact patch_mem_historyOf.mpr ⟨List.mem_flatten.mpr ⟨operations, hoperations, hmem⟩, hpatches⟩

theorem Spares.flatten {id : String} {past : List Answered} (h : Spares id past) :
    ∀ operation ∈ (batches past).flatten, ¬deletes id operation := by
  intro operation hmem
  obtain ⟨operations, hoperations, hmem⟩ := List.mem_flatten.mp hmem
  exact h operations hoperations operation hmem

theorem Commits.shows {base : Backend Storage} {readNumber : String → Option ℚ} {d d' : Json}
    {b : Board} (hshows : Shows d b) (hsane : b.Sane) {past : List Answered}
    (h : Commits base readNumber d past d') : ∃ b', Shows d' b' ∧ b'.Sane := by
  obtain ⟨b', hshows', hsane', -⟩ :=
    h.rule (P := fun _ _ _ ↦ True) hshows hsane trivial fun _ _ _ _ _ _ _ _ _ _ _ ↦ trivial
  exact ⟨b', hshows', hsane'⟩

/-- **Branches merge like sets.** -/
theorem branches_merge {base : Backend Storage} {readNumber : String → Option ℚ} {d d' : Json}
    {b : Board} (hshows : Shows d b) (hsane : b.Sane) {past : List Answered}
    (h : Commits base readNumber d past d') {id : String} {item : Json}
    (hitem : d.find (itemPath id) = some item) (hhistory : HasHistory item)
    (hkept : Spares id past) :
    ∃ item', d'.find (itemPath id) = some item' ∧
      (∀ v, field? item "automerge_snapshot" = some v →
        field? item' "automerge_snapshot" = some v) ∧
      (∀ s, s ∈ changeTexts item' ↔ s ∈ changeTexts item ∨ Supplied id past s) ∧
      ((∃ operations ∈ batches past, ∃ operation ∈ operations, patches id operation) →
        (changeTexts item').Nodup) ∧
      (∀ more d'', Commits base readNumber d' more d'' → Spares id more →
        ∃ item'', d''.find (itemPath id) = some item'' ∧
          (∀ v, field? item' "automerge_snapshot" = some v →
            field? item'' "automerge_snapshot" = some v) ∧
          (∀ s ∈ changeTexts item', s ∈ changeTexts item'') ∧
          ((∀ s, Supplied id more s → s ∈ changeTexts item ∨ Supplied id past s) →
            ∀ s, s ∈ changeTexts item'' ↔ s ∈ changeTexts item')) ∧
      ∀ past' d'', Commits base readNumber d past' d'' → (batches past').Perm (batches past) →
        ∃ item'', d''.find (itemPath id) = some item'' ∧
          ∀ s, s ∈ changeTexts item'' ↔ s ∈ changeTexts item' := by
  obtain ⟨item', hitem', hmerged⟩ := h.merged hshows hsane hitem hhistory hkept.flatten
  have htexts : ∀ s, s ∈ changeTexts item' ↔ s ∈ changeTexts item ∨ Supplied id past s := by
    intro s
    rw [hmerged.texts, mem_suppliedBy_historyOf]
  refine ⟨item', hitem', hmerged.snapshot, htexts, ?_, ?_, ?_⟩
  · rintro ⟨operations, hoperations, operation, hmem, hpatches⟩
    exact hmerged.patched ⟨operation, patch_mem_historyOf.mpr
      ⟨List.mem_flatten.mpr ⟨operations, hoperations, hmem⟩, hpatches⟩⟩
  · intro more d'' hmore hspares
    obtain ⟨b', hshows', hsane'⟩ := h.shows hshows hsane
    obtain ⟨item'', hitem'', hmerged'⟩ :=
      hmore.merged hshows' hsane' hitem' (hhistory.congr hmerged.kind) hspares.flatten
    have htexts' : ∀ s, s ∈ changeTexts item'' ↔ s ∈ changeTexts item' ∨ Supplied id more s := by
      intro s
      rw [hmerged'.texts, mem_suppliedBy_historyOf]
    refine ⟨item'', hitem'', hmerged'.snapshot, fun s hs ↦ (htexts' s).mpr (Or.inl hs), ?_⟩
    intro hagain s
    rw [htexts']
    exact or_iff_left_of_imp fun hs ↦ (htexts s).mpr (hagain s hs)
  · intro past' d'' hother hperm
    have hspares : Spares id past' := fun operations hmem ↦ hkept operations (hperm.mem_iff.mp hmem)
    obtain ⟨item'', hitem'', hmerged'⟩ :=
      hother.merged hshows hsane hitem hhistory hspares.flatten
    have hsupplied : ∀ s, Supplied id past' s ↔ Supplied id past s := by
      intro s
      exact exists_congr fun operations ↦ and_congr_left fun _ ↦ hperm.mem_iff
    refine ⟨item'', hitem'', fun s ↦ ?_⟩
    rw [htexts, hmerged'.texts, mem_suppliedBy_historyOf, hsupplied]

def noteChange (text : String) : Json := .obj [("field", .str "text"), ("change", .str text)]

/-- A note with one change. -/
def noteItem : Json :=
  .obj [("kind", .str "note"), ("permission", .str "staff"), ("automerge_snapshot", .str "base"),
    ("automerge_changes", .arr [noteChange "first"])]

def noteDocument : Json := .obj [("items", .obj [("note-1", noteItem)])]

/-- A client sends two changes of the note, one of which is stored. -/
def branch : Admitted :=
  { sender with event := .obj [("client_id", .str "tab"), ("request_count", .int 1),
      ("operations", .arr [.obj [("action", .str "patch"), ("id", .str "note-1"),
        ("patch", .obj [("automerge_changes",
          .arr [noteChange "second", noteChange "first"])])]])] }

def branchAnswer : Json := answerTo branch noteDocument

/-- The note with both changes. -/
def mergedDocument : Json := documentAfter branch noteDocument

theorem noteDocument_shows :
    Shows noteDocument
      ⟨0, fun _ ↦ none, fun id ↦ if id = "note-1" then some noteItem else none⟩ := by
  refine ⟨⟨_, rfl⟩, fun id ↦ ?_, Or.inl ⟨rfl, rfl, fun _ ↦ rfl⟩⟩
  by_cases hid : id = "note-1"
  · rw [hid]
    rfl
  · change (Json.obj [("note-1", noteItem)]).find [.key id]
      = if id = "note-1" then some noteItem else none
    simp [Json.find, Json.child, hid]

theorem branch_commits :
    Commits silentBackend (fun _ ↦ none) noteDocument [⟨branch, branchAnswer⟩] mergedDocument :=
  .snoc .nil branch rfl ⟨id, fun _ ↦ ⟨rfl, rfl, rfl, rfl, .refl _, .refl _⟩⟩ [] branchAnswer
    (canvasQuery plainBackend branch ⟨noteDocument, []⟩).2 (by with_unfolding_all rfl)

theorem note_branches_merge :
    ∃ item', mergedDocument.find (itemPath "note-1") = some item' ∧
      (∀ v, field? noteItem "automerge_snapshot" = some v →
        field? item' "automerge_snapshot" = some v) ∧
      ∀ s, s ∈ changeTexts item' ↔
        s ∈ changeTexts noteItem ∨ Supplied "note-1" [⟨branch, branchAnswer⟩] s := by
  have hstored : noteDocument.find (itemPath "note-1") = some noteItem := rfl
  obtain ⟨item', hitem', hsnapshot, htexts, -⟩ := branches_merge noteDocument_shows nofun
    branch_commits hstored ⟨"note", rfl, rfl⟩ (by decide +kernel)
  exact ⟨item', hitem', hsnapshot, htexts⟩

end Agora
