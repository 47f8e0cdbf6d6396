import Agora.Query.Connectors
import Agora.Query.Validation

/-!
# Items that can be patched again

An item can be patched again as it is when it passes the checks of a patch that changes nothing. The
history of a text is checked before it is merged with the one that was there, and a translation does
not check it at all.
-/

namespace Agora

open Broker Query

/-! ## Merged histories -/

/-- The changes of an item. -/
def changesIn (item : Json) : List Json :=
  ((field? item "automerge_changes").getD .null).elements

/-- A change is kept unless one with its text is. -/
def keepFirst (kept : List Json) (change : Json) : List Json :=
  if changeText change ∈ kept.map changeText then kept else kept ++ [change]

/-- The first of the changes with each text. -/
def firstChanges (changes : List Json) : List Json := changes.foldl keepFirst []

section FirstChanges

variable {changes changes' : List Json}

theorem firstChanges_append (changes changes' : List Json) :
    firstChanges (changes ++ changes') = changes'.foldl keepFirst (firstChanges changes) :=
  List.foldl_append

theorem mem_foldl_keepFirst (kept changes : List Json) (text : Option String) :
    text ∈ (changes.foldl keepFirst kept).map changeText ↔
      text ∈ kept.map changeText ∨ text ∈ changes.map changeText := by
  induction changes generalizing kept with
  | nil => simp
  | cons change changes ih =>
    rw [List.foldl_cons, ih, keepFirst]
    split
    · next hseen =>
      rw [List.map_cons, List.mem_cons]
      constructor
      · exact Or.imp_right Or.inr
      · rintro (h | rfl | h)
        · exact Or.inl h
        · exact Or.inl hseen
        · exact Or.inr h
    · simp [or_assoc]

/-- Changes with texts that are there add nothing. -/
theorem foldl_keepFirst_of_seen {kept : List Json}
    (h : ∀ change ∈ changes, changeText change ∈ kept.map changeText) :
    changes.foldl keepFirst kept = kept := by
  induction changes with
  | nil => rfl
  | cons change changes ih =>
    obtain ⟨hchange, hchanges⟩ := List.forall_mem_cons.mp h
    rw [List.foldl_cons, keepFirst, if_pos hchange]
    exact ih hchanges

theorem foldl_keepFirst_of_nodup {kept : List Json}
    (h : ((kept ++ changes).map changeText).Nodup) :
    changes.foldl keepFirst kept = kept ++ changes := by
  induction changes generalizing kept with
  | nil => simp
  | cons change changes ih =>
    have hnew : changeText change ∉ kept.map changeText := by
      rw [List.map_append, List.map_cons, List.nodup_append] at h
      exact fun hmem ↦ h.2.2 _ hmem _ List.mem_cons_self rfl
    rw [List.foldl_cons, keepFirst, if_neg hnew, ih, List.append_assoc]
    · rfl
    · rwa [List.append_assoc, List.singleton_append]

theorem nodup_firstChanges (changes : List Json) :
    ((firstChanges changes).map changeText).Nodup := by
  induction changes using List.reverseRecOn with
  | nil => exact List.nodup_nil
  | append_singleton changes change ih =>
    rw [firstChanges_append, List.foldl_cons, List.foldl_nil, keepFirst]
    split
    · exact ih
    · next hnew =>
      rw [List.map_append, List.nodup_append]
      refine ⟨ih, List.nodup_singleton _, fun text htext text' htext' ↦ ?_⟩
      rw [List.map_singleton, List.mem_singleton] at htext'
      rintro rfl
      exact hnew (htext' ▸ htext)

@[simp] theorem firstChanges_firstChanges (changes : List Json) :
    firstChanges (firstChanges changes) = firstChanges changes :=
  foldl_keepFirst_of_nodup (by simpa using nodup_firstChanges changes)

/-- Merging once more what was merged. -/
theorem firstChanges_firstChanges_append (changes changes' : List Json) :
    firstChanges (firstChanges changes ++ changes') = firstChanges (changes ++ changes') := by
  rw [firstChanges_append, firstChanges_firstChanges, ← firstChanges_append]

theorem firstChanges_append_self (changes : List Json) :
    firstChanges (changes ++ changes) = firstChanges changes := by
  rw [firstChanges_append]
  refine foldl_keepFirst_of_seen fun change hchange ↦ ?_
  exact (mem_foldl_keepFirst [] changes _).mpr (Or.inr (List.mem_map_of_mem hchange))

theorem firstChanges_sublist (changes : List Json) : (firstChanges changes).Sublist changes := by
  induction changes using List.reverseRecOn with
  | nil => exact List.Sublist.refl _
  | append_singleton changes change ih =>
    rw [firstChanges_append, List.foldl_cons, List.foldl_nil, keepFirst]
    split
    · exact ih.trans (List.sublist_append_left _ _)
    · exact ih.append (List.Sublist.refl _)

end FirstChanges

/-! ### What merging computes -/

/-- The texts that were seen are those of the changes that are kept. -/
def Seen (merged : List Json × List String) : Prop :=
  ∀ text, text ∈ merged.2 ↔ some text ∈ merged.1.map changeText

theorem mergeChange_seen {merged merged' : List Json × List String} {change : Json}
    (h : Seen merged) (hmerge : mergeChange merged change = .ok merged') :
    Seen merged' ∧ merged'.1 = keepFirst merged.1 change ∧ (changeText change).isSome := by
  unfold mergeChange at hmerge
  simp only [Checked.bind_ok, Checked.pure_ok] at hmerge
  obtain ⟨v, hv, text, htext, rfl⟩ := hmerge
  have hchange : changeText change = some text := by
    rw [changeText, field?_of_index hv, getString_ok htext]
  have hseen : (merged.2.contains text) = true ↔ changeText change ∈ merged.1.map changeText := by
    rw [List.contains_iff_mem, hchange]
    exact h text
  rw [keepFirst, hchange]
  rw [hchange] at hseen
  split
  · next hmem =>
    rw [if_pos (hseen.mp hmem)]
    exact ⟨h, rfl, rfl⟩
  · next hmem =>
    rw [if_neg fun hmem' ↦ hmem (hseen.mpr hmem')]
    refine ⟨fun text' ↦ ?_, rfl, rfl⟩
    rw [List.mem_cons, List.map_append, List.mem_append, h text', List.map_singleton,
      List.mem_singleton, hchange, Option.some.injEq, or_comm]

theorem foldlM_mergeChange {merged merged' : List Json × List String} {changes : List Json}
    (h : Seen merged) (hmerge : changes.foldlM mergeChange merged = .ok merged') :
    Seen merged' ∧ merged'.1 = changes.foldl keepFirst merged.1 := by
  induction changes generalizing merged with
  | nil =>
    obtain rfl := Checked.pure_ok.mp hmerge
    exact ⟨h, rfl⟩
  | cons change changes ih =>
    rw [List.foldlM_cons] at hmerge
    obtain ⟨next, hnext, hrest⟩ := Checked.bind_ok.mp hmerge
    obtain ⟨hseen, hkept, -⟩ := mergeChange_seen h hnext
    rw [List.foldl_cons, ← hkept]
    exact ih hseen hrest

/-- Merging does not fail when every change has a text. -/
theorem foldlM_mergeChange_of_texts {changes : List Json}
    (h : ∀ change ∈ changes, ∃ text, field? change "change" = some (.str text))
    (merged : List Json × List String) :
    ∃ merged', changes.foldlM mergeChange merged = .ok merged' := by
  induction changes generalizing merged with
  | nil => exact ⟨merged, rfl⟩
  | cons change changes ih =>
    obtain ⟨⟨text, htext⟩, hchanges⟩ := List.forall_mem_cons.mp h
    have hindex : change.index "change" = .ok (.str text) := by
      cases change with
      | obj fields => simp only [Json.index, show fields.lookup "change" = _ from htext]
      | _ => cases htext
    obtain ⟨merged', hmerged⟩ := ih hchanges _
    refine ⟨merged', ?_⟩
    rw [List.foldlM_cons]
    exact Checked.bind_ok.mpr ⟨_, Checked.bind_ok.mpr ⟨_, hindex, rfl⟩, hmerged⟩

theorem elements_of_value {item v : Json}
    (h : item.valueJson "automerge_changes" (.arr []) = .ok v) : v.elements = changesIn item := by
  rcases field?_of_value h with ⟨w, hw, hsame⟩ | ⟨hnone, rfl⟩
  · rw [changesIn, hw, Option.getD_some, Except.ok.inj hsame]
  · rw [changesIn, hnone]
    rfl

theorem changesIn_congr {item item' : Json}
    (h : field? item "automerge_changes" = field? item' "automerge_changes") :
    changesIn item = changesIn item' := by
  rw [changesIn, changesIn, h]

/-- The changes of a merged history. -/
theorem mergeHistory_changes {old item merged : Json} (h : mergeHistory old item = .ok merged) :
    field? merged "automerge_changes"
        = some (.arr (firstChanges (changesIn old ++ changesIn item))) ∧
      (field? old "automerge_snapshot" = none →
        field? merged "automerge_snapshot" = field? item "automerge_snapshot") := by
  unfold mergeHistory at h
  simp only [Checked.bind_ok] at h
  obtain ⟨kept, hkept, before, hbefore, after, hafter, m₁, hm₁, m₂, hm₂, h⟩ := h
  have hsame : field? kept "automerge_changes" = field? item "automerge_changes" ∧
      (field? old "automerge_snapshot" = none → kept = item) := by
    unfold keepSnapshot at hkept
    split at hkept
    · next hcontains =>
      obtain ⟨snapshot, hsnapshot, hassign⟩ := Checked.bind_ok.mp hkept
      refine ⟨by rw [field?_assign hassign, if_neg (by decide)], fun hnone ↦ ?_⟩
      rw [field?_of_index hsnapshot] at hnone
      nomatch hnone
    · obtain rfl := Checked.pure_ok.mp hkept
      exact ⟨rfl, fun _ ↦ rfl⟩
  have hempty : Seen ([], []) := fun text ↦ by simp
  obtain ⟨hseen, hfirst⟩ := foldlM_mergeChange hempty hm₁
  obtain ⟨-, hsecond⟩ := foldlM_mergeChange hseen hm₂
  rw [elements_of_value hbefore] at hfirst
  rw [elements_of_value hafter, hfirst, ← firstChanges, ← firstChanges_append,
    changesIn_congr hsame.1] at hsecond
  refine ⟨?_, fun hnone ↦ ?_⟩
  · rw [field?_assign h, if_pos rfl, hsecond]
  · rw [field?_assign h, if_neg (by decide), hsame.2 hnone]

/-! ## Histories that can be patched -/

theorem eachOrReject_ok {passes : Json → Checked Bool} {code : String} {l : List Json} :
    eachOrReject passes code l = .ok () ↔ ∀ v ∈ l, passes v = .ok true := by
  induction l with
  | nil => exact iff_of_true rfl nofun
  | cons v l ih =>
    rw [List.forall_mem_cons, ← ih, eachOrReject, Checked.bind_ok]
    constructor
    · rintro ⟨passed, hpasses, h⟩
      rcases passed with _ | _
      · nomatch h
      · exact ⟨hpasses, h⟩
    · exact fun ⟨hpasses, h⟩ ↦ ⟨true, hpasses, h⟩

/-- The history that a patch is checked for. -/
theorem checkHistory_iff {kind : String} (hkeeps : keepsHistory kind) {item : Json} :
    checkHistory kind item = .ok () ↔
      (∃ text, field? item "automerge_snapshot" = some (.str text)) ∧
        ∃ changes, field? item "automerge_changes" = some (.arr changes) ∧
          changes.length ≤ 100000 ∧ ∀ change ∈ changes, validChange kind change = .ok true := by
  rw [checkHistory, if_pos hkeeps]
  simp only [Checked.bind_ok, Checked.throwIf_ok, eachOrReject_ok]
  constructor
  · rintro ⟨⟨⟩, -, snapshot, hsnapshot, ⟨⟩, hstring, ⟨⟩, -, changes, hchanges, ⟨⟩, harray, hvalid⟩
    refine ⟨?_, ?_⟩
    · cases snapshot with
      | str text => exact ⟨text, field?_of_index hsnapshot⟩
      | _ => cases hstring
    · cases changes with
      | arr changes =>
        refine ⟨changes, field?_of_index hchanges, ?_, hvalid⟩
        simpa [Json.isArray, Json.size] using harray
      | _ => cases harray
  · rintro ⟨⟨text, htext⟩, changes, hchanges, hlength, hvalid⟩
    cases item with
    | obj fields =>
      refine ⟨(), ?_, .str text, ?_, (), rfl, (), ?_, .arr changes, ?_, (), ?_, hvalid⟩
      · exact congrArg (fun v ↦ !Option.isSome v) htext
      · simp only [Json.index, show fields.lookup "automerge_snapshot" = _ from htext]
      · exact congrArg (fun v ↦ !Option.isSome v) hchanges
      · simp only [Json.index, show fields.lookup "automerge_changes" = _ from hchanges]
      · simpa [Json.isArray, Json.size] using hlength
    | _ => cases htext

theorem checkHistory_congr {kind : String} {item item' : Json}
    (h : ∀ k ∈ historyFields, field? item' k = field? item k) :
    checkHistory kind item' = .ok () ↔ checkHistory kind item = .ok () := by
  by_cases hkeeps : keepsHistory kind
  · rw [checkHistory_iff hkeeps, checkHistory_iff hkeeps, h _ List.mem_cons_self,
      h _ (List.mem_cons_of_mem _ List.mem_cons_self)]
  · rw [checkHistory, checkHistory, if_neg hkeeps, if_neg hkeeps]

/-! ## What a batch makes of a history -/

namespace Broker

/-- Where an item comes from, and the changes since: it is what was read, or what the last creation
gave. -/
def Change.after (origin : Json × List Change) : Change → Json × List Change
  | .create operation => (patchFields operation, [])
  | .delete => (.null, [])
  | change => (origin.1, origin.2 ++ [change])

def originOf (start : Json) (changes : List Change) : Json × List Change :=
  changes.foldl Change.after (start, [])

theorem originOf_snoc (start : Json) (changes : List Change) (change : Change) :
    originOf start (changes ++ [change]) = change.after (originOf start changes) :=
  List.foldl_append

def Change.isPatch : Change → Bool
  | .patch _ => true
  | _ => false

/-- The changes of a history that patches bring. -/
def suppliedChanges (changes : List Change) : List Json :=
  changes.flatMap fun
    | .patch operation => changesIn (patchFields operation)
    | _ => []

end Broker

/-- The history that an item is left with can be patched: what there is and what the patches bring
fits, or, when there are no patches, what there is. -/
def Mergeable (origin : Json) (changes : List Change) : Prop :=
  ∀ kind, field? origin "kind" = some (.str kind) → keepsHistory kind →
    if changes.any Change.isPatch then
      (∀ v, field? origin "automerge_snapshot" = some v → v.isString) ∧
        (firstChanges (changesIn origin ++ suppliedChanges changes)).length ≤ 100000 ∧
        ∀ change ∈ firstChanges (changesIn origin ++ suppliedChanges changes),
          validChange kind change = .ok true
    else checkHistory kind origin = .ok ()

/-- An item whose text is a history, as the changes since its origin have made it. -/
structure Since (origin : Json) (changes : List Change) (item : Json) : Prop where
  kept : changes.any Change.isPatch = false → ∀ k ∈ historyFields, field? item k = field? origin k
  merged : changes.any Change.isPatch = true → field? item "automerge_changes"
    = some (.arr (firstChanges (changesIn origin ++ suppliedChanges changes)))
  snapshot : changes.any Change.isPatch = true →
    (∃ v, field? origin "automerge_snapshot" = some v ∧ field? item "automerge_snapshot" = some v) ∨
      field? origin "automerge_snapshot" = none ∧
        ∃ text, field? item "automerge_snapshot" = some (.str text)

/-- Whether it can be patched can be read off what it comes from. -/
theorem Since.checkHistory_iff {origin item : Json} {changes : List Change}
    (h : Since origin changes item) {kind : String} (hkeeps : keepsHistory kind)
    (hkind : field? origin "kind" = some (.str kind)) :
    checkHistory kind item = .ok () ↔ Mergeable origin changes := by
  have hmergeable : Mergeable origin changes ↔ _ :=
    ⟨fun hmergeable ↦ hmergeable kind hkind hkeeps, fun hmergeable kind' hkind' _ ↦ by
      obtain rfl := Json.str.inj (Option.some.inj (hkind.symm.trans hkind'))
      exact hmergeable⟩
  rw [hmergeable]
  split
  · next hpatched =>
    rw [Agora.checkHistory_iff hkeeps, h.merged hpatched]
    have hsnapshot : (∃ text, field? item "automerge_snapshot" = some (.str text)) ↔
        ∀ v, field? origin "automerge_snapshot" = some v → v.isString := by
      rcases h.snapshot hpatched with ⟨v, horigin, hitem⟩ | ⟨hnone, htext⟩
      · rw [horigin, hitem]
        simp only [Option.some.injEq, forall_eq']
        match v with
        | .str text => exact iff_of_true ⟨text, rfl⟩ rfl
        | .null | .bool _ | .int _ | .float _ | .arr _ | .obj _ => exact iff_of_false nofun nofun
      · exact iff_of_true htext fun v hv ↦ by rw [hnone] at hv; nomatch hv
    rw [hsnapshot]
    simp
  · next hpatched =>
    exact checkHistory_congr (h.kept (by simpa using hpatched))

section Edits

variable {dumpSize : Json → ℕ} {groups : List String} {admin : Bool}

theorem any_isPatch_snoc (changes : List Change) (change : Change) :
    (changes ++ [change]).any Change.isPatch = (changes.any Change.isPatch || change.isPatch) := by
  simp

theorem suppliedChanges_snoc (changes : List Change) (change : Change) :
    suppliedChanges (changes ++ [change]) = suppliedChanges changes ++ suppliedChanges [change] :=
  List.flatMap_append

/-- A change that leaves the history alone. -/
theorem Since.snoc_same {origin item item' : Json} {changes : List Change} {change : Change}
    (h : Since origin changes item) (hnot : change.isPatch = false)
    (hnothing : suppliedChanges [change] = [])
    (hsame : ∀ k ∈ historyFields, field? item' k = field? item k) :
    Since origin (changes ++ [change]) item' := by
  have hany : (changes ++ [change]).any Change.isPatch = changes.any Change.isPatch := by
    rw [any_isPatch_snoc, hnot, Bool.or_false]
  refine ⟨fun hpatched k hk ↦ ?_, fun hpatched ↦ ?_, fun hpatched ↦ ?_⟩
  · rw [hsame k hk]
    exact h.kept (hany ▸ hpatched) k hk
  · rw [hsame _ (List.mem_cons_of_mem _ List.mem_cons_self), suppliedChanges_snoc, hnothing,
      List.append_nil]
    exact h.merged (hany ▸ hpatched)
  · rw [hsame _ List.mem_cons_self]
    exact h.snapshot (hany ▸ hpatched)

/-- The history a patch is merged into, with what the patch brings. -/
theorem storedItem_history {old operation item : Json} (hold : old.isNull = false)
    (hhistory : HasHistory old) (h : storedItem dumpSize groups admin old operation = .ok item) :
    field? item "automerge_changes" = some (.arr (firstChanges
        (changesIn old ++ changesIn (patchFields operation)))) ∧
      ((∃ v, field? old "automerge_snapshot" = some v ∧ field? item "automerge_snapshot" = some v) ∨
        field? old "automerge_snapshot" = none ∧
          ∃ text, field? item "automerge_snapshot" = some (.str text)) := by
  obtain ⟨kind, hkind, hkeeps⟩ := hhistory
  unfold storedItem at h
  simp only [Checked.bind_ok] at h
  obtain ⟨patched, hpatched, _, -, updated, hupdated, kind', hkind', h⟩ := h
  have hkindPatched := patchItem_kind hold hpatched (valueString_of_field? hkind "")
  have hchecked := queryUpdatedItem_checked hupdated hkindPatched
  obtain rfl := queryUpdatedItem_eq hupdated
  obtain rfl : kind = kind' := Except.ok.inj (hkindPatched.symm.trans hkind')
  rw [hold, hkeeps, if_pos (by rfl)] at h
  obtain ⟨hsnapshot, changes, hchanges, -⟩ := (checkHistory_iff hkeeps).mp hchecked
  obtain ⟨hmerged, hkept⟩ := mergeHistory_changes h
  refine ⟨?_, ?_⟩
  · rw [hmerged]
    rcases patchItem_ok hold hpatched "automerge_changes" with hfield | hnone
    · rcases hgiven : field? (patchFields operation) "automerge_changes" with _ | v
      · -- the patch does not mention the changes
        rw [hgiven, Option.none_or] at hfield
        have hnothing : changesIn (patchFields operation) = [] := by
          rw [changesIn, hgiven]
          rfl
        rw [changesIn_congr hfield, firstChanges_append_self, hnothing, List.append_nil]
      · rw [hgiven, Option.some_or, ← hgiven] at hfield
        rw [changesIn_congr hfield]
    · rw [hnone] at hchanges
      nomatch hchanges
  · rcases hold' : field? old "automerge_snapshot" with _ | v
    · exact Or.inr ⟨rfl, hsnapshot.imp fun text htext ↦ (hkept hold').trans htext⟩
    · exact Or.inl ⟨v, rfl, (mergeHistory_ok h).1 v hold'⟩

/-- A creation leaves what it brings. -/
theorem storedItem_created {operation item : Json}
    (h : storedItem dumpSize groups admin .null operation = .ok item) (hhistory : HasHistory item) :
    ∀ k ∈ historyFields, field? item k = field? (patchFields operation) k := by
  obtain ⟨kind, hkind, hkeeps⟩ := hhistory
  unfold storedItem at h
  simp only [Checked.bind_ok] at h
  obtain ⟨patched, hpatched, _, -, updated, hupdated, kind', -, h⟩ := h
  rw [show (Json.isNull .null) = true from rfl, Bool.not_true, Bool.false_and,
    if_neg Bool.false_ne_true] at h
  obtain rfl := Checked.pure_ok.mp h
  have hchecked := queryUpdatedItem_checked hupdated
    (by rw [← queryUpdatedItem_eq hupdated]; exact valueString_of_field? hkind "")
  obtain rfl := queryUpdatedItem_eq hupdated
  obtain ⟨⟨text, htext⟩, changes, hchanges, -⟩ := (checkHistory_iff hkeeps).mp hchecked
  intro k hk
  rcases patchItem_create hpatched k with hsame | hnone
  · exact hsame
  · rcases List.mem_pair.mp hk with rfl | rfl
    · rw [htext] at hnone
      nomatch hnone
    · rw [hchanges] at hnone
      nomatch hnone

/-- One change. -/
theorem Broker.Edit.since {change : Change} {item item' : Json} {origin : Json × List Change}
    (h : Edit dumpSize groups admin change item item')
    (hkind : field? item "kind" = field? origin.1 "kind")
    (hsince : HasHistory item → Since origin.1 origin.2 item) :
    field? item' "kind" = field? (change.after origin).1 "kind" ∧
      (HasHistory item' → Since (change.after origin).1 (change.after origin).2 item') := by
  cases h with
  | move there connector room moved valid =>
    have hfields := @translateItem_fields _ _ _ _ moved
    have hkind' := hfields (by decide : "kind" ≠ "points") (by decide) (by decide)
    refine ⟨hkind'.trans hkind, fun hhistory ↦ ?_⟩
    refine (hsince (hhistory.congr hkind'.symm)).snoc_same rfl rfl fun k hk ↦ ?_
    rcases List.mem_pair.mp hk with rfl | rfl
    · exact hfields (by decide) (by decide) (by decide)
    · exact hfields (by decide) (by decide) (by decide)
  | delete room => exact ⟨rfl, fun ⟨_, hnone, _⟩ ↦ nomatch hnone⟩
  | create stored =>
    refine ⟨storedItem_create_kind stored, fun hhistory ↦ ?_⟩
    exact ⟨fun _ ↦ storedItem_created stored hhistory, nofun, nofun⟩
  | @patch _ operation _ there stored =>
    have hkind' := storedItem_patch_kind there stored
    refine ⟨hkind'.trans hkind, fun hhistory ↦ ?_⟩
    have hold := hhistory.congr hkind'.symm
    obtain ⟨hchanges, hsnapshot⟩ := storedItem_history there hold stored
    have hsince := hsince hold
    have hsupplied :
        suppliedChanges [Change.patch operation] = changesIn (patchFields operation) := by
      simp [suppliedChanges]
    have hnot : (origin.2 ++ [Change.patch operation]).any Change.isPatch ≠ false := by
      rw [any_isPatch_snoc]
      simp [Change.isPatch]
    refine ⟨fun hpatched ↦ absurd hpatched hnot, fun _ ↦ ?_, fun _ ↦ ?_⟩
    · change field? item' "automerge_changes" = some (.arr (firstChanges (changesIn origin.1
        ++ suppliedChanges (origin.2 ++ [Change.patch operation]))))
      rw [hchanges, suppliedChanges_snoc, hsupplied, ← List.append_assoc]
      -- the first patch finds the changes of the origin, a later one those merged so far
      rcases hpatched : origin.2.any Change.isPatch with _ | _
      · have hsame := hsince.kept hpatched "automerge_changes"
          (List.mem_cons_of_mem _ List.mem_cons_self)
        have hnothing : suppliedChanges origin.2 = [] := by
          rw [suppliedChanges, List.flatMap_eq_nil_iff]
          intro change hmem
          have hchange := List.any_eq_false.mp hpatched change hmem
          cases change with
          | patch => exact absurd rfl hchange
          | _ => rfl
        rw [changesIn_congr hsame, hnothing, List.append_nil]
      · have hmerged : changesIn item = firstChanges (changesIn origin.1
            ++ suppliedChanges origin.2) := by
          rw [changesIn, hsince.merged hpatched]
          rfl
        rw [hmerged, firstChanges_firstChanges_append]
    · change (∃ v, field? origin.1 "automerge_snapshot" = some v ∧ _) ∨
        field? origin.1 "automerge_snapshot" = none ∧ _
      rcases hpatched : origin.2.any Change.isPatch with _ | _
      · rw [← hsince.kept hpatched "automerge_snapshot" List.mem_cons_self]
        exact hsnapshot
      · rcases hsince.snapshot hpatched with ⟨v, horigin, hitem⟩ | ⟨hnone, text, hitem⟩
        · rw [hitem] at hsnapshot
          rcases hsnapshot with ⟨w, hw, hitem'⟩ | ⟨hnone, -⟩
          · exact Or.inl ⟨v, horigin, by rw [hitem', ← hw]⟩
          · nomatch hnone
        · rw [hitem] at hsnapshot
          rcases hsnapshot with ⟨w, hw, hitem'⟩ | ⟨hnone', -⟩
          · exact Or.inr ⟨hnone, text, by rw [hitem', ← hw]⟩
          · nomatch hnone'

/-- All the changes of a batch. -/
theorem Broker.Edits.since {changes : List Change} {start item : Json}
    (h : Edits dumpSize groups admin changes start item) :
    field? item "kind" = field? (originOf start changes).1 "kind" ∧
      (HasHistory item → Since (originOf start changes).1 (originOf start changes).2 item) := by
  induction h with
  | nil => exact ⟨rfl, fun _ ↦ ⟨fun _ _ _ ↦ rfl, nofun, nofun⟩⟩
  | snoc _ edit ih =>
    rw [originOf_snoc]
    exact edit.since ih.1 ih.2

end Edits

/-! ## What passes again -/

section Passes

variable {dumpSize : Json → ℕ} {groups : List String} {admin : Bool}

/-- A valid item has no fields but those of items. -/
theorem field?_of_validate {item : Json} (h : validate dumpSize item = .ok ()) {k : String}
    (hk : itemFields.contains k = false) : field? item k = none := by
  match item, validate_object h with
  | .obj fields, _ =>
    rw [field?_obj, ← Option.not_isSome_iff_eq_none, Assoc.lookup_isSome_iff, List.mem_map]
    rintro ⟨e, he, rfl⟩
    rw [(validateFields_ok.mp (validate_fields h) e he).1] at hk
    nomatch hk

theorem sameGroups_self (groups : List String) : sameGroups groups groups = true := by
  simp [sameGroups]

/-- A patch that changes nothing passes when the history can be patched. -/
theorem queryUpdatedItem_self {item : Json} (hvalid : validate dumpSize item = .ok ())
    (haccess : queryCanAccess item groups admin) {kind : String}
    (hkind : field? item "kind" = some (.str kind)) :
    queryUpdatedItem item item groups admin = .ok item ↔ checkHistory kind item = .ok () := by
  refine ⟨fun h ↦ queryUpdatedItem_checked h (valueString_of_field? hkind ""), fun h ↦ ?_⟩
  have hempty : kind ≠ "" := by
    obtain ⟨kind', hvalue, hmem⟩ := validate_kind hvalid
    obtain rfl := Except.ok.inj ((valueString_of_field? hkind "").symm.trans hvalue)
    rintro rfl
    exact absurd hmem (by decide)
  have htype : hasText item "type" "chat_room" = .ok false := by
    have hnone := field?_of_validate hvalid (by decide : itemFields.contains "type" = false)
    cases item with
    | obj fields =>
      have hvalue : (Json.obj fields).valueString "type" "" = .ok "" := by
        simp only [Json.valueString, Json.value, show fields.lookup "type" = none from hnone]
      rw [hasText, hvalue]
      rfl
    | _ => exact absurd (validate_object hvalid) Bool.false_ne_true
  cases item with
  | obj fields =>
    have hsize : decide ((Json.obj fields).size = 0) = false := by
      rcases fields with _ | _
      · cases hkind
      · rfl
    unfold queryUpdatedItem
    simp only [Checked.bind_ok, Checked.throwIf_ok]
    refine ⟨(), ?_, (), ?_, (), ?_, (), ?_, (), ?_, false, htype, (), rfl, false, htype, (), rfl,
      kind, valueString_of_field? hkind "", (), ?_, (), h, rfl⟩
    · rw [hsize]
      rfl
    · simp [haccess]
    · simp [haccess]
    · simp [sameGroups_self]
    · simp [Json.isNull]
    · simpa using hempty
  | _ => exact absurd (validate_object hvalid) Bool.false_ne_true

theorem queryCanAccess_congr {item item' : Json}
    (h : field? item' "permission" = field? item "permission") (groups : List String)
    (admin : Bool) : queryCanAccess item' groups admin = queryCanAccess item groups admin := by
  rw [queryCanAccess, queryCanAccess, queryPermissionGroups, queryPermissionGroups, h]

/-- The fields that stay when histories are merged. -/
theorem storedItem_fields {old operation item : Json}
    (h : storedItem dumpSize groups admin old operation = .ok item) {k : String}
    (hk : k ∉ historyFields) : ∃ patched, queryUpdatedItem old patched groups admin = .ok patched ∧
      field? item k = field? patched k := by
  unfold storedItem at h
  simp only [Checked.bind_ok] at h
  obtain ⟨patched, -, _, -, updated, hupdated, kind, -, h⟩ := h
  obtain rfl := queryUpdatedItem_eq hupdated
  refine ⟨_, hupdated, ?_⟩
  split at h
  · refine (mergeHistory_ok h).2.1 k ?_ ?_
    · rintro rfl
      exact hk List.mem_cons_self
    · rintro rfl
      exact hk (List.mem_cons_of_mem _ List.mem_cons_self)
  · rw [← Checked.pure_ok.mp h]

/-- Whoever changes an item can access what becomes of it. -/
theorem Broker.Edit.access {change : Change} {item item' : Json}
    (h : Edit dumpSize groups admin change item item')
    (hitem : item = .null ∨ queryCanAccess item groups admin) :
    item' = .null ∨ queryCanAccess item' groups admin := by
  have hstored {old operation item : Json}
      (h : storedItem dumpSize groups admin old operation = .ok item) :
      queryCanAccess item groups admin := by
    obtain ⟨patched, hupdated, hsame⟩ :=
      storedItem_fields h (by decide : "permission" ∉ historyFields)
    rw [queryCanAccess_congr hsame]
    unfold queryUpdatedItem at hupdated
    simp only [Checked.bind_ok, Checked.throwIf_ok] at hupdated
    obtain ⟨_, -, _, -, _, haccess, -⟩ := hupdated
    simpa using haccess
  cases h with
  | move there connector room moved valid =>
    refine Or.inr ?_
    rw [queryCanAccess_congr (translateItem_fields moved (by decide) (by decide) (by decide))]
    exact hitem.resolve_left (ne_null_of_isNull there)
  | delete => exact Or.inl rfl
  | create stored => exact Or.inr (hstored stored)
  | patch _ stored => exact Or.inr (hstored stored)

theorem Broker.Edits.access {changes : List Change} {start item : Json}
    (h : Edits dumpSize groups admin changes start item)
    (hstart : start = .null ∨ queryCanAccess start groups admin) :
    item = .null ∨ queryCanAccess item groups admin := by
  induction h with
  | nil => exact hstart
  | snoc _ edit ih => exact edit.access (ih hstart)

theorem visibleItem_access {old start : Json} (h : visibleItem old = .ok start)
    (hold : old = .null ∨ queryCanAccess old groups admin) :
    start = .null ∨ queryCanAccess start groups admin := by
  unfold visibleItem at h
  obtain ⟨tombstone, -, h⟩ := Checked.bind_ok.mp h
  split at h
  · exact Or.inl (Checked.pure_ok.mp h).symm
  · next hthere =>
    obtain ⟨erased, herased, h⟩ := Checked.bind_ok.mp h
    have hsame : field? start "permission" = field? old "permission" := by
      rw [field?_eraseKey h, if_neg (by decide), field?_eraseKey herased, if_neg (by decide)]
    rw [queryCanAccess_congr hsame]
    refine Or.inr (hold.resolve_left ?_)
    rintro rfl
    simp [Json.isNull] at hthere

/-- The item that a caller sees of what was read. -/
def seenItem (old : Json) : Json :=
  match visibleItem old with
  | .ok item => item
  | .error _ => .null

/-- The history of an item fits after the changes that a batch asks for. -/
def KeepsHistory (old : Json) (changes : List Change) : Prop :=
  Mergeable (originOf (seenItem old) changes).1 (originOf (seenItem old) changes).2

/-- Whether an item that a batch made can be patched can be read off the batch. -/
theorem Broker.Edits.mergeable_iff {changes : List Change} {start item : Json}
    (h : Edits dumpSize groups admin changes start item) {kind : String}
    (hkind : field? item "kind" = some (.str kind)) : checkHistory kind item = .ok () ↔
      Mergeable (originOf start changes).1 (originOf start changes).2 := by
  obtain ⟨hsame, hsince⟩ := h.since
  have horigin := hsame.symm.trans hkind
  by_cases hkeeps : keepsHistory kind
  · exact (hsince ⟨kind, hkind, hkeeps⟩).checkHistory_iff hkeeps horigin
  · rw [checkHistory, if_neg hkeeps]
    refine iff_of_true rfl fun kind' hkind' hkeeps' ↦ absurd hkeeps' ?_
    obtain rfl := Json.str.inj (Option.some.inj (horigin.symm.trans hkind'))
    exact hkeeps

/-- Of a removed item nothing is asked. -/
theorem Broker.Edits.mergeable_null {changes : List Change} {start : Json}
    (h : Edits dumpSize groups admin changes start .null) :
    Mergeable (originOf start changes).1 (originOf start changes).2 := by
  intro kind hkind _
  rw [← h.since.1] at hkind
  nomatch hkind

theorem seenItem_eq {old start : Json} (h : visibleItem old = .ok start) :
    seenItem old = start := by
  rw [seenItem, h]

/-- An infinity is no text. -/
theorem Broker.Damaged.not_checked {item : Json} (h : Damaged item) {kind : String}
    (hkind : field? item "kind" = some (.str kind)) : checkHistory kind item ≠ .ok () := by
  obtain ⟨⟨kind', hkind', hkeeps⟩, x, hx, -⟩ := h
  obtain rfl := Json.str.inj (Option.some.inj (hkind'.symm.trans hkind))
  intro hchecked
  obtain ⟨⟨text, htext⟩, -⟩ := (checkHistory_iff hkeeps).mp hchecked
  nomatch hx.symm.trans htext

/-- A staged item passes again when its history fits. -/
theorem Broker.Trace.passes_iff {σ : Type} {I : σ → Prop} {read : String → Query σ (Option Json)}
    {changes : List Change} {id : String} {old item : Json} {revision : ℤ}
    (h : Trace dumpSize groups admin I read changes id old revision item)
    (hstageable : Stageable dumpSize item) :
    (item ≠ .null → validate dumpSize item = .ok () ∧
      queryUpdatedItem item item groups admin = .ok item) ↔ KeepsHistory old changes := by
  obtain ⟨start, hstart, hedits⟩ := h.edited
  rw [KeepsHistory, seenItem_eq hstart]
  rcases hstageable with rfl | hvalid | hdamaged
  · exact iff_of_true (fun hnull ↦ absurd rfl hnull) hedits.mergeable_null
  · have hthere := ne_null_of_isObject (validate_object hvalid)
    have haccess := (hedits.access (visibleItem_access hstart h.access)).resolve_left hthere
    obtain ⟨kind, -, hkind⟩ := field?_kind_of_validate hvalid
    rw [← hedits.mergeable_iff hkind, ← queryUpdatedItem_self hvalid haccess hkind]
    exact ⟨fun hpasses ↦ (hpasses hthere).2, fun hpasses _ ↦ ⟨hvalid, hpasses⟩⟩
  · obtain ⟨kind, hkind, -⟩ := hdamaged.kind
    have hchecked := hdamaged.not_checked hkind
    rw [← hedits.mergeable_iff hkind]
    refine iff_of_false (fun hpasses ↦ hchecked ?_) hchecked
    have hthere : item ≠ .null := by
      rintro rfl
      nomatch hkind
    exact queryUpdatedItem_checked (hpasses hthere).2 (valueString_of_field? hkind "")

/-- **Staged items pass again** when the histories fit, whatever was read, and only then. -/
theorem staged_pass_iff {σ : Type} {read : String → Query σ (Option Json)} {operations : Json}
    {s s' : σ} {mutation : Mutation}
    (h : prepare dumpSize read groups admin operations s = (.ok mutation, s')) :
    (∀ id item, mutation.items.lookup id = some item → item ≠ .null →
      validate dumpSize item = .ok () ∧ queryUpdatedItem item item groups admin = .ok item) ↔
    ∀ id old, mutation.previous.lookup id = some old →
      KeepsHistory old (historyOf operations.elements id) := by
  have hread : ∀ id, Keeps (fun _ : σ ↦ True) (read id) := fun _ _ _ ↦ trivial
  have htraced := (prepare_traced hread operations s mutation s' trivial h).2
  have hvalid := (prepare_validated hread operations s mutation s' trivial h).2
  constructor
  · intro hpasses id old hold
    have hkeys : id ∈ mutation.items.map Prod.fst := by
      rw [← htraced.previous, ← Assoc.lookup_isSome_iff, hold]
      rfl
    obtain ⟨item, hitem⟩ := Option.isSome_iff_exists.mp (Assoc.lookup_isSome_iff.mpr hkeys)
    obtain ⟨old', revision, hold', -, htrace⟩ := htraced.trace id item hitem
    obtain rfl := Option.some.inj (hold.symm.trans hold')
    exact (htrace.passes_iff (hvalid id item hitem)).mp (hpasses id item hitem)
  · intro hkept id item hitem
    obtain ⟨old, revision, hold, -, htrace⟩ := htraced.trace id item hitem
    exact (htrace.passes_iff (hvalid id item hitem)).mpr (hkept id old hold)

end Passes

end Agora
