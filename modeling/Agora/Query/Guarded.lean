import Agora.Query.Branches
import Agora.Query.Written

/-!
# Access to items

Items ask for groups, and a user who is no administrator may change an item only when in one of its
groups. Over whole runs of queries by any such users, with whatever becomes of the calls
(`items_guarded`): an item none of them may access stays exactly as it is; an item that is not
removed meanwhile keeps its groups; and an item that appears asks for groups of the user who stored
it, and for no others. So no sequence of changes, removals and creations gives a user an item, or
takes one from a group.

A tombstone counts as no item: a batch puts a new item in its place.
-/

namespace Agora

open Broker Query

/-! ## Groups -/

/-- Two items ask for the same groups. -/
def SameGroups (item item' : Json) : Prop :=
  ∀ group, group ∈ queryPermissionGroups item ↔ group ∈ queryPermissionGroups item'

/-- An item asks for groups, and only for some of those given. -/
def Within (groups : List String) (item : Json) : Prop :=
  queryPermissionGroups item ≠ [] ∧ ∀ group ∈ queryPermissionGroups item, group ∈ groups

/-- There is no item, or only what is left of one. -/
def Vacant (item : Json) : Prop := item = .null ∨ field? item "kind" = some (.str "host-tombstone")

instance (item : Json) : Decidable (Vacant item) := inferInstanceAs (Decidable (_ ∨ _))

theorem SameGroups.refl (item : Json) : SameGroups item item := fun _ ↦ Iff.rfl

theorem SameGroups.trans {item item' item'' : Json} (h : SameGroups item item')
    (h' : SameGroups item' item'') : SameGroups item item'' :=
  fun group ↦ (h group).trans (h' group)

theorem SameGroups.of_field {item item' : Json}
    (h : field? item' "permission" = field? item "permission") : SameGroups item item' := by
  intro group
  rw [queryPermissionGroups, queryPermissionGroups, h]

theorem SameGroups.within {groups : List String} {item item' : Json} (h : SameGroups item item')
    (hwithin : Within groups item) : Within groups item' := by
  obtain ⟨hne, hall⟩ := hwithin
  refine ⟨fun hempty ↦ hne ?_, fun group hmem ↦ hall group ((h group).mpr hmem)⟩
  rw [List.eq_nil_iff_forall_not_mem] at hempty ⊢
  exact fun group hmem ↦ hempty group ((h group).mp hmem)

theorem sameGroups_iff {a b : List String} :
    sameGroups a b = true ↔ ∀ group, group ∈ a ↔ group ∈ b := by
  rw [sameGroups, Bool.and_eq_true, List.all_eq_true, List.all_eq_true]
  simp only [List.contains_iff_mem]
  exact ⟨fun h group ↦ ⟨h.1 group, h.2 group⟩,
    fun h ↦ ⟨fun group ↦ (h group).mp, fun group ↦ (h group).mpr⟩⟩

theorem permissionGroups_ne_nil {item : Json} {groups : List String}
    (h : queryCanAccess item groups false) : queryPermissionGroups item ≠ [] := by
  intro hempty
  rw [queryCanAccess, hempty] at h
  exact absurd h Bool.false_ne_true

/-- An item that is stored has the groups of the one before, or, where there was none, groups of the
user. -/
theorem queryUpdatedItem_groups {previous input item : Json} {groups : List String}
    (h : queryUpdatedItem previous input groups false = .ok item) :
    (previous = .null → Within groups item) ∧
      (previous ≠ .null → queryCanAccess previous groups false ∧ SameGroups previous item) := by
  obtain rfl := queryUpdatedItem_eq h
  unfold queryUpdatedItem at h
  simp only [Checked.bind_ok, Checked.throwIf_ok, exists_const] at h
  obtain ⟨-, hold, hnew, hsame, hown, -⟩ := h
  constructor
  · rintro rfl
    rw [Bool.not_eq_false'] at hnew
    refine ⟨permissionGroups_ne_nil hnew, ?_⟩
    simpa [Json.isNull] using hown
  · intro hthere
    have hnull : previous.isNull = false := by
      rcases previous
      all_goals first | rfl | exact absurd rfl hthere
    rw [hnull] at hold hsame
    exact ⟨by simpa using hold, sameGroups_iff.mp (by simpa using hsame)⟩

/-! ## Edits -/

/-- What edits make of an item: it keeps its groups while it is not removed, and where there was
none, or it was removed, there is none, or one within the groups of the user. -/
structure Guarded (groups : List String) (cleared : Prop) (start item : Json) : Prop where
  fresh : start = .null ∨ cleared → item = .null ∨ Within groups item
  same : start ≠ .null → ¬cleared → item ≠ .null ∧ SameGroups start item

variable {dumpSize : Json → ℕ} {groups : List String}

theorem mergeHistory_permission {old item merged : Json} (h : mergeHistory old item = .ok merged) :
    field? merged "permission" = field? item "permission" :=
  (mergeHistory_ok h).2.1 _ (by decide) (by decide)

theorem storedItem_groups {old operation item : Json}
    (h : storedItem dumpSize groups false old operation = .ok item) :
    (old = .null → Within groups item) ∧ (old ≠ .null → SameGroups old item) := by
  unfold storedItem at h
  simp only [Checked.bind_ok] at h
  obtain ⟨patched, -, _, -, updated, hupdated, kind, -, h⟩ := h
  obtain ⟨hfresh, hsame⟩ := queryUpdatedItem_groups hupdated
  split at h
  · have hmerged := SameGroups.of_field (mergeHistory_permission h)
    exact ⟨fun hnull ↦ hmerged.within (hfresh hnull), fun hthere ↦ (hsame hthere).2.trans hmerged⟩
  · obtain rfl := Checked.pure_ok.mp h
    exact ⟨hfresh, fun hthere ↦ (hsame hthere).2⟩

/-- What one edit makes of the groups of an item. -/
theorem Broker.Edit.permits {change : Change} {item item' : Json}
    (h : Edit dumpSize groups false change item item') :
    change = .delete ∧ item' = .null ∨ item = .null ∧ Within groups item' ∨
      change ≠ .delete ∧ item ≠ .null ∧ item' ≠ .null ∧ SameGroups item item' := by
  have hobject : ∀ {v : Json}, v.isObject → v ≠ .null := by
    rintro v hv rfl
    exact absurd hv Bool.false_ne_true
  have hthere : ∀ {v : Json}, v.isNull = false → v ≠ .null := by
    rintro v hv rfl
    exact absurd hv (by decide)
  rcases h with ⟨there, -, -, moved, valid⟩ | ⟨-⟩ | ⟨stored⟩ | ⟨there, stored⟩
  · refine Or.inr (Or.inr ⟨Change.noConfusion, hthere there, hobject (validate_object valid), ?_⟩)
    exact .of_field (translateItem_fields moved (by decide) (by decide) (by decide))
  · exact Or.inl ⟨rfl, rfl⟩
  · exact Or.inr (Or.inl ⟨rfl, (storedItem_groups stored).1 rfl⟩)
  · exact Or.inr (Or.inr ⟨Change.noConfusion, hthere there, hobject (storedItem_object stored),
      (storedItem_groups stored).2 (hthere there)⟩)

theorem Broker.Edits.guarded {changes : List Change} {start item : Json}
    (h : Edits dumpSize groups false changes start item) :
    Guarded groups (.delete ∈ changes) start item := by
  induction h with
  | nil item =>
    exact ⟨fun h ↦ Or.inl (h.resolve_right List.not_mem_nil), fun hne _ ↦ ⟨hne, .refl item⟩⟩
  | @snoc changes change start item item' _ hedit ih =>
    rcases hedit.permits with ⟨rfl, rfl⟩ | ⟨rfl, hwithin⟩ | ⟨hchange, hne, hne', hsame⟩
    · exact ⟨fun _ ↦ Or.inl rfl, fun _ hkept ↦ absurd (List.mem_append_right _ (by simp)) hkept⟩
    · refine ⟨fun _ ↦ Or.inr hwithin, fun hstart hkept ↦ ?_⟩
      exact absurd rfl (ih.same hstart fun hmem ↦ hkept (List.mem_append_left _ hmem)).1
    · have hdelete : Change.delete ∈ changes ++ [change] ↔ Change.delete ∈ changes := by
        rw [List.mem_append, List.mem_singleton]
        exact or_iff_left hchange.symm
      refine ⟨fun hcleared ↦ ?_, fun hstart hkept ↦ ?_⟩
      · rw [hdelete] at hcleared
        exact Or.inr (hsame.within ((ih.fresh hcleared).resolve_left hne))
      · exact ⟨hne', (ih.same hstart (mt hdelete.mpr hkept)).2.trans hsame⟩

/-- What an operation sees of an item. -/
theorem visibleItem_groups {old start : Json} (h : visibleItem old = .ok start) :
    start = .null ∧ Vacant old ∨ start ≠ .null ∧ ¬Vacant old ∧ SameGroups old start := by
  unfold visibleItem at h
  obtain ⟨tombstone, htombstone, h⟩ := Checked.bind_ok.mp h
  have hkind := hasText_ok (by decide) htombstone
  split at h
  · next hvacant =>
    refine Or.inl ⟨(Checked.pure_ok.mp h).symm, ?_⟩
    rcases (Bool.or_eq_true _ _).mp hvacant with htrue | hnull
    · exact Or.inr (of_decide_eq_true (hkind.symm.trans htrue))
    · left
      rcases old
      all_goals first | rfl | exact absurd hnull Bool.false_ne_true
  · next hthere =>
    rw [Bool.not_eq_true, Bool.or_eq_false_iff] at hthere
    obtain ⟨dropped, hdropped, h⟩ := Checked.bind_ok.mp h
    refine Or.inr ⟨?_, ?_, .of_field ?_⟩
    · rintro rfl
      exact absurd (Json.eraseKey_ok h) Bool.false_ne_true
    · rintro (rfl | htomb)
      · exact absurd hthere.2 (by decide)
      · exact of_decide_eq_false (hkind.symm.trans hthere.1) htomb
    · rw [field?_eraseKey h, if_neg (by decide), field?_eraseKey hdropped, if_neg (by decide)]

/-- Storing a staged item keeps its groups. -/
theorem stamp_groups (revision : ℤ) {item : Json} (hitem : Itemlike item) :
    item = .null ∧ (stamp revision item).getD .null = .null ∨
      item ≠ .null ∧ (stamp revision item).getD .null ≠ .null ∧
        SameGroups item ((stamp revision item).getD .null) := by
  rcases hitem with rfl | hobject
  · exact Or.inl ⟨rfl, rfl⟩
  · rcases item
    case obj fields =>
      refine Or.inr ⟨Json.noConfusion, Json.noConfusion, .of_field ?_⟩
      rw [stamp, Option.getD_some, field?_obj, field?_obj]
      exact Assoc.lookup_set_of_ne (by decide) _ _
    all_goals exact absurd hobject Bool.false_ne_true

/-! ## Queries -/

/-- A query asks for the removal of an item in a batch. -/
def Removes (a : Admitted) (id : String) : Prop :=
  a.type = "canvas_ops" ∧ ∃ operation ∈ requested a, deletes id operation

instance (a : Admitted) (id : String) : Decidable (Removes a id) :=
  inferInstanceAs (Decidable (_ ∧ _))

section Origin

variable {a : Admitted} {id : String} {old item : Json}

theorem Origin.foreign (h : Origin dumpSize a id old item) (hold : old ≠ .null)
    (hdenied : queryCanAccess old a.groups a.admin = false) : item = old := by
  rcases h with _ | ⟨_, haccess, -, -, -, -⟩ | ⟨_, haccess, -⟩ | ⟨_, hchecked, -⟩
  · rfl
  · exact absurd (haccess.resolve_left hold) (by rw [hdenied]; exact Bool.false_ne_true)
  · exact absurd (haccess.resolve_left hold) (by rw [hdenied]; exact Bool.false_ne_true)
  · have hplain : a.admin = false := by
      rw [queryCanAccess, Bool.or_eq_false_iff] at hdenied
      exact hdenied.1
    rw [hplain] at hdenied hchecked
    exact absurd ((queryUpdatedItem_groups hchecked).2 hold).1
      (by rw [hdenied]; exact Bool.false_ne_true)

/-- What a query of a user who is no administrator makes of an item. -/
theorem Origin.guarded (h : Origin dumpSize a id old item) (hplain : a.admin = false) :
    item = old ∨ item = .null ∨ (old ≠ .null ∧ ¬Removes a id ∧ SameGroups old item) ∨
      ((Vacant old ∨ Removes a id) ∧ Within a.groups item) := by
  rcases h with _ | @⟨start, v, hbatch, -, hvisible, -, hedits, revision⟩ | ⟨_, -, -⟩ |
    ⟨hsingle, hchecked, hsame⟩
  · exact Or.inl rfl
  · rw [hplain] at hedits
    have hguarded := hedits.guarded
    have hremoves : Change.delete ∈ historyOf (requested a) id ↔ Removes a id := by
      rw [delete_mem_historyOf, Removes, and_iff_right hbatch]
    rw [hremoves] at hguarded
    have hlike := Edits.itemlike (visibleItem_itemlike hvisible) hedits
    rcases stamp_groups revision hlike with ⟨-, hnull⟩ | ⟨hthere, -, hstamped⟩
    · exact Or.inr (Or.inl hnull)
    · by_cases hcleared : start = .null ∨ Removes a id
      · have hwithin := hstamped.within ((hguarded.fresh hcleared).resolve_left hthere)
        refine Or.inr (Or.inr (Or.inr ⟨hcleared.imp_left fun hnull ↦ ?_, hwithin⟩))
        rcases visibleItem_groups hvisible with ⟨-, hvacant⟩ | ⟨hne, -⟩
        · exact hvacant
        · exact absurd hnull hne
      · rw [not_or] at hcleared
        have hkept := (hguarded.same hcleared.1 hcleared.2).2.trans hstamped
        rcases visibleItem_groups hvisible with ⟨hnull, -⟩ | ⟨-, hvacant, hseen⟩
        · exact absurd hnull hcleared.1
        · exact Or.inr (Or.inr (Or.inl ⟨fun hnull ↦ hvacant (Or.inl hnull), hcleared.2,
            hseen.trans hkept⟩))
  · exact Or.inr (Or.inl rfl)
  · rw [hplain] at hchecked
    obtain ⟨hfresh, hold⟩ := queryUpdatedItem_groups hchecked
    have hfield := SameGroups.of_field (hsame "permission" (by decide) (by decide))
    by_cases hnull : old = .null
    · exact Or.inr (Or.inr (Or.inr ⟨Or.inl (Or.inl hnull), hfield.within (hfresh hnull)⟩))
    · exact Or.inr (Or.inr (Or.inl ⟨hnull, fun hremoves ↦ hsingle.ne_ops hremoves.1,
        (hold hnull).2.trans hfield⟩))

end Origin

/-! ## Runs -/

/-- A query in a run, with the document before and after it. -/
structure Turn where
  query : Admitted
  before : Json
  after : Json

/-- Queries that may change items, one after the other, whatever becomes of their calls. -/
inductive Turns (base : Backend Storage) (readNumber : String → Option ℚ) (d : Json) :
    List Turn → Json → Prop
  | nil : Turns base readNumber d [] d
  | snoc {past : List Turn} {d' d'' : Json} (h : Turns base readNumber d past d') (a : Admitted)
      (item : ItemQuery a) (visit : Visit) (faults : List Fault)
      (run : (performQuery (storageBackend base readNumber visit) a ⟨d', faults⟩).2.document
        = d'') :
      Turns base readNumber d (past ++ [⟨a, d', d''⟩]) d''

section Run

variable {base : Backend Storage} {readNumber : String → Option ℚ} {d d' : Json} {past : List Turn}

/-- What holds at the start and is kept by every query holds after a run. -/
theorem Turns.rule {P : List Turn → Json → Prop} (hstart : InOrder d) (start : P [] d)
    (step : ∀ past d₁ a d₂, P past d₁ → Written base.dumpSize a d₁ d₂ →
      P (past ++ [⟨a, d₁, d₂⟩]) d₂)
    (h : Turns base readNumber d past d') : InOrder d' ∧ P past d' := by
  induction h with
  | nil => exact ⟨hstart, start⟩
  | snoc _ a hitem visit faults hrun ih =>
    obtain ⟨hin, hP⟩ := ih
    have hwritten := @performQuery_written base readNumber visit a hitem _ hin ⟨_, faults⟩ rfl
    dsimp only at hwritten
    rw [hrun] at hwritten
    exact ⟨hwritten.1, step _ _ a _ hP hwritten⟩

theorem Turns.foreign (hstart : InOrder d) (h : Turns base readNumber d past d') {id : String}
    (hthere : itemOf d id ≠ .null)
    (hdenied : ∀ t ∈ past, queryCanAccess (itemOf d id) t.query.groups t.query.admin = false) :
    itemOf d' id = itemOf d id := by
  refine (h.rule (P := fun past d' ↦ (∀ t ∈ past, queryCanAccess (itemOf d id) t.query.groups
    t.query.admin = false) → itemOf d' id = itemOf d id) hstart (fun _ ↦ rfl) ?_).2 hdenied
  intro past d₁ a d₂ ih hwritten hdenied
  obtain ⟨hbefore, hlast⟩ := List.forall_mem_append.mp hdenied
  have hsame := ih hbefore
  have ha := hlast _ (List.mem_singleton_self _)
  rw [← hsame] at hthere ha ⊢
  exact (hwritten.2 id).foreign hthere ha

/-- An item that is there all the time keeps its groups. -/
theorem Turns.kept (hstart : InOrder d) (h : Turns base readNumber d past d') {id : String}
    (hthere : ¬Vacant (itemOf d id))
    (hkept : ∀ t ∈ past,
      t.query.admin = false ∧ ¬Removes t.query id ∧ ¬Vacant (itemOf t.after id)) :
    SameGroups (itemOf d id) (itemOf d' id) ∧ ¬Vacant (itemOf d' id) := by
  refine (h.rule (P := fun past d' ↦ (∀ t ∈ past, t.query.admin = false ∧ ¬Removes t.query id ∧
    ¬Vacant (itemOf t.after id)) → SameGroups (itemOf d id) (itemOf d' id) ∧ ¬Vacant (itemOf d' id))
    hstart (fun _ ↦ ⟨.refl _, hthere⟩) ?_).2 hkept
  intro past d₁ a d₂ ih hwritten hkept
  obtain ⟨hbefore, hlast⟩ := List.forall_mem_append.mp hkept
  obtain ⟨hsame, hvacant⟩ := ih hbefore
  obtain ⟨hplain, hremoves, hafter⟩ := hlast _ (List.mem_singleton_self _)
  refine ⟨?_, hafter⟩
  rcases (hwritten.2 id).guarded hplain with hunchanged | hnull | ⟨-, -, hgroups⟩ | ⟨hcleared, -⟩
  · exact hunchanged ▸ hsame
  · exact absurd (Or.inl hnull) hafter
  · exact hsame.trans hgroups
  · rcases hcleared with hv | hr
    · exact absurd hv hvacant
    · exact absurd hr hremoves

/-- An item that was not there all the time is within the groups of a user who stored it. -/
theorem Turns.fresh (hstart : InOrder d) (h : Turns base readNumber d past d') {id : String}
    (hplain : ∀ t ∈ past, t.query.admin = false)
    (habsent : itemOf d id = .null ∨ ∃ t ∈ past, itemOf t.after id = .null) :
    itemOf d' id = .null ∨ ∃ t ∈ past, Within t.query.groups (itemOf d' id) := by
  refine (h.rule (P := fun past d' ↦ (∀ t ∈ past, t.query.admin = false) →
    (itemOf d id = .null ∨ ∃ t ∈ past, itemOf t.after id = .null) →
      itemOf d' id = .null ∨ ∃ t ∈ past, Within t.query.groups (itemOf d' id)) hstart ?_ ?_).2
    hplain habsent
  · rintro - (hnull | ⟨t, ht, -⟩)
    · exact Or.inl hnull
    · cases ht
  · intro past d₁ a d₂ ih hwritten hplain habsent
    obtain ⟨hbefore, hlast⟩ := List.forall_mem_append.mp hplain
    have ha := hlast _ (List.mem_singleton_self _)
    by_cases hgone : itemOf d₂ id = .null
    · exact Or.inl hgone
    -- the item was absent before this query
    have hearlier : itemOf d id = .null ∨ ∃ t ∈ past, itemOf t.after id = .null := by
      refine habsent.imp_right ?_
      rintro ⟨t, ht, hnull⟩
      rcases List.mem_append.mp ht with ht | ht
      · exact ⟨t, ht, hnull⟩
      · rw [List.mem_singleton.mp ht] at hnull
        exact absurd hnull hgone
    have hlater : ∀ {item : Json}, (∃ t ∈ past, Within t.query.groups item) →
        ∃ t ∈ past ++ [⟨a, d₁, d₂⟩], Within t.query.groups item := by
      rintro item ⟨t, ht, hwithin⟩
      exact ⟨t, List.mem_append_left _ ht, hwithin⟩
    right
    rcases (hwritten.2 id).guarded ha with hunchanged | hnull | ⟨hne, -, hgroups⟩ | ⟨-, hwithin⟩
    · rw [hunchanged] at hgone ⊢
      exact hlater ((ih hbefore hearlier).resolve_left hgone)
    · exact absurd hnull hgone
    · obtain ⟨t, ht, hwithin⟩ := (ih hbefore hearlier).resolve_left hne
      exact hlater ⟨t, ht, hgroups.within hwithin⟩
    · exact ⟨_, List.mem_append_right _ (List.mem_singleton_self _), hwithin⟩

/-- What may become of the groups of an item at all. -/
theorem Turns.either (hstart : InOrder d) (h : Turns base readNumber d past d') (id : String)
    (hplain : ∀ t ∈ past, t.query.admin = false) :
    itemOf d' id = .null ∨ SameGroups (itemOf d id) (itemOf d' id) ∨
      ∃ t ∈ past, Within t.query.groups (itemOf d' id) := by
  refine (h.rule (P := fun past d' ↦ (∀ t ∈ past, t.query.admin = false) → itemOf d' id = .null ∨
    SameGroups (itemOf d id) (itemOf d' id) ∨ ∃ t ∈ past, Within t.query.groups (itemOf d' id))
    hstart (fun _ ↦ Or.inr (Or.inl (.refl _))) ?_).2 hplain
  intro past d₁ a d₂ ih hwritten hplain
  obtain ⟨hbefore, hlast⟩ := List.forall_mem_append.mp hplain
  have hlater : ∀ {item : Json}, (∃ t ∈ past, Within t.query.groups item) →
      ∃ t ∈ past ++ [⟨a, d₁, d₂⟩], Within t.query.groups item := by
    rintro item ⟨t, ht, hwithin⟩
    exact ⟨t, List.mem_append_left _ ht, hwithin⟩
  rcases (hwritten.2 id).guarded (hlast _ (List.mem_singleton_self _)) with
    hunchanged | hnull | ⟨hne, -, hgroups⟩ | ⟨-, hwithin⟩
  · rw [hunchanged]
    exact (ih hbefore).imp_right (Or.imp_right hlater)
  · exact Or.inl hnull
  · right
    rcases (ih hbefore).resolve_left hne with hsame | ⟨t, ht, hwithin⟩
    · exact Or.inl (hsame.trans hgroups)
    · exact Or.inr (hlater ⟨t, ht, hgroups.within hwithin⟩)
  · exact Or.inr (Or.inr ⟨_, List.mem_append_right _ (List.mem_singleton_self _), hwithin⟩)

/-- Every query of a run leaves what it may leave. -/
theorem Turns.written (hstart : InOrder d) (h : Turns base readNumber d past d') :
    ∀ t ∈ past, Written base.dumpSize t.query t.before t.after := by
  refine (h.rule (P := fun past _ ↦ ∀ t ∈ past, Written base.dumpSize t.query t.before t.after)
    hstart (List.forall_mem_nil _) fun past d₁ a d₂ ih hwritten ↦ ?_).2
  exact List.forall_mem_append.mpr ⟨ih, List.forall_mem_singleton.mpr hwritten⟩

/-- An item that a batch removes and creates again is within the groups of the user. -/
theorem Turns.recreated (hstart : InOrder d) (h : Turns base readNumber d past d') (id : String)
    (hplain : ∀ t ∈ past, t.query.admin = false) :
    ∀ t ∈ past, Removes t.query id → itemOf t.after id = itemOf t.before id ∨
      itemOf t.after id = .null ∨ Within t.query.groups (itemOf t.after id) := by
  intro t ht hremoves
  rcases ((h.written hstart t ht).2 id).guarded (hplain t ht) with
    hunchanged | hnull | ⟨-, hkept, -⟩ | ⟨-, hwithin⟩
  · exact Or.inl hunchanged
  · exact Or.inr (Or.inl hnull)
  · exact absurd hremoves hkept
  · exact Or.inr (Or.inr hwithin)

/-- **Access over runs.** -/
theorem items_guarded (hstart : InOrder d) (h : Turns base readNumber d past d') (id : String) :
    (itemOf d id ≠ .null →
      (∀ t ∈ past, queryCanAccess (itemOf d id) t.query.groups t.query.admin = false) →
        itemOf d' id = itemOf d id) ∧
    ((∀ t ∈ past, t.query.admin = false) →
      (¬Vacant (itemOf d id) →
        (∀ t ∈ past, ¬Removes t.query id ∧ ¬Vacant (itemOf t.after id)) →
          SameGroups (itemOf d id) (itemOf d' id)) ∧
      ((itemOf d id = .null ∨ ∃ t ∈ past, itemOf t.after id = .null) →
        itemOf d' id = .null ∨ ∃ t ∈ past, Within t.query.groups (itemOf d' id)) ∧
      (∀ t ∈ past, Removes t.query id → itemOf t.after id = itemOf t.before id ∨
        itemOf t.after id = .null ∨ Within t.query.groups (itemOf t.after id)) ∧
      (itemOf d' id = .null ∨ SameGroups (itemOf d id) (itemOf d' id) ∨
        ∃ t ∈ past, Within t.query.groups (itemOf d' id))) := by
  refine ⟨h.foreign hstart, fun hplain ↦ ⟨fun hthere hkept ↦ ?_, h.fresh hstart hplain,
    h.recreated hstart id hplain, h.either hstart id hplain⟩⟩
  exact (h.kept hstart hthere fun t ht ↦ ⟨hplain t ht, hkept t ht⟩).1

end Run

/-- The note after the changes of a client. -/
def patchedNote : Json := (performQuery plainBackend branch ⟨noteDocument, []⟩).2.document

theorem note_guarded : SameGroups noteItem (itemOf patchedNote "note-1") := by
  have hrun : Turns silentBackend (fun _ ↦ none) noteDocument
      [⟨branch, noteDocument, patchedNote⟩] patchedNote :=
    .snoc .nil branch (by decide) ⟨id, fun _ ↦ ⟨rfl, rfl, rfl, rfl, .refl _, .refl _⟩⟩ [] rfl
  have hin : InOrder noteDocument := ⟨_, noteDocument_shows, fun _ _ h ↦ by cases h⟩
  exact ((items_guarded hin hrun "note-1").2 (by decide)).1 (by decide +kernel)
    (by decide +kernel)

/-! ## The run of one user -/

section OneUser

variable {base : Backend Storage} {readNumber : String → Option ℚ} {d d' : Json} {past : List Turn}

theorem queryCanAccess_of_disjoint {item : Json} {groups : List String}
    (h : ∀ group ∈ queryPermissionGroups item, group ∉ groups) :
    queryCanAccess item groups false = false := by
  rw [queryCanAccess, Bool.false_or, List.any_eq_false]
  exact fun group hgroup ↦ by simpa using h group hgroup

/-- **What one user may do to an item.** An item with none of the user's groups stays as it is, at
every moment. A query that neither removes an item nor finds a tombstone keeps its groups, and so
does a run in which the item is neither removed nor turned into a tombstone. What is created, or
removed and created again, has groups, all of them the user's. -/
theorem access_controlled (hstart : InOrder d) (h : Turns base readNumber d past d')
    {groups : List String}
    (huser : ∀ t ∈ past, t.query.groups = groups ∧ t.query.admin = false) (id : String) :
    ((itemOf d id ≠ .null → (∀ group ∈ queryPermissionGroups (itemOf d id), group ∉ groups) →
        itemOf d' id = itemOf d id) ∧
      ∀ t ∈ past, itemOf t.before id ≠ .null →
        (∀ group ∈ queryPermissionGroups (itemOf t.before id), group ∉ groups) →
          itemOf t.after id = itemOf t.before id) ∧
    ((¬Vacant (itemOf d id) →
        (∀ t ∈ past, ¬Removes t.query id ∧ ¬Vacant (itemOf t.after id)) →
          SameGroups (itemOf d id) (itemOf d' id)) ∧
      ∀ t ∈ past, ¬Vacant (itemOf t.before id) → ¬Removes t.query id →
        itemOf t.after id ≠ .null → SameGroups (itemOf t.before id) (itemOf t.after id)) ∧
    ((itemOf d id = .null ∨ ∃ t ∈ past, itemOf t.after id = .null) →
        itemOf d' id = .null ∨ Within groups (itemOf d' id)) ∧
      ∀ t ∈ past, itemOf t.before id = .null ∨ Removes t.query id →
        itemOf t.after id = itemOf t.before id ∨ itemOf t.after id = .null ∨
          Within groups (itemOf t.after id) := by
  have hplain : ∀ t ∈ past, t.query.admin = false := fun t ht ↦ (huser t ht).2
  have hdenied : ∀ {item : Json}, (∀ group ∈ queryPermissionGroups item, group ∉ groups) →
      ∀ t ∈ past, queryCanAccess item t.query.groups t.query.admin = false := by
    intro item hdisjoint t ht
    rw [(huser t ht).1, (huser t ht).2]
    exact queryCanAccess_of_disjoint hdisjoint
  -- what one query of the user may do to the item
  have hturn : ∀ t ∈ past, itemOf t.after id = itemOf t.before id ∨ itemOf t.after id = .null ∨
      (itemOf t.before id ≠ .null ∧ ¬Removes t.query id ∧
        SameGroups (itemOf t.before id) (itemOf t.after id)) ∨
      ((Vacant (itemOf t.before id) ∨ Removes t.query id) ∧ Within groups (itemOf t.after id)) := by
    intro t ht
    have hguarded := ((h.written hstart t ht).2 id).guarded (hplain t ht)
    rwa [(huser t ht).1] at hguarded
  refine ⟨⟨fun hthere hdisjoint ↦ h.foreign hstart hthere (hdenied hdisjoint), ?_⟩, ⟨?_, ?_⟩,
    ?_, ?_⟩
  · intro t ht hthere hdisjoint
    exact ((h.written hstart t ht).2 id).foreign hthere (hdenied hdisjoint t ht)
  · intro hthere hkept
    exact (h.kept hstart hthere fun t ht ↦ ⟨hplain t ht, hkept t ht⟩).1
  · intro t ht hthere hkept hleft
    rcases hturn t ht with hunchanged | hnull | ⟨-, -, hgroups⟩ | ⟨hcleared, -⟩
    · rw [hunchanged]
      exact .refl _
    · exact absurd hnull hleft
    · exact hgroups
    · exact absurd hcleared (not_or.mpr ⟨hthere, hkept⟩)
  · intro habsent
    refine (h.fresh hstart hplain habsent).imp_right ?_
    rintro ⟨t, ht, hwithin⟩
    rwa [(huser t ht).1] at hwithin
  · intro t ht hcleared
    rcases hturn t ht with hunchanged | hnull | ⟨hthere, hkept, -⟩ | ⟨-, hwithin⟩
    · exact Or.inl hunchanged
    · exact Or.inr (Or.inl hnull)
    · exact absurd hcleared (not_or.mpr ⟨hthere, hkept⟩)
    · exact Or.inr (Or.inr hwithin)

end OneUser

/-- A canvas with an item of others and two of the user's. -/
def draftDocument : Json :=
  .obj [("items", .obj [
    ("plan-1", .obj [("kind", .str "shape"), ("permission", .str "board")]),
    ("shape-1", .obj [("kind", .str "shape"), ("permission", .str "staff")]),
    ("shape-2", .obj [("kind", .str "shape"), ("permission", .str "staff")])])]

def drafter : Admitted := { sender with groups := ["staff", "guests"] }

/-- One item is moved, the other one is replaced by one for guests. -/
def redrafted : Admitted :=
  { drafter with
    event := .obj [("client_id", .str "tab"), ("request_count", .int 1), ("operations", .arr [
      .obj [("action", .str "patch"), ("id", .str "shape-1"), ("patch", .obj [("x", .int 3)])],
      .obj [("action", .str "delete"), ("id", .str "shape-2")],
      .obj [("action", .str "create"), ("id", .str "shape-2"),
        ("patch", .obj [("kind", .str "shape"), ("permission", .str "guests")])]])] }

/-- A single change of an item. -/
def crudUpdate (id : String) (item : Json) : Admitted :=
  { drafter with
    type := "crud"
    event := .obj [("type", .str "crud"), ("action", .str "update"), ("item_id", .str id),
      ("item", item)] }

def recolored : Admitted :=
  crudUpdate "shape-1"
    (.obj [("kind", .str "shape"), ("permission", .arr [.str "staff"]), ("color", .str "red")])

def afterQuery (a : Admitted) (d : Json) : Json := (performQuery plainBackend a ⟨d, []⟩).2.document

def redraftedDocument : Json := afterQuery redrafted draftDocument

def recoloredDocument : Json := afterQuery recolored redraftedDocument

theorem turns_two {a a' : Admitted} (ha : ItemQuery a) (ha' : ItemQuery a') (d : Json) :
    Turns silentBackend (fun _ ↦ none) d
      [⟨a, d, afterQuery a d⟩, ⟨a', afterQuery a d, afterQuery a' (afterQuery a d)⟩]
      (afterQuery a' (afterQuery a d)) :=
  .snoc (.snoc .nil a ha asVisited [] rfl) a' ha' asVisited [] rfl

theorem draftDocument_inOrder : InOrder draftDocument :=
  ⟨⟨0, fun _ ↦ none, fun id ↦ draftDocument.find (itemPath id)⟩,
    ⟨⟨_, rfl⟩, fun _ ↦ rfl, Or.inl ⟨rfl, rfl, fun _ ↦ rfl⟩⟩, fun _ _ h ↦ by cases h⟩

theorem access_controlled_drafts :
    itemOf recoloredDocument "plan-1" = itemOf draftDocument "plan-1" ∧
      SameGroups (itemOf draftDocument "shape-1") (itemOf recoloredDocument "shape-1") ∧
      Within ["staff", "guests"] (itemOf redraftedDocument "shape-2") := by
  have hturns := @turns_two redrafted recolored (by decide) (by decide) draftDocument
  have hcontrolled :=
    @access_controlled _ _ _ _ _ draftDocument_inOrder hturns ["staff", "guests"] (by decide)
  refine ⟨(hcontrolled "plan-1").1.1 (by decide) (by decide),
    (hcontrolled "shape-1").2.1.1 (by decide) (by decide +kernel), ?_⟩
  have hcreated := (hcontrolled "shape-2").2.2.2 _ List.mem_cons_self (Or.inr (by decide))
  exact (hcreated.resolve_left (by decide +kernel)).resolve_left (by decide +kernel)

/-- The item is turned into a tombstone, with its group, and an item for guests takes its place. -/
def buried : Admitted :=
  crudUpdate "shape-1" (.obj [("kind", .str "host-tombstone"), ("permission", .str "staff")])

def reused : Admitted :=
  { drafter with
    event := .obj [("client_id", .str "tab"), ("request_count", .int 1), ("operations", .arr [
      .obj [("action", .str "create"), ("id", .str "shape-1"),
        ("patch", .obj [("kind", .str "shape"), ("permission", .str "guests")])]])] }

/-- Both queries are accepted, neither removes the item, and it ends with other groups. -/
theorem access_controlled_buried :
    ∃ past d', Turns silentBackend (fun _ ↦ none) draftDocument past d' ∧
      (∀ t ∈ past, t.query.groups = ["staff", "guests"] ∧ t.query.admin = false ∧
        (∃ answer, (performQuery plainBackend t.query ⟨t.before, []⟩).1 = .ok answer) ∧
        ¬Removes t.query "shape-1" ∧ itemOf t.after "shape-1" ≠ .null) ∧
      ¬Vacant (itemOf draftDocument "shape-1") ∧ ¬Vacant (itemOf d' "shape-1") ∧
      ¬SameGroups (itemOf draftDocument "shape-1") (itemOf d' "shape-1") := by
  have hanswered : ∀ {a : Admitted} {d : Json},
      (performQuery plainBackend a ⟨d, []⟩).1.toBool = true →
        ∃ answer, (performQuery plainBackend a ⟨d, []⟩).1 = .ok answer := by
    intro a d h
    rcases hanswer : (performQuery plainBackend a ⟨d, []⟩).1 with _ | answer
    · rw [hanswer] at h
      exact absurd h Bool.false_ne_true
    · exact ⟨answer, rfl⟩
  refine ⟨_, _, @turns_two buried reused (by decide) (by decide) draftDocument,
    List.forall_mem_cons.mpr ⟨?_, List.forall_mem_singleton.mpr ?_⟩, by decide,
    by decide +kernel, fun hsame ↦ ?_⟩
  · exact ⟨rfl, rfl, hanswered (by decide +kernel), by decide, by decide +kernel⟩
  · exact ⟨rfl, rfl, hanswered (by decide +kernel), by decide, by decide +kernel⟩
  · exact absurd ((hsame "staff").mp (by decide)) (by decide +kernel)

/-! ## Chat rooms -/

/-- A chat room that is not a tombstone. -/
def Room (item : Json) : Prop :=
  isChatRoomItem item ∧ field? item "kind" ≠ some (.str "host-tombstone")

instance (item : Json) : Decidable (Room item) := inferInstanceAs (Decidable (_ ∧ _))

theorem isChatRoomItem_congr {item item' : Json} (h : field? item' "type" = field? item "type") :
    isChatRoomItem item' = isChatRoomItem item := by
  rw [isChatRoomItem, isChatRoomItem, h]

theorem isChatRoomItem_of_hasText {item : Json} (h : hasText item "type" "chat_room" = .ok false) :
    isChatRoomItem item = false := (hasText_ok (by decide) h).symm

variable {admin : Bool}

/-- Neither what is stored nor what it replaces is a chat room. -/
theorem queryUpdatedItem_rooms {previous input item : Json}
    (h : queryUpdatedItem previous input groups admin = .ok item) :
    isChatRoomItem previous = false ∧ isChatRoomItem item = false := by
  obtain rfl := queryUpdatedItem_eq h
  unfold queryUpdatedItem at h
  simp only [Checked.bind_ok, Checked.throwIf_ok, exists_const] at h
  obtain ⟨-, -, -, -, -, room, hroom, hno, old, hold, hnone, -⟩ := h
  exact ⟨isChatRoomItem_of_hasText (hnone ▸ hold), isChatRoomItem_of_hasText (hno ▸ hroom)⟩

/-- Edits are of items that are no chat rooms, and make none. -/
theorem Broker.Edit.rooms {change : Change} {item item' : Json}
    (h : Edit dumpSize groups admin change item item') :
    isChatRoomItem item = false ∧ isChatRoomItem item' = false := by
  have hstored : ∀ {old operation : Json}, storedItem dumpSize groups admin old operation
      = .ok item' → isChatRoomItem old = false ∧ isChatRoomItem item' = false := by
    intro old operation hstored
    unfold storedItem at hstored
    simp only [Checked.bind_ok] at hstored
    obtain ⟨patched, -, _, -, updated, hupdated, kind, -, hstored⟩ := hstored
    refine (queryUpdatedItem_rooms hupdated).imp_right fun hno ↦ ?_
    split at hstored
    · exact (isChatRoomItem_congr
        ((mergeHistory_ok hstored).2.1 _ (by decide) (by decide))).trans hno
    · exact Checked.pure_ok.mp hstored ▸ hno
  rcases h with ⟨-, -, room, moved, -⟩ | ⟨room⟩ | ⟨stored⟩ | ⟨-, stored⟩
  · have hno := isChatRoomItem_of_hasText room
    exact ⟨hno, (isChatRoomItem_congr
      (translateItem_fields moved (by decide) (by decide) (by decide))).trans hno⟩
  · exact ⟨isChatRoomItem_of_hasText room, rfl⟩
  · exact hstored stored
  · exact hstored stored

theorem Broker.Edits.rooms {changes : List Change} {start item : Json}
    (h : Edits dumpSize groups admin changes start item) :
    changes = [] ∧ item = start ∨ isChatRoomItem start = false ∧ isChatRoomItem item = false := by
  induction h with
  | nil item => exact Or.inl ⟨rfl, rfl⟩
  | snoc _ hedit ih =>
    rcases ih with ⟨-, rfl⟩ | ⟨hstart, -⟩
    · exact Or.inr hedit.rooms
    · exact Or.inr ⟨hstart, hedit.rooms.2⟩

theorem visibleItem_room {old start : Json} (h : visibleItem old = .ok start) :
    Room old → isChatRoomItem start := by
  rintro ⟨hroom, hkind⟩
  unfold visibleItem at h
  obtain ⟨tombstone, htombstone, h⟩ := Checked.bind_ok.mp h
  split at h
  · next hvacant =>
    rw [hasText_ok (by decide) htombstone, decide_eq_false hkind, Bool.false_or] at hvacant
    rcases old
    all_goals first | exact absurd hroom (by decide) | exact absurd hvacant Bool.false_ne_true
  · obtain ⟨dropped, hdropped, h⟩ := Checked.bind_ok.mp h
    rw [← hroom]
    refine isChatRoomItem_congr ?_
    rw [field?_eraseKey h, if_neg (by decide), field?_eraseKey hdropped, if_neg (by decide)]

theorem stamp_room (revision : ℤ) {item : Json} (hitem : Itemlike item)
    (h : isChatRoomItem item = false) :
    isChatRoomItem ((stamp revision item).getD .null) = false := by
  rcases hitem with rfl | hobject
  · rfl
  · rcases item
    case obj fields =>
      refine (isChatRoomItem_congr ?_).trans h
      rw [stamp, Option.getD_some, field?_obj, field?_obj]
      exact Assoc.lookup_set_of_ne (by decide) _ _
    all_goals exact absurd hobject Bool.false_ne_true

/-- A query leaves chat rooms alone, and makes none. -/
theorem Origin.rooms {a : Admitted} {id : String} {old item : Json}
    (h : Origin dumpSize a id old item) :
    (Room old → item = old) ∧ (isChatRoomItem old = false → isChatRoomItem item = false) := by
  rcases h with _ | @⟨start, v, -, -, hvisible, hasked, hedits, revision⟩ | ⟨-, -, hroom⟩ |
    ⟨-, hchecked, hsame⟩
  · exact ⟨fun _ ↦ rfl, fun h ↦ h⟩
  · obtain ⟨hstart, hv⟩ := hedits.rooms.resolve_left fun hnone ↦ hasked hnone.1
    have hlike := Edits.itemlike (visibleItem_itemlike hvisible) hedits
    refine ⟨fun hroom ↦ ?_, fun _ ↦ stamp_room revision hlike hv⟩
    exact absurd (visibleItem_room hvisible hroom) (by rw [hstart]; exact Bool.false_ne_true)
  · exact ⟨fun h ↦ absurd h.1 (by rw [hroom]; exact Bool.false_ne_true), fun _ ↦ rfl⟩
  · obtain ⟨hold, hitem⟩ := queryUpdatedItem_rooms hchecked
    refine ⟨fun h ↦ absurd h.1 (by rw [hold]; exact Bool.false_ne_true), fun _ ↦ ?_⟩
    exact (isChatRoomItem_congr (hsame "type" (by decide) (by decide))).trans hitem

/-- **Rooms.** Whoever changes items in a run, an administrator too, and whatever becomes of the
calls: every chat room is as it was, and nothing else has become one. -/
theorem rooms_untouched {base : Backend Storage} {readNumber : String → Option ℚ} {d d' : Json}
    {past : List Turn} (hstart : InOrder d) (h : Turns base readNumber d past d') (id : String) :
    (Room (itemOf d id) → itemOf d' id = itemOf d id) ∧
      (isChatRoomItem (itemOf d id) = false → isChatRoomItem (itemOf d' id) = false) := by
  refine (h.rule (P := fun _ d' ↦ (Room (itemOf d id) → itemOf d' id = itemOf d id) ∧
    (isChatRoomItem (itemOf d id) = false → isChatRoomItem (itemOf d' id) = false)) hstart
    ⟨fun _ ↦ rfl, fun h ↦ h⟩ ?_).2
  intro past d₁ a d₂ ih hwritten
  obtain ⟨hkept, hnone⟩ := (hwritten.2 id).rooms
  refine ⟨fun hroom ↦ ?_, fun hno ↦ hnone (ih.2 hno)⟩
  have hsame := ih.1 hroom
  rw [← hsame] at hroom ⊢
  exact hkept hroom

/-- A canvas with a room, and an administrator who wants to remove it. -/
def roomDocument : Json :=
  .obj [("items", .obj [("room-1", .obj [("type", .str "chat_room"), ("permission", .str "staff"),
    ("data", .arr [])])])]

def roomRemoval : Admitted :=
  { sender with
    admin := true
    type := "crud"
    event := .obj [("type", .str "crud"), ("action", .str "delete"), ("item_id", .str "room-1")] }

theorem room_kept :
    itemOf (performQuery plainBackend roomRemoval ⟨roomDocument, []⟩).2.document "room-1"
      = itemOf roomDocument "room-1" := by
  have hshows : Shows roomDocument ⟨0, fun _ ↦ none, fun id ↦ roomDocument.find (itemPath id)⟩ :=
    ⟨⟨_, rfl⟩, fun id ↦ rfl, Or.inl ⟨rfl, rfl, fun _ ↦ rfl⟩⟩
  have hin : InOrder roomDocument := ⟨_, hshows, fun _ _ h ↦ by cases h⟩
  have hturns : Turns silentBackend (fun _ ↦ none) roomDocument [⟨roomRemoval, _, _⟩] _ :=
    .snoc .nil roomRemoval (by decide) ⟨id, fun _ ↦ ⟨rfl, rfl, rfl, rfl, .refl _, .refl _⟩⟩ [] rfl
  exact (rooms_untouched hin hturns "room-1").1 (by decide)

end Agora
