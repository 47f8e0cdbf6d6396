import Agora.Settings.Document
import Agora.Settings.Membership

/-!
# The members of a document

The people and the groups of a document stand for a membership. A change of the settings makes
someone join or leave, or it leaves the members alone; it does not open a canvas with a password,
or give a password to an open canvas.
-/

namespace Agora

namespace Settings

open Snapshot (Fields passwordField)

variable {hashCanvasPassword : String → Option String} {doc doc' changes : Fields} {u : Update}

/-! ## What an update leaves -/

/-- The fields that a change may set, apart from the revision. -/
def editableFields : List String :=
  ["visibility", "canvas-name", "description", passwordField, "people", "inner-group"]

theorem Planned.editable (h : Planned hashCanvasPassword doc changes) :
    ∀ k ∈ changes.map Prod.fst, k ∈ editableFields := by
  cases h <;> simp [editableFields]

theorem Planned.nodup (h : Planned hashCanvasPassword doc changes) :
    (changes.map Prod.fst).Nodup := by
  cases h <;> simp

theorem nodup_fields (h : Planned hashCanvasPassword doc u.changes) :
    (u.fields.map Prod.fst).Nodup := by
  rw [Update.fields, List.map_append]
  refine h.nodup.append (List.nodup_singleton _) ?_
  rw [List.map_singleton, List.disjoint_singleton]
  intro hmem
  have hrevision : "settings-revision" ∈ editableFields := h.editable _ hmem
  exact absurd hrevision (by decide)

theorem mem_fields_iff {k : String} (hk : k ≠ "settings-revision") :
    k ∈ u.fields.map Prod.fst ↔ k ∈ u.changes.map Prod.fst := by
  simp [Update.fields, hk]

theorem lookup_updated (h : Planned hashCanvasPassword doc u.changes) (k : String) :
    u.updated.lookup k = (u.fields.lookup k).or (u.doc.lookup k) :=
  lookup_setFields (nodup_fields h) u.doc k

/-- A field that is not changed, or not the revision, as an update leaves it. -/
theorem lookup_updated_of_ne (h : Planned hashCanvasPassword doc u.changes) {k : String}
    (hk : k ≠ "settings-revision") :
    u.updated.lookup k = (u.changes.lookup k).or (u.doc.lookup k) := by
  rw [lookup_updated h, Update.fields, List.lookup_append, Assoc.lookup_cons_of_ne hk.symm]
  simp

theorem lookup_map_key (g : String → Json) (l : Fields) (k : String) :
    (l.map fun e ↦ (e.1, g e.1)).lookup k = if k ∈ l.map Prod.fst then some (g k) else none := by
  induction l with
  | nil => rfl
  | cons e l ih =>
    by_cases hk : e.1 = k
    · subst hk
      rw [List.map_cons, List.lookup_cons_self, if_pos (by simp)]
    · rw [List.map_cons, Assoc.lookup_cons_of_ne hk, ih]
      have hmem : k ∈ (e :: l).map Prod.fst ↔ k ∈ l.map Prod.fst := by simp [Ne.symm hk]
      by_cases hin : k ∈ l.map Prod.fst
      · rw [if_pos hin, if_pos (hmem.mpr hin)]
      · rw [if_neg hin, if_neg fun hin' ↦ hin (hmem.mp hin')]

theorem patch_perm (u : Update) : (u.patch.map Prod.fst).Perm (u.fields.map Prod.fst) :=
  (Json.sortedFields_perm u.fields).map Prod.fst

theorem lookup_restore (u : Update) (k : String) : u.restore.lookup k =
    if k ∈ u.fields.map Prod.fst then
      some (if k = "settings-revision" then .int u.revision else (u.doc.lookup k).getD .null)
    else none := by
  have hrestore := lookup_map_key
    (fun name ↦ if name = "settings-revision" then .int u.revision
      else (u.doc.lookup name).getD .null) u.patch k
  refine hrestore.trans ?_
  by_cases hin : k ∈ u.fields.map Prod.fst
  · rw [if_pos hin, if_pos ((patch_perm u).mem_iff.mpr hin)]
  · rw [if_neg hin, if_neg fun hin' ↦ hin ((patch_perm u).mem_iff.mp hin')]

/-- A field after the fields have been put back. -/
theorem lookup_setFields_restore (h : Planned hashCanvasPassword doc u.changes) (k : String) :
    (setFields u.updated u.restore).lookup k = (u.restore.lookup k).or (u.updated.lookup k) := by
  refine lookup_setFields ?_ _ k
  have hmap : u.restore.map Prod.fst = u.patch.map Prod.fst := by
    simp [Update.restore, Function.comp_def]
  rw [hmap, (patch_perm u).nodup_iff]
  exact nodup_fields h

/-- A field after it has been put back: as it was, or null when it was not there. -/
theorem lookup_restored (h : Planned hashCanvasPassword doc u.changes) {k : String}
    (hk : k ≠ "settings-revision") :
    (setFields u.updated u.restore).lookup k =
      if k ∈ u.changes.map Prod.fst then some ((u.doc.lookup k).getD .null)
      else u.doc.lookup k := by
  rw [lookup_setFields_restore h, lookup_restore, if_neg hk]
  by_cases hin : k ∈ u.changes.map Prod.fst
  · rw [if_pos ((mem_fields_iff hk).mpr hin), if_pos hin]
    rfl
  · have hnone : u.changes.lookup k = none := by
      rwa [← Option.not_isSome_iff_eq_none, Assoc.lookup_isSome_iff]
    rw [if_neg fun hin' ↦ hin ((mem_fields_iff hk).mp hin'), if_neg hin, Option.none_or,
      lookup_updated_of_ne h hk, hnone, Option.none_or]

theorem nodup_outcomes (hdoc : (u.doc.map Prod.fst).Nodup) :
    ∀ doc ∈ u.outcomes, (doc.map Prod.fst).Nodup := by
  have hupdated : (u.updated.map Prod.fst).Nodup := nodup_setFields hdoc _
  intro doc hmem
  simp only [Update.outcomes, List.mem_cons, List.not_mem_nil, or_false] at hmem
  rcases hmem with rfl | rfl | rfl
  · exact hdoc
  · exact hupdated
  · exact nodup_setFields hupdated _

/-- Field by field, what an update leaves is what was there, or what it puts there. -/
theorem lookup_outcomes (h : Planned hashCanvasPassword u.doc u.changes) {k : String}
    (hk : k ≠ "settings-revision") : ∀ doc ∈ u.outcomes,
      doc.lookup k = u.doc.lookup k ∨ doc.lookup k = (u.changes.lookup k).or (u.doc.lookup k) ∨
        k ∈ u.changes.map Prod.fst ∧ u.doc.lookup k = none ∧ doc.lookup k = some .null := by
  intro doc hmem
  simp only [Update.outcomes, List.mem_cons, List.not_mem_nil, or_false] at hmem
  rcases hmem with rfl | rfl | rfl
  · exact Or.inl rfl
  · exact Or.inr (Or.inl (lookup_updated_of_ne h hk))
  · rw [lookup_restored h hk]
    split_ifs with hchanged
    · rcases hlookup : u.doc.lookup k with _ | v
      · exact Or.inr (Or.inr ⟨hchanged, rfl, rfl⟩)
      · exact Or.inl rfl
    · exact Or.inl rfl

/-! ## Members -/

def ofMembers (members : List ℤ) : Json := .arr (members.map .int)

/-- The members of a document. -/
structure Represents (m : Membership ℤ String "admin-group") (doc : Fields) : Prop where
  owner : doc.lookup "admin-user-id" = some (.int m.owner)
  people : doc.lookup "people" = some (ofMembers m.people)
  groups : ∃ groups, doc.lookup "inner-group" = some (.obj groups) ∧
    (groups.map Prod.fst).Nodup ∧ ∀ g, groups.lookup g = (m.groups g).map ofMembers

theorem Represents.congr {m : Membership ℤ String "admin-group"} (h : Represents m doc)
    (howner : doc'.lookup "admin-user-id" = doc.lookup "admin-user-id")
    (hpeople : doc'.lookup "people" = doc.lookup "people")
    (hgroups : doc'.lookup "inner-group" = doc.lookup "inner-group") : Represents m doc' :=
  ⟨howner.trans h.owner, hpeople.trans h.people, by rw [hgroups]; exact h.groups⟩

theorem isUser_self {target : ℤ} (h : ∃ n, target = Json.wrap 32 n) :
    isUser target (.int target) := by
  obtain ⟨n, rfl⟩ := h
  refine decide_eq_true ?_
  unfold Json.wrap
  omega

theorem mem_people_of_isUser {m : Membership ℤ String "admin-group"} (h : Represents m doc)
    {target : ℤ} (hself : isUser target (.int target)) (hmem : target ∈ m.people) :
    isCanvasParticipant (.obj doc) target := by
  rw [isCanvasParticipant, field?_obj, h.people]
  exact List.any_eq_true.mpr ⟨.int target, List.mem_map_of_mem hmem, hself⟩

theorem withoutUser_ofMembers (target : ℤ) (members : List ℤ) :
    withoutUser target (members.map Json.int)
      = (members.filter fun n ↦ !isUser target (.int n)).map .int := by
  rw [withoutUser, List.filter_map]
  rfl

theorem lookup_map_value (f : Json → Json) (l : Fields) (k : String) :
    (l.map fun e ↦ (e.1, f e.2)).lookup k = (l.lookup k).map f := by
  induction l with
  | nil => rfl
  | cons e l ih =>
    by_cases hk : e.1 = k
    · subst hk
      rw [List.map_cons, List.lookup_cons_self]
      exact (congrArg (Option.map f) (List.lookup_cons_self ..)).symm
    · rw [List.map_cons, Assoc.lookup_cons_of_ne hk, ih, ← Assoc.lookup_cons_of_ne hk e.2 l]

/-- A group without a user. -/
def memberWithoutUser (target : ℤ) : Json → Json
  | .arr members => .arr (withoutUser target members)
  | members => members

theorem lookup_withoutUser (target : ℤ) (groups : Fields) (g : String) :
    (groupsWithoutUser target groups).lookup g = (groups.lookup g).map (memberWithoutUser target) :=
  lookup_map_value (memberWithoutUser target) groups g

theorem lookup_groupsWithoutUser (target : ℤ) {groups : Fields}
    {members : String → Option (List ℤ)} (h : ∀ g, groups.lookup g = (members g).map ofMembers)
    (g : String) : (groupsWithoutUser target groups).lookup g =
      ((members g).map fun l ↦ l.filter fun n ↦ !isUser target (.int n)).map ofMembers := by
  rw [lookup_withoutUser, h]
  rcases members g with _ | l
  · rfl
  · simp only [Option.map_some, memberWithoutUser, ofMembers, withoutUser_ofMembers]

theorem groupMembers_ofMembers {groups : Fields} {members : String → Option (List ℤ)}
    (h : ∀ g, groups.lookup g = (members g).map ofMembers) (g : String) :
    groupMembers groups g = ((members g).getD []).map .int := by
  rw [groupMembers, h]
  rcases members g with _ | l <;> rfl

/-- The members that an update leaves; the owner stays. -/
theorem Represents.updated {m : Membership ℤ String "admin-group"} (h : Represents m u.doc)
    (hplanned : Planned hashCanvasPassword u.doc u.changes) :
    ∃ m', m'.owner = m.owner ∧ Represents m' u.updated := by
  have hlookup (k : String) (hk : k ≠ "settings-revision") := lookup_updated_of_ne hplanned hk
  have howner : u.updated.lookup "admin-user-id" = u.doc.lookup "admin-user-id" := by
    rw [hlookup _ (by decide)]
    have hnone : u.changes.lookup "admin-user-id" = none := by
      rw [← Option.not_isSome_iff_eq_none, Assoc.lookup_isSome_iff]
      exact fun hmem ↦ absurd (hplanned.editable _ hmem) (by decide)
    rw [hnone, Option.none_or]
  obtain ⟨groups, hgroups, hnodup, hmembers⟩ := h.groups
  have hpeopleLookup := hlookup "people" (by decide)
  have hgroupsLookup := hlookup "inner-group" (by decide)
  generalize u.changes = changes at hplanned hpeopleLookup hgroupsLookup
  cases hplanned with
  | visibility | name | description | unprotect | protect =>
    exact ⟨m, rfl, h.congr howner hpeopleLookup hgroupsLookup⟩
  | add target htarget people hpeople groups' hgroups' group hnew =>
    obtain rfl := Json.obj.inj (Option.some.inj (hgroups.symm.trans hgroups'))
    obtain rfl := Json.arr.inj (Option.some.inj (h.people.symm.trans hpeople))
    have hu : target ∉ m.people := fun hmem ↦ by
      rw [mem_people_of_isUser h (isUser_self htarget) hmem] at hnew
      nomatch hnew
    refine ⟨m.join target hu group, rfl, howner.trans h.owner, hpeopleLookup.trans ?_, _,
      hgroupsLookup, Assoc.nodup_set hnodup _ _, fun g ↦ ?_⟩
    · simp [Membership.join, ofMembers, List.lookup_cons_self]
    · rw [Assoc.lookup_set]
      split_ifs with hg
      · subst hg
        rw [groupMembers_ofMembers hmembers]
        simp [Membership.join, ofMembers]
      · rw [hmembers]
        simp [Membership.join, Function.update_of_ne (Ne.symm hg)]
  | remove target people hpeople groups' hgroups' hnotOwner =>
    obtain rfl := Json.obj.inj (Option.some.inj (hgroups.symm.trans hgroups'))
    obtain rfl := Json.arr.inj (Option.some.inj (h.people.symm.trans hpeople))
    have hstays : (!isUser target (.int m.owner)) = true := by
      rw [isOwner, field?_obj, h.owner] at hnotOwner
      simpa using hnotOwner
    refine ⟨m.leave (fun n ↦ !isUser target (.int n)) hstays, rfl, howner.trans h.owner,
      hpeopleLookup.trans ?_, _, hgroupsLookup, ?_, fun g ↦ ?_⟩
    · simp [Membership.leave, ofMembers, withoutUser_ofMembers, List.lookup_cons_self]
    · simpa [groupsWithoutUser, Function.comp_def] using hnodup
    · exact lookup_groupsWithoutUser target hmembers g

/-- The members after an update, whatever became of it. -/
theorem Represents.outcomes {m : Membership ℤ String "admin-group"} (h : Represents m u.doc)
    (hplanned : Planned hashCanvasPassword u.doc u.changes) :
    ∀ doc ∈ u.outcomes, ∃ m', m'.owner = m.owner ∧ Represents m' doc := by
  intro doc hmem
  simp only [Update.outcomes, List.mem_cons, List.not_mem_nil, or_false] at hmem
  rcases hmem with rfl | rfl | rfl
  · exact ⟨m, rfl, h⟩
  · exact h.updated hplanned
  · have hsame {k : String} {v : Json} (hk : k ≠ "settings-revision")
        (hv : u.doc.lookup k = some v) :
        (setFields u.updated u.restore).lookup k = u.doc.lookup k := by
      rw [lookup_restored hplanned hk, hv]
      split_ifs <;> rfl
    obtain ⟨groups, hgroups, -⟩ := h.groups
    exact ⟨m, rfl, h.congr (hsame (by decide) h.owner) (hsame (by decide) h.people)
      (hsame (by decide) hgroups)⟩

/-! ## Open canvases -/

theorem isProtected_congr (h : doc'.lookup passwordField = doc.lookup passwordField) :
    isProtected (.obj doc') = isProtected (.obj doc) := by
  have hfield :
      field? (.obj doc') "canvas-password-hash" = field? (.obj doc) "canvas-password-hash" :=
    h
  unfold isProtected
  rw [hfield]

/-- A canvas is open when it is public and has no password. -/
theorem canvasIsPublic_iff (hhashed : Hashed doc) : canvasIsPublic (.obj doc) ↔
    doc.lookup "visibility" = some (.str "public") ∧ isProtected (.obj doc) = false := by
  obtain ⟨v, hv, hpassword⟩ := hhashed.password
  have hfield : field? (.obj doc) "canvas-password-hash" = some v := hv
  unfold canvasIsPublic isProtected
  rw [hfield, field?_obj, Bool.and_eq_true, decide_eq_true_iff]
  rcases hpassword with rfl | ⟨s, rfl, -⟩ <;> simp

/-- A canvas is not opened while it has a password, and an open one gets none. -/
theorem not_public_and_protected (hplanned : Planned hashCanvasPassword u.doc u.changes)
    (hhashed : Hashed u.doc)
    (h : ¬(u.doc.lookup "visibility" = some (.str "public") ∧ isProtected (.obj u.doc))) :
    ∀ doc ∈ u.outcomes,
      ¬(doc.lookup "visibility" = some (.str "public") ∧ isProtected (.obj doc)) := by
  obtain ⟨v, hv, -⟩ := hhashed.password
  intro doc hmem
  have hvisibility :=
    lookup_outcomes hplanned (by decide : "visibility" ≠ "settings-revision") doc hmem
  have hpassword :=
    lookup_outcomes hplanned (by decide : passwordField ≠ "settings-revision") doc hmem
  -- Either field is as it was, or as the change has it.
  replace hvisibility : doc.lookup "visibility" = some (.str "public") →
      u.doc.lookup "visibility" = some (.str "public") ∨
        u.changes.lookup "visibility" = some (.str "public") := by
    intro hpublic
    rcases hvisibility with heq | heq | ⟨-, -, heq⟩
    · exact Or.inl (heq ▸ hpublic)
    · rw [heq] at hpublic
      rcases hchange : u.changes.lookup "visibility" with _ | w
      · rw [hchange] at hpublic
        exact Or.inl hpublic
      · rw [hchange] at hpublic
        exact Or.inr hpublic
    · rw [heq] at hpublic
      nomatch hpublic
  replace hpassword : doc.lookup passwordField = u.doc.lookup passwordField ∨
      doc.lookup passwordField = u.changes.lookup passwordField ∧
        (u.changes.lookup passwordField).isSome := by
    rcases hpassword with heq | heq | ⟨-, hnone, -⟩
    · exact Or.inl heq
    · rcases hchange : u.changes.lookup passwordField with _ | w
      · rw [hchange] at heq
        exact Or.inl heq
      · rw [hchange] at heq
        exact Or.inr ⟨heq, rfl⟩
    · rw [hnone] at hv
      nomatch hv
  rintro ⟨hpublic, hprotected⟩
  generalize u.changes = changes at hplanned hvisibility hpassword
  have hkept (hnone : changes.lookup passwordField = none) :
      isProtected (.obj u.doc) = true := by
    rw [hnone] at hpassword
    rw [← isProtected_congr (hpassword.resolve_right fun hsome ↦ nomatch hsome.2)]
    exact hprotected
  cases hplanned with
  | visibility value hvalue hopen =>
    have hstill := hkept rfl
    refine (hvisibility hpublic).elim (fun hbefore ↦ h ⟨hbefore, hstill⟩) fun hchange ↦ ?_
    rw [hopen (Json.str.inj (Option.some.inj hchange))] at hstill
    nomatch hstill
  | name | description | add | remove =>
    exact h ⟨(hvisibility hpublic).resolve_right nofun, hkept rfl⟩
  | unprotect =>
    have hbefore := (hvisibility hpublic).resolve_right nofun
    refine hpassword.elim (fun heq ↦ h ⟨hbefore, ?_⟩) fun hchange ↦ ?_
    · rw [← isProtected_congr heq]
      exact hprotected
    · have hnull : isProtected (.obj doc) = isProtected (.obj [(passwordField, .null)]) :=
        isProtected_congr hchange.1
      rw [hnull] at hprotected
      nomatch hprotected
  | protect value hash hhash hclosed =>
    have hbefore := (hvisibility hpublic).resolve_right nofun
    have hunprotected : isProtected (.obj u.doc) = false := by
      rw [← Bool.not_eq_true]
      exact fun htrue ↦ h ⟨hbefore, htrue⟩
    rw [(canvasIsPublic_iff hhashed).mpr ⟨hbefore, hunprotected⟩] at hclosed
    nomatch hclosed

end Settings

end Agora
