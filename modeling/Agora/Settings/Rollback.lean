import Agora.Settings.Members
import Agora.Settings.Migration

/-!
# Taking an update back

When the snapshot store does not confirm an update, the fields are put back in both places. Putting
a field back gives it its old value, or null when it was not there; in the snapshot store an object
that is put back takes nothing away from what the update has added below it. What was there before
the update is there again exactly when neither of this matters.
-/

namespace Agora

namespace Settings

open Snapshot (Fields passwordField normalizePassword setPassword)

variable {server : Server} {directory : List Fault → Directory} {canvasId : ℤ} {u : Update}
  {hashCanvasPassword : String → Option String} {doc fields source : Fields}
  {s t s' : Store}

/-! ## The writes -/

/-- An update is written to memory, reported as failed by the snapshot store, and put back in
both. -/
def PutBack (server : Server) (directory : List Fault → Directory) (canvasId : ℤ) (u : Update)
    (s s' : Store) : Prop :=
  ∃ s₁ s₂ s₃,
    (settingsBackend server directory).compareAndSetFields canvasId u.revision u.fields s
      = (.applied, s₁) ∧
    (settingsBackend server directory).patchCanvasFields canvasId u.patch s₁ = (false, s₂) ∧
    (settingsBackend server directory).compareAndSetFields canvasId u.nextRevision u.restore s₂
      = (.applied, s₃) ∧
    (settingsBackend server directory).patchCanvasFields canvasId u.restore s₃ = (true, s')

theorem call_bind_of_run {α β : Type} {x : StateM Store α} {a : α} (h : x s = (a, t))
    (f : α → Query Store β) : (liftM x >>= f : Query Store β) s = f a t :=
  Query.bind_of_ok (by rw [Query.call_run, h]) f

theorem PutBack.rollBack {s₁ s₂ s₃ : Store}
    (hback : (settingsBackend server directory).compareAndSetFields canvasId u.nextRevision
      u.restore s₁ = (.applied, s₂))
    (hrestore : (settingsBackend server directory).patchCanvasFields canvasId u.restore s₂
      = (true, s₃)) :
    Settings.rollBack (settingsBackend server directory) canvasId u s₁ = ((), s₃) := by
  unfold Settings.rollBack
  rw [StateT.bind_of_run hback, StateT.bind_of_run hrestore]
  rfl

/-- Where the task ends. -/
theorem PutBack.commitSettings (h : PutBack server directory canvasId u s s') (requestId : String) :
    (commitSettings (settingsBackend server directory) canvasId requestId u s).2 = s' := by
  obtain ⟨s₁, s₂, s₃, hset, hpatch, hback, hrestore⟩ := h
  unfold Settings.commitSettings
  rw [call_bind_of_run hset]
  dsimp only
  rw [call_bind_of_run hpatch, if_neg Bool.false_ne_true,
    call_bind_of_run (PutBack.rollBack hback hrestore)]
  rfl

/-- A write to memory that is confirmed. -/
theorem compareAndSet_applied {revision : ℤ}
    (h : (settingsBackend server directory).compareAndSetFields canvasId revision fields s
      = (.applied, s')) :
    s.faults.headD .answered = .answered ∧ ∃ doc, s.document = some doc ∧
      s' = { s with document := some (setFields doc fields), faults := s.faults.tail } := by
  change Store.acting .error (compareAndSetJsonPaths server.readNumber revision fields) s = _ at h
  unfold Store.acting at h
  rcases hfault : s.faults.headD .answered with _ | _ | _
  · rw [hfault] at h
    refine ⟨rfl, ?_⟩
    unfold compareAndSetJsonPaths at h
    rcases hdoc : s.document with _ | doc
    · simp only [hdoc] at h
      nomatch (Prod.mk.inj h).1
    · simp only [hdoc] at h
      split_ifs at h
      · exact ⟨doc, rfl, (Prod.mk.inj h).2.symm⟩
      · nomatch (Prod.mk.inj h).1
  · rw [hfault] at h
    nomatch (Prod.mk.inj h).1
  · rw [hfault] at h
    nomatch (Prod.mk.inj h).1

/-- A partial update that is confirmed. -/
theorem patch_confirmed {old : Fields}
    (hsource : s.index.lookup (toString canvasId) = some (.obj old))
    (h : (settingsBackend server directory).patchCanvasFields canvasId fields s = (true, s')) :
    ∃ new, normalizePassword server.hashCanvasPassword fields = some new ∧
      s' = { s with
        index := Assoc.set (toString canvasId) (.obj (Json.mergeFields old new)) s.index
        faults := s.faults.tail } := by
  change patchCanvasFields server.hashCanvasPassword documentStore server.index canvasId fields s
    = _ at h
  unfold patchCanvasFields at h
  split_ifs at h
  · nomatch (Prod.mk.inj h).1
  rcases hnew : normalizePassword server.hashCanvasPassword fields with _ | new
  · rw [hnew] at h
    nomatch (Prod.mk.inj h).1
  · rw [hnew] at h
    refine ⟨new, rfl, ?_⟩
    dsimp only [documentStore] at h
    unfold Store.acting at h
    rcases hfault : s.faults.headD .answered with _ | _ | _
    · simp only [hfault, hsource] at h
      exact (Prod.mk.inj h).2.symm
    · rw [hfault] at h
      nomatch (Prod.mk.inj h).1
    · rw [hfault] at h
      nomatch (Prod.mk.inj h).1

/-- A partial update that is reported as failed has been made if and only if its reply was lost. -/
theorem patch_failed {old : Fields} (hsource : s.index.lookup (toString canvasId) = some (.obj old))
    (h : (settingsBackend server directory).patchCanvasFields canvasId fields s = (false, s'))
    (hnext : s'.faults.headD .answered = .answered) :
    s.faults.headD .answered ≠ .lost ∧ s' = { s with faults := s'.faults } ∨
      s.faults.headD .answered = .lost ∧
        ∃ new, normalizePassword server.hashCanvasPassword fields = some new ∧
          s' = { s with
            index := Assoc.set (toString canvasId) (.obj (Json.mergeFields old new)) s.index
            faults := s'.faults } := by
  change patchCanvasFields server.hashCanvasPassword documentStore server.index canvasId fields s
    = _ at h
  unfold patchCanvasFields at h
  have hnotCalled (heq : s' = s) :
      s.faults.headD .answered ≠ .lost ∧ s' = { s with faults := s'.faults } := by
    subst heq
    exact ⟨fun hlost ↦ absurd (hnext.symm.trans hlost) nofun, rfl⟩
  split_ifs at h
  · exact Or.inl (hnotCalled (Prod.mk.inj h).2.symm)
  rcases hnew : normalizePassword server.hashCanvasPassword fields with _ | new
  · rw [hnew] at h
    exact Or.inl (hnotCalled (Prod.mk.inj h).2.symm)
  · rw [hnew] at h
    dsimp only [documentStore] at h
    unfold Store.acting at h
    rcases hfault : s.faults.headD .answered with _ | _ | _
    · simp only [hfault, hsource] at h
      nomatch (Prod.mk.inj h).1
    · rw [hfault] at h
      rw [← (Prod.mk.inj h).2]
      exact Or.inl ⟨nofun, rfl⟩
    · simp only [hfault, hsource] at h
      rw [← (Prod.mk.inj h).2]
      exact Or.inr ⟨rfl, new, rfl, rfl⟩

/-- What the writes come to, field by field. -/
theorem PutBack.run (h : PutBack server directory canvasId u s s')
    (hdocument : s.document = some u.doc)
    (hsource : s.index.lookup (toString canvasId) = some (.obj source)) :
    ∃ before back, normalizePassword server.hashCanvasPassword u.restore = some back ∧
      s' = { s with
        document := some (setFields u.updated u.restore)
        index := Assoc.set (toString canvasId) (.obj (Json.mergeFields before back)) s.index
        faults := s'.faults } ∧
      (s.faults.tail.headD .answered ≠ .lost ∧ before = source ∨
        s.faults.tail.headD .answered = .lost ∧
          ∃ new, normalizePassword server.hashCanvasPassword u.patch = some new ∧
            before = Json.mergeFields source new) := by
  obtain ⟨s₁, s₂, s₃, hset, hpatch, hback, hrestore⟩ := h
  obtain ⟨-, doc, hdoc, hs₁⟩ := compareAndSet_applied hset
  obtain rfl := Option.some.inj (hdocument.symm.trans hdoc)
  obtain ⟨hnext, doc, hdoc, hs₃⟩ := compareAndSet_applied hback
  have hsource₁ : s₁.index.lookup (toString canvasId) = some (.obj source) := by
    rw [hs₁]
    exact hsource
  have hlost₁ : s₁.faults.headD .answered = s.faults.tail.headD .answered := by rw [hs₁]
  rcases patch_failed hsource₁ hpatch hnext with ⟨hlost, heq⟩ | ⟨hlost, new, hnew, heq⟩
  · have hdoc' : doc = u.updated := by
      rw [heq, hs₁] at hdoc
      exact (Option.some.inj hdoc).symm
    have hsource₃ : s₃.index.lookup (toString canvasId) = some (.obj source) := by
      rw [hs₃, heq]
      exact hsource₁
    obtain ⟨back, hback', hs'⟩ := patch_confirmed hsource₃ hrestore
    refine ⟨source, back, hback', ?_, Or.inl ⟨hlost₁ ▸ hlost, rfl⟩⟩
    rw [hs', hs₃, heq, hs₁, hdoc']
  · have hdoc' : doc = u.updated := by
      rw [heq, hs₁] at hdoc
      exact (Option.some.inj hdoc).symm
    have hsource₃ : s₃.index.lookup (toString canvasId)
        = some (.obj (Json.mergeFields source new)) := by
      rw [hs₃, heq]
      exact Assoc.lookup_set_self ..
    obtain ⟨back, hback', hs'⟩ := patch_confirmed hsource₃ hrestore
    refine ⟨Json.mergeFields source new, back, hback', ?_,
      Or.inr ⟨hlost₁ ▸ hlost, new, hnew, rfl⟩⟩
    rw [hs', hs₃, heq, hs₁, hdoc']
    simp only [Assoc.set_set]

/-! ## The password on its way to the snapshot store -/

/-- A field as it goes to the snapshot store. -/
def storedValue (hashCanvasPassword : String → Option String) (name : String) : Json → Json
  | .str text =>
    .str (if name = passwordField then
      (normalizeCanvasPassword hashCanvasPassword text).getD text else text)
  | v => v

theorem storedValue_of_ne {name : String} (h : name ≠ passwordField) (v : Json) :
    storedValue hashCanvasPassword name v = v := by
  match v with
  | .str text => exact congrArg Json.str (if_neg h)
  | .null | .bool _ | .int _ | .float _ | .arr _ | .obj _ => rfl

theorem storedValue_plain {v : Json} (hv : ∀ fields, v ≠ .obj fields) (name : String) :
    ∀ fields, storedValue hashCanvasPassword name v ≠ .obj fields := by
  match v with
  | .obj fields => exact absurd rfl (hv fields)
  | .str _ => exact nofun
  | .null | .bool _ | .int _ | .float _ | .arr _ => exact hv

theorem distinct_storedValue {v : Json} (hv : v.Distinct) (name : String) :
    (storedValue hashCanvasPassword name v).Distinct := by
  match v with
  | .str _ => exact .plain nofun
  | .null | .bool _ | .int _ | .float _ | .arr _ | .obj _ => exact hv

section Normalize

variable {new : Fields} (h : normalizePassword hashCanvasPassword fields = some new)
include h

theorem keys_normalizePassword : new.map Prod.fst = fields.map Prod.fst := by
  unfold normalizePassword at h
  split at h
  · next stored hstored =>
    obtain ⟨normalized, -, rfl⟩ := Option.map_eq_some_iff.mp h
    refine Assoc.map_fst_set_of_mem ?_ _
    rw [← Assoc.lookup_isSome_iff, hstored]
    rfl
  · rw [Option.some.inj h]

theorem lookup_normalizePassword (name : String) :
    new.lookup name = (fields.lookup name).map (storedValue hashCanvasPassword name) := by
  unfold normalizePassword at h
  split at h
  · next stored hstored =>
    obtain ⟨normalized, hnormalized, rfl⟩ := Option.map_eq_some_iff.mp h
    rw [Assoc.lookup_set]
    split_ifs with hname
    · subst hname
      rw [hstored]
      simp [storedValue, hnormalized]
    · rcases fields.lookup name with _ | v
      · rfl
      · exact congrArg some (storedValue_of_ne (Ne.symm hname) v).symm
  · next hother =>
    obtain rfl := Option.some.inj h
    rcases hv : fields.lookup name with _ | v
    · rfl
    · by_cases hname : name = passwordField
      · subst hname
        match v with
        | .str text => exact absurd hv (hother text)
        | .null | .bool _ | .int _ | .float _ | .arr _ | .obj _ => rfl
      · exact congrArg some (storedValue_of_ne hname v).symm

end Normalize

/-! ## What is there again -/

theorem prefix_setFields (doc fields : Fields) :
    doc.map Prod.fst <+: (setFields doc fields).map Prod.fst := by
  induction fields generalizing doc with
  | nil => exact List.prefix_refl _
  | cons e fields ih => exact (Assoc.prefix_set e.1 e.2 doc).trans (ih _)

theorem revision_mem_fields (u : Update) : "settings-revision" ∈ u.fields.map Prod.fst := by
  simp [Update.fields]

theorem Planned.ne_revision (h : Planned hashCanvasPassword doc u.changes) {name : String}
    (hname : name ∈ u.changes.map Prod.fst) : name ≠ "settings-revision" := by
  rintro rfl
  exact absurd (h.editable _ hname) (by decide)

theorem Planned.plain (h : Planned hashCanvasPassword doc u.changes) {name : String} {v : Json}
    (hv : u.changes.lookup name = some v) (hname : name ≠ "inner-group") :
    ∀ fields, v ≠ .obj fields := by
  have hmem := Assoc.mem_of_lookup hv
  generalize u.changes = changes at h hmem
  rintro fields rfl
  cases h <;> simp_all

/-- The groups that an update writes: each is as it was, or it is a list. -/
theorem Planned.groups (h : Planned hashCanvasPassword doc u.changes) {v : Json}
    (hv : u.changes.lookup "inner-group" = some v) :
    ∃ changed before, v = .obj changed ∧ doc.lookup "inner-group" = some (.obj before) ∧
      ((before.map Prod.fst).Nodup → (changed.map Prod.fst).Nodup) ∧
      ∀ group, changed.lookup group = before.lookup group ∨
        ∃ members, changed.lookup group = some members ∧ ∀ fields, members ≠ .obj fields := by
  generalize u.changes = changes at h hv
  cases h with
  | visibility | name | description | unprotect | protect =>
    exact absurd (List.mem_singleton.mp (Assoc.mem_of_lookup hv)) (by simp [passwordField])
  | add target htarget people hpeople groups hgroups group hnew =>
    obtain rfl := Option.some.inj hv
    refine ⟨_, groups, rfl, hgroups, fun hnodup ↦ Assoc.nodup_set hnodup _ _, fun g ↦ ?_⟩
    rw [Assoc.lookup_set]
    split_ifs
    · exact Or.inr ⟨_, rfl, fun _ h ↦ by cases h⟩
    · exact Or.inl rfl
  | remove target people hpeople groups hgroups howner =>
    obtain rfl := Option.some.inj hv
    refine ⟨_, groups, rfl, hgroups, fun hnodup ↦ ?_, fun g ↦ ?_⟩
    · simpa [groupsWithoutUser, Function.comp_def] using hnodup
    · rw [lookup_withoutUser]
      rcases groups.lookup g with _ | members
      · exact Or.inl rfl
      · cases members with
        | arr _ => exact Or.inr ⟨_, rfl, fun _ h ↦ by cases h⟩
        | _ => exact Or.inl rfl

/-- Memory has what it had if every field that is changed was there. -/
theorem restored_eq_iff (h : Planned hashCanvasPassword doc u.changes)
    (hdoc : (u.doc.map Prod.fst).Nodup) : setFields u.updated u.restore = u.doc ↔
      u.doc.lookup "settings-revision" = some (.int u.revision) ∧
        ∀ name ∈ u.changes.map Prod.fst, (u.doc.lookup name).isSome := by
  have hkeys : u.doc.map Prod.fst <+: (setFields u.updated u.restore).map Prod.fst :=
    (prefix_setFields u.doc u.fields).trans (prefix_setFields u.updated u.restore)
  have hnodup : ((setFields u.updated u.restore).map Prod.fst).Nodup :=
    nodup_setFields (nodup_setFields hdoc u.fields) u.restore
  rw [Assoc.eq_iff_lookup hnodup hkeys]
  have hrevision : (setFields u.updated u.restore).lookup "settings-revision"
      = some (.int u.revision) := by
    rw [lookup_setFields_restore h, lookup_restore, if_pos (revision_mem_fields u), if_pos rfl]
    rfl
  constructor
  · refine fun hsame ↦ ⟨(hsame _).symm.trans hrevision, fun name hname ↦ ?_⟩
    rw [← hsame name, lookup_restored h (h.ne_revision hname), if_pos hname]
    rfl
  · rintro ⟨hbefore, hpresent⟩ k
    by_cases hk : k = "settings-revision"
    · rw [hk, hrevision, hbefore]
    · rw [lookup_restored h hk]
      split_ifs with hchanged
      · obtain ⟨v, hv⟩ := Option.isSome_iff_exists.mp (hpresent k hchanged)
        rw [hv]
        rfl
      · rfl

/-- When putting the fields back leaves no trace of an update that was made in the snapshot store or
was not. -/
structure Undoable (hashCanvasPassword : String → Option String) (u : Update) (source : Fields)
    (made : Prop) : Prop where
  revision : u.doc.lookup "settings-revision" = some (.int u.revision)
  covered : ∀ name ∈ u.fields.map Prod.fst, ∃ v stored, u.doc.lookup name = some v ∧
    source.lookup name = some stored ∧ stored.Covers (storedValue hashCanvasPassword name v)
  same : made → ∀ name ∈ u.fields.map Prod.fst, name ≠ "inner-group" →
    source.lookup name = (u.doc.lookup name).map (storedValue hashCanvasPassword name)
  groups : made → ∀ changed before stored,
    u.changes.lookup "inner-group" = some (.obj changed) →
      u.doc.lookup "inner-group" = some (.obj before) →
        source.lookup "inner-group" = some (.obj stored) →
          ∀ group members, changed.lookup group = some members →
            (∀ fields, members ≠ .obj fields) →
              stored.lookup group = some ((before.lookup group).getD members)

section Stored

variable {back new : Fields} (hplanned : Planned hashCanvasPassword doc u.changes)
  (hrevision : u.doc.lookup "settings-revision" = some (.int u.revision))
  (hpresent : ∀ name ∈ u.changes.map Prod.fst, (u.doc.lookup name).isSome)

include hrevision hpresent in
theorem present_of_mem {name : String} (hname : name ∈ u.fields.map Prod.fst) :
    ∃ v, u.doc.lookup name = some v := by
  by_cases heq : name = "settings-revision"
  · exact ⟨_, heq ▸ hrevision⟩
  · exact Option.isSome_iff_exists.mp (hpresent name ((mem_fields_iff heq).mp hname))

include hrevision in
theorem lookup_back (hback : normalizePassword hashCanvasPassword u.restore = some back)
    {name : String} {v : Json} (hname : name ∈ u.fields.map Prod.fst)
    (hv : u.doc.lookup name = some v) :
    back.lookup name = some (storedValue hashCanvasPassword name v) := by
  rw [lookup_normalizePassword hback, lookup_restore, if_pos hname]
  split_ifs with heq
  · rw [heq, hrevision] at hv
    rw [← Option.some.inj hv]
    rfl
  · rw [hv]
    rfl

theorem lookup_back_none (hback : normalizePassword hashCanvasPassword u.restore = some back)
    {name : String} (hname : name ∉ u.fields.map Prod.fst) : back.lookup name = none := by
  rw [lookup_normalizePassword hback, lookup_restore, if_neg hname]
  rfl

include hplanned in
theorem nodup_back (hback : normalizePassword hashCanvasPassword u.restore = some back) :
    (back.map Prod.fst).Nodup := by
  have hrestore : u.restore.map Prod.fst = u.patch.map Prod.fst := by
    simp [Update.restore, Function.comp_def]
  rw [keys_normalizePassword hback, hrestore, (patch_perm u).nodup_iff]
  exact nodup_fields hplanned

include hplanned in
theorem nodup_new (hnew : normalizePassword hashCanvasPassword u.patch = some new) :
    (new.map Prod.fst).Nodup := by
  rw [keys_normalizePassword hnew, (patch_perm u).nodup_iff]
  exact nodup_fields hplanned

include hplanned in
theorem lookup_new (hnew : normalizePassword hashCanvasPassword u.patch = some new)
    (name : String) :
    new.lookup name = (u.fields.lookup name).map (storedValue hashCanvasPassword name) := by
  rw [lookup_normalizePassword hnew, Update.patch,
    Assoc.lookup_perm (nodup_fields hplanned) (Json.sortedFields_perm u.fields)]

end Stored

section Undoable

variable {back new : Fields} (hplanned : Planned hashCanvasPassword u.doc u.changes)
  (hrevision : u.doc.lookup "settings-revision" = some (.int u.revision))
  (hpresent : ∀ name ∈ u.changes.map Prod.fst, (u.doc.lookup name).isSome)
  (hdoc : (Json.obj u.doc).Distinct) (hsource : (Json.obj source).Distinct)
  (hback : normalizePassword hashCanvasPassword u.restore = some back)

include hplanned hrevision hpresent hsource hback in
/-- An update that was not made in the snapshot store. -/
theorem unmade_iff : Json.mergeFields source back = source ↔
    Undoable hashCanvasPassword u source False := by
  rw [Json.mergeFields_eq_self_iff hsource.nodup (nodup_back hplanned hback)]
  constructor
  · intro h
    refine ⟨hrevision, fun name hname ↦ ?_, nofun, nofun⟩
    obtain ⟨v, hv⟩ := present_of_mem hrevision hpresent hname
    obtain ⟨stored, hstored, hcovers⟩ := h name _ (lookup_back hrevision hback hname hv)
    exact ⟨v, stored, hv, hstored, hcovers⟩
  · intro h name w hw
    by_cases hname : name ∈ u.fields.map Prod.fst
    · obtain ⟨v, stored, hv, hstored, hcovers⟩ := h.covered name hname
      obtain rfl := Option.some.inj ((lookup_back hrevision hback hname hv).symm.trans hw)
      exact ⟨stored, hstored, hcovers⟩
    · rw [lookup_back_none hback hname] at hw
      nomatch hw

include hplanned hrevision hback in
/-- A field that is no group has its value again only if it had the one that memory has. -/
theorem takenBack_field_iff (hnew : normalizePassword hashCanvasPassword u.patch = some new)
    {name : String} {v : Json} (hname : name ∈ u.fields.map Prod.fst)
    (hgroups : name ≠ "inner-group") (hv : u.doc.lookup name = some v) :
    Json.takenBack (source.lookup name) (new.lookup name) (back.lookup name) = source.lookup name ↔
      source.lookup name = some (storedValue hashCanvasPassword name v) := by
  obtain ⟨w, hw⟩ : ∃ w, u.fields.lookup name = some w :=
    Option.isSome_iff_exists.mp (Assoc.lookup_isSome_iff.mpr hname)
  have hplain : ∀ fields, w ≠ .obj fields := by
    by_cases heq : name = "settings-revision"
    · have hlast := lookup_updated hplanned name
      rw [Update.fields, List.lookup_append] at hw
      have hnone : u.changes.lookup name = none := by
        rw [← Option.not_isSome_iff_eq_none, Assoc.lookup_isSome_iff]
        exact fun hmem ↦ hplanned.ne_revision hmem heq
      rw [hnone, heq] at hw
      rw [← Option.some.inj hw]
      intro fields h
      cases h
    · rw [Update.fields, List.lookup_append, Assoc.lookup_cons_of_ne (Ne.symm heq)] at hw
      exact hplanned.plain (by simpa using hw) hgroups
  rw [lookup_new hplanned hnew, hw, Option.map_some,
    Json.takenBack_plain (storedValue_plain hplain name), lookup_back hrevision hback hname hv]
  exact eq_comm

include hsource in
/-- The groups are there again only if none was added. -/
theorem takenBack_groups_iff {changed before : Fields}
    (hchanged : (changed.map Prod.fst).Nodup) (hbefore : (Json.obj before).Distinct)
    (hgroups : ∀ group, changed.lookup group = before.lookup group ∨
      ∃ members, changed.lookup group = some members ∧ ∀ fields, members ≠ .obj fields) :
    Json.takenBack (source.lookup "inner-group") (some (.obj changed)) (some (.obj before))
        = source.lookup "inner-group" ↔
      ∃ stored, source.lookup "inner-group" = some (.obj stored) ∧
        (Json.obj stored).Covers (.obj before) ∧
        ∀ group members, changed.lookup group = some members →
          (∀ fields, members ≠ .obj fields) →
            stored.lookup group = some ((before.lookup group).getD members) := by
  rcases hlookup : source.lookup "inner-group" with _ | v
  · refine iff_of_false (fun h ↦ by cases h) ?_
    rintro ⟨_, h, -⟩
    cases h
  · cases v with
    | obj stored =>
      have hstored := (hsource.lookup hlookup).nodup
      have hiff := Json.takenBack_of_plain hstored hchanged hbefore hgroups
      constructor
      · intro h
        refine ⟨stored, rfl, hiff.mp ?_⟩
        exact Json.obj.inj (Option.some.inj h)
      · rintro ⟨stored', hsame, h⟩
        obtain rfl := Json.obj.inj (Option.some.inj hsame)
        exact congrArg (fun fields ↦ some (Json.obj fields)) (hiff.mpr h)
    | _ =>
      refine iff_of_false (fun h ↦ by cases h) ?_
      rintro ⟨_, h, -⟩
      cases h

include hplanned hrevision hdoc hsource hback in
theorem takenBack_inner_group_iff
    (hnew : normalizePassword hashCanvasPassword u.patch = some new)
    (hname : "inner-group" ∈ u.fields.map Prod.fst) :
    Json.takenBack (source.lookup "inner-group") (new.lookup "inner-group")
        (back.lookup "inner-group") = source.lookup "inner-group" ↔
      ∃ changed before stored, u.changes.lookup "inner-group" = some (.obj changed) ∧
        u.doc.lookup "inner-group" = some (.obj before) ∧
        source.lookup "inner-group" = some (.obj stored) ∧
        (Json.obj stored).Covers (.obj before) ∧
        ∀ group members, changed.lookup group = some members →
          (∀ fields, members ≠ .obj fields) →
            stored.lookup group = some ((before.lookup group).getD members) := by
  have hmem := (mem_fields_iff (by decide : "inner-group" ≠ "settings-revision")).mp hname
  obtain ⟨w, hw⟩ := Option.isSome_iff_exists.mp (Assoc.lookup_isSome_iff.mpr hmem)
  obtain ⟨changed, before, rfl, hbefore, hnodup, hgroups⟩ := hplanned.groups hw
  have hfield : u.fields.lookup "inner-group" = some (.obj changed) := by
    rw [Update.fields, List.lookup_append, hw]
    rfl
  have hdistinct := hdoc.lookup hbefore
  rw [lookup_new hplanned hnew, hfield, lookup_back hrevision hback hname hbefore]
  have hiff := takenBack_groups_iff hsource (hnodup hdistinct.nodup) hdistinct hgroups
  refine hiff.trans ⟨?_, ?_⟩
  · rintro ⟨stored, hstored, h⟩
    exact ⟨_, _, stored, hw, hbefore, hstored, h⟩
  · rintro ⟨changed', before', stored, hw', hbefore', hstored, h⟩
    obtain rfl := Json.obj.inj (Option.some.inj (hw.symm.trans hw'))
    obtain rfl := Json.obj.inj (Option.some.inj (hbefore.symm.trans hbefore'))
    exact ⟨stored, hstored, h⟩

include hplanned hrevision hpresent hdoc hsource hback in
/-- An update that was made in the snapshot store, with its reply lost. -/
theorem made_iff (hnew : normalizePassword hashCanvasPassword u.patch = some new) :
    Json.mergeFields (Json.mergeFields source new) back = source ↔
      Undoable hashCanvasPassword u source True := by
  rw [Json.takenBack_eq_self_iff hsource.nodup (nodup_new hplanned hnew)
    (nodup_back hplanned hback)]
  have hfield {name : String} {v : Json} := @takenBack_field_iff u hashCanvasPassword source back
    new hplanned hrevision hback hnew name v
  have hgroups := takenBack_inner_group_iff hplanned hrevision hdoc hsource hback hnew
  constructor
  · intro h
    refine ⟨hrevision, fun name hname ↦ ?_, fun _ name hname hne ↦ ?_, ?_⟩
    · obtain ⟨v, hv⟩ := present_of_mem hrevision hpresent hname
      by_cases hne : name = "inner-group"
      · subst hne
        obtain ⟨_, before, stored, -, hbefore, hstored, hcovers, -⟩ := (hgroups hname).mp (h _)
        exact ⟨_, _, hbefore, hstored, hcovers⟩
      · have hdistinct := @distinct_storedValue hashCanvasPassword v (hdoc.lookup hv) name
        exact ⟨v, _, hv, (hfield hname hne hv).mp (h name), Json.covers_self hdistinct⟩
    · obtain ⟨v, hv⟩ := present_of_mem hrevision hpresent hname
      rw [(hfield hname hne hv).mp (h name), hv]
      rfl
    · -- groups are merged, so what the update has added must be covered by what is put back
      intro _ changed before stored hchanged hbefore hstored
      have hmem := List.mem_map_of_mem (f := Prod.fst) (Assoc.mem_of_lookup hchanged)
      have hname := (mem_fields_iff (by decide : "inner-group" ≠ "settings-revision")).mpr hmem
      obtain ⟨changed', before', stored', hchanged', hbefore', hstored', -, h'⟩ :=
        (hgroups hname).mp (h _)
      obtain rfl := Json.obj.inj (Option.some.inj (hchanged.symm.trans hchanged'))
      obtain rfl := Json.obj.inj (Option.some.inj (hbefore.symm.trans hbefore'))
      obtain rfl := Json.obj.inj (Option.some.inj (hstored.symm.trans hstored'))
      exact h'
  · intro h name
    by_cases hname : name ∈ u.fields.map Prod.fst
    · obtain ⟨v, stored, hv, hstored, hcovers⟩ := h.covered name hname
      by_cases hne : name = "inner-group"
      · subst hne
        refine (hgroups hname).mpr ?_
        have hmem := (mem_fields_iff (by decide : "inner-group" ≠ "settings-revision")).mp hname
        obtain ⟨w, hw⟩ := Option.isSome_iff_exists.mp (Assoc.lookup_isSome_iff.mpr hmem)
        obtain ⟨changed, before, rfl, hbefore, -, -⟩ := hplanned.groups hw
        obtain rfl := Option.some.inj (hbefore.symm.trans hv)
        obtain ⟨fields, rfl⟩ : ∃ fields, stored = .obj fields := by
          match stored with
          | .obj fields => exact ⟨fields, rfl⟩
          | .null | .bool _ | .int _ | .float _ | .str _ | .arr _ => nomatch hcovers
        exact ⟨changed, before, fields, hw, hbefore, hstored, hcovers,
          h.groups trivial changed before fields hw hbefore hstored⟩
      · refine (hfield hname hne hv).mpr ?_
        rw [h.same trivial name hname hne, hv]
        rfl
    · -- a field that the update does not name
      have hnone : u.fields.lookup name = none := by
        rw [← Option.not_isSome_iff_eq_none, Assoc.lookup_isSome_iff]
        exact hname
      rw [lookup_new hplanned hnew, hnone, lookup_back_none hback hname]
      rfl

end Undoable

theorem set_eq_self_iff {index : Java.Index} {id : String} {v w : Json}
    (hv : index.lookup id = some v) : Assoc.set id w index = index ↔ w = v := by
  constructor
  · intro h
    have hlookup : (Assoc.set id w index).lookup id = some w := Assoc.lookup_set_self ..
    rw [h, hv] at hlookup
    exact (Option.some.inj hlookup).symm
  · rintro rfl
    exact Assoc.set_of_lookup hv

/-- **Taking an update back.** A failed update whose fields are put back in both places leaves
everything as it was if and only if every field it changes was there before, the snapshot store had
in these fields what memory had, and, when the failed update has been made there, nothing more than
that: no more than the same values, and no group that the update has added. -/
theorem leavesNoTrace_iff {userId : ℤ} {nickname : String} {tag : ℤ} {event : Json}
    {requestId : String}
    (hprepared : prepareSettings (settingsBackend server directory) canvasId userId nickname tag
      event requestId s = (.ok (.ok (.update u)), t))
    (hputBack : PutBack server directory canvasId u t s')
    (hdocument : s.document = some doc) (hdoc : (Json.obj doc).Distinct)
    (hsource : s.index.lookup (toString canvasId) = some (.obj source))
    (hstored : (Json.obj source).Distinct) :
    let after := (executeSettings (settingsBackend server directory) canvasId userId nickname tag
      event requestId s).2
    after = { s with faults := after.faults } ↔
      Undoable server.hashCanvasPassword u source (t.faults.tail.headD .answered = .lost) := by
  intro after
  obtain ⟨hread, hplanned, -⟩ := prepareSettings_update hprepared
  obtain rfl := Option.some.inj (hread.symm.trans hdocument)
  obtain ⟨faults, -, hasked⟩ :=
    asks_prepareSettings server directory canvasId userId nickname tag event requestId s
  rw [hprepared] at hasked
  change t = { s with faults } at hasked
  have hafter : after = s' := by
    change (executeSettings (settingsBackend server directory) canvasId userId nickname tag event
      requestId s).2 = s'
    rw [executeSettings_run, hprepared]
    exact hputBack.commitSettings requestId
  obtain ⟨before, back, hback, hrun, hmade⟩ := hputBack.run (by rw [hasked]; exact hdocument)
    (by rw [hasked]; exact hsource)
  -- only the two documents may have changed
  have hsame : after = { s with faults := after.faults } ↔
      setFields u.updated u.restore = u.doc ∧ Json.mergeFields before back = source := by
    have hindex := @set_eq_self_iff s.index (toString canvasId) (.obj source)
      (.obj (Json.mergeFields before back)) hsource
    rw [hafter, hrun, hasked, Store.mk.injEq, hread, hindex]
    simp
  rw [hsame, restored_eq_iff hplanned hdoc.nodup]
  constructor
  · rintro ⟨⟨hrevision, hpresent⟩, hmerged⟩
    rcases hmade with ⟨hlost, rfl⟩ | ⟨hlost, new, hnew, rfl⟩
    · rw [eq_false hlost]
      exact (unmade_iff hplanned hrevision hpresent hstored hback).mp hmerged
    · rw [eq_true hlost]
      exact (made_iff hplanned hrevision hpresent hdoc hstored hback hnew).mp hmerged
  · intro h
    have hpresent : ∀ name ∈ u.changes.map Prod.fst, (u.doc.lookup name).isSome := by
      intro name hname
      obtain ⟨v, -, hv, -⟩ :=
        h.covered name ((mem_fields_iff (hplanned.ne_revision hname)).mpr hname)
      rw [hv]
      rfl
    refine ⟨⟨h.revision, hpresent⟩, ?_⟩
    rcases hmade with ⟨hlost, rfl⟩ | ⟨hlost, new, hnew, rfl⟩
    · rw [eq_false hlost] at h
      exact (unmade_iff hplanned h.revision hpresent hstored hback).mpr h
    · rw [eq_true hlost] at h
      exact (made_iff hplanned h.revision hpresent hdoc hstored hback hnew).mpr h

/-! ### A canvas whose description is changed -/

/-- A canvas in memory and in the snapshot store. -/
def storedTwice (doc : Fields) (faults : List Fault) : Store :=
  { isCached := true, document := some doc, revision := some 0, index := [("7", .obj doc)], faults }

def described : Fields :=
  [("canvas-id", .int 7), ("people", .arr [.int 1]),
    ("inner-group", .obj [("admin-group", .arr [.int 1])]), ("description", .str "old"),
    ("settings-revision", .int 0)]

def undescribed : Fields :=
  [("canvas-id", .int 7), ("people", .arr [.int 1]),
    ("inner-group", .obj [("admin-group", .arr [.int 1])]), ("settings-revision", .int 0)]

def onlyAnn : List Fault → Directory := fun _ ↦
  { getActiveUserId := fun _ _ ↦ 1, getUserHandle := fun _ ↦ some ("ann", 1) }

def describe : Json :=
  .obj [("type", .str "canvas_settings_update"), ("expected_revision", .int 0),
    ("field", .str "description"), ("value", .str "new")]

def describing (doc : Fields) : Update :=
  { field := "description", doc, revision := 0, changes := [("description", .str "new")] }

/-- The snapshot store makes the update, and the reply is lost. -/
def unconfirmed : List Fault := [.answered, .answered, .answered, .answered, .lost]

theorem distinct_described : (Json.obj described).Distinct := by
  refine .obj (by decide) ?_
  simp only [described, List.forall_mem_cons, List.not_mem_nil, false_imp_iff, implies_true,
    and_true]
  exact ⟨.plain nofun, .plain nofun, .obj (by decide) fun e he ↦ by
    obtain rfl := List.mem_singleton.mp he
    exact .plain nofun, .plain nofun, .plain nofun⟩

theorem leavesNoTrace_described :
    (executeSettings (settingsBackend zeroServer onlyAnn) 7 1 "ann" 1 describe "r"
      (storedTwice described unconfirmed)).2 = storedTwice described [] := by
  have hiff := @leavesNoTrace_iff zeroServer onlyAnn 7 (describing described) described described
    (storedTwice described unconfirmed) (storedTwice described [.answered, .lost])
    (storedTwice described []) 1 "ann" 1 describe "r" rfl ⟨_, _, _, rfl, rfl, rfl, rfl⟩ rfl
    distinct_described rfl distinct_described
  refine hiff.mpr ⟨rfl, fun name hname ↦ ?_, fun _ name hname hne ↦ ?_, nofun⟩
  · rcases (List.mem_pair.mp hname : name = "description" ∨ name = "settings-revision") with
      rfl | rfl
    · exact ⟨_, _, rfl, rfl, rfl⟩
    · exact ⟨_, _, rfl, rfl, rfl⟩
  · rcases (List.mem_pair.mp hname : name = "description" ∨ name = "settings-revision") with
      rfl | rfl
    · rfl
    · rfl

/-- A description that was not there comes back as null, and the settings can no longer be read. -/
theorem leavesTrace_undescribed :
    prepareSettings (settingsBackend zeroServer onlyAnn) 7 1 "ann" 1 describe "r"
        (storedTwice undescribed unconfirmed)
      = (.ok (.ok (.update (describing undescribed))), storedTwice undescribed [.answered, .lost]) ∧
    ∃ s', PutBack zeroServer onlyAnn 7 (describing undescribed)
        (storedTwice undescribed [.answered, .lost]) s' ∧
      (executeSettings (settingsBackend zeroServer onlyAnn) 7 1 "ann" 1 describe "r"
        (storedTwice undescribed unconfirmed)).2 = s' ∧
      s'.document = some (undescribed ++ [("description", .null)]) ∧
      s'.index.lookup "7" = some (.obj (undescribed ++ [("description", .null)])) ∧
      (canvasSettingsSnapshot (settingsBackend zeroServer onlyAnn) (.obj undescribed) s').1.toBool ∧
      (canvasSettingsSnapshot (settingsBackend zeroServer onlyAnn)
        (.obj (undescribed ++ [("description", .null)])) s').1.toBool = false :=
  ⟨rfl, _, ⟨_, _, _, rfl, rfl, rfl, rfl⟩, rfl, rfl, rfl, rfl, rfl⟩

end Settings

end Agora
