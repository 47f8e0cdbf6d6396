import Agora.Settings.Asking
import Agora.Settings.Lifecycle

/-!
# What a change of the settings does to a document

Up to the point where it writes, a change of the settings only asks. What it writes is one of a few
changes of the document it has read; at the end the document in memory is the one that was read, the
changed one, or the one with the changed fields put back.
-/

namespace Agora

namespace Settings

open Snapshot (Fields passwordField)

variable {α β : Type}

/-! ## Steps that only ask -/

/-- A step that changes nothing but how the next calls end. -/
def Quiet (x : StateM Store α) : Prop :=
  ∀ P : Store → Prop, (∀ s faults, P s → P { s with faults }) → Triple P x fun _ s ↦ P s

/-- A step that makes calls and leaves everything as it is. -/
def Asks (x : StateM Store α) : Prop :=
  ∀ s, ∃ faults, faults <:+ s.faults ∧ (x s).2 = { s with faults }

theorem Asks.quiet {x : StateM Store α} (hx : Asks x) : Quiet x := by
  intro P hP s hloss h
  obtain ⟨faults, hsuffix, hx⟩ := hx s
  rw [hx]
  exact ⟨fun fault hmem ↦ hloss fault (hsuffix.subset hmem), hP s faults h⟩

theorem asks_pure (a : α) : Asks (pure a) := fun s ↦ ⟨s.faults, List.suffix_refl _, rfl⟩

/-- What asks, and asks again. -/
theorem asks_after {x : StateM Store α} {s t : Store} (hx : Asks x)
    (h : ∃ faults, faults <:+ s.faults ∧ t = { s with faults }) :
    ∃ faults, faults <:+ s.faults ∧ (x t).2 = { s with faults } := by
  obtain ⟨faults, hsuffix, rfl⟩ := h
  obtain ⟨faults', hsuffix', hx⟩ := hx { s with faults }
  exact ⟨faults', hsuffix'.trans hsuffix, hx⟩

theorem asks_bind {x : StateM Store α} {f : α → StateM Store β} (hx : Asks x)
    (hf : ∀ a, Asks (f a)) : Asks (x >>= f) :=
  fun s ↦ @asks_after β (f (x s).1) s (x s).2 (hf (x s).1) (hx s)

theorem asks_asking (f : List Fault → α) : Asks (Store.asking f) :=
  fun s ↦ ⟨s.faults.tail, List.tail_suffix _, rfl⟩

theorem asks_loadCanvas : Asks loadCanvas := by
  intro s
  refine ⟨s.faults.tail, List.tail_suffix _, ?_⟩
  rcases Store.acting_cases none (fun s ↦ (s.document, s)) s with hfail | ⟨hact, -⟩
  · exact congrArg Prod.snd hfail
  · exact hact

/-! ## Up to the writes -/

section Asking

variable (server : Server) (directory : List Fault → Directory)

/-- A storage that differs from another only in how the next calls end. -/
def Later (s t : Store) : Prop := ∃ faults, faults <:+ s.faults ∧ t = { s with faults }

theorem Asks.leaves {x : StateM Store α} (hx : Asks x) (s : Store) : Leaves (Later s) x :=
  fun _ h ↦ asks_after hx h

theorem asks_of_leaves {x : StateM Store α} (hx : ∀ s, Leaves (Later s) x) : Asks x :=
  fun s ↦ hx s s ⟨s.faults, List.suffix_refl _, rfl⟩

theorem questions_later (s : Store) : Questions (settingsBackend server directory) (Later s) where
  loadCanvas _ := (asks_bind asks_loadCanvas fun _ ↦ asks_pure _).leaves s
  isCanvasAssignedToServer _ := (asks_asking _).leaves s
  getActiveUserId _ _ := (asks_asking _).leaves s
  getUserHandle _ := (asks_asking _).leaves s
  hashCanvasPassword _ := (asks_pure _).leaves s

theorem asks_snapshot (doc : Json) :
    Asks (canvasSettingsSnapshot (settingsBackend server directory) doc) :=
  asks_of_leaves fun s ↦ canvasSettingsSnapshot_keeps (questions_later server directory s) doc

theorem asks_prepareSettings (canvasId userId : ℤ) (nickname : String) (tag : ℤ) (event : Json)
    (requestId : String) : Asks (prepareSettings (settingsBackend server directory) canvasId userId
      nickname tag event requestId) :=
  asks_of_leaves fun s ↦ prepareSettings_keeps (questions_later server directory s) canvasId userId
    nickname tag event requestId

end Asking

/-! ## What is written -/

/-- The changes that are made of a document. -/
inductive Planned (hashCanvasPassword : String → Option String) (doc : Fields) : Fields → Prop where
  | visibility (value : String) (hvalue : value = "public" ∨ value = "private")
      (hopen : value = "public" → isProtected (.obj doc) = false) :
      Planned hashCanvasPassword doc [("visibility", .str value)]
  | name (value : String) : Planned hashCanvasPassword doc [("canvas-name", .str value)]
  | description (value : String) : Planned hashCanvasPassword doc [("description", .str value)]
  | unprotect : Planned hashCanvasPassword doc [(passwordField, .null)]
  | protect (value hash : String) (hhash : hashCanvasPassword value = some hash)
      (hclosed : canvasIsPublic (.obj doc) = false) :
      Planned hashCanvasPassword doc [(passwordField, .str hash)]
  | add (target : ℤ) (htarget : ∃ n, target = Json.wrap 32 n) (people : List Json)
      (hpeople : doc.lookup "people" = some (.arr people)) (groups : Fields)
      (hgroups : doc.lookup "inner-group" = some (.obj groups)) (group : String)
      (hnew : isCanvasParticipant (.obj doc) target = false) :
      Planned hashCanvasPassword doc [("people", .arr (people ++ [.int target])),
        ("inner-group", .obj (Assoc.set group
          (.arr (groupMembers groups group ++ [.int target])) groups))]
  | remove (target : ℤ) (people : List Json) (hpeople : doc.lookup "people" = some (.arr people))
      (groups : Fields) (hgroups : doc.lookup "inner-group" = some (.obj groups))
      (howner : isOwner (.obj doc) target = false) :
      Planned hashCanvasPassword doc [("people", .arr (withoutUser target people)),
        ("inner-group", .obj (groupsWithoutUser target groups))]

section Planning

variable {server : Server} {directory : List Fault → Directory} {doc : Fields} {event : Json}
  {s t : Store}

theorem peopleAndGroups_ok {people : List Json} {groups : Fields}
    (h : peopleAndGroups (.obj doc) s = (.ok (.ok (people, groups)), t)) :
    doc.lookup "people" = some (.arr people) ∧ doc.lookup "inner-group" = some (.obj groups) := by
  have hread := (Attempt.orReject_ok.mp h).1
  rw [field?_obj, field?_obj] at hread
  split at hread
  · next hpeople hgroups =>
    obtain ⟨rfl, rfl⟩ := Prod.mk.inj (Option.some.inj hread)
    exact ⟨hpeople, hgroups⟩
  · nomatch hread

theorem planVisibility_planned {hashCanvasPassword : String → Option String} {value : String}
    {changes : Fields} (h : planVisibility (.obj doc) value s = (.ok (.ok changes), t)) :
    Planned hashCanvasPassword doc changes := by
  obtain ⟨_, _, hvalue, h⟩ := Attempt.bind_ok.mp h
  obtain ⟨_, _, hopen, h⟩ := Attempt.bind_ok.mp h
  have hvalue := (Attempt.rejectIf_ok.mp hvalue).1
  have hopen := (Attempt.rejectIf_ok.mp hopen).1
  rw [← (Attempt.pure_ok.mp h).1]
  refine .visibility value ?_ fun hpublic ↦ ?_
  · rw [Bool.and_eq_false_iff, decide_eq_false_iff_not, decide_eq_false_iff_not, not_not,
      not_not] at hvalue
    exact hvalue
  · rw [hpublic, decide_eq_true rfl, Bool.true_and] at hopen
    exact hopen

theorem planPassword_planned {value : String} {changes : Fields}
    (h : planPassword (settingsBackend server directory) (.obj doc) value s
      = (.ok (.ok changes), t)) : Planned server.hashCanvasPassword doc changes := by
  obtain ⟨_, _, hclosed, h⟩ := Attempt.bind_ok.mp h
  have hclosed := (Attempt.rejectIf_ok.mp hclosed).1
  split_ifs at h with htext
  · obtain ⟨hash, _, hhash, h⟩ := Attempt.bind_ok.mp h
    have hcall := (Prod.mk.inj (Attempt.call_ok.mp hhash)).1
    obtain ⟨hash', _, hsome, h⟩ := Attempt.bind_ok.mp h
    have hsome := (Attempt.orReject_ok.mp hsome).1
    rw [← (Attempt.pure_ok.mp h).1]
    rw [htext, Bool.and_true] at hclosed
    refine .protect value hash' ?_ hclosed
    rw [← hsome]
    exact hcall
  · rw [← (Attempt.pure_ok.mp h).1]
    exact .unprotect

theorem planText_planned {field value : String} {changes : Fields}
    (h : planText (settingsBackend server directory) field (.obj doc) value s
      = (.ok (.ok changes), t)) : Planned server.hashCanvasPassword doc changes := by
  obtain ⟨_, _, -, h⟩ := Attempt.bind_ok.mp h
  obtain ⟨_, _, -, h⟩ := Attempt.bind_ok.mp h
  split_ifs at h
  · rw [← (Attempt.pure_ok.mp h).1]
    exact .name value
  · rw [← (Attempt.pure_ok.mp h).1]
    exact .description value
  · exact planPassword_planned h

theorem planAdd_planned {changes : Fields}
    (h : planAdd (settingsBackend server directory) (.obj doc) event s = (.ok (.ok changes), t)) :
    Planned server.hashCanvasPassword doc changes := by
  obtain ⟨⟨nickname, tag⟩, _, -, h⟩ := Attempt.bind_ok.mp h
  obtain ⟨⟨people, groups⟩, _, hread, h⟩ := Attempt.bind_ok.mp h
  obtain ⟨hpeople, hgroups⟩ := peopleAndGroups_ok hread
  obtain ⟨target, _, htarget, h⟩ := Attempt.bind_ok.mp h
  have htarget := (Prod.mk.inj (Attempt.call_ok.mp htarget)).1
  obtain ⟨_, _, -, h⟩ := Attempt.bind_ok.mp h
  obtain ⟨_, _, hnew, h⟩ := Attempt.bind_ok.mp h
  have hnew := (Attempt.rejectIf_ok.mp hnew).1
  rw [← (Attempt.pure_ok.mp h).1]
  exact .add target ⟨_, htarget.symm⟩ people hpeople groups hgroups _ hnew

theorem planRemove_planned {changes : Fields} {removed : ℤ}
    (h : planRemove (settingsBackend server directory) (.obj doc) event s
      = (.ok (.ok (changes, removed)), t)) : Planned server.hashCanvasPassword doc changes := by
  obtain ⟨⟨nickname, tag⟩, _, -, h⟩ := Attempt.bind_ok.mp h
  obtain ⟨⟨people, groups⟩, _, hread, h⟩ := Attempt.bind_ok.mp h
  obtain ⟨hpeople, hgroups⟩ := peopleAndGroups_ok hread
  obtain ⟨found, _, -, h⟩ := Attempt.bind_ok.mp h
  obtain ⟨_, _, -, h⟩ := Attempt.bind_ok.mp h
  obtain ⟨_, _, howner, h⟩ := Attempt.bind_ok.mp h
  have howner := (Attempt.rejectIf_ok.mp howner).1
  rw [← (Prod.mk.inj (Attempt.pure_ok.mp h).1).1]
  exact .remove _ people hpeople groups hgroups howner

/-- Whatever an event asks for is one of these changes. -/
theorem planChanges_planned {field : String} {changes : Fields} {removed : ℤ}
    (h : planChanges (settingsBackend server directory) (.obj doc) event field s
      = (.ok (.ok (changes, removed)), t)) : Planned server.hashCanvasPassword doc changes := by
  unfold planChanges at h
  split_ifs at h
  · obtain ⟨value, _, -, h⟩ := Attempt.bind_ok.mp h
    obtain ⟨changes', _, hplan, h⟩ := Attempt.bind_ok.mp h
    rw [← (Prod.mk.inj (Attempt.pure_ok.mp h).1).1]
    exact planVisibility_planned hplan
  · obtain ⟨value, _, -, h⟩ := Attempt.bind_ok.mp h
    obtain ⟨changes', _, hplan, h⟩ := Attempt.bind_ok.mp h
    rw [← (Prod.mk.inj (Attempt.pure_ok.mp h).1).1]
    exact planText_planned hplan
  · obtain ⟨changes', _, hplan, h⟩ := Attempt.bind_ok.mp h
    rw [← (Prod.mk.inj (Attempt.pure_ok.mp h).1).1]
    exact planAdd_planned hplan
  · exact planRemove_planned h
  · nomatch h

/-- What is read of the memory is there. -/
theorem loadCanvas_some (server : Server) (directory : List Fault → Directory) (canvasId : ℤ)
    (h : ((settingsBackend server directory).loadCanvas canvasId s).1 = some (some (.obj doc))) :
    s.document = some doc := by
  change (loadCanvas s).1.map (fun doc ↦ some (Json.obj doc)) = _ at h
  obtain ⟨doc', hfound, hdoc⟩ := Option.map_eq_some_iff.mp h
  obtain rfl := Json.obj.inj (Option.some.inj hdoc)
  unfold loadCanvas at hfound
  rcases Store.acting_cases none (fun s ↦ (s.document, s)) s with hfail | ⟨-, hfail | hact⟩
  · rw [hfail] at hfound
    nomatch hfound
  · rw [hfail] at hfound
    nomatch hfound
  · rw [hact] at hfound
    exact hfound

/-- An update that is about to be written: its document is the one in memory. -/
theorem prepareSettings_update {canvasId userId : ℤ} {nickname : String} {tag : ℤ}
    {requestId : String} {u : Update}
    (h : prepareSettings (settingsBackend server directory) canvasId userId nickname tag event
      requestId s = (.ok (.ok (.update u)), t)) :
    s.document = some u.doc ∧ Planned server.hashCanvasPassword u.doc u.changes ∧
      (Json.obj u.doc).valueLong "settings-revision" 0 = .ok u.revision := by
  obtain ⟨hloaded, hrevision, _, _, _, _, hplan⟩ := prepareSettings_ok h
  exact ⟨loadCanvas_some server directory canvasId hloaded, planChanges_planned hplan, hrevision⟩

end Planning

/-! ## The writes -/

theorem triple_query_bind {x : Query Store α} {f : α → Query Store β} {P : Store → Prop}
    {Q : Except Halt α → Store → Prop} {R : Except Halt β → Store → Prop} (hx : Triple P x Q)
    (herror : ∀ h s, Q (.error h) s → R (.error h) s)
    (hf : ∀ a, Triple (Q (.ok a)) (f a) R) : Triple P (x >>= f : Query Store β) R := by
  intro s hloss h
  have hx' := hx s hloss h
  rw [Query.bind_run]
  rcases hr : x s with ⟨e | a, t⟩
  · rw [hr] at hx'
    exact ⟨hx'.1, herror e t hx'.2⟩
  · rw [hr] at hx'
    exact hf a t hx'.1 hx'.2

theorem triple_call {x : StateM Store α} {P : Store → Prop} {Q : α → Store → Prop}
    (hx : Triple P x Q) :
    Triple P (liftM x : Query Store α) fun r s ↦ ∃ a, r = .ok a ∧ Q a s :=
  fun s hloss h ↦ ⟨(hx s hloss h).1, _, rfl, (hx s hloss h).2⟩

/-- A call, and what follows it. -/
theorem triple_call_bind {x : StateM Store α} {f : α → Query Store β} {P : Store → Prop}
    {Q : α → Store → Prop} {R : Except Halt β → Store → Prop} (hx : Triple P x Q)
    (hf : ∀ a, Triple (Q a) (f a) R) : Triple P (liftM x >>= f : Query Store β) R := by
  refine triple_query_bind (triple_call hx) (fun h s ⟨_, he, _⟩ ↦ nomatch he) fun a ↦ ?_
  exact (hf a).mono (fun s ⟨_, ha, h⟩ ↦ by rwa [Except.ok.inj ha]) fun _ _ h ↦ h

section Writing

variable (server : Server) (directory : List Fault → Directory) (canvasId : ℤ) (u : Update)

/-- The canvas is loaded, and its document in memory is one of some. -/
def Holds (docs : List Fields) (s : Store) : Prop :=
  s.isCached ∧ OnlyStored canvasId s.index ∧ ∃ doc ∈ docs, s.document = some doc

theorem compareAndSet_triple (doc : Fields) (revision : ℤ) (fields : Fields) :
    Triple (Holds canvasId [doc])
      ((settingsBackend server directory).compareAndSetFields canvasId revision fields)
      fun result s ↦
        Holds canvasId [if result = .applied then setFields doc fields else doc] s := by
  refine triple_acting (fun _ _ h ↦ h) (fun s ↦ ?_) (fun _ h ↦ h) fun s h ↦ ?_
  · unfold compareAndSetJsonPaths
    split
    · rfl
    · split_ifs <;> rfl
  · obtain ⟨hcached, honly, doc', hmem, hdoc⟩ := h
    obtain rfl := List.mem_singleton.mp hmem
    unfold compareAndSetJsonPaths
    rw [hdoc]
    by_cases hrevision : currentRevision server.readNumber (doc'.lookup "settings-revision")
        = some (revision : ℚ)
    · simp only [if_pos hrevision]
      exact ⟨hcached, honly, _, List.mem_singleton_self _, rfl⟩
    · simp only [if_neg hrevision]
      exact ⟨hcached, honly, _, List.mem_singleton_self _, hdoc⟩

theorem patch_triple (docs : List Fields) (fields : Fields) :
    Triple (Holds canvasId docs)
      ((settingsBackend server directory).patchCanvasFields canvasId fields)
      fun _ s ↦ Holds canvasId docs s := by
  change Triple _ (patchCanvasFields server.hashCanvasPassword documentStore server.index canvasId
    fields) _
  unfold patchCanvasFields
  dsimp only [documentStore]
  split_ifs
  · exact triple_pure fun _ h ↦ h
  · split
    · refine triple_acting (fun _ _ h ↦ h) (fun s ↦ ?_) (fun _ h ↦ h) fun s h ↦ ?_
      · split <;> rfl
      · split
        · exact ⟨h.1, h.2.1.set _, h.2.2⟩
        · exact h
    · exact triple_pure fun _ h ↦ h

theorem Holds.mono {docs docs' : List Fields} (hdocs : docs ⊆ docs') {s : Store}
    (h : Holds canvasId docs s) : Holds canvasId docs' s :=
  ⟨h.1, h.2.1, h.2.2.imp fun _ hdoc ↦ ⟨hdocs hdoc.1, hdoc.2⟩⟩

theorem triple_return {docs docs' : List Fields} (a : α) (hdocs : docs ⊆ docs') :
    Triple (Holds canvasId docs) (pure a : Query Store α) fun _ s ↦ Holds canvasId docs' s :=
  fun _ hloss h ↦ ⟨hloss, h.mono canvasId hdocs⟩

/-- The documents that may be in memory after an update. -/
def Update.outcomes (u : Update) : List Fields :=
  [u.doc, u.updated, setFields u.updated u.restore]

theorem rollBack_triple :
    Triple (Holds canvasId [u.updated]) (rollBack (settingsBackend server directory) canvasId u)
      fun _ s ↦ Holds canvasId u.outcomes s := by
  unfold rollBack
  refine triple_bind (compareAndSet_triple server directory canvasId u.updated _ _) fun result ↦ ?_
  refine triple_bind (patch_triple server directory canvasId _ _) fun _ ↦
    triple_pure fun _ h ↦ h.mono canvasId ?_
  split_ifs <;> simp [Update.outcomes]

theorem commitSettings_triple (requestId : String) :
    Triple (Holds canvasId [u.doc])
      (commitSettings (settingsBackend server directory) canvasId requestId u)
      fun _ s ↦ Holds canvasId u.outcomes s := by
  unfold commitSettings
  refine triple_call_bind (compareAndSet_triple server directory canvasId u.doc _ _) fun result ↦ ?_
  rcases result with _ | _ | _
  · -- The document is changed; the snapshot store may still refuse.
    refine triple_call_bind (patch_triple server directory canvasId _ _) fun patched ↦ ?_
    change Triple (Holds canvasId [u.updated]) _ _
    rcases patched with _ | _
    · exact triple_call_bind (rollBack_triple server directory canvasId u) fun _ ↦
        triple_return canvasId _ (List.Subset.refl _)
    · have hset : Triple (Holds canvasId [u.updated])
          ((settingsBackend server directory).setSettingsRevision canvasId u.nextRevision)
          fun _ s ↦ Holds canvasId [u.updated] s := fun _ hloss h ↦ ⟨hloss, h⟩
      refine triple_call_bind hset fun _ ↦ ?_
      refine triple_query_bind ((asks_snapshot server directory _).quiet _ fun _ _ h ↦ h)
        (fun _ _ h ↦ h.mono canvasId ?_) fun _ ↦ triple_return canvasId _ ?_
      all_goals simp [Update.outcomes]
  · refine triple_call_bind (Q := fun _ s ↦ Holds canvasId [u.doc] s) ?_ fun latest ↦ ?_
    · exact (asks_bind asks_loadCanvas fun _ ↦ asks_pure _).quiet _ fun _ _ h ↦ h
    · refine triple_query_bind ((asks_snapshot server directory _).quiet _ fun _ _ h ↦ h)
        (fun _ _ h ↦ h.mono canvasId ?_) fun _ ↦ triple_return canvasId _ ?_
      all_goals simp [Update.outcomes]
  · exact triple_return canvasId _ (by simp [Update.outcomes])

/-- **Changing the settings.** However the calls of a change end, what is in memory and what is
stored keep their properties, if whatever an update may leave in memory has them. -/
theorem executeSettings_triple {inMemory stored : Fields → Prop}
    (hupdate : ∀ u : Update, inMemory u.doc →
      Planned server.hashCanvasPassword u.doc u.changes →
        (Json.obj u.doc).valueLong "settings-revision" 0 = .ok u.revision →
          ∀ doc ∈ u.outcomes, inMemory doc)
    (userId : ℤ) (nickname : String) (tag : ℤ) (event : Json) (requestId : String) :
    Triple (fun s ↦ Sound inMemory stored canvasId s ∧ s.revision.isSome)
      (executeSettings (settingsBackend server directory) canvasId userId nickname tag event
        requestId) fun _ s ↦ Sound inMemory stored canvasId s := by
  rintro s hloss ⟨hsound, hsome⟩
  have hasked := (asks_prepareSettings server directory canvasId userId nickname tag event
    requestId).quiet
    (fun t ↦ Sound inMemory stored canvasId t ∧ t.isCached ∧ t.document = s.document)
    (fun _ _ h ↦ h) s hloss ⟨hsound, hsound.1 hsome, rfl⟩
  rw [executeSettings_run]
  rcases hr : prepareSettings (settingsBackend server directory) canvasId userId nickname tag event
    requestId s with ⟨e | code | response | u, t⟩
  · rw [hr] at hasked
    exact ⟨hasked.1, hasked.2.1⟩
  · rw [hr] at hasked
    exact ⟨hasked.1, hasked.2.1⟩
  · rw [hr] at hasked
    exact ⟨hasked.1, hasked.2.1⟩
  · obtain ⟨hdoc, hplanned, hrevision⟩ := prepareSettings_update hr
    rw [hr] at hasked
    obtain ⟨hloss', hsound', hcached, hsame⟩ := hasked
    have hmemory := hsound'.2.1 u.doc (hsame.trans hdoc)
    have hcommit := commitSettings_triple server directory canvasId u requestId t hloss'
      ⟨hcached, hsound'.2.2.1, u.doc, List.mem_singleton_self _, hsame.trans hdoc⟩
    obtain ⟨hloss'', hcached', honly, doc, hmem, hdocument⟩ := hcommit
    refine ⟨hloss'', fun _ ↦ hcached', fun doc' hdoc' ↦ ?_, honly, fun h ↦ ?_⟩
    · obtain rfl := Option.some.inj (hdocument.symm.trans hdoc')
      exact hupdate u hmemory hplanned hrevision doc hmem
    · change (commitSettings (settingsBackend server directory) canvasId requestId u t).2.isCached
        = false at h
      rw [hcached'] at h
      nomatch h

end Writing

end Settings

end Agora
