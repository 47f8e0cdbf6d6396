import Agora.Settings.Service

/-!
# What a change of the settings calls

Up to the point where it writes, a change of the settings only asks: it keeps whatever its questions
keep (`prepareSettings_keeps`). What it then writes are a few fields, which are known by name
(`executeSettings_keeps`).
-/

namespace Agora

open Query (Keeps keeps_pure keeps_lift keeps_bind keeps_step)

namespace Settings

variable {σ α β : Type} {I : σ → Prop}

/-! ## Steps that keep something -/

/-- A call that keeps an invariant of the storage. -/
def Leaves (I : σ → Prop) (x : StateM σ α) : Prop := ∀ s, I s → I (x s).2

theorem leaves_pure (a : α) : Leaves I (pure a : StateM σ α) := fun _ h ↦ h

theorem leaves_bind {x : StateM σ α} {f : α → StateM σ β} (hx : Leaves I x)
    (hf : ∀ a, Leaves I (f a)) : Leaves I (x >>= f) := fun s h ↦ hf (x s).1 (x s).2 (hx s h)

theorem Leaves.keeps {x : StateM σ α} (hx : Leaves I x) : Keeps I (liftM x : Query σ α) := hx

section Attempt

theorem keeps_attempt_bind {x : Attempt σ α} {f : α → Attempt σ β} (hx : Keeps I x)
    (hf : ∀ a, Keeps I (f a)) : Keeps I (x >>= f : Attempt σ β) := by
  intro s h
  have hx' := hx s h
  rw [Attempt.bind_run]
  rcases hr : x s with ⟨e | code | a, t⟩
  · rw [hr] at hx'
    exact hx'
  · rw [hr] at hx'
    exact hx'
  · rw [hr] at hx'
    exact hf a t hx'

theorem keeps_attempt_pure (a : α) : Keeps I (pure a : Attempt σ α) := fun _ h ↦ h

theorem keeps_reject (code : String) : Keeps I (Attempt.reject code : Attempt σ α) := fun _ h ↦ h

theorem keeps_rejectIf (rejected : Bool) (code : String) :
    Keeps I (Attempt.rejectIf rejected code : Attempt σ Unit) := by
  cases rejected with
  | false => exact keeps_attempt_pure ()
  | true => exact keeps_reject code

theorem keeps_orReject (code : String) (x : Option α) :
    Keeps I (Attempt.orReject code x : Attempt σ α) := by
  cases x with
  | none => exact keeps_reject code
  | some a => exact keeps_attempt_pure a

theorem keeps_attempt_lift {x : Query σ α} (hx : Keeps I x) :
    Keeps I (liftM x : Attempt σ α) := by
  intro s h
  have hx' := hx s h
  rw [Attempt.lift_run]
  rcases hr : x s with ⟨e | a, t⟩
  · rw [hr] at hx'
    exact hx'
  · rw [hr] at hx'
    exact hx'

theorem Leaves.keeps_attempt {x : StateM σ α} (hx : Leaves I x) :
    Keeps I (liftM x : Attempt σ α) := hx

end Attempt

/-! ## Up to the writes -/

section Asking

variable {backend : Backend σ}

/-- The questions of a change of the settings keep an invariant of the storage. -/
structure Questions (backend : Backend σ) (I : σ → Prop) : Prop where
  loadCanvas : ∀ id, Leaves I (backend.loadCanvas id)
  isCanvasAssignedToServer : ∀ id, Leaves I (backend.isCanvasAssignedToServer id)
  getActiveUserId : ∀ nickname tag, Leaves I (backend.getActiveUserId nickname tag)
  getUserHandle : ∀ userId, Leaves I (backend.getUserHandle userId)
  hashCanvasPassword : ∀ password, Leaves I (backend.hashCanvasPassword password)

variable (h : Questions backend I)

include h

theorem participants_leaves : ∀ members, Leaves I (participants backend members)
  | [] => leaves_pure _
  | userId :: members => by
    refine leaves_bind (h.getUserHandle userId) fun handle ↦
      leaves_bind (participants_leaves members) fun entries ↦ ?_
    rcases handle with _ | ⟨nickname, tag⟩
    · exact leaves_pure _
    · exact leaves_pure _

theorem findHandle_leaves (nickname : String) (tag : ℤ) : ∀ members,
    Leaves I (findHandle backend nickname tag members)
  | [] => leaves_pure _
  | userId :: members => by
    refine leaves_bind (h.getUserHandle userId) fun handle ↦ ?_
    split_ifs
    · exact leaves_pure _
    · exact findHandle_leaves nickname tag members

theorem canvasSettingsSnapshot_keeps (doc : Json) :
    Keeps I (canvasSettingsSnapshot backend doc) := by
  refine keeps_bind (participants_leaves h _).keeps fun _ ↦ keeps_step fun _ ↦ ?_
  refine keeps_step fun _ ↦ keeps_step fun _ ↦ keeps_step fun _ ↦ keeps_pure _

omit h in
theorem eventTarget_keeps (event : Json) : Keeps I (eventTarget event : Attempt σ (String × ℤ)) :=
  keeps_attempt_bind (keeps_orReject _ _) fun _ ↦
    keeps_attempt_bind (keeps_rejectIf _ _) fun _ ↦ keeps_attempt_pure _

omit h in
theorem planVisibility_keeps (doc : Json) (value : String) :
    Keeps I (planVisibility doc value : Attempt σ (List (String × Json))) :=
  keeps_attempt_bind (keeps_rejectIf _ _) fun _ ↦
    keeps_attempt_bind (keeps_rejectIf _ _) fun _ ↦ keeps_attempt_pure _

theorem planPassword_keeps (doc : Json) (value : String) :
    Keeps I (planPassword backend doc value) := by
  refine keeps_attempt_bind (keeps_rejectIf _ _) fun _ ↦ ?_
  split_ifs
  · refine keeps_attempt_bind (h.hashCanvasPassword value).keeps_attempt fun _ ↦ ?_
    exact keeps_attempt_bind (keeps_orReject _ _) fun _ ↦ keeps_attempt_pure _
  · exact keeps_attempt_pure _

theorem planText_keeps (field : String) (doc : Json) (value : String) :
    Keeps I (planText backend field doc value) := by
  refine keeps_attempt_bind (keeps_rejectIf _ _) fun _ ↦
    keeps_attempt_bind (keeps_rejectIf _ _) fun _ ↦ ?_
  split_ifs
  · exact keeps_attempt_pure _
  · exact keeps_attempt_pure _
  · exact planPassword_keeps h doc value

theorem planAdd_keeps (doc event : Json) : Keeps I (planAdd backend doc event) := by
  refine keeps_attempt_bind (eventTarget_keeps event) fun target ↦
    keeps_attempt_bind (keeps_orReject _ _) fun _ ↦ ?_
  refine keeps_attempt_bind (h.getActiveUserId _ _).keeps_attempt fun _ ↦ ?_
  exact keeps_attempt_bind (keeps_rejectIf _ _) fun _ ↦
    keeps_attempt_bind (keeps_rejectIf _ _) fun _ ↦ keeps_attempt_pure _

theorem planRemove_keeps (doc event : Json) : Keeps I (planRemove backend doc event) := by
  refine keeps_attempt_bind (eventTarget_keeps event) fun target ↦
    keeps_attempt_bind (keeps_orReject _ _) fun _ ↦ ?_
  refine keeps_attempt_bind (findHandle_leaves h _ _ _).keeps_attempt fun _ ↦ ?_
  exact keeps_attempt_bind (keeps_rejectIf _ _) fun _ ↦
    keeps_attempt_bind (keeps_rejectIf _ _) fun _ ↦ keeps_attempt_pure _

theorem planChanges_keeps (doc event : Json) (field : String) :
    Keeps I (planChanges backend doc event field) := by
  unfold planChanges
  split_ifs
  · exact keeps_attempt_bind (keeps_orReject _ _) fun _ ↦
      keeps_attempt_bind (planVisibility_keeps doc _) fun _ ↦ keeps_attempt_pure _
  · exact keeps_attempt_bind (keeps_orReject _ _) fun _ ↦
      keeps_attempt_bind (planText_keeps h _ doc _) fun _ ↦ keeps_attempt_pure _
  · exact keeps_attempt_bind (planAdd_keeps h doc event) fun _ ↦ keeps_attempt_pure _
  · exact planRemove_keeps h doc event
  · exact @keeps_reject σ (List (String × Json) × ℤ) I "SETTINGS_INVALID_INPUT"

theorem prepareUpdate_keeps (doc : List (String × Json)) (userId : ℤ) (event : Json)
    (requestId : String) : Keeps I (prepareUpdate backend doc userId event requestId) := by
  refine keeps_attempt_bind (keeps_rejectIf _ _) fun _ ↦
    keeps_attempt_bind (keeps_orReject _ _) fun _ ↦
      keeps_attempt_bind (keeps_attempt_lift (keeps_lift _)) fun _ ↦ ?_
  split_ifs
  · exact keeps_attempt_bind (keeps_attempt_lift (canvasSettingsSnapshot_keeps h _)) fun _ ↦
      keeps_attempt_pure _
  · refine keeps_attempt_bind (keeps_orReject _ _) fun _ ↦ ?_
    exact keeps_attempt_bind (planChanges_keeps h _ _ _) fun _ ↦ keeps_attempt_pure _

theorem prepareSettings_keeps (id userId : ℤ) (nickname : String) (tag : ℤ) (event : Json)
    (requestId : String) :
    Keeps I (prepareSettings backend id userId nickname tag event requestId) := by
  refine keeps_attempt_bind (keeps_attempt_bind (h.loadCanvas id).keeps_attempt fun _ ↦
    keeps_orReject _ _) fun doc ↦ ?_
  refine keeps_attempt_bind (h.isCanvasAssignedToServer id).keeps_attempt fun _ ↦
    keeps_attempt_bind (keeps_rejectIf _ _) fun _ ↦
      keeps_attempt_bind (h.getActiveUserId _ _).keeps_attempt fun _ ↦
        keeps_attempt_bind (keeps_rejectIf _ _) fun _ ↦
          keeps_attempt_bind (keeps_attempt_lift (keeps_lift _)) fun type ↦ ?_
  split_ifs
  · exact keeps_attempt_bind (keeps_attempt_lift (canvasSettingsSnapshot_keeps h _)) fun _ ↦
      keeps_attempt_pure _
  · exact keeps_attempt_bind (keeps_rejectIf _ _) fun _ ↦
      prepareUpdate_keeps h doc userId event requestId

/-! ## The writes -/

/-- A change of the settings leaves the items alone, and the ledger. -/
def OffItems (fields : List (String × Json)) : Prop :=
  ∀ e ∈ fields, e.1 ∉ ["items", "__broker_sync"]

omit h in
theorem offItems_one {k : String} (hk : k ∉ ["items", "__broker_sync"]) (v : Json) :
    OffItems [(k, v)] :=
  List.forall_mem_singleton.mpr hk

omit h in
theorem offItems_two {k k' : String} (hk : k ∉ ["items", "__broker_sync"])
    (hk' : k' ∉ ["items", "__broker_sync"]) (v v' : Json) : OffItems [(k, v), (k', v')] :=
  List.forall_mem_cons.mpr ⟨hk, offItems_one hk' v'⟩

section Planning

variable {doc event : Json} {changes : List (String × Json)} {s t : σ}

omit h in
theorem planVisibility_offItems {value : String}
    (hplan : planVisibility doc value s = (.ok (.ok changes), t)) : OffItems changes := by
  obtain ⟨_, _, -, hplan⟩ := Attempt.bind_ok.mp hplan
  obtain ⟨_, _, -, hplan⟩ := Attempt.bind_ok.mp hplan
  rw [← (Attempt.pure_ok.mp hplan).1]
  exact offItems_one (by decide) _

omit h in
theorem planPassword_offItems {value : String}
    (hplan : planPassword backend doc value s = (.ok (.ok changes), t)) : OffItems changes := by
  obtain ⟨_, _, -, hplan⟩ := Attempt.bind_ok.mp hplan
  split_ifs at hplan
  · obtain ⟨_, _, -, hplan⟩ := Attempt.bind_ok.mp hplan
    obtain ⟨_, _, -, hplan⟩ := Attempt.bind_ok.mp hplan
    rw [← (Attempt.pure_ok.mp hplan).1]
    exact offItems_one (by decide) _
  · rw [← (Attempt.pure_ok.mp hplan).1]
    exact offItems_one (by decide) _

omit h in
theorem planText_offItems {field value : String}
    (hplan : planText backend field doc value s = (.ok (.ok changes), t)) : OffItems changes := by
  obtain ⟨_, _, -, hplan⟩ := Attempt.bind_ok.mp hplan
  obtain ⟨_, _, -, hplan⟩ := Attempt.bind_ok.mp hplan
  split_ifs at hplan
  · rw [← (Attempt.pure_ok.mp hplan).1]
    exact offItems_one (by decide) _
  · rw [← (Attempt.pure_ok.mp hplan).1]
    exact offItems_one (by decide) _
  · exact planPassword_offItems hplan

omit h in
theorem planAdd_offItems (hplan : planAdd backend doc event s = (.ok (.ok changes), t)) :
    OffItems changes := by
  obtain ⟨⟨nickname, tag⟩, _, -, hplan⟩ := Attempt.bind_ok.mp hplan
  obtain ⟨⟨people, groups⟩, _, -, hplan⟩ := Attempt.bind_ok.mp hplan
  obtain ⟨target, _, -, hplan⟩ := Attempt.bind_ok.mp hplan
  obtain ⟨_, _, -, hplan⟩ := Attempt.bind_ok.mp hplan
  obtain ⟨_, _, -, hplan⟩ := Attempt.bind_ok.mp hplan
  rw [← (Attempt.pure_ok.mp hplan).1]
  exact offItems_two (by decide) (by decide) _ _

omit h in
theorem planRemove_offItems {removed : ℤ}
    (hplan : planRemove backend doc event s = (.ok (.ok (changes, removed)), t)) :
    OffItems changes := by
  obtain ⟨⟨nickname, tag⟩, _, -, hplan⟩ := Attempt.bind_ok.mp hplan
  obtain ⟨⟨people, groups⟩, _, -, hplan⟩ := Attempt.bind_ok.mp hplan
  obtain ⟨_, _, -, hplan⟩ := Attempt.bind_ok.mp hplan
  obtain ⟨_, _, -, hplan⟩ := Attempt.bind_ok.mp hplan
  obtain ⟨_, _, -, hplan⟩ := Attempt.bind_ok.mp hplan
  rw [← (Prod.mk.inj (Attempt.pure_ok.mp hplan).1).1]
  exact offItems_two (by decide) (by decide) _ _

omit h in
theorem planChanges_offItems {field : String} {removed : ℤ}
    (hplan : planChanges backend doc event field s = (.ok (.ok (changes, removed)), t)) :
    OffItems changes := by
  unfold planChanges at hplan
  split_ifs at hplan
  · obtain ⟨value, _, -, hplan⟩ := Attempt.bind_ok.mp hplan
    obtain ⟨_, _, hchanges, hplan⟩ := Attempt.bind_ok.mp hplan
    rw [← (Prod.mk.inj (Attempt.pure_ok.mp hplan).1).1]
    exact planVisibility_offItems hchanges
  · obtain ⟨value, _, -, hplan⟩ := Attempt.bind_ok.mp hplan
    obtain ⟨_, _, hchanges, hplan⟩ := Attempt.bind_ok.mp hplan
    rw [← (Prod.mk.inj (Attempt.pure_ok.mp hplan).1).1]
    exact planText_offItems hchanges
  · obtain ⟨_, _, hchanges, hplan⟩ := Attempt.bind_ok.mp hplan
    rw [← (Prod.mk.inj (Attempt.pure_ok.mp hplan).1).1]
    exact planAdd_offItems hchanges
  · exact planRemove_offItems hplan
  · nomatch hplan

omit h in
/-- An update that is about to be written: its document was loaded, with its revision, and its
changes are what the event asks for. -/
theorem prepareSettings_ok {id userId : ℤ} {nickname : String} {tag : ℤ} {requestId : String}
    {u : Update} (hprepared : prepareSettings backend id userId nickname tag event requestId s
      = (.ok (.ok (.update u)), t)) :
    (backend.loadCanvas id s).1 = some (some (.obj u.doc)) ∧
      (Json.obj u.doc).valueLong "settings-revision" 0 = .ok u.revision ∧
        ∃ s' field removed t', planChanges backend (.obj u.doc) event field s'
          = (.ok (.ok (u.changes, removed)), t') := by
  obtain ⟨doc, _, hload, h⟩ := Attempt.bind_ok.mp hprepared
  obtain ⟨_, _, -, h⟩ := Attempt.bind_ok.mp h
  obtain ⟨_, _, -, h⟩ := Attempt.bind_ok.mp h
  obtain ⟨_, _, -, h⟩ := Attempt.bind_ok.mp h
  obtain ⟨_, _, -, h⟩ := Attempt.bind_ok.mp h
  obtain ⟨type, _, -, h⟩ := Attempt.bind_ok.mp h
  have hloaded : (backend.loadCanvas id s).1 = some (some (.obj doc)) := by
    obtain ⟨raw, _, hraw, hdoc⟩ := Attempt.bind_ok.mp hload
    have hdoc := (Attempt.orReject_ok.mp hdoc).1
    rw [Attempt.call_ok.mp hraw]
    split at hdoc
    · rw [Option.some.inj hdoc]
    · contradiction
  split_ifs at h
  · obtain ⟨_, _, -, h⟩ := Attempt.bind_ok.mp h
    exact Prepared.noConfusion (Attempt.pure_ok.mp h).1
  obtain ⟨_, _, -, h⟩ := Attempt.bind_ok.mp h
  obtain ⟨_, _, -, h⟩ := Attempt.bind_ok.mp h
  obtain ⟨_, _, -, h⟩ := Attempt.bind_ok.mp h
  obtain ⟨revision, _, hrevision, h⟩ := Attempt.bind_ok.mp h
  split_ifs at h
  · obtain ⟨_, _, -, h⟩ := Attempt.bind_ok.mp h
    exact Prepared.noConfusion (Attempt.pure_ok.mp h).1
  obtain ⟨field, _, -, h⟩ := Attempt.bind_ok.mp h
  obtain ⟨⟨changes, removed⟩, _, hplan, h⟩ := Attempt.bind_ok.mp h
  rw [← Prepared.update.inj (Attempt.pure_ok.mp h).1]
  exact ⟨hloaded, (Prod.mk.inj (Attempt.lift_ok.mp hrevision)).1, _, field, removed, _, hplan⟩

omit h in
theorem prepareSettings_offItems {id userId : ℤ} {nickname : String} {tag : ℤ} {requestId : String}
    {u : Update} (hprepared : prepareSettings backend id userId nickname tag event requestId s
      = (.ok (.ok (.update u)), t)) : OffItems u.changes := by
  obtain ⟨-, -, _, _, _, _, hplan⟩ := prepareSettings_ok hprepared
  exact planChanges_offItems hplan

end Planning

omit h in
theorem Update.offItems_fields {u : Update} (hu : OffItems u.changes) : OffItems u.fields :=
  List.forall_mem_append.mpr ⟨hu, offItems_one (by decide) _⟩

omit h in
theorem Update.offItems_restore {u : Update} (hu : OffItems u.changes) : OffItems u.restore := by
  intro e he
  obtain ⟨e', he', rfl⟩ := List.mem_map.mp he
  exact u.offItems_fields hu e' ((Json.sortedFields_perm _).mem_iff.mp he')

/-- What a change of the settings writes keeps an invariant of the storage. -/
structure Writings (backend : Backend σ) (I : σ → Prop) : Prop where
  compareAndSetFields : ∀ id revision fields, OffItems fields →
    Leaves I (backend.compareAndSetFields id revision fields)
  patchCanvasFields : ∀ id fields, Leaves I (backend.patchCanvasFields id fields)
  setSettingsRevision : ∀ id revision, Leaves I (backend.setSettingsRevision id revision)

theorem commitSettings_keeps (hwrite : Writings backend I) (id : ℤ) (requestId : String)
    {u : Update} (hu : OffItems u.changes) : Keeps I (commitSettings backend id requestId u) := by
  refine keeps_bind (hwrite.compareAndSetFields id _ _ (u.offItems_fields hu)).keeps fun result ↦ ?_
  cases result with
  | conflict =>
    refine keeps_bind (h.loadCanvas id).keeps fun latest ↦ ?_
    exact keeps_bind (canvasSettingsSnapshot_keeps h _) fun _ ↦ keeps_pure _
  | error => exact keeps_pure _
  | applied =>
    refine keeps_bind (hwrite.patchCanvasFields id _).keeps fun patched ↦ ?_
    cases patched with
    | true =>
      refine keeps_bind (hwrite.setSettingsRevision id _).keeps fun _ ↦ ?_
      exact keeps_bind (canvasSettingsSnapshot_keeps h _) fun _ ↦ keeps_pure _
    | false =>
      have hback : Leaves I (rollBack backend id u) :=
        leaves_bind (hwrite.compareAndSetFields id _ _ (u.offItems_restore hu)) fun _ ↦
          leaves_bind (hwrite.patchCanvasFields id _) fun _ ↦ leaves_pure _
      exact keeps_bind hback.keeps fun _ ↦ keeps_pure _

/-- **Changing the settings** keeps what its questions and its writes keep. -/
theorem executeSettings_keeps (hwrite : Writings backend I) (id userId : ℤ) (nickname : String)
    (tag : ℤ) (event : Json) (requestId : String) :
    Keeps I (executeSettings backend id userId nickname tag event requestId) := by
  intro s hs
  have hasked := prepareSettings_keeps h id userId nickname tag event requestId s hs
  rw [executeSettings_run]
  rcases hr : prepareSettings backend id userId nickname tag event requestId s with
    ⟨e | code | response | u, t⟩
  · rw [hr] at hasked
    exact hasked
  · rw [hr] at hasked
    exact hasked
  · rw [hr] at hasked
    exact hasked
  · rw [hr] at hasked
    exact commitSettings_keeps h hwrite id requestId (prepareSettings_offItems hr) t hasked

end Asking

end Settings

end Agora
