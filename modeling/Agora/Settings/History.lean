import Agora.Settings.Rollback

/-!
# What a revision says about the settings

A reader looks at the document in memory between any two calls of a change of the settings, and
later compares revisions. A change that is written moves the revision on; taking a change back moves
it back, after a reader may have seen it, and the next change takes the same revision again.

**Main result.** As long as no change is taken back, documents that were seen with one revision are
one document (`revision_determines`).
-/

namespace Agora

namespace Settings

open Query (Keeps keeps_pure keeps_bind keeps_step)
open Snapshot (Fields passwordField)

variable {α β : Type}

/-! ## Readers -/

/-- The places of a document, and the documents that memory has held so far. -/
structure Watched where
  store : Store
  seen : List Fields := []

/-- A call, after which memory is read. -/
def watch (x : StateM Store α) : StateM Watched α := fun w ↦
  let r := x w.store
  (r.1, { store := r.2, seen := w.seen ++ r.2.document.toList })

/-- The calls of a change of the settings, with memory read after each of them. -/
def watchedBackend (server : Server) (directory : List Fault → Directory) : Backend Watched :=
  let backend := settingsBackend server directory
  { quietBackend Watched with
    getActiveUserId := fun nickname tag ↦ watch (backend.getActiveUserId nickname tag)
    getUserHandle := fun userId ↦ watch (backend.getUserHandle userId)
    isCanvasAssignedToServer := fun id ↦ watch (backend.isCanvasAssignedToServer id)
    hashCanvasPassword := fun value ↦ watch (backend.hashCanvasPassword value)
    loadCanvas := fun id ↦ watch (backend.loadCanvas id)
    compareAndSetFields := fun id revision fields ↦
      watch (backend.compareAndSetFields id revision fields)
    patchCanvasFields := fun id fields ↦ watch (backend.patchCanvasFields id fields)
    setSettingsRevision := fun id revision ↦ watch (backend.setSettingsRevision id revision) }

/-- A change of the settings that a user asks for. -/
structure Task where
  userId : ℤ
  nickname : String
  tag : ℤ
  event : Json
  requestId : String

section Tasks

variable (server : Server) (directory : List Fault → Directory) (canvasId : ℤ)

def Task.prepare (task : Task) : Attempt Watched Prepared :=
  prepareSettings (watchedBackend server directory) canvasId task.userId task.nickname task.tag
    task.event task.requestId

def Task.execute (task : Task) (w : Watched) : Watched :=
  (executeSettings (watchedBackend server directory) canvasId task.userId task.nickname task.tag
    task.event task.requestId w).2

/-- Tasks one after the other. -/
def runTasks (tasks : List Task) (w : Watched) : Watched :=
  tasks.foldl (fun w task ↦ task.execute server directory canvasId w) w

/-- The task takes nothing back: what it has written is taken by the snapshot store too, or putting
it back has no effect; and there is a next revision. -/
def Task.Forward (task : Task) (w : Watched) : Prop :=
  let backend := watchedBackend server directory
  ∀ u w₁, task.prepare server directory canvasId w = (.ok (.ok (.update u)), w₁) →
    u.revision < 9223372036854775807 ∧
      ∀ w₂ w₃, backend.compareAndSetFields canvasId u.revision u.fields w₁ = (.applied, w₂) →
        backend.patchCanvasFields canvasId u.patch w₂ = (false, w₃) →
          w₃.store.faults.headD .answered = .failed

/-- Every task of a run takes nothing back. -/
def AllForward : List Task → Watched → Prop
  | [], _ => True
  | task :: tasks, w => task.Forward server directory canvasId w ∧
      AllForward tasks (task.execute server directory canvasId w)

end Tasks

/-! ## Revisions -/

/-- The revision that a document is read with. -/
def revisionOf (doc : Fields) : Option ℤ :=
  ((Json.obj doc).valueLong "settings-revision" 0).toOption

/-- A document has a smaller revision than another. -/
def Older (a b : Fields) : Prop :=
  ∃ m n, revisionOf a = some m ∧ revisionOf b = some n ∧ m < n

theorem Older.trans {a b c : Fields} (h : Older a b) (h' : Older b c) : Older a c := by
  obtain ⟨m, n, hm, hn, hlt⟩ := h
  obtain ⟨n', k, hn', hk, hlt'⟩ := h'
  obtain rfl := Option.some.inj (hn.symm.trans hn')
  exact ⟨m, k, hm, hk, hlt.trans hlt'⟩

theorem Older.ne {a b : Fields} (h : Older a b) : revisionOf a ≠ revisionOf b := by
  obtain ⟨m, n, hm, hn, hlt⟩ := h
  rw [hm, hn]
  exact fun heq ↦ absurd (Option.some.inj heq) hlt.ne

theorem wrap_range (n : ℤ) :
    -9223372036854775808 ≤ Json.wrap 64 n ∧ Json.wrap 64 n < 9223372036854775808 := by
  rw [Json.wrap]
  omega

theorem valueLong_range {doc : Fields} {revision : ℤ}
    (h : (Json.obj doc).valueLong "settings-revision" 0 = .ok revision) :
    -9223372036854775808 ≤ revision := by
  rw [Json.valueLong, Json.value] at h
  split at h
  · next v _ =>
    rw [Json.getLong] at h
    cases v with
    | int n => exact Except.ok.inj h ▸ (wrap_range n).1
    | float q => exact Except.ok.inj h ▸ (wrap_range _).1
    | bool b =>
      have hb := Except.ok.inj h
      split_ifs at hb <;> omega
    | _ => cases h
  · rw [← Except.ok.inj h]
    decide

/-- A document with the fields of an update has the next revision. -/
theorem older_setFields {u : Update}
    (hread : (Json.obj u.doc).valueLong "settings-revision" 0 = .ok u.revision)
    (hbound : u.revision < 9223372036854775807) : Older u.doc (setFields u.doc u.fields) := by
  have hlow := valueLong_range hread
  have hnext : u.nextRevision = u.revision + 1 := Json.wrap_64 (by omega) (by omega)
  refine ⟨u.revision, u.revision + 1, by rw [revisionOf, hread]; rfl, ?_, by omega⟩
  have hlookup : (setFields u.doc u.fields).lookup "settings-revision"
      = some (.int u.nextRevision) := by
    rw [setFields, Update.fields, List.foldl_append, List.foldl_cons, List.foldl_nil]
    exact Assoc.lookup_set_self ..
  rw [revisionOf, Json.valueLong, Json.value, hlookup, hnext]
  exact congrArg some (Json.wrap_64 (by omega) (by omega))

/-! ## What was seen -/

/-- A revision was seen with one document only, and memory holds the latest. -/
structure Chronicle (w : Watched) : Prop where
  unique : ∀ a ∈ w.seen, ∀ b ∈ w.seen, revisionOf a = revisionOf b → a = b
  latest : ∀ doc, w.store.document = some doc → ∀ a ∈ w.seen, a = doc ∨ Older a doc

theorem chronicle_start (s : Store) : Chronicle { store := s, seen := s.document.toList } := by
  have hseen : ∀ a ∈ s.document.toList, s.document = some a := fun a ha ↦ Option.mem_toList.mp ha
  refine ⟨fun a ha b hb _ ↦ ?_, fun doc hdoc a ha ↦ Or.inl ?_⟩
  · exact Option.some.inj ((hseen a ha).symm.trans (hseen b hb))
  · exact Option.some.inj ((hseen a ha).symm.trans hdoc)

/-- A call leaves the document, or replaces it by a later one. -/
theorem Chronicle.watch {w : Watched} (h : Chronicle w) {x : StateM Store α}
    (hx : (x w.store).2.document = w.store.document ∨ ∃ doc next, w.store.document = some doc ∧
      (x w.store).2.document = some next ∧ Older doc next) :
    Chronicle (Settings.watch x w).2 := by
  have hlatest : ∀ doc, (x w.store).2.document = some doc →
      ∀ a ∈ w.seen, a = doc ∨ Older a doc := by
    intro doc hdoc a ha
    rcases hx with hsame | ⟨old, next, hold, hnext, holder⟩
    · exact h.latest doc (hsame.symm.trans hdoc) a ha
    · obtain rfl := Option.some.inj (hnext.symm.trans hdoc)
      rcases h.latest old hold a ha with rfl | hless
      · exact Or.inr holder
      · exact Or.inr (hless.trans holder)
  refine ⟨fun a ha b hb hrevision ↦ ?_, fun doc hdoc a ha ↦ ?_⟩
  · change a ∈ w.seen ++ (x w.store).2.document.toList at ha
    change b ∈ w.seen ++ (x w.store).2.document.toList at hb
    rcases List.mem_append.mp ha with ha | ha <;> rcases List.mem_append.mp hb with hb | hb
    · exact h.unique a ha b hb hrevision
    · exact (hlatest b (Option.mem_toList.mp hb) a ha).resolve_right fun hless ↦ hless.ne hrevision
    · exact ((hlatest a (Option.mem_toList.mp ha) b hb).resolve_right
        fun hless ↦ hless.ne hrevision.symm).symm
    · exact Option.some.inj
        ((Option.mem_toList.mp ha).symm.trans (Option.mem_toList.mp hb))
  · change a ∈ w.seen ++ (x w.store).2.document.toList at ha
    rcases List.mem_append.mp ha with ha | ha
    · exact hlatest doc hdoc a ha
    · exact Or.inl (Option.some.inj ((Option.mem_toList.mp ha).symm.trans hdoc))

section Steps

variable {server : Server} {directory : List Fault → Directory} {canvasId : ℤ}

/-- What was seen, while memory holds a document. -/
def During (found : Option Fields) (w : Watched) : Prop :=
  Chronicle w ∧ w.store.document = found

theorem leaves_watch {found : Option Fields} {x : StateM Store α}
    (hx : ∀ s, (x s).2.document = s.document) : Leaves (During found) (watch x) :=
  fun w h ↦ ⟨h.1.watch (Or.inl (hx w.store)), (hx w.store).trans h.2⟩

theorem Asks.document {x : StateM Store α} (hx : Asks x) (s : Store) :
    (x s).2.document = s.document := by
  obtain ⟨faults, -, hx⟩ := hx s
  rw [hx]

theorem questions_during (found : Option Fields) :
    Questions (watchedBackend server directory) (During found) where
  loadCanvas _ := leaves_watch (asks_bind asks_loadCanvas fun _ ↦ asks_pure _).document
  isCanvasAssignedToServer _ := leaves_watch (asks_asking _).document
  getActiveUserId _ _ := leaves_watch (asks_asking _).document
  getUserHandle _ := leaves_watch (asks_asking _).document
  hashCanvasPassword _ := leaves_watch (asks_pure _).document

theorem document_acting {unanswered : α} {f : Store → α × Store}
    (hf : ∀ s, (f s).2.document = s.document) (s : Store) :
    (Store.acting unanswered f s).2.document = s.document := by
  rcases Store.acting_cases unanswered f s with heq | ⟨heq, -⟩
  · rw [heq]
  · rw [heq, hf]

theorem document_patch (fields : Fields) (s : Store) :
    ((settingsBackend server directory).patchCanvasFields canvasId fields s).2.document
      = s.document := by
  change (patchCanvasFields server.hashCanvasPassword documentStore server.index canvasId fields
    s).2.document = _
  rw [patchCanvasFields]
  split_ifs
  · rfl
  rcases Snapshot.normalizePassword server.hashCanvasPassword fields with _ | new
  · rfl
  · refine document_acting (fun s ↦ ?_) s
    split <;> rfl

theorem document_compareAndSet (revision : ℤ) (fields : Fields) (s : Store) :
    let t := ((settingsBackend server directory).compareAndSetFields canvasId revision fields s).2
    t.document = s.document ∨ ∃ doc, s.document = some doc ∧
      t.document = some (setFields doc fields) := by
  change
    let t := (Store.acting .error (compareAndSetJsonPaths server.readNumber revision fields) s).2
    t.document = s.document ∨ ∃ doc, s.document = some doc ∧
      t.document = some (setFields doc fields)
  rcases Store.acting_cases .error (compareAndSetJsonPaths server.readNumber revision fields) s with
    heq | ⟨heq, -⟩
  · exact Or.inl (by rw [heq])
  · dsimp only
    rw [heq, compareAndSetJsonPaths]
    rcases s.document with _ | doc
    · exact Or.inl rfl
    · dsimp only
      split_ifs
      · exact Or.inr ⟨doc, rfl, rfl⟩
      · exact Or.inl rfl

/-- A write that fails without an effect. -/
theorem document_compareAndSet_failed {s : Store} (h : s.faults.headD .answered = .failed)
    (revision : ℤ) (fields : Fields) :
    ((settingsBackend server directory).compareAndSetFields canvasId revision fields s).2.document
      = s.document := by
  change (Store.acting .error (compareAndSetJsonPaths server.readNumber revision fields)
    s).2.document = _
  rw [Store.acting, h]

theorem keeps_chronicle {x : Query Watched α}
    (hx : ∀ found, Keeps (During found) x) : Keeps Chronicle x :=
  fun w h ↦ (hx w.store.document w ⟨h, rfl⟩).1

theorem leaves_chronicle {x : StateM Store α} (hx : ∀ s, (x s).2.document = s.document) :
    Leaves Chronicle (watch x) := fun _ h ↦ h.watch (Or.inl (hx _))

theorem snapshot_chronicle (doc : Json) :
    Keeps Chronicle (canvasSettingsSnapshot (watchedBackend server directory) doc) :=
  keeps_chronicle fun found ↦ canvasSettingsSnapshot_keeps (questions_during found) doc

/-- What follows the write of an update that nothing is taken back of. -/
theorem commitSettings_chronicle {u : Update} {requestId : String} {w : Watched}
    (h : Chronicle w) (hdoc : w.store.document = some u.doc)
    (hread : (Json.obj u.doc).valueLong "settings-revision" 0 = .ok u.revision)
    (hbound : u.revision < 9223372036854775807)
    (hforward : ∀ w₂ w₃,
      (watchedBackend server directory).compareAndSetFields canvasId u.revision u.fields w
        = (.applied, w₂) →
      (watchedBackend server directory).patchCanvasFields canvasId u.patch w₂ = (false, w₃) →
        w₃.store.faults.headD .answered = .failed) :
    Chronicle
      (commitSettings (watchedBackend server directory) canvasId requestId u w).2 := by
  have hset : Chronicle
      ((watchedBackend server directory).compareAndSetFields canvasId u.revision u.fields w).2 := by
    refine h.watch ?_
    rcases @document_compareAndSet server directory canvasId u.revision u.fields w.store with
      hsame | ⟨doc, hdoc', hnext⟩
    · exact Or.inl hsame
    · obtain rfl := Option.some.inj (hdoc.symm.trans hdoc')
      exact Or.inr ⟨_, _, hdoc, hnext, older_setFields hread hbound⟩
  rcases hrun : (watchedBackend server directory).compareAndSetFields canvasId u.revision u.fields w
    with ⟨result, w₂⟩
  rw [hrun] at hset
  rw [commitSettings, Query.bind_of_ok (by rw [Query.call_run, hrun])]
  cases result with
  | conflict =>
    refine keeps_bind (leaves_chronicle fun s ↦ ?_ : Leaves Chronicle
      ((watchedBackend server directory).loadCanvas canvasId)).keeps (fun latest ↦ ?_) w₂ hset
    · exact (asks_bind asks_loadCanvas fun _ ↦ asks_pure _).document s
    · exact keeps_bind (snapshot_chronicle _) fun _ ↦ keeps_pure _
  | error => exact hset
  | applied =>
    have hpatch : Chronicle
        ((watchedBackend server directory).patchCanvasFields canvasId u.patch w₂).2 :=
      leaves_chronicle (document_patch u.patch) w₂ hset
    rcases hrun' : (watchedBackend server directory).patchCanvasFields canvasId u.patch w₂
      with ⟨patched, w₃⟩
    rw [hrun'] at hpatch
    dsimp only
    rw [Query.bind_of_ok (by rw [Query.call_run, hrun'])]
    cases patched with
    | true =>
      have hrevision : Leaves Chronicle
          ((watchedBackend server directory).setSettingsRevision canvasId u.nextRevision) :=
        leaves_chronicle fun _ ↦ rfl
      exact keeps_bind hrevision.keeps
        (fun _ ↦ keeps_bind (snapshot_chronicle _) fun _ ↦ keeps_pure _) w₃ hpatch
    | false =>
      -- Nothing is put back in memory.
      have hfailed := hforward w₂ w₃ hrun hrun'
      have hback : Chronicle ((watchedBackend server directory).compareAndSetFields canvasId
          u.nextRevision u.restore w₃).2 :=
        hpatch.watch (Or.inl (document_compareAndSet_failed hfailed _ _))
      exact leaves_chronicle (document_patch u.restore) _ hback

/-- A task that takes nothing back. -/
theorem Task.execute_chronicle {task : Task} {w : Watched} (h : Chronicle w)
    (hforward : task.Forward server directory canvasId w) :
    Chronicle (task.execute server directory canvasId w) := by
  have hasked := prepareSettings_keeps (@questions_during server directory w.store.document)
    canvasId task.userId task.nickname task.tag task.event task.requestId w ⟨h, rfl⟩
  rw [Task.execute, executeSettings_run]
  rcases hrun : prepareSettings (watchedBackend server directory) canvasId task.userId task.nickname
    task.tag task.event task.requestId w with ⟨e | code | response | u, w₁⟩
  all_goals rw [hrun] at hasked
  · exact hasked.1
  · exact hasked.1
  · exact hasked.1
  · obtain ⟨hloaded, hread, -⟩ := prepareSettings_ok hrun
    have hdoc := loadCanvas_some server directory canvasId hloaded
    obtain ⟨hbound, htaken⟩ := hforward u w₁ hrun
    exact commitSettings_chronicle hasked.1 (hasked.2.trans hdoc) hread hbound htaken

theorem runTasks_chronicle {tasks : List Task} {w : Watched} (h : Chronicle w)
    (hforward : AllForward server directory canvasId tasks w) :
    Chronicle (runTasks server directory canvasId tasks w) := by
  induction tasks generalizing w with
  | nil => exact h
  | cons task tasks ih => exact ih (Task.execute_chronicle h hforward.1) hforward.2

/-- **Revisions.** While no change is taken back, two documents that were seen with one revision are
the same. -/
theorem revision_determines {tasks : List Task} {s : Store}
    (hforward : AllForward server directory canvasId tasks
      { store := s, seen := s.document.toList }) {a b : Fields}
    (ha : a ∈ (runTasks server directory canvasId tasks
      { store := s, seen := s.document.toList }).seen)
    (hb : b ∈ (runTasks server directory canvasId tasks
      { store := s, seen := s.document.toList }).seen)
    (hrevision : revisionOf a = revisionOf b) : a = b :=
  (runTasks_chronicle (chronicle_start s) hforward).unique a ha b hb hrevision

end Steps

/-! ### A description that is changed -/

def describesOnce : Task where
  userId := 1
  nickname := "ann"
  tag := 1
  event := describe
  requestId := "r"

theorem describesOnce_forward :
    describesOnce.Forward zeroServer onlyAnn 7
      { store := storedTwice described [], seen := [described] } := by
  intro u w₁ hprepared
  have hrun : describesOnce.prepare zeroServer onlyAnn 7
      { store := storedTwice described [], seen := [described] }
      = (.ok (.ok (.update (describing described))),
        { store := storedTwice described [], seen := List.replicate 4 described }) := rfl
  obtain ⟨hu, rfl⟩ := Prod.mk.inj (hrun.symm.trans hprepared)
  obtain rfl := Prepared.update.inj (Except.ok.inj (Except.ok.inj hu))
  refine ⟨by decide, fun w₂ w₃ hset hpatch ↦ ?_⟩
  obtain rfl := (Prod.mk.inj hset).2
  exact absurd (congrArg Prod.fst hpatch) Bool.noConfusion

theorem described_once :
    ((runTasks zeroServer onlyAnn 7 [describesOnce]
        { store := storedTwice described [], seen := [described] }).seen.filter
      fun a ↦ revisionOf a = some 0).all fun a ↦ a = described := by
  have hforward : AllForward zeroServer onlyAnn 7 [describesOnce]
      { store := storedTwice described [], seen := (storedTwice described []).document.toList } :=
    ⟨describesOnce_forward, trivial⟩
  rw [List.all_eq_true]
  intro a h
  obtain ⟨ha, hrevision⟩ := List.mem_filter.mp h
  exact decide_eq_true
    (revision_determines hforward ha (by decide +kernel) (of_decide_eq_true hrevision))

end Settings

end Agora
