import Agora.Settings.Lifecycle
import Agora.Settings.Shutdown

/-!
# Loads that fail

A load first marks the row of a canvas as loaded and then brings the document into memory. When it
breaks off in between it has to undo the mark, since a loaded canvas is read from memory only.

**Main result.** A failed load leaves a canvas that can be loaded again exactly when nothing that it
did is left half undone (`failed_load_iff`): the mark was not made without an answer, and where it
was made it was taken back, or memory holds the document after all.
-/

namespace Agora

namespace Settings

open Snapshot (Fields EncodedFrom parts passwordField legacyFields restoreDocument safeDocument)

/-- Memory holds a document with a property. -/
def Kept (inMemory : Fields → Prop) (found : Option Fields) : Prop :=
  ∃ doc, found = some doc ∧ inMemory doc

/-- The document is where the row says. -/
def Loadable (inMemory stored : Fields → Prop) (canvasId : ℤ) (s : Store) : Prop :=
  OnlyStored canvasId s.index ∧
    (s.isCached = false ∧ StoredIn stored canvasId s.index ∨
      s.isCached = true ∧ Kept inMemory s.document)

/-- Documents that can be loaded, from the snapshot store and in memory. -/
structure Readable (server : Server) (inMemory stored : Fields → Prop) : Prop
    extends Lifelong server inMemory stored where
  index : server.index ≠ ""
  restores : ∀ {source}, stored source → ∃ doc migrated,
    restoreDocument server.library (.obj source) = some (.obj doc) ∧
      migratedDocument server doc = some migrated
  migrates : ∀ {doc}, inMemory doc → ∃ migrated, migratedDocument server doc = some migrated
  saves : ∀ {doc}, inMemory doc →
    ∃ source, safeDocument server.hashCanvasPassword server.library doc = some source
  revision : ∀ {doc}, inMemory doc →
    ∃ revision, (Json.obj doc).valueLong "settings-revision" 0 = .ok revision

/-! ## Calls that may end in any way -/

section Always

variable {α β : Type} {P : Store → Prop} {Q : α → Store → Prop} {R : β → Store → Prop}

/-- From a state with `P`, a step ends in a state with `Q`. -/
def Always (P : Store → Prop) (x : StateM Store α) (Q : α → Store → Prop) : Prop :=
  ∀ s, P s → Q (x s).1 (x s).2

theorem always_pure {a : α} (h : ∀ s, P s → Q a s) : Always P (pure a) Q := h

theorem always_bind {x : StateM Store α} {f : α → StateM Store β} (hx : Always P x Q)
    (hf : ∀ a, Always (Q a) (f a) R) : Always P (x >>= f) R :=
  fun s hs ↦ hf (x s).1 (x s).2 (hx s hs)

/-- A call: it fails, or it acts and is answered or not. -/
theorem always_acting {unanswered : α} {f : Store → α × Store}
    (hsteady : ∀ s faults, P s → P { s with faults }) (hfails : ∀ s, P s → Q unanswered s)
    (hacts : ∀ s, P s → Q (f s).1 (f s).2 ∧ Q unanswered (f s).2) :
    Always P (Store.acting unanswered f) Q := by
  intro s hs
  have hs' := hsteady s s.faults.tail hs
  rw [Store.acting]
  rcases s.faults.headD .answered with _ | _ | _
  · exact (hacts _ hs').1
  · exact hfails _ hs'
  · exact (hacts _ hs').2

/-- A call that changes nothing. -/
theorem always_reading {unanswered : α} {g : Store → α}
    (hsteady : ∀ s faults, P s → P { s with faults }) (hfails : ∀ s, P s → Q unanswered s)
    (hreads : ∀ s, P s → Q (g s) s) : Always P (Store.acting unanswered fun s ↦ (g s, s)) Q :=
  always_acting hsteady hfails fun s hs ↦ ⟨hreads s hs, hfails s hs⟩

end Always

section Acting

variable {α : Type} {unanswered : α} {f : Store → α × Store} {s : Store}

theorem acting_answered (h : s.faults.headD .answered = .answered) :
    Store.acting unanswered f s = f { s with faults := s.faults.tail } := by
  rw [Store.acting, h]

theorem acting_failed (h : s.faults.headD .answered = .failed) :
    Store.acting unanswered f s = (unanswered, { s with faults := s.faults.tail }) := by
  rw [Store.acting, h]

theorem acting_lost (h : s.faults.headD .answered = .lost) :
    Store.acting unanswered f s = (unanswered, (f { s with faults := s.faults.tail }).2) := by
  rw [Store.acting, h]

/-- A call that changes nothing, by its answer. -/
theorem acting_reading (unanswered : α) (g : Store → α) (s : Store) :
    Store.acting unanswered (fun s ↦ (g s, s)) s =
      (if s.faults.headD .answered = .answered then g { s with faults := s.faults.tail }
        else unanswered, { s with faults := s.faults.tail }) := by
  rcases hfault : s.faults.headD .answered with _ | _ | _
  · rw [acting_answered hfault, if_pos rfl]
  · rw [acting_failed hfault, if_neg (by decide)]
  · rw [acting_lost hfault, if_neg (by decide)]

end Acting

section Recovery

variable {server : Server} {inMemory stored : Fields → Prop} {canvasId : ℤ}

/-! ## Bringing a document into memory -/

/-- The row says that the canvas is loaded. What was stored is still stored, and memory is as it was
or holds the document. -/
structure Begun (inMemory stored : Fields → Prop) (canvasId : ℤ) (wasCached : Bool)
    (leftover : Option Fields) (s : Store) : Prop where
  isCached : s.isCached = true
  revision : s.revision = none
  onlyStored : OnlyStored canvasId s.index
  storedIn : wasCached = false → StoredIn stored canvasId s.index
  document : wasCached = false ∧ s.document = leftover ∨ Kept inMemory s.document

theorem Begun.faults {wasCached : Bool} {leftover : Option Fields} {s : Store}
    (h : Begun inMemory stored canvasId wasCached leftover s) (faults : List Fault) :
    Begun inMemory stored canvasId wasCached leftover { s with faults } := { h with }

theorem Begun.holds {leftover : Option Fields} {s : Store}
    (h : Begun inMemory stored canvasId true leftover s) : Kept inMemory s.document :=
  h.document.resolve_left fun hfresh ↦ absurd hfresh.1 (by decide)

variable {wasCached : Bool} {leftover : Option Fields}

/-- The stored document is read, or nothing. -/
theorem getCanvasDocument_always :
    Always (Begun inMemory stored canvasId false leftover)
      (getCanvasDocument server.library documentStore server.index canvasId) fun found s ↦
        Begun inMemory stored canvasId false leftover s ∧ ∀ doc, found = some doc →
          ∃ source, stored source ∧ restoreDocument server.library (.obj source) = some doc := by
  have hread : ∀ s, Begun inMemory stored canvasId false leftover s → ∀ source,
      s.index.lookup (toString canvasId) = some source → ∀ doc,
        restoreDocument server.library source = some doc → ∃ source, stored source ∧
          restoreDocument server.library (.obj source) = some doc := by
    intro s hs source hsource doc hdoc
    obtain ⟨fields, hlookup, hfields⟩ := hs.storedIn rfl
    obtain rfl := Option.some.inj (hlookup.symm.trans hsource)
    exact ⟨fields, hfields, hdoc⟩
  rw [getCanvasDocument]
  dsimp only [documentStore]
  split_ifs
  · exact always_pure fun _ hs ↦ ⟨hs, fun doc hdoc ↦ by cases hdoc⟩
  refine always_bind (Q := fun found s ↦ Begun inMemory stored canvasId false leftover s ∧
    ∀ source, found = some source → s.index.lookup (toString canvasId) = some source) ?_
    fun found ↦ ?_
  · exact always_reading (fun _ faults hs ↦ hs.faults faults)
      (fun _ hs ↦ ⟨hs, fun _ h ↦ by cases h⟩) fun _ hs ↦ ⟨hs, fun _ h ↦ h⟩
  rcases found with _ | source
  · -- The canvas is searched for.
    refine always_bind (Q := fun response s ↦ Begun inMemory stored canvasId false leftover s ∧
      ∀ source, response.bind firstHit = some source →
        s.index.lookup (toString canvasId) = some source) ?_ fun response ↦ ?_
    · refine always_reading (fun _ faults h ↦ ⟨h.1.faults faults, h.2⟩)
        (fun _ h ↦ ⟨h.1, fun _ h ↦ by cases h⟩) fun s h ↦ ⟨h.1, fun source hsource ↦ ?_⟩
      rw [Option.bind_some, firstHit_searchResponse] at hsource
      obtain ⟨e, hfind, rfl⟩ := Option.map_eq_some_iff.mp hsource
      exact h.1.onlyStored.lookup hfind
    · refine always_pure fun s h ↦ ⟨h.1, fun doc hdoc ↦ ?_⟩
      obtain ⟨hits, hresponse, hdoc⟩ := Option.bind_eq_some_iff.mp hdoc
      obtain ⟨source, hsource, hdoc⟩ := Option.bind_eq_some_iff.mp hdoc
      exact hread s h.1 source (h.2 source (by rw [hresponse]; exact hsource)) doc hdoc
  · exact always_pure fun s h ↦ ⟨h.1, hread s h.1 source (h.2 source rfl)⟩

/-- What is going to be in memory has its property. -/
theorem initialDocument_always (hlife : Lifelong server inMemory stored) :
    Always (Begun inMemory stored canvasId wasCached leftover)
      (initialDocument server canvasId wasCached) fun found s ↦
        Begun inMemory stored canvasId wasCached leftover s ∧ ∀ doc migrated, found = some doc →
          migratedDocument server doc = some migrated → inMemory migrated := by
  rw [initialDocument]
  rcases wasCached with _ | _
  · refine always_bind getCanvasDocument_always fun found ↦ ?_
    split
    · refine always_pure fun s h ↦ ⟨h.1, fun doc migrated hdoc hmigrated ↦ ?_⟩
      obtain ⟨source, hstored, hrestored⟩ := h.2 _ rfl
      rw [Option.some.inj hdoc] at hrestored
      exact hlife.load hstored hrestored hmigrated
    · exact always_pure fun s h ↦ ⟨h.1, fun doc migrated hdoc ↦ by cases hdoc⟩
  · rw [if_pos rfl, loadCanvas]
    refine always_reading (fun _ faults h ↦ h.faults faults)
      (fun s h ↦ ⟨h, fun doc migrated hdoc ↦ by cases hdoc⟩)
      fun s h ↦ ⟨h, fun doc migrated hdoc hmigrated ↦ ?_⟩
    obtain ⟨doc', hdoc', hmemory⟩ := h.holds
    rw [hdoc', Option.some.injEq] at hdoc
    exact hlife.reload (hdoc ▸ hmemory) hmigrated

/-- A document that is saved is stored, or nothing is. -/
theorem saveMigrated_always (hlife : Lifelong server inMemory stored) {doc migrated : Fields}
    (hmigrated : inMemory migrated) :
    Always (Begun inMemory stored canvasId wasCached leftover)
      (saveMigrated server canvasId doc migrated)
      fun _ s ↦ Begun inMemory stored canvasId wasCached leftover s := by
  rw [saveMigrated]
  split_ifs
  · exact always_pure fun _ h ↦ h
  rw [saveDocument, saveCanvasDocument]
  dsimp only [documentStore]
  split_ifs
  · exact always_pure fun _ h ↦ h
  rcases hsource : safeDocument server.hashCanvasPassword server.library migrated with _ | source
  · exact always_pure fun _ h ↦ h
  refine always_acting (fun _ faults h ↦ h.faults faults) (fun _ h ↦ h) fun s h ↦ ?_
  have hnext : Begun inMemory stored canvasId wasCached leftover
      { s with index := Assoc.set (toString canvasId) (.obj (Json.sortedFields source)) s.index } :=
    { h with
      onlyStored := h.onlyStored.set _
      storedIn := fun _ ↦ ⟨_, Assoc.lookup_set_self .., hlife.save hmigrated hsource⟩ }
  exact ⟨hnext, hnext⟩

theorem storeCanvas_always {doc : Fields} (hdoc : inMemory doc) :
    Always (Begun inMemory stored canvasId wasCached leftover) (storeCanvas doc) fun kept s ↦
      Begun inMemory stored canvasId wasCached leftover s ∧
        (kept = true → Kept inMemory s.document) := by
  rw [storeCanvas]
  refine always_acting (fun _ faults h ↦ h.faults faults)
    (fun _ h ↦ ⟨h, fun hkept ↦ by cases hkept⟩) fun s h ↦ ?_
  have hholds : Kept inMemory (some doc) := ⟨doc, rfl, hdoc⟩
  have hnext : Begun inMemory stored canvasId wasCached leftover { s with document := some doc } :=
    { h with document := Or.inr hholds }
  exact ⟨⟨hnext, fun _ ↦ hholds⟩, hnext, fun hkept ↦ by cases hkept⟩

/-- When a document is answered, memory holds it. -/
def Brought (inMemory stored : Fields → Prop) (canvasId : ℤ) (wasCached : Bool)
    (leftover found : Option Fields) (s : Store) : Prop :=
  Begun inMemory stored canvasId wasCached leftover s ∧ (found.isSome → Kept inMemory s.document)

/-- However the calls end that bring a document into memory. -/
theorem initializeCanvas_always (hlife : Lifelong server inMemory stored) (generation : String) :
    Always (Begun inMemory stored canvasId wasCached leftover)
      (initializeCanvas server canvasId wasCached generation)
      (Brought inMemory stored canvasId wasCached leftover) := by
  have hnone : Always (Begun inMemory stored canvasId wasCached leftover) (pure none)
      (Brought inMemory stored canvasId wasCached leftover) :=
    always_pure fun _ h ↦ ⟨h, fun hsome ↦ by cases hsome⟩
  rw [initializeCanvas]
  refine always_bind (initialDocument_always hlife) fun found ↦ ?_
  split
  · exact fun s h ↦ hnone s h.1
  · next doc migrated hfound =>
    intro s h
    obtain ⟨doc', hdoc, hmap⟩ := Option.bind_eq_some_iff.mp hfound
    obtain ⟨migrated', hmigrated, hpair⟩ := Option.map_eq_some_iff.mp hmap
    obtain ⟨rfl, rfl⟩ := Prod.mk.inj hpair
    have hmemory := h.2 _ _ hdoc hmigrated
    refine always_bind (R := Brought inMemory stored canvasId wasCached leftover)
      (saveMigrated_always hlife hmemory) (fun saved ↦ ?_) s h.1
    rcases saved with _ | _
    · exact hnone
    · refine always_bind (storeCanvas_always (hlife.mark generation hmemory)) fun kept ↦ ?_
      rcases kept with _ | _
      · exact always_pure fun _ h ↦ ⟨h.1, fun hsome ↦ by cases hsome⟩
      · exact always_pure fun _ h ↦ ⟨h.1, fun _ ↦ h.2 rfl⟩

/-! ## What the calls come to

How a load ends depends on how its calls end, on what the snapshot is and on what an earlier load
has left in memory. -/

/-- A search for the canvas finds the snapshot. -/
def searchable (canvasId : ℤ) (snapshot : Json) : Bool :=
  snapshot.child (.key "canvas-id") = some (.int canvasId)

/-- The password of the snapshot is not stored as it is today, so that the snapshot is saved before
it is brought to memory. -/
def outdated (server : Server) (snapshot : Json) : Bool :=
  match restoreDocument server.library snapshot with
  | some (.obj doc) => migratedDocument server doc ≠ some doc
  | _ => false

/-- Whether the snapshot is read, and the calls after it. Without an answer it is searched for. -/
def readSnapshot (canvasId : ℤ) (snapshot : Json) (faults : List Fault) : Bool × List Fault :=
  match faults.headD .answered with
  | .answered => (true, faults.tail)
  | _ => (faults.tail.headD .answered = .answered && searchable canvasId snapshot,
      faults.tail.tail)

/-- Whether the snapshot is saved, if it has to be. -/
def saveSnapshot (server : Server) (snapshot : Json) (faults : List Fault) : Bool × List Fault :=
  if outdated server snapshot then (faults.headD .answered = .answered, faults.tail)
  else (true, faults)

/-- How bringing the snapshot to memory ends, as if it were one call. -/
def bringSnapshot (server : Server) (canvasId : ℤ) (snapshot : Json) (faults : List Fault) :
    Fault × List Fault :=
  match readSnapshot canvasId snapshot faults with
  | (false, faults) => (.failed, faults)
  | (true, faults) =>
    match saveSnapshot server snapshot faults with
    | (false, faults) => (.failed, faults)
    | (true, faults) => (faults.headD .answered, faults.tail)

/-- How clearing memory and unmarking the row have to end, once there is no document to bring there:
both have an effect and memory answers, or memory was not cleared and holds the document. -/
def Cleared (holds : Prop) (faults : List Fault) : Prop :=
  match faults.headD .answered with
  | .answered => faults.tail.headD .answered ≠ .failed
  | .failed => holds
  | .lost => False

/-- How unmarking the row has to end, once memory is not there. -/
def Unmarked (holds : Prop) (faults : List Fault) : Prop :=
  faults.headD .answered ≠ .failed ∨ holds

/-- What a load of a canvas that was not loaded must not leave half done, where memory may hold the
document from before. The calls are the allocation, the ping, those that bring the snapshot, and
those that undo the mark. -/
def Undone (server : Server) (canvasId : ℤ) (snapshot : Json) (holds : Prop)
    (faults : List Fault) : Prop :=
  match faults.headD .answered with
  | .failed => True
  | .lost => holds
  | .answered =>
    match faults.tail.headD .answered with
    | .answered =>
      match bringSnapshot server canvasId snapshot faults.tail.tail with
      | (.answered, _) => True
      | (.failed, faults) => Cleared holds faults
      | (.lost, faults) => Cleared True faults
    | _ => Unmarked holds faults.tail.tail

/-! ## Undoing the mark -/

theorem loadable_cached_iff {s : Store} (hcached : s.isCached = true)
    (honly : OnlyStored canvasId s.index) :
    Loadable inMemory stored canvasId s ↔ Kept inMemory s.document := by
  rw [Loadable, hcached]
  simp [honly]

theorem loadable_uncached {s : Store} (hcached : s.isCached = false)
    (honly : OnlyStored canvasId s.index) (hstored : StoredIn stored canvasId s.index) :
    Loadable inMemory stored canvasId s := ⟨honly, Or.inl ⟨hcached, hstored⟩⟩

/-- Unmarking the row, when what was stored is still stored. -/
theorem uncache_loadable_iff {s : Store} (h : Begun inMemory stored canvasId false leftover s) :
    Loadable inMemory stored canvasId (updateCanvasUncached s).2 ↔
      Unmarked (Kept inMemory s.document) s.faults := by
  rw [Unmarked, updateCanvasUncached]
  rcases hfault : s.faults.headD .answered with _ | _ | _
  · rw [acting_answered hfault]
    exact iff_of_true (loadable_uncached rfl h.onlyStored (h.storedIn rfl)) (Or.inl (by decide))
  · rw [acting_failed hfault]
    refine (loadable_cached_iff h.isCached h.onlyStored).trans ?_
    simp
  · rw [acting_lost hfault]
    exact iff_of_true (loadable_uncached rfl h.onlyStored (h.storedIn rfl)) (Or.inl (by decide))

theorem abandonAllocation_loadable_iff {s : Store}
    (h : Begun inMemory stored canvasId false leftover s) :
    Loadable inMemory stored canvasId (abandonAllocation false s).2 ↔
      Unmarked (Kept inMemory s.document) s.faults :=
  uncache_loadable_iff h

theorem abandonLoad_loadable_iff {s : Store}
    (h : Begun inMemory stored canvasId false leftover s) :
    Loadable inMemory stored canvasId (abandonLoad false s).2 ↔
      Cleared (Kept inMemory s.document) s.faults := by
  have hnothing : ¬Kept inMemory none := by
    rintro ⟨doc, hdoc, -⟩
    cases hdoc
  rw [Cleared]
  rcases hfault : s.faults.headD .answered with _ | _ | _
  · have hclear : clearCanvas s = (true, { s with document := none, faults := s.faults.tail }) := by
      rw [clearCanvas, acting_answered hfault]
    have hrun : (abandonLoad false s).2
        = (updateCanvasUncached { s with document := none, faults := s.faults.tail }).2 := by
      rw [abandonLoad, if_neg (by decide), StateT.bind_of_run hclear]
      rfl
    have hcleared : Begun inMemory stored canvasId false none
        { s with document := none, faults := s.faults.tail } :=
      { h with document := Or.inl ⟨rfl, rfl⟩ }
    rw [hrun, uncache_loadable_iff hcleared, Unmarked, or_iff_left hnothing]
  · have hclear : clearCanvas s = (false, { s with faults := s.faults.tail }) := by
      rw [clearCanvas, acting_failed hfault]
    have hrun : (abandonLoad false s).2 = { s with faults := s.faults.tail } := by
      rw [abandonLoad, if_neg (by decide), StateT.bind_of_run hclear]
      rfl
    rw [hrun]
    exact loadable_cached_iff h.isCached h.onlyStored
  · have hclear :
        clearCanvas s = (false, { s with document := none, faults := s.faults.tail }) := by
      rw [clearCanvas, acting_lost hfault]
    have hrun : (abandonLoad false s).2 = { s with document := none, faults := s.faults.tail } := by
      rw [abandonLoad, if_neg (by decide), StateT.bind_of_run hclear]
      rfl
    rw [hrun]
    refine (@loadable_cached_iff _ _ _ { s with document := none, faults := s.faults.tail }
      h.isCached h.onlyStored).trans (iff_of_false hnothing id)

/-! ## Bringing the snapshot to memory -/

/-- A search for the canvas finds the snapshot, or nothing. -/
theorem find_searchable {index : Java.Index} (honly : OnlyStored canvasId index) {snapshot : Json}
    (hlookup : index.lookup (toString canvasId) = some snapshot) :
    (index.find? fun e ↦ decide (e.2.child (.key "canvas-id") = some (.int canvasId))).map Prod.snd
      = if searchable canvasId snapshot then some snapshot else none := by
  rcases hfind : index.find? fun e ↦
      decide (e.2.child (.key "canvas-id") = some (.int canvasId)) with _ | e
  · have hmem := List.find?_eq_none.mp hfind _ (Assoc.mem_of_lookup hlookup)
    rw [hfind, searchable, if_neg hmem]
    rfl
  · have hid := List.find?_some hfind
    obtain rfl := Option.some.inj (hlookup.symm.trans (honly.lookup hfind))
    rw [hfind, searchable, if_pos hid]
    rfl

theorem getCanvasDocument_eq (hindex : server.index ≠ "") {s : Store}
    (honly : OnlyStored canvasId s.index) {snapshot doc : Json}
    (hlookup : s.index.lookup (toString canvasId) = some snapshot)
    (hrestored : restoreDocument server.library snapshot = some doc) :
    getCanvasDocument server.library documentStore server.index canvasId s =
      (if (readSnapshot canvasId snapshot s.faults).1 then some doc else none,
        { s with faults := (readSnapshot canvasId snapshot s.faults).2 }) := by
  have hget : documentStore.getDocument server.index (toString canvasId) s =
      (if s.faults.headD .answered = .answered then some snapshot else none,
        { s with faults := s.faults.tail }) := by
    rw [← hlookup]
    exact acting_reading none (fun s ↦ s.index.lookup (toString canvasId)) s
  let found (t : Store) : Option Json := some (searchResponse ((t.index.find? fun e ↦
    decide (e.2.child (.key "canvas-id") = some (.int canvasId))).map Prod.snd))
  have hsearch (t : Store) : documentStore.searchDocuments server.index
      (.obj [("query", .obj [("term", .obj [("canvas-id", .int canvasId)])]), ("size", .int 1)]) t
      = (if t.faults.headD .answered = .answered then found t else none,
          { t with faults := t.faults.tail }) := acting_reading none found t
  rw [getCanvasDocument, if_neg hindex, StateT.bind_of_run hget, readSnapshot]
  rcases hfault : s.faults.headD .answered with _ | _ | _
  · exact congrArg (·, _) hrestored
  all_goals
    rw [if_neg (by decide)]
    dsimp only
    rw [StateT.bind_of_run (hsearch _)]
    refine Prod.ext ?_ rfl
    dsimp only
    by_cases hanswered : s.faults.tail.headD .answered = .answered
    · rw [if_pos hanswered, decide_eq_true hanswered, Bool.true_and]
      change (firstHit (searchResponse _)).bind (restoreDocument server.library) = _
      rw [firstHit_searchResponse, find_searchable honly hlookup]
      split_ifs
      · exact hrestored
      · rfl
    · rw [if_neg hanswered, decide_eq_false hanswered, Bool.false_and]
      rfl

theorem saveMigrated_eq (hread : Readable server inMemory stored) {s : Store} {snapshot : Json}
    {doc migrated : Fields} (hrestored : restoreDocument server.library snapshot = some (.obj doc))
    (hmigrated : migratedDocument server doc = some migrated) (hmemory : inMemory migrated) :
    ∃ index, saveMigrated server canvasId doc migrated s =
      ((saveSnapshot server snapshot s.faults).1,
        { s with index, faults := (saveSnapshot server snapshot s.faults).2 }) := by
  have houtdated : outdated server snapshot = true ↔ migrated ≠ doc := by
    rw [outdated, hrestored]
    change decide (migratedDocument server doc ≠ some doc) = true ↔ _
    rw [hmigrated, decide_eq_true_iff, ne_eq, Option.some.injEq]
  rw [saveMigrated, saveSnapshot]
  by_cases hsame : migrated = doc
  · rw [if_pos hsame, if_neg fun h ↦ houtdated.mp h hsame]
    exact ⟨s.index, rfl⟩
  · obtain ⟨source, hsource⟩ := hread.saves hmemory
    rw [if_neg hsame, if_pos (houtdated.mpr hsame), saveDocument, saveCanvasDocument,
      if_neg hread.index, hsource]
    dsimp only [documentStore]
    rcases hfault : s.faults.headD .answered with _ | _ | _
    · exact ⟨_, acting_answered hfault⟩
    · exact ⟨s.index, acting_failed hfault⟩
    · exact ⟨_, acting_lost hfault⟩

/-- How bringing the snapshot to memory ends. -/
theorem initializeCanvas_eq (hread : Readable server inMemory stored) {s : Store}
    (honly : OnlyStored canvasId s.index) {source : Fields}
    (hlookup : s.index.lookup (toString canvasId) = some (.obj source)) (hstored : stored source)
    (generation : String) :
    ∃ found index document,
      let brought := bringSnapshot server canvasId (.obj source) s.faults
      initializeCanvas server canvasId false generation s
          = (found, { s with index, document, faults := brought.2 }) ∧
        (found.isSome ↔ brought.1 = .answered) ∧ (brought.1 = .failed → document = s.document) ∧
          (brought.1 ≠ .failed → Kept inMemory document) := by
  obtain ⟨doc, migrated, hrestored, hmigrated⟩ := hread.restores hstored
  have hmemory := hread.load hstored hrestored hmigrated
  have hinitial : initialDocument server canvasId false s =
      (if (readSnapshot canvasId (.obj source) s.faults).1 then some doc else none,
        { s with faults := (readSnapshot canvasId (.obj source) s.faults).2 }) := by
    rw [initialDocument, if_neg (by decide),
      StateT.bind_of_run (getCanvasDocument_eq hread.index honly hlookup hrestored)]
    split_ifs <;> rfl
  rw [initializeCanvas, StateT.bind_of_run hinitial]
  -- a snapshot that cannot be read ends the load before memory is touched
  rcases hreading : readSnapshot canvasId (.obj source) s.faults with ⟨_ | _, faults⟩
  · refine ⟨none, s.index, s.document, ?_⟩
    rw [bringSnapshot, hreading]
    exact ⟨rfl, by simp⟩
  dsimp only
  rw [if_pos rfl, Option.bind_some, hmigrated, Option.map_some]
  dsimp only
  obtain ⟨index, hsave⟩ := @saveMigrated_eq server inMemory stored canvasId hread
    { s with faults } (.obj source) doc migrated hrestored hmigrated hmemory
  rw [StateT.bind_of_run hsave]
  -- so does a migrated document that cannot be saved
  rcases hsaving : saveSnapshot server (.obj source) faults with ⟨_ | _, faults'⟩
  · refine ⟨none, index, s.document, ?_⟩
    rw [bringSnapshot, hreading]
    dsimp only
    rw [hsaving]
    exact ⟨rfl, by simp⟩
  have hkept : Kept inMemory (some (Assoc.set "_cache_generation" (.str generation) migrated)) :=
    ⟨_, rfl, hread.mark generation hmemory⟩
  have hbring : bringSnapshot server canvasId (.obj source) s.faults
      = (faults'.headD .answered, faults'.tail) := by
    rw [bringSnapshot, hreading]
    dsimp only
    rw [hsaving]
  rw [hbring]
  dsimp only
  rw [if_pos rfl]
  -- the document is in memory unless the call failed, even where its reply was lost
  rcases hfault : faults'.headD .answered with _ | _ | _
  · have hstore : storeCanvas (Assoc.set "_cache_generation" (.str generation) migrated)
        { s with index, faults := faults' } = (true, _) := acting_answered hfault
    rw [StateT.bind_of_run hstore]
    exact ⟨_, _, _, rfl, by simp, by simp, fun _ ↦ hkept⟩
  · have hstore : storeCanvas (Assoc.set "_cache_generation" (.str generation) migrated)
        { s with index, faults := faults' } = (false, _) := acting_failed hfault
    rw [StateT.bind_of_run hstore]
    exact ⟨none, _, _, rfl, by simp, fun _ ↦ rfl, fun h ↦ absurd rfl h⟩
  · have hstore : storeCanvas (Assoc.set "_cache_generation" (.str generation) migrated)
        { s with index, faults := faults' } = (false, _) := acting_lost hfault
    rw [StateT.bind_of_run hstore]
    exact ⟨none, _, _, rfl, by simp, by simp, fun _ ↦ hkept⟩

/-! ## A load -/

theorem Begun.loadable {s : Store} (h : Begun inMemory stored canvasId wasCached leftover s)
    (hholds : Kept inMemory s.document) : Loadable inMemory stored canvasId s :=
  ⟨h.onlyStored, Or.inr ⟨h.isCached, hholds⟩⟩

theorem registerCanvas_loadable {s : Store}
    (h : Begun inMemory stored canvasId wasCached leftover s) (hholds : Kept inMemory s.document)
    (doc : Fields) : Loadable inMemory stored canvasId (registerCanvas doc s).2 := by
  rw [registerCanvas]
  split <;> exact h.loadable hholds

theorem ping_always : Always (Begun inMemory stored canvasId wasCached leftover) ping
    fun _ s ↦ Begun inMemory stored canvasId wasCached leftover s :=
  always_reading (fun _ faults h ↦ h.faults faults) (fun _ h ↦ h) fun _ h ↦ h

/-- A load of a canvas that was loaded leaves its document in memory. -/
theorem getOrCreateCanvas_cached (hlife : Lifelong server inMemory stored) {s : Store}
    (hcached : s.isCached = true) (honly : OnlyStored canvasId s.index)
    (hholds : Kept inMemory s.document) (hnone : s.revision = none) (generation : String) :
    Loadable inMemory stored canvasId (getOrCreateCanvas server canvasId generation s).2 := by
  have hbegun : Begun inMemory stored canvasId true s.document s :=
    ⟨hcached, hnone, honly, fun h ↦ absurd h (by decide), Or.inr hholds⟩
  refine always_bind (Q := fun found s' ↦ (found = none ∨ found = some true) ∧
    Begun inMemory stored canvasId true s.document s')
    (R := fun _ s ↦ Loadable inMemory stored canvasId s) ?_ (fun found ↦ ?_) s hbegun
  · refine always_acting (fun _ faults h ↦ h.faults faults) (fun _ h ↦ ⟨Or.inl rfl, h⟩)
      fun s' h ↦ ?_
    have hmarked : Begun inMemory stored canvasId true s.document { s' with isCached := true } :=
      { h with isCached := rfl }
    exact ⟨⟨Or.inr (by rw [h.isCached]), hmarked⟩, Or.inl rfl, hmarked⟩
  rintro s' ⟨rfl | rfl, h⟩
  · exact h.loadable h.holds
  refine always_bind (R := fun _ s ↦ Loadable inMemory stored canvasId s) ping_always
    (fun alive ↦ ?_) s' h
  rcases alive with _ | _
  · exact fun t ht ↦ ht.loadable ht.holds
  refine always_bind (initializeCanvas_always hlife generation) fun created t ht ↦ ?_
  rcases created with _ | doc
  · exact ht.1.loadable ht.1.holds
  · exact registerCanvas_loadable ht.1 ht.1.holds doc

/-- A load of a canvas that was not loaded. -/
theorem getOrCreateCanvas_uncached (hread : Readable server inMemory stored) {s : Store}
    (hcached : s.isCached = false) (honly : OnlyStored canvasId s.index) {source : Fields}
    (hlookup : s.index.lookup (toString canvasId) = some (.obj source)) (hsource : stored source)
    (hnone : s.revision = none) (generation : String) :
    Loadable inMemory stored canvasId (getOrCreateCanvas server canvasId generation s).2 ↔
      Undone server canvasId (.obj source) (Kept inMemory s.document) s.faults := by
  have hstored : StoredIn stored canvasId s.index := ⟨source, hlookup, hsource⟩
  have hmarked (faults : List Fault) : Begun inMemory stored canvasId false s.document
      { s with isCached := true, faults } :=
    ⟨rfl, hnone, honly, fun _ ↦ hstored, Or.inl ⟨rfl, rfl⟩⟩
  rw [Undone]
  rcases hfault : s.faults.headD .answered with _ | _ | _
  · have hallocate : getOrAllocateRedisAndSetCached s
        = (some false, { s with isCached := true, faults := s.faults.tail }) := by
      rw [getOrAllocateRedisAndSetCached, acting_answered hfault, ← hcached]
    have hping := acting_reading false (fun _ ↦ true)
      { s with isCached := true, faults := s.faults.tail }
    rw [getOrCreateCanvas, StateT.bind_of_run hallocate]
    dsimp only
    rw [ping, StateT.bind_of_run hping]
    dsimp only
    rcases hanswer : s.faults.tail.headD .answered with _ | _ | _
    · -- Memory is there, and the document is brought to it.
      obtain ⟨found, index, document, hrun, hfound, hfailed, hkept⟩ := initializeCanvas_eq hread
        (s := { s with isCached := true, faults := s.faults.tail.tail }) honly hlookup hsource
        generation
      have hbrought := initializeCanvas_always hread.toLifelong generation _
        (hmarked s.faults.tail.tail)
      rw [hrun] at hbrought
      rw [if_pos rfl, if_pos rfl, StateT.bind_of_run hrun]
      rcases hbring : bringSnapshot server canvasId (.obj source) s.faults.tail.tail with
        ⟨_ | _ | _, faults⟩
      all_goals
        dsimp only at hfound hfailed hkept hbrought ⊢
        rw [hbring] at hfound hfailed hkept hbrought
      · obtain ⟨doc, rfl⟩ := Option.isSome_iff_exists.mp (hfound.mpr rfl)
        exact iff_of_true (registerCanvas_loadable hbrought.1 (hbrought.2 rfl) doc) trivial
      · obtain rfl : found = none := by simpa using hfound
        obtain rfl := hfailed rfl
        exact abandonLoad_loadable_iff hbrought.1
      · obtain rfl : found = none := by simpa using hfound
        refine (abandonLoad_loadable_iff hbrought.1).trans ?_
        rw [iff_true_intro (hkept nofun)]
    all_goals
      rw [if_neg (by decide)]
      exact abandonAllocation_loadable_iff (hmarked s.faults.tail.tail)
  · -- the canvas is not marked
    have hallocate : getOrAllocateRedisAndSetCached s
        = (none, { s with faults := s.faults.tail }) := by
      rw [getOrAllocateRedisAndSetCached, acting_failed hfault]
    rw [getOrCreateCanvas, StateT.bind_of_run hallocate]
    exact iff_of_true (loadable_uncached hcached honly hstored) trivial
  · -- it is marked although the server does not learn of it
    have hallocate : getOrAllocateRedisAndSetCached s
        = (none, { s with isCached := true, faults := s.faults.tail }) := by
      rw [getOrAllocateRedisAndSetCached, acting_lost hfault]
    rw [getOrCreateCanvas, StateT.bind_of_run hallocate]
    exact loadable_cached_iff rfl honly

/-! ## A later load -/

/-- A load whose calls are all answered makes an object for the canvas, whose document is in memory.
-/
def Reloads (server : Server) (inMemory : Fields → Prop) (canvasId : ℤ) (s : Store) : Prop :=
  ∀ generation, let t := (getOrCreateCanvas server canvasId generation { s with faults := [] }).2
    t.revision.isSome ∧ t.isCached = true ∧ Kept inMemory t.document

theorem saveMigrated_healthy (hread : Readable server inMemory stored) {s : Store}
    (h : s.faults = []) {doc migrated : Fields} (hmigrated : inMemory migrated) :
    ∃ index, saveMigrated server canvasId doc migrated s = (true, { s with index }) := by
  rw [saveMigrated]
  split_ifs
  · exact ⟨s.index, rfl⟩
  · obtain ⟨source, hsource⟩ := hread.saves hmigrated
    exact ⟨_, saveDocument_healthy h hread.index hsource⟩

theorem initializeCanvas_healthy (hread : Readable server inMemory stored) {s : Store}
    (h : s.faults = []) {doc migrated : Fields}
    (hinitial : initialDocument server canvasId wasCached s = (some doc, s))
    (hmigrated : migratedDocument server doc = some migrated) (hmemory : inMemory migrated)
    (generation : String) : ∃ index,
      let kept := Assoc.set "_cache_generation" (.str generation) migrated
      initializeCanvas server canvasId wasCached generation s
        = (some kept, { s with index, document := some kept }) := by
  obtain ⟨index, hsave⟩ := @saveMigrated_healthy server inMemory stored canvasId hread s h doc
    migrated hmemory
  refine ⟨index, ?_⟩
  have hstore : storeCanvas (Assoc.set "_cache_generation" (.str generation) migrated)
      { s with index } = (true, { s with
        index, document := some (Assoc.set "_cache_generation" (.str generation) migrated) }) :=
    acting_healthy h
  rw [initializeCanvas, StateT.bind_of_run hinitial]
  dsimp only
  rw [Option.bind_some, hmigrated, Option.map_some]
  dsimp only
  rw [StateT.bind_of_run hsave, if_pos rfl, StateT.bind_of_run hstore]
  rfl

theorem reloads_of_loadable (hread : Readable server inMemory stored) {s : Store}
    (hloadable : Loadable inMemory stored canvasId s) :
    Reloads server inMemory canvasId s := by
  intro generation
  obtain ⟨honly, hplace⟩ := hloadable
  -- what is found, wherever the document is
  obtain ⟨doc, migrated, hinitial, hmigrated, hmemory⟩ : ∃ doc migrated,
      initialDocument server canvasId s.isCached { s with isCached := true, faults := [] }
        = (some doc, { s with isCached := true, faults := [] }) ∧
      migratedDocument server doc = some migrated ∧ inMemory migrated := by
    rcases hplace with ⟨hcached, source, hlookup, hsource⟩ | ⟨hcached, doc, hdoc, hmemory⟩
    · obtain ⟨doc, migrated, hrestored, hmigrated⟩ := hread.restores hsource
      have hget := @getCanvasDocument_healthy server { s with isCached := true, faults := [] }
        canvasId rfl hread.index _ _ hlookup hrestored
      refine ⟨doc, migrated, ?_, hmigrated, hread.load hsource hrestored hmigrated⟩
      rw [hcached, initialDocument, if_neg (by decide), StateT.bind_of_run hget]
      rfl
    · obtain ⟨migrated, hmigrated⟩ := hread.migrates hmemory
      refine ⟨doc, migrated, ?_, hmigrated, hread.reload hmemory hmigrated⟩
      rw [hcached, initialDocument, if_pos rfl, loadCanvas, acting_healthy rfl, hdoc]
  obtain ⟨index, hinit⟩ := initializeCanvas_healthy hread rfl hinitial hmigrated hmemory generation
  have hkept := hread.mark generation hmemory
  obtain ⟨revision, hrevision⟩ := hread.revision hkept
  have hallocate : getOrAllocateRedisAndSetCached { s with faults := [] }
      = (some s.isCached, { s with isCached := true, faults := [] }) := acting_healthy rfl
  have hping : ping { s with isCached := true, faults := [] }
      = (true, { s with isCached := true, faults := [] }) := acting_healthy rfl
  have hload : (getOrCreateCanvas server canvasId generation { s with faults := [] }).2 = { s with
      isCached := true, faults := [], index, revision := some revision,
      document := some (Assoc.set "_cache_generation" (.str generation) migrated) } := by
    rw [getOrCreateCanvas, StateT.bind_of_run hallocate]
    dsimp only
    rw [StateT.bind_of_run hping, if_pos rfl, StateT.bind_of_run hinit]
    dsimp only
    rw [registerCanvas, hrevision]
  rw [hload]
  exact ⟨rfl, rfl, _, rfl, hkept⟩

/-- **Failed loads.** However the calls of a load end, a canvas that could be loaded can be loaded
again after it, if and only if it was loaded before, or what the load did is not left half done,
which the calls, the snapshot and the document left in memory decide. -/
theorem failed_load_iff (hread : Readable server inMemory stored) {s : Store}
    (hstart : Loadable inMemory stored canvasId s) (hnone : s.revision = none)
    (generation : String) :
    Loadable inMemory stored canvasId (getOrCreateCanvas server canvasId generation s).2 ∧
        Reloads server inMemory canvasId (getOrCreateCanvas server canvasId generation s).2 ↔
      s.isCached = true ∨ ∃ snapshot, s.index.lookup (toString canvasId) = some snapshot ∧
        Undone server canvasId snapshot (Kept inMemory s.document) s.faults := by
  rw [and_iff_left_of_imp (reloads_of_loadable hread)]
  obtain ⟨honly, ⟨hcached, source, hlookup, hsource⟩ | ⟨hcached, hholds⟩⟩ := hstart
  · rw [getOrCreateCanvas_uncached hread hcached honly hlookup hsource hnone, hcached, hlookup]
    simp
  · exact iff_of_true
      (getOrCreateCanvas_cached hread.toLifelong hcached honly hholds hnone generation)
      (Or.inl hcached)

end Recovery

/-! ## The content of a document -/

section Content

variable {server : Server} {latest doc doc' source : Fields}

/-- A document with the content of another, whenever it was loaded. -/
structure Content (latest doc : Fields) : Prop extends Snapshot.Storable doc where
  same : ∀ name, name ≠ "_cache_generation" →
    Option.Rel Json.Same (doc.lookup name) (latest.lookup name)

/-- A stored document with the content of another. -/
def StoredContent (server : Server) (latest source : Fields) : Prop :=
  ∃ doc, Content latest doc ∧ EncodedFrom server.library doc source ∧
    (source.map Prod.fst).Nodup

theorem eq_none_of_rel {α : Type} {R : α → α → Prop} {x : Option α} (h : Option.Rel R x none) :
    x = none := by
  cases h
  rfl

theorem rel_same_trans {x y z : Option Json} (h : Option.Rel Json.Same x y)
    (h' : Option.Rel Json.Same y z) : Option.Rel Json.Same x z := by
  rcases h with hxy | _
  · rcases h' with hyz | _
    exact Option.Rel.some (hxy.trans hyz)
  · exact h'

/-- A document with the same fields can be stored too. -/
theorem storable_of_same (h : Snapshot.Storable doc) (hnodup : (doc'.map Prod.fst).Nodup)
    (hsame : ∀ name, name ≠ "_cache_generation" →
      Option.Rel Json.Same (doc'.lookup name) (doc.lookup name)) : Snapshot.Storable doc' := by
  have hparts : ∀ q ∈ parts, q.1 ≠ "_cache_generation" ∧ q.2 ≠ "_cache_generation" := by decide
  have hlegacy : ∀ name ∈ legacyFields, name ≠ "_cache_generation" := by decide
  refine ⟨hnodup, fun q hq part hpart ↦ ?_, fun q hq ↦ ?_, fun name hname ↦ ?_, fun v hv ↦ ?_⟩
  · have hrel := hsame q.1 (hparts q hq).1
    rw [hpart] at hrel
    obtain ⟨part', hpart', hsame'⟩ := Json.rel_some_left hrel
    rw [Snapshot.isObject_iff, hsame'.shape_eq, ← Snapshot.isObject_iff]
    exact h.parts_object q hq part' hpart'
  · have hrel := hsame q.2 (hparts q hq).2
    rw [h.encoded_free q hq] at hrel
    exact eq_none_of_rel hrel
  · have hrel := hsame name (hlegacy name hname)
    rw [h.legacy_free name hname] at hrel
    exact eq_none_of_rel hrel
  · have hrel := hsame passwordField (by decide)
    rw [hv] at hrel
    obtain ⟨w, hw, hvw⟩ := Json.rel_some_left hrel
    rcases h.password w hw with rfl | ⟨text, rfl, hhash⟩
    · exact Or.inl (hvw.eq_null)
    · exact Or.inr ⟨text, hvw.eq_str, hhash⟩

theorem Content.of_same (h : Content latest doc) (hnodup : (doc'.map Prod.fst).Nodup)
    (hsame : ∀ name, name ≠ "_cache_generation" →
      Option.Rel Json.Same (doc'.lookup name) (doc.lookup name)) : Content latest doc' :=
  ⟨storable_of_same h.toStorable hnodup hsame, fun name hname ↦
    rel_same_trans (hsame name hname) (h.same name hname)⟩

/-- A document of today is loaded as it is. -/
theorem migratedDocument_eq (server : Server) (h : Snapshot.Storable doc) :
    migratedDocument server doc = some doc := by
  have hmoved : ∀ names ⊆ legacyFields, names.foldl moveLegacy doc = doc := by
    intro names hnames
    induction names with
    | nil => rfl
    | cons name names ih =>
      obtain ⟨hname, hnames⟩ := List.cons_subset.mp hnames
      rw [List.foldl_cons, moveLegacy, h.legacy_free name hname]
      exact ih hnames
  rw [migratedDocument, hmoved _ (List.Subset.refl _)]
  split
  · next text htext =>
    have hnormal := @Snapshot.normalizePassword_eq server.hashCanvasPassword doc h.password
    rw [Snapshot.normalizePassword, htext] at hnormal
    exact hnormal
  · rfl

theorem nodup_restoreFields {library : JsonLibrary} (hsource : (source.map Prod.fst).Nodup)
    (h : Snapshot.restoreFields library source = some doc) : (doc.map Prod.fst).Nodup := by
  have hfold : ∀ (l : List (String × String)) source, (source.map Prod.fst).Nodup →
      l.foldlM (fun source part ↦ Snapshot.restoreItems library part.1 part.2 source) source
        = some doc → (doc.map Prod.fst).Nodup := by
    intro l
    induction l with
    | nil =>
      intro source hsource h
      rwa [← Option.some.inj h]
    | cons part l ih =>
      intro source hsource h
      obtain ⟨next, hnext, h⟩ := Option.bind_eq_some_iff.mp h
      refine ih next ?_ h
      change Snapshot.restoreItems library part.1 part.2 source = some next at hnext
      rw [Snapshot.restoreItems] at hnext
      split at hnext
      · rwa [← Option.some.inj hnext]
      · obtain ⟨raw, -, hnext⟩ := Option.bind_eq_some_iff.mp hnext
        obtain ⟨items, -, hnext⟩ := Option.bind_eq_some_iff.mp hnext
        split_ifs at hnext
        rw [← Option.some.inj hnext]
        exact Assoc.nodup_erase (Assoc.nodup_set hsource _ _) _
  exact hfold parts source hsource h

/-- A canvas whose library reads back what it writes of the parts can be loaded with its content. -/
theorem readable_content (hindex : server.index ≠ "")
    (hreads : ∀ q ∈ parts, ∀ part part', latest.lookup q.1 = some part → Json.Same part' part →
      ReadsBack server.library server.library part')
    (hrevision : latest.lookup "settings-revision" = none ∨
      ∃ n, latest.lookup "settings-revision" = some (.int n)) :
    Readable server (Content latest) (StoredContent server latest) := by
  -- what the snapshot store holds is restored with the content of the latest document
  have hrestores : ∀ {source}, StoredContent server latest source → ∃ doc,
      restoreDocument server.library (.obj source) = some (.obj doc) ∧ Content latest doc := by
    rintro source ⟨doc, hdoc, hfrom, hnodup⟩
    have hparts : ∀ q ∈ parts, q.1 ≠ "_cache_generation" := by decide
    obtain ⟨restored, hrestored, hsame⟩ := Snapshot.restoreFields_same hfrom hdoc.parts_object
      (fun q hq part hpart ↦ by
        have hrel := hdoc.same q.1 (hparts q hq)
        rw [hpart] at hrel
        obtain ⟨part', hpart', hsame⟩ := Json.rel_some_left hrel
        exact hreads q hq part' part hpart' hsame) hdoc.encoded_free
    refine ⟨restored, by rw [restoreDocument, hrestored, Option.map_some], ?_⟩
    exact hdoc.of_same (nodup_restoreFields hnodup hrestored)
      fun name _ ↦ Snapshot.same_obj_iff.mp hsame.symm name
  -- the generation of the cache is not part of the content
  have hgeneration : ∀ {doc}, Content latest doc → ∀ {doc'}, (doc'.map Prod.fst).Nodup →
      (∀ name, name ≠ "_cache_generation" → doc'.lookup name = doc.lookup name) →
        Content latest doc' := fun hdoc _ hnodup hlookup ↦
    hdoc.of_same hnodup fun name hname ↦ by
      rw [hlookup name hname]
      exact Json.rel_same_refl _
  refine ⟨⟨fun hsource hrestored hmigrated ↦ ?_, fun hdoc hmigrated ↦ ?_, fun generation hdoc ↦ ?_,
    fun hdoc ↦ ?_, fun {doc source} hdoc hsource ↦ ?_⟩, hindex, fun hsource ↦ ?_, fun hdoc ↦ ?_,
    fun hdoc ↦ ?_, fun {doc} hdoc ↦ ?_⟩
  · obtain ⟨doc, hdoc, hcontent⟩ := hrestores hsource
    obtain rfl := Json.obj.inj (Option.some.inj (hdoc.symm.trans hrestored))
    rw [migratedDocument_eq server hcontent.toStorable] at hmigrated
    rwa [← Option.some.inj hmigrated]
  · rw [migratedDocument_eq server hdoc.toStorable] at hmigrated
    rwa [← Option.some.inj hmigrated]
  · exact hgeneration hdoc (Assoc.nodup_set hdoc.nodup _ _)
      fun name hname ↦ Assoc.lookup_set_of_ne (Ne.symm hname) _ _
  · exact hgeneration hdoc (Assoc.nodup_erase hdoc.nodup _)
      fun name hname ↦ Assoc.lookup_erase_of_ne (Ne.symm hname) _
  · obtain ⟨stored, hstored, hfrom, hnodup⟩ := Snapshot.safeDocument_eq server.hashCanvasPassword
      server.library hdoc.toStorable
    obtain rfl := Option.some.inj (hstored.symm.trans hsource)
    have hperm := Json.sortedFields_perm stored
    exact ⟨doc, hdoc, hfrom.perm hnodup hperm, (hperm.map Prod.fst).nodup_iff.mpr hnodup⟩
  · obtain ⟨doc, hdoc, hcontent⟩ := hrestores hsource
    exact ⟨doc, doc, hdoc, migratedDocument_eq server hcontent.toStorable⟩
  · exact ⟨_, migratedDocument_eq server hdoc.toStorable⟩
  · obtain ⟨source, hsource, -⟩ := Snapshot.safeDocument_eq server.hashCanvasPassword
      server.library hdoc.toStorable
    exact ⟨source, hsource⟩
  · -- the revision is read as a number, or as zero where there is none
    have hrel := hdoc.same "settings-revision" (by decide)
    rcases hrevision with hnone | ⟨n, hn⟩
    · rw [hnone] at hrel
      refine ⟨0, ?_⟩
      rw [Json.valueLong, Json.value, eq_none_of_rel hrel]
    · rw [hn] at hrel
      rcases hlookup : doc.lookup "settings-revision" with _ | v
      · rw [hlookup] at hrel
        cases hrel
      · rw [hlookup] at hrel
        obtain ⟨w, hw, hsame⟩ := Json.rel_some_left hrel
        obtain rfl := Option.some.inj hw
        refine ⟨Json.wrap 64 n, ?_⟩
        rw [Json.valueLong, Json.value, hlookup, hsame.eq_int]
        rfl

end Content

/-! ### An example -/

def plainCanvas : Fields := [("canvas-id", .int 7)]

/-- A canvas that is not loaded, with nothing left of it in memory. -/
def plainStore (faults : List Fault) : Store where
  index := [("7", .obj plainCanvas)]
  faults := faults

theorem storable_plainCanvas : Snapshot.Storable plainCanvas where
  nodup := by decide
  parts_object q hq part hpart := by
    have hnone : ∀ q ∈ parts, plainCanvas.lookup q.1 = none := by decide
    rw [hnone q hq] at hpart
    cases hpart
  encoded_free := by decide
  legacy_free := by decide
  password v hv := by cases hv

theorem content_plainCanvas : Content plainCanvas plainCanvas :=
  ⟨storable_plainCanvas, fun _ _ ↦ Json.rel_same_refl _⟩

theorem readable_plainCanvas :
    Readable stoppingServer (Content plainCanvas) (StoredContent stoppingServer plainCanvas) := by
  refine readable_content (by decide) (fun q hq part part' hpart ↦ ?_) (Or.inl rfl)
  have hnone : ∀ q ∈ parts, plainCanvas.lookup q.1 = none := by decide
  rw [hnone q hq] at hpart
  cases hpart

theorem loadable_plainStore (faults : List Fault) :
    Loadable (Content plainCanvas) (StoredContent stoppingServer plainCanvas) 7
      (plainStore faults) := by
  have hlookup : [("7", Json.obj plainCanvas)].lookup (toString (7 : ℤ))
      = some (.obj plainCanvas) := by decide
  refine ⟨⟨by simp [plainStore], fun e he _ ↦ ?_⟩, Or.inl ⟨rfl, plainCanvas, hlookup, ?_⟩⟩
  · rw [List.mem_singleton.mp he]
    rfl
  · obtain ⟨stored, hstored, hfrom, hnodup⟩ := Snapshot.safeDocument_eq
      stoppingServer.hashCanvasPassword stoppingServer.library storable_plainCanvas
    have hplain : stored = plainCanvas := by
      have hsafe : safeDocument stoppingServer.hashCanvasPassword stoppingServer.library plainCanvas
          = some plainCanvas := rfl
      exact Option.some.inj (hstored.symm.trans hsafe)
    exact ⟨plainCanvas, content_plainCanvas, hplain ▸ hfrom, by decide⟩

theorem reloads_without_memory :
    let after := (getOrCreateCanvas stoppingServer 7 "1" (plainStore [.answered, .failed])).2
    after.revision = none ∧
      Loadable (Content plainCanvas) (StoredContent stoppingServer plainCanvas) 7 after ∧
        Reloads stoppingServer (Content plainCanvas) 7 after :=
  ⟨rfl, (failed_load_iff readable_plainCanvas (loadable_plainStore _) rfl "1").mpr
    (Or.inr ⟨.obj plainCanvas, by decide, Or.inl (by decide)⟩)⟩

/-- The row is marked, but the server is not told. -/
theorem lost_mark_not_loadable :
    let before := plainStore [.lost]
    let after := (getOrCreateCanvas stoppingServer 7 "1" before).2
    Loadable (Content plainCanvas) (StoredContent stoppingServer plainCanvas) 7 before ∧
      before.revision = none ∧ after.revision = none ∧
        ¬Reloads stoppingServer (Content plainCanvas) 7 after ∧
          ¬Loadable (Content plainCanvas) (StoredContent stoppingServer plainCanvas) 7 after := by
  refine ⟨loadable_plainStore _, rfl, rfl, fun h ↦ absurd (h "2").1 (by decide), ?_⟩
  rintro ⟨-, ⟨hcached, -⟩ | ⟨-, doc, hdoc, -⟩⟩
  · cases hcached
  · cases hdoc

end Settings

end Agora
