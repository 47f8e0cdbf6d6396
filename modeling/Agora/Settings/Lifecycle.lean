import Agora.Settings.Store
import Agora.Snapshot.RoundTrip

/-!
# What loading and saving preserve

A canvas goes back and forth between the snapshot store and memory. A property of its document in
memory and one of its stored document are kept by all of this, however many calls fail, when each
gives the other at a load and at a save.
-/

namespace Agora

namespace Settings

open Snapshot (Fields passwordField legacyFields restoreDocument safeDocument)

/-! ## Steps whose calls fail or succeed -/

/-- No call is going to have an effect without a reply. -/
def NoLoss (s : Store) : Prop := ∀ fault ∈ s.faults, fault ≠ .lost

variable {α β : Type}

/-- From a state with `P`, a step ends in a state with `Q`. -/
def Triple (P : Store → Prop) (x : StateM Store α) (Q : α → Store → Prop) : Prop :=
  ∀ s, NoLoss s → P s → NoLoss (x s).2 ∧ Q (x s).1 (x s).2

section Triple

variable {P P' : Store → Prop} {Q Q' : α → Store → Prop} {R : β → Store → Prop}

theorem triple_pure {a : α} (h : ∀ s, P s → Q a s) : Triple P (pure a) Q :=
  fun s hloss hs ↦ ⟨hloss, h s hs⟩

theorem triple_bind {x : StateM Store α} {f : α → StateM Store β} (hx : Triple P x Q)
    (hf : ∀ a, Triple (Q a) (f a) R) : Triple P (x >>= f) R := by
  intro s hloss hs
  obtain ⟨hloss', hs'⟩ := hx s hloss hs
  exact hf (x s).1 (x s).2 hloss' hs'

theorem Triple.mono {x : StateM Store α} (h : Triple P x Q) (hP : ∀ s, P' s → P s)
    (hQ : ∀ a s, Q a s → Q' a s) : Triple P' x Q' := by
  intro s hloss hs
  obtain ⟨hloss', hs'⟩ := h s hloss (hP s hs)
  exact ⟨hloss', hQ _ _ hs'⟩

/-- A call, about a property that says nothing about the calls to come. -/
theorem triple_acting {unanswered : α} {f : Store → α × Store}
    (hsteady : ∀ s faults, P s → P { s with faults })
    (hfaults : ∀ s, (f s).2.faults = s.faults) (hfails : ∀ s, P s → Q unanswered s)
    (hacts : ∀ s, P s → Q (f s).1 (f s).2) : Triple P (Store.acting unanswered f) Q := by
  intro s hloss hs
  have htail : NoLoss { s with faults := s.faults.tail } := fun fault h ↦
    hloss fault (List.mem_of_mem_tail h)
  have hs' := hsteady s s.faults.tail hs
  unfold Store.acting
  rcases hfault : s.faults.headD .answered with _ | _ | _
  · refine ⟨fun fault h ↦ htail fault ?_, hacts _ hs'⟩
    rwa [hfaults] at h
  · exact ⟨htail, hfails _ hs'⟩
  · rcases hlist : s.faults with _ | ⟨fault, faults⟩
    · rw [hlist] at hfault
      nomatch hfault
    · rw [hlist] at hfault
      exact absurd hfault (hloss fault (hlist ▸ List.mem_cons_self))

end Triple

/-! ## Documents in memory and stored documents -/

/-- A property of documents in memory and one of stored documents that go with each other. -/
structure Lifelong (server : Server) (inMemory stored : Fields → Prop) : Prop where
  load : ∀ {source doc migrated}, stored source →
    restoreDocument server.library (.obj source) = some (.obj doc) →
      migratedDocument server doc = some migrated → inMemory migrated
  reload : ∀ {doc migrated}, inMemory doc → migratedDocument server doc = some migrated →
    inMemory migrated
  mark : ∀ {doc} generation, inMemory doc →
    inMemory (Assoc.set "_cache_generation" (.str generation) doc)
  unmark : ∀ {doc}, inMemory doc → inMemory (Assoc.erase "_cache_generation" doc)
  save : ∀ {doc source}, inMemory doc →
    safeDocument server.hashCanvasPassword server.library doc = some source →
      stored (Json.sortedFields source)

/-- The only stored document of the canvas is under its number. -/
def OnlyStored (canvasId : ℤ) (index : Java.Index) : Prop :=
  (index.map Prod.fst).Nodup ∧ ∀ e ∈ index, e.2.child (.key "canvas-id") = some (.int canvasId) →
    e.1 = toString canvasId

def StoredIn (stored : Fields → Prop) (canvasId : ℤ) (index : Java.Index) : Prop :=
  ∃ source, index.lookup (toString canvasId) = some (.obj source) ∧ stored source

/-- The document in memory has its property, and when the canvas is not loaded the stored one has
its own. -/
def Sound (inMemory stored : Fields → Prop) (canvasId : ℤ) (s : Store) : Prop :=
  (s.revision.isSome → s.isCached) ∧ (∀ doc, s.document = some doc → inMemory doc) ∧
    OnlyStored canvasId s.index ∧ (s.isCached = false → StoredIn stored canvasId s.index)

theorem OnlyStored.set {canvasId : ℤ} {index : Java.Index} (h : OnlyStored canvasId index)
    (source : Json) : OnlyStored canvasId (Assoc.set (toString canvasId) source index) := by
  refine ⟨Assoc.nodup_set h.1 _ _, fun e he hid ↦ ?_⟩
  rcases Assoc.mem_set he with rfl | he
  · rfl
  · exact h.2 e he hid

/-- What a search for the canvas finds is what is stored under its number. -/
theorem OnlyStored.lookup {canvasId : ℤ} {index : Java.Index} (h : OnlyStored canvasId index)
    {e : String × Json} (hfind : index.find? (fun e ↦
      decide (e.2.child (.key "canvas-id") = some (.int canvasId))) = some e) :
    index.lookup (toString canvasId) = some e.2 := by
  have hmem := List.mem_of_find?_eq_some hfind
  have hid := List.find?_some hfind
  rw [← h.2 e hmem (of_decide_eq_true hid)]
  exact Assoc.lookup_of_mem h.1 hmem

theorem firstHit_searchResponse (found : Option Json) :
    firstHit (searchResponse found) = found := by
  cases found <;> rfl

section Lifelong

variable {server : Server} {inMemory stored : Fields → Prop} {canvasId : ℤ}

/-- While a canvas is being loaded, the stored document stays as it was found if it is the source
of the load. -/
def Loading (inMemory stored : Fields → Prop) (canvasId : ℤ) (wasCached : Bool) (s : Store) :
    Prop :=
  s.revision = none ∧ s.isCached ∧ (∀ doc, s.document = some doc → inMemory doc) ∧
    OnlyStored canvasId s.index ∧ (wasCached = false → StoredIn stored canvasId s.index)

theorem Loading.sound {wasCached : Bool} {s : Store}
    (h : Loading inMemory stored canvasId wasCached s) : Sound inMemory stored canvasId s :=
  ⟨fun _ ↦ h.2.1, h.2.2.1, h.2.2.2.1, fun hcached ↦ by rw [h.2.1] at hcached; nomatch hcached⟩

theorem allocate_triple :
    Triple (fun s ↦ Sound inMemory stored canvasId s ∧ s.revision = none)
      getOrAllocateRedisAndSetCached fun found s ↦
        match found with
        | none => Sound inMemory stored canvasId s
        | some wasCached => Loading inMemory stored canvasId wasCached s :=
  triple_acting (fun _ _ h ↦ h) (fun _ ↦ rfl) (fun _ h ↦ h.1) fun _ ⟨h, hnone⟩ ↦
    ⟨hnone, rfl, h.2.1, h.2.2.1, h.2.2.2⟩

/-- A document that is saved is stored. -/
theorem saveDocument_triple (hlife : Lifelong server inMemory stored) {doc : Fields}
    (hdoc : inMemory doc) {P : Store → Prop} (hsteady : ∀ s faults, P s → P { s with faults })
    (honly : ∀ s, P s → OnlyStored canvasId s.index)
    (hset : ∀ s index, P s → OnlyStored canvasId index → StoredIn stored canvasId index →
      P { s with index }) :
    Triple P (saveDocument server canvasId doc) fun saved s ↦
      P s ∧ (saved → StoredIn stored canvasId s.index) := by
  have hrefused : Triple P (pure false) fun saved s ↦
      P s ∧ (saved → StoredIn stored canvasId s.index) :=
    triple_pure fun _ hs ↦ ⟨hs, nofun⟩
  unfold saveDocument saveCanvasDocument
  dsimp only [documentStore]
  split_ifs
  · exact hrefused
  · rcases hsource : safeDocument server.hashCanvasPassword server.library doc with _ | source
    · exact hrefused
    · refine triple_acting hsteady (fun _ ↦ rfl) (fun _ hs ↦ ⟨hs, nofun⟩) fun s hs ↦ ?_
      have hstored : StoredIn stored canvasId (Assoc.set (toString canvasId)
          (.obj (Json.sortedFields source)) s.index) :=
        ⟨_, Assoc.lookup_set_self .., hlife.save hdoc hsource⟩
      exact ⟨hset s _ hs ((honly s hs).set _) hstored, fun _ ↦ hstored⟩

theorem loadCanvas_triple {P : Store → Prop} (hsteady : ∀ s faults, P s → P { s with faults })
    (hmemory : ∀ s, P s → ∀ doc, s.document = some doc → inMemory doc) :
    Triple P loadCanvas fun found s ↦ P s ∧ ∀ doc, found = some doc → inMemory doc := by
  unfold loadCanvas
  exact triple_acting hsteady (fun _ ↦ rfl) (fun _ hs ↦ ⟨hs, nofun⟩) fun s hs ↦ ⟨hs, hmemory s hs⟩

/-- The stored document, as it is read. -/
theorem getCanvasDocument_triple {P : Store → Prop}
    (hsteady : ∀ s faults, P s → P { s with faults })
    (honly : ∀ s, P s → OnlyStored canvasId s.index)
    (hstored : ∀ s, P s → StoredIn stored canvasId s.index) :
    Triple P (getCanvasDocument server.library documentStore server.index canvasId) fun found s ↦
      P s ∧ ∀ doc, found = some doc → ∃ source, stored source ∧
        restoreDocument server.library (.obj source) = some doc := by
  have hread : ∀ s, P s → ∀ source, s.index.lookup (toString canvasId) = some source →
      ∀ doc, restoreDocument server.library source = some doc → ∃ source, stored source ∧
        restoreDocument server.library (.obj source) = some doc := by
    intro s hs source hsource doc hdoc
    obtain ⟨fields, hlookup, hfields⟩ := hstored s hs
    obtain rfl := Option.some.inj (hlookup.symm.trans hsource)
    exact ⟨fields, hfields, hdoc⟩
  unfold getCanvasDocument
  dsimp only [documentStore]
  split_ifs
  · exact triple_pure fun _ hs ↦ ⟨hs, nofun⟩
  refine triple_bind (Q := fun found s ↦ P s ∧ ∀ source, found = some source →
    s.index.lookup (toString canvasId) = some source) ?_ fun found ↦ ?_
  · exact triple_acting hsteady (fun _ ↦ rfl) (fun _ hs ↦ ⟨hs, nofun⟩) fun s hs ↦
      ⟨hs, fun _ h ↦ h⟩
  · rcases found with _ | source
    · refine triple_bind (Q := fun response s ↦ P s ∧ ∀ source,
        (response.bind firstHit) = some source →
          s.index.lookup (toString canvasId) = some source) ?_ fun response ↦ ?_
      · refine triple_acting (fun s faults h ↦ ⟨hsteady s faults h.1, h.2⟩) (fun _ ↦ rfl)
          (fun _ h ↦ ⟨h.1, nofun⟩) fun s h ↦ ⟨h.1, fun source hsource ↦ ?_⟩
        rw [Option.bind_some, firstHit_searchResponse] at hsource
        obtain ⟨e, hfind, rfl⟩ := Option.map_eq_some_iff.mp hsource
        exact (honly s h.1).lookup hfind
      · refine triple_pure fun s h ↦ ⟨h.1, fun doc hdoc ↦ ?_⟩
        obtain ⟨hits, hresponse, hdoc⟩ := Option.bind_eq_some_iff.mp hdoc
        obtain ⟨source, hsource, hdoc⟩ := Option.bind_eq_some_iff.mp hdoc
        exact hread s h.1 source (h.2 source (by rw [hresponse]; exact hsource)) doc hdoc
    · exact triple_pure fun s h ↦ ⟨h.1, hread s h.1 source (h.2 source rfl)⟩

theorem initialDocument_triple (hlife : Lifelong server inMemory stored) (wasCached : Bool) :
    Triple (Loading inMemory stored canvasId wasCached) (initialDocument server canvasId wasCached)
      fun found s ↦ Loading inMemory stored canvasId wasCached s ∧
        ∀ doc migrated, found = some doc → migratedDocument server doc = some migrated →
          inMemory migrated := by
  unfold initialDocument
  rcases wasCached with _ | _
  · refine triple_bind (getCanvasDocument_triple (fun _ _ h ↦ h) (fun _ h ↦ h.2.2.2.1)
      fun _ h ↦ h.2.2.2.2 rfl) fun found ↦ ?_
    split
    · next doc => exact triple_pure fun s h ↦ ⟨h.1, fun doc' migrated hdoc hmigrated ↦ by
        obtain rfl := Option.some.inj hdoc
        obtain ⟨source, hstored, hrestored⟩ := h.2 _ rfl
        exact hlife.load hstored hrestored hmigrated⟩
    · exact triple_pure fun s h ↦ ⟨h.1, nofun⟩
  · exact (loadCanvas_triple (fun _ _ h ↦ h) fun _ h ↦ h.2.2.1).mono (fun _ h ↦ h) fun found s h ↦
      ⟨h.1, fun doc migrated hdoc hmigrated ↦ hlife.reload (h.2 doc hdoc) hmigrated⟩

theorem saveMigrated_triple (hlife : Lifelong server inMemory stored) {wasCached : Bool}
    {doc migrated : Fields} {P : Store → Prop}
    (hmemory : ∀ s, Loading inMemory stored canvasId wasCached s ∧ P s → inMemory migrated) :
    Triple (fun s ↦ Loading inMemory stored canvasId wasCached s ∧ P s)
      (saveMigrated server canvasId doc migrated)
      fun _ s ↦ Loading inMemory stored canvasId wasCached s ∧ inMemory migrated := by
  unfold saveMigrated
  split_ifs
  · exact triple_pure fun s h ↦ ⟨h.1, hmemory s h⟩
  · intro s hloss h
    have hsaved := saveDocument_triple hlife (hmemory s h) (fun _ _ h ↦ h)
      (fun _ (h : Loading inMemory stored canvasId wasCached _) ↦ h.2.2.2.1)
      (fun _ _ h honly hin ↦ ⟨h.1, h.2.1, h.2.2.1, honly, fun _ ↦ hin⟩) s hloss h.1
    exact ⟨hsaved.1, hsaved.2.1, hmemory s h⟩

theorem storeCanvas_triple (hlife : Lifelong server inMemory stored) {wasCached : Bool}
    {migrated : Fields} (generation : String) :
    Triple (fun s ↦ Loading inMemory stored canvasId wasCached s ∧ inMemory migrated)
      (storeCanvas (Assoc.set "_cache_generation" (.str generation) migrated))
      fun _ s ↦ Loading inMemory stored canvasId wasCached s := by
  unfold storeCanvas
  refine triple_acting (fun _ _ h ↦ h) (fun _ ↦ rfl) (fun _ h ↦ h.1) fun s h ↦
    ⟨h.1.1, h.1.2.1, fun doc hdoc ↦ ?_, h.1.2.2.2⟩
  rw [← Option.some.inj hdoc]
  exact hlife.mark generation h.2

theorem initializeCanvas_triple (hlife : Lifelong server inMemory stored) (wasCached : Bool)
    (generation : String) :
    Triple (Loading inMemory stored canvasId wasCached)
      (initializeCanvas server canvasId wasCached generation)
      fun _ s ↦ Loading inMemory stored canvasId wasCached s := by
  unfold initializeCanvas
  refine triple_bind (initialDocument_triple hlife wasCached) fun found ↦ ?_
  split
  · exact triple_pure fun _ h ↦ h.1
  · next doc migrated hfound =>
    obtain ⟨doc', rfl, hmap⟩ := Option.bind_eq_some_iff.mp hfound
    obtain ⟨migrated', hmigrated, hpair⟩ := Option.map_eq_some_iff.mp hmap
    obtain ⟨rfl, rfl⟩ := Prod.mk.inj hpair
    have hmemory (s) (h : Loading inMemory stored canvasId wasCached s ∧ ∀ doc migrated,
        some doc' = some doc → migratedDocument server doc = some migrated → inMemory migrated) :
        inMemory migrated' := h.2 _ _ rfl hmigrated
    refine triple_bind (saveMigrated_triple hlife hmemory) fun saved ↦ ?_
    split_ifs
    · refine triple_bind (storeCanvas_triple hlife generation) fun kept ↦ ?_
      exact triple_pure fun _ h ↦ h
    · exact triple_pure fun _ h ↦ h.1

/-- After a load that failed the row may be marked as not loaded again: its document is still
stored. -/
theorem uncache_triple :
    Triple (Loading inMemory stored canvasId false) updateCanvasUncached
      fun _ s ↦ Sound inMemory stored canvasId s := by
  unfold updateCanvasUncached
  refine triple_acting (fun _ _ h ↦ h) (fun _ ↦ rfl) (fun _ h ↦ h.sound) fun s h ↦
    ⟨fun hsome ↦ ?_, h.2.2.1, h.2.2.2.1, fun _ ↦ h.2.2.2.2 rfl⟩
  rw [h.1] at hsome
  nomatch hsome

theorem abandonLoad_triple (wasCached : Bool) :
    Triple (Loading inMemory stored canvasId wasCached) (abandonLoad wasCached)
      fun _ s ↦ Sound inMemory stored canvasId s := by
  rcases wasCached with _ | _
  · have hclear : Triple (Loading inMemory stored canvasId false) clearCanvas
        fun _ s ↦ Loading inMemory stored canvasId false s := by
      unfold clearCanvas
      exact triple_acting (fun _ _ h ↦ h) (fun _ ↦ rfl) (fun _ h ↦ h) fun _ h ↦
        ⟨h.1, h.2.1, nofun, h.2.2.2⟩
    refine triple_bind hclear fun cleared ↦ ?_
    split_ifs
    · exact triple_bind uncache_triple fun _ ↦ triple_pure fun _ h ↦ h
    · exact triple_pure fun _ h ↦ h.sound
  · exact triple_pure fun _ h ↦ h.sound

theorem abandonAllocation_triple (wasCached : Bool) :
    Triple (Loading inMemory stored canvasId wasCached) (abandonAllocation wasCached)
      fun _ s ↦ Sound inMemory stored canvasId s := by
  rcases wasCached with _ | _
  · exact triple_bind uncache_triple fun _ ↦ triple_pure fun _ h ↦ h
  · exact triple_pure fun _ h ↦ h.sound

theorem registerCanvas_triple (wasCached : Bool) (doc : Fields) :
    Triple (Loading inMemory stored canvasId wasCached) (registerCanvas doc)
      fun _ s ↦ Sound inMemory stored canvasId s := by
  intro s hloss h
  unfold registerCanvas
  split
  · exact ⟨hloss, fun _ ↦ h.2.1, h.2.2.1, h.2.2.2.1, h.sound.2.2.2⟩
  · exact ⟨hloss, h.sound⟩

/-- **Loading.** However the calls of a load end, what is in memory and what is stored keep their
properties. -/
theorem getOrCreateCanvas_triple (hlife : Lifelong server inMemory stored) (generation : String) :
    Triple (fun s ↦ Sound inMemory stored canvasId s ∧ s.revision = none)
      (getOrCreateCanvas server canvasId generation)
      fun _ s ↦ Sound inMemory stored canvasId s := by
  unfold getOrCreateCanvas
  refine triple_bind allocate_triple fun found ↦ ?_
  rcases found with _ | wasCached
  · exact triple_pure fun _ h ↦ h
  have hping : Triple (Loading inMemory stored canvasId wasCached) ping
      fun _ s ↦ Loading inMemory stored canvasId wasCached s := by
    unfold ping
    exact triple_acting (fun _ _ h ↦ h) (fun _ ↦ rfl) (fun _ h ↦ h) fun _ h ↦ h
  refine triple_bind hping fun alive ↦ ?_
  split_ifs
  · refine triple_bind (initializeCanvas_triple hlife wasCached generation) fun created ↦ ?_
    rcases created with _ | doc
    · exact abandonLoad_triple wasCached
    · exact registerCanvas_triple wasCached doc
  · exact abandonAllocation_triple wasCached

/-! ## Saving -/

theorem saveCanvasSnapshot_triple (hlife : Lifelong server inMemory stored) :
    Triple (Sound inMemory stored canvasId) (saveCanvasSnapshot server canvasId) fun saved s ↦
      Sound inMemory stored canvasId s ∧ (saved.isSome → StoredIn stored canvasId s.index) := by
  unfold saveCanvasSnapshot
  have hflush : Triple (Sound inMemory stored canvasId) flushCanvas
      fun _ s ↦ Sound inMemory stored canvasId s := by
    unfold flushCanvas
    exact triple_acting (fun _ _ h ↦ h) (fun _ ↦ rfl) (fun _ h ↦ h) fun _ h ↦ h
  refine triple_bind hflush fun flushed ↦ ?_
  split_ifs
  · exact triple_pure fun _ h ↦ ⟨h, nofun⟩
  refine triple_bind (loadCanvas_triple (fun _ _ h ↦ h) fun _ h ↦ h.2.1) fun found ↦ ?_
  split
  · next doc generation hfound =>
    obtain ⟨doc', rfl, hmap⟩ := Option.bind_eq_some_iff.mp hfound
    obtain ⟨_, -, hpair⟩ := Option.map_eq_some_iff.mp hmap
    obtain rfl := (Prod.mk.inj hpair).1
    have hsave : Triple (fun s ↦ Sound inMemory stored canvasId s ∧
        ∀ doc, some doc' = some doc → inMemory doc)
        (saveDocument server canvasId (Assoc.erase "_cache_generation" doc')) fun saved s ↦
          Sound inMemory stored canvasId s ∧ (saved → StoredIn stored canvasId s.index) := by
      intro s hloss h
      exact saveDocument_triple hlife (hlife.unmark (h.2 _ rfl)) (fun _ _ h ↦ h)
        (fun _ (h : Sound inMemory stored canvasId _) ↦ h.2.2.1)
        (fun _ _ h honly hin ↦ ⟨h.1, h.2.1, honly, fun _ ↦ hin⟩) s hloss h.1
    refine triple_bind hsave fun saved ↦ triple_pure fun s h ↦ ⟨h.1, fun hsome ↦ h.2 ?_⟩
    rcases saved with _ | _
    · nomatch hsome
    · rfl
  · exact triple_pure fun _ h ↦ ⟨h.1, nofun⟩

/-- The document is stored, whether or not there is still an object for the canvas. -/
def Released (inMemory stored : Fields → Prop) (canvasId : ℤ) (s : Store) : Prop :=
  (∀ doc, s.document = some doc → inMemory doc) ∧ OnlyStored canvasId s.index ∧
    StoredIn stored canvasId s.index

theorem unloadCanvas_triple (hlife : Lifelong server inMemory stored) :
    Triple (Sound inMemory stored canvasId) (unloadCanvas server canvasId) fun unloaded s ↦
      if unloaded then Released inMemory stored canvasId s
      else Sound inMemory stored canvasId s := by
  unfold unloadCanvas
  refine triple_bind (saveCanvasSnapshot_triple hlife) fun saved ↦ ?_
  rcases saved with _ | generation
  · exact triple_pure fun _ h ↦ h.1
  have hsaved : Triple (fun s ↦ Sound inMemory stored canvasId s ∧
      ((some generation).isSome → StoredIn stored canvasId s.index)) updateCanvasUncached
      fun uncached s ↦ if uncached then Released inMemory stored canvasId s
        else Sound inMemory stored canvasId s ∧ StoredIn stored canvasId s.index := by
    unfold updateCanvasUncached
    refine triple_acting (fun _ _ h ↦ h) (fun _ ↦ rfl) (fun _ h ↦ ⟨h.1, h.2 rfl⟩) fun s h ↦ ?_
    rcases hcached : s.isCached with _ | _
    · refine ⟨⟨fun hsome ↦ ?_, h.1.2.1, h.1.2.2.1, fun _ ↦ h.2 rfl⟩, h.2 rfl⟩
      rw [← hcached]
      exact h.1.1 hsome
    · exact ⟨h.1.2.1, h.1.2.2.1, h.2 rfl⟩
  refine triple_bind hsaved fun uncached ↦ ?_
  rcases uncached with _ | _
  · -- The row says otherwise, or it could not be changed.
    refine triple_bind (Q := fun _ s ↦ Sound inMemory stored canvasId s ∧
      StoredIn stored canvasId s.index) ?_ fun assignment ↦ ?_
    · unfold getCanvasStorageAssignment
      exact triple_acting (fun _ _ h ↦ h) (fun _ ↦ rfl) (fun _ h ↦ h) fun _ h ↦ h
    · refine triple_pure fun s h ↦ ?_
      split_ifs
      · exact ⟨h.1.2.1, h.1.2.2.1, h.2⟩
      · exact h.1
  · refine triple_bind (Q := fun _ s ↦ Released inMemory stored canvasId s) ?_
      fun _ ↦ triple_pure fun _ h ↦ h
    unfold removeCanvasGeneration
    refine triple_acting (fun _ _ h ↦ h) (fun s ↦ ?_) (fun _ h ↦ h) fun s h ↦ ?_
    · split_ifs <;> rfl
    · split_ifs
      · exact ⟨nofun, h.2⟩
      · exact h

/-- **Saving.** However the calls of an unload end, what is in memory and what is stored keep their
properties. -/
theorem removeCanvas_triple (hlife : Lifelong server inMemory stored) :
    Triple (Sound inMemory stored canvasId) (removeCanvas server canvasId)
      fun _ s ↦ Sound inMemory stored canvasId s := by
  unfold removeCanvas
  refine triple_bind (unloadCanvas_triple hlife) fun unloaded ↦ ?_
  rcases unloaded with _ | _
  · exact triple_pure fun _ h ↦ h
  · exact fun s hloss h ↦ ⟨hloss, nofun, h.1, h.2.1, fun _ ↦ h.2.2⟩

end Lifelong

end Settings

end Agora
