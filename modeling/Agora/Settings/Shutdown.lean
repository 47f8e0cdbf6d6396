import Agora.Chat.Keys
import Agora.Settings.Store
import Agora.Snapshot.RoundTrip
import Mathlib.Data.List.Sort
import Mathlib.Logic.Function.Basic

/-!
# Shutting down

A server that stops saves every canvas it has loaded, and then gives up those that nobody has
queried for a while. A canvas that was queried in the last 90 seconds is saved like the others, but
it is not given up: its row still says that it is loaded, and its document stays in memory.

**Main result.** When all calls are answered, the canvases that were saved are handed over exactly
when none of them was queried in the last 90 seconds (`handed_over_iff`).
-/

namespace Agora

namespace Settings

open Snapshot (Fields safeDocument parts restoreFields_same safeDocument_eq)

variable {α : Type}

/-! ## The canvases of a server -/

/-- What a server keeps of a canvas it has loaded. -/
structure PoolCanvas where
  id : ℤ
  /-- The time of the last query, in nanoseconds. -/
  lastQuery : ℤ
  unloading : Bool := false
  /-- A write to memory has failed. -/
  persistenceFailed : Bool := false

/-- The places of the documents of all canvases. -/
structure Services where
  isCached : ℤ → Bool
  document : ℤ → Option Fields
  index : Java.Index
  faults : List Fault := []

/-- A step about one canvas. -/
def onCanvas (id : ℤ) (x : StateM Store α) : StateM Services α := fun s ↦
  let r := x { isCached := s.isCached id, document := s.document id, index := s.index
               faults := s.faults }
  (r.1, { isCached := Function.update s.isCached id r.2.isCached
          document := Function.update s.document id r.2.document
          index := r.2.index, faults := r.2.faults })

section Server

variable (server : Server)

/-! ## Saving everything -/

/-- Save a canvas, unless a write to memory has failed. -/
def saveForShutdown (c : PoolCanvas) : StateM Services (Option String) :=
  if c.persistenceFailed then pure none else onCanvas c.id (saveCanvasSnapshot server c.id)

/-- Which canvases of a list were saved. -/
def saveAll : List PoolCanvas → StateM Services (List (ℤ × Bool))
  | [] => pure []
  | c :: l => do
    let generation ← saveForShutdown server c
    let saved ← saveAll l
    return (c.id, generation.isSome) :: saved

/-- Save the canvases in the order of their numbers. -/
def saveCanvasesForShutdown (pool : List PoolCanvas) : StateM Services (List (ℤ × Bool)) :=
  saveAll server (pool.insertionSort fun c d ↦ c.id ≤ d.id)

/-! ## Giving up canvases -/

/-- 90 seconds. -/
def queryTtl : ℤ := 90000000000

def hasRecentQuery (now : ℤ) (c : PoolCanvas) : Bool := now - c.lastQuery < queryTtl

/-- Give up a canvas that was not queried for a while; the answer is what stays in the pool. -/
def removeCanvasImpl (now : ℤ) (c : PoolCanvas) : StateM Services (Option PoolCanvas) :=
  if hasRecentQuery now c then pure (some c)
  else if c.persistenceFailed then pure (some { c with unloading := false })
  else do
    let unloaded ← onCanvas c.id (unloadCanvas server c.id)
    return if unloaded then none else some { c with unloading := false }

/-- Go through the pool; the time passes meanwhile. -/
def cleanupInactiveCanvases (now : ℤ → ℤ) : List PoolCanvas → StateM Services (List PoolCanvas)
  | [] => pure []
  | c :: l => do
    let left ← removeCanvasImpl server (now c.id) c
    let rest ← cleanupInactiveCanvases now l
    return left.toList ++ rest

/-- What a server does with its canvases when it stops. -/
def stopServers (now : ℤ → ℤ) (pool : List PoolCanvas) : StateM Services (List PoolCanvas) := do
  let _ ← saveCanvasesForShutdown server pool
  cleanupInactiveCanvases server now (pool.map fun c ↦ { c with unloading := true })

/-! ## One canvas of the pool

`removeCanvas` is the same function in the store of the canvas alone, where the canvas has an object
as long as a revision of it is known. -/

/-- Whether a step neither looks at the revision that the server knows nor changes it. -/
def Unrevised (x : StateM Store α) : Prop :=
  ∀ (s : Store) (revision : Option ℤ),
    x { s with revision } = ((x s).1, { (x s).2 with revision })

theorem unrevised_pure (a : α) : Unrevised (pure a) := fun _ _ ↦ rfl

theorem unrevised_bind {β : Type} {x : StateM Store α} {f : α → StateM Store β} (hx : Unrevised x)
    (hf : ∀ a, Unrevised (f a)) : Unrevised (x >>= f) := by
  intro s revision
  have hbind (t : Store) : (x >>= f) t = f (x t).1 (x t).2 := rfl
  rw [hbind, hbind, hx]
  exact hf _ _ _

theorem unrevised_acting {unanswered : α} {f : Store → α × Store} (hf : Unrevised f) :
    Unrevised (Store.acting unanswered f) := by
  intro s revision
  have hacts := hf { s with faults := s.faults.tail } revision
  rw [Store.acting, Store.acting]
  dsimp only
  rcases s.faults.headD .answered with _ | _ | _
  · exact hacts
  · rfl
  · exact congrArg (fun r ↦ (unanswered, r.2)) hacts

theorem saveCanvasSnapshot_unrevised (canvasId : ℤ) :
    Unrevised (saveCanvasSnapshot server canvasId) := by
  refine unrevised_bind (unrevised_acting fun _ _ ↦ rfl) fun flushed ↦ ?_
  cases flushed with
  | false => exact unrevised_pure none
  | true =>
    refine unrevised_bind (unrevised_acting fun _ _ ↦ rfl) fun loaded ↦ ?_
    split
    · refine unrevised_bind ?_ fun saved ↦ unrevised_pure _
      rw [saveDocument, saveCanvasDocument]
      dsimp only [documentStore]
      split_ifs
      · exact unrevised_pure false
      · split
        · exact unrevised_acting fun _ _ ↦ rfl
        · exact unrevised_pure false
    · exact unrevised_pure none

theorem unloadCanvas_unrevised (canvasId : ℤ) : Unrevised (unloadCanvas server canvasId) := by
  refine unrevised_bind (saveCanvasSnapshot_unrevised server canvasId) fun saved ↦ ?_
  cases saved with
  | none => exact unrevised_pure false
  | some generation =>
    refine unrevised_bind (unrevised_acting fun _ _ ↦ rfl) fun uncached ↦ ?_
    cases uncached with
    | false =>
      exact unrevised_bind (unrevised_acting fun _ _ ↦ rfl) fun assigned ↦ unrevised_pure _
    | true =>
      refine unrevised_bind (unrevised_acting fun s revision ↦ ?_) fun _ ↦ unrevised_pure true
      dsimp only
      split
      · rfl
      · rfl

/-- The store of a canvas of which the server knows a revision. -/
def Services.storeOf (id : ℤ) (revision : Option ℤ) (s : Services) : Store where
  isCached := s.isCached id
  document := s.document id
  revision := revision
  index := s.index
  faults := s.faults

/-- A canvas that is not in use is given up by the pool as it is in its own store, and goes from the
pool when its object goes. -/
theorem removeCanvasImpl_storeOf {now : ℤ} {c : PoolCanvas} (hquiet : hasRecentQuery now c = false)
    (hpersisted : c.persistenceFailed = false) (revision : ℤ) (s : Services) :
    let r := removeCanvasImpl server now c s
    let t := (removeCanvas server c.id (s.storeOf c.id (some revision))).2
    r.2.storeOf c.id t.revision = t ∧ (r.1 = none ↔ t.revision = none) := by
  intro r t
  let x := unloadCanvas server c.id (s.storeOf c.id none)
  have hr : r = (if x.1 then none else some { c with unloading := false },
      (onCanvas c.id (unloadCanvas server c.id) s).2) := by
    have hbusy : ¬hasRecentQuery now c = true := by simp [hquiet]
    have hfailed : ¬c.persistenceFailed = true := by simp [hpersisted]
    change removeCanvasImpl server now c s = _
    rw [removeCanvasImpl, if_neg hbusy, if_neg hfailed]
    rfl
  have ht : t = { x.2 with revision := if x.1 then none else some revision } := by
    have hunload : unloadCanvas server c.id (s.storeOf c.id (some revision))
        = (x.1, { x.2 with revision := some revision }) :=
      unloadCanvas_unrevised server c.id (s.storeOf c.id none) (some revision)
    have hbind : removeCanvas server c.id (s.storeOf c.id (some revision))
        = (if (unloadCanvas server c.id (s.storeOf c.id (some revision))).1 then
            fun s ↦ ((), { s with revision := none }) else pure () : StateM Store Unit)
          (unloadCanvas server c.id (s.storeOf c.id (some revision))).2 := rfl
    change (removeCanvas server c.id (s.storeOf c.id (some revision))).2 = _
    rw [hbind, hunload]
    dsimp only
    split
    · rfl
    · rfl
  have hleft : (onCanvas c.id (unloadCanvas server c.id) s).2.storeOf c.id t.revision
      = { x.2 with revision := t.revision } := by
    change Store.mk (Function.update s.isCached c.id x.2.isCached c.id)
      (Function.update s.document c.id x.2.document c.id) t.revision x.2.index x.2.faults = _
    rw [Function.update_self, Function.update_self]
  rw [hr]
  refine ⟨hleft.trans (by rw [ht]), ?_⟩
  rw [ht]
  dsimp only
  split
  · simp
  · simp

/-! ## When all calls are answered -/

/-- What is saved of a document: its generation, and the document as it is stored. -/
def snapshotDocument (found : Option Fields) : Option (String × Fields) :=
  if server.index = "" then none
  else
    found.bind fun doc ↦
      match doc.lookup "_cache_generation" with
      | some (.str generation) =>
        (safeDocument server.hashCanvasPassword server.library
          (Assoc.erase "_cache_generation" doc)).map fun source ↦ (generation, source)
      | _ => none

/-- What is saved of a canvas. -/
def snapshotOf (s : Services) (c : PoolCanvas) : Option (String × Fields) :=
  if c.persistenceFailed then none else snapshotDocument server (s.document c.id)

def Store.put (s : Store) (id : ℤ) (source : Fields) : Store :=
  { s with index := Assoc.set (toString id) (.obj (Json.sortedFields source)) s.index }

/-- The services after a document was stored. -/
def Services.put (s : Services) (id : ℤ) (source : Fields) : Services :=
  { s with index := Assoc.set (toString id) (.obj (Json.sortedFields source)) s.index }

/-- The services after a canvas was given up. -/
def Services.release (s : Services) (id : ℤ) : Services :=
  { s with isCached := Function.update s.isCached id false
           document := Function.update s.document id none }

theorem acting_healthy {unanswered : α} {f : Store → α × Store} {s : Store} (h : s.faults = []) :
    Store.acting unanswered f s = f s := by
  obtain ⟨isCached, document, revision, index, faults⟩ := s
  obtain rfl : faults = [] := h
  rfl

variable {server} {s : Store} {id : ℤ}

theorem saveDocument_healthy (h : s.faults = []) {doc source : Fields} (hindex : server.index ≠ "")
    (hsource : safeDocument server.hashCanvasPassword server.library doc = some source) :
    saveDocument server id doc s = (true, s.put id source) := by
  rw [saveDocument, saveCanvasDocument, if_neg hindex, hsource]
  dsimp only [documentStore]
  rw [acting_healthy h]
  rfl

theorem getCanvasDocument_healthy (h : s.faults = []) (hindex : server.index ≠ "")
    (source restored : Json) (hstored : s.index.lookup (toString id) = some source)
    (hrestored : Snapshot.restoreDocument server.library source = some restored) :
    getCanvasDocument server.library documentStore server.index id s = (some restored, s) := by
  have hget : documentStore.getDocument server.index (toString id) s = (some source, s) := by
    dsimp only [documentStore]
    rw [acting_healthy h, hstored]
  rw [getCanvasDocument, if_neg hindex, StateT.bind_of_run hget]
  exact congrArg (·, s) hrestored

theorem saveCanvasSnapshot_healthy (h : s.faults = []) :
    saveCanvasSnapshot server id s = match snapshotDocument server s.document with
      | some (generation, source) => (some generation, s.put id source)
      | none => (none, s) := by
  have hflush : flushCanvas s = (true, s) := acting_healthy h
  have hload : loadCanvas s = (s.document, s) := acting_healthy h
  rw [saveCanvasSnapshot, StateT.bind_of_run hflush]
  change (loadCanvas >>= _) s = _
  rw [StateT.bind_of_run hload, snapshotDocument]
  rcases s.document with _ | doc
  · split_ifs <;> rfl
  rcases hgeneration : doc.lookup "_cache_generation" with _ | v
  · simp only [Option.bind_some, hgeneration]
    split_ifs <;> rfl
  simp only [Option.bind_some, hgeneration, Option.map_some]
  cases v with
  | str generation =>
    dsimp only
    by_cases hindex : server.index = ""
    · rw [if_pos hindex]
      have hrefused :
          saveDocument server id (Assoc.erase "_cache_generation" doc) s = (false, s) := by
        rw [saveDocument, saveCanvasDocument, if_pos hindex]
        rfl
      rw [StateT.bind_of_run hrefused]
      rfl
    · rw [if_neg hindex]
      rcases hsource : safeDocument server.hashCanvasPassword server.library
          (Assoc.erase "_cache_generation" doc) with _ | source
      · have hrefused : saveDocument server id (Assoc.erase "_cache_generation" doc) s
            = (false, s) := by
          rw [saveDocument, saveCanvasDocument, if_neg hindex, hsource]
          rfl
        rw [StateT.bind_of_run hrefused]
        rfl
      · rw [StateT.bind_of_run (saveDocument_healthy h hindex hsource)]
        rfl
  | _ => split_ifs <;> rfl

theorem unloadCanvas_healthy (h : s.faults = []) (hcached : s.isCached = true) :
    unloadCanvas server id s = match snapshotDocument server s.document with
      | some (_, source) => (true, { s.put id source with isCached := false, document := none })
      | none => (false, s) := by
  have hsave := @saveCanvasSnapshot_healthy server s id h
  rcases hsnapshot : snapshotDocument server s.document with _ | ⟨generation, source⟩
  · rw [hsnapshot] at hsave
    rw [unloadCanvas, StateT.bind_of_run hsave]
    rfl
  rw [hsnapshot] at hsave
  have huncached : updateCanvasUncached (s.put id source)
      = (true, { s.put id source with isCached := false }) := by
    rw [updateCanvasUncached, acting_healthy (show (s.put id source).faults = [] from h)]
    exact congrArg (·, _) hcached
  -- the document has not changed since it was saved, so its generation is the one that was saved
  have hgeneration : (s.document.bind fun doc ↦ doc.lookup "_cache_generation")
      = some (.str generation) := by
    unfold snapshotDocument at hsnapshot
    split_ifs at hsnapshot
    obtain ⟨doc, hdoc, hsnapshot⟩ := Option.bind_eq_some_iff.mp hsnapshot
    rw [hdoc, Option.bind_some]
    split at hsnapshot
    · next found hfound =>
      obtain ⟨_, -, hpair⟩ := Option.map_eq_some_iff.mp hsnapshot
      rw [hfound, (Prod.mk.inj hpair).1]
    · cases hsnapshot
  have hremoved : removeCanvasGeneration generation { s.put id source with isCached := false }
      = ((), { s.put id source with isCached := false, document := none }) := by
    rw [removeCanvasGeneration, acting_healthy (show
      ({ s.put id source with isCached := false } : Store).faults = [] from h)]
    exact if_pos hgeneration
  rw [unloadCanvas, StateT.bind_of_run hsave]
  dsimp only
  rw [StateT.bind_of_run huncached, if_pos rfl, StateT.bind_of_run hremoved]
  rfl

end Server

/-! ### Over all canvases -/

section Pool

variable {server : Server} {now : ℤ → ℤ} {s t : Services}

theorem saveForShutdown_healthy (h : s.faults = []) (c : PoolCanvas) :
    saveForShutdown server c s = match snapshotOf server s c with
      | some (generation, source) => (some generation, s.put c.id source)
      | none => (none, s) := by
  rw [saveForShutdown, snapshotOf]
  split_ifs
  · rfl
  rw [onCanvas, saveCanvasSnapshot_healthy h]
  rcases snapshotDocument server (s.document c.id) with _ | ⟨generation, source⟩
  · simp only [Function.update_eq_self]
  · simp only [Store.put, Services.put, Function.update_eq_self]

theorem removeCanvasImpl_healthy (h : s.faults = []) {c : PoolCanvas} (hcached : s.isCached c.id)
    (now : ℤ) : removeCanvasImpl server now c s =
      if hasRecentQuery now c then (some c, s)
      else match snapshotOf server s c with
        | some (_, source) => (none, (s.put c.id source).release c.id)
        | none => (some { c with unloading := false }, s) := by
  rw [removeCanvasImpl, snapshotOf]
  split_ifs
  · rfl
  · rfl
  have hunload := @unloadCanvas_healthy server
    { isCached := s.isCached c.id, document := s.document c.id, index := s.index,
      faults := s.faults } c.id h hcached
  rcases hsnapshot : snapshotDocument server (s.document c.id) with _ | ⟨generation, source⟩
  · rw [hsnapshot] at hunload
    have hkept : onCanvas c.id (unloadCanvas server c.id) s = (false, s) := by
      rw [onCanvas, hunload]
      simp only [Function.update_eq_self]
    rw [StateT.bind_of_run hkept]
    rfl
  · rw [hsnapshot] at hunload
    have hunloaded : onCanvas c.id (unloadCanvas server c.id) s
        = (true, (s.put c.id source).release c.id) := by
      rw [onCanvas, hunload]
      rfl
    rw [StateT.bind_of_run hunloaded]
    rfl

/-- Which canvases are saved depends on their documents only. -/
theorem saveAll_healthy (l : List PoolCanvas) (h : s.faults = []) :
    ∃ index, saveAll server l s
      = (l.map fun c ↦ (c.id, (snapshotOf server s c).isSome), { s with index }) := by
  induction l generalizing s with
  | nil => exact ⟨s.index, rfl⟩
  | cons c l ih =>
    have hsave := @saveForShutdown_healthy server s h c
    rcases hsnapshot : snapshotOf server s c with _ | ⟨generation, source⟩
    · rw [hsnapshot] at hsave
      obtain ⟨index, hl⟩ := ih h
      refine ⟨index, ?_⟩
      rw [saveAll, StateT.bind_of_run hsave, StateT.bind_of_run hl, List.map_cons, hsnapshot]
      rfl
    · rw [hsnapshot] at hsave
      obtain ⟨index, hl⟩ := @ih (s.put c.id source) h
      refine ⟨index, ?_⟩
      rw [saveAll, StateT.bind_of_run hsave, StateT.bind_of_run hl, List.map_cons, hsnapshot]
      rfl

/-! ### Canvases that are handed over -/

/-- A canvas is where it was. -/
structure Unmoved (id : ℤ) (s t : Services) : Prop where
  isCached : t.isCached id = s.isCached id
  document : t.document id = s.document id
  index : t.index.lookup (toString id) = s.index.lookup (toString id)

theorem Unmoved.refl (id : ℤ) (s : Services) : Unmoved id s s := ⟨rfl, rfl, rfl⟩

theorem Unmoved.trans {id : ℤ} {s t u : Services} (h : Unmoved id s t) (h' : Unmoved id t u) :
    Unmoved id s u :=
  ⟨h'.isCached.trans h.isCached, h'.document.trans h.document, h'.index.trans h.index⟩

theorem Unmoved.snapshotOf {c : PoolCanvas} (h : Unmoved c.id s t) :
    snapshotOf server t c = snapshotOf server s c := by
  rw [Settings.snapshotOf, Settings.snapshotOf, h.document]

theorem unmoved_release {id other : ℤ} (hne : other ≠ id) (s : Services) (source : Fields) :
    Unmoved other s ((s.put id source).release id) where
  isCached := Function.update_of_ne hne _ _
  document := Function.update_of_ne hne _ _
  index := Assoc.lookup_set_of_ne (fun h ↦ hne (intText_injective h).symm) _ _

/-- A canvas is no longer loaded anywhere, and its document is stored as it was. -/
structure GivenUp (server : Server) (c : PoolCanvas) (s t : Services) : Prop where
  isCached : t.isCached c.id = false
  document : t.document c.id = none
  stored : ∃ generation source, snapshotOf server s c = some (generation, source) ∧
    t.index.lookup (toString c.id) = some (.obj (Json.sortedFields source))

theorem GivenUp.trans {c : PoolCanvas} {u : Services} (h : GivenUp server c s t)
    (h' : Unmoved c.id t u) : GivenUp server c s u :=
  ⟨h'.isCached.trans h.isCached, h'.document.trans h.document,
    h.stored.imp fun _ h ↦ h.imp fun _ h ↦ ⟨h.1, h'.index.trans h.2⟩⟩

theorem givenUp_release {c : PoolCanvas} {generation : String} {source : Fields}
    (h : snapshotOf server s c = some (generation, source)) :
    GivenUp server c s ((s.put c.id source).release c.id) :=
  ⟨Function.update_self _ _ _, Function.update_self _ _ _, generation, source, h,
    Assoc.lookup_set_self _ _ _⟩

/-- Going through the pool releases the canvases that can be saved and were not queried for a
while. -/
theorem cleanup_healthy {l : List PoolCanvas} (hids : (l.map PoolCanvas.id).Nodup)
    (hcached : ∀ c ∈ l, s.isCached c.id) (h : s.faults = []) :
    ∃ t, (cleanupInactiveCanvases server now l s).2 = t ∧ t.faults = [] ∧
      (∀ id ∉ l.map PoolCanvas.id, Unmoved id s t) ∧
      ∀ c ∈ l, (hasRecentQuery (now c.id) c → Unmoved c.id s t) ∧
        (hasRecentQuery (now c.id) c = false → (snapshotOf server s c).isSome →
          GivenUp server c s t) := by
  induction l generalizing s with
  | nil => exact ⟨s, rfl, h, fun id _ ↦ Unmoved.refl id s, fun c hc ↦ absurd hc List.not_mem_nil⟩
  | cons c l ih =>
    rw [List.map_cons, List.nodup_cons] at hids
    rw [List.forall_mem_cons] at hcached
    -- what the first step does, and that it is about its own canvas
    obtain ⟨left, u, hstep, hfaults, hothers, hrecent, hgiven⟩ : ∃ left u,
        removeCanvasImpl server (now c.id) c s = (left, u) ∧ u.faults = [] ∧
          (∀ id, id ≠ c.id → Unmoved id s u) ∧
          (hasRecentQuery (now c.id) c → Unmoved c.id s u) ∧
          (hasRecentQuery (now c.id) c = false → (snapshotOf server s c).isSome →
            GivenUp server c s u) := by
      rw [removeCanvasImpl_healthy h hcached.1]
      split_ifs with hq
      · exact ⟨_, _, rfl, h, fun id _ ↦ Unmoved.refl id s, fun _ ↦ Unmoved.refl _ s,
          fun hnot ↦ absurd hq (by simp [hnot])⟩
      · rcases hsnapshot : snapshotOf server s c with _ | ⟨generation, source⟩
        · exact ⟨_, _, rfl, h, fun id _ ↦ Unmoved.refl id s, fun _ ↦ Unmoved.refl _ s,
            fun _ hsome ↦ absurd hsome (by simp)⟩
        · exact ⟨_, _, rfl, h, fun id hne ↦ unmoved_release hne s source,
            fun hyes ↦ absurd hyes hq, fun _ _ ↦ givenUp_release hsnapshot⟩
    have hne : ∀ d ∈ l, d.id ≠ c.id := fun d hd heq ↦
      hids.1 (heq ▸ List.mem_map_of_mem hd)
    obtain ⟨t, hrun, hfaults', hothers', hl⟩ := @ih u hids.2 (fun d hd ↦ by
      rw [(hothers d.id (hne d hd)).isCached]
      exact hcached.2 d hd) hfaults
    refine ⟨t, ?_, hfaults', fun id hid ↦ ?_,
      List.forall_mem_cons.mpr ⟨⟨fun hq ↦ ?_, fun hq hs ↦ ?_⟩,
        fun d hd ↦ ⟨fun hq ↦ ?_, fun hq hs ↦ ?_⟩⟩⟩
    · rw [cleanupInactiveCanvases, StateT.bind_of_run hstep]
      exact hrun
    · rw [List.map_cons, List.mem_cons, not_or] at hid
      exact (hothers id hid.1).trans (hothers' id hid.2)
    · exact (hrecent hq).trans (hothers' c.id hids.1)
    · exact (hgiven hq hs).trans (hothers' c.id hids.1)
    · exact (hothers d.id (hne d hd)).trans ((hl d hd).1 hq)
    · have hsame := hothers d.id (hne d hd)
      have hgiven' := (hl d hd).2 hq (by rwa [hsame.snapshotOf])
      refine ⟨hgiven'.isCached, hgiven'.document, ?_⟩
      rw [← hsame.snapshotOf]
      exact hgiven'.stored

/-- A canvas is free for other servers, which load what it was. -/
structure HandedOver (server : Server) (c : PoolCanvas) (s t : Services) : Prop
    extends GivenUp server c s t where
  loads : ∀ (other : Server) (doc : Fields), other.index = server.index →
    s.document c.id = some doc → Snapshot.Storable (Assoc.erase "_cache_generation" doc) →
      (∀ q ∈ parts, ∀ part, (Assoc.erase "_cache_generation" doc).lookup q.1 = some part →
        ReadsBack server.library other.library part) →
      ∃ restored, (onCanvas c.id (initialDocument other c.id false) t).1 = some restored ∧
        (Json.obj (Assoc.erase "_cache_generation" doc)).Same (.obj restored)

/-- A document that was released is read as it was. -/
theorem GivenUp.handedOver {c : PoolCanvas} (h : GivenUp server c s t) (hhealthy : t.faults = []) :
    HandedOver server c s t := by
  refine ⟨h, fun other doc hindex hdoc hstorable hreads ↦ ?_⟩
  obtain ⟨generation, source, hsnapshot, hstored⟩ := h.stored
  -- what is stored is the safe form of the document
  obtain ⟨hne, hsource⟩ : server.index ≠ "" ∧ safeDocument server.hashCanvasPassword server.library
      (Assoc.erase "_cache_generation" doc) = some source := by
    rw [snapshotOf, snapshotDocument, hdoc, Option.bind_some] at hsnapshot
    split_ifs at hsnapshot with hfailed hempty
    split at hsnapshot
    · obtain ⟨_, hsource, hpair⟩ := Option.map_eq_some_iff.mp hsnapshot
      exact ⟨hempty, (Prod.mk.inj hpair).2 ▸ hsource⟩
    · cases hsnapshot
  obtain ⟨source', hsource', hfrom, hnodup⟩ :=
    safeDocument_eq server.hashCanvasPassword server.library hstorable
  obtain rfl := Option.some.inj (hsource'.symm.trans hsource)
  obtain ⟨restored, hrestored, hsame⟩ := restoreFields_same
    (hfrom.perm hnodup (Json.sortedFields_perm source')) hstorable.parts_object hreads
    hstorable.encoded_free
  refine ⟨restored, ?_, hsame⟩
  have hread := @getCanvasDocument_healthy other { isCached := t.isCached c.id
                                                   document := t.document c.id
                                                   index := t.index, faults := t.faults }
    c.id hhealthy (hindex ▸ hne) _ _ hstored
    (by rw [Snapshot.restoreDocument, hrestored, Option.map_some])
  rw [onCanvas, initialDocument, if_neg Bool.false_ne_true, StateT.bind_of_run hread]
  rfl

/-- **Shutting down.** When all calls are answered, every canvas that was saved is handed over, if
and only if none of them had a query in the last 90 seconds. -/
theorem handed_over_iff (server : Server) (now : ℤ → ℤ) {pool : List PoolCanvas} {s : Services}
    (hids : (pool.map PoolCanvas.id).Nodup) (hcached : ∀ c ∈ pool, s.isCached c.id)
    (hhealthy : s.faults = []) :
    (∀ c ∈ pool, (c.id, true) ∈ (saveCanvasesForShutdown server pool s).1 →
      HandedOver server c s (stopServers server now pool s).2) ↔
    ∀ c ∈ pool, (c.id, true) ∈ (saveCanvasesForShutdown server pool s).1 →
      hasRecentQuery (now c.id) c = false := by
  have hperm := pool.perm_insertionSort fun c d ↦ c.id ≤ d.id
  obtain ⟨index, hsave⟩ := saveAll_healthy (pool.insertionSort fun c d ↦ c.id ≤ d.id) hhealthy
  obtain ⟨t, hrun, hfaults, -, hpool⟩ := @cleanup_healthy server now { s with index }
    (pool.map fun c ↦ { c with unloading := true }) (by rwa [List.map_map])
    (by simpa using hcached) hhealthy
  have hstop : (stopServers server now pool s).2 = t := by
    rw [stopServers, StateT.bind_of_run (show saveCanvasesForShutdown server pool s = _ from hsave)]
    exact hrun
  have hsaved : ∀ c ∈ pool, (c.id, true) ∈ (saveCanvasesForShutdown server pool s).1 →
      (snapshotOf server s c).isSome := by
    intro c hc hmem
    rw [show saveCanvasesForShutdown server pool s = _ from hsave] at hmem
    obtain ⟨d, hd, hpair⟩ := List.mem_map.mp hmem
    obtain ⟨hid, hsome⟩ := Prod.mk.inj hpair
    rw [List.inj_on_of_nodup_map hids hc (hperm.mem_iff.mp hd) hid.symm]
    exact hsome
  rw [List.forall_mem_map] at hpool
  rw [hstop]
  refine forall₂_congr fun c hc ↦ forall_congr' fun hmem ↦ ?_
  obtain ⟨hkept, hgiven⟩ := hpool c hc
  constructor
  · intro hover
    by_contra hrecent
    rw [Bool.not_eq_false] at hrecent
    have hsame := (hkept hrecent).isCached
    have hcached' : s.isCached c.id = true := hcached c hc
    exact absurd (hover.isCached.symm.trans (hsame.trans hcached')) Bool.false_ne_true
  · intro hquiet
    obtain ⟨hcached', hdocument, hstored⟩ := hgiven hquiet (hsaved c hc hmem)
    exact GivenUp.handedOver ⟨hcached', hdocument, hstored⟩ hfaults

end Pool

/-! ### An example -/

def stoppingServer : Server where
  library := emptyLibrary
  hashCanvasPassword _ := none
  readNumber _ := none
  index := "canvases"

def loadedServices : Services where
  isCached _ := true
  document _ := some [("_cache_generation", .str "first"), ("canvas-id", .int 7)]
  index := []

def loadedPool : List PoolCanvas := [{ id := 7, lastQuery := 0 }]

theorem quiet_handed_over :
    HandedOver stoppingServer { id := 7, lastQuery := 0 } loadedServices
      (stopServers stoppingServer (fun _ ↦ 90000000000) loadedPool loadedServices).2 := by
  have hquiet := (handed_over_iff stoppingServer (fun _ ↦ 90000000000)
    (by decide : (loadedPool.map PoolCanvas.id).Nodup)
    (fun c _ ↦ (rfl : loadedServices.isCached c.id = true)) rfl).mpr
  refine hquiet (fun c hc _ ↦ ?_) _ List.mem_cons_self (by decide +kernel)
  rw [List.mem_singleton.mp hc]
  decide

/-- A canvas that was just queried is saved, and keeps its row and its document in memory. -/
theorem recent_not_handed_over :
    let after := (stopServers stoppingServer (fun _ ↦ 0) loadedPool loadedServices).2
    (saveCanvasesForShutdown stoppingServer loadedPool loadedServices).1 = [(7, true)] ∧
      after.isCached 7 = true ∧ (after.document 7).isSome = true ∧
      ¬∀ c ∈ loadedPool,
        (c.id, true) ∈ (saveCanvasesForShutdown stoppingServer loadedPool loadedServices).1 →
          HandedOver stoppingServer c loadedServices after := by
  have hcached : (stopServers stoppingServer (fun _ ↦ 0) loadedPool loadedServices).2.isCached 7
      = true := by decide +kernel
  refine ⟨by decide +kernel, hcached, by decide +kernel, fun h ↦ ?_⟩
  have hover := h { id := 7, lastQuery := 0 } List.mem_cons_self (by decide +kernel)
  exact absurd (hover.isCached.symm.trans hcached) Bool.false_ne_true

end Settings

end Agora
