import Agora.Memory.CacheManager

/-!
# Dirty values are kept

The operations of the cache in any order in which `MemoryClass` issues them: a region is admitted
only when its last lookup asked for it. What each of them meets is arbitrary: which locks are free,
in which order a set is walked, the store, and what the writer answers. The writer notes what it
saved.

In every state of such a run the cache is valid, so `RegionLru` makes room before the inner memory
would (`RegionLru.prepare_room`); and a value that an update accepted stays, dirty, until it is
saved, replaced by a later update, or removed (`CacheManager.dirty_until_released`).
-/

namespace Agora

open WriteBack

variable {σ : Type*}

/-! ## Noting what is saved -/

/-- Locations with the values that were saved there. -/
abbrev Saves := List ((String × String) × Json)

/-- A writer that notes the values it saved. -/
def recorded (writer : RegionWriter σ) : RegionWriter (σ × Saves) :=
  fun documentKey region value s ↦
  match writer documentKey region value s.1 with
  | (true, t) => (true, t, ((documentKey, region), value) :: s.2)
  | (false, t) => (false, t, s.2)

theorem recorded_true {writer : RegionWriter σ} {documentKey region : String} {value : Json}
    {s s' : σ × Saves} (h : recorded writer documentKey region value s = (true, s')) :
    s'.2 = ((documentKey, region), value) :: s.2 := by
  rcases hw : writer documentKey region value s.1 with ⟨_ | _, t⟩
  · simp [recorded, hw] at h
  · simp only [recorded, hw, Prod.mk.injEq, true_and] at h
    rw [← h]

theorem recorded_false {writer : RegionWriter σ} {documentKey region : String} {value : Json}
    {s s' : σ × Saves} (h : recorded writer documentKey region value s = (false, s')) :
    s'.2 = s.2 := by
  rcases hw : writer documentKey region value s.1 with ⟨_ | _, t⟩
  · simp only [recorded, hw, Prod.mk.injEq, true_and] at h
    rw [← h]
  · simp [recorded, hw] at h

/-- What a cache does on its own account loses no dirty value that it did not save. -/
theorem dirty_of_quiet {writer : RegionWriter σ} {V V' : View (String × String) Json}
    {s s' : σ × Saves} (h : Quiet (CacheManager.locationWriter (recorded writer)) (V, s) (V', s'))
    {i : String × String} {v : Json} (hv : V i = some ⟨v, true⟩) :
    V' i = some ⟨v, true⟩ ∨ (i, v) ∈ s'.2 := by
  refine Quiet.invariant (P := fun c ↦ c.1 i = some ⟨v, true⟩ ∨ (i, v) ∈ c.2.2) ?_ h (.inl hv)
  rintro c c' hstep (hc | hc)
  · rcases hstep with hdrop | @⟨V, s, s', j, w, hj, hw⟩ | _
    · rcases hdrop i with hi | ⟨-, w, hw⟩
      · exact .inl (hi.trans hc)
      · exact absurd (hc.symm.trans hw) (by simp)
    · by_cases hij : i = j
      · subst hij
        have hvw : v = w := by simpa using hc.symm.trans hj
        exact .inr (by rw [recorded_true hw, hvw]; exact List.mem_cons_self)
      · exact .inl ((Function.update_of_ne hij ..).trans hc)
    · exact .inl hc
  · refine .inr ?_
    rcases hstep with _ | ⟨-, hw⟩ | ⟨-, hw⟩
    · exact hc
    · rw [recorded_true hw]
      exact List.mem_cons_of_mem _ hc
    · rw [recorded_false hw]
      exact hc

/-- An update leaves other locations alone. -/
theorem update_of_ne {ι α : Type*} [DecidableEq ι] {writer : Writer ι α σ} {keeps : α → Prop}
    {i j : ι} {v : α} {c c' : View ι α × σ} {b : Bool} (h : Update writer keeps j v c b c')
    (hij : i ≠ j) :
    c'.1 i = c.1 i := by
  rcases h with _ | _ | _
  · exact Function.update_of_ne hij ..
  · exact Function.update_of_ne hij ..
  · rfl

/-- An update that is refused changes nothing. -/
theorem update_refused {ι α : Type*} [DecidableEq ι] {writer : Writer ι α σ} {keeps : α → Prop}
    {j : ι} {v : α} {c c' : View ι α × σ} (h : Update writer keeps j v c false c') :
    c'.1 = c.1 := by
  rcases h with _ | _ | _
  rfl

/-! ## Room in the inner memory -/

namespace RegionLru

variable {cap bytes : ℕ} (size : Json → ℕ)

/-- What `add` does before it keeps a value: it makes a cache ready for it, or it answers. -/
def prepare (c : RegionLru) (documentKey region : String) (value : Json) (dirty : Bool)
    (writer : RegionWriter σ) (s : σ) : Except (Bool × RegionLru × σ) (RegionLru × σ) :=
  if c.capacity = 0 then .error (true, c, s)
  else
    let (current, c) := c.getEntry region
    let alreadyCached := current.isSome
    let c := if alreadyCached then c.touch region else c
    if c.maximumBytes < size value then
      let (written, s) :=
        if alreadyCached && dirty then writer documentKey region value s else (true, s)
      if written then
        let c := if alreadyCached then c.erase region else c
        .error (true, { c with admission := c.admission.add region kUncacheable }, s)
      else .error (false, c, s)
    else if !alreadyCached && c.capacity ≤ c.lru.length then
      match c.evict documentKey writer s with
      | (true, c, s) => .ok (c, s)
      | (false, c, s) => .error (false, c, s)
    else .ok (c, s)

theorem add_eq_prepare (c : RegionLru) (documentKey region : String) (value : Json) (dirty : Bool)
    (writer : RegionWriter σ) (s : σ) :
    c.add size documentKey region value dirty writer s =
      match c.prepare size documentKey region value dirty writer s with
      | .error answer => answer
      | .ok (c', s') => (true, c'.store region value dirty, s') := by
  rw [add, prepare]
  dsimp only
  split_ifs
  all_goals first
    | rfl
    | (rcases RegionLru.evict _ documentKey writer s with ⟨_ | _, c', s'⟩ <;> rfl)

/-- A cache that is ready has the region already, or room for it. -/
theorem prepare_room {c c' : RegionLru} (hc : c.Valid cap bytes) {documentKey region : String}
    {value : Json} {dirty : Bool} {writer : RegionWriter σ} {s s' : σ}
    (h : c.prepare size documentKey region value dirty writer s = .ok (c', s')) :
    c'.Valid cap bytes ∧ ((c'.view region).isSome ∨ c'.lru.length < c'.capacity) := by
  have hvalid := hc.getEntry region
  have hview := view_getEntry c region
  rw [prepare] at h
  split_ifs at h with hcap
  rw [getEntry_eq] at h
  generalize (c.getEntry region).2 = d at h hvalid hview
  dsimp only at h
  rcases hv : c.view region with _ | e
  · -- a new region, which takes the place of a victim when the cache is full
    simp only [hv, Option.map_none, Option.isSome_none, Bool.false_eq_true, if_false,
      Bool.not_false, Bool.true_and, Bool.false_and, if_true] at h
    split_ifs at h with hsize hfull
    · obtain ⟨hevict, -, hcapacity, hlength⟩ := evict_spec documentKey writer hvalid s
      rcases he : d.evict documentKey writer s with ⟨_ | _, d', t⟩
      · simp [he] at h
      · simp only [he, Except.ok.injEq, Prod.mk.injEq] at h hevict hcapacity hlength
        obtain ⟨rfl, rfl⟩ := h
        have hle := hvalid.length_le
        have hshort := hlength trivial
        have hfull : d.capacity ≤ d.lru.length := of_decide_eq_true hfull
        have hpos : 0 < d.capacity := by
          have hd := hvalid.capacity_eq
          have hc' := hc.capacity_eq
          omega
        exact ⟨hevict, .inr (by omega)⟩
    · simp only [Except.ok.injEq, Prod.mk.injEq] at h
      obtain ⟨rfl, rfl⟩ := h
      exact ⟨hvalid, .inr (by simpa using hfull)⟩
  · -- a region that is there is only touched
    have hsome : (d.view region).isSome := by rw [hview, hv]; rfl
    simp only [hv, Option.map_some, Option.isSome_some, if_true, Bool.not_true, Bool.false_and,
      Bool.false_eq_true, if_false] at h
    split_ifs at h
    simp only [Except.ok.injEq, Prod.mk.injEq] at h
    obtain ⟨rfl, rfl⟩ := h
    exact ⟨hvalid.touch hsome, .inl (by rw [view_touch]; exact hsome)⟩

/-- So the inner memory pushes nothing out. -/
theorem Valid.keys_subset_add {c : RegionLru} (hc : c.Valid cap bytes) {region : String}
    (h : (c.view region).isSome ∨ c.lru.length < c.capacity) (value : Json) :
    c.entries.keys ⊆ (c.entries.add region value).keys := by
  have hlength := hc.keys.length_eq
  have hcapacity := hc.entriesCapacity
  by_cases hregion : region ∈ c.entries.keys
  · have hcap : c.entries.capacity ≠ 0 := by
      have hpos := List.length_pos_of_mem hregion
      have hle := hc.length_le
      omega
    exact (LruMemory.keys_add_of_mem (hc.keys.nodup_iff.mpr hc.nodup) hcap hregion
      value).symm.subset
  · have hroom : c.lru.length < c.capacity :=
      h.resolve_left fun hsome ↦ hregion ((view_isSome c region).mp hsome)
    rw [LruMemory.add_of_notMem hregion (by omega)]
    exact List.subset_cons_self _ _

/-- A lookup that finds a value does not ask for the region. -/
theorem lookup_value_or (c : RegionLru) (region : String) :
    (c.lookup region).1.value = none ∨ (c.lookup region).1.admitOnMiss = false := by
  rw [lookup]
  split_ifs
  · exact .inl rfl
  · rw [getEntry_eq]
    rcases c.view region with _ | entry
    · refine .inl ?_
      dsimp only [Option.map_none]
      split
      · split_ifs <;> rfl
      · rfl
    · exact .inr rfl

/-- An update of a region that is not cached is refused. -/
theorem update_absent {c : RegionLru} {region : String} (hregion : c.view region = none)
    (documentKey : String) (value : Json) (writer : RegionWriter σ) (s : σ) :
    c.update size documentKey region value writer s = (false, (c.getEntry region).2, s) := by
  rw [update, getEntry_eq, hregion]
  rfl

end RegionLru

/-! ## Runs -/

namespace CacheManager

/-- The operations that `MemoryClass` asks for. -/
inductive Operation
  | lookup (documentKey region : String)
  | get (documentKey region : String)
  | admitRegion (documentKey region : String) (value : Json)
  | update (documentKey region : String) (value : Json)
  | dirtyRegions (documentKey : String)
  | flush (documentKey : String)
  | removeRegion (documentKey region : String)
  | removeDocument (documentKey : String)

/-- What an operation meets. -/
structure Surroundings (σ : Type*) where
  size : Json → ℕ
  order : Iteration
  tryLock : String → Bool
  writer : RegionWriter σ
  store : σ

/-- An operation that took place: whether a lookup asked for the region, or what else was answered,
and the values that were saved meanwhile. -/
structure Event where
  operation : Operation
  answer : Bool
  saves : Saves

namespace Surroundings

variable (e : Surroundings σ)

/-- The store, with nothing saved so far. -/
def start : σ × Saves := (e.store, [])

def perform (m : CacheManager) : Operation → Bool × CacheManager × σ × Saves
  | .lookup documentKey region =>
    let (found, m, s) := m.lookup e.order e.tryLock (recorded e.writer) documentKey region e.start
    (found.admitOnMiss, m, s)
  | .get documentKey region =>
    let (value, m) := m.get documentKey region
    (value.isSome, m, e.start)
  | .admitRegion documentKey region value =>
    m.admitRegion e.size e.order e.tryLock (recorded e.writer) documentKey region value e.start
  | .update documentKey region value =>
    m.update e.size (recorded e.writer) documentKey region value e.start
  | .dirtyRegions documentKey =>
    let (regions, m) := m.dirtyRegions e.order documentKey
    (!regions.isEmpty, m, e.start)
  | .flush documentKey => m.flush e.order (recorded e.writer) documentKey e.start
  | .removeRegion documentKey region => (true, m.removeRegion documentKey region, e.start)
  | .removeDocument documentKey => (true, m.removeDocument documentKey, e.start)

/-- The cache to whose inner memory an operation adds a region with its value, if it does. -/
def prepared (m : CacheManager) : Operation → Option (RegionLru × String × Json)
  | .admitRegion documentKey region value =>
    if m.maximumRegions = 0 then none
    else
      match cacheForLookup e.order e.tryLock (recorded e.writer) m documentKey e.start with
      | (none, _, _) => none
      | (some cache, _, s) =>
        match cache.prepare e.size documentKey region value false (recorded e.writer) s with
        | .error _ => none
        | .ok (cache, _) => some (cache, region, value)
  | .update documentKey region value =>
    match m.find documentKey with
    | (none, _) => none
    | (some cache, _) =>
      let (current, cache) := cache.getEntry region
      if current.isSome then
        match cache.prepare e.size documentKey region value true (recorded e.writer) e.start with
        | .error _ => none
        | .ok (cache, _) => some (cache, region, value)
      else none
  | _ => none

end Surroundings

/-- The caches, and the regions whose last lookup asked for them. -/
structure State where
  cache : CacheManager
  asked : String × String → Bool

namespace State

def initial (maximumDocuments regionsPerDocument maximumBytes : ℕ) : State :=
  ⟨.create maximumDocuments regionsPerDocument maximumBytes, fun _ ↦ false⟩

/-- A region is admitted only when its last lookup asked for it. -/
def Allows (st : State) : Operation → Prop
  | .admitRegion documentKey region _ => st.asked (documentKey, region) = true
  | _ => True

def event (st : State) (e : Surroundings σ) (operation : Operation) : Event :=
  let (answer, _, _, saves) := e.perform st.cache operation
  ⟨operation, answer, saves⟩

def next (st : State) (e : Surroundings σ) (operation : Operation) : State where
  cache := (e.perform st.cache operation).2.1
  asked :=
    match operation with
    | .lookup documentKey region =>
      Function.update st.asked (documentKey, region) (e.perform st.cache operation).1
    | .admitRegion documentKey region _ => Function.update st.asked (documentKey, region) false
    | _ => st.asked

end State

/-- The operations of a run, in order. -/
inductive Run (σ : Type*) : State → List Event → State → Prop
  | start (st : State) : Run σ st [] st
  | step {st st' : State} {events : List Event} (h : Run σ st events st') (e : Surroundings σ)
      {operation : Operation} (hop : st'.Allows operation) :
      Run σ st (events ++ [st'.event e operation]) (st'.next e operation)

/-- An event after which a value need not be kept at a location: it was saved, a later value was
accepted, or it was removed. -/
def Event.Releases (event : Event) (documentKey region : String) (value : Json) : Prop :=
  ((documentKey, region), value) ∈ event.saves ∨
    (∃ later, event.operation = .update documentKey region later ∧ event.answer = true) ∨
    event.operation = .removeRegion documentKey region ∨
    event.operation = .removeDocument documentKey

/-! ### Single operations -/

/-- What holds in a run: the cache is valid, and no region that was asked for is there yet. -/
structure State.Sound (st : State) : Prop where
  valid : st.cache.Valid
  absent : ∀ i, st.asked i = true → st.cache.view i = none

theorem State.sound_initial (maximumDocuments regionsPerDocument maximumBytes : ℕ) :
    (State.initial maximumDocuments regionsPerDocument maximumBytes).Sound :=
  ⟨valid_create .., fun _ h ↦ absurd h Bool.false_ne_true⟩

/-- An update of a region that is not cached changes nothing. -/
theorem update_absent (size : Json → ℕ) (writer : RegionWriter σ) {m : CacheManager} (hm : m.Valid)
    {documentKey region : String} (hregion : m.view (documentKey, region) = none) (value : Json)
    (s : σ) :
    let r := update size writer m documentKey region value s
    r.2.1.Valid ∧ r.2.1.bounds = m.bounds ∧ r.1 = false ∧ r.2.1.view = m.view ∧ r.2.2 = s := by
  obtain ⟨m', hvalid, hbounds, hview, ⟨hfind, -⟩ | ⟨c, hfind, hlookup, hc, hentry⟩⟩ :=
    find_spec hm documentKey
  · simp only [update, hfind]
    exact ⟨hvalid, hbounds, trivial, hview, trivial⟩
  · have habsent := RegionLru.update_absent size ((hentry region).symm.trans hregion) documentKey
      value writer s
    simp only [update, hfind, habsent]
    exact ⟨hvalid.put (by rw [hlookup]; rfl) (hc.getEntry region), hbounds, trivial,
      (view_put_same hlookup (RegionLru.view_getEntry c region)).trans hview, trivial⟩

theorem lookup_value_or (order : Iteration) (tryLock : String → Bool) (writer : RegionWriter σ)
    (m : CacheManager) (documentKey region : String) (s : σ) :
    (lookup order tryLock writer m documentKey region s).1.value = none ∨
      (lookup order tryLock writer m documentKey region s).1.admitOnMiss = false := by
  rw [lookup]
  split_ifs
  · exact .inl rfl
  · rcases cacheForLookup order tryLock writer m documentKey s with ⟨_ | c, m', s'⟩
    · exact .inl rfl
    · exact c.lookup_value_or region

/-- The view after an operation that does nothing of its own: what was dirty still is, or was saved
meanwhile, and nothing is new. -/
structure Retains (V V' : View (String × String) Json) (saves : Saves) : Prop where
  dirty : ∀ i v, V i = some ⟨v, true⟩ → V' i = some ⟨v, true⟩ ∨ (i, v) ∈ saves
  absent : ∀ i, V i = none → V' i = none

theorem Retains.refl (V : View (String × String) Json) (saves : Saves) : Retains V V saves :=
  ⟨fun _ _ h ↦ .inl h, fun _ h ↦ h⟩

theorem retains_of_quiet {writer : RegionWriter σ} {V V' : View (String × String) Json}
    {s s' : σ × Saves} (h : Quiet (locationWriter (recorded writer)) (V, s) (V', s')) :
    Retains V V' s'.2 :=
  ⟨fun _ _ hv ↦ dirty_of_quiet h hv, fun _ hi ↦ h.none hi⟩

/-- A place that was empty may be filled. -/
theorem Retains.fill {V W : View (String × String) Json} {saves : Saves} (h : Retains V W saves)
    {j : String × String} (hj : V j = none) (entry : Option (Entry Json)) {i : String × String}
    {v : Json} (hv : V i = some ⟨v, true⟩) :
    Function.update W j entry i = some ⟨v, true⟩ ∨ (i, v) ∈ saves := by
  have hij : i ≠ j := by
    rintro rfl
    rw [hj] at hv
    exact absurd hv (by simp)
  rw [Function.update_of_ne hij]
  exact h.dirty i v hv

namespace State

variable {st : State} (e : Surroundings σ)

/-- The operations that neither admit, update nor remove a region. -/
theorem Sound.retains (hst : st.Sound) {operation : Operation}
    (h : (∃ documentKey region, operation = .lookup documentKey region) ∨
      (∃ documentKey region, operation = .get documentKey region) ∨
      (∃ documentKey, operation = .dirtyRegions documentKey) ∨
      ∃ documentKey, operation = .flush documentKey) :
    (st.next e operation).cache.Valid ∧
      Retains st.cache.view (st.next e operation).cache.view (st.event e operation).saves := by
  rcases h with ⟨documentKey, region, rfl⟩ | ⟨documentKey, region, rfl⟩ | ⟨documentKey, rfl⟩ |
    ⟨documentKey, rfl⟩
  · obtain ⟨hvalid, -, hquiet, -⟩ := lookup_spec e.order e.tryLock (recorded e.writer) hst.valid
      documentKey region e.start
    exact ⟨hvalid, retains_of_quiet hquiet⟩
  · obtain ⟨hvalid, -, hview, -⟩ := get_spec hst.valid documentKey region
    refine ⟨hvalid, ?_⟩
    simp only [next, Surroundings.perform, hview]
    exact Retains.refl _ _
  · obtain ⟨hvalid, -, hview, -⟩ := dirtyRegions_spec e.order hst.valid documentKey
    refine ⟨hvalid, ?_⟩
    simp only [next, Surroundings.perform, hview]
    exact Retains.refl _ _
  · obtain ⟨hvalid, -, hquiet, -⟩ := flush_spec e.order (recorded e.writer) hst.valid documentKey
      e.start
    exact ⟨hvalid, retains_of_quiet hquiet⟩

/-- **One operation.** A run stays sound, and a dirty value stays unless it is released. -/
theorem Sound.step (hst : st.Sound) {operation : Operation} (hop : st.Allows operation) :
    (st.next e operation).Sound ∧
      ∀ documentKey region value, st.cache.view (documentKey, region) = some ⟨value, true⟩ →
        ¬(st.event e operation).Releases documentKey region value →
        (st.next e operation).cache.view (documentKey, region) = some ⟨value, true⟩ := by
  -- most operations only write back and drop: nothing dirty goes without a save
  have hquiet : ∀ {operation : Operation}, (st.next e operation).cache.Valid →
      Retains st.cache.view (st.next e operation).cache.view (st.event e operation).saves →
      (∀ i, (st.next e operation).asked i = true → (st.next e operation).cache.view i = none) →
      (st.next e operation).Sound ∧
        ∀ documentKey region value, st.cache.view (documentKey, region) = some ⟨value, true⟩ →
          ¬(st.event e operation).Releases documentKey region value →
          (st.next e operation).cache.view (documentKey, region) = some ⟨value, true⟩ :=
    fun hvalid hretains hasked ↦ ⟨⟨hvalid, hasked⟩,
      fun _ _ _ hv hnot ↦ (hretains.dirty _ _ hv).resolve_right fun hs ↦ hnot (.inl hs)⟩
  rcases operation with ⟨d, r⟩ | ⟨d, r⟩ | ⟨d, r, v⟩ | ⟨d, r, v⟩ | d | d | ⟨d, r⟩ | d
  · obtain ⟨hvalid, hretains⟩ := hst.retains e (.inl ⟨d, r, rfl⟩)
    refine hquiet hvalid hretains fun i hi ↦ ?_
    by_cases hij : i = (d, r)
    · -- the lookup asked for the region, so it did not find it
      subst hij
      obtain ⟨-, -, -, -, hnone⟩ := lookup_spec e.order e.tryLock (recorded e.writer) hst.valid d r
        e.start
      have hasked := (Function.update_self ..).symm.trans hi
      exact hnone ((lookup_value_or ..).resolve_right (Bool.eq_false_iff.not_left.mpr hasked))
    · exact hretains.absent i (hst.absent i ((Function.update_of_ne hij ..).symm.trans hi))
  · obtain ⟨hvalid, hretains⟩ := hst.retains e (.inr (.inl ⟨d, r, rfl⟩))
    exact hquiet hvalid hretains fun i hi ↦ hretains.absent i (hst.absent i hi)
  · -- the region is not there, so nothing dirty is replaced
    have habsent := hst.absent (d, r) hop
    obtain ⟨hvalid, -, V, hV, hview⟩ :=
      admitRegion_spec e.size e.order e.tryLock (recorded e.writer) hst.valid habsent v e.start
    have hretains := retains_of_quiet hV
    refine ⟨⟨hvalid, fun i hi ↦ ?_⟩, fun d' r' w hw hnot ↦ ?_⟩
    · have hij : i ≠ (d, r) := by
        rintro rfl
        exact Bool.false_ne_true ((Function.update_self ..).symm.trans hi)
      have hnone := hretains.absent i (hst.absent i ((Function.update_of_ne hij ..).symm.trans hi))
      rcases hview with hview | hview
      · exact (congrFun hview i).trans hnone
      · exact (congrFun hview i).trans ((Function.update_of_ne hij ..).trans hnone)
    · have hkept : ((st.next e (.admitRegion d r v)).cache.view (d', r') = some ⟨w, true⟩) ∨
          ((d', r'), w) ∈ (st.event e (.admitRegion d r v)).saves := by
        rcases hview with hview | hview
        · exact (hretains.dirty _ _ hw).imp_left (congrFun hview _).trans
        · exact (hretains.fill habsent _ hw).imp_left (congrFun hview _).trans
      exact hkept.resolve_right fun hs ↦ hnot (.inl hs)
  · rcases habsent : st.cache.view (d, r) with _ | entry
    · obtain ⟨hvalid, -, -, hview, -⟩ :=
        update_absent e.size (recorded e.writer) hst.valid habsent v e.start
      refine hquiet hvalid ?_ fun i hi ↦ (congrFun hview i).trans (hst.absent i hi)
      simp only [next, Surroundings.perform, hview]
      exact Retains.refl _ _
    · obtain ⟨hvalid, -, hupdate⟩ := update_spec e.size (recorded e.writer) hst.valid
        (by rw [habsent]; rfl) v e.start
      refine ⟨⟨hvalid, fun i hi ↦ ?_⟩, fun d' r' w hw hnot ↦ ?_⟩
      · have hnone := hst.absent i hi
        have hij : i ≠ (d, r) := by
          rintro rfl
          exact absurd (hnone.symm.trans habsent) (by simp)
        exact (update_of_ne hupdate hij).trans hnone
      · by_cases hij : (d', r') = (d, r)
        · -- an update that is accepted replaces the value
          obtain ⟨rfl, rfl⟩ := Prod.mk.inj hij
          have hanswer : (st.cache.update e.size (recorded e.writer) d' r' v e.start).1 = false :=
            Bool.eq_false_iff.mpr fun h ↦ hnot (.inr (.inl ⟨v, rfl, h⟩))
          rw [hanswer] at hupdate
          exact (congrFun (update_refused hupdate) _).trans hw
        · exact (update_of_ne hupdate hij).trans hw
  · obtain ⟨hvalid, hretains⟩ := hst.retains e (.inr (.inr (.inl ⟨d, rfl⟩)))
    exact hquiet hvalid hretains fun i hi ↦ hretains.absent i (hst.absent i hi)
  · obtain ⟨hvalid, hretains⟩ := hst.retains e (.inr (.inr (.inr ⟨d, rfl⟩)))
    exact hquiet hvalid hretains fun i hi ↦ hretains.absent i (hst.absent i hi)
  · obtain ⟨hvalid, -, hview⟩ := removeRegion_spec hst.valid d r
    refine ⟨⟨hvalid, fun i hi ↦ ?_⟩, fun d' r' w hw hnot ↦ ?_⟩
    · refine (congrFun hview i).trans ?_
      by_cases hij : i = (d, r)
      · rw [hij, Function.update_self]
      · exact (Function.update_of_ne hij ..).trans (hst.absent i hi)
    · have hij : (d', r') ≠ (d, r) := by
        rintro hij
        obtain ⟨rfl, rfl⟩ := Prod.mk.inj hij
        exact hnot (.inr (.inr (.inl rfl)))
      exact (congrFun hview _).trans ((Function.update_of_ne hij ..).trans hw)
  · -- removing a document or a region releases what was below it
    have hview := view_removeDocument st.cache d
    refine ⟨⟨hst.valid.removeDocument d, fun i hi ↦ ?_⟩, fun d' r' w hw hnot ↦ ?_⟩
    · refine (congrFun hview i).trans ?_
      rw [View.setPart]
      split_ifs
      · rfl
      · exact hst.absent i hi
    · have hd : d' ≠ d := by
        rintro rfl
        exact hnot (.inr (.inr (.inr rfl)))
      exact (congrFun hview _).trans ((if_neg hd).trans hw)

/-- The configured bounds stay as they are. -/
theorem Sound.bounds_next (hst : st.Sound) {operation : Operation} (hop : st.Allows operation) :
    (st.next e operation).cache.bounds = st.cache.bounds := by
  rcases operation with ⟨d, r⟩ | ⟨d, r⟩ | ⟨d, r, v⟩ | ⟨d, r, v⟩ | d | d | ⟨d, r⟩ | d
  · exact (lookup_spec e.order e.tryLock (recorded e.writer) hst.valid d r e.start).2.1
  · exact (get_spec hst.valid d r).2.1
  · exact (admitRegion_spec e.size e.order e.tryLock (recorded e.writer) hst.valid
      (hst.absent (d, r) hop) v e.start).2.1
  · rcases habsent : st.cache.view (d, r) with _ | entry
    · exact (update_absent e.size (recorded e.writer) hst.valid habsent v e.start).2.1
    · exact (update_spec e.size (recorded e.writer) hst.valid (by rw [habsent]; rfl) v e.start).2.1
  · exact (dirtyRegions_spec e.order hst.valid d).2.1
  · exact (flush_spec e.order (recorded e.writer) hst.valid d e.start).2.1
  · exact (removeRegion_spec hst.valid d r).2.1
  · exact bounds_removeDocument st.cache d

/-! ### Whole runs -/

theorem Sound.run {st st' : State} {events : List Event} (hst : st.Sound)
    (h : Run σ st events st') :
    st'.Sound ∧ st'.cache.bounds = st.cache.bounds := by
  induction h with
  | start => exact ⟨hst, rfl⟩
  | step _ e hop ih =>
    obtain ⟨hsound, hbounds⟩ := ih
    exact ⟨(hsound.step e hop).1, (hsound.bounds_next e hop).trans hbounds⟩

/-- A dirty value stays as long as no event of the run releases it. -/
theorem Sound.dirty_run {st st' : State} {events : List Event} (hst : st.Sound)
    (h : Run σ st events st') {documentKey region : String} {value : Json}
    (hv : st.cache.view (documentKey, region) = some ⟨value, true⟩) :
    (∃ event ∈ events, event.Releases documentKey region value) ∨
      st'.cache.view (documentKey, region) = some ⟨value, true⟩ := by
  induction h with
  | start => exact .inr hv
  | @step st' events h e operation hop ih =>
    rcases ih with ⟨event, hevent, hreleases⟩ | hkept
    · exact .inl ⟨event, List.mem_append_left _ hevent, hreleases⟩
    · by_cases hreleases : (st'.event e operation).Releases documentKey region value
      · exact .inl ⟨_, List.mem_append_right _ List.mem_cons_self, hreleases⟩
      · exact .inr (((hst.run h).1.step e hop).2 documentKey region value hkept hreleases)

/-- What an update accepted is dirty in the cache, or saved already. -/
theorem Sound.update_accepted {st : State} (hst : st.Sound) (e : Surroundings σ)
    {documentKey region : String} {value : Json}
    (h : (st.event e (.update documentKey region value)).answer = true) :
    ((documentKey, region), value) ∈ (st.event e (.update documentKey region value)).saves ∨
      (st.next e (.update documentKey region value)).cache.view (documentKey, region)
        = some ⟨value, true⟩ := by
  have hanswer : (st.cache.update e.size (recorded e.writer) documentKey region value e.start).1
      = true := h
  rcases habsent : st.cache.view (documentKey, region) with _ | entry
  · obtain ⟨-, -, hrefused, -⟩ :=
      update_absent e.size (recorded e.writer) hst.valid habsent value e.start
    exact absurd (hanswer.symm.trans hrefused) (by simp)
  · obtain ⟨-, -, hupdate⟩ := update_spec e.size (recorded e.writer) hst.valid
      (by rw [habsent]; rfl) value e.start
    rw [hanswer] at hupdate
    have hcases : ∀ {V V' : View (String × String) Json} {s s' : σ × Saves},
        Update (locationWriter (recorded e.writer)) (fun v ↦ e.size v ≤ st.cache.maximumBytes)
          (documentKey, region) value (V, s) true (V', s') →
        ((documentKey, region), value) ∈ s'.2 ∨ V' (documentKey, region) = some ⟨value, true⟩ := by
      rintro V V' s s' (_ | ⟨-, hw⟩ | _)
      · exact .inr (Function.update_self ..)
      · exact .inl (by rw [recorded_true hw]; exact List.mem_cons_self)
    exact hcases hupdate

/-- The cache to whose inner memory an operation adds a region keeps all that is in it. -/
theorem Sound.prepared_kept {st : State} (hst : st.Sound) (e : Surroundings σ)
    {operation : Operation} {c : RegionLru} {region : String} {value : Json}
    (h : e.prepared st.cache operation = some (c, region, value)) :
    (∃ documentKey dirty, (st.next e operation).cache.caches.lookup documentKey
        = some (c.store region value dirty)) ∧
      c.entries.keys ⊆ (c.entries.add region value).keys := by
  rcases operation with ⟨d, r⟩ | ⟨d, r⟩ | ⟨d, r, v⟩ | ⟨d, r, v⟩ | d | d | ⟨d, r⟩ | d <;>
    simp only [Surroundings.prepared, reduceCtorEq] at h
  · obtain ⟨hvalid, -, -, hlookup⟩ := cacheForLookup_spec e.order e.tryLock (recorded e.writer)
      hst.valid d e.start
    split_ifs at h with hregions
    rcases hfound : cacheForLookup e.order e.tryLock (recorded e.writer) st.cache d e.start with
      ⟨_ | cache, m, s⟩
    · simp [hfound] at h
    · simp only [hfound] at h hvalid hlookup
      rcases hprepare : cache.prepare e.size d r v false (recorded e.writer) s with _ | ⟨c', s'⟩
      · simp [hprepare] at h
      · simp only [hprepare, Option.some.injEq, Prod.mk.injEq] at h
        obtain ⟨rfl, rfl, rfl⟩ := h
        obtain ⟨hc, hroom⟩ := RegionLru.prepare_room e.size (hvalid.cache d cache hlookup) hprepare
        refine ⟨⟨d, false, ?_⟩, hc.keys_subset_add hroom _⟩
        simp only [next, Surroundings.perform, admitRegion, if_neg hregions, hfound,
          RegionLru.add_eq_prepare, hprepare, lookup_put, if_true]
  · obtain ⟨m, -, -, -, ⟨hfind, -⟩ | ⟨cache, hfind, -, hcache, -⟩⟩ := find_spec hst.valid d
    · simp [hfind] at h
    · simp only [hfind] at h
      split_ifs at h with hcurrent
      rcases hprepare : (cache.getEntry r).2.prepare e.size d r v true (recorded e.writer) e.start
        with _ | ⟨c', s'⟩
      · simp [hprepare] at h
      · simp only [hprepare, Option.some.injEq, Prod.mk.injEq] at h
        obtain ⟨rfl, rfl, rfl⟩ := h
        obtain ⟨hc, hroom⟩ := RegionLru.prepare_room e.size (hcache.getEntry r) hprepare
        refine ⟨⟨d, true, ?_⟩, hc.keys_subset_add hroom _⟩
        simp only [next, Surroundings.perform, update, hfind, RegionLru.update, if_pos hcurrent,
          RegionLru.add_eq_prepare, hprepare, lookup_put, if_true]

end State

/-- **Eviction loses nothing dirty.** In every state of every run the keys of the values, the
recency lists and the positions agree and keep within the capacity, dirty regions are among them,
and the inner memory pushes nothing out when an operation adds to it; so a value that an update
accepted is cached and dirty until it is saved, until a later value of the region is accepted, or
until it is removed. -/
theorem dirty_until_released {maximumDocuments regionsPerDocument maximumBytes : ℕ}
    {history : List Event} {st : State}
    (h : Run σ (.initial maximumDocuments regionsPerDocument maximumBytes) history st) :
    (st.cache.caches.length ≤ maximumDocuments ∧
      ∀ documentKey c, st.cache.caches.lookup documentKey = some c →
        c.entries.keys.Perm c.lru ∧ c.lruPositions.Perm c.lru ∧ c.lru.Nodup ∧
          c.lru.length ≤ regionsPerDocument ∧ c.dirty.Nodup ∧ c.dirty ⊆ c.entries.keys) ∧
      (∀ (e : Surroundings σ) operation c region value, st.Allows operation →
        e.prepared st.cache operation = some (c, region, value) →
        (∃ documentKey dirty, (st.next e operation).cache.caches.lookup documentKey
            = some (c.store region value dirty)) ∧
          c.entries.keys ⊆ (c.entries.add region value).keys) ∧
      ∀ (e : Surroundings σ) documentKey region value,
        (st.event e (.update documentKey region value)).answer = true →
        ((documentKey, region), value) ∈ (st.event e (.update documentKey region value)).saves ∨
          ∀ later st', Run σ (st.next e (.update documentKey region value)) later st' →
            (∃ event ∈ later, event.Releases documentKey region value) ∨
              st'.cache.view (documentKey, region) = some ⟨value, true⟩ := by
  obtain ⟨hst, hbounds⟩ :=
    (State.sound_initial maximumDocuments regionsPerDocument maximumBytes).run h
  have hdocuments : st.cache.maximumDocuments = maximumDocuments := congrArg Prod.fst hbounds
  have hregions : st.cache.maximumRegions = regionsPerDocument := congrArg (fun b ↦ b.2.1) hbounds
  refine ⟨⟨?_, fun documentKey c hc ↦ ?_⟩,
    fun e operation c region value _ hp ↦ hst.prepared_kept e hp,
    fun e documentKey region value hanswer ↦ ?_⟩
  · rw [← List.length_map (f := Prod.fst), hst.valid.keys.length_eq, ← hdocuments]
    exact hst.valid.length_le
  · have hvalid := hst.valid.cache documentKey c hc
    refine ⟨hvalid.keys, hvalid.positions, hvalid.nodup, ?_, hvalid.dirty_nodup,
      fun r hr ↦ hvalid.keys.mem_iff.mpr (hvalid.dirty_subset r hr)⟩
    rw [← hregions, ← hvalid.capacity_eq]
    exact hvalid.length_le
  · refine (hst.update_accepted e hanswer).imp_right fun hkept later st' hlater ↦ ?_
    have hnext := (@State.Sound.step _ _ e hst (.update documentKey region value) trivial).1
    exact hnext.dirty_run hlater hkept

/-- A region that is admitted at its third lookup, and then updated. -/
theorem dirty_until_released_update :
    let e : Surroundings Unit :=
      ⟨fun _ ↦ 0, ⟨id, List.Perm.refl⟩, fun _ ↦ true, fun _ _ _ s ↦ (true, s), ()⟩
    let st := (((State.initial 1 1 9).next e (.lookup "canvas" "$.items.a")).next e
      (.lookup "canvas" "$.items.a")).next e (.admitRegion "canvas" "$.items.a" .null)
    ∀ later st', Run Unit (st.next e (.update "canvas" "$.items.a" (.bool true))) later st' →
      (∃ event ∈ later, event.Releases "canvas" "$.items.a" (.bool true)) ∨
        st'.cache.view ("canvas", "$.items.a") = some ⟨.bool true, true⟩ := by
  intro e st
  have hlookup : ∀ st : State, st.Allows (.lookup "canvas" "$.items.a") := fun _ ↦ trivial
  have hadmit : (((State.initial 1 1 9).next e (.lookup "canvas" "$.items.a")).next e
      (.lookup "canvas" "$.items.a")).Allows (.admitRegion "canvas" "$.items.a" .null) := by
    change _ = true
    decide +kernel
  have hrun := (((Run.start (.initial 1 1 9)).step e (hlookup _)).step e (hlookup _)).step e hadmit
  have hanswer : (st.event e (.update "canvas" "$.items.a" (.bool true))).answer = true := by
    decide +kernel
  have hsaves : (st.event e (.update "canvas" "$.items.a" (.bool true))).saves = [] := by rfl
  refine ((dirty_until_released hrun).2.2 e _ _ _ hanswer).resolve_left fun h ↦ ?_
  rw [hsaves] at h
  exact List.not_mem_nil h

end CacheManager

end Agora
