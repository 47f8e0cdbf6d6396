import Agora.Memory.RegionLru

/-!
# The caches of all documents

`CacheManager` keeps a `RegionLru` for each of a bounded number of documents. A lookup or an
admission for a new document removes the least recently used document whose lock is free and whose
dirty regions can all be saved; the candidates before it may have been saved in part. When no
document can be removed, the new one is not cached.
-/

namespace Agora

open WriteBack

structure CacheManager where
  maximumBytes : ℕ
  maximumDocuments : ℕ
  maximumRegions : ℕ
  caches : List (String × RegionLru)
  lru : List String
  lruPositions : List String

namespace CacheManager

def create (maximumDocuments regionsPerDocument maximumBytes : ℕ) : CacheManager :=
  { maximumBytes, maximumDocuments, maximumRegions := regionsPerDocument, caches := [], lru := [],
    lruPositions := [] }

def touch (m : CacheManager) (documentKey : String) : CacheManager :=
  { m with
    lru := documentKey :: (if documentKey ∈ m.lruPositions then m.lru.erase documentKey else m.lru)
    lruPositions := m.lruPositions.insert documentKey }

def find (m : CacheManager) (documentKey : String) : Option RegionLru × CacheManager :=
  match m.caches.lookup documentKey with
  | none => (none, m)
  | some cache => (some cache, m.touch documentKey)

/-- Put back the cache of a document after an operation on it: in the source the cache is shared
and changes in place. -/
def put (m : CacheManager) (documentKey : String) (cache : RegionLru) : CacheManager :=
  { m with caches := Assoc.set documentKey cache m.caches }

def removeDocument (m : CacheManager) (documentKey : String) : CacheManager :=
  match m.caches.lookup documentKey with
  | none => m
  | some _ =>
    { m with
      caches := Assoc.erase documentKey m.caches
      lru := if documentKey ∈ m.lruPositions then m.lru.erase documentKey else m.lru
      lruPositions := m.lruPositions.erase documentKey }

section Writer

variable {σ : Type*} (size : Json → ℕ) (order : Iteration) (tryLock : String → Bool)
  (writer : RegionWriter σ)

/-- Remove the first candidate whose lock is free and whose dirty regions can be saved. -/
def evict : List String → CacheManager → σ → Bool × CacheManager × σ
  | [], m, s => (false, m, s)
  | candidate :: candidates, m, s =>
    match m.caches.lookup candidate with
    | none => evict candidates m s
    | some victim =>
      if tryLock candidate then
        match victim.flush candidate order writer s with
        | (false, victim, s) => evict candidates (m.put candidate victim) s
        | (true, victim, s) => (true, (m.put candidate victim).removeDocument candidate, s)
      else evict candidates m s

/-- Whether there is room for one more document, after removing one if there was none. -/
def makeRoom (m : CacheManager) (s : σ) : Bool × CacheManager × σ :=
  if m.maximumDocuments ≤ m.caches.length then evict order tryLock writer m.lru.reverse m s
  else (true, m, s)

def cacheForLookup (m : CacheManager) (documentKey : String) (s : σ) :
    Option RegionLru × CacheManager × σ :=
  match m.caches.lookup documentKey with
  | some cache => (some cache, m.touch documentKey, s)
  | none =>
    if m.maximumDocuments = 0 then (none, m, s)
    else
      match makeRoom order tryLock writer m s with
      | (false, m, s) => (none, m, s)
      | (true, m, s) =>
        let created := RegionLru.create m.maximumRegions m.maximumBytes
        (some created, (m.put documentKey created).touch documentKey, s)

def lookup (m : CacheManager) (documentKey region : String) (s : σ) :
    CacheLookup × CacheManager × σ :=
  if m.maximumRegions = 0 then (⟨none, false⟩, m, s)
  else
    match cacheForLookup order tryLock writer m documentKey s with
    | (none, m, s) => (⟨none, false⟩, m, s)
    | (some cache, m, s) =>
      let (result, cache) := cache.lookup region
      (result, m.put documentKey cache, s)

def get (m : CacheManager) (documentKey region : String) : Option Json × CacheManager :=
  match m.find documentKey with
  | (none, m) => (none, m)
  | (some cache, m) =>
    let (value, cache) := cache.get region
    (value, m.put documentKey cache)

def admitRegion (m : CacheManager) (documentKey region : String) (value : Json) (s : σ) :
    Bool × CacheManager × σ :=
  if m.maximumRegions = 0 then (false, m, s)
  else
    match cacheForLookup order tryLock writer m documentKey s with
    | (none, m, s) => (false, m, s)
    | (some cache, m, s) =>
      let (added, cache, s) := cache.add size documentKey region value false writer s
      (added, m.put documentKey cache, s)

def update (m : CacheManager) (documentKey region : String) (value : Json) (s : σ) :
    Bool × CacheManager × σ :=
  match m.find documentKey with
  | (none, m) => (false, m, s)
  | (some cache, m) =>
    let (updated, cache, s) := cache.update size documentKey region value writer s
    (updated, m.put documentKey cache, s)

def dirtyRegions (m : CacheManager) (documentKey : String) :
    List (String × Json) × CacheManager :=
  match m.find documentKey with
  | (none, m) => ([], m)
  | (some cache, m) =>
    let (regions, cache) := cache.dirtyRegions order
    (regions, m.put documentKey cache)

def flush (m : CacheManager) (documentKey : String) (s : σ) : Bool × CacheManager × σ :=
  match m.find documentKey with
  | (none, m) => (true, m, s)
  | (some cache, m) =>
    let (flushed, cache, s) := cache.flush documentKey order writer s
    (flushed, m.put documentKey cache, s)

end Writer

def removeRegion (m : CacheManager) (documentKey region : String) : CacheManager :=
  match m.find documentKey with
  | (none, m) => m
  | (some cache, m) => m.put documentKey (cache.remove region)

/-! ## The invariant -/

/-- The documents of the caches, the recency list and the positions are the same, each once, no
more than the maximum, and every cache is valid for the configured bounds. -/
structure Valid (m : CacheManager) : Prop where
  cache : ∀ k c, m.caches.lookup k = some c → c.Valid m.maximumRegions m.maximumBytes
  keys : (m.caches.map Prod.fst).Perm m.lru
  positions : m.lruPositions.Perm m.lru
  nodup : m.lru.Nodup
  length_le : m.lru.length ≤ m.maximumDocuments

/-- The configured bounds, which no operation changes. -/
def bounds (m : CacheManager) : ℕ × ℕ × ℕ :=
  (m.maximumDocuments, m.maximumRegions, m.maximumBytes)

/-- What is cached, by document and region. -/
def view (m : CacheManager) : View (String × String) Json := fun i ↦
  (m.caches.lookup i.1).bind fun c ↦ c.view i.2

theorem view_of_lookup {m : CacheManager} {documentKey : String} {c : RegionLru}
    (h : m.caches.lookup documentKey = some c) : m.view.part documentKey = c.view := by
  funext r
  simp [View.part, view, h]

theorem view_of_lookup_none {m : CacheManager} {documentKey : String}
    (h : m.caches.lookup documentKey = none) : m.view.part documentKey = fun _ ↦ none := by
  funext r
  simp [View.part, view, h]

theorem Valid.mem_lru {m : CacheManager} (hm : m.Valid) {documentKey : String} :
    documentKey ∈ m.lru ↔ (m.caches.lookup documentKey).isSome := by
  rw [Assoc.lookup_isSome_iff, hm.keys.mem_iff]

theorem valid_create (maximumDocuments regionsPerDocument maximumBytes : ℕ) :
    (create maximumDocuments regionsPerDocument maximumBytes).Valid where
  cache := fun _ _ h ↦ by simp [create] at h
  keys := List.Perm.nil
  positions := List.Perm.nil
  nodup := List.nodup_nil
  length_le := Nat.zero_le _

@[simp] theorem view_create (maximumDocuments regionsPerDocument maximumBytes : ℕ) :
    (create maximumDocuments regionsPerDocument maximumBytes).view = fun _ ↦ none := rfl

/-! ### Caches of single documents -/

@[simp] theorem view_touch (m : CacheManager) (documentKey : String) :
    (m.touch documentKey).view = m.view := rfl

@[simp] theorem bounds_touch (m : CacheManager) (documentKey : String) :
    (m.touch documentKey).bounds = m.bounds := rfl

theorem Valid.touch {m : CacheManager} (hm : m.Valid) {documentKey : String}
    (h : (m.caches.lookup documentKey).isSome) : (m.touch documentKey).Valid := by
  have hlru : documentKey ∈ m.lru := hm.mem_lru.mpr h
  have hpos : documentKey ∈ m.lruPositions := hm.positions.mem_iff.mpr hlru
  have hperm : (m.touch documentKey).lru.Perm m.lru := by
    rw [CacheManager.touch, if_pos hpos]
    exact (List.perm_cons_erase hlru).symm
  exact {
    cache := hm.cache
    keys := hm.keys.trans hperm.symm
    positions := by
      rw [CacheManager.touch, List.insert_of_mem hpos]
      exact hm.positions.trans hperm.symm
    nodup := hperm.nodup_iff.mpr hm.nodup
    length_le := by rw [hperm.length_eq]; exact hm.length_le }

theorem view_put (m : CacheManager) (documentKey : String) (c : RegionLru) :
    (m.put documentKey c).view = m.view.setPart documentKey c.view := by
  funext ⟨k, r⟩
  by_cases h : k = documentKey
  · subst h
    simp [view, put, View.setPart]
  · simp [view, put, View.setPart, h, Assoc.lookup_set_of_ne (Ne.symm h)]

@[simp] theorem bounds_put (m : CacheManager) (documentKey : String) (c : RegionLru) :
    (m.put documentKey c).bounds = m.bounds := rfl

theorem lookup_put (m : CacheManager) (documentKey k : String) (c : RegionLru) :
    (m.put documentKey c).caches.lookup k
      = if documentKey = k then some c else m.caches.lookup k :=
  Assoc.lookup_set ..

theorem Valid.put {m : CacheManager} (hm : m.Valid) {documentKey : String}
    (h : (m.caches.lookup documentKey).isSome) {c : RegionLru}
    (hc : c.Valid m.maximumRegions m.maximumBytes) : (m.put documentKey c).Valid where
  cache := by
    intro k c' hk
    rw [lookup_put] at hk
    split at hk
    · rwa [← Option.some.inj hk]
    · exact hm.cache k c' hk
  keys := by
    rw [CacheManager.put, Assoc.map_fst_set_of_mem (Assoc.lookup_isSome_iff.mp h)]
    exact hm.keys
  positions := hm.positions
  nodup := hm.nodup
  length_le := hm.length_le

/-- A new cache, for a document without one. -/
theorem Valid.put_new {m : CacheManager} (hm : m.Valid) {documentKey : String}
    (h : m.caches.lookup documentKey = none) (hroom : m.caches.length < m.maximumDocuments) :
    ((m.put documentKey (.create m.maximumRegions m.maximumBytes)).touch documentKey).Valid := by
  have hkey : documentKey ∉ m.caches.map Prod.fst := by
    rw [← Assoc.lookup_isSome_iff, h]
    simp
  have hlru : documentKey ∉ m.lru := fun hk ↦ hkey (hm.keys.mem_iff.mpr hk)
  have hpos : documentKey ∉ m.lruPositions := fun hk ↦ hlru (hm.positions.mem_iff.mp hk)
  have hlen : m.lru.length = m.caches.length := by rw [← hm.keys.length_eq, List.length_map]
  have hlru' : ((m.put documentKey (.create m.maximumRegions m.maximumBytes)).touch
      documentKey).lru = documentKey :: m.lru := congrArg _ (if_neg hpos)
  exact {
    cache := by
      intro k c hk
      change (m.put documentKey _).caches.lookup k = some c at hk
      rw [lookup_put] at hk
      split at hk
      · rw [← Option.some.inj hk]
        exact RegionLru.valid_create ..
      · exact hm.cache k c hk
    keys := by
      rw [hlru']
      simp only [CacheManager.touch, CacheManager.put, Assoc.map_fst_set_of_notMem hkey]
      exact (List.perm_append_singleton documentKey _).trans (hm.keys.cons documentKey)
    positions := by
      rw [hlru']
      simp only [CacheManager.touch, CacheManager.put, List.insert_of_not_mem hpos]
      exact hm.positions.cons documentKey
    nodup := by
      rw [hlru']
      exact List.nodup_cons.mpr ⟨hlru, hm.nodup⟩
    length_le := by
      rw [hlru', List.length_cons, hlen]
      exact hroom }

theorem view_removeDocument (m : CacheManager) (documentKey : String) :
    (m.removeDocument documentKey).view = m.view.setPart documentKey fun _ ↦ none := by
  funext ⟨k, r⟩
  rw [removeDocument]
  split
  · next h =>
    by_cases hk : k = documentKey
    · subst hk
      simp [view, View.setPart, h]
    · simp [View.setPart, hk]
  · by_cases hk : k = documentKey
    · subst hk
      simp [view, View.setPart]
    · simp [view, View.setPart, hk, Assoc.lookup_erase_of_ne (Ne.symm hk)]

@[simp] theorem bounds_removeDocument (m : CacheManager) (documentKey : String) :
    (m.removeDocument documentKey).bounds = m.bounds := by
  rw [removeDocument]
  split <;> rfl

theorem Valid.removeDocument {m : CacheManager} (hm : m.Valid) (documentKey : String) :
    (m.removeDocument documentKey).Valid := by
  rw [CacheManager.removeDocument]
  split
  · exact hm
  · next c h =>
    have hpos : documentKey ∈ m.lruPositions :=
      hm.positions.mem_iff.mpr (hm.mem_lru.mpr (by rw [h]; rfl))
    simp only [if_pos hpos]
    exact {
      cache := by
        intro k c' hk
        rw [Assoc.lookup_erase] at hk
        split at hk
        · simp at hk
        · exact hm.cache k c' hk
      keys := by
        rw [Assoc.map_fst_erase (hm.keys.nodup_iff.mpr hm.nodup)]
        exact hm.keys.erase documentKey
      positions := hm.positions.erase documentKey
      nodup := hm.nodup.erase documentKey
      length_le := le_trans List.length_erase_le hm.length_le }

theorem lookup_removeDocument_of_none {m : CacheManager} {k : String}
    (hk : m.caches.lookup k = none) (documentKey : String) :
    (m.removeDocument documentKey).caches.lookup k = none := by
  rw [removeDocument]
  split
  · exact hk
  · rw [Assoc.lookup_erase]
    split
    · rfl
    · exact hk

theorem length_removeDocument {m : CacheManager} (hm : m.Valid) {documentKey : String}
    (h : (m.caches.lookup documentKey).isSome) :
    (m.removeDocument documentKey).caches.length = m.caches.length - 1 := by
  obtain ⟨c, hc⟩ := Option.isSome_iff_exists.mp h
  have hnodup := hm.keys.nodup_iff.mpr hm.nodup
  have hmem : documentKey ∈ m.caches.map Prod.fst := Assoc.lookup_isSome_iff.mp h
  have herase := congrArg List.length (Assoc.map_fst_erase (k := documentKey) hnodup)
  rw [List.length_map, List.length_erase_of_mem hmem, List.length_map] at herase
  simp only [CacheManager.removeDocument, hc]
  exact herase

/-- Looking for the cache of a document changes the recency order only. -/
theorem find_spec {m : CacheManager} (hm : m.Valid) (documentKey : String) :
    ∃ m', m'.Valid ∧ m'.bounds = m.bounds ∧ m'.view = m.view ∧
      (m.find documentKey = (none, m') ∧ (∀ region, m.view (documentKey, region) = none) ∨
        ∃ c, m.find documentKey = (some c, m') ∧ m'.caches.lookup documentKey = some c ∧
          c.Valid m'.maximumRegions m'.maximumBytes ∧
          ∀ region, m.view (documentKey, region) = c.view region) := by
  unfold find
  cases hc : m.caches.lookup documentKey with
  | none =>
    exact ⟨m, hm, rfl, rfl, Or.inl ⟨rfl, fun r ↦ congrFun (view_of_lookup_none hc) r⟩⟩
  | some c =>
    exact ⟨m.touch documentKey, hm.touch (by rw [hc]; rfl), rfl, rfl, Or.inr ⟨c, rfl, hc,
      hm.cache documentKey c hc, fun r ↦ congrFun (view_of_lookup hc) r⟩⟩

theorem view_put_same {m : CacheManager} {documentKey : String} {c c' : RegionLru}
    (h : m.caches.lookup documentKey = some c) (hview : c'.view = c.view) :
    (m.put documentKey c').view = m.view := by
  rw [view_put, hview, ← view_of_lookup h, View.setPart_part]

/-! ### The operations -/

section Spec

variable {σ : Type*} (size : Json → ℕ) (order : Iteration) (tryLock : String → Bool)
  (writer : RegionWriter σ)

/-- The writer, by location. -/
abbrev locationWriter (writer : RegionWriter σ) : Writer (String × String) Json σ := fun i ↦
  writer i.1 i.2

/-- An operation on the cache of one document, seen from the whole. -/
theorem quiet_put {m : CacheManager} {documentKey : String} {c c' : RegionLru}
    (h : m.caches.lookup documentKey = some c) {s s' : σ}
    (hq : Quiet (writer documentKey) (c.view, s) (c'.view, s')) :
    Quiet (locationWriter writer) (m.view, s) ((m.put documentKey c').view, s') := by
  have hpart := hq.part (locationWriter writer) m.view documentKey
  rw [← view_of_lookup h, View.setPart_part] at hpart
  rwa [view_put]

/-- Making room only saves and forgets; it reports success when a document was removed. -/
theorem evict_spec (candidates : List String) {m : CacheManager} (hm : m.Valid) (s : σ) :
    let r := evict order tryLock writer candidates m s
    r.2.1.Valid ∧ r.2.1.bounds = m.bounds ∧
      Quiet (locationWriter writer) (m.view, s) (r.2.1.view, r.2.2) ∧
      (∀ k, m.caches.lookup k = none → r.2.1.caches.lookup k = none) ∧
      (r.1 = true → r.2.1.caches.length < m.maximumDocuments) := by
  induction candidates generalizing m s with
  | nil => exact ⟨hm, rfl, Quiet.refl _, fun _ ↦ id, fun h ↦ absurd h Bool.false_ne_true⟩
  | cons candidate candidates ih =>
    simp only [evict]
    split
    · exact ih hm s
    · next victim hvictim =>
      split_ifs
      · have hsome : (m.caches.lookup candidate).isSome := by rw [hvictim]; rfl
        obtain ⟨hvalid, hquiet, hclean⟩ := RegionLru.flush_spec candidate writer
          (hm.cache candidate victim hvictim) order s
        rcases hflush : victim.flush candidate order writer s with ⟨b, victim', s'⟩
        rw [hflush] at hvalid hquiet hclean
        have hput := hm.put hsome hvalid
        have hquiet' := quiet_put writer hvictim hquiet
        have hnone : ∀ k, m.caches.lookup k = none →
            (m.put candidate victim').caches.lookup k = none := by
          intro k hk
          rw [lookup_put, if_neg]
          · exact hk
          · rintro rfl
            rw [hk] at hsome
            simp at hsome
        -- a document whose regions are not all written stays, and the next one is tried
        cases b with
        | false =>
          obtain ⟨hvalid', hbounds, hq, hlookup, hlen⟩ := ih hput s'
          exact ⟨hvalid', hbounds, hquiet'.trans hq, fun k hk ↦ hlookup k (hnone k hk), hlen⟩
        | true =>
          refine ⟨hput.removeDocument candidate, by simp, hquiet'.step (Step.drop ?_), ?_, ?_⟩
          · -- every region of the removed document is clean
            rintro ⟨k, r⟩
            rw [view_removeDocument]
            by_cases hk : k = candidate
            · subst hk
              have hpart := view_of_lookup (m := m.put k victim') (c := victim')
                (by rw [lookup_put, if_pos rfl])
              have hentry : (m.put k victim').view (k, r) = victim'.view r := congrFun hpart r
              cases hv : victim'.view r with
              | none => exact Or.inl (by rw [hentry, hv]; simp [View.setPart])
              | some e =>
                refine Or.inr ⟨by simp [View.setPart], e.value, ?_⟩
                rw [hentry, hv]
                have hdirty : e.dirty = false := by
                  by_contra hd
                  exact hclean rfl r ⟨e.value, by rw [hv, ← Bool.eq_true_of_not_eq_false hd]⟩
                rw [← hdirty]
            · exact Or.inl (by simp [View.setPart, hk])
          · exact fun k hk ↦ lookup_removeDocument_of_none (hnone k hk) candidate
          · intro _
            have hlen := length_removeDocument hput
              (show ((m.put candidate victim').caches.lookup candidate).isSome by
                rw [lookup_put, if_pos rfl]; rfl)
            have hcaches : (m.put candidate victim').caches.length = m.caches.length := by
              rw [← List.length_map (f := Prod.fst), put,
                Assoc.map_fst_set_of_mem (Assoc.lookup_isSome_iff.mp hsome), List.length_map]
            have hle : m.caches.length ≤ m.maximumDocuments := by
              rw [← List.length_map (f := Prod.fst), hm.keys.length_eq]
              exact hm.length_le
            have hpos : 0 < m.caches.length := by
              rw [← List.length_map (f := Prod.fst)]
              exact List.length_pos_of_mem (Assoc.lookup_isSome_iff.mp hsome)
            change ((m.put candidate victim').removeDocument candidate).caches.length < _
            rw [hlen, hcaches]
            omega
      · exact ih hm s

theorem makeRoom_spec {m : CacheManager} (hm : m.Valid) (s : σ) :
    let r := makeRoom order tryLock writer m s
    r.2.1.Valid ∧ r.2.1.bounds = m.bounds ∧
      Quiet (locationWriter writer) (m.view, s) (r.2.1.view, r.2.2) ∧
      (∀ k, m.caches.lookup k = none → r.2.1.caches.lookup k = none) ∧
      (r.1 = true → r.2.1.caches.length < m.maximumDocuments) := by
  simp only [makeRoom]
  split_ifs with h
  · exact evict_spec order tryLock writer _ hm s
  · exact ⟨hm, rfl, Quiet.refl _, fun _ ↦ id, fun _ ↦ not_le.mp h⟩

/-- The cache of a document, found or made, with its place in the manager. -/
theorem cacheForLookup_spec {m : CacheManager} (hm : m.Valid) (documentKey : String) (s : σ) :
    let r := cacheForLookup order tryLock writer m documentKey s
    r.2.1.Valid ∧ r.2.1.bounds = m.bounds ∧
      Quiet (locationWriter writer) (m.view, s) (r.2.1.view, r.2.2) ∧
      r.2.1.caches.lookup documentKey = r.1 := by
  simp only [cacheForLookup]
  split
  · next c hc => exact ⟨hm.touch (by rw [hc]; rfl), rfl, Quiet.refl _, hc⟩
  · next hnone =>
    split_ifs with hmax
    · exact ⟨hm, rfl, Quiet.refl _, hnone⟩
    · obtain ⟨hvalid, hbounds, hquiet, hlookup, hlen⟩ := makeRoom_spec order tryLock writer
        hm s
      generalize makeRoom order tryLock writer m s = r at hvalid hbounds hquiet hlookup hlen ⊢
      obtain ⟨b, m', s'⟩ := r
      have hmd : m'.maximumDocuments = m.maximumDocuments := congrArg Prod.fst hbounds
      cases b with
      | false => exact ⟨hvalid, hbounds, hquiet, hlookup _ hnone⟩
      | true =>
        refine ⟨hvalid.put_new (hlookup _ hnone) (lt_of_lt_of_eq (hlen rfl) hmd.symm), hbounds, ?_,
          (lookup_put ..).trans (if_pos rfl)⟩
        simp only
        rw [view_touch, view_put, RegionLru.view_create,
          ← view_of_lookup_none (hlookup _ hnone), View.setPart_part]
        exact hquiet

/-- Only a cache that keeps regions has any. -/
theorem maximumRegions_ne_zero {m : CacheManager} (hm : m.Valid) {documentKey region : String}
    {e : Entry Json} (he : m.view (documentKey, region) = some e) : m.maximumRegions ≠ 0 := by
  intro hregions
  cases hc : m.caches.lookup documentKey with
  | none =>
    have hnone : m.view (documentKey, region) = none := congrFun (view_of_lookup_none hc) region
    rw [hnone] at he
    simp at he
  | some c =>
    have hvalid := hm.cache documentKey c hc
    have hv : c.view region = some e := (congrFun (view_of_lookup hc) region).symm.trans he
    have hpos := List.length_pos_of_mem
      (hvalid.mem_lru.mpr (by rw [hv]; rfl : (c.view region).isSome))
    have hle := hvalid.length_le
    rw [hvalid.capacity_eq, hregions] at hle
    omega

/-- A lookup may make room for the document; it finds what is cached, and asks only for a region
that is not cached to be admitted. -/
theorem lookup_spec {m : CacheManager} (hm : m.Valid) (documentKey region : String) (s : σ) :
    let r := lookup order tryLock writer m documentKey region s
    r.2.1.Valid ∧ r.2.1.bounds = m.bounds ∧
      Quiet (locationWriter writer) (m.view, s) (r.2.1.view, r.2.2) ∧
      (∀ v, r.1.value = some v → ∃ b, r.2.1.view (documentKey, region) = some ⟨v, b⟩) ∧
      (r.1.value = none → r.2.1.view (documentKey, region) = none) := by
  simp only [lookup]
  split_ifs with hregions
  · refine ⟨hm, rfl, Quiet.refl _, by simp, fun _ ↦ ?_⟩
    cases hv : m.view (documentKey, region) with
    | none => rfl
    | some e => exact absurd hregions (maximumRegions_ne_zero hm hv)
  · obtain ⟨hvalid, hbounds, hquiet, hlookup⟩ := cacheForLookup_spec order tryLock
      writer hm documentKey s
    generalize cacheForLookup order tryLock writer m documentKey s = r
      at hvalid hbounds hquiet hlookup ⊢
    obtain ⟨c | c, m', s'⟩ := r
    · exact ⟨hvalid, hbounds, hquiet, by simp, fun _ ↦
        congrFun (view_of_lookup_none hlookup) region⟩
    · obtain ⟨hcvalid, hcview, hvalue, -, hnone⟩ :=
        RegionLru.lookup_spec (hvalid.cache documentKey c hlookup) region
      have hview := view_put_same hlookup hcview
      have hentry : m'.view (documentKey, region) = c.view region :=
        congrFun (view_of_lookup hlookup) region
      refine ⟨hvalid.put (by simp only at hlookup; rw [hlookup]; rfl) hcvalid, hbounds, ?_, ?_, ?_⟩
      · simp only
        rw [hview]
        exact hquiet
      · intro v hv
        obtain ⟨b, hb⟩ := hvalue v hv
        refine ⟨b, ?_⟩
        simp only
        rw [hview, hentry, hb]
      · intro h
        simp only
        rw [hview, hentry]
        exact hnone h

/-- A lookup of a region that is cached returns its value and leaves everything as it was. -/
theorem lookup_of_view {m : CacheManager} (hm : m.Valid) {documentKey region : String}
    {e : Entry Json} (he : m.view (documentKey, region) = some e) (s : σ) :
    let r := lookup order tryLock writer m documentKey region s
    r.1.value = some e.value ∧ r.2.1.view = m.view ∧ r.2.2 = s := by
  obtain ⟨c, hc⟩ : ∃ c, m.caches.lookup documentKey = some c := by
    cases hc : m.caches.lookup documentKey with
    | some c => exact ⟨c, rfl⟩
    | none =>
      rw [show m.view (documentKey, region) = none from
        congrFun (view_of_lookup_none hc) region] at he
      simp at he
  have hentry : c.view region = some e := (congrFun (view_of_lookup hc) region).symm.trans he
  obtain ⟨-, hcview, hvalue, -, hnone⟩ :=
    RegionLru.lookup_spec (hm.cache documentKey c hc) region
  simp only [lookup, if_neg (maximumRegions_ne_zero hm he), cacheForLookup, hc]
  refine ⟨?_, view_put_same hc hcview, trivial⟩
  cases hv : (c.lookup region).1.value with
  | none =>
    rw [hnone hv] at hentry
    simp at hentry
  | some v =>
    obtain ⟨b, hb⟩ := hvalue v hv
    rw [hentry] at hb
    rw [Option.some.inj hb]

theorem get_spec {m : CacheManager} (hm : m.Valid) (documentKey region : String) :
    let r := m.get documentKey region
    r.2.Valid ∧ r.2.bounds = m.bounds ∧ r.2.view = m.view ∧
      r.1 = (m.view (documentKey, region)).map Entry.value := by
  obtain ⟨m', hvalid, hbounds, hview, ⟨hfind, hnone⟩ | ⟨c, hfind, hlookup, hc, hentry⟩⟩ :=
    find_spec hm documentKey
  · simp only [get, hfind]
    exact ⟨hvalid, hbounds, hview, by rw [hnone]; rfl⟩
  · obtain ⟨hcvalid, hcview, hcvalue⟩ := RegionLru.get_spec hc region
    simp only [get, hfind]
    exact ⟨hvalid.put (by rw [hlookup]; rfl) hcvalid, hbounds,
      (view_put_same hlookup hcview).trans hview, by rw [hcvalue, hentry]⟩

/-- An admission of a region that is not cached may make room; it then keeps the value, clean, or
declines. -/
theorem admitRegion_spec {m : CacheManager} (hm : m.Valid) {documentKey region : String}
    (hregion : m.view (documentKey, region) = none) (value : Json) (s : σ) :
    let r := admitRegion size order tryLock writer m documentKey region value s
    r.2.1.Valid ∧ r.2.1.bounds = m.bounds ∧
      ∃ V, Quiet (locationWriter writer) (m.view, s) (V, r.2.2) ∧
        (r.2.1.view = V ∨
          r.2.1.view = Function.update V (documentKey, region) (some ⟨value, false⟩)) := by
  simp only [admitRegion]
  split_ifs with hregions
  · exact ⟨hm, rfl, m.view, Quiet.refl _, Or.inl rfl⟩
  · obtain ⟨hvalid, hbounds, hquiet, hlookup⟩ := cacheForLookup_spec order tryLock
      writer hm documentKey s
    generalize cacheForLookup order tryLock writer m documentKey s = r
      at hvalid hbounds hquiet hlookup ⊢
    obtain ⟨c | c, m', s'⟩ := r
    · exact ⟨hvalid, hbounds, m'.view, hquiet, Or.inl rfl⟩
    · have hentry : m'.view (documentKey, region) = c.view region :=
        congrFun (view_of_lookup hlookup) region
      have hnone : c.view region = none := hentry ▸ hquiet.none hregion
      obtain ⟨hcvalid, V, hcquiet, hcview⟩ := RegionLru.add_clean_spec size documentKey
        writer (hvalid.cache documentKey c hlookup) hnone value s'
      have hpart := hcquiet.part (locationWriter writer) m'.view documentKey
      rw [← view_of_lookup hlookup, View.setPart_part] at hpart
      refine ⟨hvalid.put (by simp only at hlookup; rw [hlookup]; rfl) hcvalid, hbounds,
        m'.view.setPart documentKey V, hquiet.trans hpart, ?_⟩
      simp only [view_put]
      rcases hcview with h | h
      · exact Or.inl (by rw [h])
      · exact Or.inr (by rw [h, View.setPart_update])

/-- An update of a cached region. -/
theorem update_spec {m : CacheManager} (hm : m.Valid) {documentKey region : String}
    (hregion : (m.view (documentKey, region)).isSome) (value : Json) (s : σ) :
    let r := update size writer m documentKey region value s
    r.2.1.Valid ∧ r.2.1.bounds = m.bounds ∧
      Update (locationWriter writer) (fun v ↦ size v ≤ m.maximumBytes) (documentKey, region) value
        (m.view, s) r.1 (r.2.1.view, r.2.2) := by
  obtain ⟨m', hvalid, hbounds, hview, ⟨hfind, hnone⟩ | ⟨c, hfind, hlookup, hc, hentry⟩⟩ :=
    find_spec hm documentKey
  · rw [hnone] at hregion
    simp at hregion
  · rw [hentry] at hregion
    obtain ⟨hcvalid, hcupdate⟩ := RegionLru.update_spec size documentKey writer hc hregion value s
    have hpart := hcupdate.part (locationWriter writer) m'.view documentKey
    have hbytes : m'.maximumBytes = m.maximumBytes := congrArg (fun b ↦ b.2.2) hbounds
    rw [← view_of_lookup hlookup, View.setPart_part, ← view_put, hview, hbytes] at hpart
    simp only [update, hfind]
    exact ⟨hvalid.put (by rw [hlookup]; rfl) hcvalid, hbounds, hpart⟩

/-- The dirty regions of a document with their values, each once, in some order. -/
theorem dirtyRegions_spec {m : CacheManager} (hm : m.Valid) (documentKey : String) :
    let r := dirtyRegions order m documentKey
    r.2.Valid ∧ r.2.bounds = m.bounds ∧ r.2.view = m.view ∧ (r.1.map Prod.fst).Nodup ∧
      ∀ region v, (region, v) ∈ r.1 ↔ m.view (documentKey, region) = some ⟨v, true⟩ := by
  obtain ⟨m', hvalid, hbounds, hview, ⟨hfind, hnone⟩ | ⟨c, hfind, hlookup, hc, hentry⟩⟩ :=
    find_spec hm documentKey
  · simp only [dirtyRegions, hfind]
    exact ⟨hvalid, hbounds, hview, List.nodup_nil, fun region v ↦ by simp [hnone]⟩
  · obtain ⟨hcvalid, hcview, -, hnodup, hmem⟩ := RegionLru.dirtyRegions_spec hc order
    simp only [dirtyRegions, hfind]
    exact ⟨hvalid.put (by rw [hlookup]; rfl) hcvalid, hbounds,
      (view_put_same hlookup hcview).trans hview, hnodup, fun region v ↦ by rw [hmem, hentry]⟩

/-- A flush saves dirty regions of the document until one fails; when it reports success, none is
left. -/
theorem flush_spec {m : CacheManager} (hm : m.Valid) (documentKey : String) (s : σ) :
    let r := flush order writer m documentKey s
    r.2.1.Valid ∧ r.2.1.bounds = m.bounds ∧
      Quiet (locationWriter writer) (m.view, s) (r.2.1.view, r.2.2) ∧
      (r.1 = true → ∀ region, ¬r.2.1.view.Dirty (documentKey, region)) := by
  obtain ⟨m', hvalid, hbounds, hview, ⟨hfind, hnone⟩ | ⟨c, hfind, hlookup, hc, hentry⟩⟩ :=
    find_spec hm documentKey
  · simp only [flush, hfind]
    refine ⟨hvalid, hbounds, by rw [hview]; exact Quiet.refl _, fun _ region hd ↦ ?_⟩
    obtain ⟨v, hv⟩ := hd
    rw [hview, hnone] at hv
    simp at hv
  · obtain ⟨hcvalid, hquiet, hclean⟩ := RegionLru.flush_spec documentKey writer hc order s
    simp only [flush, hfind]
    refine ⟨hvalid.put (by rw [hlookup]; rfl) hcvalid, hbounds, ?_, fun h region hd ↦ ?_⟩
    · rw [← hview]
      exact quiet_put writer hlookup hquiet
    · obtain ⟨v, hv⟩ := hd
      exact hclean h region ⟨v, by simpa [view_put, View.setPart] using hv⟩

theorem flush_stuck {m : CacheManager} (hm : m.Valid) (documentKey : String) {s : σ}
    (h : (flush order writer m documentKey s).1 = false) :
    Stuck (locationWriter writer) (m.view, s) := by
  obtain ⟨m', hvalid, hbounds, hview, ⟨hfind, hnone⟩ | ⟨c, hfind, hlookup, hc, hentry⟩⟩ :=
    find_spec hm documentKey
  · simp [flush, hfind] at h
  · simp only [flush, hfind] at h
    have hstuck := (RegionLru.flush_stuck documentKey writer hc order h).part
      (locationWriter writer) m'.view documentKey
    rwa [← view_of_lookup hlookup, View.setPart_part, hview] at hstuck

theorem removeRegion_spec {m : CacheManager} (hm : m.Valid) (documentKey region : String) :
    (m.removeRegion documentKey region).Valid ∧
      (m.removeRegion documentKey region).bounds = m.bounds ∧
      (m.removeRegion documentKey region).view
        = Function.update m.view (documentKey, region) none := by
  obtain ⟨m', hvalid, hbounds, hview, ⟨hfind, hnone⟩ | ⟨c, hfind, hlookup, hc, hentry⟩⟩ :=
    find_spec hm documentKey
  · simp only [removeRegion, hfind]
    refine ⟨hvalid, hbounds, ?_⟩
    rw [hview, ← hnone region, Function.update_eq_self]
  · obtain ⟨hcvalid, hcview⟩ := RegionLru.remove_spec hc region
    simp only [removeRegion, hfind]
    refine ⟨hvalid.put (by rw [hlookup]; rfl) hcvalid, hbounds, ?_⟩
    rw [view_put, hcview, View.setPart_update, ← view_of_lookup hlookup, View.setPart_part, hview]

end Spec

end CacheManager

end Agora
