import Agora.Json.Basic
import Agora.WriteBack.Protocol
import Mathlib.Data.List.Nodup

/-!
# The cache of one document

`LruMemory` and `RegionLru` as in the source. An `LruMemory` is a list of keys and values, the most
recently used first. A `RegionLru` keeps the serialized values of the regions of one document in
such a memory, with its own recency list, the positions in that list, and the set of dirty regions;
a second memory of the same capacity remembers which regions were asked for once (only the second
access admits a region) and which are too large to keep.

A writer saves a region of a document in the store `σ`; it may fail, and it may change the store
even then.

The inner memory never evicts anything by itself: `RegionLru` makes room first, saving the victim
if it is dirty. That is part of the invariant (`RegionLru.Valid`), and the view of a valid cache
only changes by the protocol of a write-back cache.
-/

namespace Agora

open WriteBack

/-! ## `LruMemory` -/

/-- A bounded memory, most recently used first. -/
structure LruMemory (α : Type*) where
  capacity : ℕ
  items : List (String × α)

namespace LruMemory

variable {α : Type*}

def empty (capacity : ℕ) : LruMemory α := ⟨capacity, []⟩

def get (m : LruMemory α) (key : String) : Option α × LruMemory α :=
  match m.items.lookup key with
  | none => (none, m)
  | some v => (some v, { m with items := (key, v) :: Assoc.erase key m.items })

def add (m : LruMemory α) (key : String) (value : α) : LruMemory α :=
  if m.capacity = 0 then m
  else if (m.items.lookup key).isSome then
    { m with items := (key, value) :: Assoc.erase key m.items }
  else if m.capacity < m.items.length + 1 then
    { m with items := ((key, value) :: m.items).dropLast }
  else { m with items := (key, value) :: m.items }

def remove (m : LruMemory α) (key : String) : LruMemory α :=
  { m with items := Assoc.erase key m.items }

/-- The keys, most recently used first. -/
def keys (m : LruMemory α) : List String := m.items.map Prod.fst

@[simp] theorem get_fst (m : LruMemory α) (key : String) : (m.get key).1 = m.items.lookup key := by
  unfold get
  split
  · next h => exact h.symm
  · next h => exact h.symm

@[simp] theorem capacity_get (m : LruMemory α) (key : String) :
    (m.get key).2.capacity = m.capacity := by
  unfold get
  split <;> rfl

/-- A `get` reorders the memory and changes no value. -/
@[simp] theorem lookup_get (m : LruMemory α) (key key' : String) :
    (m.get key).2.items.lookup key' = m.items.lookup key' := by
  unfold get
  split
  · rfl
  · next v h =>
    by_cases hk : key = key'
    · subst hk
      rw [List.lookup_cons_self, h]
    · rw [Assoc.lookup_cons_of_ne hk, Assoc.lookup_erase_of_ne hk]

theorem keys_get {m : LruMemory α} (hm : m.keys.Nodup) (key : String) :
    (m.get key).2.keys.Perm m.keys := by
  unfold get
  split
  · exact List.Perm.refl _
  · next v h =>
    have hmem : key ∈ m.keys := Assoc.lookup_isSome_iff.mp (by rw [h]; rfl)
    rw [keys, List.map_cons, Assoc.map_fst_erase hm]
    exact (List.perm_cons_erase hmem).symm

@[simp] theorem capacity_add (m : LruMemory α) (key : String) (value : α) :
    (m.add key value).capacity = m.capacity := by
  unfold add
  split_ifs <;> rfl

theorem lookup_add_of_mem {m : LruMemory α} {key : String} (hcap : m.capacity ≠ 0)
    (hkey : key ∈ m.keys) (value : α) (key' : String) :
    (m.add key value).items.lookup key'
      = if key = key' then some value else m.items.lookup key' := by
  rw [add, if_neg hcap, if_pos (Assoc.lookup_isSome_iff.mpr hkey)]
  split
  · next h => rw [h, List.lookup_cons_self]
  · next h => rw [Assoc.lookup_cons_of_ne h, Assoc.lookup_erase_of_ne h]

theorem keys_add_of_mem {m : LruMemory α} (hm : m.keys.Nodup) {key : String}
    (hcap : m.capacity ≠ 0) (hkey : key ∈ m.keys) (value : α) :
    (m.add key value).keys.Perm m.keys := by
  rw [add, if_neg hcap, if_pos (Assoc.lookup_isSome_iff.mpr hkey), keys, List.map_cons,
    Assoc.map_fst_erase hm]
  exact (List.perm_cons_erase hkey).symm

/-- A new key pushes nothing out while there is room. -/
theorem add_of_notMem {m : LruMemory α} {key : String} (hkey : key ∉ m.keys)
    (hroom : m.keys.length < m.capacity) (value : α) :
    m.add key value = { m with items := (key, value) :: m.items } := by
  have hlen : m.keys.length = m.items.length := by rw [keys, List.length_map]
  have hlookup : ¬(m.items.lookup key).isSome := fun h ↦ hkey (Assoc.lookup_isSome_iff.mp h)
  rw [add, if_neg (by omega), if_neg hlookup, if_neg (by omega)]

end LruMemory

/-! ## `RegionLru` -/

/-- The result of a lookup: the cached value, or whether the region should now be admitted. -/
structure CacheLookup where
  value : Option Json
  admitOnMiss : Bool

/-- The writer a cache calls: document key, region and value. -/
abbrev RegionWriter (σ : Type*) := String → String → Json → σ → Bool × σ

/-- The unspecified order in which a hash set is walked. -/
structure Iteration where
  walk : List String → List String
  walk_perm : ∀ l, (walk l).Perm l

structure RegionLru where
  capacity : ℕ
  maximumBytes : ℕ
  entries : LruMemory Json
  admission : LruMemory ℕ
  lru : List String
  lruPositions : List String
  dirty : List String

namespace RegionLru

def kFirstAccess : ℕ := 1

def kUncacheable : ℕ := 2

/-- A new cache for one document. -/
def create (capacity maximumBytes : ℕ) : RegionLru :=
  { capacity, maximumBytes, entries := .empty capacity, admission := .empty capacity,
    lru := [], lruPositions := [], dirty := [] }

def touch (c : RegionLru) (region : String) : RegionLru :=
  { c with
    lru := region :: (if region ∈ c.lruPositions then c.lru.erase region else c.lru)
    lruPositions := c.lruPositions.insert region }

def erase (c : RegionLru) (region : String) : RegionLru :=
  { c with
    entries := c.entries.remove region
    dirty := c.dirty.erase region
    lru := if region ∈ c.lruPositions then c.lru.erase region else c.lru
    lruPositions := c.lruPositions.erase region }

/-- `entries_.get(region)`, which reorders the inner memory only. -/
def getEntry (c : RegionLru) (region : String) : Option Json × RegionLru :=
  ((c.entries.get region).1, { c with entries := (c.entries.get region).2 })

def lookup (c : RegionLru) (region : String) : CacheLookup × RegionLru :=
  if c.capacity = 0 then (⟨none, false⟩, c)
  else
    match c.getEntry region with
    | (some value, c) => (⟨some value, false⟩, c.touch region)
    | (none, c) =>
      let (state, admission) := c.admission.get region
      let c := { c with admission }
      match state with
      | some state =>
        if state = kUncacheable then (⟨none, false⟩, c)
        else (⟨none, true⟩, { c with admission := c.admission.remove region })
      | none => (⟨none, false⟩, { c with admission := c.admission.add region kFirstAccess })

def get (c : RegionLru) (region : String) : Option Json × RegionLru :=
  if c.capacity = 0 then (none, c)
  else
    match c.getEntry region with
    | (none, c) => (none, c)
    | (some value, c) => (some value, c.touch region)

section Add

variable {σ : Type*} (size : Json → ℕ)

/-- Make room by removing the least recently used region, saving it first if it is dirty. -/
def evict (c : RegionLru) (documentKey : String) (writer : RegionWriter σ) (s : σ) :
    Bool × RegionLru × σ :=
  match c.lru.getLast? with
  | none => (true, c, s)
  | some victim =>
    if victim ∈ c.dirty then
      match c.getEntry victim with
      | (none, c) => (false, c, s)
      | (some value, c) =>
        match writer documentKey victim value s with
        | (true, s) => (true, c.erase victim, s)
        | (false, s) => (false, c, s)
    else (true, c.erase victim, s)

/-- Keep a value that fits, once there is room for it. -/
def store (c : RegionLru) (region : String) (value : Json) (dirty : Bool) : RegionLru :=
  let c := { c with
    admission := c.admission.remove region
    entries := c.entries.add region value }
  let c := c.touch region
  { c with dirty := if dirty then c.dirty.insert region else c.dirty.erase region }

def add (c : RegionLru) (documentKey region : String) (value : Json) (dirty : Bool)
    (writer : RegionWriter σ) (s : σ) : Bool × RegionLru × σ :=
  if c.capacity = 0 then (true, c, s)
  else
    let (current, c) := c.getEntry region
    let alreadyCached := current.isSome
    let c := if alreadyCached then c.touch region else c
    if c.maximumBytes < size value then
      let (written, s) :=
        if alreadyCached && dirty then writer documentKey region value s else (true, s)
      if written then
        let c := if alreadyCached then c.erase region else c
        (true, { c with admission := c.admission.add region kUncacheable }, s)
      else (false, c, s)
    else if !alreadyCached && c.capacity ≤ c.lru.length then
      match c.evict documentKey writer s with
      | (true, c, s) => (true, c.store region value dirty, s)
      | (false, c, s) => (false, c, s)
    else (true, c.store region value dirty, s)

def remove (c : RegionLru) (region : String) : RegionLru :=
  let c := c.erase region
  { c with admission := c.admission.remove region }

def update (c : RegionLru) (documentKey region : String) (value : Json) (writer : RegionWriter σ)
    (s : σ) : Bool × RegionLru × σ :=
  let (current, c) := c.getEntry region
  if current.isSome then c.add size documentKey region value true writer s else (false, c, s)

/-- The values of some regions, touching each region that is there. -/
def collect : List String → RegionLru → List (String × Json) × RegionLru
  | [], c => ([], c)
  | region :: regions, c =>
    match c.getEntry region with
    | (none, c) => collect regions c
    | (some value, c) =>
      let (rest, c) := collect regions (c.touch region)
      ((region, value) :: rest, c)

def dirtyRegions (c : RegionLru) (order : Iteration) : List (String × Json) × RegionLru :=
  collect (order.walk c.dirty) c

/-- Write the pending regions back, up to the first one that fails. -/
def flushPending (documentKey : String) (writer : RegionWriter σ) :
    List (String × Json) → RegionLru → σ → Bool × RegionLru × σ
  | [], c, s => (true, c, s)
  | (region, value) :: pending, c, s =>
    match writer documentKey region value s with
    | (true, s) =>
      flushPending documentKey writer pending { c with dirty := c.dirty.erase region } s
    | (false, s) => (false, c, s)

def flush (c : RegionLru) (documentKey : String) (order : Iteration) (writer : RegionWriter σ)
    (s : σ) : Bool × RegionLru × σ :=
  let (pending, c) := c.dirtyRegions order
  flushPending documentKey writer pending c s

end Add

/-! ## The invariant -/

/-- The keys of the values, the recency list and the positions are the same regions, each once, no
more than the capacity; dirty regions are among them. So the inner memory never pushes out a value
on its own. -/
structure Valid (c : RegionLru) (cap bytes : ℕ) : Prop where
  capacity_eq : c.capacity = cap
  maximumBytes_eq : c.maximumBytes = bytes
  keys : c.entries.keys.Perm c.lru
  positions : c.lruPositions.Perm c.lru
  nodup : c.lru.Nodup
  dirty_nodup : c.dirty.Nodup
  dirty_subset : ∀ r ∈ c.dirty, r ∈ c.lru
  length_le : c.lru.length ≤ c.capacity
  entriesCapacity : c.entries.capacity = c.capacity

variable {cap bytes : ℕ}

/-- What the cache holds, and what of it waits to be saved. -/
def view (c : RegionLru) : View String Json := fun region ↦
  (c.entries.items.lookup region).map fun value ↦ ⟨value, decide (region ∈ c.dirty)⟩

theorem view_isSome (c : RegionLru) (region : String) :
    (c.view region).isSome ↔ region ∈ c.entries.keys := by
  rw [view, Option.isSome_map, Assoc.lookup_isSome_iff, LruMemory.keys]

theorem Valid.mem_lru {c : RegionLru} (hc : c.Valid cap bytes) {region : String} :
    region ∈ c.lru ↔ (c.view region).isSome := by
  rw [view_isSome, hc.keys.mem_iff]

theorem Valid.mem_positions {c : RegionLru} (hc : c.Valid cap bytes) {region : String} :
    region ∈ c.lruPositions ↔ (c.view region).isSome := by
  rw [hc.positions.mem_iff, hc.mem_lru]

theorem Valid.mem_dirty {c : RegionLru} (hc : c.Valid cap bytes) {region : String} :
    region ∈ c.dirty ↔ ∃ v, c.view region = some ⟨v, true⟩ := by
  constructor
  · intro h
    obtain ⟨e, he⟩ := Option.isSome_iff_exists.mp (hc.mem_lru.mp (hc.dirty_subset _ h))
    obtain ⟨v, hv, rfl⟩ := Option.map_eq_some_iff.mp he
    exact ⟨v, by rw [he, decide_eq_true h]⟩
  · rintro ⟨v, hv⟩
    obtain ⟨w, -, hw⟩ := Option.map_eq_some_iff.mp hv
    exact of_decide_eq_true (Entry.mk.inj hw).2

/-- Which regions were asked for is no part of the invariant. -/
theorem Valid.setAdmission {c : RegionLru} (hc : c.Valid cap bytes) (admission : LruMemory ℕ) :
    ({ c with admission }).Valid cap bytes :=
  ⟨hc.capacity_eq, hc.maximumBytes_eq, hc.keys, hc.positions, hc.nodup, hc.dirty_nodup,
    hc.dirty_subset, hc.length_le, hc.entriesCapacity⟩

theorem valid_create (capacity maximumBytes : ℕ) :
    (create capacity maximumBytes).Valid capacity maximumBytes where
  capacity_eq := rfl
  maximumBytes_eq := rfl
  keys := List.Perm.nil
  positions := List.Perm.nil
  nodup := List.nodup_nil
  dirty_nodup := List.nodup_nil
  dirty_subset := fun _ hr ↦ absurd hr List.not_mem_nil
  length_le := Nat.zero_le _
  entriesCapacity := rfl

@[simp] theorem view_create (capacity maximumBytes : ℕ) :
    (create capacity maximumBytes).view = fun _ ↦ none := rfl

/-! ### Reading and touching -/

@[simp] theorem getEntry_fst (c : RegionLru) (region : String) :
    (c.getEntry region).1 = (c.view region).map Entry.value := by
  rw [getEntry, LruMemory.get_fst, view, Option.map_map]
  cases c.entries.items.lookup region <;> rfl

theorem getEntry_eq (c : RegionLru) (region : String) :
    c.getEntry region = ((c.view region).map Entry.value, (c.getEntry region).2) :=
  Prod.ext (getEntry_fst c region) rfl

@[simp] theorem view_getEntry (c : RegionLru) (region : String) :
    (c.getEntry region).2.view = c.view := by
  funext r
  simp only [view, getEntry, LruMemory.lookup_get]
  rfl

theorem Valid.getEntry {c : RegionLru} (hc : c.Valid cap bytes) (region : String) :
    (c.getEntry region).2.Valid cap bytes where
  capacity_eq := hc.capacity_eq
  maximumBytes_eq := hc.maximumBytes_eq
  keys := (LruMemory.keys_get (hc.keys.nodup_iff.mpr hc.nodup) region).trans hc.keys
  positions := hc.positions
  nodup := hc.nodup
  dirty_nodup := hc.dirty_nodup
  dirty_subset := hc.dirty_subset
  length_le := hc.length_le
  entriesCapacity := by rw [RegionLru.getEntry, LruMemory.capacity_get, hc.entriesCapacity]

@[simp] theorem view_touch (c : RegionLru) (region : String) : (c.touch region).view = c.view := rfl

theorem Valid.touch {c : RegionLru} (hc : c.Valid cap bytes) {region : String}
    (h : (c.view region).isSome) : (c.touch region).Valid cap bytes := by
  have hlru : region ∈ c.lru := hc.mem_lru.mpr h
  have hpos : region ∈ c.lruPositions := hc.positions.mem_iff.mpr hlru
  have hperm : (c.touch region).lru.Perm c.lru := by
    rw [RegionLru.touch, if_pos hpos]
    exact (List.perm_cons_erase hlru).symm
  exact {
    capacity_eq := hc.capacity_eq
    maximumBytes_eq := hc.maximumBytes_eq
    keys := hc.keys.trans hperm.symm
    positions := by
      rw [RegionLru.touch, List.insert_of_mem hpos]
      exact hc.positions.trans hperm.symm
    nodup := hperm.nodup_iff.mpr hc.nodup
    dirty_nodup := hc.dirty_nodup
    dirty_subset := fun r hr ↦ hperm.mem_iff.mpr (hc.dirty_subset r hr)
    length_le := by rw [hperm.length_eq]; exact hc.length_le
    entriesCapacity := hc.entriesCapacity }

/-! ### Removing -/

theorem view_erase (c : RegionLru) (region : String) :
    (c.erase region).view = Function.update c.view region none := by
  funext r
  by_cases h : r = region
  · subst h
    rw [Function.update_self]
    simp [view, RegionLru.erase, LruMemory.remove]
  · rw [Function.update_of_ne h]
    have hmem : r ∈ c.dirty.erase region ↔ r ∈ c.dirty := List.mem_erase_of_ne h
    simp only [view, RegionLru.erase, LruMemory.remove, Assoc.lookup_erase_of_ne (Ne.symm h), hmem]

theorem Valid.erase {c : RegionLru} (hc : c.Valid cap bytes) (region : String) :
    (c.erase region).Valid cap bytes := by
  have hlru : (c.erase region).lru = c.lru.erase region := by
    rw [RegionLru.erase]
    split
    · rfl
    · next h => exact (List.erase_of_not_mem fun hr ↦ h (hc.positions.mem_iff.mpr hr)).symm
  exact {
    capacity_eq := hc.capacity_eq
    maximumBytes_eq := hc.maximumBytes_eq
    keys := by
      rw [hlru, RegionLru.erase, LruMemory.keys, LruMemory.remove,
        Assoc.map_fst_erase (hc.keys.nodup_iff.mpr hc.nodup)]
      exact hc.keys.erase region
    positions := by
      rw [hlru]
      exact hc.positions.erase region
    nodup := by
      rw [hlru]
      exact hc.nodup.erase region
    dirty_nodup := hc.dirty_nodup.erase region
    dirty_subset := by
      intro r hr
      obtain ⟨hne, hmem⟩ := hc.dirty_nodup.mem_erase_iff.mp hr
      rw [hlru]
      exact (List.mem_erase_of_ne hne).mpr (hc.dirty_subset r hmem)
    length_le := by
      rw [hlru]
      exact le_trans List.length_erase_le hc.length_le
    entriesCapacity := hc.entriesCapacity }

/-! ### Keeping a value -/

section Spec

variable {σ : Type*}

theorem Valid.touch_new {c : RegionLru} {region : String} (hc : c.Valid cap bytes)
    (h : (c.view region) = none) (hroom : c.lru.length < c.capacity) (value : Json) :
    ({ c with entries := c.entries.add region value }.touch region).Valid cap bytes ∧
      ({ c with entries := c.entries.add region value }.touch region).view
        = Function.update c.view region (some ⟨value, false⟩) := by
  have hkeys : region ∉ c.entries.keys := by rw [← view_isSome, h]; simp
  have hlru : region ∉ c.lru := by rw [hc.mem_lru, h]; simp
  have hpos : region ∉ c.lruPositions := by rw [hc.mem_positions, h]; simp
  have hdirty : region ∉ c.dirty := fun hr ↦ hlru (hc.dirty_subset _ hr)
  have hadd := LruMemory.add_of_notMem hkeys
    (by rw [hc.keys.length_eq, hc.entriesCapacity]; exact hroom) value
  refine ⟨?_, ?_⟩
  · exact {
      capacity_eq := hc.capacity_eq
      maximumBytes_eq := hc.maximumBytes_eq
      keys := by
        simp only [RegionLru.touch, hadd, if_neg hpos]
        exact hc.keys.cons region
      positions := by
        simp only [RegionLru.touch, if_neg hpos, List.insert_of_not_mem hpos]
        exact hc.positions.cons region
      nodup := by
        simp only [RegionLru.touch, if_neg hpos]
        exact List.nodup_cons.mpr ⟨hlru, hc.nodup⟩
      dirty_nodup := hc.dirty_nodup
      dirty_subset := by
        intro r hr
        simp only [RegionLru.touch, if_neg hpos]
        exact List.mem_cons_of_mem _ (hc.dirty_subset r hr)
      length_le := by
        simp only [RegionLru.touch, if_neg hpos, List.length_cons]
        exact hroom
      entriesCapacity := by
        simp only [RegionLru.touch, hadd]
        exact hc.entriesCapacity }
  · funext r
    by_cases hr : r = region
    · subst hr
      simp [view, RegionLru.touch, hadd, hdirty]
    · rw [Function.update_of_ne hr]
      simp only [view, RegionLru.touch, hadd, Assoc.lookup_cons_of_ne (Ne.symm hr)]

theorem Valid.touch_old {c : RegionLru} {region : String} (hc : c.Valid cap bytes)
    (h : (c.view region).isSome) (value : Json) :
    ({ c with entries := c.entries.add region value }.touch region).Valid cap bytes ∧
      ({ c with entries := c.entries.add region value }.touch region).view
        = Function.update c.view region (some ⟨value, decide (region ∈ c.dirty)⟩) := by
  have hkeys : region ∈ c.entries.keys := (view_isSome c region).mp h
  have hcap : c.entries.capacity ≠ 0 := by
    have hlen := List.length_pos_of_mem (hc.mem_lru.mpr h)
    have hle := hc.length_le
    rw [hc.entriesCapacity]
    omega
  have hview : ({ c with entries := c.entries.add region value }).view
      = Function.update c.view region (some ⟨value, decide (region ∈ c.dirty)⟩) := by
    funext r
    by_cases hr : r = region
    · subst hr
      rw [Function.update_self, view, LruMemory.lookup_add_of_mem hcap hkeys, if_pos rfl]
      rfl
    · rw [Function.update_of_ne hr, view, LruMemory.lookup_add_of_mem hcap hkeys,
        if_neg (Ne.symm hr)]
      rfl
  have hvalid : ({ c with entries := c.entries.add region value }).Valid cap bytes := {
    capacity_eq := hc.capacity_eq
    maximumBytes_eq := hc.maximumBytes_eq
    keys := (LruMemory.keys_add_of_mem (hc.keys.nodup_iff.mpr hc.nodup) hcap hkeys value).trans
      hc.keys
    positions := hc.positions
    nodup := hc.nodup
    dirty_nodup := hc.dirty_nodup
    dirty_subset := hc.dirty_subset
    length_le := hc.length_le
    entriesCapacity := by rw [LruMemory.capacity_add, hc.entriesCapacity] }
  refine ⟨hvalid.touch ?_, by rw [view_touch, hview]⟩
  rw [hview, Function.update_self]
  rfl

/-- Marking a kept region. -/
theorem Valid.mark {c : RegionLru} (hc : c.Valid cap bytes) {region : String} {e : Entry Json}
    (h : c.view region = some e) (dirty : Bool) :
    let c' := { c with
      dirty := if dirty then c.dirty.insert region else c.dirty.erase region }
    c'.Valid cap bytes ∧ c'.view = Function.update c.view region (some ⟨e.value, dirty⟩) := by
  have hlru : region ∈ c.lru := hc.mem_lru.mpr (by rw [h]; rfl)
  obtain ⟨v, hv, rfl⟩ := Option.map_eq_some_iff.mp h
  have hmem : ∀ r, r ∈ (if dirty then c.dirty.insert region else c.dirty.erase region) ↔
      if r = region then dirty = true else r ∈ c.dirty := by
    intro r
    by_cases hr : r = region
    · subst hr
      cases dirty <;> simp [hc.dirty_nodup.mem_erase_iff]
    · cases dirty <;> simp [hr, hc.dirty_nodup.mem_erase_iff]
  refine ⟨?_, ?_⟩
  · exact {
      capacity_eq := hc.capacity_eq
      maximumBytes_eq := hc.maximumBytes_eq
      keys := hc.keys
      positions := hc.positions
      nodup := hc.nodup
      dirty_nodup := by
        cases dirty
        · exact hc.dirty_nodup.erase region
        · exact List.Nodup.insert hc.dirty_nodup
      dirty_subset := by
        intro r hr
        have := (hmem r).mp hr
        by_cases heq : r = region
        · exact heq ▸ hlru
        · rw [if_neg heq] at this
          exact hc.dirty_subset r this
      length_le := hc.length_le
      entriesCapacity := hc.entriesCapacity }
  · funext r
    by_cases hr : r = region
    · subst hr
      have hdirty : (r ∈ (if dirty then c.dirty.insert r else c.dirty.erase r)) ↔ dirty = true := by
        rw [hmem, if_pos rfl]
      simp only [Function.update_self, view, hv, Option.map_some, hdirty, Bool.decide_eq_true]
    · rw [Function.update_of_ne hr]
      have hdirty : (r ∈ (if dirty then c.dirty.insert region else c.dirty.erase region))
          ↔ r ∈ c.dirty := by
        rw [hmem, if_neg hr]
      simp only [view, hdirty]

theorem Valid.store {c : RegionLru} (hc : c.Valid cap bytes) {region : String}
    (hroom : (c.view region).isSome ∨ c.lru.length < c.capacity) (value : Json) (dirty : Bool) :
    (c.store region value dirty).Valid cap bytes ∧
      (c.store region value dirty).view = Function.update c.view region (some ⟨value, dirty⟩) := by
  have hc' := hc.setAdmission (c.admission.remove region)
  have hstored : ∃ b, ({ c with
      admission := c.admission.remove region
      entries := c.entries.add region value }.touch region).Valid cap bytes ∧
      ({ c with
        admission := c.admission.remove region
        entries := c.entries.add region value }.touch region).view
        = Function.update c.view region (some ⟨value, b⟩) := by
    cases hv : c.view region with
    | some e =>
      exact ⟨_, hc'.touch_old (by change (c.view region).isSome = true; rw [hv]; rfl) value⟩
    | none =>
      have hlt : c.lru.length < c.capacity := by
        rcases hroom with h | h
        · rw [hv] at h; simp at h
        · exact h
      exact ⟨_, hc'.touch_new hv hlt value⟩
  obtain ⟨b, hvalid, hview⟩ := hstored
  have hentry := congrFun hview region
  rw [Function.update_self] at hentry
  obtain ⟨hvalid', hview'⟩ := hvalid.mark hentry dirty
  refine ⟨hvalid', hview'.trans ?_⟩
  rw [hview, Function.update_idem]

/-! ### Making room -/

/-- Making room saves a dirty victim before it removes it. -/
theorem evict_spec (documentKey : String) (writer : RegionWriter σ) {c : RegionLru}
    (hc : c.Valid cap bytes) (s : σ) :
    (c.evict documentKey writer s).2.1.Valid cap bytes ∧
      Quiet (writer documentKey) (c.view, s)
        ((c.evict documentKey writer s).2.1.view, (c.evict documentKey writer s).2.2) ∧
      (c.evict documentKey writer s).2.1.capacity = c.capacity ∧
      ((c.evict documentKey writer s).1 = true →
        (c.evict documentKey writer s).2.1.lru.length = c.lru.length - 1) := by
  unfold evict
  split
  · next h =>
    rw [List.getLast?_eq_none_iff] at h
    exact ⟨hc, Quiet.refl _, rfl, fun _ ↦ by rw [h]; rfl⟩
  · next victim h =>
    have hlru : victim ∈ c.lru := List.mem_of_getLast? h
    obtain ⟨e, he⟩ := Option.isSome_iff_exists.mp (hc.mem_lru.mp hlru)
    have hlen : ∀ {c' : RegionLru}, c'.Valid cap bytes → c'.lru = c.lru →
        (c'.erase victim).lru.length = c.lru.length - 1 := by
      intro c' hc' hl
      have hpos : victim ∈ c'.lruPositions := hc'.positions.mem_iff.mpr (hl ▸ hlru)
      rw [RegionLru.erase, if_pos hpos, hl, List.length_erase_of_mem hlru]
    have hdrop : ∀ {V : View String Json} {s : σ}, V.Clean victim →
        Step (writer documentKey) (V, s) (Function.update V victim none, s) := by
      intro V s hV
      refine Step.drop fun r ↦ ?_
      by_cases hr : r = victim
      · subst hr; exact Or.inr ⟨Function.update_self .., hV⟩
      · exact Or.inl (Function.update_of_ne hr ..)
    split
    · next hd =>
      obtain ⟨v, hv⟩ := hc.mem_dirty.mp hd
      rw [getEntry_eq, hv]
      simp only [Option.map_some]
      cases hw : writer documentKey victim v s with
      | mk b s' =>
        cases b with
        | true =>
          refine ⟨(hc.getEntry victim).erase victim, ?_, rfl, fun _ ↦
            hlen (hc.getEntry victim) rfl⟩
          rw [view_erase, view_getEntry]
          have hsaved : Step (writer documentKey) (c.view, s)
              (Function.update c.view victim (some ⟨v, false⟩), s') := Step.saved hv hw
          refine hsaved.quiet.step ?_
          have := hdrop (V := Function.update c.view victim (some ⟨v, false⟩)) (s := s')
            ⟨v, Function.update_self ..⟩
          rwa [Function.update_idem] at this
        | false =>
          refine ⟨hc.getEntry victim, ?_, rfl, fun h ↦ absurd h Bool.false_ne_true⟩
          rw [view_getEntry]
          exact (Step.unsaved hv hw).quiet
    · next hd =>
      refine ⟨hc.erase victim, ?_, rfl, fun _ ↦ hlen hc rfl⟩
      rw [view_erase]
      refine (hdrop ?_).quiet
      obtain ⟨v, -, rfl⟩ := Option.map_eq_some_iff.mp he
      exact ⟨v, by rw [he, decide_eq_false hd]⟩

/-! ### The operations -/

/-- A lookup changes nothing of what is cached; it asks for a region to be admitted only when the
region is not there. -/
theorem lookup_spec {c : RegionLru} (hc : c.Valid cap bytes) (region : String) :
    (c.lookup region).2.Valid cap bytes ∧ (c.lookup region).2.view = c.view ∧
      (∀ v, (c.lookup region).1.value = some v → ∃ b, c.view region = some ⟨v, b⟩) ∧
      ((c.lookup region).1.admitOnMiss = true → c.view region = none) ∧
      ((c.lookup region).1.value = none → c.view region = none) := by
  unfold lookup
  split_ifs with hcap
  · have hnone : c.view region = none := by
      cases hv : c.view region with
      | none => rfl
      | some e =>
        have hsome : (c.view region).isSome := by rw [hv]; rfl
        have hpos := List.length_pos_of_mem (hc.mem_lru.mpr hsome)
        have hle := hc.length_le
        omega
    exact ⟨hc, rfl, by simp, by simp, fun _ ↦ hnone⟩
  · rw [getEntry_eq]
    cases hv : c.view region with
    | some e =>
      have hsome : ((c.getEntry region).2.view region).isSome := by
        rw [view_getEntry, hv]; rfl
      refine ⟨(hc.getEntry region).touch hsome, by simp, ?_, by simp, by simp⟩
      rintro v ⟨⟩
      exact ⟨e.dirty, rfl⟩
    | none =>
      simp only [Option.map_none]
      split
      · split_ifs
        · exact ⟨(hc.getEntry region).setAdmission _, view_getEntry c region, by simp, by simp,
            by simp⟩
        · exact ⟨((hc.getEntry region).setAdmission _).setAdmission _, view_getEntry c region,
            by simp, by simp, by simp⟩
      · exact ⟨((hc.getEntry region).setAdmission _).setAdmission _, view_getEntry c region,
          by simp, by simp, by simp⟩

theorem get_spec {c : RegionLru} (hc : c.Valid cap bytes) (region : String) :
    (c.get region).2.Valid cap bytes ∧ (c.get region).2.view = c.view ∧
      (c.get region).1 = (c.view region).map Entry.value := by
  unfold get
  split_ifs with hcap
  · refine ⟨hc, rfl, ?_⟩
    cases hv : c.view region with
    | none => rfl
    | some e =>
      have hsome : (c.view region).isSome := by rw [hv]; rfl
      have hpos := List.length_pos_of_mem (hc.mem_lru.mpr hsome)
      have hle := hc.length_le
      omega
  · rw [getEntry_eq]
    cases hv : c.view region with
    | some e =>
      refine ⟨(hc.getEntry region).touch ?_, by simp, by simp⟩
      rw [view_getEntry, hv]
      rfl
    | none => exact ⟨hc.getEntry region, by simp, by simp⟩

/-- Admitting a region that is not cached may save and remove another one; it then keeps the value,
clean, or declines. -/
theorem add_clean_spec (size : Json → ℕ) (documentKey : String) (writer : RegionWriter σ)
    {c : RegionLru} (hc : c.Valid cap bytes) {region : String} (hregion : c.view region = none)
    (value : Json) (s : σ) :
    (c.add size documentKey region value false writer s).2.1.Valid cap bytes ∧
      ∃ V, Quiet (writer documentKey) (c.view, s)
          (V, (c.add size documentKey region value false writer s).2.2) ∧
        ((c.add size documentKey region value false writer s).2.1.view = V ∨
          (c.add size documentKey region value false writer s).2.1.view
            = Function.update V region (some ⟨value, false⟩)) := by
  have hview := view_getEntry c region
  have hvalid := hc.getEntry region
  have hsame : (c.getEntry region).2.capacity = c.capacity := rfl
  unfold add
  rw [getEntry_eq, hregion]
  generalize (c.getEntry region).2 = c' at hview hvalid hsame
  simp only [Option.map_none, Option.isSome_none, Bool.false_and, Bool.false_eq_true, if_false,
    if_true, Bool.not_false, Bool.true_and]
  split_ifs with hcap hsize hfull
  · exact ⟨hc, c.view, Quiet.refl _, Or.inl rfl⟩
  · exact ⟨hvalid.setAdmission _, c.view, Quiet.refl _, Or.inl hview⟩
  · obtain ⟨hv, hq, hcapacity, hlen⟩ := evict_spec documentKey writer hvalid s
    rw [hview] at hq
    rcases he : c'.evict documentKey writer s with ⟨b, c'', s'⟩
    rw [he] at hv hq hcapacity hlen
    cases b with
    | true =>
      have hle := hvalid.length_le
      have hroom : c''.lru.length < c''.capacity := by
        have hshort := hlen rfl
        have hfull : c'.capacity ≤ c'.lru.length := of_decide_eq_true hfull
        simp only at hshort hcapacity
        omega
      obtain ⟨hstore, hsview⟩ := hv.store (Or.inr hroom) value false
      exact ⟨hstore, c''.view, hq, Or.inr hsview⟩
    | false => exact ⟨hv, c''.view, hq, Or.inl rfl⟩
  · have hroom : c'.lru.length < c'.capacity := by simpa using hfull
    obtain ⟨hstore, hsview⟩ := hvalid.store (Or.inr hroom) value false
    exact ⟨hstore, c.view, Quiet.refl _, Or.inr (by rw [hsview, hview])⟩

/-- An update of a cached region. -/
theorem update_spec (size : Json → ℕ) (documentKey : String) (writer : RegionWriter σ)
    {c : RegionLru} (hc : c.Valid cap bytes) {region : String}
    (hregion : (c.view region).isSome) (value : Json) (s : σ) :
    (c.update size documentKey region value writer s).2.1.Valid cap bytes ∧
      Update (writer documentKey) (fun v ↦ size v ≤ bytes) region value (c.view, s)
        (c.update size documentKey region value writer s).1
        ((c.update size documentKey region value writer s).2.1.view,
          (c.update size documentKey region value writer s).2.2) := by
  have hsome : ∀ c' : RegionLru, c'.view = c.view → (c'.getEntry region).1.isSome = true := by
    intro c' h
    rw [getEntry_fst, h, Option.isSome_map]
    exact hregion
  have hview := view_getEntry c region
  have hvalid := hc.getEntry region
  unfold update
  simp only [hsome c rfl, if_true]
  generalize (c.getEntry region).2 = c' at hview hvalid
  have hcap : c'.capacity ≠ 0 := by
    have hpos := List.length_pos_of_mem (hvalid.mem_lru.mpr (by rw [hview]; exact hregion))
    have hle := hvalid.length_le
    omega
  have hsome' := hsome c' hview
  have hview' := (view_getEntry c' region).trans hview
  have hvalid' := hvalid.getEntry region
  unfold add
  simp only [hcap, if_false, hsome', Bool.and_self, if_true, Bool.not_true, Bool.false_and,
    Bool.false_eq_true]
  generalize (c'.getEntry region).2 = c'' at hview' hvalid'
  have htouch := hvalid'.touch (by rw [hview']; exact hregion)
  have htview : (c''.touch region).view = c.view := by rw [view_touch, hview']
  have hbytes : (c''.touch region).maximumBytes = bytes := htouch.maximumBytes_eq
  generalize c''.touch region = d at htouch htview hbytes
  split_ifs with hsize hwritten
  · refine ⟨(htouch.erase region).setAdmission _, ?_⟩
    have he : ({ d.erase region with
        admission := (d.erase region).admission.add region kUncacheable }).view
        = Function.update c.view region none := by
      rw [← htview, ← view_erase]
      rfl
    rw [he]
    exact Update.through (not_le.mpr (hbytes ▸ hsize)) (Prod.ext hwritten rfl)
  · refine ⟨htouch, ?_⟩
    rw [htview]
    exact Update.failed (not_le.mpr (hbytes ▸ hsize)) (Prod.ext (by simpa using hwritten) rfl)
  · obtain ⟨hstore, hsview⟩ := htouch.store (Or.inl (by rw [htview]; exact hregion)) value true
    refine ⟨hstore, ?_⟩
    rw [hsview, htview]
    exact Update.kept (not_lt.mp (hbytes ▸ hsize))

theorem remove_spec {c : RegionLru} (hc : c.Valid cap bytes) (region : String) :
    (c.remove region).Valid cap bytes ∧
      (c.remove region).view = Function.update c.view region none :=
  ⟨(hc.erase region).setAdmission _, view_erase c region⟩

theorem collect_spec (regions : List String) {c : RegionLru} (hc : c.Valid cap bytes) :
    (collect regions c).2.Valid cap bytes ∧ (collect regions c).2.view = c.view ∧
      (collect regions c).2.dirty = c.dirty ∧
      (collect regions c).1 = regions.filterMap fun r ↦ (c.view r).map fun e ↦ (r, e.value) := by
  induction regions generalizing c with
  | nil => exact ⟨hc, rfl, rfl, rfl⟩
  | cons r regions ih =>
    rw [collect, getEntry_eq]
    cases hv : c.view r with
    | none =>
      obtain ⟨hvalid, hview, hdirty, hlist⟩ := ih (hc.getEntry r)
      rw [view_getEntry] at hview hlist
      refine ⟨hvalid, hview, hdirty, ?_⟩
      simp only [Option.map_none, List.filterMap_cons, hv]
      exact hlist
    | some e =>
      have htouch := (hc.getEntry r).touch (by rw [view_getEntry, hv]; rfl)
      obtain ⟨hvalid, hview, hdirty, hlist⟩ := ih htouch
      rw [view_touch, view_getEntry] at hview hlist
      refine ⟨hvalid, hview, hdirty, ?_⟩
      simp only [Option.map_some, List.filterMap_cons, hv]
      exact congrArg _ hlist

/-- The dirty regions with their values, each once, in some order. -/
theorem dirtyRegions_spec {c : RegionLru} (hc : c.Valid cap bytes) (order : Iteration) :
    (c.dirtyRegions order).2.Valid cap bytes ∧ (c.dirtyRegions order).2.view = c.view ∧
      (c.dirtyRegions order).2.dirty = c.dirty ∧
      ((c.dirtyRegions order).1.map Prod.fst).Nodup ∧
      ∀ r v, (r, v) ∈ (c.dirtyRegions order).1 ↔ c.view r = some ⟨v, true⟩ := by
  obtain ⟨hvalid, hview, hdirty, hlist⟩ := collect_spec (order.walk c.dirty) hc
  have hperm := order.walk_perm c.dirty
  refine ⟨hvalid, hview, hdirty, ?_, ?_⟩
  · have hsub : ((c.dirtyRegions order).1.map Prod.fst).Sublist (order.walk c.dirty) := by
      rw [dirtyRegions, hlist]
      generalize order.walk c.dirty = l
      induction l with
      | nil => exact List.Sublist.refl _
      | cons r l ih =>
        cases hv : c.view r with
        | none => simpa [List.filterMap_cons, hv] using ih.cons r
        | some e => simpa [List.filterMap_cons, hv] using ih
    exact hsub.nodup (hperm.nodup_iff.mpr hc.dirty_nodup)
  · intro r v
    rw [dirtyRegions, hlist, List.mem_filterMap]
    constructor
    · rintro ⟨r', hr', hmap⟩
      obtain ⟨e, he, heq⟩ := Option.map_eq_some_iff.mp hmap
      obtain ⟨rfl, rfl⟩ := Prod.mk.inj heq
      obtain ⟨w, hw⟩ := hc.mem_dirty.mp (hperm.mem_iff.mp hr')
      obtain rfl : Entry.mk w true = e := Option.some.inj (hw.symm.trans he)
      exact hw
    · intro hv
      exact ⟨r, hperm.mem_iff.mpr (hc.mem_dirty.mpr ⟨v, hv⟩), by rw [hv]; rfl⟩

theorem flushPending_spec (documentKey : String) (writer : RegionWriter σ)
    {pending : List (String × Json)} {c : RegionLru} (hc : c.Valid cap bytes)
    (hnodup : (pending.map Prod.fst).Nodup)
    (hpending : ∀ r v, (r, v) ∈ pending ↔ c.view r = some ⟨v, true⟩) (s : σ) :
    (flushPending documentKey writer pending c s).2.1.Valid cap bytes ∧
      Quiet (writer documentKey) (c.view, s)
        ((flushPending documentKey writer pending c s).2.1.view,
          (flushPending documentKey writer pending c s).2.2) ∧
      ((flushPending documentKey writer pending c s).1 = true →
        ∀ r, ¬(flushPending documentKey writer pending c s).2.1.view.Dirty r) := by
  induction pending generalizing c s with
  | nil =>
    refine ⟨hc, Quiet.refl _, fun _ r hr ↦ ?_⟩
    obtain ⟨v, hv⟩ := hr
    exact List.not_mem_nil ((hpending r v).mpr hv)
  | cons p pending ih =>
    obtain ⟨region, value⟩ := p
    obtain ⟨hfirst, hrest⟩ := List.nodup_cons.mp hnodup
    have hentry := (hpending region value).mp List.mem_cons_self
    rw [flushPending]
    rcases hw : writer documentKey region value s with ⟨b, s'⟩
    cases b with
    | false =>
      exact ⟨hc, (Step.unsaved hentry hw).quiet, fun h ↦ absurd h Bool.false_ne_true⟩
    | true =>
      obtain ⟨hmark, hmview⟩ := hc.mark hentry false
      simp only [Bool.false_eq_true, if_false] at hmark hmview
      have hpending' : ∀ r v, (r, v) ∈ pending ↔
          ({ c with dirty := c.dirty.erase region }).view r = some ⟨v, true⟩ := by
        intro r v
        rw [hmview]
        by_cases hr : r = region
        · subst hr
          rw [Function.update_self]
          constructor
          · intro h
            exact absurd (List.mem_map_of_mem (f := Prod.fst) h) hfirst
          · intro h
            simp at h
        · rw [Function.update_of_ne hr, ← hpending r v, List.mem_cons]
          simp [hr]
      obtain ⟨hvalid, hquiet, hclean⟩ := ih hmark hrest hpending' s'
      refine ⟨hvalid, ?_, hclean⟩
      rw [hmview] at hquiet
      exact (Step.saved hentry hw).quiet.trans hquiet

/-- A flush saves dirty regions until one fails; when it reports success, none is left. -/
theorem flush_spec (documentKey : String) (writer : RegionWriter σ) {c : RegionLru}
    (hc : c.Valid cap bytes) (order : Iteration) (s : σ) :
    (c.flush documentKey order writer s).2.1.Valid cap bytes ∧
      Quiet (writer documentKey) (c.view, s)
        ((c.flush documentKey order writer s).2.1.view,
          (c.flush documentKey order writer s).2.2) ∧
      ((c.flush documentKey order writer s).1 = true →
        ∀ r, ¬(c.flush documentKey order writer s).2.1.view.Dirty r) := by
  obtain ⟨hvalid, hview, -, hnodup, hmem⟩ := dirtyRegions_spec hc order
  have h := flushPending_spec documentKey writer hvalid hnodup
    (fun r v ↦ by rw [hmem, hview]) s
  rw [hview] at h
  exact h

/-- A flush that fails came to a region that was not saved. -/
theorem flushPending_stuck (documentKey : String) (writer : RegionWriter σ)
    {pending : List (String × Json)} {c : RegionLru} (hc : c.Valid cap bytes)
    (hnodup : (pending.map Prod.fst).Nodup)
    (hpending : ∀ r v, (r, v) ∈ pending → c.view r = some ⟨v, true⟩) {s : σ}
    (h : (flushPending documentKey writer pending c s).1 = false) :
    Stuck (writer documentKey) (c.view, s) := by
  induction pending generalizing c s with
  | nil => simp [flushPending] at h
  | cons p pending ih =>
    obtain ⟨region, value⟩ := p
    obtain ⟨hfirst, hrest⟩ := List.nodup_cons.mp hnodup
    have hentry := hpending region value List.mem_cons_self
    rw [flushPending] at h
    rcases hw : writer documentKey region value s with ⟨_ | _, s'⟩
    · exact ⟨_, Quiet.refl _, region, value, hentry, by rw [hw]⟩
    · rw [hw] at h
      obtain ⟨hmark, hmview⟩ := hc.mark hentry false
      simp only [Bool.false_eq_true, if_false] at hmark hmview
      have hstuck := ih hmark hrest (fun r v hr ↦ by
        have hne : r ≠ region := by
          have hmem : r ∈ pending.map Prod.fst := List.mem_map_of_mem hr
          rintro rfl
          exact hfirst hmem
        rw [hmview, Function.update_of_ne hne]
        exact hpending r v (List.mem_cons_of_mem _ hr)) h
      rw [hmview] at hstuck
      exact hstuck.quiet (Step.saved hentry hw).quiet

theorem flush_stuck (documentKey : String) (writer : RegionWriter σ) {c : RegionLru}
    (hc : c.Valid cap bytes) (order : Iteration) {s : σ}
    (h : (c.flush documentKey order writer s).1 = false) :
    Stuck (writer documentKey) (c.view, s) := by
  obtain ⟨hvalid, hview, -, hnodup, hmem⟩ := dirtyRegions_spec hc order
  have hstuck := flushPending_stuck documentKey writer hvalid hnodup
    (fun r v hr ↦ by rwa [hmem, ← hview] at hr) h
  rwa [hview] at hstuck

end Spec

end RegionLru

end Agora
