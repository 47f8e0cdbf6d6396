import Agora.Memory.Coherence

/-!
# The operations, one at a time

Each operation of `MemoryClass` seen from outside: which state it reaches, and what it returns.
Reading and flushing only ever save and forget (`Calm`): they keep the invariant and the meaning of
every key. An operation that changes a document sends one command of its own and then forgets the
regions that the command may have touched (`Sound.change`).
-/

namespace Agora

namespace MemoryClass

open WriteBack

variable (platform : Platform) {options : Options} (net : Outcomes)

/-- The configured bounds of the cache. -/
def configuredBounds (options : Options) : ℕ × ℕ × ℕ :=
  (options.maximumDocuments, options.entriesPerDocument, options.maximumEntryBytes)

/-- The invariant of the shared state. -/
structure Sound (options : Options) (s : MemoryState) : Prop where
  valid : s.cache.Valid
  bounds : s.cache.bounds = configuredBounds options
  anchored : Anchored options s.cache.view s.redis

/-- The document a key stands for in a state. -/
abbrev Means (options : Options) (s : MemoryState) (key : String) (x : Option Json) : Prop :=
  Meaning options s.cache.view s.redis key x

/-- Clean regions show what Redis holds, and saving dirty ones will not change that. -/
structure Coherent (options : Options) (s : MemoryState) : Prop where
  fresh : Fresh options s.cache.view s.redis
  settled : Settled options s.cache.view s.redis

/-- The state may have changed, but not in any way that matters to a client. -/
structure Calm (options : Options) (s s' : MemoryState) : Prop where
  sound : Sound options s'
  meaning : ∀ {key x}, Means options s key x → Means options s' key x
  coherent : Coherent options s → Coherent options s'
  texts : KeepsTexts s.redis s'.redis

theorem Calm.refl {s : MemoryState} (hs : Sound options s) : Calm options s s :=
  ⟨hs, id, id, fun _ _ ↦ id⟩

theorem Calm.trans {s s' s'' : MemoryState} (h : Calm options s s') (h' : Calm options s' s'') :
    Calm options s s'' :=
  ⟨h'.sound, h'.meaning ∘ h.meaning, h'.coherent ∘ h.coherent,
    fun key content hk ↦ h.texts key content (h'.texts key content hk)⟩

theorem calm_of_quiet {s s' : MemoryState} (hs : Sound options s) (hvalid : s'.cache.Valid)
    (hbounds : s'.cache.bounds = s.cache.bounds)
    (hq : Quiet (backWriter platform options net) (s.cache.view, s.redis)
      (s'.cache.view, s'.redis)) : Calm options s s' where
  sound := ⟨hvalid, hbounds.trans hs.bounds, quiet_anchored hq hs.anchored⟩
  meaning := fun hx ↦ quiet_meaning hq hs.anchored hx
  coherent := fun hc ↦
    have h := quiet_fresh hq hs.anchored hc.fresh hc.settled
    ⟨h.1, h.2⟩
  texts := quiet_texts hq

theorem calm_of_view {s : MemoryState} (hs : Sound options s) {cache : CacheManager}
    (hvalid : cache.Valid) (hbounds : cache.bounds = s.cache.bounds)
    (hview : cache.view = s.cache.view) :
    Calm options s { s with cache } where
  sound := ⟨hvalid, hbounds.trans hs.bounds, by rw [hview]; exact hs.anchored⟩
  meaning := fun hx ↦ by rw [Means, hview]; exact hx
  coherent := fun hc ↦ ⟨by rw [hview]; exact hc.fresh, by rw [hview]; exact hc.settled⟩
  texts := fun _ _ ↦ id

/-! ## Flushing and reading -/

/-- A flush is calm; when it reports success, nothing of the document is dirty. -/
theorem flush_spec {s : MemoryState} (hs : Sound options s) (key : String) :
    Calm options s (flush platform options net key s).2 ∧
      (∀ i, s.cache.view i = none → (flush platform options net key s).2.cache.view i = none) ∧
      ((flush platform options net key s).1 = true →
        ∀ r, ¬(flush platform options net key s).2.cache.view.Dirty (key, r)) := by
  obtain ⟨hvalid, hbounds, hquiet, hclean⟩ := CacheManager.flush_spec net.order
    (writeBack platform options net) hs.valid key s.redis
  exact ⟨calm_of_quiet platform net hs hvalid hbounds hquiet, fun i hi ↦ hquiet.none hi, hclean⟩

theorem fetch_eq_some {redis : Redis} {key : String} {d : Json}
    (h : fetch net redis key = some d) :
    redis.lookup key = some (.json d) ∨ redis.lookup key = some (.text (some d)) := by
  unfold fetch at h
  split at h
  · split at h
    · next j hj =>
      split at h
      · simp at h
      · exact Or.inl (by rw [hj, Option.some.inj h])
    · next content hj =>
      split at h
      · exact Or.inr (by rw [hj, h])
      · simp at h
    · simp at h
  · simp at h

/-- What a fetched document is under the dirty regions is what its key stands for. -/
theorem document_spec {s : MemoryState} (hs : Sound options s) (key : String) :
    Calm options s (document options net key s).2 ∧
      ∀ d, (document options net key s).1 = some d → Means options s key (some d) := by
  unfold document
  cases hf : fetch net s.redis key with
  | none => exact ⟨Calm.refl hs, fun d h ↦ by simp at h⟩
  | some value =>
    obtain ⟨hvalid, hbounds, hview, hnodup, hmem⟩ :=
      CacheManager.dirtyRegions_spec net.order hs.valid key
    refine ⟨calm_of_view hs hvalid hbounds hview, fun d hd ↦ ?_⟩
    have hlisted : Listed s.cache.view key (s.cache.dirtyRegions net.order key).1 :=
      ⟨hnodup, hmem⟩
    rcases fetch_eq_some net hf with hj | hj
    · exact Meaning.document hj ⟨_, hlisted, hd⟩
    · -- a text has no cached regions
      have hnil : (s.cache.dirtyRegions net.order key).1 = [] := by
        rw [List.eq_nil_iff_forall_not_mem]
        rintro ⟨r, v⟩ he
        obtain ⟨p, j, u, -, hj', -⟩ := hs.anchored key r _ ((hmem r v).mp he)
        simp [hj] at hj'
      simp only [hnil, overlay, Option.some.injEq] at hd
      subst hd
      exact Meaning.text hj

/-- A region that is not cached is left where it is while the cache saves and forgets. -/
theorem quiet_place {c c' : View (String × String) Json × Redis}
    (h : Quiet (backWriter platform options net) c c') (ha : Anchored options c.1 c.2)
    {key r : String} {p : List Segment} {j u : Json} (hr : IsRegion options r p)
    (hnone : c.1 (key, r) = none) (hj : c.2.lookup key = some (.json j)) (hu : j.find p = some u) :
    ∃ j', c'.2.lookup key = some (.json j') ∧ j'.find p = some u := by
  refine (h.invariant (P := fun c ↦ Anchored options c.1 c.2 ∧ c.1 (key, r) = none ∧
    ∃ j', c.2.lookup key = some (.json j') ∧ j'.find p = some u) ?_ ⟨ha, hnone, j, hj, hu⟩).2.2
  rintro c c' hs ⟨ha, hnone, j, hj, hu⟩
  refine ⟨step_anchored hs ha, hs.quiet.none hnone, ?_⟩
  have hwrite : ∀ {V : View (String × String) Json} {redis redis' : Redis}
      {i : String × String} {v : Json} {b : Bool}, Anchored options V redis → V (key, r) = none →
      redis.lookup key = some (.json j) → V i = some ⟨v, true⟩ →
      writeBack platform options net i.1 i.2 v redis = (b, redis') →
      ∃ j', redis'.lookup key = some (.json j') ∧ j'.find p = some u := by
    intro V redis redis' i v b ha hnone hj hv hw
    obtain ⟨q, j₀, u₀, hq, hj₀, hu₀, ⟨-, rfl⟩ | ⟨j', hset, rfl, -⟩⟩ := writeBack_outcome ha hv hw
    · exact ⟨j, hj, hu⟩
    · refine find_put_region hq hr hj₀ hset ?_ hj hu
      rintro heq
      have hi : i = (key, r) := heq.symm
      rw [hi, hnone] at hv
      simp at hv
  cases hs with
  | drop h => exact ⟨j, hj, hu⟩
  | saved h hw => exact hwrite ha hnone hj h hw
  | unsaved h hw => exact hwrite ha hnone hj h hw

/-- Admitting what Redis holds for a region is calm. -/
theorem admitRegion_calm {s : MemoryState} (hs : Sound options s) {key r : String}
    {p : List Segment} {j u : Json} (hr : IsRegion options r p)
    (hnone : s.cache.view (key, r) = none) (hj : s.redis.lookup key = some (.json j))
    (hu : j.find p = some u) :
    let a := s.cache.admitRegion platform.dumpSize net.order net.tryLock
      (writeBack platform options net) key r (project options u) s.redis
    Calm options s ⟨a.2.2, a.2.1⟩ := by
  obtain ⟨hvalid, hbounds, V, hquiet, hview⟩ :=
    CacheManager.admitRegion_spec platform.dumpSize net.order net.tryLock
      (writeBack platform options net) hs.valid hnone (project options u) s.redis
  have ha := quiet_anchored hquiet hs.anchored
  have hVnone : V (key, r) = none := hquiet.none hnone
  obtain ⟨j', hj', hu'⟩ := quiet_place platform net hquiet hs.anchored hr hnone hj hu
  rcases hview with hview | hview
  · refine calm_of_quiet platform net hs hvalid hbounds ?_
    simp only [hview]
    exact hquiet
  · have hdirty : ∀ k r' v, V (k, r') = some ⟨v, true⟩ ↔
        Function.update V (key, r) (some ⟨project options u, false⟩) (k, r')
          = some ⟨v, true⟩ := by
      intro k r' v
      by_cases hi : (k, r') = (key, r)
      · rw [hi, Function.update_self, hVnone]
        simp
      · rw [Function.update_of_ne hi]
    refine ⟨⟨hvalid, hbounds.trans hs.bounds, ?_⟩, fun {k x} hx ↦ ?_, fun hc ↦ ?_,
      quiet_texts hquiet⟩
    · simp only [hview]
      intro k r' e he
      by_cases hi : (k, r') = (key, r)
      · obtain ⟨rfl, rfl⟩ := Prod.mk.inj hi
        exact ⟨p, j', u, hr, hj', hu'⟩
      · rw [Function.update_of_ne hi] at he
        exact ha k r' e he
    · simp only [Means, hview]
      have hx' := quiet_meaning hquiet hs.anchored hx
      cases hx' with
      | absent h => exact Meaning.absent h
      | text h => exact Meaning.text h
      | document h ho => exact Meaning.document h (ho.congr (hdirty k))
    · obtain ⟨hf, ht⟩ := quiet_fresh hquiet hs.anchored hc.fresh hc.settled
      refine ⟨?_, ?_⟩
      · simp only [hview]
        intro k r' v hv
        by_cases hi : (k, r') = (key, r)
        · obtain ⟨rfl, rfl⟩ := Prod.mk.inj hi
          rw [Function.update_self] at hv
          obtain rfl : project options u = v := by simpa using hv
          exact ⟨p, j', u, hr, hj', hu', rfl⟩
        · rw [Function.update_of_ne hi] at hv
          exact hf k r' v hv
      · simp only [hview]
        intro k r' v q j₁ u₁ hv
        exact ht k r' v q j₁ u₁ ((hdirty k r' v).mpr hv)

/-- Looking a region up is calm. -/
theorem lookup_calm {s : MemoryState} (hs : Sound options s) (key parent : String) :
    let a := s.cache.lookup net.order net.tryLock (writeBack platform options net) key parent
      s.redis
    Calm options s ⟨a.2.2, a.2.1⟩ := by
  obtain ⟨hvalid, hbounds, hquiet, -, -⟩ := CacheManager.lookup_spec net.order net.tryLock
    (writeBack platform options net) hs.valid key parent s.redis
  exact calm_of_quiet platform net hs hvalid hbounds hquiet

theorem raw_eq_some {redis : Redis} {key r : String} {p : List Segment} {answered : Bool}
    {u : Json} (hr : IsRegion options r p) (h : raw platform redis key r answered = some u) :
    ∃ j, redis.lookup key = some (.json j) ∧ j.find p = some u := by
  cases answered with
  | false => simp [raw, getPath] at h
  | true =>
    rw [raw, getPath, if_pos rfl] at h
    cases hj : redis.lookup key with
    | none => simp [hj] at h
    | some value =>
      cases value with
      | text content => simp [hj] at h
      | json j =>
        rw [hj] at h
        simp only [Platform.pathMatches, hr.parse, Option.bind_some] at h
        refine ⟨j, rfl, ?_⟩
        cases hu : j.find p with
        | none => simp [hu] at h
        | some w => simpa [hu] using h

/-- Reading is calm. -/
theorem read_calm {s : MemoryState} (hs : Sound options s) (key path : String) :
    Calm options s (read platform options net key path s).2 := by
  unfold read
  cases hregion : region options path with
  | none =>
    simp only
    cases parseJsonPath path with
    | some segments =>
      have h := (document_spec net hs key).1
      rcases hd : document options net key s with ⟨_ | d, s'⟩ <;> rw [hd] at h <;> exact h
    | none =>
      have h := (flush_spec platform net hs key).1
      rcases hf : flush platform options net key s with ⟨_ | _, s'⟩ <;> rw [hf] at h <;> exact h
  | some pr =>
    obtain ⟨parent, relative⟩ := pr
    obtain ⟨p, -, hp⟩ := isRegion_of_region hregion
    have hcalm := lookup_calm platform net hs key parent
    obtain ⟨-, -, -, -, hnone⟩ := CacheManager.lookup_spec net.order net.tryLock
      (writeBack platform options net) hs.valid key parent s.redis
    simp only
    generalize s.cache.lookup net.order net.tryLock (writeBack platform options net) key parent
      s.redis = a at hcalm hnone ⊢
    obtain ⟨⟨value, admitOnMiss⟩, cache, redis⟩ := a
    simp only at hcalm hnone ⊢
    cases value with
    | some value =>
      simp only
      split_ifs
      · cases raw platform redis key parent net.raw <;> exact hcalm
      · exact hcalm
    | none =>
      simp only
      split_ifs
      · cases hraw : raw platform redis key parent net.raw with
        | none => exact hcalm
        | some u =>
          obtain ⟨j, hj, hu⟩ := raw_eq_some platform hp hraw
          exact hcalm.trans
            (admitRegion_calm platform net hcalm.sound hp (hnone rfl) hj hu)
      · exact hcalm

theorem readDocument_calm {s : MemoryState} (hs : Sound options s) (key : String) :
    Calm options s (readDocument platform options net key s).2 := by
  unfold readDocument
  split_ifs
  · exact read_calm platform net hs key "$"
  · exact (document_spec net hs key).1

/-! ## Changing a document -/

/-- The state after a change of one document: no region was added to the cache, and the regions of
the document that are still cached are where they were. -/
structure Change (options : Options) (key : String) (s s' : MemoryState) : Prop where
  valid : s'.cache.Valid
  bounds : s'.cache.bounds = s.cache.bounds
  sub : ∀ {i e}, s'.cache.view i = some e → s.cache.view i = some e
  view_other : ∀ {k}, k ≠ key → ∀ r, s'.cache.view (k, r) = s.cache.view (k, r)
  lookup_other : ∀ {k}, k ≠ key → s'.redis.lookup k = s.redis.lookup k
  keep : ∀ {r e p j u}, s'.cache.view (key, r) = some e → IsRegion options r p →
    s.redis.lookup key = some (.json j) → j.find p = some u →
      ∃ j', s'.redis.lookup key = some (.json j') ∧ j'.find p = some u

namespace Change

variable {options : Options} {key : String} {s s' : MemoryState}

theorem place (h : Change options key s s') {k r : String} {e : Entry Json} {p : List Segment}
    {j u : Json} (he : s'.cache.view (k, r) = some e) (hr : IsRegion options r p)
    (hj : s.redis.lookup k = some (.json j)) (hu : j.find p = some u) :
    ∃ j', s'.redis.lookup k = some (.json j') ∧ j'.find p = some u := by
  by_cases hk : k = key
  · subst hk
    exact h.keep he hr hj hu
  · exact ⟨j, (h.lookup_other hk).trans hj, hu⟩

theorem sound (h : Change options key s s') (hs : Sound options s) : Sound options s' := by
  refine ⟨h.valid, h.bounds.trans hs.bounds, fun k r e he ↦ ?_⟩
  obtain ⟨p, j, u, hr, hj, hu⟩ := hs.anchored k r e (h.sub he)
  obtain ⟨j', hj', hu'⟩ := h.place he hr hj hu
  exact ⟨p, j', u, hr, hj', hu'⟩

theorem coherent (h : Change options key s s') (hs : Sound options s) (hc : Coherent options s) :
    Coherent options s' := by
  refine ⟨fun k r v hv ↦ ?_, fun k r v p j' u' hv hr hj' hu' ↦ ?_⟩
  · obtain ⟨p, j, u, hr, hj, hu, hproj⟩ := hc.fresh k r v (h.sub hv)
    obtain ⟨j', hj', hu'⟩ := h.place hv hr hj hu
    exact ⟨p, j', u, hr, hj', hu', hproj⟩
  · obtain ⟨q, j, u, hq, hj, hu⟩ := hs.anchored k r _ (h.sub hv)
    obtain rfl := hr.unique hq
    obtain ⟨j₁, hj₁, hu₁⟩ := h.place hv hr hj hu
    obtain rfl : j' = j₁ := by simpa using hj'.symm.trans hj₁
    obtain rfl : u' = u := Option.some.inj (hu'.symm.trans hu₁)
    exact hc.settled k r v p j u' (h.sub hv) hr hj hu

theorem meaning_other (h : Change options key s s') {k : String} (hk : k ≠ key)
    {x : Option Json} (hx : Means options s k x) : Means options s' k x := by
  have hlookup := h.lookup_other hk
  cases hx with
  | absent h' => exact Meaning.absent (hlookup.trans h')
  | text h' => exact Meaning.text (hlookup.trans h')
  | document h' ho =>
    exact Meaning.document (hlookup.trans h') (ho.congr fun r v ↦ by rw [h.view_other hk])

end Change

/-- A path reaches into a region, as far as the cache can tell. -/
def Touches (options : Options) (path r : String) : Prop :=
  ∀ parent relative, region options path = some (parent, relative) → r = parent

theorem not_touches_iff {path r : String} : ¬Touches options path r ↔
    ∃ parent relative, region options path = some (parent, relative) ∧ r ≠ parent := by
  simp [Touches]

/-- Forgetting what a path may have touched. -/
theorem invalidate_spec {cache : CacheManager} (hm : cache.Valid) (key path : String) :
    (invalidate options cache key path).Valid ∧
      (invalidate options cache key path).bounds = cache.bounds ∧
      (∀ k, k ≠ key → ∀ r, (invalidate options cache key path).view (k, r) = cache.view (k, r)) ∧
      (∀ r, Touches options path r → (invalidate options cache key path).view (key, r) = none) ∧
      (∀ r, ¬Touches options path r →
        (invalidate options cache key path).view (key, r) = cache.view (key, r)) := by
  unfold invalidate
  cases hregion : region options path with
  | none =>
    refine ⟨hm.removeDocument key, CacheManager.bounds_removeDocument .., fun k hk r ↦ ?_,
      fun r _ ↦ ?_, fun r hr ↦ ?_⟩
    · rw [CacheManager.view_removeDocument]
      simp [View.setPart, hk]
    · rw [CacheManager.view_removeDocument]
      simp [View.setPart]
    · obtain ⟨parent, relative, h, -⟩ := not_touches_iff.mp hr
      rw [hregion] at h
      simp at h
  | some pr =>
    obtain ⟨parent, relative⟩ := pr
    obtain ⟨hvalid, hbounds, hview⟩ := CacheManager.removeRegion_spec hm key parent
    refine ⟨hvalid, hbounds, fun k hk r ↦ ?_, fun r hr ↦ ?_, fun r hr ↦ ?_⟩
    · simp only [hview]
      exact Function.update_of_ne (fun h ↦ hk (Prod.mk.inj h).1) ..
    · simp only [hview, hr parent relative hregion, Function.update_self]
    · obtain ⟨parent', relative', h, hne⟩ := not_touches_iff.mp hr
      rw [hregion] at h
      obtain ⟨rfl, rfl⟩ := Prod.mk.inj (Option.some.inj h)
      simp only [hview]
      exact Function.update_of_ne (fun h ↦ hne (Prod.mk.inj h).2) ..

theorem invalidate_sub {cache : CacheManager} (hm : cache.Valid) {key path : String}
    {i : String × String} {e : Entry Json}
    (h : (invalidate options cache key path).view i = some e) : cache.view i = some e := by
  obtain ⟨-, -, hother, htouched, hkept⟩ := invalidate_spec hm key path
  obtain ⟨k, r⟩ := i
  by_cases hk : k = key
  · subst hk
    by_cases hr : Touches options path r
    · rw [htouched r hr] at h
      simp at h
    · rwa [hkept r hr] at h
  · rwa [hother k hk] at h

/-- A command, executed with some fate, whose reply is followed by forgetting what it may have
touched, or not: a change, if the regions that stay cached are where they were. -/
theorem change_of_execute {s : MemoryState} {key : String} {command : Command} {fate : Fate}
    {cache : CacheManager} (hvalid : cache.Valid) (hbounds : cache.bounds = s.cache.bounds)
    (hsub : ∀ i e, cache.view i = some e → s.cache.view i = some e)
    (hother : ∀ k, k ≠ key → ∀ r, cache.view (k, r) = s.cache.view (k, r))
    (hkeep : ∀ r e p j u reply value, cache.view (key, r) = some e → IsRegion options r p →
      s.redis.lookup key = some (.json j) → j.find p = some u →
      command (some (.json j)) = some (reply, value) →
      (fate = .lost ∨ (s.redis.execute key command fate).1 = some reply) →
        ∃ j', value = some (.json j') ∧ j'.find p = some u) :
    Change options key s ⟨(s.redis.execute key command fate).2, cache⟩ where
  valid := hvalid
  bounds := hbounds
  sub := fun h ↦ hsub _ _ h
  view_other := fun hk r ↦ hother _ hk r
  lookup_other := fun hk ↦ Redis.lookup_execute_of_ne _ (Ne.symm hk) _ _
  keep := by
    intro r e p j u he hr hj hu
    rcases s.redis.execute_cases key command fate with
      ⟨reply, value, hcommand, hfate, hexec⟩ | hexec
    · rw [hj] at hcommand
      obtain ⟨j', hvalue, hu'⟩ := hkeep r e p j u reply value he hr hj hu hcommand (by
        cases fate with
        | answered => exact Or.inr (by rw [hexec, if_pos rfl])
        | rejected => exact absurd rfl hfate
        | lost => exact Or.inl rfl)
      refine ⟨j', ?_, hu'⟩
      rw [hexec, Redis.lookup_put, if_pos rfl, hvalue]
    · exact ⟨j, by rw [hexec]; exact hj, hu⟩

/-- `JSON.SET` leaves the regions alone that its path does not touch. -/
theorem jsonSet_keeps {path r : String} {value : Json} {j u : Json} {p : List Segment}
    {reply : String} {result : Option RedisValue}
    (h : platform.jsonSet path value (some (.json j)) = some (reply, result))
    (hr : IsRegion options r p) (htouch : ¬Touches options path r) (hu : j.find p = some u) :
    ∃ j', result = some (.json j') ∧ j'.find p = some u := by
  obtain ⟨parent, relative, hregion, hne⟩ := not_touches_iff.mp htouch
  obtain ⟨q, hparse, hq⟩ := isRegion_of_region hregion
  rw [Platform.jsonSet, Platform.pathAssign, hparse] at h
  obtain ⟨j', hj', heq⟩ := Option.map_eq_some_iff.mp h
  obtain ⟨-, rfl⟩ := Prod.mk.inj heq
  have hapart : Json.Apart (q ++ relative) p :=
    (hq.apart hr (Ne.symm hne)).append_left relative
  exact ⟨j', rfl, (Json.find_set_of_apart hapart hj').trans hu⟩

/-- A text has no cached regions. -/
theorem Sound.view_of_text {s : MemoryState} (hs : Sound options s) {key : String}
    (h : ∀ j, s.redis.lookup key ≠ some (.json j)) (r : String) : s.cache.view (key, r) = none := by
  cases hv : s.cache.view (key, r) with
  | none => rfl
  | some e =>
    obtain ⟨p, j, u, -, hj, -⟩ := hs.anchored key r e hv
    exact absurd hj (h j)

/-! ### Writing -/

theorem lookup_sendSet_of_ne (redis : Redis) {key k : String} (hk : k ≠ key) (value : Json)
    (path : String) :
    (sendSet platform net redis key value path).2.lookup k = redis.lookup k := by
  have hother : ∀ (redis : Redis) (command : Command) (fate : Fate),
      (redis.execute key command fate).2.lookup k = redis.lookup k := fun redis command fate ↦
    Redis.lookup_execute_of_ne redis (Ne.symm hk) command fate
  simp only [sendSet]
  split_ifs <;> simp only [hother]

/-- On a key that holds no text, one `JSON.SET` is sent. -/
theorem sendSet_eq {redis : Redis} {key : String} (h : isText redis key = false) (value : Json)
    (path : String) : sendSet platform net redis key value path
      = redis.execute key (platform.jsonSet path value) net.own := by
  simp [sendSet, h]

theorem isText_eq_false {redis : Redis} {key : String} {j : Json}
    (h : redis.lookup key = some (.json j)) : isText redis key = false := by
  simp [isText, h]

/-- A direct write changes one document, if the cache holds nothing that the path touches in case
the reply is lost. -/
theorem writeThrough_change {s : MemoryState} (hs : Sound options s) {key path : String}
    (hlost : net.own = .lost → ∀ r, (s.cache.view (key, r)).isSome → ¬Touches options path r)
    (value : Json) :
    Change options key s (writeThrough platform options net key value path s).2 := by
  have hother : ∀ {k}, k ≠ key →
      (sendSet platform net s.redis key value path).2.lookup k = s.redis.lookup k := fun hk ↦
    lookup_sendSet_of_ne platform net s.redis hk value path
  obtain ⟨hvalid, hbounds, hview, htouched, -⟩ := invalidate_spec hs.valid key path
  -- what is kept, whether or not the cache forgets
  have hkeep : ∀ {r : String} {p : List Segment} {j u : Json}, IsRegion options r p →
      s.redis.lookup key = some (.json j) → j.find p = some u →
      ((sendSet platform net s.redis key value path).1 = some "OK" ∨ net.own = .lost →
        ¬Touches options path r) →
      ∃ j', (sendSet platform net s.redis key value path).2.lookup key = some (.json j') ∧
        j'.find p = some u := by
    intro r p j u hr hj hu htouch
    rw [sendSet_eq platform net (isText_eq_false hj)] at htouch ⊢
    rcases s.redis.execute_cases key (platform.jsonSet path value) net.own with
      ⟨reply, result, hcommand, hfate, hexec⟩ | hexec
    · rw [hj] at hcommand
      have hreply : reply = "OK" := by
        obtain ⟨j', -, heq⟩ := Option.map_eq_some_iff.mp hcommand
        exact (Prod.mk.inj heq).1.symm
      have hnot : ¬Touches options path r := htouch (by
        cases hown : net.own with
        | answered => exact Or.inl (by rw [hown] at hexec; rw [hexec, if_pos rfl, hreply])
        | rejected => exact absurd hown hfate
        | lost => exact Or.inr rfl)
      obtain ⟨j', rfl, hu'⟩ := jsonSet_keeps platform hcommand hr hnot hu
      exact ⟨j', by rw [hexec, Redis.lookup_put, if_pos rfl], hu'⟩
    · exact ⟨j, by rw [hexec]; exact hj, hu⟩
  unfold writeThrough
  simp only
  split_ifs with hok
  · exact {
      valid := hvalid
      bounds := hbounds
      sub := fun h ↦ invalidate_sub hs.valid h
      view_other := fun hk r ↦ hview _ hk r
      lookup_other := hother
      keep := fun {r e p j u} he hr hj hu ↦ hkeep hr hj hu fun _ ht ↦ by
        rw [htouched r ht] at he
        simp at he }
  · exact {
      valid := hs.valid
      bounds := rfl
      sub := id
      view_other := fun _ _ ↦ rfl
      lookup_other := hother
      keep := fun {r e p j u} he hr hj hu ↦ hkeep hr hj hu fun h ↦
        hlost (h.resolve_left hok) r (by simp only at he; rw [he]; rfl) }

/-- The view after a cached region was given a value that waits to be saved. -/
abbrev marked (V : View (String × String) Json) (key r : String) (v : Json) :
    View (String × String) Json :=
  Function.update V (key, r) (some ⟨v, true⟩)

theorem marked_anchored {V : View (String × String) Json} {redis : Redis}
    (ha : Anchored options V redis) {key r : String} {e : Entry Json} (he : V (key, r) = some e)
    (v : Json) : Anchored options (marked V key r v) redis := by
  intro k r' e' he'
  by_cases hi : (k, r') = (key, r)
  · obtain ⟨rfl, rfl⟩ := Prod.mk.inj hi
    exact ha k r' e he
  · exact ha k r' e' ((Function.update_of_ne hi _ _).symm.trans he')

theorem marked_fresh {V : View (String × String) Json} {redis : Redis}
    (hf : Fresh options V redis) (key r : String) (v : Json) :
    Fresh options (marked V key r v) redis := by
  intro k r' v' hv'
  by_cases hi : (k, r') = (key, r)
  · rw [hi] at hv'
    simp [marked] at hv'
  · exact hf k r' v' ((Function.update_of_ne hi _ _).symm.trans hv')

/-- An update of a cached region gives it the value, to be saved or saved at once. If that fails,
the cache is as it was, and so is Redis unless the reply of the save was lost. -/
theorem update_spec {s : MemoryState} (hs : Sound options s) {key r : String} {e : Entry Json}
    (he : s.cache.view (key, r) = some e) (v : Json) :
    let a := s.cache.update platform.dumpSize (writeBack platform options net) key r v s.redis
    Sound options ⟨a.2.2, a.2.1⟩ ∧
      (a.1 = true → ∀ k x, Meaning options (marked s.cache.view key r v) s.redis k x →
        Means options ⟨a.2.2, a.2.1⟩ k x) ∧
      (a.1 = false → a.2.1.view = s.cache.view ∧
        (net.writeBack key r ≠ .lost → a.2.2 = s.redis)) ∧
      (Fresh options s.cache.view s.redis →
        (e.dirty = false → options.maximumEntryBytes < platform.dumpSize v →
          net.writeBack key r ≠ .lost) → Fresh options a.2.1.view a.2.2) ∧
      (Settled options s.cache.view s.redis →
        Settled options (marked s.cache.view key r v) s.redis → net.writeBack key r ≠ .lost →
          Settled options a.2.1.view a.2.2) ∧
      KeepsTexts s.redis a.2.2 := by
  obtain ⟨hvalid, hbounds, hupdate⟩ := CacheManager.update_spec platform.dumpSize
    (writeBack platform options net) hs.valid
    (show (s.cache.view (key, r)).isSome by rw [he]; rfl) v s.redis
  have hbytes : s.cache.maximumBytes = options.maximumEntryBytes :=
    congrArg (fun b ↦ b.2.2) hs.bounds
  simp only at hvalid hbounds hupdate ⊢
  have hbounds' := hbounds.trans hs.bounds
  generalize s.cache.update platform.dumpSize (writeBack platform options net) key r v s.redis = a
    at hvalid hbounds' hupdate ⊢
  obtain ⟨b, cache, redis⟩ := a
  simp only at hvalid hbounds' hupdate ⊢
  -- the cache first holds the value as dirty, then keeps it, writes it through or refuses it
  have hmark := marked_anchored hs.anchored he v
  have hself : marked s.cache.view key r v (key, r) = some ⟨v, true⟩ := Function.update_self ..
  have htexts : ∀ {b : Bool} {redis : Redis},
      writeBack platform options net key r v s.redis = (b, redis) → KeepsTexts s.redis redis :=
    fun hw ↦ by
      have h := keepsTexts_writeBack platform options net key r v s.redis
      rwa [hw] at h
  generalize hview : cache.view = V' at hupdate
  cases hupdate with
  | kept hk =>
    refine ⟨⟨hvalid, hbounds', ?_⟩, fun _ k x hx ↦ ?_, by simp, fun hf _ ↦ ?_,
      fun _ ht _ ↦ ?_, fun _ _ ↦ id⟩
    · simp only [hview]
      exact hmark
    · simp only [Means, hview]
      exact hx
    · exact marked_fresh hf key r v
    · exact ht
  | through hk hw =>
    have hsub : ∀ {i e'}, Function.update s.cache.view (key, r) none i = some e' →
        marked s.cache.view key r v i = some e' := by
      intro i e' he'
      by_cases hi : i = (key, r)
      · rw [hi] at he'
        simp at he'
      · rw [Function.update_of_ne hi] at he'
        exact (Function.update_of_ne hi ..).trans he'
    have hanchored := anchored_writeBack hmark hself hw
    refine ⟨⟨hvalid, hbounds', ?_⟩, fun _ k x hx ↦ ?_, by simp, fun hf _ ↦ ?_,
      fun _ ht _ ↦ ?_, htexts hw⟩
    · simp only [hview]
      exact fun k r' e' he' ↦ hanchored k r' e' (hsub he')
    · simp only [Means, hview]
      refine meaning_writeBack hmark hself hw (fun i hi ↦ ?_) (Or.inr ⟨rfl, ?_⟩) hx
      · exact (Function.update_of_ne hi ..).trans (Function.update_of_ne hi ..).symm
      · rintro ⟨w, hw'⟩
        simp at hw'
    · have hfresh := fresh_writeBack hmark (marked_fresh hf key r v) hself hw
      exact fun k r' v' hv' ↦ hfresh k r' v' (hsub hv')
    · have hsettled := settled_writeBack hmark ht hself hw
      exact fun k r' v' p j u hv' ↦ hsettled k r' v' p j u (hsub hv')
  -- the write of a value too large for the cache failed, or its reply was lost
  | failed hk hw =>
    have hanchored := anchored_writeBack hmark hself hw
    have hredis : net.writeBack key r ≠ .lost → redis = s.redis := by
      intro hlost
      obtain ⟨p, j, u, -, -, -, ⟨-, h⟩ | ⟨j', -, -, h⟩⟩ := writeBack_outcome hmark hself hw
      · exact h
      · exact absurd (h rfl) hlost
    refine ⟨⟨hvalid, hbounds', ?_⟩, by simp, fun _ ↦ ⟨rfl, hredis⟩, fun hf hsafe ↦ ?_,
      fun hs' _ hlost ↦ by rw [hredis hlost]; exact hs', htexts hw⟩
    · simp only [hview]
      intro k r' e' he'
      by_cases hi : (k, r') = (key, r)
      · obtain ⟨rfl, rfl⟩ := Prod.mk.inj hi
        exact hanchored k r' _ hself
      · exact hanchored k r' e' ((Function.update_of_ne hi ..).trans he')
    · by_cases hdirty : e.dirty = false
      · rw [hredis (hsafe hdirty (hbytes ▸ not_le.mp hk))]
        exact hf
      · have hfresh := fresh_writeBack hmark (marked_fresh hf key r v) hself hw
        intro k r' v' hv'
        by_cases hi : (k, r') = (key, r)
        · rw [hi, he] at hv'
          exact absurd (by rw [Option.some.inj hv']) hdirty
        · exact hfresh k r' v' ((Function.update_of_ne hi ..).trans hv')

/-- What a write below a cached region makes of it. -/
def rewritten (options : Options) (cached value : Json) (relative : List Segment) : Option Json :=
  (setJsonPathValue cached relative value).map (project options)

/-- The commands of a write whose lost reply the cache would not notice: the direct `JSON.SET` to
a place that is cached, and the save of a clean region that became too large to keep. -/
structure SafeWrite (platform : Platform) (options : Options) (net : Outcomes) (s : MemoryState)
    (key : String) (value : Json) (path : String) : Prop where
  own : net.own = .lost → ∀ r, (s.cache.view (key, r)).isSome → ¬Touches options path r
  large : ∀ parent relative c v, region options path = some (parent, relative) →
    s.cache.view (key, parent) = some ⟨c, false⟩ → staysCached options c value relative →
      rewritten options c value relative = some v →
        options.maximumEntryBytes < platform.dumpSize v → net.writeBack key parent ≠ .lost

/-- Whatever a lost direct write could make stale is not cached after a flush, either. -/
theorem flush_untouched {s : MemoryState} (hs : Sound options s) {key path : String}
    (h : ∀ r, (s.cache.view (key, r)).isSome → ¬Touches options path r) (r : String)
    (hr : ((flush platform options net key s).2.cache.view (key, r)).isSome) :
    ¬Touches options path r := by
  refine h r ?_
  by_contra hn
  rw [Bool.not_eq_true, Option.isSome_eq_false_iff, Option.isNone_iff_eq_none] at hn
  rw [(flush_spec platform net hs key).2.1 _ hn] at hr
  simp at hr

theorem writeFlushed_sound {s : MemoryState} (hs : Sound options s) {key path : String}
    (hlost : net.own = .lost → ∀ r, (s.cache.view (key, r)).isSome → ¬Touches options path r)
    (value : Json) :
    Sound options (writeFlushed platform options net key value path s).2 ∧
      (Coherent options s →
        Coherent options (writeFlushed platform options net key value path s).2) := by
  have hcalm := (flush_spec platform net hs key).1
  have hlost' := fun h ↦ flush_untouched platform net hs (hlost h)
  unfold writeFlushed
  rcases hf : flush platform options net key s with ⟨_ | _, s'⟩ <;> rw [hf] at hcalm hlost'
  · exact ⟨hcalm.sound, hcalm.coherent⟩
  · have hchange := writeThrough_change platform net hcalm.sound hlost' value
    exact ⟨hchange.sound hcalm.sound, fun hc ↦
      hchange.coherent hcalm.sound (hcalm.coherent hc)⟩

/-- A write keeps the invariant, and clean regions fresh, unless a reply is lost at a place that is
cached. -/
theorem write_sound {s : MemoryState} (hs : Sound options s) {key path : String} {value : Json}
    (hsafe : SafeWrite platform options net s key value path) :
    Sound options (write platform options net key value path s).2 ∧
      (Coherent options s →
        Fresh options (write platform options net key value path s).2.cache.view
          (write platform options net key value path s).2.redis) := by
  unfold write
  cases hregion : region options path with
  | none =>
    obtain ⟨hsound, hcoherent⟩ := writeFlushed_sound platform net hs hsafe.own value
    exact ⟨hsound, fun hc ↦ (hcoherent hc).fresh⟩
  | some pr =>
    obtain ⟨parent, relative⟩ := pr
    obtain ⟨hvalid, hbounds, hview, hvalue⟩ := CacheManager.get_spec hs.valid key parent
    have hget := calm_of_view hs hvalid hbounds hview
    have hlost : net.own = .lost → ∀ r,
        ((s.cache.get key parent).2.view (key, r)).isSome → ¬Touches options path r := by
      rw [hview]
      exact hsafe.own
    simp only
    generalize s.cache.get key parent = a at hvalid hview hvalue hget hlost ⊢
    obtain ⟨cached, cache⟩ := a
    simp only at hvalid hview hvalue hget hlost ⊢
    cases cached with
    | none =>
      have hchange := writeThrough_change platform net hget.sound hlost value
      exact ⟨hchange.sound hget.sound, fun hc ↦
        (hchange.coherent hget.sound (hget.coherent hc)).fresh⟩
    | some c =>
      simp only
      obtain ⟨e, he, rfl⟩ := Option.map_eq_some_iff.mp hvalue.symm
      split_ifs with hstays
      · cases hset : setJsonPathValue e.value relative value with
        | none => exact ⟨hget.sound, fun hc ↦ (hget.coherent hc).fresh⟩
        | some updated =>
          obtain ⟨hsound, -, -, hfresh, -, -⟩ := update_spec platform net hget.sound
            (show cache.view (key, parent) = some e by rw [hview]; exact he)
            (project options updated)
          refine ⟨hsound, fun hc ↦ hfresh (hget.coherent hc).fresh fun hclean hlarge ↦ ?_⟩
          refine hsafe.large parent relative e.value _ hregion ?_ hstays ?_ hlarge
          · rw [he, ← hclean]
          · rw [rewritten, hset, Option.map_some]
      · obtain ⟨hsound, hcoherent⟩ := writeFlushed_sound platform net hget.sound hlost value
        exact ⟨hsound, fun hc ↦ (hcoherent (hget.coherent hc)).fresh⟩

/-! ### Erasing -/

theorem flushForErase_calm {s : MemoryState} (hs : Sound options s) (key path : String) :
    Calm options s (flushForErase platform options net key path s).2 ∧
      ∀ i, s.cache.view i = none →
        (flushForErase platform options net key path s).2.cache.view i = none := by
  have hflush : ∀ {s : MemoryState}, Sound options s → ∀ c : Prop, ∀ _ : Decidable c,
      Calm options s (if c then flush platform options net key s else (true, s)).2 ∧
        ∀ i, s.cache.view i = none →
          (if c then flush platform options net key s else (true, s)).2.cache.view i = none := by
    intro s hs c _
    split_ifs
    · obtain ⟨hcalm, hnone, -⟩ := flush_spec platform net hs key
      exact ⟨hcalm, hnone⟩
    · exact ⟨Calm.refl hs, fun _ ↦ id⟩
  unfold flushForErase
  obtain ⟨hcalm, hnone⟩ := hflush hs (path ≠ "$" ∧ insideRegion options path) inferInstance
  generalize (if path ≠ "$" ∧ insideRegion options path then flush platform options net key s
    else (true, s)) = a at hcalm hnone ⊢
  obtain ⟨_ | _, s'⟩ := a
  · exact ⟨hcalm, hnone⟩
  · obtain ⟨hcalm', hnone'⟩ := hflush hcalm.sound (shiftsArray path) inferInstance
    exact ⟨hcalm.trans hcalm', fun i hi ↦ hnone' i (hnone i hi)⟩

theorem parseJsonPath_root {path : String} (h : parseJsonPath path = some []) : path = "$" := by
  unfold parseJsonPath at h
  split at h
  · simp at h
  · next c cs hpath =>
    split_ifs at h with hc
    cases cs with
    | nil =>
      rw [← String.ofList_toList (s := path), hpath, hc]
    | cons c' cs =>
      rw [List.length_cons, parseSegments] at h
      simp only [Option.bind_eq_bind, Option.bind_eq_some_iff, Option.pure_def,
        Option.some.injEq] at h
      obtain ⟨⟨s, rest⟩, -, segments, -, h⟩ := h
      simp at h

/-- The document itself is not apart from any region. -/
theorem touches_root {r : String} {p : List Segment} (hr : IsRegion options r p) :
    Touches options "$" r := by
  intro parent relative h
  obtain ⟨q, hparse, hq⟩ := isRegion_of_region h
  have hroot : parseJsonPath "$" = some [] := by decide +kernel
  rw [hroot] at hparse
  obtain ⟨rfl, rfl⟩ := List.append_eq_nil_iff.mp (Option.some.inj hparse).symm
  have hlen : p.length = 0 := hr.length.trans hq.length.symm
  rw [hr.name, hq.name, List.length_eq_zero_iff.mp hlen]

/-- An erase leaves the regions alone that the path it forgets does not touch. -/
theorem eraseCommand_keeps {path r : String} {j u : Json} {p : List Segment} {reply : String}
    {result : Option RedisValue}
    (h : eraseCommand platform path (some (.json j)) = some (reply, result))
    (hr : IsRegion options r p) (htouch : ¬Touches options (erasedPath path) r)
    (hu : j.find p = some u) : ∃ j', result = some (.json j') ∧ j'.find p = some u := by
  have hshift : shiftsArray path = false := by
    by_contra hshift
    rw [erasedPath, if_pos (by simpa using hshift)] at htouch
    exact htouch (touches_root hr)
  rw [erasedPath, if_neg (by simp [hshift])] at htouch
  have hroot : path ≠ "$" := by
    rintro rfl
    exact htouch (touches_root hr)
  obtain ⟨parent, relative, hregion, hne⟩ := not_touches_iff.mp htouch
  obtain ⟨q, hparse, hq⟩ := isRegion_of_region hregion
  have hnil : q ++ relative ≠ [] := fun hnil ↦ hroot (parseJsonPath_root (hnil ▸ hparse))
  have hapart : Json.Apart (q ++ relative) p :=
    (hq.apart hr (Ne.symm hne)).append_left relative
  have hindex : ∀ t i, q ++ relative ≠ t ++ [.index i] := by
    intro t i heq
    rw [shiftsArray, hparse] at hshift
    simp [heq] at hshift
  rw [eraseCommand, if_neg hroot, Platform.jsonDel, Platform.pathSelect, hparse] at h
  simp only [Option.map_some, Option.some.injEq] at h
  rw [if_neg (by simpa using Ne.symm hnil)] at h
  obtain ⟨-, rfl⟩ := Prod.mk.inj h
  exact ⟨_, rfl, (Json.find_prune_of_apart hindex hapart j).trans hu⟩

/-- The replies of an erase report no error. -/
theorem eraseCommand_reply {path : String} {v : Option RedisValue} {reply : String}
    {result : Option RedisValue} (h : eraseCommand platform path v = some (reply, result)) :
    error (some reply) = false := by
  have hreply : reply = "0" ∨ reply = "1" := by
    unfold eraseCommand at h
    split_ifs at h with hroot
    · cases v with
      | none => exact Or.inl (Prod.mk.inj (Option.some.inj h)).1.symm
      | some v => exact Or.inr (Prod.mk.inj (Option.some.inj h)).1.symm
    · cases v with
      | none => exact Or.inl (Prod.mk.inj (Option.some.inj h)).1.symm
      | some v =>
        cases v with
        | text content => simp [Platform.jsonDel] at h
        | json j =>
          obtain ⟨select, -, h⟩ := Option.map_eq_some_iff.mp h
          split_ifs at h <;> exact Or.inr (Prod.mk.inj h).1.symm
  rcases hreply with rfl | rfl <;> decide

/-- The part of an erase after its flushes. -/
theorem erase_change {s : MemoryState} (hs : Sound options s) {key path : String}
    (hlost : net.own = .lost →
      ∀ r, (s.cache.view (key, r)).isSome → ¬Touches options (erasedPath path) r) :
    let a := s.redis.execute key (eraseCommand platform path) net.own
    Change options key s (if error a.1 then { s with redis := a.2 }
      else ⟨a.2, invalidate options s.cache key (erasedPath path)⟩) := by
  obtain ⟨hvalid, hbounds, hview, htouched, -⟩ := invalidate_spec hs.valid key (erasedPath path)
  simp only
  split_ifs with herror
  · refine change_of_execute hs.valid rfl (fun _ _ ↦ id) (fun _ _ _ ↦ rfl) ?_
    intro r e p j u reply result he hr hj hu hcommand hsent
    refine eraseCommand_keeps platform hcommand hr ?_ hu
    rcases hsent with hsent | hsent
    · exact hlost hsent r (by rw [he]; rfl)
    · rw [hsent, eraseCommand_reply platform hcommand] at herror
      simp at herror
  · refine change_of_execute hvalid hbounds (fun _ _ h ↦ invalidate_sub hs.valid h)
      (fun k hk r ↦ hview k hk r) ?_
    intro r e p j u reply result he hr hj hu hcommand _
    refine eraseCommand_keeps platform hcommand hr (fun ht ↦ ?_) hu
    rw [htouched r ht] at he
    simp at he

theorem erase_sound {s : MemoryState} (hs : Sound options s) {key path : String}
    (hlost : net.own = .lost →
      ∀ r, (s.cache.view (key, r)).isSome → ¬Touches options (erasedPath path) r) :
    Sound options (erase platform options net key path s).2 ∧
      (Coherent options s → Coherent options (erase platform options net key path s).2) := by
  obtain ⟨hcalm, hnone⟩ := flushForErase_calm platform net hs key path
  have hlost' : net.own = .lost → ∀ r,
      ((flushForErase platform options net key path s).2.cache.view (key, r)).isSome →
        ¬Touches options (erasedPath path) r := by
    intro h r hr
    refine hlost h r ?_
    by_contra hn
    rw [Bool.not_eq_true, Option.isSome_eq_false_iff, Option.isNone_iff_eq_none] at hn
    rw [hnone _ hn] at hr
    simp at hr
  unfold erase
  rcases hf : flushForErase platform options net key path s with ⟨_ | _, s'⟩ <;>
    rw [hf] at hcalm hlost'
  · exact ⟨hcalm.sound, hcalm.coherent⟩
  · have hchange := erase_change platform net hcalm.sound hlost'
    simp only at hchange ⊢
    split_ifs at hchange ⊢ with herror <;>
      exact ⟨hchange.sound hcalm.sound, fun hc ↦
        hchange.coherent hcalm.sound (hcalm.coherent hc)⟩

/-! ### Atomic commands -/

/-- The value at a location of a document under a key. -/
def valueAt (q : List Segment) : Option RedisValue → Option Json
  | some (.json j) => j.find q
  | _ => none

/-- A command changes nothing outside the paths it is announced with. A path that the parser
refuses may stand for any part of the document. -/
def Respects (command : Command) (paths : List String) : Prop :=
  (∀ path ∈ paths, (parseJsonPath path).isSome) →
    ∀ v reply v', command v = some (reply, v') → ∀ q,
      (∀ path ∈ paths, ∀ p, parseJsonPath path = some p → Json.Apart p q) →
        valueAt q v' = valueAt q v

theorem invalidateAll_spec (key : String) (paths : List String) {cache : CacheManager}
    (hm : cache.Valid) :
    (invalidateAll options key paths cache).Valid ∧
      (invalidateAll options key paths cache).bounds = cache.bounds ∧
      (∀ k, k ≠ key → ∀ r,
        (invalidateAll options key paths cache).view (k, r) = cache.view (k, r)) ∧
      (∀ i e, (invalidateAll options key paths cache).view i = some e → cache.view i = some e) ∧
      (∀ r e, (invalidateAll options key paths cache).view (key, r) = some e →
        ∀ path ∈ paths, ¬Touches options path r) := by
  induction paths generalizing cache with
  | nil => exact ⟨hm, rfl, fun _ _ _ ↦ rfl, fun _ _ ↦ id, fun _ _ _ _ h ↦ by simp at h⟩
  | cons path paths ih =>
    obtain ⟨hvalid, hbounds, hother, htouched, -⟩ := invalidate_spec hm key path
    obtain ⟨hvalid', hbounds', hother', hsub', htouched'⟩ := ih hvalid
    refine ⟨hvalid', hbounds'.trans hbounds, fun k hk r ↦ (hother' k hk r).trans (hother k hk r),
      fun i e h ↦ invalidate_sub hm (hsub' i e h), fun r e h path' hpath ↦ ?_⟩
    rcases List.mem_cons.mp hpath with rfl | hpath
    · intro ht
      have hnone := hsub' _ e h
      rw [htouched r ht] at hnone
      simp at hnone
    · exact htouched' r e h path' hpath

/-- The part of an atomic operation after its flush. -/
theorem executeAtomic_change {s : MemoryState} (hs : Sound options s) (key : String)
    {command : Command} {paths : List String} (hc : Respects command paths) :
    Change options key s ⟨(s.redis.execute key command net.own).2,
      invalidateAll options key paths s.cache⟩ := by
  obtain ⟨hvalid, hbounds, hother, hsub, htouched⟩ := invalidateAll_spec key
    paths hs.valid
  refine change_of_execute hvalid hbounds hsub hother ?_
  intro r e p j u reply result he hr hj hu hcommand _
  have hregions : ∀ path ∈ paths, ∃ parent relative,
      region options path = some (parent, relative) ∧ r ≠ parent := fun path hpath ↦
    not_touches_iff.mp (htouched r e he path hpath)
  have hparsed : ∀ path ∈ paths, (parseJsonPath path).isSome := by
    intro path hpath
    obtain ⟨parent, relative, hregion, -⟩ := hregions path hpath
    obtain ⟨q, hparse, -⟩ := isRegion_of_region hregion
    rw [hparse]
    rfl
  have hvalue := hc hparsed _ _ _ hcommand p (by
    intro path hpath q' hq'
    obtain ⟨parent, relative, hregion, hne⟩ := hregions path hpath
    obtain ⟨q, hparse, hq⟩ := isRegion_of_region hregion
    obtain rfl : q ++ relative = q' := Option.some.inj (hparse.symm.trans hq')
    exact (hq.apart hr (Ne.symm hne)).append_left relative)
  rw [valueAt, hu] at hvalue
  cases result with
  | none => simp [valueAt] at hvalue
  | some v =>
    cases v with
    | text content => simp [valueAt] at hvalue
    | json j' => exact ⟨j', rfl, hvalue⟩

theorem executeAtomic_sound {s : MemoryState} (hs : Sound options s) (key : String)
    {command : Command} {paths : List String} (hc : Respects command paths) :
    Sound options (executeAtomic platform options net key command paths s).2 ∧
      (Coherent options s →
        Coherent options (executeAtomic platform options net key command paths s).2) := by
  have hcalm := (flush_spec platform net hs key).1
  unfold executeAtomic
  rcases hf : flush platform options net key s with ⟨_ | _, s'⟩ <;> rw [hf] at hcalm
  · exact ⟨hcalm.sound, hcalm.coherent⟩
  · have hchange := executeAtomic_change net hcalm.sound key hc
    exact ⟨hchange.sound hcalm.sound, fun h ↦
      hchange.coherent hcalm.sound (hcalm.coherent h)⟩

/-! ### Erasing keys by pattern -/

/-- Deleting keys that are not cached, or whose documents the cache forgets, one after the other. -/
theorem deleteKeys_sound {s : MemoryState} (hs : Sound options s) (keys : List String) :
    (Sound options ⟨deleteKeys keys s.redis, keys.foldl CacheManager.removeDocument s.cache⟩ ∧
      (Coherent options s → Coherent options
        ⟨deleteKeys keys s.redis, keys.foldl CacheManager.removeDocument s.cache⟩)) ∧
      ((∀ key ∈ keys, ∀ r, s.cache.view (key, r) = none) →
        Sound options { s with redis := deleteKeys keys s.redis } ∧
        (Coherent options s → Coherent options { s with redis := deleteKeys keys s.redis })) := by
  induction keys generalizing s with
  | nil => exact ⟨⟨hs, id⟩, fun _ ↦ ⟨hs, id⟩⟩
  | cons key keys ih =>
    have hlookup : ∀ {k}, k ≠ key → (Assoc.erase key s.redis).lookup k = s.redis.lookup k :=
      fun hk ↦ Assoc.lookup_erase_of_ne (Ne.symm hk) _
    have hforget : Change options key s
        ⟨Assoc.erase key s.redis, s.cache.removeDocument key⟩ := {
      valid := hs.valid.removeDocument key
      bounds := CacheManager.bounds_removeDocument ..
      sub := fun {i e} h ↦ by
        simp only [CacheManager.view_removeDocument, View.setPart] at h
        split at h
        · simp at h
        · exact h
      view_other := fun hk r ↦ by
        simp only [CacheManager.view_removeDocument, View.setPart, if_neg hk]
      lookup_other := hlookup
      keep := fun {r e p j u} h ↦ by
        simp [CacheManager.view_removeDocument, View.setPart] at h }
    refine ⟨?_, fun hnone ↦ ?_⟩
    · obtain ⟨⟨hsound, hcoherent⟩, -⟩ := ih (hforget.sound hs)
      exact ⟨hsound, fun hc ↦ hcoherent (hforget.coherent hs hc)⟩
    · have hkeep : Change options key s { s with redis := Assoc.erase key s.redis } := {
        valid := hs.valid
        bounds := rfl
        sub := id
        view_other := fun _ _ ↦ rfl
        lookup_other := hlookup
        keep := fun {r e p j u} h ↦ by
          simp only [hnone key List.mem_cons_self r] at h
          simp at h }
      obtain ⟨-, h⟩ := ih (hkeep.sound hs)
      obtain ⟨hsound, hcoherent⟩ := h fun k hk r ↦ hnone k (List.mem_cons_of_mem _ hk) r
      exact ⟨hsound, fun hc ↦ hcoherent (hkeep.coherent hs hc)⟩

/-- The keys that a `KEYS` reply makes the memory delete. -/
def matchedKeys (platform : Platform) (redis : Redis) (pattern : String) : List String :=
  words (replyText ((redis.map Prod.fst).filter (platform.glob pattern)))

theorem erasePattern_sound {s : MemoryState} (hs : Sound options s) {pattern : String}
    (hlost : net.own = .lost → ∀ key ∈ matchedKeys platform s.redis pattern, ∀ r,
      s.cache.view (key, r) = none) :
    Sound options (erasePattern platform net pattern s).2 ∧
      (Coherent options s → Coherent options (erasePattern platform net pattern s).2) := by
  unfold erasePattern
  simp only
  split_ifs
  · exact ⟨hs, id⟩
  · exact ⟨hs, id⟩
  · obtain ⟨hforget, hkeep⟩ := deleteKeys_sound hs (matchedKeys platform s.redis pattern)
    cases hown : net.own with
    | rejected => exact ⟨hs, id⟩
    | lost => exact hkeep (hlost hown)
    | answered => exact hforget

/-! ## Runs -/

/-- An operation of a client. -/
inductive Operation where
  | read (key path : String)
  | readDocument (key : String)
  | write (key : String) (value : Json) (path : String)
  | flush (key : String)
  | erase (key path : String)
  | executeAtomic (key : String) (command : Command) (changedPaths : List String)
  | erasePattern (pattern : String)

section Run

variable (options : Options)

/-- The state after an operation. -/
def Operation.run (net : Outcomes) (s : MemoryState) : Operation → MemoryState
  | read key path => (MemoryClass.read platform options net key path s).2
  | readDocument key => (MemoryClass.readDocument platform options net key s).2
  | write key value path => (MemoryClass.write platform options net key value path s).2
  | flush key => (MemoryClass.flush platform options net key s).2
  | erase key path => (MemoryClass.erase platform options net key path s).2
  | executeAtomic key command paths =>
    (MemoryClass.executeAtomic platform options net key command paths s).2
  | erasePattern pattern => (MemoryClass.erasePattern platform net pattern s).2

/-- The state of `createState(options)` in front of some Redis. -/
def initial (redis : Redis) : MemoryState :=
  ⟨redis, .create options.maximumDocuments options.entriesPerDocument options.maximumEntryBytes⟩

/-- The state after a sequence of operations, each with what becomes of its commands. -/
def runAll (s : MemoryState) (steps : List (Operation × Outcomes)) : MemoryState :=
  steps.foldl (fun s step ↦ step.1.run platform options step.2 s) s

end Run

theorem sound_initial (redis : Redis) : Sound options (initial options redis) where
  valid := CacheManager.valid_create ..
  bounds := rfl
  anchored := fun key r e he ↦ by simp [initial] at he

/-- No reply is lost: a command succeeds or has no effect. -/
structure Lossless (net : Outcomes) : Prop where
  writeBack : ∀ key r, net.writeBack key r ≠ .lost
  own : net.own ≠ .lost

theorem lossless_fine : Lossless .fine := ⟨by simp [Outcomes.fine], by simp [Outcomes.fine]⟩

/-- A command given to `executeAtomic` changes nothing outside the paths it is announced with. -/
def Operation.Respectful : Operation → Prop
  | executeAtomic _ command paths => Respects command paths
  | _ => True

/-- The states that operations reach whose commands succeed or have no effect. -/
inductive Reachable (platform : Platform) (options : Options) : MemoryState → Prop
  | initial (redis : Redis) : Reachable platform options (initial options redis)
  | step {s : MemoryState} (h : Reachable platform options s) {net : Outcomes}
      (hnet : Lossless net) {operation : Operation} (ho : operation.Respectful) :
      Reachable platform options (operation.run platform options net s)

theorem Lossless.sound {net : Outcomes} (hnet : Lossless net) {operation : Operation}
    (ho : operation.Respectful) {s : MemoryState} (hs : Sound options s) :
    Sound options (operation.run platform options net s) := by
  cases operation with
  | read key path => exact (read_calm platform net hs key path).sound
  | readDocument key => exact (readDocument_calm platform net hs key).sound
  | write key value path =>
    exact (write_sound platform net hs ⟨fun h ↦ absurd h hnet.own,
      fun parent _ _ _ _ _ _ _ _ ↦ hnet.writeBack key parent⟩).1
  | flush key => exact (flush_spec platform net hs key).1.sound
  | erase key path => exact (erase_sound platform net hs fun h ↦ absurd h hnet.own).1
  | executeAtomic key command paths => exact (executeAtomic_sound platform net hs key ho).1
  | erasePattern pattern => exact (erasePattern_sound platform net hs fun h ↦ absurd h hnet.own).1

theorem Reachable.sound {s : MemoryState} (h : Reachable platform options s) :
    Sound options s := by
  induction h with
  | initial redis => exact sound_initial redis
  | step _ hnet ho ih => exact hnet.sound platform ho ih

theorem Reachable.runAll {s : MemoryState} (h : Reachable platform options s)
    {steps : List (Operation × Outcomes)}
    (hsteps : ∀ step ∈ steps, Lossless step.2 ∧ step.1.Respectful) :
    Reachable platform options (MemoryClass.runAll platform options s steps) := by
  induction steps generalizing s with
  | nil => exact h
  | cons step steps ih =>
    obtain ⟨hnet, ho⟩ := hsteps step List.mem_cons_self
    exact ih (h.step hnet ho) fun step' hstep' ↦ hsteps step' (List.mem_cons_of_mem _ hstep')

end MemoryClass

end Agora
