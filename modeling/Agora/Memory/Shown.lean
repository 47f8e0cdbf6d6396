import Agora.Memory.Patterns
import Agora.Memory.Reading

/-!
# What a key shows

A key *shows* a document when that is what every flush that succeeds leaves in Redis, what a read
of the whole returns, and where every read of a path finds its values (`Shows`).

**Main results.** `shows_iff`: it is the document in Redis under the dirty regions, provided that
the clean regions agree with Redis. `Reachable.exists_shows`: in every reachable state every
document shows something, if a merge puts back what was taken out of a region (`Recovers`), as it
does where no field is remote and for the remote fields of a canvas.
-/

namespace Agora

namespace MemoryClass

open WriteBack

variable {platform : Platform} {options : Options} {net : Outcomes} {s : MemoryState}
  {key path : String}

/-- What every flush that succeeds leaves in Redis, a read of the whole document returns, and a
read of any path finds its values in. -/
structure Shows (platform : Platform) (options : Options) (s : MemoryState) (key : String)
    (x : Option Json) : Prop where
  flushed : ∀ net, (flush platform options net key s).1 = true →
    (flush platform options net key s).2.redis.lookup key = x.map .json
  whole : ∀ net d, (document options net key s).1 = some d → x = some d
  read : ∀ net path values, (read platform options net key path s).1 = some values →
    ∃ expected, x.bind (platform.pathMatches path) = some expected ∧
      List.Forall₂ Json.Same values expected

/-! ## Flushes that succeed -/

/-- A write back whose commands are answered succeeds. -/
theorem writeBack_answered (hcurrent : ∀ key r, net.current key r = true)
    (hanswered : ∀ key r, net.writeBack key r = .answered) {r : String} {v : Json} {j u : Json}
    {p : List Segment} {redis : Redis} (hr : IsRegion options r p)
    (hj : redis.lookup key = some (.json j)) (hu : j.find p = some u) :
    (writeBack platform options net key r v redis).1 = true := by
  have hmerged : (if remote options v = [] then some v
      else (raw platform redis key r (net.current key r)).map (merge options v))
        = some (merge options v u) := by
    split_ifs with hremote
    · rw [merge_of_remote_nil hremote]
    · rw [raw_region hr hj hu, hcurrent]
      rfl
  obtain ⟨j', hset⟩ := Option.isSome_iff_exists.mp
    (Json.set_isSome_of_find (show (j.find p).isSome by rw [hu]; rfl) (merge options v u))
  rw [writeBack, hmerged]
  simp [Redis.execute, hanswered, hj, Platform.jsonSet, Platform.pathAssign, hr.parse, hset]

/-- A flush whose commands are answered succeeds. -/
theorem flush_answered (hs : Sound options s) (hcurrent : ∀ key r, net.current key r = true)
    (hanswered : ∀ key r, net.writeBack key r = .answered) (key : String) :
    (flush platform options net key s).1 = true := by
  by_contra hfail
  rw [Bool.not_eq_true] at hfail
  obtain ⟨⟨V, redis⟩, hq, ⟨k, r⟩, v, hv, hunsaved⟩ :=
    CacheManager.flush_stuck net.order (writeBack platform options net) hs.valid key hfail
  obtain ⟨p, j, u, hr, hj, hu⟩ := quiet_anchored hq hs.anchored k r _ hv
  rw [CacheManager.locationWriter, writeBack_answered hcurrent hanswered hr hj hu] at hunsaved
  simp at hunsaved

/-- Every key stands for something. -/
theorem exists_means (hs : Sound options s) (key : String) : ∃ x, Means options s key x := by
  rcases hj : s.redis.lookup key with _ | j | content
  · exact ⟨none, Meaning.absent hj⟩
  · obtain ⟨-, -, -, hnodup, hmem⟩ :=
      CacheManager.dirtyRegions_spec Outcomes.fine.order hs.valid key
    have hlisted : Listed s.cache.view key (s.cache.dirtyRegions Outcomes.fine.order key).1 :=
      ⟨hnodup, hmem⟩
    obtain ⟨d, hd⟩ := Option.isSome_iff_exists.mp
      (overlay_isSome hnodup (hlisted.present hs.anchored hj))
    exact ⟨some d, Meaning.document hj ⟨_, hlisted, hd⟩⟩
  · exact ⟨content, Meaning.text hj⟩

/-- After a flush that succeeded, Redis holds the document itself. -/
theorem lookup_flush (hs : Sound options s)
    (htext : ∀ content, s.redis.lookup key ≠ some (.text content)) {x : Option Json}
    (hx : Means options s key x) (hb : (flush platform options net key s).1 = true) :
    (flush platform options net key s).2.redis.lookup key = x.map .json := by
  obtain ⟨hcalm, -, hclean⟩ := flush_spec platform net hs key
  have hx' := hcalm.meaning hx
  cases hx' with
  | absent h => rw [h]; rfl
  | text h => exact absurd (hcalm.texts _ _ h) (htext _)
  | document h ho => rw [h, ho.of_clean (hclean hb)]; rfl

/-! ## What is shown -/

/-- The name of a region is a path to it. -/
theorem region_of_isRegion {r : String} {p : List Segment} (hr : IsRegion options r p) :
    region options r = some (r, []) := by
  rw [region, hr.parse]
  simp only
  rw [if_neg (by rw [hr.length]; exact lt_irrefl _), ← hr.length, List.take_length,
    List.drop_length, ← hr.name]

/-- A read of a cached region returns its value, with the remote fields taken from Redis. -/
theorem read_cached (hs : Sound options s) {r : String} {p : List Segment}
    (hr : IsRegion options r p) {e : Entry Json} (he : s.cache.view (key, r) = some e) {j u : Json}
    (hj : s.redis.lookup key = some (.json j)) (hu : j.find p = some u) :
    (read platform options .fine key r s).1 = some [merge options e.value u] := by
  obtain ⟨hvalue, -, hredis⟩ := CacheManager.lookup_of_view Outcomes.fine.order
    Outcomes.fine.tryLock (writeBack platform options .fine) hs.valid he s.redis
  rw [read, region_of_isRegion hr]
  simp only
  generalize s.cache.lookup Outcomes.fine.order Outcomes.fine.tryLock
    (writeBack platform options .fine) key r s.redis = a at hvalue hredis ⊢
  obtain ⟨⟨value, admitOnMiss⟩, cache, redis⟩ := a
  obtain rfl : value = some e.value := hvalue
  obtain rfl : redis = s.redis := hredis
  simp only
  split_ifs with hexcluded
  · rw [raw_region hr hj hu]
    rfl
  · have hfind := find_of_not_excluded (by simpa using hexcluded) u
    rw [Json.find_nil, Json.find_nil] at hfind
    rw [← Option.some.inj hfind]
    rfl

/-- **What a key shows is the document in Redis under the dirty regions**, if the clean regions
agree with Redis. -/
theorem shows_iff (hs : Sound options s)
    (htext : ∀ content, s.redis.lookup key ≠ some (.text content)) {x : Option Json} :
    Shows platform options s key x ↔
      Means options s key x ∧ Current Json.Same options s.cache.view s.redis key := by
  refine ⟨fun h ↦ ?_, fun ⟨hx, hc⟩ ↦ ⟨fun net hb ↦ lookup_flush hs htext hx hb,
    fun net d hd ↦ Meaning.unique hs.anchored hx ((document_spec net hs key).2 d hd),
    fun net path values hread ↦ read_shows likeness_same hs hx hc hread⟩⟩
  have hx : Means options s key x := by
    obtain ⟨y, hy⟩ := exists_means hs key
    have hb := @flush_answered platform options .fine s hs (fun _ _ ↦ rfl) (fun _ _ ↦ rfl) key
    have heq := (h.flushed .fine hb).symm.trans (lookup_flush hs htext hy hb)
    rw [Option.map_injective (fun a b h ↦ RedisValue.json.inj h) heq]
    exact hy
  refine ⟨hx, fun r v p j u hv hr hj hu ↦ ?_⟩
  -- reading the region shows what it holds
  obtain ⟨expected, hexpected, hsame⟩ := h.read .fine r _ (read_cached hs hr hv hj hu)
  have hclean : ¬s.cache.view.Dirty (key, r) := by
    rintro ⟨w, hw⟩
    simp [hv] at hw
  rw [pathMatches_of_not_dirty hs hx (by rw [hr.parse, List.append_nil]) hr hclean hj,
    List.append_nil, hu] at hexpected
  obtain rfl := Option.some.inj hexpected
  cases hsame with
  | cons h _ => exact h

/-! ## Every document shows something -/

/-- A merge puts back what was taken out of a region to cache it. -/
def Recovers (options : Options) : Prop :=
  ∀ u, Json.Same (merge options (project options u) u) u

theorem recovers_of_none (h : options.remoteFields = none) : Recovers options := fun u ↦ by
  rw [merge_of_none h, project_of_none h]
  exact Json.Same.refl u

section Steps

variable {R : Json → Json → Prop} {k : String}

theorem document_current (hs : Sound options s) (hc : Current R options s.cache.view s.redis k) :
    Current R options (document options net key s).2.cache.view
      (document options net key s).2.redis k := by
  unfold document
  cases fetch net s.redis key with
  | none => exact hc
  | some value =>
    obtain ⟨-, -, hview, -⟩ := CacheManager.dirtyRegions_spec net.order hs.valid key
    simp only [hview]
    exact hc

theorem flush_current (hR : Likeness R) (hs : Sound options s)
    (hc : Current R options s.cache.view s.redis k) :
    Current R options (flush platform options net key s).2.cache.view
      (flush platform options net key s).2.redis k := by
  obtain ⟨-, -, hquiet, -⟩ := CacheManager.flush_spec net.order
    (writeBack platform options net) hs.valid key s.redis
  exact quiet_current hR hquiet hs.anchored hc

theorem writeFlushed_current (hR : Likeness R) (hnet : Lossless net) (hs : Sound options s)
    (hc : Current R options s.cache.view s.redis k) (value : Json) :
    Current R options (writeFlushed platform options net key value path s).2.cache.view
      (writeFlushed platform options net key value path s).2.redis k := by
  have hsound := (flush_spec platform net hs key).1.sound
  have hc' := @flush_current platform options net s key R k hR hs hc
  unfold writeFlushed
  rcases hf : flush platform options net key s with ⟨_ | _, s'⟩ <;> rw [hf] at hsound hc'
  · exact hc'
  · exact (writeThrough_change platform net hsound (fun h ↦ absurd h hnet.own) value).current
      hsound hc'

/-- An update leaves the region dirty, or out of the cache, or as it was. -/
theorem update_current (hnet : Lossless net) (hs : Sound options s) {r : String} {e : Entry Json}
    (he : s.cache.view (key, r) = some e) (v : Json)
    (hc : Current R options s.cache.view s.redis k) :
    let a := s.cache.update platform.dumpSize (writeBack platform options net) key r v s.redis
    Current R options a.2.1.view a.2.2 k := by
  obtain ⟨-, -, hupdate⟩ := CacheManager.update_spec platform.dumpSize
    (writeBack platform options net) hs.valid
    (show (s.cache.view (key, r)).isSome by rw [he]; rfl) v s.redis
  simp only at hupdate ⊢
  generalize s.cache.update platform.dumpSize (writeBack platform options net) key r v s.redis = a
    at hupdate ⊢
  obtain ⟨b, cache, redis⟩ := a
  simp only at hupdate ⊢
  have hself : marked s.cache.view key r v (key, r) = some ⟨v, true⟩ := Function.update_self ..
  have hmark := marked_anchored hs.anchored he v
  have hmarked : Current R options (marked s.cache.view key r v) s.redis k := by
    intro r' w p j u hw
    refine hc r' w p j u ?_
    by_cases hi : (k, r') = (key, r)
    · rw [hi, hself] at hw
      simp at hw
    · exact (Function.update_of_ne hi ..).symm.trans hw
  generalize hview : cache.view = V' at hupdate
  cases hupdate with
  | kept => exact hmarked
  | through hk hw =>
    intro r' w p j u hw'
    refine current_writeBack hmarked hmark hself hw r' w p j u ?_
    by_cases hi : (k, r') = (key, r)
    · rw [hi, Function.update_self] at hw'
      simp at hw'
    · exact (Function.update_of_ne hi ..).trans ((Function.update_of_ne hi ..).symm.trans hw')
  | failed hk hw =>
    obtain ⟨p, j, u, -, -, -, ⟨-, rfl⟩ | ⟨j', -, -, hlost⟩⟩ := writeBack_outcome hmark hself hw
    · exact hc
    · exact absurd (hlost rfl) (hnet.writeBack key r)

theorem write_current (hR : Likeness R) (hnet : Lossless net) (hs : Sound options s)
    (hc : Current R options s.cache.view s.redis k) (value : Json) :
    Current R options (write platform options net key value path s).2.cache.view
      (write platform options net key value path s).2.redis k := by
  unfold write
  cases hregion : region options path with
  | none => exact writeFlushed_current hR hnet hs hc value
  | some pr =>
    obtain ⟨parent, relative⟩ := pr
    obtain ⟨hvalid, hbounds, hview, hvalue⟩ := CacheManager.get_spec hs.valid key parent
    have hget := calm_of_view hs hvalid hbounds hview
    have hc' : Current R options (s.cache.get key parent).2.view s.redis k := by
      rw [hview]
      exact hc
    simp only
    generalize s.cache.get key parent = a at hview hvalue hget hc' ⊢
    obtain ⟨cached, cache⟩ := a
    simp only at hview hvalue hget hc' ⊢
    cases cached with
    | none =>
      exact (writeThrough_change platform net hget.sound (fun h ↦ absurd h hnet.own) value).current
        hget.sound hc'
    | some c =>
      simp only
      obtain ⟨e, he, rfl⟩ := Option.map_eq_some_iff.mp hvalue.symm
      split_ifs
      · cases setJsonPathValue e.value relative value with
        | none => exact hc'
        | some updated =>
          exact update_current hnet hget.sound
            (show cache.view (key, parent) = some e by rw [hview]; exact he) _ hc'
      · exact writeFlushed_current hR hnet hget.sound hc' value

theorem flushForErase_current (hR : Likeness R) (hs : Sound options s)
    (hc : Current R options s.cache.view s.redis k) :
    Current R options (flushForErase platform options net key path s).2.cache.view
      (flushForErase platform options net key path s).2.redis k := by
  have hflush : ∀ {s : MemoryState}, Sound options s →
      Current R options s.cache.view s.redis k → ∀ c : Prop, ∀ _ : Decidable c,
        Current R options (if c then flush platform options net key s else (true, s)).2.cache.view
          (if c then flush platform options net key s else (true, s)).2.redis k ∧
        Sound options (if c then flush platform options net key s else (true, s)).2 := by
    intro s hs hc c _
    split_ifs
    · exact ⟨flush_current hR hs hc, (flush_spec platform net hs key).1.sound⟩
    · exact ⟨hc, hs⟩
  unfold flushForErase
  obtain ⟨hc', hs'⟩ := hflush hs hc (path ≠ "$" ∧ insideRegion options path) inferInstance
  generalize (if path ≠ "$" ∧ insideRegion options path then flush platform options net key s
    else (true, s)) = a at hc' hs' ⊢
  obtain ⟨_ | _, s'⟩ := a
  · exact hc'
  · exact (hflush hs' hc' (shiftsArray path) inferInstance).1

theorem erase_current (hR : Likeness R) (hown : net.own ≠ .lost) (hs : Sound options s)
    (hc : Current R options s.cache.view s.redis k) :
    Current R options (erase platform options net key path s).2.cache.view
      (erase platform options net key path s).2.redis k := by
  have hsound := (flushForErase_calm platform net hs key path).1.sound
  have hc' := @flushForErase_current platform options net s key path R k hR hs hc
  unfold erase
  rcases hf : flushForErase platform options net key path s with ⟨_ | _, s'⟩ <;>
    rw [hf] at hsound hc'
  · exact hc'
  · have hchange := @erase_change platform options net s' hsound key path fun h ↦ absurd h hown
    simp only at hchange ⊢
    split_ifs at hchange ⊢ <;> exact hchange.current hsound hc'

theorem executeAtomic_current (hR : Likeness R) (hs : Sound options s) {command : Command}
    {paths : List String} (ho : Respects command paths)
    (hc : Current R options s.cache.view s.redis k) :
    Current R options (executeAtomic platform options net key command paths s).2.cache.view
      (executeAtomic platform options net key command paths s).2.redis k := by
  have hsound := (flush_spec platform net hs key).1.sound
  have hc' := @flush_current platform options net s key R k hR hs hc
  unfold executeAtomic
  rcases hf : flush platform options net key s with ⟨_ | _, s'⟩ <;> rw [hf] at hsound hc'
  · exact hc'
  · exact (executeAtomic_change net hsound key ho).current hsound hc'

theorem erasePattern_current (hown : net.own ≠ .lost) (pattern : String)
    (hc : Current R options s.cache.view s.redis k) :
    Current R options (erasePattern platform net pattern s).2.cache.view
      (erasePattern platform net pattern s).2.redis k := by
  unfold erasePattern
  simp only
  split_ifs
  · exact hc
  · exact hc
  · cases hfate : net.own with
    | rejected => exact hc
    | lost => exact absurd hfate hown
    | answered =>
      intro r v p j u hv hr hj
      simp only [view_removeDocuments] at hv
      simp only [lookup_deleteKeys] at hj
      split_ifs at hv hj
      exact hc r v p j u hv hr hj

end Steps

/-- A region is admitted with what Redis holds there, less what a merge puts back. -/
theorem read_current (hrec : Recovers options) (hs : Sound options s) {k : String}
    (hc : Current Json.Same options s.cache.view s.redis k) :
    Current Json.Same options (read platform options net key path s).2.cache.view
      (read platform options net key path s).2.redis k := by
  unfold read
  cases hregion : region options path with
  | none =>
    simp only
    cases parseJsonPath path with
    | some segments =>
      have h := @document_current options net s key Json.Same k hs hc
      rcases hd : document options net key s with ⟨_ | d, s'⟩ <;> rw [hd] at h <;> exact h
    | none =>
      have h := @flush_current platform options net s key Json.Same k likeness_same hs hc
      rcases hf : flush platform options net key s with ⟨_ | _, s'⟩ <;> rw [hf] at h <;> exact h
  | some pr =>
    obtain ⟨parent, relative⟩ := pr
    obtain ⟨p, -, hp⟩ := isRegion_of_region hregion
    have hsound := (lookup_calm platform net hs key parent).sound
    obtain ⟨-, -, hquiet, -, hnone⟩ := CacheManager.lookup_spec net.order net.tryLock
      (writeBack platform options net) hs.valid key parent s.redis
    have hc' := quiet_current likeness_same hquiet hs.anchored hc
    simp only
    -- the lookup may have written other regions back
    generalize s.cache.lookup net.order net.tryLock (writeBack platform options net) key parent
      s.redis = a at hsound hc' hnone ⊢
    obtain ⟨⟨value, admitOnMiss⟩, cache, redis⟩ := a
    simp only at hsound hc' hnone ⊢
    cases value with
    | some value =>
      simp only
      split_ifs
      · cases raw platform redis key parent net.raw <;> exact hc'
      · exact hc'
    | none =>
      simp only
      split_ifs
      · cases hraw : raw platform redis key parent net.raw with
        | none => exact hc'
        | some u =>
          obtain ⟨j, hj, hu⟩ := raw_eq_some platform hp hraw
          obtain ⟨-, -, V, hquiet', hview⟩ := CacheManager.admitRegion_spec platform.dumpSize
            net.order net.tryLock (writeBack platform options net) hsound.valid (hnone rfl)
            (project options u) redis
          have hV := quiet_current likeness_same hquiet' hsound.anchored hc'
          obtain ⟨j', hj', hu'⟩ :=
            quiet_place platform net hquiet' hsound.anchored hp (hnone rfl) hj hu
          simp only at hV hj' hview ⊢
          -- the region is refused, or it is admitted with what Redis shows of it
          rcases hview with hview | hview
          · rw [hview]
            exact hV
          · rw [hview]
            intro r v q j₁ u₁ hv hr hj₁ hu₁
            by_cases hi : (k, r) = (key, parent)
            · obtain ⟨rfl, rfl⟩ := Prod.mk.inj hi
              rw [Function.update_self] at hv
              obtain rfl : project options u = v := by simpa using hv
              obtain rfl := hr.unique hp
              obtain rfl : j₁ = j' := by simpa using hj₁.symm.trans hj'
              obtain rfl : u₁ = u := Option.some.inj (hu₁.symm.trans hu')
              exact hrec u₁
            · rw [Function.update_of_ne hi] at hv
              exact hV r v q j₁ u₁ hv hr hj₁ hu₁
      · exact hc'

/-- In every reachable state the clean regions agree with Redis. -/
theorem Reachable.current (hrec : Recovers options) (h : Reachable platform options s)
    (key : String) : Current Json.Same options s.cache.view s.redis key := by
  induction h with
  | initial redis =>
    intro r v p j u hv
    simp [MemoryClass.initial] at hv
  | @step s h net hnet operation ho ih =>
    have hs := h.sound
    cases operation with
    | read k path => exact read_current hrec hs ih
    | readDocument k =>
      simp only [Operation.run, readDocument]
      split_ifs
      · exact read_current hrec hs ih
      · exact document_current hs ih
    | write k value path => exact write_current likeness_same hnet hs ih value
    | flush k => exact flush_current likeness_same hs ih
    | erase k path => exact erase_current likeness_same hnet.own hs ih
    | executeAtomic k command paths => exact executeAtomic_current likeness_same hs ho ih
    | erasePattern pattern => exact erasePattern_current hnet.own pattern ih

/-- **Every document shows something**, in every reachable state. -/
theorem Reachable.exists_shows (hrec : Recovers options) (h : Reachable platform options s)
    (htext : ∀ content, s.redis.lookup key ≠ some (.text content)) :
    ∃ x, Shows platform options s key x := by
  obtain ⟨x, hx⟩ := exists_means h.sound key
  exact ⟨x, (shows_iff h.sound htext).mpr ⟨hx, h.current hrec key⟩⟩

end MemoryClass

end Agora
