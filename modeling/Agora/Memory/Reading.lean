import Agora.Json.Same
import Agora.Memory.Operations

/-!
# What reads return

A read of a region that is cached is answered from the cache, with the remote fields taken from
Redis; any other read goes to Redis. Either way the values are those of the document that the key
stands for (`read_shows`), as far as the clean regions of the cache are current (`Current`), that
is, agree with Redis.

How far they have to agree is a parameter: they may show the very values (`likeness_eq`), or the
same up to the order of fields (`likeness_same`). Saving and forgetting keeps clean regions current
whatever the options (`quiet_current`), since a region that was saved agrees with what was saved;
so does a change of the document that leaves cached regions where they are (`Change.current`).
-/

namespace Agora

namespace MemoryClass

open WriteBack

variable {platform : Platform} {options : Options} {net : Outcomes}

/-! ## What a key stands for, seen from a region -/

/-- A document without dirty regions is the one in Redis. -/
theorem Overlaid.refl {V : View (String × String) Json} {key : String} (j : Json)
    (hclean : ∀ r, ¬V.Dirty (key, r)) : Overlaid options V key j j := by
  refine ⟨[], ⟨List.nodup_nil, fun r v ↦ ?_⟩, rfl⟩
  simp only [List.not_mem_nil, false_iff]
  exact fun h ↦ hclean r ⟨v, h⟩

theorem Meaning.overlaid {V : View (String × String) Json} {redis : Redis} {key : String}
    {x : Option Json} {j : Json} (hx : Meaning options V redis key x)
    (hj : redis.lookup key = some (.json j)) : ∃ d, x = some d ∧ Overlaid options V key j d := by
  cases hx with
  | absent h => simp [h] at hj
  | text h => simp [h] at hj
  | @document j' d h ho =>
    obtain rfl : j' = j := by simpa using h.symm.trans hj
    exact ⟨d, rfl, ho⟩

/-- A region that is not dirty, and every place in it, is as Redis holds it. -/
theorem Overlaid.find_of_not_dirty {V : View (String × String) Json} {redis : Redis}
    {key r : String} {j d : Json} {p : List Segment} (h : Overlaid options V key j d)
    (ha : Anchored options V redis) (hj : redis.lookup key = some (.json j))
    (hr : IsRegion options r p) (hclean : ¬V.Dirty (key, r)) (relative : List Segment) :
    d.find (p ++ relative) = j.find (p ++ relative) := by
  refine h.find_of_apart ha hj fun r' p' hdirty hr' ↦ ?_
  refine (hr'.apart hr ?_).append_right relative
  rintro rfl
  exact hclean hdirty

/-! ## What a cached region shows -/

/-- What a write below a region does not reach when it stays in the cache. -/
theorem not_mem_of_excluded {c : Json} {k : String} {rest : List Segment}
    (h : excluded options c (.key k :: rest) = false) : k ∉ remote options c := by
  rcases hremote : remote options c with _ | ⟨field, fields⟩
  · exact List.not_mem_nil
  · simpa [excluded, hremote] using h

/-- Away from the remote fields, a cached value shows what it shows together with them. -/
theorem find_of_not_excluded {v : Json} {relative : List Segment}
    (h : excluded options v relative = false) (u : Json) :
    v.find relative = (merge options v u).find relative := by
  by_cases hremote : remote options v = []
  · rw [merge_of_remote_nil hremote]
  · obtain ⟨field, fields, hfields⟩ := List.exists_cons_of_ne_nil hremote
    rcases relative with _ | ⟨s, rest⟩
    · simp [excluded, hfields] at h
    · rw [Json.find_cons, Json.find_cons]
      refine congrArg (Option.bind · _) ?_
      rcases v with _ | _ | _ | _ | _ | _ | fs <;> rcases u with _ | _ | _ | _ | _ | _ | others
      all_goals try rfl
      -- both are objects
      cases s with
      | index i => rfl
      | key k =>
        rw [merge, Json.child, Json.child, lookup_mergeFields,
          if_neg fun hk ↦ not_mem_of_excluded h hk.2]

section Current

variable {R : Json → Json → Prop}

/-- A relation of values that looking a location up respects. -/
structure Likeness (R : Json → Json → Prop) : Prop where
  refl : ∀ a, R a a
  find : ∀ {a b}, R a b → ∀ p, Option.Rel R (a.find p) (b.find p)

theorem likeness_eq : Likeness Eq where
  refl := fun _ ↦ rfl
  find := by
    rintro a b rfl p
    cases a.find p with
    | none => exact Option.Rel.none
    | some c => exact Option.Rel.some rfl

theorem likeness_same : Likeness Json.Same where
  refl := Json.Same.refl
  find := Json.Same.find

/-- The clean regions of a document show, with the remote fields taken from Redis, what Redis
holds there. -/
def Current (R : Json → Json → Prop) (options : Options) (V : View (String × String) Json)
    (redis : Redis) (key : String) : Prop :=
  ∀ r v p j u, V (key, r) = some ⟨v, false⟩ → IsRegion options r p →
    redis.lookup key = some (.json j) → j.find p = some u → R (merge options v u) u

theorem current_of_fresh (h : options.remoteFields = none) {V : View (String × String) Json}
    {redis : Redis} (hf : Fresh options V redis) (key : String) :
    Current Eq options V redis key := by
  intro r v p j u hv hr hj hu
  obtain ⟨p', j', u', hr', hj', hu', rfl⟩ := hf key r v hv
  obtain rfl := hr.unique hr'
  obtain rfl : j = j' := by simpa using hj.symm.trans hj'
  rw [merge_of_none h, project_of_none h, Option.some.inj (hu.symm.trans hu')]

/-- A write back leaves the clean regions alone. -/
theorem current_writeBack {V : View (String × String) Json} {redis redis' : Redis}
    {key k r : String} {v : Json} {b : Bool} (hc : Current R options V redis key)
    (ha : Anchored options V redis) (hv : V (k, r) = some ⟨v, true⟩)
    (hw : writeBack platform options net k r v redis = (b, redis')) :
    Current R options V redis' key := by
  obtain ⟨p, j, u, hr, hj, hu, ⟨-, rfl⟩ | ⟨j', hset, rfl, -⟩⟩ := writeBack_outcome ha hv hw
  · exact hc
  · intro r' w q j₁ u₁ hw' hq hj₁ hu₁
    have hne : (key, r') ≠ (k, r) := by
      intro heq
      rw [heq, hv] at hw'
      simp at hw'
    obtain ⟨q', j₀, u₀, hq', hj₀, hu₀⟩ := ha key r' _ hw'
    obtain rfl := hq.unique hq'
    obtain ⟨j₂, hj₂, hu₂⟩ := find_put_region hr hq hj hset hne hj₀ hu₀
    obtain rfl : j₁ = j₂ := by simpa using hj₁.symm.trans hj₂
    obtain rfl : u₁ = u₀ := Option.some.inj (hu₁.symm.trans hu₂)
    exact hc r' w q j₀ u₁ hw' hq hj₀ hu₀

/-- A region that was saved shows what was saved. -/
theorem step_current {c c' : View (String × String) Json × Redis} {key : String}
    (hR : Likeness R) (hs : Step (backWriter platform options net) c c')
    (ha : Anchored options c.1 c.2) (hc : Current R options c.1 c.2 key) :
    Current R options c'.1 c'.2 key := by
  cases hs with
  | @drop V V' redis h =>
    intro r v p j u hv
    refine hc r v p j u ?_
    rcases h (key, r) with heq | ⟨hnone, -⟩
    · exact heq.symm.trans hv
    · exact absurd (hnone.symm.trans hv) (by simp)
  | @saved V redis redis' i v h hw =>
    have hc' := current_writeBack hc ha h hw
    intro r w p j u hw' hr hj hu
    by_cases hi : (key, r) = i
    · subst hi
      obtain rfl : v = w := by simpa using hw'
      obtain ⟨q, j₀, u₀, hq, -, -, ⟨hb, -⟩ | ⟨j', hset, rfl, -⟩⟩ := writeBack_outcome ha h hw
      · simp at hb
      · obtain rfl := hr.unique hq
        obtain rfl : j' = j := by simpa using hj
        obtain rfl : merge options v u₀ = u :=
          Option.some.inj ((Json.find_set_self hset).symm.trans hu)
        rw [merge_merge]
        exact hR.refl _
    · exact hc' r w p j u ((Function.update_of_ne hi _ _).symm.trans hw') hr hj hu
  | @unsaved V redis redis' i v h hw => exact current_writeBack hc ha h hw

theorem quiet_current {c c' : View (String × String) Json × Redis} {key : String}
    (hR : Likeness R) (h : Quiet (backWriter platform options net) c c')
    (ha : Anchored options c.1 c.2) (hc : Current R options c.1 c.2 key) :
    Current R options c'.1 c'.2 key :=
  (h.invariant (P := fun c ↦ Anchored options c.1 c.2 ∧ Current R options c.1 c.2 key)
    (fun hs hc ↦ ⟨step_anchored hs hc.1, step_current hR hs hc.1 hc.2⟩) ⟨ha, hc⟩).2

theorem Change.current {s s' : MemoryState} {key k : String} (h : Change options key s s')
    (hs : Sound options s) (hc : Current R options s.cache.view s.redis k) :
    Current R options s'.cache.view s'.redis k := by
  intro r v p j u hv hr hj hu
  obtain ⟨q, j₀, u₀, hq, hj₀, hu₀⟩ := hs.anchored k r _ (h.sub hv)
  obtain rfl := hr.unique hq
  obtain ⟨j₁, hj₁, hu₁⟩ := h.place hv hr hj₀ hu₀
  obtain rfl : j = j₁ := by simpa using hj.symm.trans hj₁
  obtain rfl : u = u₀ := Option.some.inj (hu.symm.trans hu₁)
  exact hc r v p j₀ u (h.sub hv) hr hj₀ hu₀

end Current

/-! ## Reading -/

theorem getPath_eq_some {redis : Redis} {key path : String} {answered : Bool} {values : List Json}
    (h : getPath platform redis key path answered = some values) :
    ∃ j, redis.lookup key = some (.json j) ∧ platform.pathMatches path j = some values := by
  unfold getPath at h
  split_ifs at h
  split at h
  · next j hj => exact ⟨j, hj, h⟩
  · simp at h

theorem pathMatches_of_parse {path : String} {segments : List Segment}
    (h : parseJsonPath path = some segments) (j : Json) :
    platform.pathMatches path j = some (j.find segments).toList := by
  rw [Platform.pathMatches, h]

variable {s : MemoryState} {key path : String} {values : List Json} {x : Option Json}

/-- A read of a shallow path, or of a path the parser refuses, is answered from the document, or
from Redis after a flush. -/
theorem read_outside (hs : Sound options s) (hx : Means options s key x)
    (hregion : region options path = none)
    (hread : (read platform options net key path s).1 = some values) :
    x.bind (platform.pathMatches path) = some values := by
  rw [read, hregion] at hread
  cases hparse : parseJsonPath path with
  | some segments =>
    obtain ⟨hcalm, hmeans⟩ := document_spec net hs key
    simp only [hparse] at hread
    rcases hd : document options net key s with ⟨_ | d, s'⟩ <;>
      rw [hd] at hread hmeans
    · simp at hread
    · have hd : x = some d := Meaning.unique hs.anchored hx (hmeans d rfl)
      rw [hd, Option.bind_some, pathMatches_of_parse hparse]
      simpa [result, findJsonPathValue] using hread
  | none =>
    obtain ⟨hcalm, -, hclean⟩ := flush_spec platform net hs key
    simp only [hparse] at hread
    rcases hf : flush platform options net key s with ⟨_ | _, s'⟩ <;>
      rw [hf] at hread hcalm hclean
    · simp at hread
    · obtain ⟨j, hj, hvalues⟩ := getPath_eq_some hread
      obtain ⟨d, rfl, ho⟩ := (hcalm.meaning hx).overlaid hj
      rw [Option.bind_some, ho.of_clean (hclean rfl), hvalues]

section Region

variable {parent : String} {relative p : List Segment} {R : Json → Json → Prop}

/-- A region that is not dirty shows what Redis holds. -/
theorem pathMatches_of_not_dirty (hs : Sound options s) (hx : Means options s key x)
    (hparse : parseJsonPath path = some (p ++ relative)) (hp : IsRegion options parent p)
    (hclean : ¬s.cache.view.Dirty (key, parent)) {j : Json}
    (hj : s.redis.lookup key = some (.json j)) :
    x.bind (platform.pathMatches path) = some (j.find (p ++ relative)).toList := by
  obtain ⟨d, rfl, ho⟩ := hx.overlaid hj
  rw [Option.bind_some, pathMatches_of_parse hparse,
    ho.find_of_not_dirty hs.anchored hj hp hclean]

/-- What a cached value shows with the remote fields of Redis is what the document shows. -/
theorem find_merge_cached (hR : Likeness R) (hs : Sound options s) (hx : Means options s key x)
    (hc : Current R options s.cache.view s.redis key) (hp : IsRegion options parent p)
    {v : Json} {b : Bool} (hv : s.cache.view (key, parent) = some ⟨v, b⟩) {j u : Json}
    (hj : s.redis.lookup key = some (.json j)) (hu : j.find p = some u) :
    ∃ d w, x = some d ∧ d.find p = some w ∧ R (merge options v u) w := by
  obtain ⟨d, rfl, ho⟩ := hx.overlaid hj
  cases b with
  | true => exact ⟨d, _, rfl, ho.find_of_dirty hs.anchored hj hp hv hu, hR.refl _⟩
  | false =>
    refine ⟨d, u, rfl, ?_, hc parent v p j u hv hp hj hu⟩
    have hfind := ho.find_of_not_dirty hs.anchored hj hp (fun ⟨w, hw⟩ ↦ by simp [hv] at hw) []
    rwa [List.append_nil, hu] at hfind

/-- A read of a path below a region. -/
theorem read_inside (hR : Likeness R) (hs : Sound options s) (hx : Means options s key x)
    (hc : Current R options s.cache.view s.redis key)
    (hregion : region options path = some (parent, relative))
    (hread : (read platform options net key path s).1 = some values) :
    ∃ expected, x.bind (platform.pathMatches path) = some expected ∧
      List.Forall₂ R values expected := by
  obtain ⟨p, hparse, hp⟩ := isRegion_of_region hregion
  obtain ⟨hvalid, hbounds, hquiet, hsome, hnone⟩ := CacheManager.lookup_spec net.order net.tryLock
    (writeBack platform options net) hs.valid key parent s.redis
  have hc' := quiet_current hR hquiet hs.anchored hc
  have hcalm := lookup_calm platform net hs key parent
  simp only [read, hregion] at hread
  generalize s.cache.lookup net.order net.tryLock (writeBack platform options net) key parent
    s.redis = a at hcalm hsome hnone hread hc'
  obtain ⟨⟨value, admitOnMiss⟩, cache, redis⟩ := a
  simp only at hcalm hsome hnone hread hc'
  have hs' := hcalm.sound
  have hx' := hcalm.meaning hx
  have hsame : ∀ values : List Json, List.Forall₂ R values values := fun values ↦
    List.forall₂_same.mpr fun a _ ↦ hR.refl a
  cases value with
  | some v =>
    -- the region is cached
    obtain ⟨b, hb⟩ := hsome v rfl
    obtain ⟨q, j, u, hq, hj, hu⟩ := hs'.anchored key parent _ hb
    obtain rfl := hp.unique hq
    obtain ⟨d, w, rfl, hw, hlike⟩ := find_merge_cached hR hs' hx' hc' hp hb hj hu
    have hvalues : values = ((merge options v u).find relative).toList := by
      simp only at hread
      by_cases hexcluded : excluded options v relative
      · rw [if_pos hexcluded, raw_region hp hj hu] at hread
        cases hraw : net.raw <;> simp [hraw] at hread
        exact hread.symm
      · rw [if_neg hexcluded] at hread
        rw [← find_of_not_excluded (by simpa using hexcluded)]
        exact (Option.some.inj hread).symm
    refine ⟨_, by rw [Option.bind_some, pathMatches_of_parse hparse], ?_⟩
    rw [hvalues, Json.find_append, hw, Option.bind_some]
    have hrel := hR.find hlike relative
    generalize (merge options v u).find relative = a at hrel
    generalize w.find relative = b at hrel
    rcases hrel with hab | _
    · exact List.Forall₂.cons hab List.Forall₂.nil
    · exact List.Forall₂.nil
  | none =>
    -- it is not, so that no dirty value hides what Redis holds there
    have hdirty : ¬cache.view.Dirty (key, parent) := by
      rintro ⟨w, hw⟩
      rw [hnone rfl] at hw
      simp at hw
    refine ⟨values, ?_, hsame values⟩
    have hdirect : getPath platform redis key path net.get = some values →
        x.bind (platform.pathMatches path) = some values := by
      intro hget
      obtain ⟨j, hj, hvalues⟩ := getPath_eq_some hget
      rw [pathMatches_of_parse hparse] at hvalues
      rw [← hvalues]
      exact pathMatches_of_not_dirty hs' hx' hparse hp hdirty hj
    simp only at hread
    split_ifs at hread
    · cases hraw : raw platform redis key parent net.raw with
      | none =>
        rw [hraw] at hread
        exact hdirect hread
      | some u =>
        obtain ⟨j, hj, hu⟩ := raw_eq_some platform hp hraw
        rw [hraw] at hread
        rw [pathMatches_of_not_dirty hs' hx' hparse hp hdirty hj, Json.find_append, hu,
          Option.bind_some, ← hread]
        rfl
    · exact hdirect hread

end Region

/-- **What a read returns**, of any path, is what the path matches in the document that the key
stands for. -/
theorem read_shows {R : Json → Json → Prop} (hR : Likeness R) (hs : Sound options s)
    (hx : Means options s key x) (hc : Current R options s.cache.view s.redis key)
    (hread : (read platform options net key path s).1 = some values) :
    ∃ expected, x.bind (platform.pathMatches path) = some expected ∧
      List.Forall₂ R values expected := by
  rcases hregion : region options path with _ | ⟨parent, relative⟩
  · exact ⟨values, read_outside hs hx hregion hread,
      List.forall₂_same.mpr fun a _ ↦ hR.refl a⟩
  · exact read_inside hR hs hx hc hregion hread

end MemoryClass

end Agora
