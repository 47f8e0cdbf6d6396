import Agora.Memory.Overlay

/-!
# Cache and Redis together

`Anchored` says that every cached region is a place that the document in Redis has, `Fresh` that a
clean region shows what Redis holds there, and `Meaning` which document a key stands for: the one
in Redis under the regions that wait to be written back.

A cache that saves and forgets on its own account (`WriteBack.Quiet`) keeps the regions anchored
and every document as it was (`Quiet.anchored`, `Quiet.meaning`), whatever becomes of its
commands. It also keeps clean regions fresh when saving a region brings nothing new into it
(`Settled`), which is always so without remote fields.
-/

namespace Agora

namespace MemoryClass

open WriteBack

variable {options : Options}

/-! ## What a key stands for -/

/-- Every cached region is a place that the document in Redis has. -/
def Anchored (options : Options) (V : View (String × String) Json) (redis : Redis) : Prop :=
  ∀ key r e, V (key, r) = some e →
    ∃ p j u, IsRegion options r p ∧ redis.lookup key = some (.json j) ∧ j.find p = some u

/-- A clean region shows what Redis holds, less the remote fields. -/
def Fresh (options : Options) (V : View (String × String) Json) (redis : Redis) : Prop :=
  ∀ key r v, V (key, r) = some ⟨v, false⟩ →
    ∃ p j u, IsRegion options r p ∧ redis.lookup key = some (.json j) ∧ j.find p = some u ∧
      v = project options u

/-- Saving a dirty region will bring nothing new into it. -/
def Settled (options : Options) (V : View (String × String) Json) (redis : Redis) : Prop :=
  ∀ key r v p j u, V (key, r) = some ⟨v, true⟩ → IsRegion options r p →
    redis.lookup key = some (.json j) → j.find p = some u →
      project options (merge options v u) = v

theorem settled_of_none (h : options.remoteFields = none) (V : View (String × String) Json)
    (redis : Redis) : Settled options V redis := by
  intro key r v p j u _ _ _ _
  rw [merge_of_none h, project_of_none h]

/-- The dirty regions of a document, each once. -/
def Listed (V : View (String × String) Json) (key : String) (l : List (String × Json)) : Prop :=
  (l.map Prod.fst).Nodup ∧ ∀ r v, (r, v) ∈ l ↔ V (key, r) = some ⟨v, true⟩

theorem Listed.perm {V : View (String × String) Json} {key : String} {l l' : List (String × Json)}
    (h : Listed V key l) (h' : Listed V key l') : l.Perm l' := by
  rw [List.perm_ext_iff_of_nodup h.1.of_map h'.1.of_map]
  rintro ⟨r, v⟩
  rw [h.2, h'.2]

theorem Listed.present {V : View (String × String) Json} {redis : Redis} {key : String}
    {l : List (String × Json)} {j : Json} (h : Listed V key l) (ha : Anchored options V redis)
    (hj : redis.lookup key = some (.json j)) : Present options l j := by
  rintro ⟨r, v⟩ he
  obtain ⟨p, j', u, hp, hj', hu⟩ := ha key r _ ((h.2 r v).mp he)
  obtain rfl : j = j' := by simpa using hj.symm.trans hj'
  exact ⟨p, hp, by rw [hu]; rfl⟩

/-- `d` is the document `j` under the dirty regions. -/
def Overlaid (options : Options) (V : View (String × String) Json) (key : String)
    (j d : Json) : Prop :=
  ∃ l, Listed V key l ∧ overlay options l j = some d

theorem Overlaid.overlay_eq {V : View (String × String) Json} {redis : Redis} {key : String}
    {j d : Json} {l : List (String × Json)} (h : Overlaid options V key j d)
    (ha : Anchored options V redis) (hj : redis.lookup key = some (.json j))
    (hl : Listed V key l) : overlay options l j = some d := by
  obtain ⟨l', hl', hd⟩ := h
  rw [← hd]
  exact overlay_perm (hl.perm hl') hl.1 (hl.present ha hj)

/-- The document a key stands for, if any. -/
inductive Meaning (options : Options) (V : View (String × String) Json) (redis : Redis)
    (key : String) : Option Json → Prop
  | absent (h : redis.lookup key = none) : Meaning options V redis key none
  | text {content : Option Json} (h : redis.lookup key = some (.text content)) :
      Meaning options V redis key content
  | document {j d : Json} (h : redis.lookup key = some (.json j))
      (ho : Overlaid options V key j d) : Meaning options V redis key (some d)

theorem Meaning.unique {V : View (String × String) Json} {redis : Redis} {key : String}
    {x y : Option Json} (ha : Anchored options V redis) (hx : Meaning options V redis key x)
    (hy : Meaning options V redis key y) : x = y := by
  cases hx with
  | absent h =>
    cases hy with
    | absent => rfl
    | text h' => simp [h] at h'
    | document h' => simp [h] at h'
  | text h =>
    cases hy with
    | absent h' => simp [h] at h'
    | text h' => simpa [h] using h'
    | document h' => simp [h] at h'
  | @document j d h ho =>
    cases hy with
    | absent h' => simp [h] at h'
    | text h' => simp [h] at h'
    | @document j' d' h' ho' =>
      obtain rfl : j = j' := by simpa using h.symm.trans h'
      obtain ⟨l, hl, hd⟩ := ho
      exact congrArg some (Option.some.inj (hd.symm.trans (ho'.overlay_eq ha h hl)))

/-- A region that is not dirty shows in the document what Redis holds. -/
theorem Overlaid.find_of_apart {V : View (String × String) Json} {redis : Redis} {key : String}
    {j d : Json} (h : Overlaid options V key j d) (ha : Anchored options V redis)
    (hj : redis.lookup key = some (.json j)) {q : List Segment}
    (hq : ∀ r p, V.Dirty (key, r) → IsRegion options r p → Json.Apart p q) :
    d.find q = j.find q := by
  obtain ⟨l, hl, hd⟩ := h
  refine find_overlay_of_apart hl.1 (hl.present ha hj) hd fun ⟨r, v⟩ he p hp ↦ ?_
  exact hq r p ⟨v, (hl.2 r v).mp he⟩ hp

theorem Overlaid.find_of_dirty {V : View (String × String) Json} {redis : Redis} {key : String}
    {j d u v : Json} (h : Overlaid options V key j d) (ha : Anchored options V redis)
    (hj : redis.lookup key = some (.json j)) {r : String} {p : List Segment}
    (hr : IsRegion options r p) (hv : V (key, r) = some ⟨v, true⟩) (hu : j.find p = some u) :
    d.find p = some (merge options v u) := by
  obtain ⟨l, hl, hd⟩ := h
  exact find_overlay hl.1 (hl.present ha hj) hd hr ((hl.2 r v).mpr hv) hu

/-- Without dirty regions, Redis holds the document itself. -/
theorem Overlaid.of_clean {V : View (String × String) Json} {key : String} {j d : Json}
    (h : Overlaid options V key j d) (hclean : ∀ r, ¬V.Dirty (key, r)) : d = j := by
  obtain ⟨l, hl, hd⟩ := h
  cases l with
  | nil => exact (Option.some.inj hd).symm
  | cons e l => exact absurd ⟨e.2, (hl.2 e.1 e.2).mp List.mem_cons_self⟩ (hclean e.1)

/-- A view with the same dirty regions gives the same document. -/
theorem Overlaid.congr {V V' : View (String × String) Json} {key : String} {j d : Json}
    (h : Overlaid options V key j d)
    (hV : ∀ r v, V (key, r) = some ⟨v, true⟩ ↔ V' (key, r) = some ⟨v, true⟩) :
    Overlaid options V' key j d := by
  obtain ⟨l, hl, hd⟩ := h
  exact ⟨l, ⟨hl.1, fun r v ↦ (hl.2 r v).trans (hV r v)⟩, hd⟩

/-! ## Writing a region back -/

/-- Listing one dirty region first. -/
theorem Listed.cons {V : View (String × String) Json} {key r : String} {v : Json}
    {l : List (String × Json)} (hl : Listed V key l) (hv : V (key, r) = some ⟨v, true⟩) :
    l.Perm ((r, v) :: l.erase (r, v)) ∧ r ∉ (l.erase (r, v)).map Prod.fst ∧
      ((l.erase (r, v)).map Prod.fst).Nodup := by
  have hperm := List.perm_cons_erase ((hl.2 r v).mpr hv)
  have hnodup := ((hperm.map Prod.fst).nodup_iff.mp hl.1)
  exact ⟨hperm, List.nodup_cons.mp hnodup⟩

theorem Listed.erase {V : View (String × String) Json} {key r : String} {v : Json}
    {l : List (String × Json)} (hl : Listed V key l) (hv : V (key, r) = some ⟨v, true⟩)
    {V' : View (String × String) Json} (hV' : ∀ r', r' ≠ r → V' (key, r') = V (key, r'))
    (hr : ¬V'.Dirty (key, r)) : Listed V' key (l.erase (r, v)) := by
  obtain ⟨hperm, hnot, hnodup⟩ := hl.cons hv
  refine ⟨hnodup, fun r' v' ↦ ?_⟩
  by_cases hrr : r' = r
  · subst hrr
    refine ⟨fun h ↦ absurd (List.mem_map_of_mem h) hnot, fun h ↦ absurd ⟨v', h⟩ hr⟩
  · rw [hV' r' hrr, ← hl.2, hperm.mem_iff, List.mem_cons]
    simp [hrr]

variable {platform : Platform} {net : Outcomes}

theorem getPath_region {key r : String} {j u : Json} {p : List Segment} {redis : Redis}
    (hr : IsRegion options r p) (hj : redis.lookup key = some (.json j))
    (hu : j.find p = some u) : getPath platform redis key r true = some [u] := by
  simp [getPath, hj, Platform.pathMatches, hr.parse, hu]

theorem raw_region {key r : String} {j u : Json} {p : List Segment} {redis : Redis}
    (hr : IsRegion options r p) (hj : redis.lookup key = some (.json j))
    (hu : j.find p = some u) {answered : Bool} :
    raw platform redis key r answered = if answered then some u else none := by
  cases answered with
  | false => rfl
  | true => rw [raw, getPath_region hr hj hu]; rfl

/-- Writing back a region that the document has: nothing happens, or its value, with the remote
fields of the document, is stored. -/
theorem writeBack_cases (platform : Platform) (net : Outcomes) (v : Json) {key r : String}
    {j u : Json} {p : List Segment} {redis : Redis}
    (hr : IsRegion options r p) (hj : redis.lookup key = some (.json j))
    (hu : j.find p = some u) :
    writeBack platform options net key r v redis = (false, redis) ∨
      ∃ j', j.set p (merge options v u) = some j' ∧ net.writeBack key r ≠ .rejected ∧
        writeBack platform options net key r v redis
          = (decide (net.writeBack key r = .answered), redis.put key (some (.json j'))) := by
  have hmerged : (if remote options v = [] then some v
      else (raw platform redis key r (net.current key r)).map (merge options v)) = none ∨
      (if remote options v = [] then some v
      else (raw platform redis key r (net.current key r)).map (merge options v))
        = some (merge options v u) := by
    split_ifs with hremote
    · exact Or.inr (by rw [merge_of_remote_nil hremote])
    · rw [raw_region hr hj hu]
      cases net.current key r
      · exact Or.inl rfl
      · exact Or.inr rfl
  unfold writeBack
  rcases hmerged with h | h
  · rw [h]
    exact Or.inl rfl
  · rw [h]
    rcases redis.execute_cases key (platform.jsonSet r (merge options v u)) (net.writeBack key r)
      with ⟨reply, value, hcommand, hsent, hexec⟩ | hexec
    · rw [hj, Platform.jsonSet, Platform.pathAssign, hr.parse] at hcommand
      obtain ⟨j', hj', heq⟩ := Option.map_eq_some_iff.mp hcommand
      obtain ⟨rfl, rfl⟩ := Prod.mk.inj heq
      refine Or.inr ⟨j', hj', hsent, ?_⟩
      simp only [hexec]
      split_ifs with hfate <;> simp [hfate]
    · exact Or.inl (by simp [hexec])

/-- Whether a key holds a text only ever changes from yes to no. -/
def KeepsTexts (redis redis' : Redis) : Prop :=
  ∀ key content, redis'.lookup key = some (.text content) → redis.lookup key = some (.text content)

theorem keepsTexts_execute {redis : Redis} {key : String} {command : Command} {fate : Fate}
    (h : ∀ reply content, command (redis.lookup key) ≠ some (reply, some (.text content))) :
    KeepsTexts redis (redis.execute key command fate).2 := by
  intro k content hk
  rcases redis.execute_cases key command fate with ⟨reply, value, hcommand, -, hexec⟩ | hexec
  · rw [hexec, Redis.lookup_put] at hk
    split_ifs at hk with heq
    · exact absurd (hk ▸ hcommand) (h reply content)
    · exact hk
  · rwa [hexec] at hk

/-- `JSON.SET` leaves a document. -/
theorem jsonSet_ne_text {path : String} {value : Json} {v : Option RedisValue} (reply : String)
    (content : Option Json) :
    platform.jsonSet path value v ≠ some (reply, some (.text content)) := by
  rintro h
  rcases v with _ | _ | _ <;> simp [Platform.jsonSet] at h

theorem keepsTexts_writeBack (platform : Platform) (options : Options) (net : Outcomes)
    (key r : String) (v : Json) (redis : Redis) :
    KeepsTexts redis (writeBack platform options net key r v redis).2 := by
  rw [writeBack]
  generalize (if remote options v = [] then some v
    else (raw platform redis key r (net.current key r)).map (merge options v)) = merged
  rcases merged with _ | value
  · exact fun _ _ ↦ id
  · exact keepsTexts_execute fun reply content ↦ jsonSet_ne_text reply content

/-- Storing a dirty region under the others does not change the document. -/
theorem Overlaid.put {V : View (String × String) Json} {redis : Redis} {key r : String}
    {j j' d u v : Json} {p : List Segment} (h : Overlaid options V key j d)
    (ha : Anchored options V redis) (hj : redis.lookup key = some (.json j))
    (hr : IsRegion options r p) (hv : V (key, r) = some ⟨v, true⟩) (hu : j.find p = some u)
    (hset : j.set p (merge options v u) = some j') {V' : View (String × String) Json}
    (hV' : ∀ r', r' ≠ r → V' (key, r') = V (key, r'))
    (hVr : V' (key, r) = V (key, r) ∨ ¬V'.Dirty (key, r)) : Overlaid options V' key j' d := by
  obtain ⟨l, hl, hd⟩ := h
  obtain ⟨hperm, hnot, hnodup⟩ := hl.cons hv
  have hpresent := hl.present ha hj
  have hrest : overlay options (l.erase (r, v)) j' = some d := by
    rw [← hd, overlay_perm hperm hl.1 hpresent, overlay_cons hr hu, hset, Option.bind_some]
  rcases hVr with hVr | hVr
  · -- still dirty: it is stored a second time
    refine ⟨(r, v) :: l.erase (r, v), ⟨List.nodup_cons.mpr ⟨hnot, hnodup⟩, fun r' v' ↦ ?_⟩, ?_⟩
    · rw [← hperm.mem_iff, hl.2]
      by_cases hrr : r' = r
      · rw [hrr, hVr]
      · rw [hV' r' hrr]
    · have hu' := Json.find_set_self hset
      rw [overlay_cons hr hu', merge_merge, Json.set_set hset, hset, Option.bind_some, hrest]
  · exact ⟨l.erase (r, v), hl.erase hv hV' hVr, hrest⟩

/-- A region that is not listed is as Redis holds it. -/
theorem find_overlay_of_notMem {l : List (String × Json)} {r : String} {j d : Json}
    {p : List Segment} (hnodup : (l.map Prod.fst).Nodup) (hpresent : Present options l j)
    (hr : IsRegion options r p) (hnot : r ∉ l.map Prod.fst)
    (hd : overlay options l j = some d) : d.find p = j.find p := by
  refine find_overlay_of_apart hnodup hpresent hd fun x hx q hq ↦ ?_
  refine (hr.apart hq fun heq ↦ hnot ?_).symm
  rw [heq]
  exact List.mem_map_of_mem hx

/-- Listing one dirty region last. -/
theorem overlay_concat {l : List (String × Json)} {r : String} {j u v : Json} {p : List Segment}
    (hnodup : (l.map Prod.fst).Nodup) (hpresent : Present options l j)
    (hr : IsRegion options r p) (hnot : r ∉ l.map Prod.fst) (hu : j.find p = some u) :
    overlay options (l ++ [(r, v)]) j
      = (overlay options l j).bind (Json.set p · (merge options v u)) := by
  rw [overlay_append]
  cases he : overlay options l j with
  | none => rfl
  | some e =>
    have hfind : e.find p = some u :=
      (find_overlay_of_notMem hnodup hpresent hr hnot he).trans hu
    rw [Option.bind_some, Option.bind_some, overlay_cons hr hfind]
    cases e.set p (merge options v u) <;> rfl

/-- Making a region dirty with a value stores that value, with the remote fields of Redis. -/
theorem Overlaid.mark {V : View (String × String) Json} {redis : Redis} {key r : String}
    {j d u : Json} {e : Entry Json} {p : List Segment} (h : Overlaid options V key j d)
    (ha : Anchored options V redis) (hj : redis.lookup key = some (.json j))
    (hr : IsRegion options r p) (he : V (key, r) = some e) (hu : j.find p = some u) (v : Json) :
    ∃ d', d.set p (merge options v u) = some d' ∧
      Overlaid options (Function.update V (key, r) (some ⟨v, true⟩)) key j d' := by
  obtain ⟨l, hl, hd⟩ := h
  have hpresent := hl.present ha hj
  -- the dirty regions other than `r`, and the document they make
  obtain ⟨rest, hnodup, hnot, hrest, hmem, d₀, hd₀, hset⟩ : ∃ rest : List (String × Json),
      (rest.map Prod.fst).Nodup ∧ r ∉ rest.map Prod.fst ∧ Present options rest j ∧
      (∀ r' v', r' ≠ r → ((r', v') ∈ rest ↔ V (key, r') = some ⟨v', true⟩)) ∧
      ∃ d₀, overlay options rest j = some d₀ ∧ ∀ w, d.set p w = d₀.set p w := by
    obtain ⟨c, b⟩ := e
    cases b with
    | true =>
      obtain ⟨hperm, hnot, hnodup⟩ := hl.cons he
      have hsub : Present options (l.erase (r, c)) j := fun x hx ↦
        hpresent x (List.mem_of_mem_erase hx)
      have hlast : overlay options (l.erase (r, c) ++ [(r, c)]) j = some d := by
        rw [← hd]
        exact (overlay_perm (hperm.trans (List.perm_append_singleton _ _).symm) hl.1
          hpresent).symm
      rw [overlay_concat hnodup hsub hr hnot hu] at hlast
      obtain ⟨d₀, hd₀, hset⟩ := Option.bind_eq_some_iff.mp hlast
      refine ⟨l.erase (r, c), hnodup, hnot, hsub, fun r' v' hrr ↦ ?_, d₀, hd₀, fun w ↦
        Json.set_set hset w⟩
      rw [← hl.2, hperm.mem_iff, List.mem_cons]
      simp [hrr]
    | false =>
      refine ⟨l, hl.1, fun hmem ↦ ?_, hpresent, fun r' v' _ ↦ hl.2 r' v', d, hd, fun w ↦ rfl⟩
      obtain ⟨⟨r', v'⟩, hx, rfl⟩ := List.mem_map.mp hmem
      have hx' := (hl.2 _ _).mp hx
      rw [he] at hx'
      simp at hx'
  have hfind : (d₀.find p).isSome := by
    rw [find_overlay_of_notMem hnodup hrest hr hnot hd₀, hu]
    rfl
  obtain ⟨d', hd'⟩ := Option.isSome_iff_exists.mp
    (Json.set_isSome_of_find hfind (merge options v u))
  refine ⟨d', (hset _).trans hd', rest ++ [(r, v)], ⟨?_, fun r' v' ↦ ?_⟩, ?_⟩
  · rw [List.map_append, List.map_singleton]
    exact (List.perm_append_singleton r _).nodup_iff.mpr (List.nodup_cons.mpr ⟨hnot, hnodup⟩)
  · by_cases hrr : r' = r
    · subst hrr
      have hnotMem : (r', v') ∉ rest := fun hx ↦ hnot (List.mem_map_of_mem hx)
      simp [hnotMem, eq_comm]
    · have hne : (key, r') ≠ (key, r) := fun h ↦ hrr (Prod.mk.inj h).2
      rw [Function.update_of_ne hne, ← hmem r' v' hrr, List.mem_append, List.mem_singleton]
      simp [hrr]
  · rw [overlay_concat hnodup hrest hr hnot hu, hd₀, Option.bind_some, hd']

/-! ## What the cache does on its own account -/

/-- The writer of the cache, by location. -/
abbrev backWriter (platform : Platform) (options : Options) (net : Outcomes) :
    Writer (String × String) Json Redis :=
  CacheManager.locationWriter (writeBack platform options net)

variable {V V' : View (String × String) Json} {redis redis' : Redis}

/-- A place that a write of a region leaves alone is there as before. -/
theorem find_put_region {key r key' r' : String} {j j' j₀ u₀ w : Json} {p q : List Segment}
    (hr : IsRegion options r p) (hq : IsRegion options r' q)
    (hj : redis.lookup key = some (.json j)) (hset : j.set p w = some j')
    (hne : (key', r') ≠ (key, r)) (hj₀ : redis.lookup key' = some (.json j₀))
    (hu₀ : j₀.find q = some u₀) :
    ∃ j₁, (redis.put key (some (.json j'))).lookup key' = some (.json j₁) ∧
      j₁.find q = some u₀ := by
  by_cases hk : key = key'
  · subst hk
    obtain rfl : j = j₀ := by simpa using hj.symm.trans hj₀
    have hrr : r ≠ r' := fun h ↦ hne (by rw [h])
    exact ⟨j', by simp, (Json.find_set_of_apart (hr.apart hq hrr) hset).trans hu₀⟩
  · exact ⟨j₀, by simp [hk, hj₀], hu₀⟩

/-- What a write back does: nothing, or it stores the region with the remote fields of the
document. -/
theorem writeBack_outcome (ha : Anchored options V redis) {key r : String} {v : Json} {b : Bool}
    (hv : V (key, r) = some ⟨v, true⟩)
    (hw : writeBack platform options net key r v redis = (b, redis')) :
    ∃ p j u, IsRegion options r p ∧ redis.lookup key = some (.json j) ∧ j.find p = some u ∧
      (b = false ∧ redis' = redis ∨
        ∃ j', j.set p (merge options v u) = some j' ∧ redis' = redis.put key (some (.json j')) ∧
          (b = false → net.writeBack key r = .lost)) := by
  obtain ⟨p, j, u, hr, hj, hu⟩ := ha key r _ hv
  refine ⟨p, j, u, hr, hj, hu, ?_⟩
  rcases writeBack_cases platform net v hr hj hu with
    hw' | ⟨j', hset, hsent, hw'⟩
  · obtain ⟨rfl, rfl⟩ := Prod.mk.inj (hw.symm.trans hw')
    exact Or.inl ⟨rfl, rfl⟩
  · obtain ⟨rfl, rfl⟩ := Prod.mk.inj (hw.symm.trans hw')
    refine Or.inr ⟨j', hset, rfl, fun hb ↦ ?_⟩
    cases hfate : net.writeBack key r with
    | answered => simp [hfate] at hb
    | rejected => exact absurd hfate hsent
    | lost => rfl

/-- A region that is anchored stays anchored when a region is written back. -/
theorem anchored_writeBack (ha : Anchored options V redis) {key r : String} {v : Json} {b : Bool}
    (hv : V (key, r) = some ⟨v, true⟩)
    (hw : writeBack platform options net key r v redis = (b, redis')) :
    Anchored options V redis' := by
  intro key' r' e he
  obtain ⟨q, j₀, u₀, hq, hj₀, hu₀⟩ := ha key' r' e he
  obtain ⟨p, j, u, hr, hj, hu, ⟨-, rfl⟩ | ⟨j', hset, rfl, -⟩⟩ := writeBack_outcome ha hv hw
  · exact ⟨q, j₀, u₀, hq, hj₀, hu₀⟩
  · by_cases hne : (key', r') = (key, r)
    · obtain ⟨rfl, rfl⟩ := Prod.mk.inj hne
      exact ⟨p, j', _, hr, by simp, Json.find_set_self hset⟩
    · obtain ⟨j₁, hj₁, hu₁⟩ := find_put_region hr hq hj hset hne hj₀ hu₀
      exact ⟨q, j₁, u₀, hq, hj₁, hu₁⟩

theorem meaning_writeBack (ha : Anchored options V redis) {key r : String} {v : Json} {b : Bool}
    (hv : V (key, r) = some ⟨v, true⟩)
    (hw : writeBack platform options net key r v redis = (b, redis'))
    (hV' : ∀ i, i ≠ (key, r) → V' i = V i)
    (hVr : V' (key, r) = V (key, r) ∨ b = true ∧ ¬V'.Dirty (key, r)) {key' : String}
    {x : Option Json} (hx : Meaning options V redis key' x) :
    Meaning options V' redis' key' x := by
  have hV'r : ∀ r', r' ≠ r → V' (key, r') = V (key, r') := fun r' hrr ↦
    hV' _ fun h ↦ hrr (Prod.mk.inj h).2
  obtain ⟨p, j, u, hr, hj, hu, ⟨hb, rfl⟩ | ⟨j', hset, rfl, -⟩⟩ := writeBack_outcome ha hv hw
  · -- nothing happened
    have hsame : ∀ i, V' i = V i := by
      intro i
      by_cases hi : i = (key, r)
      · rcases hVr with h | ⟨h, -⟩
        · rw [hi, h]
        · rw [hb] at h
          simp at h
      · exact hV' i hi
    cases hx with
    | absent h => exact Meaning.absent h
    | text h => exact Meaning.text h
    | document h ho => exact Meaning.document h (ho.congr fun r v ↦ by rw [hsame])
  · by_cases hk : key' = key
    · subst hk
      cases hx with
      | absent h => simp [hj] at h
      | text h => simp [hj] at h
      | @document j₀ d h ho =>
        obtain rfl : j = j₀ := by simpa using hj.symm.trans h
        exact Meaning.document (by simp)
          (ho.put ha hj hr hv hu hset hV'r (hVr.imp id And.right))
    · have hlookup : (redis.put key (some (.json j'))).lookup key' = redis.lookup key' := by
        rw [Redis.lookup_put, if_neg (Ne.symm hk)]
      have hview : ∀ r', V' (key', r') = V (key', r') := fun r' ↦
        hV' _ fun h ↦ hk (Prod.mk.inj h).1
      cases hx with
      | absent h => exact Meaning.absent (hlookup.trans h)
      | text h => exact Meaning.text (hlookup.trans h)
      | document h ho =>
        exact Meaning.document (hlookup.trans h) (ho.congr fun r v ↦ by rw [hview])

theorem step_anchored {c c' : View (String × String) Json × Redis}
    (hs : Step (backWriter platform options net) c c') (ha : Anchored options c.1 c.2) :
    Anchored options c'.1 c'.2 := by
  cases hs with
  | @drop V V' redis h =>
    intro key r e he
    rcases h (key, r) with heq | ⟨hnone, -⟩
    · exact ha key r e (heq.symm.trans he)
    · exact absurd (hnone.symm.trans he) (by simp)
  | @saved V redis redis' i v h hw =>
    have ha' := anchored_writeBack ha h hw
    intro key r e he
    by_cases hi : (key, r) = i
    · subst hi
      exact ha' key r _ h
    · exact ha' key r e ((Function.update_of_ne hi _ _).symm.trans he)
  | @unsaved V redis redis' i v h hw => exact anchored_writeBack ha h hw

theorem step_meaning {c c' : View (String × String) Json × Redis}
    (hs : Step (backWriter platform options net) c c') (ha : Anchored options c.1 c.2)
    {key : String} {x : Option Json} (hx : Meaning options c.1 c.2 key x) :
    Meaning options c'.1 c'.2 key x := by
  cases hs with
  | @drop V V' redis h =>
    have hdirty : ∀ r v, V (key, r) = some ⟨v, true⟩ ↔ V' (key, r) = some ⟨v, true⟩ := by
      intro r v
      rcases h (key, r) with heq | ⟨hnone, w, hw⟩
      · rw [heq]
      · rw [hnone, hw]
        simp
    cases hx with
    | absent h => exact Meaning.absent h
    | text h => exact Meaning.text h
    | document h ho => exact Meaning.document h (ho.congr hdirty)
  | @saved V redis redis' i v h hw =>
    refine meaning_writeBack ha h hw (fun i' hi ↦ Function.update_of_ne hi ..)
      (Or.inr ⟨rfl, ?_⟩) hx
    rintro ⟨w, hw'⟩
    simp at hw'
  | @unsaved V redis redis' i v h hw =>
    exact meaning_writeBack ha h hw (fun _ _ ↦ rfl) (Or.inl rfl) hx

/-- A write back keeps clean regions fresh, and settled ones settled. -/
theorem fresh_writeBack (ha : Anchored options V redis) (hf : Fresh options V redis)
    {key r : String} {v : Json} {b : Bool} (hv : V (key, r) = some ⟨v, true⟩)
    (hw : writeBack platform options net key r v redis = (b, redis')) :
    Fresh options V redis' := by
  intro key' r' w hw'
  obtain ⟨q, j₀, u₀, hq, hj₀, hu₀, hproj⟩ := hf key' r' w hw'
  obtain ⟨p, j, u, hr, hj, hu, ⟨-, rfl⟩ | ⟨j', hset, rfl, -⟩⟩ := writeBack_outcome ha hv hw
  · exact ⟨q, j₀, u₀, hq, hj₀, hu₀, hproj⟩
  · have hne : (key', r') ≠ (key, r) := by
      rintro heq
      rw [heq, hv] at hw'
      simp at hw'
    obtain ⟨j₁, hj₁, hu₁⟩ := find_put_region hr hq hj hset hne hj₀ hu₀
    exact ⟨q, j₁, u₀, hq, hj₁, hu₁, hproj⟩

theorem settled_writeBack (ha : Anchored options V redis) (hs : Settled options V redis)
    {key r : String} {v : Json} {b : Bool} (hv : V (key, r) = some ⟨v, true⟩)
    (hw : writeBack platform options net key r v redis = (b, redis')) :
    Settled options V redis' := by
  obtain ⟨p, j, u, hr, hj, hu, ⟨-, rfl⟩ | ⟨j', hset, rfl, -⟩⟩ := writeBack_outcome ha hv hw
  · exact hs
  · intro key' r' v' q j₁ u₁ hv' hq hj₁ hu₁
    by_cases hne : (key', r') = (key, r)
    · obtain ⟨rfl, rfl⟩ := Prod.mk.inj hne
      obtain rfl : v = v' := by simpa using hv.symm.trans hv'
      obtain rfl := hr.unique hq
      obtain rfl : j' = j₁ := by simpa using hj₁
      obtain rfl : u₁ = merge options v u :=
        Option.some.inj (hu₁.symm.trans (Json.find_set_self hset))
      rw [merge_merge]
      exact hs _ _ v p j u hv hr hj hu
    · obtain ⟨q', j₀, u₀, hq', hj₀, hu₀⟩ := ha key' r' _ hv'
      obtain rfl := hq.unique hq'
      obtain ⟨j₂, hj₂, hu₂⟩ := find_put_region hr hq hj hset hne hj₀ hu₀
      obtain rfl : j₁ = j₂ := by simpa using hj₁.symm.trans hj₂
      obtain rfl : u₁ = u₀ := Option.some.inj (hu₁.symm.trans hu₂)
      exact hs _ _ v' q j₀ u₁ hv' hq hj₀ hu₀

theorem step_fresh {c c' : View (String × String) Json × Redis}
    (hs : Step (backWriter platform options net) c c') (ha : Anchored options c.1 c.2)
    (hf : Fresh options c.1 c.2) (ht : Settled options c.1 c.2) :
    Fresh options c'.1 c'.2 ∧ Settled options c'.1 c'.2 := by
  cases hs with
  | @drop V V' redis h =>
    have hentry : ∀ {key r e}, V' (key, r) = some e → V (key, r) = some e := by
      intro key r e he
      rcases h (key, r) with heq | ⟨hnone, -⟩
      · exact heq.symm.trans he
      · exact absurd (hnone.symm.trans he) (by simp)
    exact ⟨fun key r v hv ↦ hf key r v (hentry hv),
      fun key r v p j u hv ↦ ht key r v p j u (hentry hv)⟩
  | @saved V redis redis' i v h hw =>
    have hf' := fresh_writeBack ha hf h hw
    have ht' := settled_writeBack ha ht h hw
    refine ⟨fun key r w hw' ↦ ?_, fun key r w p j u hw' ↦ ?_⟩
    · by_cases hi : (key, r) = i
      · subst hi
        obtain rfl : v = w := by simpa using hw'
        obtain ⟨p, j, u, hr, hj, hu, ⟨hb, -⟩ | ⟨j', hset, rfl, -⟩⟩ := writeBack_outcome ha h hw
        · simp at hb
        · exact ⟨p, j', _, hr, by simp, Json.find_set_self hset, (ht key r v p j u h hr hj hu).symm⟩
      · exact hf' key r w ((Function.update_of_ne hi _ _).symm.trans hw')
    · by_cases hi : (key, r) = i
      · subst hi
        simp at hw'
      · exact ht' key r w p j u ((Function.update_of_ne hi _ _).symm.trans hw')
  | @unsaved V redis redis' i v h hw =>
    exact ⟨fresh_writeBack ha hf h hw, settled_writeBack ha ht h hw⟩

/-! ## Runs of the cache -/

theorem step_texts {c c' : View (String × String) Json × Redis}
    (hs : Step (backWriter platform options net) c c') : KeepsTexts c.2 c'.2 := by
  have hwrite : ∀ {redis redis' : Redis} {i : String × String} {v : Json} {b : Bool},
      writeBack platform options net i.1 i.2 v redis = (b, redis') → KeepsTexts redis redis' := by
    intro redis redis' i v b hw
    have h := keepsTexts_writeBack platform options net i.1 i.2 v redis
    rwa [hw] at h
  cases hs with
  | drop => exact fun _ _ ↦ id
  | saved _ hw => exact hwrite hw
  | unsaved _ hw => exact hwrite hw

theorem quiet_texts {c c' : View (String × String) Json × Redis}
    (h : Quiet (backWriter platform options net) c c') : KeepsTexts c.2 c'.2 :=
  h.invariant (P := fun c' ↦ KeepsTexts c.2 c'.2)
    (fun hs hc key content hk ↦ hc key content (step_texts hs key content hk)) fun _ _ ↦ id

theorem quiet_anchored {c c' : View (String × String) Json × Redis}
    (h : Quiet (backWriter platform options net) c c') (ha : Anchored options c.1 c.2) :
    Anchored options c'.1 c'.2 :=
  h.invariant (fun hs hc ↦ step_anchored hs hc) ha

/-- **Saving and forgetting leaves every document as it was.** -/
theorem quiet_meaning {c c' : View (String × String) Json × Redis}
    (h : Quiet (backWriter platform options net) c c') (ha : Anchored options c.1 c.2)
    {key : String} {x : Option Json} (hx : Meaning options c.1 c.2 key x) :
    Meaning options c'.1 c'.2 key x :=
  (h.invariant (P := fun c ↦ Anchored options c.1 c.2 ∧ Meaning options c.1 c.2 key x)
    (fun hs hc ↦ ⟨step_anchored hs hc.1, step_meaning hs hc.1 hc.2⟩) ⟨ha, hx⟩).2

theorem quiet_fresh {c c' : View (String × String) Json × Redis}
    (h : Quiet (backWriter platform options net) c c') (ha : Anchored options c.1 c.2)
    (hf : Fresh options c.1 c.2) (ht : Settled options c.1 c.2) :
    Fresh options c'.1 c'.2 ∧ Settled options c'.1 c'.2 :=
  (h.invariant (P := fun c ↦ Anchored options c.1 c.2 ∧ Fresh options c.1 c.2 ∧
      Settled options c.1 c.2)
    (fun hs hc ↦ ⟨step_anchored hs hc.1, step_fresh hs hc.1 hc.2.1 hc.2.2⟩) ⟨ha, hf, ht⟩).2

end MemoryClass

end Agora
