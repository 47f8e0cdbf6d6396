import Agora.Memory.Reading

/-!
# The cache refines a plain store

What a client sees of the memory is what it would see of a JSON store without a cache
(`PlainStore`), to which exactly the writes that reported success and the commands that were
executed are applied, in their order.

The relation between the two is `Refines`: every key stands for the document the plain store has,
and the clean regions of the cache show what Redis holds. Each operation preserves it, whatever the
sizes of the cache, the depth of its regions, and the evictions it makes on the way.

**Main result.** `reads_refine_plain_store`: after any run of admissible operations, every value a
read returns is the plain store's, and a flush that reports success leaves the plain store's
document in Redis.

Commands are answered or rejected here, keys hold documents only, and no field is remote.
-/

namespace Agora

namespace MemoryClass

open WriteBack

/-! ## The plain store -/

/-- A JSON store without a cache. -/
abbrev PlainStore := String → Option Json

/-- The document that a Redis value is. -/
def document? : Option RedisValue → Option Json
  | some (.json j) => some j
  | _ => none

namespace PlainStore

variable (platform : Platform) (store : PlainStore)

/-- The values a path matches. -/
def read (key path : String) : Option (List Json) := (store key).bind (platform.pathMatches path)

/-- Replace the value at a path; an error changes nothing. -/
def write (key : String) (value : Json) (path : String) : PlainStore :=
  match platform.pathAssign path (store key) value with
  | some j => Function.update store key (some j)
  | none => store

/-- Execute a command on a key. -/
def execute (key : String) (command : Command) : PlainStore :=
  match command ((store key).map .json) with
  | some (_, v) => Function.update store key (document? v)
  | none => store

end PlainStore

/-- A command given to `executeAtomic` reaches Redis, which executes it. -/
def executed (platform : Platform) (options : Options) (net : Outcomes) (key : String)
    (s : MemoryState) : Bool :=
  (flush platform options net key s).1 && net.own ≠ .rejected

section Lockstep

variable (platform : Platform) (options : Options)

/-- The plain store after an operation: writes that reported success and executed commands are
applied to it. -/
def PlainStore.after (s : MemoryState) (store : PlainStore) (step : Operation × Outcomes) :
    PlainStore :=
  match step.1 with
  | .write key value path =>
    if (MemoryClass.write platform options step.2 key value path s).1 then
      store.write platform key value path
    else store
  | .executeAtomic key command _ =>
    if executed platform options step.2 key s then store.execute key command else store
  | _ => store

/-- The memory and the plain store after the same operations. -/
def lockstep (s : MemoryState) (store : PlainStore) :
    List (Operation × Outcomes) → MemoryState × PlainStore
  | [] => (s, store)
  | step :: steps =>
    lockstep (step.1.run platform options step.2 s) (store.after platform options s step) steps

/-- What an operation returns is what the plain store says. -/
def Agrees (s : MemoryState) (store : PlainStore) (step : Operation × Outcomes) : Prop :=
  match step.1 with
  | .read key path => ∀ values, (read platform options step.2 key path s).1 = some values →
      store.read platform key path = some values
  | .readDocument key => ∀ d, (readDocument platform options step.2 key s).1 = some d →
      store key = some d
  | .write key value path => (write platform options step.2 key value path s).1 = true →
      (platform.pathAssign path (store key) value).isSome
  | .flush key => (flush platform options step.2 key s).1 = true →
      (flush platform options step.2 key s).2.redis.lookup key = (store key).map .json
  | .executeAtomic key command paths => ∀ reply,
      (executeAtomic platform options step.2 key command paths s).1 = some reply →
        ∃ v, command ((store key).map .json) = some (reply, v)
  | _ => True

end Lockstep

/-- A command leaves documents only. -/
def LeavesJson (command : Command) : Prop :=
  ∀ (x : Option Json) reply content, command (x.map .json) ≠ some (reply, some (.text content))

/-- The operations of the refinement: reads, writes, flushes, and commands that change nothing
outside the paths they are announced with. -/
def Operation.Refinable : Operation → Prop
  | read _ _ | readDocument _ | write _ _ _ | flush _ => True
  | executeAtomic _ command paths => Respects command paths ∧ LeavesJson command
  | erase _ _ | erasePattern _ => False

variable {platform : Platform} {options : Options} {net : Outcomes}

/-! ## The relation -/

/-- The memory shows the documents of the plain store. -/
structure Refines (options : Options) (s : MemoryState) (store : PlainStore) : Prop where
  sound : Sound options s
  coherent : Coherent options s
  means : ∀ key, Means options s key (store key)
  json : ∀ key content, s.redis.lookup key ≠ some (.text content)

namespace Refines

variable {s s' : MemoryState} {store : PlainStore} {key : String}

theorem of_calm (h : Refines options s store) (hcalm : Calm options s s') :
    Refines options s' store where
  sound := hcalm.sound
  coherent := hcalm.coherent h.coherent
  means := fun key ↦ hcalm.meaning (h.means key)
  json := fun key content hk ↦ h.json key content (hcalm.texts key content hk)

/-- After a change of one document, the plain store has to follow for that key only. -/
theorem of_change (h : Refines options s store) (hchange : Change options key s s')
    (htext : ∀ content, s'.redis.lookup key ≠ some (.text content)) {x : Option Json}
    (hx : Means options s' key x) : Refines options s' (Function.update store key x) where
  sound := hchange.sound h.sound
  coherent := hchange.coherent h.sound h.coherent
  means := by
    intro k
    by_cases hk : k = key
    · subst hk
      rwa [Function.update_self]
    · rw [Function.update_of_ne hk]
      exact hchange.meaning_other hk (h.means k)
  json := by
    intro k content
    by_cases hk : k = key
    · subst hk
      exact htext content
    · rw [hchange.lookup_other hk]
      exact h.json k content

/-- A key holds nothing, or a document that stands for the plain store's. -/
theorem cases (h : Refines options s store) (key : String) :
    s.redis.lookup key = none ∧ store key = none ∨
      ∃ j d, s.redis.lookup key = some (.json j) ∧ store key = some d ∧
        Overlaid options s.cache.view key j d := by
  rcases hj : s.redis.lookup key with _ | j | content
  · have hx := h.means key
    rw [show store key = none from Meaning.unique h.sound.anchored hx (Meaning.absent hj)]
    exact Or.inl ⟨rfl, rfl⟩
  · obtain ⟨d, hd, ho⟩ := (h.means key).overlaid hj
    exact Or.inr ⟨j, d, rfl, hd, ho⟩
  · exact absurd hj (h.json key content)

/-- Without dirty regions, Redis holds the plain store's document. -/
theorem lookup_of_clean (h : Refines options s store) (key : String)
    (hclean : ∀ r, ¬s.cache.view.Dirty (key, r)) :
    s.redis.lookup key = (store key).map .json := by
  rcases h.cases key with ⟨hj, hstore⟩ | ⟨j, d, hj, hstore, ho⟩
  · rw [hj, hstore]
    rfl
  · rw [hj, hstore, ho.of_clean hclean]
    rfl

/-- A cached region shows the plain store's value, whether it is dirty or clean. -/
theorem find_cached (h : Refines options s store) (hremote : options.remoteFields = none)
    {r : String} {p : List Segment} (hr : IsRegion options r p) {e : Entry Json}
    (he : s.cache.view (key, r) = some e) :
    ∃ d, store key = some d ∧ d.find p = some e.value := by
  obtain ⟨v, _ | _⟩ := e
  · obtain ⟨q, j, u, hq, hj, hu, hproj⟩ := h.coherent.fresh key r v he
    obtain rfl := hr.unique hq
    obtain ⟨d, hd, ho⟩ := (h.means key).overlaid hj
    refine ⟨d, hd, ?_⟩
    have hfind := ho.find_of_not_dirty h.sound.anchored hj hr (fun ⟨w, hw⟩ ↦ ?_) []
    · rw [List.append_nil] at hfind
      rw [hfind, hu, hproj, project_of_none hremote]
    · simp [he] at hw
  · obtain ⟨q, j, u, hq, hj, hu⟩ := h.sound.anchored key r _ he
    obtain rfl := hr.unique hq
    obtain ⟨d, hd, ho⟩ := (h.means key).overlaid hj
    refine ⟨d, hd, ?_⟩
    rw [ho.find_of_dirty h.sound.anchored hj hr he hu, merge_of_none hremote]

end Refines

/-! ## Reading -/

variable {s : MemoryState} {store : PlainStore}

/-- **A read returns what the plain store has.** -/
theorem Refines.read_value (h : Refines options s store) (hremote : options.remoteFields = none)
    {key path : String} {values : List Json}
    (hread : (read platform options net key path s).1 = some values) :
    store.read platform key path = some values := by
  obtain ⟨expected, hexpected, hsame⟩ := read_shows likeness_eq h.sound (h.means key)
    (current_of_fresh hremote h.coherent.fresh key) hread
  rw [List.forall₂_eq_eq_eq] at hsame
  rw [PlainStore.read, hexpected, hsame]

theorem Refines.readDocument_value (h : Refines options s store)
    (hremote : options.remoteFields = none) {key : String} {d : Json}
    (hread : (readDocument platform options net key s).1 = some d) : store key = some d := by
  have hroot : parseJsonPath "$" = some [] := by decide +kernel
  unfold readDocument at hread
  split_ifs at hread
  · obtain ⟨values, hvalues, hhead⟩ := Option.bind_eq_some_iff.mp hread
    have hplain := h.read_value hremote hvalues
    rw [PlainStore.read] at hplain
    obtain ⟨d', hd', hmatches⟩ := Option.bind_eq_some_iff.mp hplain
    rw [pathMatches_of_parse hroot] at hmatches
    obtain rfl : [d'] = values := by simpa using hmatches
    obtain rfl : d' = d := by simpa using hhead
    exact hd'
  · exact Meaning.unique h.sound.anchored (h.means key)
      ((document_spec net h.sound key).2 d hread)

/-! ## Writing -/

variable (platform)

/-- A direct write, to a place that no dirty region hides: it succeeds as it does on the plain
store, or changes nothing. -/
theorem Refines.writeThrough_spec (h : Refines options s store) (hown : net.own ≠ .lost)
    {key : String} (path : String) (value : Json)
    (hsep : (∀ r, ¬s.cache.view.Dirty (key, r)) ∨
      ∃ parent relative, region options path = some (parent, relative) ∧
        s.cache.view (key, parent) = none) :
    let a := writeThrough platform options net key value path s
    (a.1 = true → ∃ d, platform.pathAssign path (store key) value = some d ∧
      Refines options a.2 (Function.update store key (some d))) ∧
      (a.1 = false → a.2 = s) := by
  have hchange := @writeThrough_change platform options net s h.sound key path
    (fun hlost ↦ absurd hlost hown) value
  have htext : isText s.redis key = false := by
    rcases hj : s.redis.lookup key with _ | _ | content
    · simp [isText, hj]
    · simp [isText, hj]
    · exact absurd hj (h.json key content)
  obtain ⟨-, -, -, htouched, hkept⟩ := @invalidate_spec options _ h.sound.valid key path
  simp only [writeThrough, sendSet_eq platform net htext] at hchange ⊢
  rcases s.redis.execute_cases key (platform.jsonSet path value) net.own with
    ⟨reply, v, hcommand, hsent, hexec⟩ | hexec
  · have hanswered : net.own = .answered := by
      cases hfate : net.own with
      | answered => rfl
      | rejected => exact absurd hfate hsent
      | lost => exact absurd hfate hown
    rw [if_pos hanswered] at hexec
    simp only [hexec] at hchange ⊢
    -- the reply is `OK`, and the document is the assigned one under the same dirty regions
    obtain ⟨j', d', rfl, rfl, hassign, ho⟩ : ∃ j' d', reply = "OK" ∧ v = some (.json j') ∧
        platform.pathAssign path (store key) value = some d' ∧
        Overlaid options (invalidate options s.cache key path).view key j' d' := by
      rcases h.cases key with ⟨hj, hstore⟩ | ⟨j, d, hj, hstore, ho⟩
      · rw [hj] at hcommand
        obtain ⟨j', hj', heq⟩ := Option.map_eq_some_iff.mp hcommand
        obtain ⟨rfl, rfl⟩ := Prod.mk.inj heq
        refine ⟨j', j', rfl, rfl, by rw [hstore, hj'], Overlaid.refl j' ?_⟩
        rintro r ⟨w, hw⟩
        have hnone := @Sound.view_of_text options s h.sound key (by simp [hj]) r
        rw [invalidate_sub h.sound.valid hw] at hnone
        simp at hnone
      · rw [hj] at hcommand
        obtain ⟨j', hj', heq⟩ := Option.map_eq_some_iff.mp hcommand
        obtain ⟨rfl, rfl⟩ := Prod.mk.inj heq
        rcases hsep with hclean | ⟨parent, relative, hregion, hnone⟩
        · obtain rfl := ho.of_clean hclean
          refine ⟨j', j', rfl, rfl, by rw [hstore, hj'], Overlaid.refl j' ?_⟩
          rintro r ⟨w, hw⟩
          exact hclean r ⟨w, invalidate_sub h.sound.valid hw⟩
        · obtain ⟨p, hparse, hp⟩ := isRegion_of_region hregion
          obtain ⟨l, hl, hd⟩ := ho
          have hpresent := hl.present h.sound.anchored hj
          have hapart : ∀ e ∈ l, ∀ q, IsRegion options e.1 q → Json.Apart (p ++ relative) q := by
            rintro ⟨r, w⟩ he q hq
            refine (hp.apart hq ?_).append_left relative
            rintro rfl
            rw [(hl.2 _ w).mp he] at hnone
            simp at hnone
          have hset : j.set (p ++ relative) value = some j' := by
            rw [← hj', Platform.pathAssign, hparse]
          have hpresent' : Present options l j' := by
            intro e he
            obtain ⟨q, hq, hfind⟩ := hpresent e he
            exact ⟨q, hq, by rwa [Json.find_set_of_apart (hapart e he q hq) hset]⟩
          obtain ⟨d', hd'⟩ := Option.isSome_iff_exists.mp (overlay_isSome hl.1 hpresent')
          have hcomm := overlay_set (w := value) hl.1 hpresent hapart
          rw [hset, hd, Option.bind_some, Option.bind_some, hd'] at hcomm
          refine ⟨j', d', rfl, rfl, ?_, l, ⟨hl.1, fun r w ↦ ?_⟩, hd'⟩
          · rw [hstore, Platform.pathAssign, hparse]
            exact hcomm.symm
          · rw [hl.2]
            by_cases hr : Touches options path r
            · rw [hr parent relative hregion, htouched parent fun parent' relative' h' ↦ ?_, hnone]
              rw [hregion] at h'
              exact (Prod.mk.inj (Option.some.inj h')).1
            · rw [hkept r hr]
    refine ⟨fun _ ↦ ⟨d', hassign, ?_⟩, by simp⟩
    rw [if_pos rfl] at hchange ⊢
    exact h.of_change hchange (by simp) (Meaning.document (by simp) ho)
  · simp [hexec]

/-- A direct write after a flush. -/
theorem Refines.writeFlushed_spec (h : Refines options s store) (hown : net.own ≠ .lost)
    (key path : String) (value : Json) :
    let a := writeFlushed platform options net key value path s
    (a.1 = true → ∃ d, platform.pathAssign path (store key) value = some d ∧
      Refines options a.2 (Function.update store key (some d))) ∧
      (a.1 = false → Refines options a.2 store) := by
  obtain ⟨hcalm, -, hclean⟩ := flush_spec platform net h.sound key
  unfold writeFlushed
  rcases hf : flush platform options net key s with ⟨_ | _, s'⟩ <;> rw [hf] at hcalm hclean
  · exact ⟨by simp, fun _ ↦ h.of_calm hcalm⟩
  · have h' := h.of_calm hcalm
    obtain ⟨htrue, hfalse⟩ := h'.writeThrough_spec platform hown path value
      (Or.inl (hclean rfl))
    exact ⟨htrue, fun hb ↦ by rw [hfalse hb]; exact h'⟩

/-- A write of a cached region, which stays in the cache or is saved at once. -/
theorem Refines.update_spec (h : Refines options s store) (hnet : Lossless net) {key r : String}
    {p : List Segment} (hr : IsRegion options r p) {e : Entry Json}
    (he : s.cache.view (key, r) = some e) {j u : Json} (hj : s.redis.lookup key = some (.json j))
    (hu : j.find p = some u) {v : Json} (hv : project options (merge options v u) = v) :
    let a := s.cache.update platform.dumpSize (writeBack platform options net) key r v s.redis
    (a.1 = true → ∃ d d', store key = some d ∧ d.set p (merge options v u) = some d' ∧
      Refines options ⟨a.2.2, a.2.1⟩ (Function.update store key (some d'))) ∧
      (a.1 = false → Refines options ⟨a.2.2, a.2.1⟩ store) := by
  obtain ⟨hsound, hmeans, hfailed, hfresh, hsettled, htexts⟩ :=
    MemoryClass.update_spec platform net h.sound he v
  simp only at hsound hmeans hfailed hfresh hsettled htexts ⊢
  have hmarked : Settled options (marked s.cache.view key r v) s.redis := by
    intro k r' v' p' j' u' hv' hr' hj' hu'
    by_cases hi : (k, r') = (key, r)
    · obtain ⟨rfl, rfl⟩ := Prod.mk.inj hi
      obtain rfl : v = v' := by simpa [marked] using hv'
      obtain rfl := hr.unique hr'
      obtain rfl : j = j' := by simpa using hj.symm.trans hj'
      obtain rfl : u = u' := Option.some.inj (hu.symm.trans hu')
      exact hv
    · rw [marked, Function.update_of_ne hi] at hv'
      exact h.coherent.settled k r' v' p' j' u' hv' hr' hj' hu'
  have hcoherent : Coherent options ⟨_, _⟩ :=
    ⟨hfresh h.coherent.fresh fun _ _ ↦ hnet.writeBack key r,
      hsettled h.coherent.settled hmarked (hnet.writeBack key r)⟩
  have hjson := fun k content hk ↦ h.json k content (htexts k content hk)
  refine ⟨fun hb ↦ ?_, fun hb ↦ ?_⟩
  · obtain ⟨d, hd, ho⟩ := (h.means key).overlaid hj
    obtain ⟨d', hset, ho'⟩ := ho.mark h.sound.anchored hj hr he hu v
    refine ⟨d, d', hd, hset, hsound, hcoherent, fun k ↦ hmeans hb k _ ?_, hjson⟩
    by_cases hk : k = key
    · subst hk
      rw [Function.update_self]
      exact Meaning.document hj ho'
    · rw [Function.update_of_ne hk]
      have hview : ∀ r', marked s.cache.view key r v (k, r') = s.cache.view (k, r') := fun r' ↦
        Function.update_of_ne (fun heq ↦ hk (Prod.mk.inj heq).1) ..
      rcases h.cases k with ⟨hj, hstore⟩ | ⟨j, d, hj, hstore, ho⟩
      · rw [hstore]
        exact Meaning.absent hj
      · rw [hstore]
        exact Meaning.document hj (ho.congr fun r' v' ↦ by rw [hview])
  · obtain ⟨hview, hredis⟩ := hfailed hb
    have hredis := hredis (hnet.writeBack key r)
    refine ⟨hsound, hcoherent, fun k ↦ ?_, hjson⟩
    simp only [Means, hview, hredis]
    exact h.means k

/-- **A write that reports success is made on the plain store, too; any other changes nothing.** -/
theorem Refines.write_spec (h : Refines options s store) (hremote : options.remoteFields = none)
    (hnet : Lossless net) (key : String) (value : Json) (path : String) :
    let a := write platform options net key value path s
    (a.1 = true → ∃ d, platform.pathAssign path (store key) value = some d ∧
      Refines options a.2 (Function.update store key (some d))) ∧
      (a.1 = false → Refines options a.2 store) := by
  unfold write
  rcases hregion : region options path with _ | ⟨parent, relative⟩
  · exact h.writeFlushed_spec platform hnet.own key path value
  obtain ⟨p, hparse, hp⟩ := isRegion_of_region hregion
  obtain ⟨hvalid, hbounds, hview, hvalue⟩ := CacheManager.get_spec h.sound.valid key parent
  have h' := h.of_calm (calm_of_view h.sound hvalid hbounds hview)
  simp only
  generalize s.cache.get key parent = a at hview hvalue h' ⊢
  obtain ⟨cached, cache⟩ := a
  simp only at hview hvalue h' ⊢
  cases cached with
  | none =>
    have hnone : cache.view (key, parent) = none := by
      rw [hview]
      simpa using hvalue
    obtain ⟨htrue, hfalse⟩ := h'.writeThrough_spec platform hnet.own path value
      (Or.inr ⟨parent, relative, hregion, hnone⟩)
    exact ⟨htrue, fun hb ↦ by rw [hfalse hb]; exact h'⟩
  | some c =>
    obtain ⟨e, he, rfl⟩ := Option.map_eq_some_iff.mp hvalue.symm
    rw [← hview] at he
    simp only
    split_ifs with hstays
    · cases hset : setJsonPathValue e.value relative value with
      | none => exact ⟨by simp, fun _ ↦ h'⟩
      | some updated =>
        simp only [project_of_none hremote]
        obtain ⟨q, j, u, hq, hj, hu⟩ := h'.sound.anchored key parent e he
        obtain rfl := hp.unique hq
        obtain ⟨htrue, hfalse⟩ := h'.update_spec platform hnet hp he hj hu
          (v := updated) (by rw [merge_of_none hremote, project_of_none hremote])
        rw [merge_of_none hremote] at htrue
        refine ⟨fun hb ↦ ?_, hfalse⟩
        obtain ⟨d, d', hd, hset', hrefines⟩ := htrue hb
        refine ⟨d', ?_, hrefines⟩
        obtain ⟨d₀, hd₀, hfind⟩ := h'.find_cached hremote hp he
        obtain rfl : d = d₀ := Option.some.inj (hd.symm.trans hd₀)
        rw [hd, Platform.pathAssign, hparse]
        simp only
        rw [Json.set_append hfind, show e.value.set relative value = some updated from hset,
          Option.bind_some, hset']
    · exact h'.writeFlushed_spec platform hnet.own key path value

/-! ## Commands -/

/-- **A command that is executed is executed on the plain store's document.** -/
theorem Refines.executeAtomic_spec (h : Refines options s store) (hnet : Lossless net)
    (key : String) {command : Command} {paths : List String} (hc : Respects command paths)
    (hjson : LeavesJson command) :
    Refines options (executeAtomic platform options net key command paths s).2
        (if executed platform options net key s then store.execute key command else store) ∧
      ∀ reply, (executeAtomic platform options net key command paths s).1 = some reply →
        ∃ v, command ((store key).map .json) = some (reply, v) := by
  obtain ⟨hcalm, -, hclean⟩ := flush_spec platform net h.sound key
  unfold executeAtomic executed
  rcases hf : flush platform options net key s with ⟨_ | _, s'⟩ <;> rw [hf] at hcalm hclean
  · exact ⟨by simpa using h.of_calm hcalm, by simp⟩
  have h' := h.of_calm hcalm
  have hlookup := h'.lookup_of_clean key (hclean rfl)
  obtain ⟨-, -, -, hsub, -⟩ := @invalidateAll_spec options key paths _ h'.sound.valid
  have hclean' : ∀ r, ¬(invalidateAll options key paths s'.cache).view.Dirty (key, r) :=
    fun r ⟨w, hw⟩ ↦ hclean rfl r ⟨w, hsub _ _ hw⟩
  have hchange := executeAtomic_change net h'.sound key hc
  simp only [Bool.true_and, decide_eq_true_eq, PlainStore.execute, ← hlookup]
  rcases s'.redis.execute_cases key command net.own with
    ⟨reply, v, hcommand, hsent, hexec⟩ | hexec
  · have hanswered : net.own = .answered := by
      cases hfate : net.own with
      | answered => rfl
      | rejected => exact absurd hfate hsent
      | lost => exact absurd hfate hnet.own
    simp only [hexec, if_pos hanswered] at hchange ⊢
    rw [if_pos hsent, hcommand]
    refine ⟨?_, fun reply' hreply ↦ ⟨v, ?_⟩⟩
    · rcases v with _ | j | content
      · exact h'.of_change hchange (by simp) (Meaning.absent (by simp))
      · exact h'.of_change hchange (by simp)
          (Meaning.document (by simp) (Overlaid.refl j hclean'))
      · rw [hlookup] at hcommand
        exact absurd hcommand (hjson _ _ _)
    · split_ifs at hreply
      obtain rfl := Option.some.inj hreply
      rfl
  · rw [hexec] at hchange ⊢
    refine ⟨?_, by simp [error]⟩
    have hsame : Refines options ⟨s'.redis, invalidateAll options key paths s'.cache⟩ store := by
      rcases h'.cases key with ⟨hj, hstore⟩ | ⟨j, d, hj, hstore, ho⟩
      · have hr := h'.of_change hchange (h'.json key) (Meaning.absent hj)
        rwa [← hstore, Function.update_eq_self] at hr
      · obtain rfl := ho.of_clean (hclean rfl)
        have hr := h'.of_change hchange (h'.json key)
          (Meaning.document hj (Overlaid.refl d hclean'))
        rwa [← hstore, Function.update_eq_self] at hr
    split_ifs with hsent
    · -- a command that was sent and had no effect was refused
      cases hcommand : command (s'.redis.lookup key) with
      | none => exact hsame
      | some p =>
        exfalso
        obtain ⟨reply, v⟩ := p
        cases hfate : net.own with
        | answered => simp [Redis.execute, hcommand, hfate] at hexec
        | rejected => exact hsent hfate
        | lost => exact hnet.own hfate
    · exact hsame

/-! ## Runs -/

variable {platform}

/-- A step of a run: its commands succeed or have no effect, and what it asks for is allowed. -/
def Admissible (step : Operation × Outcomes) : Prop := Lossless step.2 ∧ step.1.Refinable

/-- One operation, and what the plain store makes of it. -/
theorem Refines.step (h : Refines options s store) (hremote : options.remoteFields = none)
    {step : Operation × Outcomes} (hstep : Admissible step) :
    Refines options (step.1.run platform options step.2 s)
        (store.after platform options s step) ∧
      Agrees platform options s store step := by
  obtain ⟨operation, net⟩ := step
  obtain ⟨hnet, hallowed⟩ := hstep
  cases operation with
  | read key path =>
    exact ⟨h.of_calm (read_calm platform net h.sound key path), fun values hread ↦
      h.read_value hremote hread⟩
  | readDocument key =>
    exact ⟨h.of_calm (readDocument_calm platform net h.sound key), fun d hread ↦
      h.readDocument_value hremote hread⟩
  | write key value path =>
    obtain ⟨htrue, hfalse⟩ := h.write_spec platform hremote hnet key value path
    simp only [Operation.run, PlainStore.after, Agrees]
    cases hb : (write platform options net key value path s).1 with
    | true =>
      obtain ⟨d, hd, hrefines⟩ := htrue hb
      refine ⟨?_, fun _ ↦ by rw [hd]; rfl⟩
      rwa [if_pos rfl, PlainStore.write, hd]
    | false => exact ⟨by simpa using hfalse hb, by simp⟩
  | flush key =>
    obtain ⟨hcalm, -, hclean⟩ := flush_spec platform net h.sound key
    have h' := h.of_calm hcalm
    exact ⟨h', fun hb ↦ h'.lookup_of_clean key (hclean hb)⟩
  | executeAtomic key command paths =>
    exact h.executeAtomic_spec platform hnet key hallowed.1 hallowed.2
  | erase key path => exact hallowed.elim
  | erasePattern pattern => exact hallowed.elim

theorem Refines.lockstep (h : Refines options s store) (hremote : options.remoteFields = none)
    {steps : List (Operation × Outcomes)} (hsteps : ∀ step ∈ steps, Admissible step) :
    Refines options (MemoryClass.lockstep platform options s store steps).1
      (MemoryClass.lockstep platform options s store steps).2 := by
  induction steps generalizing s store with
  | nil => exact h
  | cons step steps ih =>
    exact ih (h.step hremote (hsteps step List.mem_cons_self)).1 fun step' hstep' ↦
      hsteps step' (List.mem_cons_of_mem _ hstep')

/-- The documents in Redis. -/
def documents (redis : Redis) : PlainStore := fun key ↦ document? (redis.lookup key)

theorem refines_initial {redis : Redis}
    (hjson : ∀ key content, redis.lookup key ≠ some (.text content)) :
    Refines options (initial options redis) (documents redis) where
  sound := sound_initial redis
  coherent := ⟨fun key r v hv ↦ by simp [initial] at hv,
    fun key r v p j u hv ↦ by simp [initial] at hv⟩
  means := by
    intro key
    rw [documents]
    rcases hj : redis.lookup key with _ | j | content
    · exact Meaning.absent hj
    · refine Meaning.document hj (Overlaid.refl j ?_)
      rintro r ⟨w, hw⟩
      simp [initial] at hw
    · exact absurd hj (hjson key content)
  json := hjson

/-- **The cache refines a plain store.** After every run of reads, writes, flushes and commands on
any keys and paths, for every size of the cache and depth of its regions, the next operation returns
what it returns on a store without a cache: a read the value it matches there, a flush that
succeeds the document there, now in Redis. -/
theorem reads_refine_plain_store (platform : Platform) (options : Options)
    (hremote : options.remoteFields = none) (redis : Redis)
    (hjson : ∀ key content, redis.lookup key ≠ some (.text content))
    (steps : List (Operation × Outcomes)) (hsteps : ∀ step ∈ steps, Admissible step)
    (step : Operation × Outcomes) (hstep : Admissible step) :
    Agrees platform options
      (lockstep platform options (initial options redis) (documents redis) steps).1
      (lockstep platform options (initial options redis) (documents redis) steps).2 step :=
  (((refines_initial hjson).lockstep hremote hsteps).step hremote hstep).2

/-- A member is cached by two reads and written. -/
def dirtyMember : List (Operation × Outcomes) :=
  [(.read "k" "$.a", .fine), (.read "k" "$.a", .fine), (.write "k" (.int 2) "$.a", .fine)]

/-- The document then shows the value that Redis does not have yet. -/
theorem dirty_read_refines_plain_store :
    let redis : Redis := [("k", .json (.obj [("a", .int 1)]))]
    let both := lockstep .plain { regionDepth := 1 } (initial { regionDepth := 1 } redis)
      (documents redis) dirtyMember
    Agrees .plain { regionDepth := 1 } both.1 both.2 (.readDocument "k", .fine) ∧
      (readDocument .plain { regionDepth := 1 } .fine "k" both.1).1
        = some (.obj [("a", .int 2)]) ∧ both.1.redis = redis := by
  refine ⟨reads_refine_plain_store _ _ rfl _ ?_ _ ?_ _ ⟨lossless_fine, trivial⟩,
    by decide +kernel, by decide +kernel⟩
  · intro key content h
    have hmem := Assoc.mem_of_lookup h
    simp at hmem
  · simp only [dirtyMember, List.forall_mem_cons, List.not_mem_nil, false_implies, implies_true,
      and_true]
    exact ⟨⟨lossless_fine, trivial⟩, ⟨lossless_fine, trivial⟩, ⟨lossless_fine, trivial⟩⟩

end MemoryClass

end Agora
