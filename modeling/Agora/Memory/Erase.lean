import Agora.Memory.Shown

/-!
# The frame of an erase

What an erase does to the rest of the document that a key shows (`Shows`).

**Main result.** `erase_frame_iff`: an erase that reports success leaves all the rest of the shown
document as it was exactly when it saves the dirty regions first (`Saves`), or forgets none that
could tell (`Harmless`). A path that is shallower than a region, or that the parser refuses, makes
it forget every dirty region of the document without having saved them.
-/

namespace Agora

namespace MemoryClass

open WriteBack

variable {platform : Platform} {options : Options} {net : Outcomes} {s : MemoryState}
  {key path : String}

/-! ## The document under an erase -/

/-- Regions apart from a removed location can be put in before or after the removal. -/
theorem overlay_prune {l : List (String × Json)} {j : Json} {p : List Segment}
    (hp : ∀ t i, p ≠ t ++ [.index i]) (hnodup : (l.map Prod.fst).Nodup)
    (hpresent : Present options l j)
    (hapart : ∀ e ∈ l, ∀ q, IsRegion options e.1 q → Json.Apart p q) :
    overlay options l (j.prune fun t ↦ t = p)
      = (overlay options l j).map (Json.prune fun t ↦ t = p) := by
  induction l generalizing j with
  | nil => rfl
  | cons e l ih =>
    obtain ⟨r, v⟩ := e
    obtain ⟨hr, hnodup⟩ := List.nodup_cons.mp hnodup
    obtain ⟨q, hq, hfind⟩ := hpresent (r, v) List.mem_cons_self
    obtain ⟨u, hu⟩ := Option.isSome_iff_exists.mp hfind
    have hpq := hapart (r, v) List.mem_cons_self q hq
    have hu' := (Json.find_prune_of_apart hp hpq j).trans hu
    rw [overlay_cons hq hu, overlay_cons hq hu', Json.set_prune_of_apart hp hpq hfind]
    cases hset : j.set q (merge options v u) with
    | none => rfl
    | some j' =>
      rw [Option.map_some, Option.bind_some, Option.bind_some]
      exact ih hnodup (hpresent.tail.set hq hr hset) fun e he ↦
        hapart e (List.mem_cons_of_mem _ he)

/-- Regions that make no difference to what is left can be forgotten. -/
theorem without_overlay {select : List Segment → Bool} {l : List (String × Json)} {j d : Json}
    (hnodup : (l.map Prod.fst).Nodup) (hpresent : Present options l j)
    (hd : overlay options l j = some d)
    (hl : ∀ r v q u, (r, v) ∈ l → IsRegion options r q → j.find q = some u →
      Json.LeavesSame select q u (merge options v u)) :
    d.without select = j.without select := by
  induction l generalizing j with
  | nil => rw [← Option.some.inj hd]
  | cons e l ih =>
    obtain ⟨r, v⟩ := e
    obtain ⟨hr, hnodup⟩ := List.nodup_cons.mp hnodup
    obtain ⟨q, hq, hfind⟩ := hpresent (r, v) List.mem_cons_self
    obtain ⟨u, hu⟩ := Option.isSome_iff_exists.mp hfind
    rw [overlay_cons hq hu] at hd
    obtain ⟨j', hset, hd⟩ := Option.bind_eq_some_iff.mp hd
    have hrest := ih hnodup (hpresent.tail.set hq hr hset) hd fun r' v' q' u' hmem hq' hu' ↦ by
      have hne : r ≠ r' := by
        have hin : r' ∈ l.map Prod.fst := List.mem_map_of_mem hmem
        rintro rfl
        exact hr hin
      rw [Json.find_set_of_apart (hq.apart hq' hne) hset] at hu'
      exact hl r' v' q' u' (List.mem_cons_of_mem _ hmem) hq' hu'
    rw [hrest]
    exact Json.without_set hu hset (hl r v q u List.mem_cons_self hq hu)

/-- Forgetting the dirty regions of a document changes nothing of what a removal leaves exactly
when none of them makes a difference. -/
theorem without_eq_iff (hs : Sound options s) {j d : Json}
    (hj : s.redis.lookup key = some (.json j)) (ho : Overlaid options s.cache.view key j d)
    (select : List Segment → Bool) :
    j.without select = d.without select ↔
      ∀ r v q u, s.cache.view (key, r) = some ⟨v, true⟩ → IsRegion options r q →
        j.find q = some u → Json.LeavesSame select q u (merge options v u) := by
  refine ⟨fun heq r v q u hv hq hu ↦ ?_, fun h ↦ ?_⟩
  · exact Json.leavesSame_of_without heq.symm hu (ho.find_of_dirty hs.anchored hj hq hv hu)
  · obtain ⟨l, hl, hd⟩ := ho
    refine (without_overlay hl.1 (hl.present hs.anchored hj) hd ?_).symm
    intro r v q u hmem hq hu
    exact h r v q u ((hl.2 r v).mp hmem) hq hu

/-! ## What an erase does -/

/-- On a document, an erase removes what its path selects. -/
theorem eraseCommand_json (path : String) (j : Json) :
    eraseCommand platform path (some (.json j))
      = (platform.pathSelect path j).map fun select ↦ ("1", (j.without select).map .json) := by
  unfold eraseCommand
  split_ifs with hroot
  · have hparse : parseJsonPath path = some [] := by
      rw [hroot]
      decide +kernel
    simp [del, Platform.pathSelect, hparse, Json.without]
  · rw [Platform.jsonDel]
    refine congrArg (Option.map · _) (funext fun select ↦ ?_)
    rw [Json.without]
    split_ifs <;> rfl

/-- An erase that reports success: its flushes succeeded, and its command was executed. -/
theorem erase_eq (hs : Sound options s) {d : Json} (hd : Means options s key (some d))
    (htext : ∀ content, s.redis.lookup key ≠ some (.text content))
    (herase : (erase platform options net key path s).1 = true) :
    ∃ s' j select, flushForErase platform options net key path s = (true, s') ∧
      s'.redis.lookup key = some (.json j) ∧ Overlaid options s'.cache.view key j d ∧
      platform.pathSelect path j = some select ∧ net.own = .answered ∧
      (erase platform options net key path s).2
        = ⟨s'.redis.put key ((j.without select).map .json),
            invalidate options s'.cache key (erasedPath path)⟩ := by
  obtain ⟨hcalm, -⟩ := flushForErase_calm platform net hs key path
  unfold erase at herase ⊢
  rcases hf : flushForErase platform options net key path s with ⟨_ | _, s'⟩ <;>
    rw [hf] at hcalm herase
  · simp at herase
  obtain ⟨j, hj, ho⟩ : ∃ j, s'.redis.lookup key = some (.json j) ∧
      Overlaid options s'.cache.view key j d := by
    have hd' := hcalm.meaning hd
    generalize hx : some d = x at hd'
    rcases hd' with h | h | ⟨h, ho⟩
    · simp at hx
    · exact absurd (hcalm.texts _ _ h) (htext _)
    · obtain rfl := Option.some.inj hx
      exact ⟨_, h, ho⟩
  simp only at herase ⊢
  rcases s'.redis.execute_cases key (eraseCommand platform path) net.own with
    ⟨reply, v, hcommand, -, hexec⟩ | hexec
  · rw [hj, eraseCommand_json] at hcommand
    obtain ⟨select, hselect, heq⟩ := Option.map_eq_some_iff.mp hcommand
    obtain ⟨rfl, rfl⟩ := Prod.mk.inj heq
    by_cases hanswered : net.own = .answered
    · rw [if_pos hanswered] at hexec
      have hok : error (some "1") = false := by decide
      refine ⟨s', j, select, rfl, hj, ho, hselect, hanswered, ?_⟩
      simp [hexec, hok]
    · rw [if_neg hanswered] at hexec
      simp [hexec, error] at herase
  · rw [hexec] at herase
    simp [error] at herase

/-- What dirty regions there are before the command of an erase that flushes is none. -/
theorem flushForErase_clean (hs : Sound options s) {s' : MemoryState}
    (hf : flushForErase platform options net key path s = (true, s'))
    (hflush : path ≠ "$" ∧ insideRegion options path ∨ shiftsArray path) (r : String) :
    ¬s'.cache.view.Dirty (key, r) := by
  unfold flushForErase at hf
  obtain ⟨hcalm, -, hclean⟩ := flush_spec platform net hs key
  by_cases hfirst : path ≠ "$" ∧ insideRegion options path
  · rw [if_pos hfirst] at hf
    rcases hf' : flush platform options net key s with ⟨_ | _, s₁⟩ <;>
      rw [hf'] at hf hcalm hclean
    · simp at hf
    · obtain ⟨-, -, hclean'⟩ := flush_spec platform net hcalm.sound key
      simp only at hf
      split_ifs at hf
      · rw [hf] at hclean'
        exact hclean' rfl r
      · obtain rfl := (Prod.mk.inj hf).2
        exact hclean rfl r
  · rw [if_neg hfirst] at hf
    simp only [if_pos (hflush.resolve_left hfirst)] at hf
    rw [hf] at hclean
    exact hclean rfl r

/-- An erase that does not flush leaves the state as it was before its command. -/
theorem flushForErase_eq (hinside : ¬(path ≠ "$" ∧ insideRegion options path))
    (hshift : shiftsArray path = false) (s : MemoryState) :
    flushForErase platform options net key path s = (true, s) := by
  simp [flushForErase, hinside, hshift]

/-- An erase forgets nothing unsaved but what it removes: it removes the document, or the parser
understands its path and finds it as deep as a region or with an array index. -/
def Saves (options : Options) (path : String) : Prop :=
  path = "$" ∨
    (∃ segments, parseJsonPath path = some segments ∧ options.regionDepth ≤ segments.length) ∨
    shiftsArray path

/-- An erase loses nothing: it forgets nothing unsaved (`Saves`), or no dirty region can tell. That
is, each of them lies at or below a place that the path selects, or the value that is not saved and
the one that Redis holds leave the same when what the path selects inside the region is removed. -/
def Harmless (platform : Platform) (options : Options) (s : MemoryState) (key path : String)
    (j : Json) (select : List Segment → Bool) : Prop :=
  Saves options path ∨ platform.pathSelect path j = some select ∧
    ∀ r v q u, s.cache.view (key, r) = some ⟨v, true⟩ → IsRegion options r q →
      j.find q = some u → Json.LeavesSame select q u (merge options v u)

/-- What a key stands for when nothing of it is dirty. -/
theorem means_of_clean {redis : Redis} {cache : CacheManager} {x : Option Json}
    (hclean : ∀ r, ¬cache.view.Dirty (key, r)) :
    Means options ⟨redis.put key (x.map .json), cache⟩ key x := by
  rcases x with _ | j
  · exact Meaning.absent (by simp)
  · exact Meaning.document (by simp) (Overlaid.refl j hclean)

/-- After dropping the regions a path touches, no region it touches is dirty. -/
theorem not_dirty_invalidate {cache : CacheManager} (hm : cache.Valid)
    (htouch : ∀ r, cache.view.Dirty (key, r) → Touches options path r) (r : String) :
    ¬(invalidate options cache key path).view.Dirty (key, r) := by
  obtain ⟨-, -, -, htouched, hkept⟩ := @invalidate_spec options _ hm key path
  rintro ⟨v, hv⟩
  by_cases hr : Touches options path r
  · rw [htouched r hr] at hv
    simp at hv
  · rw [hkept r hr] at hv
    exact hr (htouch r ⟨v, hv⟩)

theorem touches_of_region_eq_none (hregion : region options path = none) (r : String) :
    Touches options path r := by
  intro parent relative h
  rw [hregion] at h
  simp at h

/-- An erase at a region forgets that region only, and the others stay what they are. -/
theorem means_erase_region (hs : Sound options s) {j d : Json} {p : List Segment}
    (hj : s.redis.lookup key = some (.json j)) (ho : Overlaid options s.cache.view key j d)
    {parent : String} (hregion : region options path = some (parent, []))
    (hr : IsRegion options parent p) (hne : p ≠ []) (hp : ∀ t i, p ≠ t ++ [.index i]) :
    Means options
      ⟨s.redis.put key (some (.json (j.prune fun t ↦ t = p))), invalidate options s.cache key path⟩
      key (some (d.prune fun t ↦ t = p)) := by
  obtain ⟨-, -, -, htouched, hkept⟩ := @invalidate_spec options _ hs.valid key path
  have hself : Touches options path parent := fun parent' relative' h' ↦ by
    rw [hregion] at h'
    exact (Prod.mk.inj (Option.some.inj h')).1
  have hother : ∀ r, r ≠ parent →
      (invalidate options s.cache key path).view (key, r) = s.cache.view (key, r) :=
    fun r hne ↦ hkept r (not_touches_iff.mpr ⟨parent, [], hregion, hne⟩)
  have hgone : ¬(invalidate options s.cache key path).view.Dirty (key, parent) := by
    rintro ⟨w, hw⟩
    rw [htouched parent hself] at hw
    simp at hw
  obtain ⟨l, hl, hd⟩ := ho
  have hpresent := hl.present hs.anchored hj
  -- the dirty regions that stay
  obtain ⟨rest, hrest, hdrest⟩ : ∃ rest,
      Listed (invalidate options s.cache key path).view key rest ∧
        overlay options rest (j.prune fun t ↦ t = p) = some (d.prune fun t ↦ t = p) := by
    have hover : ∀ {rest : List (String × Json)} {j' : Json}, (rest.map Prod.fst).Nodup →
        parent ∉ rest.map Prod.fst → Present options rest j' →
        overlay options rest (j'.prune fun t ↦ t = p)
          = (overlay options rest j').map (Json.prune fun t ↦ t = p) := by
      intro rest j' hnodup hnot hpresent'
      refine overlay_prune hp hnodup hpresent' fun e he q hq ↦ hr.apart hq ?_
      rintro rfl
      exact hnot (List.mem_map_of_mem he)
    by_cases hdirty : s.cache.view.Dirty (key, parent)
    · obtain ⟨v, hv⟩ := hdirty
      obtain ⟨hperm, hnot, hnodup⟩ := hl.cons hv
      refine ⟨_, hl.erase hv hother hgone, ?_⟩
      obtain ⟨q, hq, hfind⟩ := hpresent _ ((hl.2 parent v).mpr hv)
      obtain rfl := hr.unique hq
      obtain ⟨u, hu⟩ := Option.isSome_iff_exists.mp hfind
      rw [overlay_perm hperm hl.1 hpresent, overlay_cons hr hu] at hd
      obtain ⟨j', hset, hd⟩ := Option.bind_eq_some_iff.mp hd
      have hpresent' : Present options (l.erase (parent, v)) j' := by
        refine Present.set (fun e he ↦ hpresent e (List.mem_of_mem_erase he)) hr hnot hset
      have hremoved : Json.LeavesSame (fun t ↦ t = p) p u (merge options v u) :=
        Or.inl ⟨p, List.prefix_refl p, decide_eq_true rfl⟩
      have hleft := Json.without_set hu hset hremoved
      rw [Json.without, Json.without, if_neg (by simpa using Ne.symm hne),
        if_neg (by simpa using Ne.symm hne)] at hleft
      rw [← Option.some.inj hleft, hover hnodup hnot hpresent', hd]
      rfl
    · have hnot : parent ∉ l.map Prod.fst := by
        intro hmem
        obtain ⟨⟨r, v⟩, hx, rfl⟩ := List.mem_map.mp hmem
        exact hdirty ⟨v, (hl.2 r v).mp hx⟩
      refine ⟨l, ⟨hl.1, fun r v ↦ ?_⟩, by rw [hover hl.1 hnot hpresent, hd]; rfl⟩
      rw [hl.2]
      by_cases hrr : r = parent
      · subst hrr
        exact ⟨fun h ↦ absurd ⟨v, h⟩ hdirty, fun h ↦ absurd ⟨v, h⟩ hgone⟩
      · rw [hother r hrr]
  exact Meaning.document (by simp) ⟨rest, hrest, hdrest⟩

/-- Without an array index in it, a path does not end in one. -/
theorem not_index_of_shiftsArray {segments : List Segment}
    (hparse : parseJsonPath path = some segments) (hshift : shiftsArray path = false)
    (t : List Segment) (i : ℕ) : segments ≠ t ++ [.index i] := by
  rintro rfl
  simp [shiftsArray, hparse] at hshift

/-- What the key stands for after an erase that forgets every region: what Redis is left with. -/
theorem means_erase_iff (hs : Sound options s) {s' : MemoryState} (hs' : Sound options s')
    {x y : Option Json} (hown : net.own = .answered)
    (herase : (erase platform options net key path s).2
      = ⟨s'.redis.put key (x.map .json), invalidate options s'.cache key (erasedPath path)⟩)
    (htouch : ∀ r, s'.cache.view.Dirty (key, r) → Touches options (erasedPath path) r) :
    Means options (erase platform options net key path s).2 key y ↔ x = y := by
  have hsound := (@erase_sound platform options net s hs key path fun h ↦ by
    simp [hown] at h).1
  rw [herase] at hsound ⊢
  have hmeans := @means_of_clean options key s'.redis _ x
    (not_dirty_invalidate hs'.valid htouch)
  exact ⟨fun h ↦ Meaning.unique hsound.anchored hmeans h, fun h ↦ h ▸ hmeans⟩

/-- An erase that saves the dirty regions first, or forgets only what it removes. -/
theorem means_erase_of_saves (hs : Sound options s) {d : Json} (hd : Means options s key (some d))
    (htext : ∀ content, s.redis.lookup key ≠ some (.text content))
    {select : List Segment → Bool} (hselect : platform.pathSelect path d = some select)
    (herase : (erase platform options net key path s).1 = true) (hsaves : Saves options path) :
    Means options (erase platform options net key path s).2 key (d.without select) := by
  obtain ⟨s', j, select', hf, hj, ho, hselect', hown, heq⟩ := erase_eq hs hd htext herase
  have hs' : Sound options s' := by
    have h := (flushForErase_calm platform net hs key path).1.sound
    rwa [hf] at h
  -- the parser understands the path
  obtain ⟨segments, hparse⟩ : ∃ segments, parseJsonPath path = some segments := by
    rcases hsaves with rfl | ⟨segments, hparse, -⟩ | hshift
    · exact ⟨[], by decide +kernel⟩
    · exact ⟨segments, hparse⟩
    · cases hparse : parseJsonPath path with
      | some segments => exact ⟨segments, rfl⟩
      | none => simp [shiftsArray, hparse] at hshift
  rw [Platform.pathSelect, hparse] at hselect hselect'
  obtain rfl := Option.some.inj hselect
  obtain rfl := Option.some.inj hselect'
  by_cases hroot : path = "$"
  · -- the whole document goes
    have hnil : segments = [] := by
      rw [hroot] at hparse
      exact (Option.some.inj (hparse.symm.trans (by decide +kernel : _ = some [])))
    refine (means_erase_iff hs hs' hown heq fun r hr ↦ ?_).mpr ?_
    · obtain ⟨v, hv⟩ := hr
      obtain ⟨p, -, -, hp, -⟩ := hs'.anchored key r _ hv
      rw [erasedPath, hroot, ite_self]
      exact touches_root hp
    · simp [Json.without, hnil]
  by_cases hflush : path ≠ "$" ∧ insideRegion options path ∨ shiftsArray path
  · -- everything is saved first
    have hclean := flushForErase_clean hs hf hflush
    refine (means_erase_iff hs hs' hown heq fun r hr ↦ absurd hr (hclean r)).mpr ?_
    rw [ho.of_clean hclean]
  -- a whole region goes, and only that
  have hshift : shiftsArray path = false := by
    simpa using fun h ↦ hflush (Or.inr h)
  have hne : segments ≠ [] := fun hnil ↦ hroot (parseJsonPath_root (hnil ▸ hparse))
  have hwithout : ∀ j : Json, j.without (fun p ↦ p = segments)
      = some (j.prune fun p ↦ p = segments) := fun j ↦ by
    simp [Json.without, Ne.symm hne]
  have hdeep : options.regionDepth ≤ segments.length := by
    rcases hsaves with h | ⟨segments', hparse', hle⟩ | h
    · exact absurd h hroot
    · rwa [Option.some.inj (hparse.symm.trans hparse')]
    · exact absurd (Or.inr h) hflush
  have hdrop : segments.drop options.regionDepth = [] := by
    by_contra hrest
    refine hflush (Or.inl ⟨hroot, ?_⟩)
    simp [insideRegion, region, hparse, not_lt.mpr hdeep, hrest]
  have hlen : segments.length = options.regionDepth := by
    have := List.drop_eq_nil_iff.mp hdrop
    omega
  have hregion : region options path = some (canonical segments, []) := by
    rw [region, hparse]
    simp only
    rw [if_neg (not_lt.mpr hdeep), hdrop, ← hlen, List.take_length]
  rw [heq, hwithout, hwithout, erasedPath, hshift]
  exact means_erase_region hs' hj ho hregion ⟨rfl, hlen, parseJsonPath_fits hparse⟩ hne
    (not_index_of_shiftsArray hparse hshift)

/-- An erase that forgets every region without having saved any. -/
theorem means_erase_of_forgets (hs : Sound options s) {j d : Json}
    (hj : s.redis.lookup key = some (.json j)) (hd : Means options s key (some d))
    {select : List Segment → Bool} (hselect : platform.pathSelect path j = some select)
    (herase : (erase platform options net key path s).1 = true) (hsaves : ¬Saves options path) :
    Means options (erase platform options net key path s).2 key (d.without select) ↔
      ∀ r v q u, s.cache.view (key, r) = some ⟨v, true⟩ → IsRegion options r q →
        j.find q = some u → Json.LeavesSame select q u (merge options v u) := by
  have htext : ∀ content, s.redis.lookup key ≠ some (.text content) := fun content h ↦ by
    simp [hj] at h
  have hshift : shiftsArray path = false := by
    simpa using fun h ↦ hsaves (Or.inr (Or.inr h))
  have hregion : region options path = none := by
    unfold region
    cases hparse : parseJsonPath path with
    | none => rfl
    | some segments =>
      simp only
      rw [if_pos]
      by_contra hlen
      exact hsaves (Or.inr (Or.inl ⟨segments, hparse, not_lt.mp hlen⟩))
  obtain ⟨s', j', select', hf, hj', ho, hselect', hown, heq⟩ := erase_eq hs hd htext herase
  rw [flushForErase_eq (by simp [insideRegion, hregion]) hshift] at hf
  obtain rfl := (Prod.mk.inj hf).2
  obtain rfl : j = j' := by simpa using hj.symm.trans hj'
  obtain rfl := Option.some.inj (hselect.symm.trans hselect')
  rw [means_erase_iff hs hs hown heq fun r _ ↦ by
    rw [erasedPath, hshift]
    exact touches_of_region_eq_none hregion r]
  exact without_eq_iff hs hj ho select

/-- **The frame of an erase.** After an erase that reports success, what the key shows is what it
showed before, less what the path selects there, if the erase was harmless; and only then, where
the path selects the same in the document as Redis holds it. -/
theorem erase_frame_iff (platform : Platform) (options : Options) {s : MemoryState}
    (hs : Reachable platform options s) (net : Outcomes) {key path : String} {j d : Json}
    (hj : s.redis.lookup key = some (.json j)) (hd : Shows platform options s key (some d))
    {select : List Segment → Bool} (hselect : platform.pathSelect path d = some select)
    (herase : (erase platform options net key path s).1 = true) :
    (Harmless platform options s key path j select →
        Shows platform options (erase platform options net key path s).2 key
          (d.without select)) ∧
      (platform.pathSelect path j = some select →
        Shows platform options (erase platform options net key path s).2 key
          (d.without select) → Harmless platform options s key path j select) := by
  have hsound := hs.sound
  have htext : ∀ content, s.redis.lookup key ≠ some (.text content) := fun content h ↦ by
    simp [hj] at h
  obtain ⟨hd, hcurrent⟩ := (shows_iff hsound htext).mp hd
  obtain ⟨s', j', select', -, -, -, -, hown, heq⟩ := erase_eq hsound hd htext herase
  have hlost : net.own ≠ .lost := by simp [hown]
  have hsound' := (@erase_sound platform options net s hsound key path fun h ↦ absurd h hlost).1
  have hcurrent' :=
    @erase_current platform options net s key path _ key likeness_same hlost hsound hcurrent
  rw [shows_iff hsound' (by
    rw [heq]
    simp only [Redis.lookup_put, if_true]
    cases j'.without select' <;> simp)]
  constructor
  · rintro (hsaves | ⟨hsame, hregions⟩)
    · exact ⟨means_erase_of_saves hsound hd htext hselect herase hsaves, hcurrent'⟩
    · by_cases hsaves : Saves options path
      · exact ⟨means_erase_of_saves hsound hd htext hselect herase hsaves, hcurrent'⟩
      · exact ⟨(means_erase_of_forgets hsound hj hd hsame herase hsaves).mpr hregions, hcurrent'⟩
  · rintro hsame ⟨hmeans, -⟩
    by_cases hsaves : Saves options path
    · exact Or.inl hsaves
    · exact Or.inr ⟨hsame, (means_erase_of_forgets hsound hj hd hsame herase hsaves).mp hmeans⟩

/-! ## A forgotten write -/

/-- Two members of two levels, one of them cached below and written. -/
def unsavedBelow : MemoryState :=
  runAll .plain { regionDepth := 2 }
    (initial { regionDepth := 2 }
      [("k", .json (.obj [("a", .obj [("x", .int 1)]), ("b", .obj [("x", .int 1)])]))])
    [(.read "k" "$.b.x", .fine), (.read "k" "$.b.x", .fine), (.write "k" (.int 2) "$.b.x", .fine)]

theorem reachable_unsavedBelow : Reachable .plain { regionDepth := 2 } unsavedBelow := by
  unfold unsavedBelow
  refine Reachable.runAll _ (Reachable.initial _) ?_
  simp only [List.forall_mem_cons, List.not_mem_nil, false_implies, implies_true, and_true]
  exact ⟨⟨lossless_fine, trivial⟩, ⟨lossless_fine, trivial⟩, ⟨lossless_fine, trivial⟩⟩

/-- A key shows what one flush leaves, if its commands are answered. -/
theorem shows_of_flush (hrec : Recovers options) (h : Reachable platform options s)
    (htext : ∀ content, s.redis.lookup key ≠ some (.text content)) {d : Json}
    (hflush : (flush platform options .fine key s).2.redis.lookup key = some (.json d)) :
    Shows platform options s key (some d) := by
  obtain ⟨x, hx⟩ := h.exists_shows hrec htext
  have hb := @flush_answered platform options .fine s h.sound (fun _ _ ↦ rfl) (fun _ _ ↦ rfl) key
  rw [hx.flushed .fine hb] at hflush
  obtain ⟨d', rfl, heq⟩ := Option.map_eq_some_iff.mp hflush
  rwa [← RedisValue.json.inj heq]

theorem shows_unsavedBelow : Shows .plain { regionDepth := 2 } unsavedBelow "k"
    (some (.obj [("a", .obj [("x", .int 1)]), ("b", .obj [("x", .int 2)])])) := by
  have hj : unsavedBelow.redis.lookup "k"
      = some (.json (.obj [("a", .obj [("x", .int 1)]), ("b", .obj [("x", .int 1)])])) := by
    decide +kernel
  exact shows_of_flush (recovers_of_none rfl) reachable_unsavedBelow (by simp [hj])
    (by decide +kernel)

/-- An erase of the unsaved region itself keeps the other member. -/
theorem erase_frame_of_region :
    (erase .plain { regionDepth := 2 } .fine "k" "$.b.x" unsavedBelow).1 = true ∧
      Shows .plain { regionDepth := 2 }
        (erase .plain { regionDepth := 2 } .fine "k" "$.b.x" unsavedBelow).2 "k"
        (Json.without (fun p ↦ p = [.key "b", .key "x"])
          (.obj [("a", .obj [("x", .int 1)]), ("b", .obj [("x", .int 2)])])) := by
  have hparse : parseJsonPath "$.b.x" = some [.key "b", .key "x"] := by decide +kernel
  have hj : unsavedBelow.redis.lookup "k"
      = some (.json (.obj [("a", .obj [("x", .int 1)]), ("b", .obj [("x", .int 1)])])) := by
    decide +kernel
  have herase : (erase .plain { regionDepth := 2 } .fine "k" "$.b.x" unsavedBelow).1 = true := by
    decide +kernel
  exact ⟨herase, (erase_frame_iff .plain { regionDepth := 2 } reachable_unsavedBelow .fine hj
    shows_unsavedBelow (by rw [Platform.pathSelect, hparse]) herase).1
      (Or.inl (Or.inr (Or.inl ⟨_, hparse, by decide⟩)))⟩

/-- An erase of one member forgets the unsaved write of the other. -/
theorem erase_forgets_unsaved :
    Reachable .plain { regionDepth := 2 } unsavedBelow ∧
      Shows .plain { regionDepth := 2 } unsavedBelow "k"
        (some (.obj [("a", .obj [("x", .int 1)]), ("b", .obj [("x", .int 2)])])) ∧
      (erase .plain { regionDepth := 2 } .fine "k" "$.a" unsavedBelow).1 = true ∧
      ¬Shows .plain { regionDepth := 2 }
        (erase .plain { regionDepth := 2 } .fine "k" "$.a" unsavedBelow).2 "k"
        (some (.obj [("b", .obj [("x", .int 2)])])) := by
  refine ⟨reachable_unsavedBelow, shows_unsavedBelow, by decide +kernel, fun h ↦ ?_⟩
  -- a flush leaves the old value
  have hflushed := h.flushed .fine (by decide +kernel)
  have hold : (flush .plain { regionDepth := 2 } .fine "k"
      (erase .plain { regionDepth := 2 } .fine "k" "$.a" unsavedBelow).2).2.redis.lookup "k"
        = some (.json (.obj [("b", .obj [("x", .int 1)])])) := by
    decide +kernel
  rw [hold] at hflushed
  simp at hflushed

end MemoryClass

end Agora
