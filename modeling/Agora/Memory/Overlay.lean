import Agora.Memory.MemoryClass

/-!
# A document under its dirty regions

The document a client means is the one in Redis overlaid with the regions that are still to be
written back. Regions have canonical paths of one length, so different regions lie apart and the
order of the overlay does not matter (`overlay_perm`). Writing one region back, whether or not the
cache learns that it succeeded, does not change the result (`overlay_writeBack`,
`overlay_lost`).
-/

namespace Agora

namespace MemoryClass

open WriteBack

variable {options : Options}

/-! ## Regions -/

/-- The name of a region with its segments. -/
structure IsRegion (options : Options) (region : String) (segments : List Segment) : Prop where
  name : region = canonical segments
  length : segments.length = options.regionDepth
  fits : ∀ s ∈ segments, Segment.Fits s

theorem IsRegion.parse {r : String} {p : List Segment} (h : IsRegion options r p) :
    parseJsonPath r = some p := by
  rw [h.name, parseJsonPath_canonical h.fits]

theorem IsRegion.unique {r : String} {p q : List Segment} (hp : IsRegion options r p)
    (hq : IsRegion options r q) : p = q :=
  Option.some.inj (hp.parse.symm.trans hq.parse)

theorem IsRegion.apart {r r' : String} {p q : List Segment} (hp : IsRegion options r p)
    (hq : IsRegion options r' q) (hne : r ≠ r') : Json.Apart p q := by
  refine Json.apart_of_length_eq (hp.length.trans hq.length.symm) ?_
  rintro rfl
  exact hne (hp.name.trans hq.name.symm)

/-- A path that the cache understands is a region followed by a path inside it. -/
theorem isRegion_of_region {path parent : String} {relative : List Segment}
    (h : region options path = some (parent, relative)) :
    ∃ p, parseJsonPath path = some (p ++ relative) ∧ IsRegion options parent p := by
  unfold region at h
  split at h
  · simp at h
  · next segments hparse =>
    split_ifs at h with hlen
    obtain ⟨rfl, rfl⟩ := Prod.mk.inj (Option.some.inj h)
    have hfits := parseJsonPath_fits hparse
    refine ⟨segments.take options.regionDepth, by rw [List.take_append_drop, hparse], rfl, ?_, ?_⟩
    · rw [List.length_take]
      omega
    · exact fun s hs ↦ hfits s (List.mem_of_mem_take hs)

/-! ## Merging remote fields -/

theorem lookup_mergeFields (original : List (String × Json)) (names : List String)
    (fields : List (String × Json)) (k : String) :
    (mergeFields original names fields).lookup k
      = if (fields.lookup k).isNone ∧ k ∈ names then original.lookup k else fields.lookup k := by
  induction names generalizing fields with
  | nil => simp [mergeFields]
  | cons name names ih =>
    rw [mergeFields, ih]
    by_cases hk : k = name
    · subst hk
      cases hf : fields.lookup k with
      | some v => simp [hf]
      | none => cases original.lookup k <;> simp [hf]
    · have hmem : k ∈ name :: names ↔ k ∈ names := by
        rw [List.mem_cons]
        exact or_iff_right hk
      have hset : ∀ v : Json, (Assoc.set name v fields).lookup k = fields.lookup k := fun v ↦
        Assoc.lookup_set_of_ne (Ne.symm hk) v fields
      simp only [hmem]
      cases fields.lookup name with
      | some v => rfl
      | none => cases original.lookup name with
        | none => rfl
        | some v => simp only [hset]

/-- Merging depends on the original only at the names that are missing. -/
theorem mergeFields_congr {original original' : List (String × Json)} {names : List String}
    {fields : List (String × Json)}
    (h : ∀ k ∈ names, fields.lookup k = none → original.lookup k = original'.lookup k) :
    mergeFields original names fields = mergeFields original' names fields := by
  induction names generalizing fields with
  | nil => rfl
  | cons name names ih =>
    rw [mergeFields, mergeFields]
    have hrest : ∀ fs : List (String × Json), (∀ k, fs.lookup k = none → fields.lookup k = none) →
        mergeFields original names fs = mergeFields original' names fs := fun fs hfs ↦
      ih fun k hk hnone ↦ h k (List.mem_cons_of_mem _ hk) (hfs k hnone)
    cases hf : fields.lookup name with
    | some v => exact hrest fields fun _ ↦ id
    | none =>
      rw [h name List.mem_cons_self hf]
      cases original'.lookup name with
      | none => exact hrest fields fun _ ↦ id
      | some v =>
        refine hrest _ fun k hk ↦ ?_
        rw [Assoc.lookup_set] at hk
        split at hk
        · simp at hk
        · exact hk

theorem merge_of_remote_nil {value : Json} (h : remote options value = []) (original : Json) :
    merge options value original = value := by
  unfold merge
  split
  · rw [h, mergeFields]
  · rfl

/-- An object has no fields that it is missing. -/
theorem mergeFields_self (fields : List (String × Json)) (names : List String) :
    mergeFields fields names fields = fields := by
  induction names with
  | nil => rfl
  | cons name names ih =>
    rw [mergeFields]
    cases fields.lookup name <;> exact ih

/-- What was merged once is merged already. -/
theorem merge_merge (value original : Json) :
    merge options value (merge options value original) = merge options value original := by
  cases value with
  | obj fields =>
    cases original with
    | obj others =>
      refine congrArg Json.obj (mergeFields_congr fun k hk hnone ↦ ?_)
      rw [lookup_mergeFields, if_pos ⟨by rw [hnone]; rfl, hk⟩]
    | _ => exact congrArg Json.obj (mergeFields_self fields _)
  | _ => rfl

theorem remote_of_none (h : options.remoteFields = none) (value : Json) :
    remote options value = [] := by
  rw [remote, h]

theorem project_of_none (h : options.remoteFields = none) (value : Json) :
    project options value = value := by
  unfold project
  split
  · rw [remote_of_none h, List.foldl_nil]
  · rfl

theorem merge_of_none (h : options.remoteFields = none) (value original : Json) :
    merge options value original = value :=
  merge_of_remote_nil (remote_of_none h value) original

/-! ## The overlay -/

/-- Every listed region exists in the document. -/
def Present (options : Options) (l : List (String × Json)) (j : Json) : Prop :=
  ∀ e ∈ l, ∃ p, IsRegion options e.1 p ∧ (j.find p).isSome

theorem Present.tail {e : String × Json} {l : List (String × Json)} {j : Json}
    (h : Present options (e :: l) j) : Present options l j :=
  fun e' he' ↦ h e' (List.mem_cons_of_mem _ he')

/-- A write to another region keeps the listed ones. -/
theorem Present.set {l : List (String × Json)} {j j' w : Json} {r : String} {p : List Segment}
    (h : Present options l j) (hr : IsRegion options r p) (hl : r ∉ l.map Prod.fst)
    (hset : j.set p w = some j') : Present options l j' := by
  intro e he
  obtain ⟨q, hq, hfind⟩ := h e he
  have hne : r ≠ e.1 := by
    rintro rfl
    exact hl (List.mem_map_of_mem he)
  exact ⟨q, hq, by rwa [Json.find_set_of_apart (hr.apart hq hne) hset]⟩

theorem overlay_cons {r : String} {p : List Segment} (hr : IsRegion options r p) {j u : Json}
    (hu : j.find p = some u) (v : Json) (l : List (String × Json)) :
    overlay options ((r, v) :: l) j = (j.set p (merge options v u)).bind (overlay options l) := by
  rw [overlay, hr.parse]
  simp only [Option.getD_some, hu]

theorem overlay_append (l l' : List (String × Json)) (j : Json) :
    overlay options (l ++ l') j = (overlay options l j).bind (overlay options l') := by
  induction l generalizing j with
  | nil => rfl
  | cons e l ih =>
    obtain ⟨r, v⟩ := e
    rw [List.cons_append, overlay, overlay, Option.bind_assoc]
    exact congrArg _ (funext ih)

/-- The overlay succeeds when every region is there. -/
theorem overlay_isSome {l : List (String × Json)} {j : Json} (hnodup : (l.map Prod.fst).Nodup)
    (h : Present options l j) : (overlay options l j).isSome := by
  induction l generalizing j with
  | nil => rfl
  | cons e l ih =>
    obtain ⟨r, v⟩ := e
    obtain ⟨hr, hnodup⟩ := List.nodup_cons.mp hnodup
    obtain ⟨p, hp, hfind⟩ := h (r, v) List.mem_cons_self
    obtain ⟨u, hu⟩ := Option.isSome_iff_exists.mp hfind
    obtain ⟨j', hj'⟩ := Option.isSome_iff_exists.mp
      (Json.set_isSome_of_find hfind (merge options v u))
    rw [overlay_cons hp hu, hj', Option.bind_some]
    exact ih hnodup (h.tail.set hp hr hj')

/-- A place apart from all regions of the overlay is as it was. -/
theorem find_overlay_of_apart {l : List (String × Json)} {j d : Json}
    (hnodup : (l.map Prod.fst).Nodup) (h : Present options l j)
    (hd : overlay options l j = some d) {q : List Segment}
    (hq : ∀ e ∈ l, ∀ p, IsRegion options e.1 p → Json.Apart p q) : d.find q = j.find q := by
  induction l generalizing j with
  | nil => rw [← Option.some.inj hd]
  | cons e l ih =>
    obtain ⟨r, v⟩ := e
    obtain ⟨hr, hnodup⟩ := List.nodup_cons.mp hnodup
    obtain ⟨p, hp, hfind⟩ := h (r, v) List.mem_cons_self
    obtain ⟨u, hu⟩ := Option.isSome_iff_exists.mp hfind
    rw [overlay_cons hp hu] at hd
    obtain ⟨j', hj', hd⟩ := Option.bind_eq_some_iff.mp hd
    rw [ih hnodup (h.tail.set hp hr hj') hd fun e he ↦ hq e (List.mem_cons_of_mem _ he)]
    exact Json.find_set_of_apart (hq (r, v) List.mem_cons_self p hp) hj'

/-- A region of the overlay shows its dirty value, with the remote fields of the document. -/
theorem find_overlay {l : List (String × Json)} {j d u v : Json} {r : String} {p : List Segment}
    (hnodup : (l.map Prod.fst).Nodup) (h : Present options l j)
    (hd : overlay options l j = some d) (hr : IsRegion options r p) (hmem : (r, v) ∈ l)
    (hu : j.find p = some u) : d.find p = some (merge options v u) := by
  induction l generalizing j with
  | nil => exact absurd hmem List.not_mem_nil
  | cons e l ih =>
    obtain ⟨r', v'⟩ := e
    obtain ⟨hr', hnodup'⟩ := List.nodup_cons.mp hnodup
    obtain ⟨p', hp', hfind⟩ := h (r', v') List.mem_cons_self
    obtain ⟨u', hu'⟩ := Option.isSome_iff_exists.mp hfind
    rw [overlay_cons hp' hu'] at hd
    obtain ⟨j', hj', hd'⟩ := Option.bind_eq_some_iff.mp hd
    have hpresent := h.tail.set hp' hr' hj'
    rcases List.mem_cons.mp hmem with heq | hmem
    · obtain ⟨rfl, rfl⟩ := Prod.mk.inj heq
      obtain rfl := hr.unique hp'
      obtain rfl : u = u' := Option.some.inj (hu.symm.trans hu')
      have hapart : ∀ e ∈ l, ∀ q, IsRegion options e.1 q → Json.Apart q p := by
        intro e he q hq
        refine (hr.apart hq ?_).symm
        intro heq
        have hmem : e.1 ∈ l.map Prod.fst := List.mem_map_of_mem he
        exact hr' (heq ▸ hmem)
      rw [find_overlay_of_apart hnodup' hpresent hd' hapart]
      exact Json.find_set_self hj'
    · have hin : r ∈ l.map Prod.fst := List.mem_map_of_mem hmem
      have hne : r' ≠ r := fun heq ↦ hr' (heq ▸ hin)
      exact ih hnodup' hpresent hd' hmem
        ((Json.find_set_of_apart (hp'.apart hr hne) hj').trans hu)

/-- A write apart from all regions of the overlay can be made before or after it. -/
theorem overlay_set {l : List (String × Json)} {j w : Json} {q : List Segment}
    (hnodup : (l.map Prod.fst).Nodup) (h : Present options l j)
    (hq : ∀ e ∈ l, ∀ p, IsRegion options e.1 p → Json.Apart q p) :
    (j.set q w).bind (overlay options l) = (overlay options l j).bind (Json.set q · w) := by
  induction l generalizing j with
  | nil => cases hj : j.set q w <;> simp [overlay, hj]
  | cons e l ih =>
    obtain ⟨r, v⟩ := e
    obtain ⟨hr, hnodup⟩ := List.nodup_cons.mp hnodup
    obtain ⟨p, hp, hfind⟩ := h (r, v) List.mem_cons_self
    obtain ⟨u, hu⟩ := Option.isSome_iff_exists.mp hfind
    have hapart := hq (r, v) List.mem_cons_self p hp
    have hstep : ∀ j', j.set q w = some j' → overlay options ((r, v) :: l) j'
        = (j'.set p (merge options v u)).bind (overlay options l) := fun j' hj' ↦
      overlay_cons hp ((Json.find_set_of_apart hapart hj').trans hu) v l
    have hleft : (j.set q w).bind (overlay options ((r, v) :: l))
        = ((j.set q w).bind (Json.set p · (merge options v u))).bind (overlay options l) := by
      rw [Option.bind_assoc]
      cases hj : j.set q w with
      | none => rfl
      | some j' => exact hstep j' hj
    rw [hleft, overlay_cons hp hu, Json.set_comm hapart hfind, Option.bind_assoc, Option.bind_assoc]
    cases hj : j.set p (merge options v u) with
    | none => rfl
    | some j' =>
      exact ih hnodup (h.tail.set hp hr hj) fun e he ↦ hq e (List.mem_cons_of_mem _ he)

/-- The order of the overlay does not matter. -/
theorem overlay_perm {l l' : List (String × Json)} (hperm : l.Perm l') {j : Json}
    (hnodup : (l.map Prod.fst).Nodup) (h : Present options l j) :
    overlay options l j = overlay options l' j := by
  induction hperm generalizing j with
  | nil => rfl
  | cons e _ ih =>
    obtain ⟨r, v⟩ := e
    obtain ⟨hr, hnodup⟩ := List.nodup_cons.mp hnodup
    obtain ⟨p, hp, hfind⟩ := h (r, v) List.mem_cons_self
    obtain ⟨u, hu⟩ := Option.isSome_iff_exists.mp hfind
    rw [overlay_cons hp hu, overlay_cons hp hu]
    cases hj : j.set p (merge options v u) with
    | none => rfl
    | some j' => exact ih hnodup (h.tail.set hp hr hj)
  | swap e e' l =>
    obtain ⟨r, v⟩ := e
    obtain ⟨r', v'⟩ := e'
    obtain ⟨hr', hnodup⟩ := List.nodup_cons.mp hnodup
    obtain ⟨p', hp', hfind'⟩ := h (r', v') List.mem_cons_self
    obtain ⟨p, hp, hfind⟩ := h (r, v) (List.mem_cons_of_mem _ List.mem_cons_self)
    obtain ⟨u', hu'⟩ := Option.isSome_iff_exists.mp hfind'
    obtain ⟨u, hu⟩ := Option.isSome_iff_exists.mp hfind
    have hne : r' ≠ r := fun heq ↦ hr' (by rw [heq]; exact List.mem_cons_self)
    have hapart := hp'.apart hp hne
    -- both orders are the two writes, one after the other
    have hleft : overlay options ((r', v') :: (r, v) :: l) j
        = ((j.set p' (merge options v' u')).bind (Json.set p · (merge options v u))).bind
          (overlay options l) := by
      rw [overlay_cons hp' hu', Option.bind_assoc]
      cases hj : j.set p' (merge options v' u') with
      | none => rfl
      | some j' => exact overlay_cons hp ((Json.find_set_of_apart hapart hj).trans hu) v l
    have hright : overlay options ((r, v) :: (r', v') :: l) j
        = ((j.set p (merge options v u)).bind (Json.set p' · (merge options v' u'))).bind
          (overlay options l) := by
      rw [overlay_cons hp hu, Option.bind_assoc]
      cases hj : j.set p (merge options v u) with
      | none => rfl
      | some j' => exact overlay_cons hp' ((Json.find_set_of_apart hapart.symm hj).trans hu') v' l
    rw [hleft, hright, Json.set_comm hapart hfind]
  | trans hperm _ ih ih' =>
    rw [ih hnodup h]
    exact ih' ((hperm.map Prod.fst).nodup_iff.mp hnodup)
      fun e he ↦ h e (hperm.mem_iff.mpr he)

end MemoryClass

end Agora
