import Agora.Memory.Refinement
import Agora.Memory.Shown

/-!
# Remote fields

What becomes of the fields that stay in Redis while the rest of a region is cached. They are taken
out of a value when it is cached (`project`) and taken from Redis again when it is written back
(`merge`); a write of a whole region that does not mention one is meant to keep it (`kept`).

**Main result.** `remote_fields_survive`: in every run whose writes are all careful (`Careful`), a
flush that succeeds leaves in Redis what a plain store holds. A write is not careful when a field
changes between being remote and not while it is cached, or when a whole region is replaced in
Redis directly and the value leaves out a remote field.

The function that says which fields of a value are remote looks at its other fields only
(`Ordinary`).
-/

namespace Agora

namespace MemoryClass

open WriteBack

variable {platform : Platform} {options : Options} {net : Outcomes}

/-! ## Projecting and merging -/

/-- Only objects have remote fields, and which they are depends on the other fields only, not on
their order. -/
structure Ordinary (options : Options) : Prop where
  object : ∀ v, v.shape ≠ .obj → remote options v = []
  stable : ∀ fs gs : List (String × Json), (∀ k, k ∉ remote options (.obj fs) →
    Option.Rel Json.Same (fs.lookup k) (gs.lookup k)) →
      remote options (.obj gs) = remote options (.obj fs)

/-- A value without its remote fields. -/
def Projected (options : Options) (v : Json) : Prop :=
  ∀ f ∈ remote options v, v.child (.key f) = none

theorem project_obj (fs : List (String × Json)) :
    project options (.obj fs) = .obj (fs.filter fun e ↦ e.1 ∉ remote options (.obj fs)) := by
  have hfold : ∀ (names : List String) (fs : List (String × Json)),
      names.foldl (fun fs field ↦ Assoc.erase field fs) fs
        = fs.filter fun e ↦ e.1 ∉ names := by
    intro names
    induction names with
    | nil => simp
    | cons name names ih =>
      intro fs
      rw [List.foldl_cons, ih, Assoc.erase, List.filter_filter]
      refine List.filter_congr fun e _ ↦ ?_
      rw [Bool.eq_iff_iff]
      simp [not_or, and_comm]
  rw [project, hfold]

theorem lookup_filter {p : String → Bool} (fs : List (String × Json)) (k : String) :
    (fs.filter fun e ↦ p e.1).lookup k = if p k then fs.lookup k else none := by
  induction fs with
  | nil => simp
  | cons e fs ih =>
    obtain ⟨k', v⟩ := e
    by_cases hk : k' = k
    · subst hk
      by_cases hp : p k'
      · simp [hp]
      · simp [hp, ih]
    · rw [Assoc.lookup_cons_of_ne hk, List.filter_cons]
      by_cases hp : p k'
      · simp only [hp, if_true]
        rw [Assoc.lookup_cons_of_ne hk, ih]
      · simp only [hp, Bool.false_eq_true, if_false]
        exact ih

theorem child_project (v : Json) (f : String) :
    (project options v).child (.key f)
      = if v.shape = .obj ∧ f ∈ remote options v then none else v.child (.key f) := by
  rcases v with _ | _ | _ | _ | _ | _ | fs
  all_goals try rfl
  rw [project_obj]
  simp only [Json.child, Json.shape, true_and]
  rw [@lookup_filter (fun k ↦ decide (k ∉ remote options (.obj fs))) fs f]
  by_cases hf : f ∈ remote options (.obj fs) <;> simp [hf]

theorem shape_project (v : Json) : (project options v).shape = v.shape := by
  rcases v with _ | _ | _ | _ | _ | _ | fs
  all_goals rfl

theorem project_of_not_obj {v : Json} (h : v.shape ≠ .obj) : project options v = v := by
  rcases v with _ | _ | _ | _ | _ | _ | fs
  all_goals first | rfl | exact absurd rfl h

theorem project_of_projected {v : Json} (h : Projected options v) : project options v = v := by
  rcases v with _ | _ | _ | _ | _ | _ | fs
  all_goals try rfl
  rw [project_obj, List.filter_eq_self.mpr]
  rintro ⟨k, w⟩ hmem
  simp only [decide_eq_true_eq]
  intro hk
  have hnone : fs.lookup k = none := h k hk
  rw [List.lookup_eq_none_iff] at hnone
  simpa using hnone (k, w) hmem

theorem child_merge {c : Json} (hc : c.shape = .obj) (u : Json) (f : String) :
    (merge options c u).child (.key f)
      = if (c.child (.key f)).isNone ∧ f ∈ remote options c then u.child (.key f)
        else c.child (.key f) := by
  obtain ⟨fs, rfl⟩ := Json.shape_eq_obj.mp hc
  by_cases hu : u.shape = .obj
  · obtain ⟨gs, rfl⟩ := Json.shape_eq_obj.mp hu
    exact lookup_mergeFields ..
  · have hchild : u.child (.key f) = none := by
      rcases u with _ | _ | _ | _ | _ | _ | gs
      case obj => exact absurd rfl hu
      all_goals rfl
    have hmerge : merge options (.obj fs) u = .obj fs := by
      rcases u with _ | _ | _ | _ | _ | _ | gs
      case obj => exact absurd rfl hu
      all_goals rfl
    rw [hmerge, hchild]
    split_ifs with h
    · exact Option.isNone_iff_eq_none.mp h.1
    · rfl

/-- Merging into a value that has no remote fields takes them from Redis. -/
theorem child_merge_of_projected {c : Json} (h : Projected options c) (hc : c.shape = .obj)
    (u : Json) (f : String) : (merge options c u).child (.key f)
      = if f ∈ remote options c then u.child (.key f) else c.child (.key f) := by
  rw [child_merge hc]
  by_cases hf : f ∈ remote options c
  · rw [if_pos hf, if_pos ⟨by rw [h f hf]; rfl, hf⟩]
  · rw [if_neg hf, if_neg fun h ↦ hf h.2]

theorem shape_merge (c u : Json) : (merge options c u).shape = c.shape := by
  rcases c with _ | _ | _ | _ | _ | _ | fs <;> rcases u with _ | _ | _ | _ | _ | _ | gs <;> rfl

theorem merge_of_not_obj {c : Json} (h : c.shape ≠ .obj) (u : Json) : merge options c u = c := by
  rcases c with _ | _ | _ | _ | _ | _ | fs
  all_goals first | rfl | exact absurd rfl h

/-- The fields that are not remote stay as they are when remote ones are merged in. -/
theorem filter_mergeFields {names all : List String} (gs : List (String × Json))
    {fs : List (String × Json)} (h : ∀ n ∈ names, n ∈ all) :
    (mergeFields gs names fs).filter (fun e ↦ e.1 ∉ all) = fs.filter fun e ↦ e.1 ∉ all := by
  have hset : ∀ (n : String) (v : Json) (fs : List (String × Json)), n ∈ all →
      (Assoc.set n v fs).filter (fun e ↦ e.1 ∉ all) = fs.filter fun e ↦ e.1 ∉ all := by
    intro n v fs hn
    induction fs with
    | nil => simp [Assoc.set, hn]
    | cons e fs ih =>
      obtain ⟨k, w⟩ := e
      rw [Assoc.set]
      split_ifs with hk
      · simp [hk, hn]
      · rw [List.filter_cons, List.filter_cons, ih]
  induction names generalizing fs with
  | nil => rfl
  | cons name names ih =>
    rw [mergeFields, ih fun n hn ↦ h n (List.mem_cons_of_mem _ hn)]
    split
    · exact hset name _ fs (h name List.mem_cons_self)
    · rfl

section Ordinary

variable (ho : Ordinary options)

include ho

theorem remote_congr {a b : Json} (ha : a.shape = .obj) (hb : b.shape = .obj)
    (h : ∀ k, k ∉ remote options a → Option.Rel Json.Same (a.child (.key k)) (b.child (.key k))) :
    remote options b = remote options a := by
  obtain ⟨fs, rfl⟩ := Json.shape_eq_obj.mp ha
  obtain ⟨gs, rfl⟩ := Json.shape_eq_obj.mp hb
  exact ho.stable fs gs h

theorem remote_same {a b : Json} (h : Json.Same a b) : remote options a = remote options b := by
  by_cases ha : a.shape = .obj
  · exact (remote_congr ho ha (h.shape_eq.symm.trans ha) fun k _ ↦ h.child (.key k)).symm
  · rw [ho.object a ha, ho.object b (h.shape_eq ▸ ha)]

theorem remote_project (v : Json) : remote options (project options v) = remote options v := by
  by_cases hv : v.shape = .obj
  · refine remote_congr ho hv ((shape_project v).trans hv) fun k hk ↦ ?_
    rw [child_project, if_neg fun h ↦ hk h.2]
    exact Json.rel_same_refl _
  · rw [project_of_not_obj hv]

theorem projected_project (v : Json) : Projected options (project options v) := by
  intro f hf
  rw [remote_project ho] at hf
  by_cases hv : v.shape = .obj
  · rw [child_project, if_pos ⟨hv, hf⟩]
  · rw [ho.object v hv] at hf
    exact absurd hf List.not_mem_nil

theorem remote_merge {c : Json} (hc : Projected options c) (u : Json) :
    remote options (merge options c u) = remote options c := by
  by_cases hobj : c.shape = .obj
  · refine remote_congr ho hobj ((shape_merge c u).trans hobj) fun k hk ↦ ?_
    rw [child_merge_of_projected hc hobj, if_neg hk]
    exact Json.rel_same_refl _
  · rw [merge_of_not_obj hobj]

/-- Writing a value back brings nothing new into it. -/
theorem project_merge {c : Json} (hc : Projected options c) (u : Json) :
    project options (merge options c u) = c := by
  by_cases hobj : c.shape = .obj
  · have hremote := remote_merge ho hc u
    obtain ⟨fs, rfl⟩ := Json.shape_eq_obj.mp hobj
    rcases u with _ | _ | _ | _ | _ | _ | gs
    all_goals try exact project_of_projected hc
    rw [merge] at hremote ⊢
    rw [project_obj, hremote, filter_mergeFields gs fun _ ↦ id, ← project_obj,
      project_of_projected hc]
  · rw [merge_of_not_obj hobj, project_of_not_obj hobj]

/-- Merging puts back what was taken out. -/
theorem recovers_of_ordinary : Recovers options := by
  intro u
  by_cases hu : u.shape = .obj
  · have hobj : (project options u).shape = .obj := (shape_project u).trans hu
    refine Json.same_of_child ((shape_merge ..).trans hobj) hu fun k ↦ ?_
    rw [child_merge_of_projected (projected_project ho u) hobj, remote_project ho, child_project]
    by_cases hk : k ∈ remote options u
    · rw [if_pos hk]
      exact Json.rel_same_refl _
    · rw [if_neg hk, if_neg fun h ↦ hk h.2]
      exact Json.rel_same_refl _
  · rw [project_of_not_obj hu, merge_of_not_obj hu]
    exact Json.Same.refl u

end Ordinary

/-! ## Careful writes -/

/-- The value that a write of a whole region is meant to leave there: a remote field of a value of
the same kind that it does not mention is kept. -/
def kept (options : Options) (value : Json) : Option Json → Json
  | some old => if remote options old = remote options value then merge options value old else value
  | none => value

/-- The value that a write is meant to put at its path. -/
def intended (options : Options) (value : Json) (old : Option Json) (relative : List Segment) :
    Json :=
  if relative = [] then kept options value old else value

/-- A write of a region, or below one, on a store without a cache. -/
def PlainStore.keep (platform : Platform) (options : Options) (store : PlainStore) (key : String)
    (value : Json) (path : String) : PlainStore :=
  match region options path with
  | some (_, relative) =>
    let old := (store key).bind (Json.find ((parseJsonPath path).getD []))
    store.write platform key (intended options value old relative) path
  | none => store.write platform key value path

/-- A value that replaces another of its kind has every remote field that the other has. -/
def Mentions (options : Options) (old value : Json) : Prop :=
  remote options old = remote options value → ∀ f ∈ remote options value,
    (old.child (.key f)).isSome → (value.child (.key f)).isSome

/-- A write that stays in the cache changes no field between being remote and not, as far as the
field is there: what becomes remote is what Redis holds, and what was remote is not in Redis. -/
def Preserves (options : Options) (cached current updated : Json) (relative : List Segment) :
    Prop :=
  if relative = [] then
    remote options updated = remote options cached ∨
      ∀ f ∈ remote options updated, updated.child (.key f) = current.child (.key f)
  else
    (∀ f ∈ remote options updated, f ∉ remote options cached →
      updated.child (.key f) = current.child (.key f)) ∧
    ∀ f ∈ remote options cached, f ∉ remote options updated → current.child (.key f) = none

/-- A write of a region, or below one, that loses no remote field. -/
def Careful (options : Options) (s : MemoryState) (key : String) (value : Json) (path : String) :
    Prop :=
  ∃ parent relative, region options path = some (parent, relative) ∧
    ∀ p j u, IsRegion options parent p → s.redis.lookup key = some (.json j) →
      j.find p = some u →
        match s.cache.view (key, parent) with
        | none => relative = [] → Mentions options u value
        | some e =>
          if staysCached options e.value value relative then
            ∀ updated, e.value.set relative value = some updated →
              Preserves options e.value u updated relative
          else relative = [] → Mentions options (merge options e.value u) value

/-! ## One write -/

/-- Replacing a value below a key of an object. -/
theorem set_key_cons (k : String) (rest : List Segment) (v : Json) :
    ∃ inner : Option Json → Option Json, ∀ fs : List (String × Json),
      Json.set (.key k :: rest) (.obj fs) v
        = (inner (fs.lookup k)).map fun w ↦ .obj (Assoc.set k w fs) := by
  by_cases hrest : rest = []
  · subst hrest
    exact ⟨fun _ ↦ some v, fun fs ↦ rfl⟩
  · refine ⟨fun c ↦ c.bind (Json.set rest · v), fun fs ↦ ?_⟩
    rw [Json.set_cons hrest]
    simp only [Json.child]
    rcases fs.lookup k with _ | c
    · rfl
    · simp only [Option.bind_some]
      rcases Json.set rest c v with _ | w <;> rfl

section Ordinary

variable (ho : Ordinary options)

include ho

/-- A write below a cached region: writing it back gives what the write gives in the region as it
is meant. -/
theorem set_merge {c u updated value : Json} {t : Segment} {rest : List Segment}
    (hc : Projected options c) (hexcluded : excluded options c (t :: rest) = false)
    (hset : c.set (t :: rest) value = some updated)
    (hpreserves : Preserves options c u updated (t :: rest)) :
    ∃ z, (merge options c u).set (t :: rest) value = some z ∧
      Json.Same z (merge options (project options updated) u) := by
  rw [Preserves, if_neg (List.cons_ne_nil _ _)] at hpreserves
  obtain ⟨hnew, hold⟩ := hpreserves
  by_cases hobj : c.shape = .obj
  · obtain ⟨fs, rfl⟩ := Json.shape_eq_obj.mp hobj
    obtain ⟨ms, hms⟩ := Json.shape_eq_obj.mp ((shape_merge (.obj fs) u).trans hobj)
    have hmerged := child_merge_of_projected hc hobj u
    rw [hms] at hmerged ⊢
    rcases t with k | i
    · obtain ⟨inner, hinner⟩ := set_key_cons k rest value
      rw [hinner] at hset
      obtain ⟨w, hw, rfl⟩ := Option.map_eq_some_iff.mp hset
      have hk := not_mem_of_excluded hexcluded
      have hsame : ms.lookup k = fs.lookup k := by
        have h := hmerged k
        rwa [if_neg hk] at h
      refine ⟨.obj (Assoc.set k w ms), by rw [hinner, hsame, hw]; rfl, ?_⟩
      have hupdated : (Json.obj (Assoc.set k w fs)).shape = .obj := rfl
      refine Json.same_of_child rfl ((shape_merge ..).trans ((shape_project _).trans hupdated)) ?_
      intro f
      -- what the region is meant to hold, and what writing back puts there
      have hmeant : (Json.obj (Assoc.set k w ms)).child (.key f)
          = if k = f then some w else
            if f ∈ remote options (.obj fs) then u.child (.key f) else fs.lookup f := by
        have h := hmerged f
        simp only [Json.child] at h ⊢
        rw [Assoc.lookup_set, h]
      have hwritten : (merge options (project options (.obj (Assoc.set k w fs))) u).child (.key f)
          = if f ∈ remote options (.obj (Assoc.set k w fs)) then u.child (.key f)
            else if k = f then some w else fs.lookup f := by
        rw [child_merge_of_projected (projected_project ho _) ((shape_project _).trans hupdated),
          remote_project ho, child_project]
        by_cases hf : f ∈ remote options (.obj (Assoc.set k w fs))
        · rw [if_pos hf, if_pos hf]
        · rw [if_neg hf, if_neg hf, if_neg fun h ↦ hf h.2]
          exact Assoc.lookup_set ..
      have hchild : (Json.obj (Assoc.set k w fs)).child (.key f)
          = if k = f then some w else fs.lookup f := Assoc.lookup_set ..
      have heq : (Json.obj (Assoc.set k w ms)).child (.key f)
          = (merge options (project options (.obj (Assoc.set k w fs))) u).child (.key f) := by
        rw [hmeant, hwritten]
        by_cases hnow : f ∈ remote options (.obj (Assoc.set k w fs))
        · by_cases hbefore : f ∈ remote options (.obj fs)
          · have hkf : k ≠ f := fun h ↦ hk (h ▸ hbefore)
            simp [hnow, hbefore, hkf]
          · have h := hnew f hnow hbefore
            rw [hchild] at h
            simp [hnow, hbefore, ← h]
        · by_cases hbefore : f ∈ remote options (.obj fs)
          · have hkf : k ≠ f := fun h ↦ hk (h ▸ hbefore)
            have hnone : fs.lookup f = none := hc f hbefore
            simp [hnow, hbefore, hkf, hold f hbefore hnow, hnone]
          · simp [hnow, hbefore]
      rw [heq]
      exact Json.rel_same_refl _
    · -- an object has no elements
      by_cases hrest : rest = []
      · subst hrest
        simp [Json.putChild] at hset
      · simp [Json.set_cons hrest, Json.child] at hset
  · have hshape := Json.shape_set hset
    have hupdated : updated.shape ≠ .obj := fun h ↦ hobj (hshape.symm.trans h)
    rw [merge_of_not_obj hobj, project_of_not_obj hupdated, merge_of_not_obj hupdated]
    exact ⟨updated, hset, Json.Same.refl _⟩

/-- A write of a whole cached region: writing it back gives what is meant. -/
theorem same_kept {c u y value : Json} (hc : Projected options c)
    (hy : Json.Same y (merge options c u)) (hreplaces : replacesRemote options c value [] = false)
    (hpreserves : Preserves options c u value []) :
    Json.Same (kept options value (some y)) (merge options (project options value) u) := by
  rw [Preserves, if_pos rfl] at hpreserves
  have hremote : remote options y = remote options c :=
    (remote_same ho hy).trans (remote_merge ho hc u)
  rw [kept]
  by_cases hobj : value.shape = .obj
  · obtain ⟨fs, rfl⟩ := Json.shape_eq_obj.mp hobj
    have hproject := @shape_project options (.obj fs)
    have hwritten :=
      child_merge_of_projected (projected_project ho (.obj fs)) (hproject.trans hobj) u
    split_ifs with hkind
    · -- a value of the same kind that mentions none of the remote fields
      rw [hremote] at hkind
      have hnone : Projected options (.obj fs) := by
        intro f hf
        rw [← hkind] at hf
        have hall := List.any_eq_false.mp hreplaces f hf
        rwa [Bool.not_eq_true, Option.isSome_eq_false_iff, Option.isNone_iff_eq_none] at hall
      rw [project_of_projected hnone] at hwritten ⊢
      refine Json.same_of_child ((shape_merge ..).trans hobj) ((shape_merge ..).trans hobj) ?_
      intro f
      rw [child_merge_of_projected hnone hobj, hwritten]
      split_ifs with hf
      · rw [← hkind] at hf
        have hc' : c.shape = .obj := by
          by_contra hne
          rw [ho.object c hne] at hf
          exact List.not_mem_nil hf
        have hold := hy.child (.key f)
        rwa [child_merge_of_projected hc hc', if_pos hf] at hold
      · exact Json.rel_same_refl _
    · -- a value of another kind
      rw [hremote] at hkind
      have hfields := hpreserves.resolve_left (Ne.symm hkind)
      refine Json.same_of_child hobj ((shape_merge ..).trans (hproject.trans hobj)) ?_
      intro f
      have heq : (Json.obj fs).child (.key f)
          = (merge options (project options (.obj fs)) u).child (.key f) := by
        rw [hwritten, remote_project ho, child_project]
        by_cases hf : f ∈ remote options (.obj fs)
        · rw [if_pos hf, hfields f hf]
        · rw [if_neg hf, if_neg fun h ↦ hf h.2]
      rw [heq]
      exact Json.rel_same_refl _
  · -- what is no object has no remote fields
    rw [project_of_not_obj hobj, merge_of_not_obj hobj, merge_of_not_obj hobj, ite_self]
    exact Json.Same.refl _

/-- A value that mentions every remote field it would keep is what is meant. -/
theorem same_of_mentions {x y value : Json} (hy : Json.Same y x)
    (hmentions : Mentions options x value) :
    Json.Same value (kept options value (some y)) := by
  rw [kept]
  split_ifs with hkind
  · by_cases hobj : value.shape = .obj
    · refine Json.same_of_child hobj ((shape_merge ..).trans hobj) fun f ↦ ?_
      rw [child_merge hobj]
      split_ifs with hf
      · obtain ⟨hnone, hf⟩ := hf
        have hold : (x.child (.key f)).isSome = false := by
          by_contra hsome
          have h := hmentions ((remote_same ho hy).symm.trans hkind) f hf
            (by rwa [Bool.not_eq_false] at hsome)
          rw [Option.isNone_iff_eq_none.mp hnone] at h
          simp at h
        have hx := Option.isNone_iff_eq_none.mp (Option.isSome_eq_false_iff.mp hold)
        have hrel := hy.child (.key f)
        rw [hx] at hrel
        rw [Option.isNone_iff_eq_none.mp hnone]
        generalize y.child (.key f) = z at hrel
        rcases hrel
        exact Option.Rel.none
      · exact Json.rel_same_refl _
    · rw [merge_of_not_obj hobj]
      exact Json.Same.refl _
  · exact Json.Same.refl _

/-- What a cached region stands for is its value with the remote fields of Redis. -/
theorem Refines.find_merged {s : MemoryState} {store : PlainStore} {key r : String}
    {p : List Segment} (h : Refines options s store) (hr : IsRegion options r p)
    {e : Entry Json} (he : s.cache.view (key, r) = some e) :
    ∃ j u d x, s.redis.lookup key = some (.json j) ∧ j.find p = some u ∧ store key = some d ∧
      d.find p = some x ∧ Projected options e.value ∧
      Json.Same x (merge options e.value u) := by
  obtain ⟨v, _ | _⟩ := e
  · obtain ⟨q, j, u, hq, hj, hu, rfl⟩ := h.coherent.fresh key r v he
    obtain rfl := hr.unique hq
    obtain ⟨d, hd, hover⟩ := (h.means key).overlaid hj
    have hfind := hover.find_of_not_dirty h.sound.anchored hj hr (fun ⟨w, hw⟩ ↦ by
      simp [he] at hw) []
    rw [List.append_nil, hu] at hfind
    refine ⟨j, u, d, u, hj, hu, hd, hfind, projected_project ho u, ?_⟩
    by_cases hobj : u.shape = .obj
    · have hshape := (@shape_project options u).trans hobj
      refine Json.same_of_child hobj ((shape_merge ..).trans hshape) fun f ↦ ?_
      rw [child_merge_of_projected (projected_project ho u) hshape, remote_project ho,
        child_project]
      by_cases hf : f ∈ remote options u
      · rw [if_pos hf]
        exact Json.rel_same_refl _
      · rw [if_neg hf, if_neg fun h ↦ hf h.2]
        exact Json.rel_same_refl _
    · rw [project_of_not_obj hobj, merge_of_not_obj hobj]
      exact Json.Same.refl u
  · obtain ⟨q, j, u, hq, hj, hu⟩ := h.sound.anchored key r _ he
    obtain rfl := hr.unique hq
    obtain ⟨d, hd, hover⟩ := (h.means key).overlaid hj
    refine ⟨j, u, d, _, hj, hu, hd, hover.find_of_dirty h.sound.anchored hj hr he hu, ?_,
      Json.Same.refl _⟩
    have hsettled := h.coherent.settled key r v p j u he hr hj hu
    simp only
    rw [← hsettled]
    exact projected_project ho _

end Ordinary

/-! ## Runs -/

/-- Two stores hold the same documents, up to the order of fields. -/
def Alike (store store' : PlainStore) : Prop := ∀ key, Option.Rel Json.Same (store key) (store' key)

variable {s : MemoryState} {store plain : PlainStore} {key path parent : String}
  {p relative : List Segment}

theorem Alike.update (h : Alike store plain) (key : String) {x y : Option Json}
    (hxy : Option.Rel Json.Same x y) :
    Alike (Function.update store key x) (Function.update plain key y) := by
  intro k
  by_cases hk : k = key
  · subst hk
    rwa [Function.update_self, Function.update_self]
  · rw [Function.update_of_ne hk, Function.update_of_ne hk]
    exact h k

theorem pathAssign_same (platform : Platform) (hparse : parseJsonPath path = some p)
    {x y : Option Json} (hxy : Option.Rel Json.Same x y) {v w : Json} (hvw : Json.Same v w) :
    Option.Rel Json.Same (platform.pathAssign path x v) (platform.pathAssign path y w) := by
  rw [Platform.pathAssign, Platform.pathAssign, hparse]
  rcases hxy with hxy | _
  · exact hxy.set hvw p
  · simp only
    split_ifs
    · exact Option.Rel.some hvw
    · exact Option.Rel.none

/-- The plain store follows a write that is made there with what is meant. -/
theorem Alike.keep (h : Alike store plain) (hregion : region options path = some (parent, relative))
    (hparse : parseJsonPath path = some (p ++ relative)) {value d : Json}
    (hassign : ∃ w, Json.Same w
      (intended options value ((plain key).bind (Json.find (p ++ relative))) relative) ∧
      Option.Rel Json.Same (some d) (platform.pathAssign path (store key) w)) :
    Alike (Function.update store key (some d))
      (plain.keep platform options key value path) := by
  obtain ⟨w, hw, hd⟩ := hassign
  have hplain := pathAssign_same platform hparse (h key) hw
  rw [PlainStore.keep, hregion, hparse]
  simp only [Option.getD_some]
  rw [PlainStore.write]
  generalize platform.pathAssign path (store key) w = z at hd hplain
  generalize platform.pathAssign path (plain key)
    (intended options value ((plain key).bind (Json.find (p ++ relative))) relative) = z' at hplain
  cases hd with
  | some hd =>
    cases hplain with
    | some hz => exact h.update key (Option.Rel.some (hd.trans hz))

section Ordinary

variable (ho : Ordinary options)

include ho

/-- A write that goes to Redis as it is puts there what is meant, if a value for a whole region
mentions what it would keep. -/
theorem same_intended (halike : Alike store plain) {value : Json}
    (hmentions : relative = [] → ∀ d x, store key = some d → d.find p = some x →
      ∃ x', Json.Same x x' ∧ Mentions options x' value) :
    Json.Same value
      (intended options value ((plain key).bind (Json.find (p ++ relative))) relative) := by
  rw [intended]
  split_ifs with hrelative
  · subst hrelative
    rw [List.append_nil]
    have hkey := halike key
    generalize hx : store key = x at hkey
    generalize plain key = y at hkey
    rcases hkey with @⟨d, d', hd⟩ | _
    · have hfind := hd.find p
      rw [Option.bind_some]
      generalize hx' : d.find p = x at hfind
      generalize d'.find p = y at hfind
      rcases hfind with hxy | _
      · obtain ⟨x', hxx', hm⟩ := hmentions rfl d _ hx hx'
        exact same_of_mentions ho (hxy.symm.trans hxx') hm
      · exact Json.Same.refl _
    · exact Json.Same.refl _
  · exact Json.Same.refl _

/-- A write that stays in the cache: the value that is written back is what is meant. -/
theorem kept_of_stays (halike : Alike store plain) {value c u d d' x updated : Json}
    (hd : store key = some d) (hx : d.find p = some x)
    (hparse : parseJsonPath path = some (p ++ relative)) (hc : Projected options c)
    (hsame : Json.Same x (merge options c u)) (hstays : staysCached options c value relative)
    (hset : c.set relative value = some updated)
    (hpreserves : Preserves options c u updated relative)
    (hset' : d.set p (merge options (project options updated) u) = some d') :
    ∃ w, Json.Same w
        (intended options value ((plain key).bind (Json.find (p ++ relative))) relative) ∧
      Option.Rel Json.Same (some d') (platform.pathAssign path (store key) w) := by
  rw [staysCached, Bool.and_eq_true, Bool.or_eq_true, Bool.not_eq_true',
    Bool.not_eq_true'] at hstays
  obtain ⟨hexcluded, hreplaces⟩ := hstays
  have hassign : ∀ w, platform.pathAssign path (store key) w
      = (x.set relative w).bind (Json.set p d) := by
    intro w
    rw [hd, Platform.pathAssign, hparse]
    exact Json.set_append hx relative w
  by_cases hrelative : relative = []
  · subst hrelative
    obtain rfl : value = updated := Option.some.inj hset
    -- the plain store has the same value there
    have hkey := halike key
    rw [hd] at hkey
    obtain ⟨d₁, hd₁, hdd⟩ := Json.rel_some_left hkey
    have hfind := hdd.find p
    rw [hx] at hfind
    obtain ⟨y, hy, hxy⟩ := Json.rel_some_left hfind
    replace hy : (plain key).bind (Json.find p) = some y := by rw [hd₁, Option.bind_some, hy]
    have hkept := same_kept ho hc (hxy.symm.trans hsame) hreplaces hpreserves
    refine ⟨kept options value (some y), ?_, ?_⟩
    · rw [intended, if_pos rfl, List.append_nil, hy]
      exact Json.Same.refl _
    · rw [hassign, Json.set_nil, Option.bind_some, ← hset']
      exact (Json.Same.refl d).set hkept.symm p
  · obtain ⟨t, rest, rfl⟩ := List.exists_cons_of_ne_nil hrelative
    obtain ⟨z, hz, hzsame⟩ := set_merge ho hc (hexcluded.resolve_right (by simp)) hset hpreserves
    refine ⟨value, by rw [intended, if_neg hrelative]; exact Json.Same.refl _, ?_⟩
    have hrel := hsame.symm.set (Json.Same.refl value) (t :: rest)
    rw [hz] at hrel
    obtain ⟨z', hz', hzz⟩ := Json.rel_some_left hrel
    rw [hassign, hz', Option.bind_some, ← hset']
    exact (Json.Same.refl d).set (hzsame.symm.trans hzz) p

/-- **A careful write puts into the region what is meant.** -/
theorem Refines.keep_spec (h : Refines options s store) (halike : Alike store plain)
    (hnet : Lossless net) {value : Json} (hcareful : Careful options s key value path) :
    ∃ store', Refines options (write platform options net key value path s).2 store' ∧
      Alike store' (if (write platform options net key value path s).1 then
        plain.keep platform options key value path else plain) := by
  obtain ⟨parent, relative, hregion, hcareful⟩ := hcareful
  obtain ⟨p, hparse, hp⟩ := isRegion_of_region hregion
  obtain ⟨hvalid, hbounds, hview, hvalue⟩ := CacheManager.get_spec h.sound.valid key parent
  have h' := h.of_calm (calm_of_view h.sound hvalid hbounds hview)
  -- a direct write
  have hdirect : ∀ {a : Bool × MemoryState},
      (a.1 = true → ∃ d, platform.pathAssign path (store key) value = some d ∧
        Refines options a.2 (Function.update store key (some d))) →
      (a.1 = false → Refines options a.2 store) →
      (relative = [] → ∀ d x, store key = some d → d.find p = some x →
        ∃ x', Json.Same x x' ∧ Mentions options x' value) →
      ∃ store', Refines options a.2 store' ∧
        Alike store' (if a.1 then plain.keep platform options key value path else plain) := by
    rintro ⟨_ | _, s'⟩ htrue hfalse hmentions
    · exact ⟨store, hfalse rfl, halike⟩
    · obtain ⟨d, hd, hrefines⟩ := htrue rfl
      exact ⟨_, hrefines, halike.keep hregion hparse
        ⟨value, same_intended ho halike hmentions, by rw [hd]; exact Json.rel_same_refl _⟩⟩
  unfold write
  rw [hregion]
  simp only
  generalize s.cache.get key parent = a at hview hvalue h' ⊢
  obtain ⟨cached, cache⟩ := a
  simp only at hview hvalue h' ⊢
  cases cached with
  | none =>
    have hnone : s.cache.view (key, parent) = none := by simpa using hvalue
    obtain ⟨htrue, hfalse⟩ := h'.writeThrough_spec platform hnet.own path value
      (Or.inr ⟨parent, relative, hregion, by rw [hview]; exact hnone⟩)
    refine hdirect htrue (fun hb ↦ by rw [hfalse hb]; exact h') fun hrelative d x hd hx ↦ ?_
    -- Redis holds what the region stands for
    rcases h.cases key with ⟨-, hstore⟩ | ⟨j, d', hj, hstore, hover⟩
    · simp [hd] at hstore
    · obtain rfl : d = d' := Option.some.inj (hd.symm.trans hstore)
      have hfind := hover.find_of_not_dirty h.sound.anchored hj hp (fun ⟨w, hw⟩ ↦ by
        simp [hnone] at hw) []
      rw [List.append_nil, hx] at hfind
      have hm := hcareful p j x hp hj hfind.symm
      rw [hnone] at hm
      exact ⟨x, Json.Same.refl x, hm hrelative⟩
  | some c =>
    obtain ⟨e, he, rfl⟩ := Option.map_eq_some_iff.mp hvalue.symm
    obtain ⟨j, u, d, x, hj, hu, hd, hx, hproj, hsame⟩ := h.find_merged ho hp he
    have hc := hcareful p j u hp hj hu
    rw [he] at hc
    simp only at hc ⊢
    by_cases hstays : staysCached options e.value value relative
    · rw [if_pos hstays] at hc
      simp only [if_pos hstays]
      cases hset : setJsonPathValue e.value relative value with
      | none => exact ⟨store, h', halike⟩
      | some updated =>
        obtain ⟨htrue, hfalse⟩ := h'.update_spec platform hnet hp (by rw [hview]; exact he) hj hu
          (project_merge ho (projected_project ho updated) u)
        have hstay : ∀ {a : Bool × CacheManager × Redis},
            (a.1 = true → ∃ d d', store key = some d ∧
              d.set p (merge options (project options updated) u) = some d' ∧
              Refines options ⟨a.2.2, a.2.1⟩ (Function.update store key (some d'))) →
            (a.1 = false → Refines options ⟨a.2.2, a.2.1⟩ store) →
            ∃ store', Refines options ⟨a.2.2, a.2.1⟩ store' ∧
              Alike store' (if a.1 then plain.keep platform options key value path else plain) := by
          rintro ⟨_ | _, cache', redis'⟩ htrue hfalse
          · exact ⟨store, hfalse rfl, halike⟩
          · obtain ⟨d₀, d', hd₀, hset', hrefines⟩ := htrue rfl
            obtain rfl : d = d₀ := Option.some.inj (hd.symm.trans hd₀)
            exact ⟨_, hrefines, halike.keep hregion hparse (kept_of_stays ho halike hd hx hparse
              hproj hsame hstays hset (hc updated hset) hset')⟩
        exact hstay htrue hfalse
    · rw [if_neg hstays] at hc
      simp only [if_neg hstays]
      obtain ⟨htrue, hfalse⟩ := h'.writeFlushed_spec platform hnet.own key path value
      refine hdirect htrue hfalse fun hrelative d' x' hd' hx' ↦ ?_
      obtain rfl : d = d' := Option.some.inj (hd.symm.trans hd')
      obtain rfl : x = x' := Option.some.inj (hx.symm.trans hx')
      exact ⟨_, hsame, hc hrelative⟩

end Ordinary

/-- A step of a run that loses no remote field: reads and flushes, and careful writes. -/
def CarefulStep (options : Options) (s : MemoryState) (step : Operation × Outcomes) : Prop :=
  Lossless step.2 ∧
    match step.1 with
    | .read _ _ | .readDocument _ | .flush _ => True
    | .write key value path => Careful options s key value path
    | .erase _ _ | .executeAtomic _ _ _ | .erasePattern _ => False

section Keeping

variable (platform : Platform) (options : Options)

/-- Every step of the sequence is careful in the state it is taken in. -/
def CarefulRun (s : MemoryState) : List (Operation × Outcomes) → Prop
  | [] => True
  | step :: steps => CarefulStep options s step ∧
      CarefulRun (step.1.run platform options step.2 s) steps

/-- The memory, and the plain store to which the writes that reported success are applied, after
the same operations. -/
def keeping (s : MemoryState) (plain : PlainStore) :
    List (Operation × Outcomes) → MemoryState × PlainStore
  | [] => (s, plain)
  | step :: steps =>
    keeping (step.1.run platform options step.2 s)
      (match step.1 with
        | .write key value path =>
          if (write platform options step.2 key value path s).1 then
            plain.keep platform options key value path
          else plain
        | _ => plain) steps

end Keeping

theorem Refines.keeping (ho : Ordinary options) {steps : List (Operation × Outcomes)}
    (h : Refines options s store) (halike : Alike store plain)
    (hsteps : CarefulRun platform options s steps) :
    ∃ store', Refines options (MemoryClass.keeping platform options s plain steps).1 store' ∧
      Alike store' (MemoryClass.keeping platform options s plain steps).2 := by
  induction steps generalizing s store plain with
  | nil => exact ⟨store, h, halike⟩
  | cons step steps ih =>
    obtain ⟨operation, net⟩ := step
    obtain ⟨⟨hnet, hstep⟩, hrest⟩ := hsteps
    cases operation with
    | read key path => exact ih (h.of_calm (read_calm platform net h.sound key path)) halike hrest
    | readDocument key =>
      exact ih (h.of_calm (readDocument_calm platform net h.sound key)) halike hrest
    | flush key => exact ih (h.of_calm (flush_spec platform net h.sound key).1) halike hrest
    | write key value path =>
      obtain ⟨store', hrefines, halike'⟩ := h.keep_spec ho halike hnet hstep
      exact ih hrefines halike' hrest
    | erase | executeAtomic | erasePattern => exact hstep.elim

/-- **Remote fields survive caching.** In every run of reads, flushes and careful writes, a flush
that reports success leaves in Redis the document of a plain store, up to the order of fields: each
write replaced the value at its path, and a whole value kept the remote fields of its kind that it
did not mention. -/
theorem remote_fields_survive (platform : Platform) (options : Options) (ho : Ordinary options)
    (redis : Redis) (hjson : ∀ key content, redis.lookup key ≠ some (.text content))
    (steps : List (Operation × Outcomes))
    (hsteps : CarefulRun platform options (initial options redis) steps) (net : Outcomes)
    (key : String) :
    let both := keeping platform options (initial options redis) (documents redis) steps
    (flush platform options net key both.1).1 = true →
      Option.Rel Json.Same (document? ((flush platform options net key both.1).2.redis.lookup key))
        (both.2 key) := by
  obtain ⟨store, hrefines, halike⟩ := (refines_initial hjson).keeping ho
    (fun key ↦ Json.rel_same_refl _) hsteps
  intro both hflush
  obtain ⟨hcalm, -, hclean⟩ := flush_spec platform net hrefines.sound key
  rw [(hrefines.of_calm hcalm).lookup_of_clean key (hclean hflush)]
  have hkey := halike key
  cases hstore : store key with
  | none => rwa [hstore] at hkey
  | some d => rwa [hstore] at hkey

/-! ## Chat rooms -/

/-- The remote fields of canvas items: the messages of a chat room. -/
def canvasRemoteFields (value : Json) : List String :=
  if value.child (.key "type") = some (.str "chat_room") then ["data"] else []

theorem ordinary_canvas {options : Options} (h : options.remoteFields = some canvasRemoteFields) :
    Ordinary options := by
  have hremote : ∀ v, remote options v = canvasRemoteFields v := fun v ↦ by rw [remote, h]
  refine ⟨fun v hv ↦ ?_, fun fs gs hrel ↦ ?_⟩
  · have hnone : v.child (.key "type") = none := by
      rcases v with _ | _ | _ | _ | _ | _ | fs
      case obj => exact absurd rfl hv
      all_goals rfl
    simp [hremote, canvasRemoteFields, hnone]
  · have htype := hrel "type" (by
      rw [hremote, canvasRemoteFields]
      split_ifs <;> simp)
    have hstr : ∀ {a b : Json} {t : String}, Json.Same a b → a = .str t → b = .str t := by
      rintro a b t hab rfl
      have hshape := hab.shape_eq
      rcases b with _ | _ | _ | _ | _ | _ | _ <;> simp [Json.shape] at hshape
      rw [hshape]
    have hiff : gs.lookup "type" = some (.str "chat_room")
        ↔ fs.lookup "type" = some (.str "chat_room") := by
      generalize fs.lookup "type" = x at htype
      generalize gs.lookup "type" = y at htype
      cases htype with
      | none => exact Iff.rfl
      | some hab =>
        rw [Option.some.injEq, Option.some.injEq]
        exact ⟨hstr hab.symm, hstr hab⟩
    rw [hremote, hremote]
    exact if_congr hiff rfl rfl

/-- In every reachable state of the canvas memory every document shows something. -/
theorem exists_shows_canvas {s : MemoryState} {key : String}
    (h : options.remoteFields = some canvasRemoteFields) (hs : Reachable platform options s)
    (htext : ∀ content, s.redis.lookup key ≠ some (.text content)) :
    ∃ x, Shows platform options s key x :=
  hs.exists_shows (recovers_of_ordinary (ordinary_canvas h)) htext

/-- A chat room and its options. -/
def chatOptions : Options := { regionDepth := 1, remoteFields := some canvasRemoteFields }

/-- A cached chat room is written below, and keeps its messages. -/
theorem remote_fields_survive_rename :
    let redis : Redis := [("k", .json (.obj [("i", .obj
      [("type", .str "chat_room"), ("data", .int 7), ("name", .int 1)])]))]
    let steps : List (Operation × Outcomes) :=
      [(.read "k" "$.i", .fine), (.read "k" "$.i", .fine), (.write "k" (.int 2) "$.i.name", .fine)]
    let both := keeping .plain chatOptions (initial chatOptions redis) (documents redis) steps
    Option.Rel Json.Same
      (document? ((flush .plain chatOptions .fine "k" both.1).2.redis.lookup "k"))
      (both.2 "k") := by
  intro redis steps
  refine remote_fields_survive .plain chatOptions (ordinary_canvas rfl) redis ?_ steps ?_ .fine "k"
    (by decide +kernel)
  · intro key content h
    have hmem := Assoc.mem_of_lookup h
    simp [redis] at hmem
  · refine ⟨⟨lossless_fine, trivial⟩, ⟨lossless_fine, trivial⟩, ⟨lossless_fine, ?_⟩, trivial⟩
    refine ⟨"$[\"i\"]", [.key "name"], by decide +kernel, fun p j u hp hj hu ↦ ?_⟩
    -- the region is cached without its messages, and stays of the same kind
    have hview : (runAll .plain chatOptions (initial chatOptions redis)
        [(.read "k" "$.i", .fine), (.read "k" "$.i", .fine)]).cache.view ("k", "$[\"i\"]")
          = some ⟨.obj [("type", .str "chat_room"), ("name", .int 1)], false⟩ := by
      decide +kernel
    have hset : Json.set [.key "name"]
        (.obj [("type", .str "chat_room"), ("name", .int 1)]) (.int 2)
          = some (.obj [("type", .str "chat_room"), ("name", .int 2)]) := by
      decide
    have hremote : remote chatOptions (.obj [("type", .str "chat_room"), ("name", .int 1)])
        = remote chatOptions (.obj [("type", .str "chat_room"), ("name", .int 2)]) := by
      decide +kernel
    rw [runAll] at hview
    simp only [List.foldl_cons, List.foldl_nil] at hview
    rw [hview]
    simp only
    rw [if_pos (by decide +kernel)]
    intro updated hupdated
    obtain rfl := Option.some.inj (hset.symm.trans hupdated)
    rw [Preserves, if_neg (List.cons_ne_nil _ _), hremote]
    exact ⟨fun f hf hnot ↦ absurd hf hnot, fun f hf hnot ↦ absurd hf hnot⟩

/-- A plain item is cached and becomes a chat room: its messages are dropped. -/
theorem chat_room_drops_data :
    let redis : Redis := [("k", .json (.obj [("i", .obj [("type", .str "note")])]))]
    let steps : List (Operation × Outcomes) :=
      [(.read "k" "$.i", .fine), (.read "k" "$.i", .fine),
        (.write "k" (.obj [("type", .str "chat_room"), ("data", .int 7)]) "$.i", .fine)]
    let both := keeping .plain chatOptions (initial chatOptions redis) (documents redis) steps
    (flush .plain chatOptions .fine "k" both.1).1 = true ∧
      (flush .plain chatOptions .fine "k" both.1).2.redis.lookup "k"
        = some (.json (.obj [("i", .obj [("type", .str "chat_room")])])) ∧
      both.2 "k" = some (.obj [("i", .obj [("type", .str "chat_room"), ("data", .int 7)])]) ∧
      ¬Option.Rel Json.Same
        (document? ((flush .plain chatOptions .fine "k" both.1).2.redis.lookup "k"))
        (both.2 "k") := by
  intro redis steps both
  have hflush : (flush .plain chatOptions .fine "k" both.1).2.redis.lookup "k"
      = some (.json (.obj [("i", .obj [("type", .str "chat_room")])])) := by decide +kernel
  have hplain : both.2 "k"
      = some (.obj [("i", .obj [("type", .str "chat_room"), ("data", .int 7)])]) := by
    decide +kernel
  refine ⟨by decide +kernel, hflush, hplain, ?_⟩
  rw [hflush, hplain]
  rintro hrel
  cases hrel with
  | some hsame =>
    exact absurd (hsame [.key "i", .key "data"]) (by decide)

end MemoryClass

end Agora
