import Mathlib.Data.List.Perm.Subperm
import Agora.Json.Basic

/-!
# Partial updates

A partial update of a stored object puts the given fields in their places. Where the field and what
is there are both objects, the update goes on below; anything else is replaced.

An update with the old values takes an update back where it meets what it replaces: a field that
the first update has added below an object is not removed.
-/

namespace Assoc

variable {κ α : Type} [DecidableEq κ]

/-- Lists with the same keys and the same values under them. -/
theorem eq_of_keys {l l' : List (κ × α)} (hkeys : l'.map Prod.fst = l.map Prod.fst)
    (hl : (l.map Prod.fst).Nodup) (h : ∀ k, l'.lookup k = l.lookup k) : l' = l := by
  induction l generalizing l' with
  | nil => exact List.map_eq_nil_iff.mp hkeys
  | cons e l ih =>
    obtain ⟨k, v⟩ := e
    obtain _ | ⟨⟨k', v'⟩, l'⟩ := l'
    · nomatch hkeys
    obtain ⟨rfl, htail⟩ := List.cons.inj hkeys
    obtain ⟨hnew, hl⟩ := List.nodup_cons.mp hl
    have hhead := h k'
    rw [List.lookup_cons_self, List.lookup_cons_self] at hhead
    rw [Option.some.inj hhead, ih htail hl fun k ↦ ?_]
    by_cases hk : k' = k
    · subst hk
      have hnone : l.lookup k' = none := by
        rw [← Option.not_isSome_iff_eq_none, lookup_isSome_iff]
        exact hnew
      have hnone' : l'.lookup k' = none := by
        rw [← Option.not_isSome_iff_eq_none, lookup_isSome_iff]
        exact fun hmem ↦ hnew (htail ▸ hmem)
      rw [hnone, hnone']
    · rw [← lookup_cons_of_ne hk v' l', h k, lookup_cons_of_ne hk]

/-- A list to which keys have been added has the same values only if no key was added. -/
theorem eq_iff_lookup {l l' : List (κ × α)} (hl' : (l'.map Prod.fst).Nodup)
    (hkeys : l.map Prod.fst <+: l'.map Prod.fst) : l' = l ↔ ∀ k, l'.lookup k = l.lookup k := by
  refine ⟨fun h k ↦ by rw [h], fun h ↦ ?_⟩
  have hl : (l.map Prod.fst).Nodup := hl'.sublist hkeys.sublist
  refine eq_of_keys (hkeys.eq_of_length_le ?_).symm hl h
  refine (List.Nodup.subperm hl' fun k hk ↦ ?_).length_le
  rw [← lookup_isSome_iff] at hk ⊢
  rwa [← h k]

theorem prefix_set (k : κ) (v : α) (l : List (κ × α)) :
    l.map Prod.fst <+: (set k v l).map Prod.fst := by
  by_cases h : k ∈ l.map Prod.fst
  · exact (map_fst_set_of_mem h v).symm ▸ List.prefix_refl _
  · rw [map_fst_set_of_notMem h]
    exact List.prefix_append _ _

end Assoc

namespace Json

mutual

/-- What is stored where a value is given. -/
def mergeValue (old : Option Json) : Json → Json
  | .obj changes =>
    match old with
    | some (.obj source) => .obj (mergeFields source changes)
    | _ => .obj changes
  | .null => .null
  | .bool b => .bool b
  | .int n => .int n
  | .float q => .float q
  | .str s => .str s
  | .arr elements => .arr elements

def mergeFields (source : List (String × Json)) : List (String × Json) → List (String × Json)
  | [] => source
  | e :: changes => mergeFields (mergeField source e) changes

def mergeField (source : List (String × Json)) : String × Json → List (String × Json)
  | (k, v) => Assoc.set k (mergeValue (source.lookup k) v) source

end

variable {source changes : List (String × Json)}

theorem mergeValue_of_not_obj {v : Json} (hv : ∀ fields, v ≠ .obj fields) (old : Option Json) :
    mergeValue old v = v := by
  match v with
  | .obj fields => exact absurd rfl (hv fields)
  | .null | .bool _ | .int _ | .float _ | .str _ | .arr _ => rfl

/-- What a partial update preserves, if every store under a given key does. -/
theorem mergeFields_induction {P : List (String × Json) → Prop} (hsource : P source)
    (hset : ∀ fields k v, P fields → k ∈ changes.map Prod.fst → P (Assoc.set k v fields)) :
    P (mergeFields source changes) := by
  induction changes generalizing source with
  | nil => exact hsource
  | cons e changes ih =>
    obtain ⟨k, v⟩ := e
    refine ih (hset _ _ _ hsource List.mem_cons_self) fun fields k' w h hk ↦ ?_
    exact hset fields k' w h (List.mem_cons_of_mem _ hk)

theorem nodup_mergeFields (hsource : (source.map Prod.fst).Nodup) :
    ((mergeFields source changes).map Prod.fst).Nodup :=
  mergeFields_induction (P := fun fields ↦ (fields.map Prod.fst).Nodup) hsource
    fun _ k v h _ ↦ Assoc.nodup_set h k v

theorem lookup_mergeFields (hchanges : (changes.map Prod.fst).Nodup) (k : String) :
    (mergeFields source changes).lookup k =
      match changes.lookup k with
      | none => source.lookup k
      | some v => some (mergeValue (source.lookup k) v) := by
  induction changes generalizing source with
  | nil => rfl
  | cons e changes ih =>
    obtain ⟨k', v⟩ := e
    obtain ⟨hnew, hchanges⟩ := List.nodup_cons.mp hchanges
    change
      (mergeFields (Assoc.set k' (mergeValue (source.lookup k') v) source) changes).lookup k = _
    rw [ih hchanges]
    by_cases hk : k' = k
    · subst hk
      have hnone : changes.lookup k' = none := by
        rw [← Option.not_isSome_iff_eq_none, Assoc.lookup_isSome_iff]
        exact hnew
      rw [hnone, List.lookup_cons_self, Assoc.lookup_set_self]
    · rw [Assoc.lookup_cons_of_ne hk, Assoc.lookup_set_of_ne hk]

theorem prefix_mergeFields (source changes : List (String × Json)) :
    source.map Prod.fst <+: (mergeFields source changes).map Prod.fst :=
  mergeFields_induction (P := fun fields ↦ source.map Prod.fst <+: fields.map Prod.fst)
    (List.prefix_refl _) fun _ k v h _ ↦ h.trans (Assoc.prefix_set k v _)

/-! ## Updates that change nothing -/

/-- Every object has each of its keys once. -/
inductive Distinct : Json → Prop where
  | obj {fields : List (String × Json)} (nodup : (fields.map Prod.fst).Nodup)
      (below : ∀ e ∈ fields, Distinct e.2) : Distinct (.obj fields)
  | plain {v : Json} (h : ∀ fields, v ≠ .obj fields) : Distinct v

theorem Distinct.nodup {fields : List (String × Json)} (h : Distinct (.obj fields)) :
    (fields.map Prod.fst).Nodup := by
  cases h with
  | obj nodup below => exact nodup
  | plain h => exact absurd rfl (h fields)

theorem Distinct.lookup {fields : List (String × Json)} {k : String} {v : Json}
    (h : Distinct (.obj fields)) (hv : fields.lookup k = some v) : Distinct v := by
  cases h with
  | obj nodup below => exact below _ (Assoc.mem_of_lookup hv)
  | plain h => exact absurd rfl (h fields)

/-- An update with `v` leaves `s` as it is: `s` has everything that `v` has. -/
def Covers (s v : Json) : Prop := mergeValue (some s) v = s

theorem covers_plain {s v : Json} (hv : ∀ fields, v ≠ .obj fields) : Covers s v ↔ s = v := by
  rw [Covers, mergeValue_of_not_obj hv]
  exact eq_comm

theorem mergeFields_of_covers
    (h : ∀ e ∈ changes, ∃ s, source.lookup e.1 = some s ∧ Covers s e.2) :
    mergeFields source changes = source := by
  induction changes with
  | nil => rfl
  | cons e changes ih =>
    obtain ⟨k, v⟩ := e
    obtain ⟨⟨s, hs, hcovers⟩, hrest⟩ := List.forall_mem_cons.mp h
    change mergeFields (Assoc.set k (mergeValue (source.lookup k) v) source) changes = source
    have hset : Assoc.set k (mergeValue (source.lookup k) v) source = source := by
      refine Assoc.set_of_lookup ?_
      rw [hs]
      exact congrArg some (Eq.symm hcovers)
    rw [hset]
    exact ih hrest

theorem covers_self {v : Json} (h : Distinct v) : Covers v v := by
  induction h with
  | obj nodup below ih =>
    exact congrArg obj (mergeFields_of_covers fun e he ↦
      ⟨e.2, Assoc.lookup_of_mem nodup he, ih e he⟩)
  | plain h => exact (covers_plain h).mpr rfl

/-- An update once more changes nothing more. -/
theorem covers_mergeValue {v : Json} (h : Distinct v) (old : Option Json) :
    Covers (mergeValue old v) v := by
  induction h generalizing old with
  | @obj fields nodup below ih =>
    have hself : Covers (.obj fields) (.obj fields) := covers_self (.obj nodup below)
    match old with
    | none | some .null | some (.bool _) | some (.int _) | some (.float _) | some (.str _)
    | some (.arr _) => exact hself
    | some (.obj source) =>
      refine congrArg obj (mergeFields_of_covers fun e he ↦ ⟨_, ?_, ih e he (source.lookup e.1)⟩)
      rw [lookup_mergeFields nodup, Assoc.lookup_of_mem nodup he]
  | plain h =>
    rw [covers_plain h]
    exact mergeValue_of_not_obj h old

theorem mergeFields_eq_self_iff (hsource : (source.map Prod.fst).Nodup)
    (hchanges : (changes.map Prod.fst).Nodup) :
    mergeFields source changes = source ↔
      ∀ k v, changes.lookup k = some v → ∃ s, source.lookup k = some s ∧ Covers s v := by
  rw [Assoc.eq_iff_lookup (nodup_mergeFields hsource) (prefix_mergeFields source changes)]
  refine forall_congr' fun k ↦ ?_
  rw [lookup_mergeFields hchanges]
  rcases changes.lookup k with _ | v
  · simp
  · simp only [Option.some.injEq, forall_eq']
    rcases source.lookup k with _ | s
    · simp
    · simp [Covers]

/-! ## Updates that are taken back -/

/-- A field that an update with a plain value has replaced gets the value it is put back with. -/
theorem mergeValue_of_plain {v : Json} (hv : ∀ fields, v ≠ .obj fields) (w : Json) :
    mergeValue (some v) w = w := by
  match w with
  | .null | .bool _ | .int _ | .float _ | .str _ | .arr _ => rfl
  | .obj fields =>
    match v with
    | .obj fields' => exact absurd rfl (hv fields')
    | .null | .bool _ | .int _ | .float _ | .str _ | .arr _ => rfl

/-- A value after an update, and the update that takes it back. -/
def takenBack (old new back : Option Json) : Option Json :=
  let updated := match new with
    | none => old
    | some v => some (mergeValue old v)
  match back with
  | none => updated
  | some v => some (mergeValue updated v)

theorem takenBack_plain {v : Json} (hv : ∀ fields, v ≠ .obj fields) (old back : Option Json) :
    takenBack old (some v) back = some (back.getD v) := by
  rcases back with _ | w
  · exact congrArg some (mergeValue_of_not_obj hv old)
  · change some (mergeValue (some (mergeValue old v)) w) = some w
    rw [mergeValue_of_not_obj hv, mergeValue_of_plain hv]

theorem lookup_takenBack {back : List (String × Json)} (hchanges : (changes.map Prod.fst).Nodup)
    (hback : (back.map Prod.fst).Nodup) (k : String) :
    (mergeFields (mergeFields source changes) back).lookup k =
      takenBack (source.lookup k) (changes.lookup k) (back.lookup k) := by
  rw [lookup_mergeFields hback, lookup_mergeFields hchanges]
  rfl

theorem takenBack_eq_self_iff {back : List (String × Json)} (hsource : (source.map Prod.fst).Nodup)
    (hchanges : (changes.map Prod.fst).Nodup) (hback : (back.map Prod.fst).Nodup) :
    mergeFields (mergeFields source changes) back = source ↔
      ∀ k, takenBack (source.lookup k) (changes.lookup k) (back.lookup k) = source.lookup k := by
  rw [Assoc.eq_iff_lookup (nodup_mergeFields (nodup_mergeFields hsource))
    ((prefix_mergeFields source changes).trans (prefix_mergeFields _ back))]
  exact forall_congr' fun k ↦ by rw [lookup_takenBack hchanges hback]

/-- When the update replaces fields by plain values and leaves the other fields as they are put
back. -/
theorem takenBack_of_plain {back : List (String × Json)} (hsource : (source.map Prod.fst).Nodup)
    (hchanges : (changes.map Prod.fst).Nodup) (hback : Distinct (.obj back))
    (h : ∀ k, changes.lookup k = back.lookup k ∨
      ∃ v, changes.lookup k = some v ∧ ∀ fields, v ≠ .obj fields) :
    mergeFields (mergeFields source changes) back = source ↔
      Covers (.obj source) (.obj back) ∧
        ∀ k v, changes.lookup k = some v → (∀ fields, v ≠ .obj fields) →
          source.lookup k = some ((back.lookup k).getD v) := by
  have hcovers : Covers (.obj source) (.obj back) ↔ ∀ k v, back.lookup k = some v →
      ∃ s, source.lookup k = some s ∧ Covers s v := by
    rw [← mergeFields_eq_self_iff hsource hback.nodup]
    exact ⟨obj.inj, congrArg obj⟩
  rw [takenBack_eq_self_iff hsource hchanges hback.nodup, hcovers, ← forall_and]
  refine forall_congr' fun k ↦ ?_
  rcases h k with heq | ⟨v, hv, hplain⟩
  · rw [heq]
    rcases hb : back.lookup k with _ | w
    · simp [takenBack]
    · have hw := covers_mergeValue (hback.lookup hb) (source.lookup k)
      have hback' : takenBack (source.lookup k) (some w) (some w)
          = some (mergeValue (source.lookup k) w) := congrArg some hw
      rw [hback']
      constructor
      · intro hs
        refine ⟨fun v hv ↦ ?_, fun v hv hplain ↦ ?_⟩
        · obtain rfl := Option.some.inj hv
          exact ⟨_, hs.symm, hw⟩
        · obtain rfl := Option.some.inj hv
          rw [← hs, mergeValue_of_not_obj hplain]
          rfl
      · rintro ⟨hs, -⟩
        obtain ⟨s, hs, hcovers⟩ := hs w rfl
        rw [hs]
        exact congrArg some hcovers
  · rw [hv, takenBack_plain hplain]
    constructor
    · intro hs
      refine ⟨fun w hw ↦ ⟨w, ?_, covers_self (hback.lookup hw)⟩, fun w hw _ ↦ ?_⟩
      · rw [← hs, hw]
        rfl
      · rw [← hs, Option.some.inj hw]
    · exact fun hs ↦ (hs.2 v rfl hplain).symm

end Json
