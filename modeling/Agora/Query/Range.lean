import Agora.Query.Repatch

/-!
# Numbers that stay in range

What is stored of an infinity is null, and no item that was read holds one. A batch makes one only
in the points of a stroke that it moves, and whether it does can be read off the points that were
given last and the moves since (`Edits.inRange_iff`).
-/

namespace Agora

open Broker Query

/-! ## What is stored -/

mutual

/-- What a dump leaves of a value: null of an infinity. -/
def written : Json → Json
  | .float q => if isfinite q then .float q else .null
  | .arr elements => .arr (writtenElements elements)
  | .obj fields => .obj (writtenFields fields)
  | v => v

def writtenElements : List Json → List Json
  | [] => []
  | v :: l => written v :: writtenElements l

def writtenFields : List (String × Json) → List (String × Json)
  | [] => []
  | (k, v) :: l => (k, written v) :: writtenFields l

end

mutual

/-- Whether a value holds no infinity, as nothing does that was parsed. -/
def inRange : Json → Bool
  | .float q => isfinite q
  | .arr elements => inRangeElements elements
  | .obj fields => inRangeFields fields
  | _ => true

def inRangeElements : List Json → Bool
  | [] => true
  | v :: l => inRange v && inRangeElements l

def inRangeFields : List (String × Json) → Bool
  | [] => true
  | (_, v) :: l => inRange v && inRangeFields l

end

theorem inRangeElements_iff {l : List Json} : inRangeElements l ↔ ∀ v ∈ l, inRange v := by
  induction l with
  | nil => exact iff_of_true rfl nofun
  | cons v l ih => rw [inRangeElements, Bool.and_eq_true, ih, List.forall_mem_cons]

theorem inRangeFields_iff {l : List (String × Json)} :
    inRangeFields l ↔ ∀ e ∈ l, inRange e.2 := by
  induction l with
  | nil => exact iff_of_true rfl nofun
  | cons e l ih => rw [inRangeFields, Bool.and_eq_true, ih, List.forall_mem_cons]

mutual

/-- What holds no infinity is stored as it is. -/
theorem written_of_inRange : ∀ {v : Json}, inRange v → written v = v
  | .float _, h => if_pos h
  | .arr _, h => congrArg Json.arr (writtenElements_of_inRange h)
  | .obj _, h => congrArg Json.obj (writtenFields_of_inRange h)
  | .null, _ | .bool _, _ | .int _, _ | .str _, _ => rfl

theorem writtenElements_of_inRange : ∀ {l : List Json}, inRangeElements l → writtenElements l = l
  | [], _ => rfl
  | v :: l, h => by
    obtain ⟨hv, hl⟩ := (Bool.and_eq_true _ _).mp h
    rw [writtenElements, written_of_inRange hv, writtenElements_of_inRange hl]

theorem writtenFields_of_inRange :
    ∀ {l : List (String × Json)}, inRangeFields l → writtenFields l = l
  | [], _ => rfl
  | (k, v) :: l, h => by
    obtain ⟨hv, hl⟩ := (Bool.and_eq_true _ _).mp h
    rw [writtenFields, written_of_inRange hv, writtenFields_of_inRange hl]

end

theorem writtenElements_eq (l : List Json) : writtenElements l = l.map written := by
  induction l with
  | nil => rfl
  | cons v l ih => rw [writtenElements, ih, List.map_cons]

theorem lookup_writtenFields (l : List (String × Json)) (k : String) :
    (writtenFields l).lookup k = (l.lookup k).map written := by
  induction l with
  | nil => rfl
  | cons e l ih =>
    obtain ⟨k', v⟩ := e
    rw [writtenFields, List.lookup_cons, List.lookup_cons, ih]
    split <;> rfl

theorem field?_written (v : Json) (k : String) :
    field? (written v) k = (field? v k).map written := by
  cases v with
  | obj fields => exact lookup_writtenFields fields k
  | float q =>
    rw [written]
    split <;> rfl
  | _ => rfl

/-- A number that is stored as one is none. -/
theorem isfinite_of_written {q : ℚ} (h : (written (.float q)).isNumber) : isfinite q := by
  rw [written] at h
  split at h
  · assumption
  · nomatch h

/-! ## What was given is in range -/

section InRange

variable {j v : Json} {k : String}

theorem inRange_field? (h : inRange j) (hv : field? j k = some v) : inRange v := by
  cases j with
  | obj fields => exact inRangeFields_iff.mp h _ (Assoc.mem_of_lookup hv)
  | _ => nomatch hv

theorem inRange_elements (h : inRange j) (hv : v ∈ j.elements) : inRange v := by
  cases j with
  | arr elements => exact inRangeElements_iff.mp h v hv
  | obj fields =>
    obtain ⟨e, he, rfl⟩ := List.mem_map.mp hv
    exact inRangeFields_iff.mp h e ((Json.sortedFields_perm fields).mem_iff.mp he)
  | null => nomatch hv
  | _ =>
    obtain rfl := List.mem_singleton.mp hv
    exact h

theorem inRange_eraseKey {j' : Json} (h : inRange j) (herase : j.eraseKey k = .ok j') :
    inRange j' := by
  cases j with
  | obj fields =>
    refine Except.ok.inj herase ▸ inRangeFields_iff.mpr fun e he ↦ ?_
    exact inRangeFields_iff.mp h e (List.mem_filter.mp he).1
  | _ => nomatch herase

end InRange

/-- Whether no value but the first of a key holds an infinity. -/
def inRangeBut (k : String) : List (String × Json) → Bool
  | [] => true
  | (k', v) :: l => if k' = k then inRangeFields l else inRange v && inRangeBut k l

section Fields

variable {k k' : String} {v : Json} {l : List (String × Json)}

theorem inRangeBut_of_inRange (h : inRangeFields l) : inRangeBut k l := by
  induction l with
  | nil => rfl
  | cons e l ih =>
    obtain ⟨hv, hl⟩ := (Bool.and_eq_true _ _).mp h
    rw [inRangeBut]
    split
    · exact hl
    · rw [hv, ih hl]
      rfl

theorem inRangeFields_set (h : inRangeFields l) (hv : inRange v) :
    inRangeFields (Assoc.set k v l) :=
  inRangeFields_iff.mpr fun _ he ↦ (Assoc.mem_set he).elim (· ▸ hv) (inRangeFields_iff.mp h _)

theorem inRangeBut_set (h : inRangeBut k l) (hv : k' = k ∨ inRange v) :
    inRangeBut k (Assoc.set k' v l) := by
  induction l with
  | nil =>
    rw [Assoc.set, inRangeBut]
    split
    · rfl
    · next hne => rw [hv.resolve_left hne]; rfl
  | cons e l ih =>
    obtain ⟨k'', w⟩ := e
    rw [inRangeBut] at h
    rw [Assoc.set]
    by_cases hk : k'' = k'
    · subst hk
      rw [if_pos rfl, inRangeBut]
      split
      · next hk => rwa [if_pos hk] at h
      · next hk =>
        rw [if_neg hk, Bool.and_eq_true] at h
        rw [hv.resolve_left hk, h.2]
        rfl
    · rw [if_neg hk, inRangeBut]
      split
      · next hk' =>
        rw [if_pos hk'] at h
        exact inRangeFields_set h (hv.resolve_left fun hsame ↦ hk (hk'.trans hsame.symm))
      · next hk' =>
        rw [if_neg hk', Bool.and_eq_true] at h
        rw [h.1, ih h.2]
        rfl

theorem inRangeBut_erase (h : inRangeBut k l) : inRangeBut k (Assoc.erase k' l) := by
  induction l with
  | nil => rfl
  | cons e l ih =>
    obtain ⟨k'', w⟩ := e
    rw [inRangeBut] at h
    rw [Assoc.erase, List.filter_cons]
    split
    · rw [inRangeBut]
      split
      · next hk =>
        rw [if_pos hk] at h
        exact inRangeFields_iff.mpr fun e he ↦ inRangeFields_iff.mp h e (List.mem_filter.mp he).1
      · next hk =>
        rw [if_neg hk, Bool.and_eq_true] at h
        rw [h.1]
        exact ih h.2
    · by_cases hk : k'' = k
      · rw [if_pos hk] at h
        exact inRangeBut_of_inRange (inRangeFields_iff.mpr fun e he ↦
          inRangeFields_iff.mp h e (List.mem_filter.mp he).1)
      · rw [if_neg hk, Bool.and_eq_true] at h
        exact ih h.2

theorem inRangeFields_iff_of_but (h : inRangeBut k l) :
    inRangeFields l ↔ ∀ v, l.lookup k = some v → inRange v := by
  refine ⟨fun hl v hv ↦ inRangeFields_iff.mp hl _ (Assoc.mem_of_lookup hv), fun hv ↦ ?_⟩
  induction l with
  | nil => rfl
  | cons e l ih =>
    obtain ⟨k', w⟩ := e
    rw [inRangeBut] at h
    rw [inRangeFields]
    by_cases hk : k' = k
    · subst hk
      rw [if_pos rfl] at h
      rw [hv w List.lookup_cons_self, h]
      rfl
    · rw [if_neg hk, Bool.and_eq_true] at h
      rw [Assoc.lookup_cons_of_ne hk] at hv
      rw [h.1, ih h.2 hv]
      rfl

end Fields

/-! ## What is made of it -/

/-- Nothing in an item but its points holds an infinity. -/
def Outlined : Json → Prop
  | .obj fields => inRangeBut "points" fields
  | item => inRange item

theorem outlined_of_inRange {item : Json} (h : inRange item) : Outlined item := by
  cases item with
  | obj fields => exact inRangeBut_of_inRange h
  | _ => exact h

theorem outlined_null : Outlined .null := rfl

theorem Outlined.inRange_iff {item : Json} (h : Outlined item) :
    inRange item ↔ ∀ v, field? item "points" = some v → inRange v := by
  cases item with
  | obj fields => exact inRangeFields_iff_of_but h
  | _ => exact iff_of_true h nofun

/-- What holds of the fields of an object after an update. -/
theorem updateFields_induction {P : List (String × Json) → Prop}
    {fields patch : List (String × Json)} (h : P fields) (hpatch : inRangeFields patch)
    (hset : ∀ l k v, P l → inRange v → P (Assoc.set k v l)) :
    P (Json.updateFields fields patch) := by
  have hall : ∀ e ∈ Json.sortedFields patch, inRange e.2 := fun e he ↦
    inRangeFields_iff.mp hpatch e ((Json.sortedFields_perm patch).mem_iff.mp he)
  unfold Json.updateFields
  generalize Json.sortedFields patch = sorted at hall
  induction sorted generalizing fields with
  | nil => exact h
  | cons e l ih =>
    obtain ⟨he, hl⟩ := List.forall_mem_cons.mp hall
    exact ih (hset fields e.1 e.2 h he) hl

theorem Outlined.update {item patch item' : Json} (h : Outlined item) (hpatch : inRange patch)
    (hupdate : item.update patch = .ok item') : Outlined item' := by
  unfold Json.update at hupdate
  split at hupdate
  · obtain rfl := Except.ok.inj hupdate
    exact updateFields_induction (P := (inRangeBut "points" · = true)) h hpatch
      fun _ _ _ hl hv ↦ inRangeBut_set hl (Or.inr hv)
  · obtain rfl := Except.ok.inj hupdate
    exact updateFields_induction (P := (inRangeBut "points" · = true)) rfl hpatch
      fun _ _ _ hl hv ↦ inRangeBut_set hl (Or.inr hv)
  · nomatch hupdate

theorem inRange_update {patch given : Json} (hpatch : inRange patch)
    (hupdate : (Json.obj []).update patch = .ok given) : inRange given := by
  cases patch with
  | obj patch =>
    obtain rfl := Except.ok.inj hupdate
    exact updateFields_induction (P := (inRangeFields · = true)) rfl hpatch
      fun _ _ _ hl hv ↦ inRangeFields_set hl hv
  | _ => nomatch hupdate

theorem Outlined.unsetFields {item item' : Json} {unset : List Json} (h : Outlined item)
    (hunset : unsetFields item unset = .ok item') : Outlined item' := by
  induction unset generalizing item with
  | nil => exact Except.ok.inj hunset ▸ h
  | cons v unset ih =>
    cases v with
    | str k =>
      obtain ⟨_, -, hunset⟩ := Checked.bind_ok.mp hunset
      obtain ⟨dropped, hdropped, hunset⟩ := Checked.bind_ok.mp hunset
      refine ih ?_ hunset
      cases item with
      | obj fields => exact Except.ok.inj hdropped ▸ inRangeBut_erase h
      | _ => nomatch hdropped
    | _ => nomatch hunset

theorem inRange_patch {operation patch : Json} (h : inRange operation)
    (hpatch : operation.valueJson "patch" (.obj []) = .ok patch) : inRange patch := by
  rcases field?_of_value hpatch with ⟨v, hv, hsame⟩ | ⟨-, rfl⟩
  · exact Except.ok.inj hsame ▸ inRange_field? h hv
  · rfl

theorem inRange_patchFields {operation : Json} (h : inRange operation) :
    inRange (patchFields operation) := by
  unfold patchFields
  split
  · next given hgiven =>
    refine inRange_update ?_ hgiven
    cases hpatch : field? operation "patch" with
    | none => rfl
    | some v => exact inRange_field? h hpatch
  · rfl

theorem Outlined.patchItem {old operation item : Json} (h : Outlined old)
    (hoperation : inRange operation) (hpatch : patchItem old operation = .ok item) :
    Outlined item := by
  unfold Broker.patchItem at hpatch
  simp only [Checked.bind_ok] at hpatch
  obtain ⟨patch, hgiven, _, -, _, -, updated, hupdated, dropped, hdropped, _, -, _, -, hpatch⟩ :=
    hpatch
  obtain rfl := Checked.pure_ok.mp hpatch
  refine (Outlined.update ?_ (inRange_patch hoperation hgiven) hupdated).unsetFields hdropped
  split
  · exact rfl
  · exact h

theorem inRange_mergeHistory {old item merged : Json} (hold : inRange old) (hitem : inRange item)
    (h : mergeHistory old item = .ok merged) (hobject : item.isObject) : inRange merged := by
  obtain ⟨hchanges, -⟩ := mergeHistory_changes h
  match item, hobject with
  | .obj fields, _ =>
    obtain ⟨fields', rfl, hmem⟩ := mergeHistory_mem h
    refine inRangeFields_iff.mpr fun e he ↦ ?_
    obtain hsame | ⟨-, hsnapshot⟩ | ⟨changes, rfl, hmerged⟩ := hmem e he
    · exact inRangeFields_iff.mp hitem e hsame
    · exact inRange_field? hold hsnapshot
    · obtain rfl := Json.arr.inj (Option.some.inj (hmerged.symm.trans hchanges))
      refine inRangeElements_iff.mpr fun change hchange ↦ ?_
      have hgetD {j : Json} (hj : inRange j) :
          inRange ((field? j "automerge_changes").getD .null) := by
        cases hv : field? j "automerge_changes" with
        | none => rfl
        | some v => exact inRange_field? hj hv
      rcases List.mem_append.mp ((firstChanges_sublist _).mem hchange) with hbefore | hafter
      · exact inRange_elements (hgetD hold) hbefore
      · exact inRange_elements (hgetD hitem) hafter

/-! ## Points that are moved -/

/-- A point after some moves. -/
def movePoint (moves : List (ℚ × ℚ)) (point : Json) : Json :=
  moves.foldl (fun point move ↦ shiftBoth move.1 move.2 point) point

/-- A point is not moved, or adding the moves one after the other stays in range. -/
def staysInRange (moves : List (ℚ × ℚ)) (point : Json) : Bool :=
  moves.isEmpty ||
    isfinite ((moves.map Prod.fst).foldl addDouble (numberIn (field? point "x"))) &&
      isfinite ((moves.map Prod.snd).foldl addDouble (numberIn (field? point "y")))

theorem shiftBoth_set (dx dy x y : ℚ) (fields : List (String × Json)) :
    shiftBoth dx dy (.obj (Assoc.set "y" (.float y) (Assoc.set "x" (.float x) fields)))
      = .obj (Assoc.set "y" (.float (addDouble y dy))
        (Assoc.set "x" (.float (addDouble x dx)) fields)) := by
  have hx : (Assoc.set "y" (.float y) (Assoc.set "x" (.float x) fields)).lookup "x"
      = some (.float x) := by
    rw [Assoc.lookup_set_of_ne (by decide), Assoc.lookup_set_self]
  have hcomm : Assoc.set "x" (.float (addDouble x dx))
      (Assoc.set "y" (.float y) (Assoc.set "x" (.float x) fields))
        = Assoc.set "y" (.float y) (Assoc.set "x" (.float (addDouble x dx)) fields) := by
    rw [← Assoc.set_comm (by decide) (by rw [Assoc.lookup_set_self]; rfl), Assoc.set_set]
  rw [shiftBoth, shift, shift, hx, numberIn, hcomm, Assoc.lookup_set_self, numberIn, Assoc.set_set]

theorem movePoint_set (moves : List (ℚ × ℚ)) (x y : ℚ) (fields : List (String × Json)) :
    movePoint moves (.obj (Assoc.set "y" (.float y) (Assoc.set "x" (.float x) fields)))
      = .obj (Assoc.set "y" (.float ((moves.map Prod.snd).foldl addDouble y))
        (Assoc.set "x" (.float ((moves.map Prod.fst).foldl addDouble x)) fields)) := by
  induction moves generalizing x y with
  | nil => rfl
  | cons move moves ih =>
    rw [movePoint, List.foldl_cons, shiftBoth_set]
    exact ih _ _

/-- A point that was moved, by the sums. -/
theorem movePoint_cons (move : ℚ × ℚ) (moves : List (ℚ × ℚ)) (fields : List (String × Json)) :
    movePoint (move :: moves) (.obj fields)
      = .obj (Assoc.set "y" (.float (((move :: moves).map Prod.snd).foldl addDouble
          (numberIn (fields.lookup "y"))))
        (Assoc.set "x" (.float (((move :: moves).map Prod.fst).foldl addDouble
          (numberIn (fields.lookup "x")))) fields)) := by
  have hy : (shift "x" move.1 fields).lookup "y" = fields.lookup "y" :=
    Assoc.lookup_set_of_ne (by decide) _ _
  rw [movePoint, List.foldl_cons, shiftBoth, shift, hy, shift]
  exact movePoint_set moves _ _ fields

/-- Whether it is in range: every sum is. -/
theorem inRange_movePoint {point : Json} (hobject : point.isObject) (hpoint : inRange point)
    (moves : List (ℚ × ℚ)) : inRange (movePoint moves point) ↔ staysInRange moves point := by
  match point, hobject with
  | .obj fields, _ =>
    cases moves with
    | nil => exact iff_of_true hpoint rfl
    | cons move moves =>
      rw [movePoint_cons, staysInRange, List.isEmpty_cons, Bool.false_or, Bool.and_eq_true]
      constructor
      · intro h
        have hx := inRange_field? h (show field? _ "x" = _ by
          rw [field?_obj, Assoc.lookup_set_of_ne (by decide), Assoc.lookup_set_self])
        exact ⟨hx, inRange_field? h (Assoc.lookup_set_self "y" _ _)⟩
      · exact fun ⟨hx, hy⟩ ↦ inRangeFields_set (inRangeFields_set hpoint hx) hy

theorem isPoint_ok {point : Json} (h : isPoint point = .ok true) : point.isObject ∧
    ∀ k ∈ ["x", "y"], ∃ v, field? point k = some v ∧ v.isNumber := by
  unfold isPoint at h
  split at h
  · nomatch h
  · next hobject =>
    split at h
    · nomatch h
    · obtain ⟨x, hx, h⟩ := Checked.bind_ok.mp h
      split at h
      · nomatch h
      · next hnumber =>
        split at h
        · nomatch h
        · obtain ⟨y, hy, h⟩ := Checked.bind_ok.mp h
          refine ⟨by simpa using hobject, fun k hk ↦ ?_⟩
          rcases List.mem_pair.mp hk with rfl | rfl
          · exact ⟨x, field?_of_index hx, by simpa using hnumber⟩
          · exact ⟨y, field?_of_index hy, Except.ok.inj h⟩

/-- A point that is stored with its numbers was in range. -/
theorem staysInRange_of_isPoint {point : Json} (hobject : point.isObject) (hpoint : inRange point)
    {moves : List (ℚ × ℚ)} (h : isPoint (written (movePoint moves point)) = .ok true) :
    staysInRange moves point := by
  rw [← inRange_movePoint hobject hpoint]
  match point, hobject with
  | .obj fields, _ =>
    cases moves with
    | nil => exact hpoint
    | cons move moves =>
      have hnumbers := (isPoint_ok h).2
      rw [movePoint_cons] at hnumbers ⊢
      obtain ⟨v, hv, hx⟩ := hnumbers "x" List.mem_cons_self
      obtain ⟨w, hw, hy⟩ := hnumbers "y" (List.mem_cons_of_mem _ List.mem_cons_self)
      rw [field?_written, field?_obj, Assoc.lookup_set_of_ne (by decide), Assoc.lookup_set_self,
        Option.map_some, Option.some.injEq] at hv
      rw [field?_written, field?_obj, Assoc.lookup_set_self, Option.map_some,
        Option.some.injEq] at hw
      subst hv hw
      exact inRangeFields_set (inRangeFields_set hpoint (isfinite_of_written hx))
        (isfinite_of_written hy)

/-! ## Strokes that a batch moves -/

/-- The points of a stroke as they were given last, and the moves since. -/
def Broker.Change.draw (drawn : Json × List (ℚ × ℚ)) : Change → Json × List (ℚ × ℚ)
  | .move dx dy => (drawn.1, drawn.2 ++ [(dx, dy)])
  | .delete => (.null, [])
  | .create operation => ((field? (patchFields operation) "points").getD .null, [])
  | .patch operation =>
    match field? (patchFields operation) "points" with
    | some points => (points, [])
    | none => drawn

def drawnOf (start : Json) (changes : List Change) : Json × List (ℚ × ℚ) :=
  changes.foldl Change.draw ((field? start "points").getD .null, [])

theorem drawnOf_snoc (start : Json) (changes : List Change) (change : Change) :
    drawnOf start (changes ++ [change]) = change.draw (drawnOf start changes) :=
  List.foldl_append

/-- What a change brings was parsed. -/
def Broker.Change.inRange : Change → Bool
  | .create operation | .patch operation => Agora.inRange operation
  | _ => true

def IsStroke (item : Json) : Prop := field? item "kind" = some (.str "stroke")

/-- An item that holds no infinity, but in the points of a stroke after some moves. -/
structure Drawn (drawn : Json × List (ℚ × ℚ)) (item : Json) : Prop where
  outlined : Outlined item
  plain : ¬IsStroke item → inRange item
  stroke : IsStroke item → ∃ points, drawn.1 = .arr points ∧
    (∀ point ∈ points, point.isObject ∧ inRange point) ∧
    field? item "points" = some (.arr (points.map (movePoint drawn.2)))

section Drawn

variable {dumpSize : Json → ℕ} {groups : List String} {admin : Bool} {given : Json × List (ℚ × ℚ)}
  {item : Json}

theorem Drawn.inRange_iff (h : Drawn given item) : inRange item ↔
    (IsStroke item → ∀ point ∈ given.1.elements, staysInRange given.2 point) := by
  by_cases hstroke : IsStroke item
  · obtain ⟨points, hdrawn, hpoints, hfield⟩ := h.stroke hstroke
    rw [h.outlined.inRange_iff, hfield, hdrawn]
    simp only [Option.some.injEq, forall_eq', hstroke, forall_const]
    change inRangeElements _ ↔ _
    rw [inRangeElements_iff, List.forall_mem_map]
    exact forall₂_congr fun point hpoint ↦
      inRange_movePoint (hpoints point hpoint).1 (hpoints point hpoint).2 _
  · exact iff_of_true (h.plain hstroke) fun hyes ↦ absurd hyes hstroke

theorem drawn_null : Drawn given .null := ⟨outlined_null, fun _ ↦ rfl, fun h ↦ nomatch h⟩

/-- A stroke that passes, with the points it was given. -/
theorem drawn_given (houtlined : Outlined item) (hvalid : validate dumpSize item = .ok ())
    {points : Json} (hpoints : inRange points)
    (hfield : ∀ v, field? item "points" = some v → v = points) : Drawn (points, []) item := by
  refine ⟨houtlined, fun _ ↦ houtlined.inRange_iff.mpr fun v hv ↦ hfield v hv ▸ hpoints,
    fun hstroke ↦ ?_⟩
  obtain ⟨elements, helements, heach⟩ := validate_points hvalid hstroke
  obtain rfl := hfield _ helements
  refine ⟨elements, rfl, fun point hpoint ↦ ?_, ?_⟩
  · exact ⟨(isPoint_ok (eachOrReject_ok.mp heach point hpoint)).1,
      inRangeElements_iff.mp hpoints point hpoint⟩
  · rw [helements, show movePoint [] = id from rfl, List.map_id]

/-- The item that is stored, before its history is merged. -/
theorem storedItem_unmerged {old operation : Json}
    (h : storedItem dumpSize groups admin old operation = .ok item) :
    ∃ patched, patchItem old operation = .ok patched ∧ validate dumpSize patched = .ok () ∧
      (item = patched ∨ old.isNull = false ∧ ¬IsStroke patched ∧
        mergeHistory old patched = .ok item) := by
  unfold storedItem at h
  simp only [Checked.bind_ok] at h
  obtain ⟨patched, hpatched, ⟨⟩, hvalid, updated, hupdated, kind, hkind, h⟩ := h
  obtain rfl := queryUpdatedItem_eq hupdated
  refine ⟨_, hpatched, hvalid, ?_⟩
  split at h
  · next hmerges =>
    rw [Bool.and_eq_true, Bool.not_eq_true'] at hmerges
    refine Or.inr ⟨hmerges.1, fun hstroke ↦ ?_, h⟩
    obtain rfl := Except.ok.inj (hkind.symm.trans (valueString_of_field? hstroke ""))
    exact absurd hmerges.2 (by decide)
  · exact Or.inl (Checked.pure_ok.mp h).symm

theorem Drawn.move {item' : Json} {dx dy : ℚ} (h : Drawn given item) (hobject : item.isObject)
    (hmoved : translateItem dx dy item = .ok item') (hvalid : validate dumpSize item' = .ok ()) :
    Drawn (given.1, given.2 ++ [(dx, dy)]) item' := by
  have hkind : field? item' "kind" = field? item "kind" :=
    translateItem_fields hmoved (by decide) (by decide) (by decide)
  have hstrokes : IsStroke item' ↔ IsStroke item := by rw [IsStroke, IsStroke, hkind]
  obtain rfl := translateItem_eq hobject hmoved hvalid
  match item, hobject with
  | .obj fields, _ =>
    by_cases hstroke : IsStroke (.obj fields)
    · obtain ⟨points, hdrawn, hpoints, hfield⟩ := h.stroke hstroke
      have hitem : moveItem dx dy (.obj fields) = .obj (Assoc.set "points"
          (.arr ((points.map (movePoint given.2)).map (shiftBoth dx dy))) fields) := by
        rw [moveItem, if_pos (show fields.lookup "kind" = _ from hstroke),
          show fields.lookup "points" = _ from hfield]
      refine ⟨?_, fun hno ↦ absurd (hstrokes.mpr hstroke) hno, fun _ ↦ ?_⟩
      · rw [hitem]
        exact inRangeBut_set h.outlined (Or.inl rfl)
      · refine ⟨points, hdrawn, hpoints, ?_⟩
        rw [hitem, field?_obj, Assoc.lookup_set_self, List.map_map]
        refine congrArg (fun l ↦ some (Json.arr l)) (List.map_congr_left fun point _ ↦ ?_)
        rw [movePoint, List.foldl_append]
        rfl
    · have hitem : moveItem dx dy (.obj fields)
          = .obj (shift "y" dy (shift "x" dx fields)) := by
        rw [moveItem, if_neg (show ¬fields.lookup "kind" = _ from hstroke), shiftBoth]
      have hfinite : ∀ k q, field? (moveItem dx dy (.obj fields)) k = some (.float q) →
          isfinite q := by
        intro k q hq
        rw [hitem] at hq hvalid
        exact (validateFields_ok.mp (validate_fields hvalid) _ (Assoc.mem_of_lookup hq)).2 q rfl
      have hx := hfinite "x" _ (by
        rw [hitem, field?_obj, shift, Assoc.lookup_set_of_ne (by decide), shift,
          Assoc.lookup_set_self])
      have hy := hfinite "y" _ (by rw [hitem, field?_obj, shift, Assoc.lookup_set_self])
      have hrange : inRange (moveItem dx dy (.obj fields)) := by
        rw [hitem]
        exact inRangeFields_set (inRangeFields_set (h.plain hstroke) hx) hy
      exact ⟨outlined_of_inRange hrange, fun _ ↦ hrange,
        fun hyes ↦ absurd (hstrokes.mp hyes) hstroke⟩

/-- One change. -/
theorem Broker.Edit.drawn {change : Change} {item' : Json}
    (h : Edit dumpSize groups admin change item item') (hchange : change.inRange)
    (hitem : Itemlike item) (hdrawn : Drawn given item) : Drawn (change.draw given) item' := by
  cases h with
  | move there connector room moved valid =>
    refine hdrawn.move ?_ moved valid
    exact hitem.resolve_left (ne_null_of_isNull there)
  | delete => exact drawn_null
  | create stored =>
    have hgiven := inRange_patchFields hchange
    obtain ⟨patched, hpatched, hvalid, rfl | ⟨hnull, -⟩⟩ := storedItem_unmerged stored
    · -- the points of a new item are those that are given
      refine drawn_given (outlined_null.patchItem hchange hpatched) hvalid ?_ fun v hv ↦ ?_
      · cases hpoints : field? (patchFields _) "points" with
        | none => rfl
        | some points => exact inRange_field? hgiven hpoints
      · rcases patchItem_create hpatched "points" with hsame | hnone
        · rw [← hsame, hv, Option.getD_some]
        · rw [hnone] at hv
          nomatch hv
    · nomatch hnull
  | @patch _ operation _ there stored =>
    have hgiven := inRange_patchFields hchange
    have hkind : IsStroke item' ↔ IsStroke item := by
      rw [IsStroke, IsStroke, storedItem_patch_kind there stored]
    obtain ⟨patched, hpatched, hvalid, hmerged⟩ := storedItem_unmerged stored
    have houtlined := hdrawn.outlined.patchItem hchange hpatched
    have hpoints := patchItem_ok there hpatched "points"
    -- a stroke has no history, so it is stored as it was patched
    by_cases hstroke : IsStroke item'
    · obtain rfl := hmerged.resolve_right fun ⟨_, hno, hmerge⟩ ↦ hno <| by
        rwa [IsStroke, ← (mergeHistory_ok hmerge).2.1 "kind" (by decide) (by decide)]
      rw [Change.draw]
      cases hfield : field? (patchFields operation) "points" with
      | some points =>
        rw [hfield] at hpoints
        refine drawn_given houtlined hvalid (inRange_field? hgiven hfield) fun v hv ↦ ?_
        rcases hpoints with hsame | hnone
        · exact Option.some.inj (hv.symm.trans hsame)
        · rw [hnone] at hv
          nomatch hv
      -- without points in the patch the stroke keeps its own
      | none =>
        obtain ⟨elements, helements, -⟩ := validate_points hvalid hstroke
        obtain ⟨points, hdrawn', hall, hold⟩ := hdrawn.stroke (hkind.mp hstroke)
        rw [hfield, Option.none_or] at hpoints
        refine ⟨houtlined, fun hno ↦ absurd hstroke hno, fun _ ↦ ⟨points, hdrawn', hall, ?_⟩⟩
        refine (hpoints.resolve_right fun hnone ↦ ?_).trans hold
        rw [helements] at hnone
        nomatch hnone
    · -- the points of other items are looked at like any other field
      have hold := hdrawn.plain (hkind.not.mp hstroke)
      have hrange : inRange patched := by
        refine houtlined.inRange_iff.mpr fun v hv ↦ ?_
        rcases hpoints with hsame | hnone
        · rw [hv] at hsame
          rcases hfield : field? (patchFields operation) "points" with _ | points
          · rw [hfield] at hsame
            exact inRange_field? hold hsame.symm
          · rw [hfield] at hsame
            exact Option.some.inj hsame ▸ inRange_field? hgiven hfield
        · rw [hnone] at hv
          nomatch hv
      have hrange' : inRange item' := by
        rcases hmerged with rfl | ⟨-, -, hmerge⟩
        · exact hrange
        · exact inRange_mergeHistory hold hrange hmerge (validate_object hvalid)
      exact ⟨outlined_of_inRange hrange', fun _ ↦ hrange', fun hyes ↦ absurd hyes hstroke⟩

/-- All the changes of a batch. -/
theorem Broker.Edits.drawn {changes : List Change} {start : Json}
    (h : Edits dumpSize groups admin changes start item)
    (hchanges : ∀ change ∈ changes, change.inRange) (hstart : Itemlike start)
    (hdrawn : Drawn (drawnOf start []) start) :
    Drawn (drawnOf start changes) item := by
  induction h with
  | nil => exact hdrawn
  | snoc past edit ih =>
    rw [drawnOf_snoc]
    refine edit.drawn (hchanges _ List.mem_concat_self) (past.itemlike hstart) ?_
    exact ih (fun change hchange ↦ hchanges change (List.mem_append_left _ hchange)) hstart hdrawn

/-- Of an item that was read, a stroke passes. -/
theorem drawn_start (hitem : inRange item)
    (hvalid : IsStroke item → validate dumpSize item = .ok ()) : Drawn (drawnOf item []) item := by
  have houtlined := outlined_of_inRange hitem
  by_cases hstroke : IsStroke item
  · refine drawn_given houtlined (hvalid hstroke) ?_ fun v hv ↦ by rw [hv, Option.getD_some]
    cases hpoints : field? item "points" with
    | none => rfl
    | some points => exact inRange_field? hitem hpoints
  · exact ⟨houtlined, fun _ ↦ hitem, fun hyes ↦ absurd hyes hstroke⟩

/-- The snapshot of a text is in range. -/
theorem Drawn.not_damaged (h : Drawn given item) : ¬Damaged item := by
  rintro ⟨⟨kind, hkind, hkeeps⟩, x, hx, hinfinite⟩
  have hrange : isfinite x := inRange_field? (h.plain fun hstroke ↦ ?_) hx
  · rw [hrange] at hinfinite
    contradiction
  · obtain rfl := Json.str.inj (Option.some.inj (hstroke.symm.trans hkind))
    exact absurd hkeeps (by decide)

/-- An item that still passes as it is stored is in range. -/
theorem Drawn.inRange_of_stored {stored : Json} (h : Drawn given item)
    (hvalid : validate dumpSize stored = .ok ())
    (hstored : ∀ k ∈ ["kind", "points"], field? stored k = (field? item k).map written) :
    inRange item := by
  refine h.inRange_iff.mpr fun hstroke ↦ ?_
  obtain ⟨points, hdrawn, hpoints, hfield⟩ := h.stroke hstroke
  have hkind : IsStroke stored := by
    rw [IsStroke, hstored "kind" List.mem_cons_self, show field? item "kind" = _ from hstroke]
    rfl
  obtain ⟨elements, helements, heach⟩ := validate_points hvalid hkind
  rw [hstored "points" (List.mem_cons_of_mem _ List.mem_cons_self), hfield, Option.map_some,
    Option.some.injEq] at helements
  obtain rfl : writtenElements (points.map (movePoint given.2)) = elements :=
    Json.arr.inj helements
  rw [hdrawn]
  intro point hpoint
  refine staysInRange_of_isPoint (hpoints point hpoint).1 (hpoints point hpoint).2 ?_
  refine eachOrReject_ok.mp heach _ ?_
  rw [writtenElements_eq]
  exact List.mem_map_of_mem (List.mem_map_of_mem hpoint)

end Drawn

/-! ## What a batch leaves in range -/

/-- The strokes that a batch moves stay in range. -/
def KeepsRange (old : Json) (changes : List Change) : Prop :=
  IsStroke (originOf (seenItem old) changes).1 →
    ∀ point ∈ (drawnOf (seenItem old) changes).1.elements,
      staysInRange (drawnOf (seenItem old) changes).2 point

theorem Broker.Edits.keepsRange_iff {dumpSize : Json → ℕ} {groups : List String} {admin : Bool}
    {changes : List Change} {old item : Json}
    (h : Edits dumpSize groups admin changes (seenItem old) item)
    (hdrawn : Drawn (drawnOf (seenItem old) changes) item) :
    inRange item ↔ KeepsRange old changes := by
  rw [hdrawn.inRange_iff, KeepsRange, IsStroke, IsStroke, h.since.1]

theorem inRange_historyOf {operations : List Json} (h : ∀ operation ∈ operations, inRange operation)
    (id : String) : ∀ change ∈ historyOf operations id, change.inRange := by
  intro change hchange
  obtain ⟨operation, hmem, hchange⟩ := List.mem_flatMap.mp hchange
  have hrange := h operation hmem
  unfold changesOf at hchange
  split at hchange
  · split at hchange
    · exact List.mem_singleton.mp hchange ▸ rfl
    · nomatch hchange
  · split at hchange
    · exact List.mem_singleton.mp hchange ▸ rfl
    · nomatch hchange
  · split at hchange
    · exact List.mem_singleton.mp hchange ▸ hrange
    · nomatch hchange
  · split at hchange
    · exact List.mem_singleton.mp hchange ▸ hrange
    · nomatch hchange
  · nomatch hchange

/-- What is seen of an item that was read. -/
theorem inRange_seenItem {old : Json} (h : inRange old) : inRange (seenItem old) := by
  unfold seenItem
  split
  · next item hitem =>
    unfold visibleItem at hitem
    obtain ⟨tombstone, -, hitem⟩ := Checked.bind_ok.mp hitem
    split at hitem
    · exact Checked.pure_ok.mp hitem ▸ rfl
    · obtain ⟨erased, herased, hitem⟩ := Checked.bind_ok.mp hitem
      exact inRange_eraseKey (inRange_eraseKey h herased) hitem
  · rfl

end Agora
