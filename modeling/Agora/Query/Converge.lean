import Agora.Query.Branches
import Agora.Query.Join
import Agora.Receipts.Sequence

/-!
# Snapshots and commits

A client takes a snapshot of the canvas and then applies what everyone is told of every batch: new
items, removals, or translations to make on its own copies. `snapshot_and_commits_converge`: at
every later revision it then has the items of a snapshot taken there, chat rooms and the fields of
the server apart.
-/

namespace Agora

open Broker Query

/-! ## Clients -/

/-- The items a client has. -/
abbrev Replica := String → Option Json

/-- Add to a coordinate, 0 when it is missing. -/
def shift (k : String) (d : ℚ) (fields : List (String × Json)) : List (String × Json) :=
  Assoc.set k (.float (addDouble (numberIn (fields.lookup k)) d)) fields

/-- Move a point, or an item by its coordinates. -/
def shiftBoth (dx dy : ℚ) : Json → Json
  | .obj fields => .obj (shift "y" dy (shift "x" dx fields))
  | j => j

/-- Move an item: a stroke by its points. -/
def moveItem (dx dy : ℚ) : Json → Json
  | .obj fields =>
    if fields.lookup "kind" = some (.str "stroke") then
      match fields.lookup "points" with
      | some (.arr points) => .obj (Assoc.set "points" (.arr (points.map (shiftBoth dx dy))) fields)
      | _ => .obj fields
    else shiftBoth dx dy (.obj fields)
  | j => j

/-- Move one of the items. -/
def Replica.move (dx dy : ℚ) (r : Replica) : Json → Replica
  | .str id => Function.update r id ((r id).map (moveItem dx dy))
  | _ => r

def Replica.translate (r : Replica) (translation : Json) : Replica :=
  ((field? translation "ids").getD .null).elements.foldl
    (Replica.move (numberIn (field? translation "dx")) (numberIn (field? translation "dy"))) r

/-- Apply a commit: its translations, or else its items, of which null is a removal. -/
def Replica.apply (r : Replica) (commit : Json) : Replica :=
  match field? commit "translations" with
  | some translations => translations.elements.foldl Replica.translate r
  | none => fun id ↦
    match field? ((field? commit "items").getD .null) id with
    | some .null => none
    | some item => some item
    | none => r id

/-! ### What is compared -/

/-- A field that is not the server's own. -/
def isPublicField (k : String) : Bool := !"__".isPrefixOf k

/-- An item without the fields of the server. -/
def stripInternal : Json → Json
  | .obj fields => .obj (fields.filter fun e ↦ isPublicField e.1)
  | j => j

/-- An item as it is compared, unless it is a chat room. -/
def plainItem (item : Json) : Option Json :=
  if isChatRoomItem item then none else some (stripInternal item)

/-- The items of a replica that are no chat rooms. -/
def Replica.plain (r : Replica) : Replica := fun id ↦ (r id).bind plainItem

/-! ### Moving and stripping -/

theorem lookup_shift_of_ne {k k' : String} (hk : k ≠ k') (d : ℚ) (fields : List (String × Json)) :
    (shift k d fields).lookup k' = fields.lookup k' := Assoc.lookup_set_of_ne hk _ _

theorem filter_shift {k : String} (hk : isPublicField k) (d : ℚ) (fields : List (String × Json)) :
    (shift k d fields).filter (fun e ↦ isPublicField e.1)
      = shift k d (fields.filter fun e ↦ isPublicField e.1) := by
  rw [shift, shift, Assoc.filter_set_of_pos hk, Assoc.lookup_filter_of_pos hk]

theorem stripInternal_shiftBoth (dx dy : ℚ) (item : Json) :
    stripInternal (shiftBoth dx dy item) = shiftBoth dx dy (stripInternal item) := by
  cases item with
  | obj fields =>
    rw [shiftBoth, stripInternal, stripInternal, shiftBoth, filter_shift (by decide +kernel),
      filter_shift (by decide +kernel)]
  | _ => rfl

theorem stripInternal_moveItem (dx dy : ℚ) (item : Json) :
    stripInternal (moveItem dx dy item) = moveItem dx dy (stripInternal item) := by
  cases item with
  | obj fields =>
    have hpoints : isPublicField "points" := by decide +kernel
    have hkind : isPublicField "kind" := by decide +kernel
    rw [moveItem, show stripInternal (.obj fields) = .obj (fields.filter fun e ↦ isPublicField e.1)
      from rfl, moveItem, Assoc.lookup_filter_of_pos hkind, Assoc.lookup_filter_of_pos hpoints]
    split
    · split
      · rw [stripInternal, Assoc.filter_set_of_pos hpoints]
      · rfl
    · exact stripInternal_shiftBoth dx dy (.obj fields)
  | _ => rfl

theorem field?_moveItem {k : String} (hpoints : "points" ≠ k) (hx : "x" ≠ k) (hy : "y" ≠ k)
    (dx dy : ℚ) (item : Json) : field? (moveItem dx dy item) k = field? item k := by
  cases item with
  | obj fields =>
    simp only [moveItem]
    split
    · split
      · exact Assoc.lookup_set_of_ne hpoints _ _
      · rfl
    · exact (lookup_shift_of_ne hy _ _).trans (lookup_shift_of_ne hx _ _)
  | _ => rfl

theorem plainItem_moveItem (dx dy : ℚ) (item : Json) :
    plainItem (moveItem dx dy item) = (plainItem item).map (moveItem dx dy) := by
  have hroom : isChatRoomItem (moveItem dx dy item) = isChatRoomItem item := by
    rw [isChatRoomItem, isChatRoomItem, field?_moveItem (by decide) (by decide) (by decide)]
  rw [plainItem, plainItem, hroom, stripInternal_moveItem]
  split <;> rfl

/-! ## What the server moves -/

theorem numberIn_of_valueDouble {j : Json} {k : String} {q : ℚ}
    (h : j.valueDouble k 0 = .ok q) : numberIn (field? j k) = q := by
  rcases field?_of_value h with ⟨v, hv, hq⟩ | ⟨hnone, hzero⟩
  · rw [hv, numberIn_of_getDouble hq]
  · rw [hnone, ← hzero]
    rfl

theorem numberIn_of_getD {found : Option Json} {q : ℚ}
    (h : (found.getD .null).getDouble = .ok q) : numberIn found = q := by
  cases found with
  | none => simp [Json.getDouble] at h
  | some v => exact numberIn_of_getDouble h

/-- The two assignments that move something by its coordinates. -/
theorem shiftBoth_eq {dx dy x y : ℚ} {j moved j' : Json} (hx : numberIn (field? j "x") = x)
    (hmoved : j.assign "x" (.float (addDouble x dx)) = .ok moved)
    (hy : numberIn (field? moved "y") = y) (h : moved.assign "y" (.float (addDouble y dy)) = .ok j')
    (hobject : j.isObject) : j' = shiftBoth dx dy j := by
  cases j with
  | obj fields =>
    obtain rfl : .obj (Assoc.set "x" (.float (addDouble x dx)) fields) = moved :=
      Except.ok.inj hmoved
    rw [field?_obj] at hx hy
    rw [← Except.ok.inj h, shiftBoth, shift, shift, hx, hy]
  | _ => exact absurd hobject Bool.false_ne_true

theorem translatePoint_eq {dx dy : ℚ} {point point' : Json}
    (h : translatePoint dx dy point = .ok point') : point' = shiftBoth dx dy point := by
  unfold translatePoint at h
  simp only [Checked.bind_ok] at h
  obtain ⟨x, hx, moved, hmoved, y, hy, h⟩ := h
  refine shiftBoth_eq (numberIn_of_getD hx) hmoved (numberIn_of_getD hy) h ?_
  cases point with
  | obj fields => rfl
  | _ => exact absurd hx Checked.typeError_ok

theorem mapM_translatePoint {dx dy : ℚ} {points points' : List Json}
    (h : points.mapM (translatePoint dx dy) = .ok points') :
    points' = points.map (shiftBoth dx dy) := by
  induction points generalizing points' with
  | nil => exact (Except.ok.inj h).symm
  | cons point points ih =>
    rw [List.mapM_cons] at h
    obtain ⟨moved, hmoved, h⟩ := Checked.bind_ok.mp h
    obtain ⟨rest, hrest, h⟩ := Checked.bind_ok.mp h
    rw [← Checked.pure_ok.mp h, List.map_cons, ← ih hrest, ← translatePoint_eq hmoved]

variable {dumpSize : Json → ℕ} {groups : List String} {admin : Bool}

theorem validate_kind {item : Json} (h : validate dumpSize item = .ok ()) :
    ∃ kind, item.valueString "kind" "" = .ok kind ∧ kind ∈ itemKinds := by
  unfold validate at h
  obtain ⟨_, -, h⟩ := Checked.bind_ok.mp h
  obtain ⟨kind, hkind, h⟩ := Checked.bind_ok.mp h
  obtain ⟨_, hmem, -⟩ := Checked.bind_ok.mp h
  exact ⟨kind, hkind, by simpa using Checked.throwIf_ok.mp hmem⟩

/-- The points of a stroke that is stored are a list of points. -/
theorem validate_points {item : Json} (h : validate dumpSize item = .ok ())
    (hstroke : field? item "kind" = some (.str "stroke")) :
    ∃ points, field? item "points" = some (.arr points) ∧
      eachOrReject isPoint "ITEM_STROKE_INVALID" points = .ok () := by
  have hobject := validate_object h
  unfold validate at h
  simp only [Checked.bind_ok] at h
  obtain ⟨_, -, _, -, _, -, _, -, _, -, _, -, _, -, _, -, _, -, _, -, _, -, h⟩ := h
  obtain ⟨stroke, hkind, h⟩ := Checked.bind_ok.mp h
  obtain rfl : true = stroke := by
    cases item with
    | obj fields =>
      have hvalue := valueString_of_field? hstroke ""
      simpa [hasText, Json.isNull, hvalue, bind, Except.bind, pure, Except.pure] using hkind
    | _ => exact absurd hobject Bool.false_ne_true
  rw [if_pos rfl] at h
  obtain ⟨_, -, h⟩ := Checked.bind_ok.mp h
  obtain ⟨points, hpoints, h⟩ := Checked.bind_ok.mp h
  obtain ⟨_, harray, heach⟩ := Checked.bind_ok.mp h
  rw [Checked.throwIf_ok, Bool.or_eq_false_iff, Bool.not_eq_false'] at harray
  cases points with
  | arr elements => exact ⟨elements, field?_of_index hpoints, heach⟩
  | _ => exact absurd harray.1 Bool.false_ne_true

/-- Points that are moved and are a list then were one before. -/
theorem translatePoints_arr {dx dy : ℚ} {j : Json} {points' : List Json}
    (h : translatePoints dx dy j = .ok (.arr points')) :
    ∃ points, j = .arr points ∧ points' = points.map (shiftBoth dx dy) := by
  cases j with
  | null => nomatch h
  | arr points =>
    obtain ⟨moved, hmoved, h⟩ := Checked.bind_ok.mp h
    obtain rfl := Json.arr.inj (Checked.pure_ok.mp h)
    exact ⟨points, rfl, mapM_translatePoint hmoved⟩
  | obj fields =>
    obtain ⟨moved, -, h⟩ := Checked.bind_ok.mp h
    nomatch Checked.pure_ok.mp h
  | _ =>
    obtain ⟨x, hx, -⟩ := Checked.bind_ok.mp h
    nomatch hx

/-- A stored translation is the one everyone is told of. -/
theorem translateItem_eq {dx dy : ℚ} {item item' : Json} (hobject : item.isObject)
    (h : translateItem dx dy item = .ok item') (hvalid : validate dumpSize item' = .ok ()) :
    item' = moveItem dx dy item := by
  obtain ⟨fields, rfl⟩ : ∃ fields, item = .obj fields := by
    cases item with
    | obj fields => exact ⟨fields, rfl⟩
    | _ => exact absurd hobject Bool.false_ne_true
  have hkind : field? item' "kind" = fields.lookup "kind" :=
    translateItem_fields h (by decide) (by decide) (by decide)
  unfold translateItem at h
  obtain ⟨stroke, hstroke, h⟩ := Checked.bind_ok.mp h
  rw [moveItem]
  have hfield : stroke = true ↔ fields.lookup "kind" = some (.str "stroke") := by
    simp only [hasText, Json.isNull, Bool.false_eq_true, if_false, Checked.bind_ok,
      Checked.pure_ok] at hstroke
    obtain ⟨text, htext, rfl⟩ := hstroke
    rw [decide_eq_true_iff]
    constructor
    · rintro rfl
      exact field?_of_valueString htext (by decide)
    · intro hlookup
      have hstored : field? (.obj fields) "kind" = some (.str "stroke") := hlookup
      exact Except.ok.inj (htext.symm.trans (valueString_of_field? hstored ""))
  by_cases hstroke : stroke = true
  · rw [if_pos hstroke] at h
    rw [if_pos (hfield.mp hstroke)]
    obtain ⟨moved, hmoved, h⟩ := Checked.bind_ok.mp h
    obtain ⟨points', hpoints', -⟩ := validate_points hvalid (hkind.trans (hfield.mp hstroke))
    rw [field?_assign h, if_pos rfl, Option.some.injEq] at hpoints'
    subst hpoints'
    obtain ⟨points, hpoints, rfl⟩ := translatePoints_arr hmoved
    have hstored : fields.lookup "points" = some (.arr points) := by
      cases hlookup : fields.lookup "points" with
      | none =>
        rw [field?_obj, hlookup] at hpoints
        contradiction
      | some v =>
        rw [field?_obj, hlookup, Option.getD_some] at hpoints
        rw [hpoints]
    rw [hstored]
    exact (Except.ok.inj h).symm
  · rw [if_neg hstroke] at h
    rw [if_neg (hfield.not.mp hstroke)]
    simp only [Checked.bind_ok] at h
    obtain ⟨x, hx, moved, hmoved, y, hy, h⟩ := h
    exact shiftBoth_eq (numberIn_of_valueDouble hx) hmoved (numberIn_of_valueDouble hy) h rfl

/-! ## Translations -/

/-- The moves among some changes, one after the other. -/
def moved (changes : List Change) (item : Json) : Json :=
  changes.foldl (fun item change ↦
    match change with
    | .move dx dy => moveItem dx dy item
    | _ => item) item

theorem moved_append (changes changes' : List Change) (item : Json) :
    moved (changes ++ changes') item = moved changes' (moved changes item) := List.foldl_append

theorem plainItem_moved (changes : List Change) (item : Json) :
    plainItem (moved changes item) = (plainItem item).map (moved changes) := by
  induction changes using List.reverseRecOn with
  | nil => exact Option.map_id'.symm
  | append_singleton changes change ih =>
    have hstep : ∀ item, moved (changes ++ [change]) item = moved [change] (moved changes item) :=
      moved_append changes [change]
    rw [hstep, funext hstep]
    cases change with
    | move dx dy =>
      change plainItem (moveItem dx dy (moved changes item)) = _
      rw [plainItem_moveItem, ih, Option.map_map]
      rfl
    | _ => exact ih

theorem foldl_move (dx dy : ℚ) {ids : List Json} (hids : ids.Nodup) (r : Replica) (id : String) :
    ids.foldl (Replica.move dx dy) r id
      = if .str id ∈ ids then (r id).map (moveItem dx dy) else r id := by
  induction ids generalizing r with
  | nil => rfl
  | cons v ids ih =>
    rw [List.nodup_cons] at hids
    rw [List.foldl_cons, ih hids.2]
    by_cases hv : v = .str id
    · subst hv
      rw [if_neg hids.1, if_pos List.mem_cons_self, Replica.move, Function.update_self]
    · have hr : Replica.move dx dy r v id = r id := by
        cases v with
        | str id' =>
          have hne : id ≠ id' := fun heq ↦ hv (heq ▸ rfl)
          rw [Replica.move, Function.update_of_ne hne]
        | _ => rfl
      rw [hr]
      simp [Ne.symm hv]

theorem changesOf_translation {operation : Json} (h : isTranslation operation) (id : String) :
    changesOf id operation = if lists operation id then
      [.move (numberIn (field? operation "dx")) (numberIn (field? operation "dy"))] else [] := by
  have haction : field? operation "action" = some (.str "translate") := of_decide_eq_true h
  simp only [changesOf, haction]

/-- What a client does with a translation it is told of. -/
theorem translate_translationOf {operation : Json} (htranslation : isTranslation operation)
    (honce : ListsOnce operation) (r : Replica) (id : String) :
    r.translate (translationOf operation) id = (r id).map (moved (changesOf id operation)) := by
  obtain ⟨ids, hids, hnodup⟩ := honce
  have htranslate : r.translate (translationOf operation)
      = ids.foldl (Replica.move (numberIn (field? operation "dx"))
        (numberIn (field? operation "dy"))) r := by
    have hlist : field? (translationOf operation) "ids" = some (.arr ids) := by
      rw [translationOf, hids]
      rfl
    rw [Replica.translate, hlist]
    rfl
  rw [htranslate, foldl_move _ _ hnodup, changesOf_translation htranslation]
  simp only [lists, hids, decide_eq_true_eq]
  split
  · rfl
  · exact Option.map_id'.symm

theorem foldl_translate {operations : List Json} (hall : operations.all isTranslation)
    (honce : ∀ operation ∈ operations, isTranslation operation → ListsOnce operation) (r : Replica)
    (id : String) :
    (operations.map translationOf).foldl Replica.translate r id
      = (r id).map (moved (historyOf operations id)) := by
  induction operations generalizing r with
  | nil => exact Option.map_id'.symm
  | cons operation operations ih =>
    rw [List.all_cons, Bool.and_eq_true] at hall
    rw [List.map_cons, List.foldl_cons,
      ih hall.2 (fun op hmem ↦ honce op (List.mem_cons_of_mem _ hmem)),
      translate_translationOf hall.1 (honce _ List.mem_cons_self hall.1), Option.map_map]
    have hhistory : historyOf (operation :: operations) id
        = changesOf id operation ++ historyOf operations id := List.flatMap_cons
    rw [hhistory, funext (moved_append _ _)]
    rfl

/-! ## Staged items -/

/-- What is compared of an item a batch sees, null when it is not there. -/
def plainSeen (item : Json) : Option Json := if item.isNull then none else plainItem item

/-- What is compared of a stored item. -/
def plainStored (item : Json) : Option Json :=
  if field? item "kind" = some (.str "host-tombstone") then none else plainItem item

theorem plainItem_congr {item item' : Json} (htype : field? item' "type" = field? item "type")
    (hstrip : stripInternal item' = stripInternal item) : plainItem item' = plainItem item := by
  rw [plainItem, plainItem, isChatRoomItem, isChatRoomItem, htype, hstrip]

theorem plainSeen_obj (fields : List (String × Json)) :
    plainSeen (.obj fields) = plainItem (.obj fields) := rfl

/-- What a batch sees of an item is what the snapshots show. -/
theorem plainSeen_visibleItem {fields : List (String × Json)} {start : Json}
    (h : visibleItem (.obj fields) = .ok start) :
    plainSeen start = plainStored (.obj fields) ∧
      field? start "kind" ≠ some (.str "host-tombstone") := by
  unfold visibleItem at h
  obtain ⟨tombstone, htombstone, h⟩ := Checked.bind_ok.mp h
  simp only [hasText, Json.isNull, Bool.false_eq_true, if_false, Checked.bind_ok,
    Checked.pure_ok] at htombstone
  obtain ⟨kind, hkind, rfl⟩ := htombstone
  have hfield : field? (.obj fields) "kind" = some (.str "host-tombstone") ↔
      kind = "host-tombstone" := by
    constructor
    · intro hstored
      exact Except.ok.inj (hkind.symm.trans (valueString_of_field? hstored ""))
    · rintro rfl
      exact field?_of_valueString hkind (by decide)
  rw [plainStored]
  by_cases hdead : kind = "host-tombstone"
  · rw [if_pos (hfield.mpr hdead)]
    rw [decide_eq_true hdead] at h
    obtain rfl := Checked.pure_ok.mp h
    exact ⟨rfl, Option.some_ne_none _ |>.symm⟩
  · rw [if_neg (hfield.not.mpr hdead)]
    rw [decide_eq_false hdead] at h
    obtain ⟨dropped, hdropped, h⟩ := Checked.bind_ok.mp h
    obtain rfl : Json.obj (Assoc.erase "__host_version" fields) = dropped := Except.ok.inj hdropped
    obtain rfl : Json.obj (Assoc.erase "__broker_revision" (Assoc.erase "__host_version" fields))
      = start := Except.ok.inj h
    refine ⟨?_, ?_⟩
    · refine (plainSeen_obj _).trans (plainItem_congr ?_ ?_)
      · rw [field?_obj, field?_obj, Assoc.lookup_erase_of_ne (by decide),
          Assoc.lookup_erase_of_ne (by decide)]
      · rw [stripInternal, stripInternal, Assoc.filter_erase_of_neg (by decide +kernel),
          Assoc.filter_erase_of_neg (by decide +kernel)]
    · rw [field?_obj, Assoc.lookup_erase_of_ne (by decide), Assoc.lookup_erase_of_ne (by decide)]
      exact hfield.not.mpr hdead

theorem kind_of_validate {item : Json} (h : validate dumpSize item = .ok ()) :
    field? item "kind" ≠ some (.str "host-tombstone") := by
  obtain ⟨kind, hkind, hmem⟩ := validate_kind h
  intro hfield
  rw [valueString_of_field? hfield, Except.ok.injEq] at hkind
  rw [← hkind] at hmem
  exact absurd hmem (by decide)

theorem storedItem_kind {old operation item : Json}
    (h : storedItem dumpSize groups admin old operation = .ok item) :
    field? item "kind" ≠ some (.str "host-tombstone") := by
  unfold storedItem at h
  simp only [Checked.bind_ok] at h
  obtain ⟨patched, -, _, hvalid, updated, hupdated, kind, -, h⟩ := h
  obtain rfl := queryUpdatedItem_eq hupdated
  split at h
  · obtain ⟨-, hfields, -, -⟩ := mergeHistory_ok h
    rw [hfields "kind" (by decide) (by decide)]
    exact kind_of_validate hvalid
  · obtain rfl := Checked.pure_ok.mp h
    exact kind_of_validate hvalid

/-- Nothing is turned into a tombstone. -/
theorem Broker.Edits.kind {changes : List Change} {start item : Json}
    (h : Edits dumpSize groups admin changes start item)
    (hstart : field? start "kind" ≠ some (.str "host-tombstone")) :
    field? item "kind" ≠ some (.str "host-tombstone") := by
  cases h with
  | nil => exact hstart
  | snoc _ edit =>
    cases edit with
    | move _ _ _ _ valid => exact kind_of_validate valid
    | delete => exact nofun
    | create stored => exact storedItem_kind stored
    | patch _ stored => exact storedItem_kind stored

/-- Translations alone make of an item what a client makes of it. -/
theorem Broker.Edits.moved {changes : List Change} {start item : Json} (hitem : Itemlike start)
    (h : Edits dumpSize groups admin changes start item)
    (hmoves : ∀ change ∈ changes, ∃ dx dy, change = .move dx dy) :
    plainSeen item = (plainSeen start).map (Agora.moved changes) := by
  induction h with
  | nil => exact Option.map_id'.symm
  | @snoc changes change start item' item'' h edit ih =>
    obtain ⟨dx, dy, rfl⟩ := hmoves change (List.mem_append_right _ List.mem_cons_self)
    have hbefore := ih hitem fun change hmem ↦ hmoves change (List.mem_append_left _ hmem)
    cases edit with
    | move there connector room moved valid =>
      have hobject : item'.isObject := (h.itemlike hitem).resolve_left fun hnull ↦ by
        rw [hnull] at there
        exact absurd there (by decide)
      have hobject' := validate_object valid
      have hseen : ∀ {j : Json}, j.isObject → plainSeen j = plainItem j := by
        intro j hj
        cases j with
        | null => exact absurd hj Bool.false_ne_true
        | _ => rfl
      rw [funext (moved_append changes [.move dx dy]), hseen hobject',
        translateItem_eq hobject moved valid, plainItem_moveItem, ← hseen hobject, hbefore,
        Option.map_map]
      rfl

/-- What the snapshots show of an item that was stored by a batch. -/
theorem plainStored_stamp {item : Json} (hitem : Itemlike item)
    (hkind : field? item "kind" ≠ some (.str "host-tombstone")) (revision : ℤ) :
    (stamp revision item).bind plainStored = plainSeen item := by
  rcases hitem with rfl | hobject
  · rfl
  · cases item with
    | obj fields =>
      have hstored : ∀ k, "__broker_revision" ≠ k →
          field? (.obj (Assoc.set "__broker_revision" (.int revision) fields)) k
            = field? (.obj fields) k := fun k hk ↦ Assoc.lookup_set_of_ne hk _ _
      rw [stamp, Option.bind_some, plainStored, hstored "kind" (by decide), if_neg hkind,
        plainSeen_obj]
      refine plainItem_congr (hstored "type" (by decide)) ?_
      rw [stripInternal, stripInternal, Assoc.filter_set_of_neg (by decide +kernel)]
    | _ => exact absurd hobject Bool.false_ne_true

/-! ## Commits -/

/-- What everyone is told of the batches that were applied. -/
def commitsOf (answer : Json) : List Json :=
  (((field? answer "broadcasts").getD .null).elements.filterMap (field? · "event")).filter
    fun event ↦ decide (field? event "type" = some (.str "canvas_commit"))

def commitRevision (commit : Json) : ℤ :=
  match field? commit "revision" with
  | some (.int n) => n
  | _ => 0

theorem commitsOf_watermark (route : Route) (response : List (String × Json)) (revision : Json) :
    commitsOf (envelope route response [watermarkBroadcast revision]) = [] := rfl

/-- What a commit contains. -/
structure Tells (mutation : Mutation) (revision : ℤ) (event : Json) : Prop where
  revision_eq : commitRevision event = revision
  translations : mutation.onlyTranslations →
    field? event "translations" = some (.arr mutation.translations)
  items : mutation.onlyTranslations = false → field? event "translations" = none ∧
    ∃ items, withRevisions (.int revision) (Json.sortedFields mutation.items) = .ok items ∧
      field? event "items" = some (.obj items)

theorem commitBroadcast_tells {a : Admitted} {request : BatchRequest} {mutation : Mutation}
    {revision : ℤ} {broadcast : Json}
    (h : commitBroadcast a request mutation (.int revision) = .ok broadcast)
    (route : Route) (response : List (String × Json)) :
    ∃ event, commitsOf (envelope route response [broadcast]) = [event] ∧
      Tells mutation revision event := by
  unfold commitBroadcast at h
  simp only [Checked.bind_ok] at h
  obtain ⟨previous, -, permissions, -, items, hitems, user, -, h⟩ := h
  obtain rfl := Checked.pure_ok.mp h
  cases honly : mutation.onlyTranslations with
  | true => exact ⟨_, rfl, rfl, fun _ ↦ rfl, fun hno ↦ absurd (honly.symm.trans hno) (by decide)⟩
  | false =>
    refine ⟨_, rfl, rfl, fun hyes ↦ absurd (honly.symm.trans hyes) (by decide), fun _ ↦ ?_⟩
    exact ⟨rfl, items, hitems, rfl⟩

theorem withRevisions_lookup {revision : Json} {staged items : List (String × Json)}
    (h : withRevisions revision staged = .ok items) (id : String) :
    match staged.lookup id with
    | none => items.lookup id = none
    | some item =>
      ∃ item', withRevision revision item = .ok item' ∧ items.lookup id = some item' := by
  induction staged generalizing items with
  | nil =>
    rw [← Except.ok.inj h]
    rfl
  | cons e staged ih =>
    obtain ⟨id', item⟩ := e
    obtain ⟨item', hitem', h⟩ := Checked.bind_ok.mp h
    obtain ⟨rest, hrest, h⟩ := Checked.bind_ok.mp h
    obtain rfl := Checked.pure_ok.mp h
    by_cases hid : id' = id
    · subst hid
      rw [List.lookup_cons_self]
      exact ⟨item', hitem', List.lookup_cons_self⟩
    · rw [Assoc.lookup_cons_of_ne hid, Assoc.lookup_cons_of_ne hid]
      exact ih hrest

/-! ### A batch -/

/-- A replica has what the snapshots of a board show. -/
structure Agrees (r : Replica) (b : Board) : Prop where
  objects : ∀ id item, b.items id = some item → item.isObject
  plain : ∀ id, r.plain id = (b.items id).bind plainStored

/-- What a batch sees of an item, and what of it is compared. -/
theorem Agrees.seen {r : Replica} {d : Json} {b : Board} (h : Agrees r b) (hshows : Shows d b)
    {id : String} {start : Json} (hstart : visibleItem (itemOf d id) = .ok start) :
    plainSeen start = (b.items id).bind plainStored ∧
      field? start "kind" ≠ some (.str "host-tombstone") := by
  rw [itemOf, hshows.items] at hstart
  cases hitem : b.items id with
  | none =>
    rw [hitem] at hstart
    obtain rfl : .null = start := Except.ok.inj hstart
    exact ⟨rfl, Option.some_ne_none _ |>.symm⟩
  | some item =>
    have hobject := h.objects id item hitem
    rw [hitem, Option.getD_some] at hstart
    cases item with
    | obj fields => exact plainSeen_visibleItem hstart
    | _ => exact absurd hobject Bool.false_ne_true

theorem move_of_isTranslation {operations : List Json} (hall : operations.all isTranslation)
    (id : String) : ∀ change ∈ historyOf operations id, ∃ dx dy, change = .move dx dy := by
  intro change hmem
  obtain ⟨operation, hoperation, hmem⟩ := List.mem_flatMap.mp hmem
  rw [changesOf_translation (List.all_eq_true.mp hall operation hoperation)] at hmem
  split at hmem
  · exact ⟨_, _, List.mem_singleton.mp hmem⟩
  · exact absurd hmem List.not_mem_nil

/-- A client that agrees with the canvas agrees with it after the next commit. -/
theorem Agrees.commit {r : Replica} {d : Json} {b : Board} (h : Agrees r b) (hshows : Shows d b)
    {operations : List Json} {request : BatchRequest} {mutation : Mutation}
    (hstaged : StagedFrom dumpSize groups admin d operations mutation) {event : Json}
    (htells : Tells mutation (b.revision + 1) event) :
    Agrees (r.apply event) (b.apply (batchOf request mutation)) := by
  have hitems : ∀ id, (b.apply (batchOf request mutation)).items id
      = match mutation.items.lookup id with
        | some v => stamp (b.revision + 1) v
        | none => b.items id := fun _ ↦ rfl
  have hlike : ∀ id v, mutation.items.lookup id = some v → Itemlike v ∧
      (stamp (b.revision + 1) v).bind plainStored = plainSeen v := by
    intro id v hv
    obtain ⟨start, hstart, hedits⟩ := hstaged.edited id v hv
    have hitem := hedits.itemlike (visibleItem_itemlike hstart)
    exact ⟨hitem, plainStored_stamp hitem (hedits.kind (h.seen hshows hstart).2) _⟩
  constructor
  · intro id item hitem
    rw [hitems] at hitem
    cases hlookup : mutation.items.lookup id with
    | none =>
      rw [hlookup] at hitem
      exact h.objects id item hitem
    | some v =>
      rw [hlookup] at hitem
      rcases (hlike id v hlookup).1 with rfl | hobject
      · nomatch hitem
      · cases v with
        | obj fields =>
          rw [← Option.some.inj hitem]
          rfl
        | _ => exact absurd hobject Bool.false_ne_true
  · intro id
    rw [hitems]
    -- a batch of translations is told as these, any other one with the items it stores
    cases honly : mutation.onlyTranslations with
    | true =>
      have hall : operations.all isTranslation := hstaged.only.symm.trans honly
      have hfilter : operations.filter isTranslation = operations :=
        List.filter_eq_self.mpr (List.all_eq_true.mp hall)
      have happly : r.apply event id = (r id).map (moved (historyOf operations id)) := by
        rw [Replica.apply, htells.translations honly, hstaged.translations, hfilter]
        exact foldl_translate hall hstaged.once r id
      have hplain : (r.apply event).plain id
          = ((b.items id).bind plainStored).map (moved (historyOf operations id)) := by
        rw [← h.plain, Replica.plain, Replica.plain, happly, Option.bind_map, Option.map_bind]
        exact congrArg (r id).bind (funext (plainItem_moved _))
      rw [hplain]
      cases hlookup : mutation.items.lookup id with
      | none =>
        rw [hstaged.untouched id hlookup]
        exact Option.map_id'
      | some v =>
        obtain ⟨start, hstart, hedits⟩ := hstaged.edited id v hlookup
        rw [(hlike id v hlookup).2, hedits.moved (visibleItem_itemlike hstart)
          (move_of_isTranslation hall id), (h.seen hshows hstart).1]
    | false =>
      obtain ⟨hnone, items, hrevisions, hfield⟩ := htells.items honly
      have happly : r.apply event id = match items.lookup id with
          | some .null => none
          | some item => some item
          | none => r id := by
        rw [Replica.apply, hnone, hfield]
        rfl
      have hlookups := withRevisions_lookup hrevisions id
      rw [Assoc.lookup_perm hstaged.nodup (Json.sortedFields_perm _)] at hlookups
      cases hlookup : mutation.items.lookup id with
      | none =>
        rw [hlookup] at hlookups
        rw [Replica.plain, happly, hlookups]
        exact h.plain id
      | some v =>
        rw [hlookup] at hlookups
        obtain ⟨item, hitem, hlookups⟩ := hlookups
        rw [Replica.plain, happly, hlookups, (hlike id v hlookup).2]
        rcases (hlike id v hlookup).1 with rfl | hobject
        · obtain rfl := Checked.pure_ok.mp hitem
          rfl
        · cases v with
          | obj fields =>
            obtain rfl : Json.obj (Assoc.set "__broker_revision" (.int (b.revision + 1)) fields)
              = item := Except.ok.inj hitem
            rw [plainSeen_obj]
            refine plainItem_congr (Assoc.lookup_set_of_ne (by decide) _ _) ?_
            rw [stripInternal, stripInternal, Assoc.filter_set_of_neg (by decide +kernel)]
          | _ => exact absurd hobject Bool.false_ne_true

/-! ## Snapshots -/

/-- A document has every item once, as every document has that was parsed. -/
def ItemsOnce (d : Json) : Prop :=
  ∀ fields, d.find itemsPath = some (.obj fields) → (fields.map Prod.fst).Nodup

/-- A snapshot that an administrator takes of a canvas with some document. -/
inductive Snapshot (base : Backend Storage) (readNumber : String → Option ℚ) (d : Json) :
    Json → Prop
  | sync (a : Admitted) (type : a.type = "canvas_sync") (admin : a.admin = true) (visit : Visit)
      (faults : List Fault) (answer : Json) (s : Storage)
      (run : canvasQuery (storageBackend base readNumber visit) a ⟨d, faults⟩ = (.ok answer, s)) :
      Snapshot base readNumber d answer
  | join (route : Route) (p : Principal) (input : Json)
      (admin : (groupsForUser d p.userId).2 = true)
      (wanted : input.valueBool "include_items" true = .ok true) (visit : Visit)
      (faults : List Fault) (answer : Json) (s : Storage)
      (run : joinLoaded (storageBackend base readNumber visit) route p input ⟨d, faults⟩
        = (.ok answer, s)) :
      Snapshot base readNumber d answer

def snapshotItems (answer : Json) : Replica := fun id ↦
  ((field? answer "response").bind (field? · "items")).bind (field? · id)

def snapshotRevision (answer : Json) : Option Json :=
  (field? answer "response").bind (field? · "revision")

theorem isChatRoomItem_eraseKey {item item' : Json} {k : String} (hk : k ≠ "type")
    (h : item.eraseKey k = .ok item') : isChatRoomItem item' = isChatRoomItem item := by
  rw [isChatRoomItem, isChatRoomItem, field?_eraseKey h, if_neg hk]

/-- What a snapshot shows of one item. -/
theorem shownItem_ok {id : String} {item : Json} {shown : List (String × Json)}
    (h : shownItem groups true (id, item) = .ok shown) :
    item.isObject ∧ ∃ found : Option Json, shown = (found.map fun item' ↦ (id, item')).toList ∧
      found.bind plainItem = plainStored item := by
  obtain ⟨visible, hvisible, h⟩ := Checked.bind_ok.mp h
  obtain ⟨kind, hkind, hvisible⟩ := Checked.bind_ok.mp hvisible
  obtain ⟨fields, rfl⟩ : ∃ fields, item = .obj fields := by
    cases item with
    | obj fields => exact ⟨fields, rfl⟩
    | _ => exact absurd hkind Checked.typeError_ok
  obtain rfl := Checked.pure_ok.mp hvisible
  have hfield : field? (.obj fields) "kind" = some (.str "host-tombstone") ↔
      kind = "host-tombstone" := by
    constructor
    · intro hstored
      exact Except.ok.inj (hkind.symm.trans (valueString_of_field? hstored ""))
    · rintro rfl
      exact field?_of_valueString hkind (by decide)
  refine ⟨rfl, ?_⟩
  by_cases hdead : kind = "host-tombstone"
  · rw [if_neg (by simp [hdead])] at h
    refine ⟨none, (Checked.pure_ok.mp h).symm, ?_⟩
    rw [plainStored, if_pos (hfield.mpr hdead)]
    rfl
  · rw [if_pos (by simp [hdead, queryCanAccess])] at h
    obtain ⟨item', hitem', h⟩ := Checked.bind_ok.mp h
    refine ⟨some item', (Checked.pure_ok.mp h).symm, ?_⟩
    rw [plainStored, if_neg (hfield.not.mpr hdead), Option.bind_some]
    rw [publicItem] at hitem'
    split at hitem'
    · next hroom =>
      obtain ⟨item₁, hitem₁, hitem'⟩ := Checked.bind_ok.mp hitem'
      rw [plainItem, plainItem, isChatRoomItem_eraseKey (by decide) hitem',
        isChatRoomItem_eraseKey (by decide) hitem₁, if_pos hroom, if_pos hroom]
    · rw [← Checked.pure_ok.mp hitem']

theorem visibleItems_keys {l items : List (String × Json)}
    (h : visibleItems groups true l = .ok items) {id : String} (hid : id ∉ l.map Prod.fst) :
    items.lookup id = none := by
  induction l generalizing items with
  | nil =>
    rw [← Except.ok.inj h]
    rfl
  | cons e l ih =>
    obtain ⟨id', item⟩ := e
    obtain ⟨shown, hshown, h⟩ := Checked.bind_ok.mp h
    obtain ⟨rest, hrest, h⟩ := Checked.bind_ok.mp h
    rw [List.map_cons, List.mem_cons, not_or] at hid
    obtain ⟨-, found, rfl, -⟩ := shownItem_ok hshown
    rw [← Checked.pure_ok.mp h, List.lookup_append, ih hrest hid.2]
    cases found with
    | none => rfl
    | some item' => simp [hid.1]

/-- What a snapshot shows of the items. -/
theorem visibleItems_lookup {l items : List (String × Json)}
    (h : visibleItems groups true l = .ok items) (hl : (l.map Prod.fst).Nodup) (id : String) :
    (items.lookup id).bind plainItem = (l.lookup id).bind plainStored ∧
      ∀ item, l.lookup id = some item → item.isObject := by
  induction l generalizing items with
  | nil =>
    rw [← Except.ok.inj h]
    exact ⟨rfl, nofun⟩
  | cons e l ih =>
    obtain ⟨id', item⟩ := e
    obtain ⟨shown, hshown, h⟩ := Checked.bind_ok.mp h
    obtain ⟨rest, hrest, h⟩ := Checked.bind_ok.mp h
    rw [List.map_cons, List.nodup_cons] at hl
    obtain ⟨hobject, found, rfl, hfound⟩ := shownItem_ok hshown
    obtain rfl := Checked.pure_ok.mp h
    by_cases hid : id' = id
    · subst hid
      rw [List.lookup_cons_self, List.lookup_append, visibleItems_keys hrest hl.1, Option.or_none]
      refine ⟨?_, fun item' hitem' ↦ Option.some.inj hitem' ▸ hobject⟩
      rw [Option.bind_some, ← hfound]
      cases found with
      | none => rfl
      | some item' => simp
    · rw [Assoc.lookup_cons_of_ne hid, List.lookup_append]
      have hnone : ((found.map fun item' ↦ (id', item')).toList).lookup id = none := by
        cases found with
        | none => rfl
        | some item' => simp [Ne.symm hid]
      rw [hnone, Option.none_or]
      exact ih hrest hl.2

section Storage

variable {base : Backend Storage} {readNumber : String → Option ℚ} {visit : Visit} {id : ℤ}

theorem loadDocument_run {s s' : Storage} {doc : Json}
    (h : loadDocument (storageBackend base readNumber visit) id s = (.ok doc, s')) :
    doc = s.document ∧ s'.document = s.document := by
  obtain ⟨raw, t, hload, hrest⟩ := bind_ok.mp h
  obtain ⟨text, t₁, htext, hparse⟩ := bind_ok.mp hrest
  have hrun := Storage.reading_run (fun d ↦ some d) s
  rw [call_run, Prod.mk.injEq, Except.ok.injEq] at hload
  cases raw with
  | none => nomatch htext
  | some raw =>
    rw [orUnavailable, pure_run, Prod.mk.injEq, Except.ok.injEq] at htext
    rw [← htext.1, hrun.2 raw hload.1, lift_run, parse, Prod.mk.injEq, Except.ok.injEq] at hparse
    refine ⟨hparse.1.symm, ?_⟩
    rw [← hparse.2, ← htext.2, ← hload.2]
    exact hrun.1

theorem syncRevision_shown {d : Json} {b : Board} (h : Shows d b) {revision : ℤ}
    (hlow : 0 ≤ b.revision) (hhigh : b.revision < 9223372036854775808)
    (hrevision : syncRevision (d.find revisionPath) = .ok revision) : revision = b.revision := by
  rcases h.ledger with hnone | hshown
  · have hfind : d.find revisionPath = none := by
      rw [show revisionPath = ledgerPath ++ [.key "revision"] from rfl, Json.find_append,
        hnone.ledger]
      rfl
    rw [hfind] at hrevision
    rw [hnone.revision]
    exact (Checked.pure_ok.mp hrevision).symm
  · rw [hshown.revision] at hrevision
    rw [← Except.ok.inj hrevision]
    exact Json.wrap_64 (by omega) hhigh

/-- The items of a document, as the snapshots of an administrator show them. -/
theorem agrees_of_visible {d : Json} {b : Board} (h : Shows d b) (honce : ItemsOnce d)
    {fields items : List (String × Json)} (hfields : d.find itemsPath = some (.obj fields))
    (hitems : visibleItems groups true (Json.sortedFields fields) = .ok items) {r : Replica}
    (hr : ∀ id, r id = items.lookup id) : Agrees r b := by
  have hkeys : ((Json.sortedFields fields).map Prod.fst).Nodup :=
    ((Json.sortedFields_perm fields).map Prod.fst).nodup_iff.mpr (honce fields hfields)
  have hlookup : ∀ id, (Json.sortedFields fields).lookup id = b.items id := by
    intro id
    rw [Assoc.lookup_perm (honce fields hfields) (Json.sortedFields_perm fields), ← h.items]
    exact (Json.find_key hfields id).symm
  refine ⟨fun id item hitem ↦ ?_, fun id ↦ ?_⟩
  · exact (visibleItems_lookup hitems hkeys id).2 item ((hlookup id).trans hitem)
  · rw [Replica.plain, hr, (visibleItems_lookup hitems hkeys id).1, hlookup]

theorem find_items {d : Json} {fields : List (String × Json)}
    (h : d.find itemsPath = some (.obj fields)) : field? d "items" = some (.obj fields) := by
  rw [← h]
  exact (Option.bind_fun_some _).symm

/-- A snapshot at a revision shows what is stored there. -/
theorem Snapshot.agrees {d : Json} {answer : Json} (h : Snapshot base readNumber d answer)
    {b : Board} (hshows : Shows d b) (honce : ItemsOnce d) (hlow : 0 ≤ b.revision)
    (hhigh : b.revision < 9223372036854775808) :
    snapshotRevision answer = some (.int b.revision) ∧ Agrees (snapshotItems answer) b := by
  obtain ⟨fields, hfields⟩ := hshows.holder
  cases h with
  | sync a type admin visit faults _ s run =>
    obtain ⟨client, user, sync, accepted, _, hdocument, hrevision, -, hquery⟩ := canvasQuery_ok run
    rw [if_pos type] at hquery
    obtain ⟨doc, t₁, hdoc, hrest₁⟩ := bind_ok.mp hquery
    obtain ⟨source, t₂, hsource, hrest₂⟩ := bind_ok.mp hrest₁
    obtain ⟨items, t₃, hitems, hrest₃⟩ := bind_ok.mp hrest₂
    obtain ⟨userId, t₄, -, hanswer⟩ := bind_ok.mp hrest₃
    rw [lift_run, Prod.mk.injEq] at hsource hitems
    rw [pure_run, Prod.mk.injEq, Except.ok.injEq] at hanswer
    rw [(loadDocument_run hdoc).1, hdocument] at hsource
    rw [← hanswer.1, syncRevision_shown hshows hlow hhigh hrevision]
    have hvisible : visibleItems a.groups true (Json.sortedFields fields) = .ok items := by
      rcases field?_of_value hsource.1 with ⟨v, hv, hsame⟩ | ⟨hnone, -⟩
      · rw [find_items hfields, Option.some.injEq] at hv
        rw [← Except.ok.inj hsame, ← hv, admin] at hitems
        exact hitems.1
      · rw [find_items hfields] at hnone
        nomatch hnone
    exact ⟨rfl, agrees_of_visible hshows honce hfields hvisible fun _ ↦ rfl⟩
  | join route p input admin wanted visit faults _ s run =>
    obtain ⟨doc, t, hdoc, hrest⟩ := bind_ok.mp run
    obtain ⟨revision, t₁, hsettings, hrest₁⟩ := bind_ok.mp hrest
    obtain ⟨_, t₂, hchanged, hrest₂⟩ := bind_ok.mp hrest₁
    obtain ⟨asked, t₃, hasked, hrest₃⟩ := bind_ok.mp hrest₂
    obtain ⟨items, t₄, hitems, hrest₄⟩ := bind_ok.mp hrest₃
    obtain ⟨client, t₅, hclient, hrest₅⟩ := bind_ok.mp hrest₄
    obtain ⟨sync, t₆, hsync, hrest₆⟩ := bind_ok.mp hrest₅
    obtain ⟨accepted, t₇, haccepted, hrest₇⟩ := bind_ok.mp hrest₆
    obtain ⟨name, t₈, hname, hanswer⟩ := bind_ok.mp hrest₇
    rw [lift_run, Prod.mk.injEq] at hsettings hchanged hasked hitems hclient
    rw [pure_run, Prod.mk.injEq, Except.ok.injEq] at hanswer
    obtain ⟨rfl, hdocument⟩ := loadDocument_run hdoc
    obtain ⟨-, rfl⟩ := hsettings
    obtain ⟨-, rfl⟩ := hchanged
    obtain ⟨hasked, rfl⟩ := hasked
    obtain ⟨hitems, rfl⟩ := hitems
    obtain ⟨-, rfl⟩ := hclient
    obtain ⟨hdocument₁, hrevision, -⟩ :=
      brokerSyncState_run (clientKey_ne_empty p.userId client) hsync
    obtain rfl : true = asked := Except.ok.inj (wanted.symm.trans hasked)
    rw [hdocument] at hrevision
    rw [← hanswer.1, syncRevision_shown hshows hlow hhigh hrevision]
    simp only [joinedItems, find_items hfields, if_true, admin] at hitems
    exact ⟨rfl, agrees_of_visible hshows honce hfields hitems fun _ ↦ rfl⟩

/-! ### Items occur once -/

theorem set_cons_putChild {s : Segment} {p : List Segment} {j v j' : Json}
    (h : j.set (s :: p) v = some j') : ∃ w, Json.putChild s j w = some j' := by
  cases p with
  | nil => exact ⟨v, h⟩
  | cons t p =>
    rw [Json.set_cons (List.cons_ne_nil t p)] at h
    obtain ⟨c, -, h⟩ := Option.bind_eq_some_iff.mp h
    obtain ⟨w, -, h⟩ := Option.bind_eq_some_iff.mp h
    exact ⟨w, h⟩

theorem itemsOnce_set_item {d d' v : Json} {item : String} {p : List Segment} (honce : ItemsOnce d)
    (h : d.set (.key "items" :: .key item :: p) v = some d') : ItemsOnce d' := by
  intro fields' hfields'
  rw [Json.set_cons (List.cons_ne_nil _ _)] at h
  obtain ⟨c, hc, h⟩ := Option.bind_eq_some_iff.mp h
  obtain ⟨c', hc', h⟩ := Option.bind_eq_some_iff.mp h
  obtain ⟨w, hw⟩ := set_cons_putChild hc'
  have hfind : d'.find itemsPath = some c' := by
    rw [itemsPath, Json.find_cons, Json.child_putChild_self h]
    rfl
  rw [hfind, Option.some.injEq] at hfields'
  cases c with
  | obj fields =>
    have hbefore : (fields.map Prod.fst).Nodup := by
      refine honce fields ?_
      rw [itemsPath, Json.find_cons, hc]
      rfl
    obtain rfl : Assoc.set item w fields = fields' :=
      Json.obj.inj ((Option.some.inj hw).trans hfields')
    by_cases hmem : item ∈ fields.map Prod.fst
    · rw [Assoc.map_fst_set_of_mem hmem]
      exact hbefore
    · rw [Assoc.map_fst_set_of_notMem hmem, List.nodup_append]
      refine ⟨hbefore, List.nodup_singleton _, ?_⟩
      intro k hk k' hk' heq
      exact hmem (List.mem_singleton.mp hk' ▸ heq ▸ hk)
  | _ => nomatch hw

theorem itemsOnce_set_apart {d d' v : Json} {p : List Segment} (honce : ItemsOnce d)
    (hapart : Json.Apart p itemsPath) (h : d.set p v = some d') : ItemsOnce d' := by
  intro fields hfields
  rw [Json.find_set_of_apart hapart h] at hfields
  exact honce fields hfields

theorem pruneFields_keys (select : List Segment → Bool) (fields : List (String × Json)) :
    ((Json.pruneFields select fields).map Prod.fst).Sublist (fields.map Prod.fst) := by
  induction fields with
  | nil => exact .slnil
  | cons e fields ih =>
    rw [Json.pruneFields]
    split
    · exact ih.cons _
    · exact ih.cons_cons _

theorem itemsOnce_prune {d : Json} {item : String} (honce : ItemsOnce d) :
    ItemsOnce (d.prune fun p ↦ p = itemPath item) := by
  intro fields' hfields'
  have hindex : ∀ p i, decide (p ++ [Segment.index i] = itemPath item) = false := fun p i ↦
    decide_eq_false fun heq ↦ by simpa [itemPath] using congrArg List.getLast? heq
  have hprefix : ∀ p, p ≠ [] → p <+: itemsPath → decide (p = itemPath item) = false := fun p _ hp ↦
    decide_eq_false fun heq ↦ by
      have hlength := hp.length_le
      rw [heq] at hlength
      simp [itemPath, itemsPath] at hlength
  rw [Json.find_prune hindex hprefix] at hfields'
  obtain ⟨j, hj, hpruned⟩ := Option.map_eq_some_iff.mp hfields'
  cases j with
  | obj fields =>
    rw [Json.prune, Json.obj.injEq] at hpruned
    rw [← hpruned]
    exact (honce fields hj).sublist (pruneFields_keys _ fields)
  | _ => cases hpruned

/-! The script keeps the items apart. -/

section Script

open Script

theorem keeps_setLedger (p : List Segment) (v : Json) :
    Keeps ItemsOnce (jsonSet (.key "__broker_sync" :: p) v) := by
  intro d hd
  cases hset : d.set (.key "__broker_sync" :: p) v with
  | none =>
    rw [jsonSet_of_none hset]
    exact hd
  | some d' =>
    rw [jsonSet_run hset]
    exact itemsOnce_set_apart hd (apart_ledger_items p []) hset

theorem keeps_setItem (item : String) (p : List Segment) (v : Json) :
    Keeps ItemsOnce (jsonSet (.key "items" :: .key item :: p) v) := by
  intro d hd
  cases hset : d.set (.key "items" :: .key item :: p) v with
  | none =>
    rw [jsonSet_of_none hset]
    exact hd
  | some d' =>
    rw [jsonSet_run hset]
    exact itemsOnce_set_item hd hset

theorem writeItem_keeps (revision : ℚ) (e : String × Json) :
    Keeps ItemsOnce (writeItem revision e) := by
  unfold writeItem
  split
  · exact fun d hd ↦ itemsOnce_prune hd
  · exact keeps_bind (keeps_setItem e.1 [] e.2) fun _ ↦
      keeps_setItem e.1 [.key "__broker_revision"] _

/-- A number of a table that may be missing. -/
theorem keeps_number {found : Option Json} {k : String} {default : ℚ} {f : Option Json → ℚ} :
    Keeps ItemsOnce (match found with
      | none | some (.bool false) => pure default
      | some v => do return f (← luaIndex k v) : Script ℚ) := by
  split
  · exact keeps_pure _
  · exact keeps_pure _
  · exact keeps_bind (keeps_luaIndex _ _) fun _ ↦ keeps_pure _

theorem conflicts_keeps (expected : List (String × ℤ)) :
    Keeps ItemsOnce (conflicts readNumber expected) := by
  induction expected with
  | nil => exact keeps_pure _
  | cons e expected ih =>
    refine keeps_bind (keeps_jsonGet _) fun found ↦ keeps_bind keeps_number fun actual ↦ ?_
    split
    · exact keeps_pure _
    · exact ih

theorem clientsFull_keeps (previous : Option Json) : Keeps ItemsOnce (clientsFull previous) := by
  unfold clientsFull
  split
  · exact keeps_pure _
  · refine keeps_bind (keeps_jsonGet _) fun found ↦ keeps_bind ?_ fun _ ↦ keeps_pure _
    unfold tableSize
    split
    · exact keeps_pure _
    · exact keeps_pure _
    · exact keeps_pure _
    · exact keeps_pure _
    · exact keeps_raise

theorem decideBatch_keeps (batch : Batch) (previous : Option Json) (revision : ℚ) :
    Keeps ItemsOnce (decideBatch readNumber batch previous revision) := by
  refine keeps_bind (conflicts_keeps _) fun conflict ↦ ?_
  split
  · exact keeps_pure _
  refine keeps_bind (clientsFull_keeps _) fun full ↦ ?_
  split
  · exact keeps_pure _
  split
  · exact keeps_pure _
  refine keeps_bind (keeps_forM (fun e ↦ writeItem_keeps _ e) _) fun _ ↦ ?_
  exact keeps_bind (keeps_setLedger [.key "revision"] _) fun _ ↦
    keeps_bind (keeps_setLedger [.key "clients", .key batch.client] _) fun _ ↦ keeps_pure _

theorem batchScript_keeps (batch : Batch) : Keeps ItemsOnce (batchScript readNumber batch) := by
  have hledger : Keeps ItemsOnce ensureLedger := by
    refine keeps_bind (keeps_jsonGet _) fun ledger ↦ ?_
    split
    · exact keeps_pure _
    · exact keeps_setLedger [] _
  refine keeps_bind hledger fun _ ↦ keeps_bind (keeps_jsonGet _) fun previous ↦
    keeps_bind keeps_number fun last ↦ keeps_bind (keeps_jsonGet _) fun revision ↦ ?_
  dsimp only
  split
  · refine keeps_bind (keeps_luaIndex _ _) fun _ ↦ keeps_bind (keeps_luaIndex _ _) fun _ ↦ ?_
    split
    · exact keeps_pure _
    · exact keeps_bind (keeps_luaIndex _ _) fun _ ↦ keeps_pure _
  · split
    · exact keeps_pure _
    · exact decideBatch_keeps _ _ _

end Script

theorem readMatch_keeps {P : Json → Prop} (keys : List String) :
    Keeps (fun s : Storage ↦ P s.document)
      (readMatch (storageBackend base readNumber visit) id keys) := by
  refine keeps_bind (keeps_reading _) fun raw ↦ keeps_bind ?_ fun _ ↦
    keeps_bind (keeps_lift _) fun _ ↦ keeps_lift _
  cases raw with
  | none => exact keeps_fail _
  | some text => exact keeps_pure _

/-- Whatever a query does to the document, its script does. -/
theorem canvasQuery_keeps {P : Json → Prop} (a : Admitted)
    (hscript : ∀ batch, Keeps P (batchScript readNumber batch)) :
    Keeps (fun s : Storage ↦ P s.document)
      (canvasQuery (storageBackend base readNumber visit) a) := by
  refine keeps_step fun client ↦ keeps_step fun _ ↦ keeps_step fun _ ↦ keeps_step fun user ↦ ?_
  refine keeps_bind ?_ fun sync ↦ keeps_step fun accepted ↦ ?_
  · refine keeps_bind (readMatch_keeps _) fun _ ↦ keeps_step fun _ ↦ ?_
    split
    · exact keeps_pure _
    · exact keeps_bind (readMatch_keeps _) fun _ ↦ keeps_pure _
  split
  · refine keeps_bind ?_ fun doc ↦ keeps_step fun _ ↦ keeps_step fun _ ↦ keeps_step fun _ ↦
      keeps_pure _
    refine keeps_bind (keeps_reading _) fun raw ↦ keeps_bind ?_ fun _ ↦ keeps_lift _
    cases raw with
    | none => exact keeps_fail _
    | some text => exact keeps_pure _
  · refine keeps_bind ?_ fun staged ↦ keeps_bind ?_ fun reply ↦ ?_
    · exact keeps_step fun request ↦ keeps_bind (stageBatch_keeps readItem_keeps
        (fun _ ↦ keeps_reading _) _ _ _ _) fun _ ↦ keeps_pure _
    · intro s hs
      rw [call_run]
      rcases Storage.scripted_document (fun d ↦
        let r := applyBrokerBatch readNumber (visit.order (batchOf staged.1 staged.2)) (some d)
        (r.1, r.2.getD d)) s with hsame | hran
      · exact hsame ▸ hs
      · exact hran ▸ hscript (visit.order (batchOf staged.1 staged.2)) s.document hs
    · unfold answerBatch
      split
      · exact keeps_fail _
      · exact keeps_lift _
      · exact keeps_step fun _ ↦ keeps_pure _
      · exact keeps_step fun _ ↦ keeps_step fun _ ↦ keeps_pure _

/-! ## Runs -/

theorem Commits.itemsOnce {d d' : Json} {past : List Answered}
    (h : Commits base readNumber d past d') (honce : ItemsOnce d) : ItemsOnce d' := by
  induction h with
  | nil => exact honce
  | snoc _ a htype visit faults answer s hrun ih =>
    have hkept := @canvasQuery_keeps base readNumber visit ItemsOnce a batchScript_keeps
      ⟨_, faults⟩ ih
    rwa [hrun] at hkept

/-- What everyone is told in a run. -/
def commits (past : List Answered) : List Json := past.flatMap fun e ↦ commitsOf e.answer

/-- What a run leaves of a board, and of a client that agreed with it. -/
structure Followed (b : Board) (told : List Json) (b' : Board) : Prop where
  revisions : ∃ n : ℕ, told.map commitRevision = Receipts.following b.revision n ∧
    b'.revision = b.revision + n
  limit : b.revision < 9007199254740991 → b'.revision < 9007199254740991
  agrees : ∀ r, Agrees r b → Agrees (told.foldl Replica.apply r) b'

theorem Followed.refl (b : Board) : Followed b [] b :=
  ⟨⟨0, rfl, by simp⟩, id, fun _ ↦ id⟩

theorem Followed.trans {b b' b'' : Board} {told told' : List Json} (h : Followed b told b')
    (h' : Followed b' told' b'') : Followed b (told ++ told') b'' := by
  obtain ⟨n, hrevisions, hrevision⟩ := h.revisions
  obtain ⟨n', hrevisions', hrevision'⟩ := h'.revisions
  refine ⟨⟨n + n', ?_, ?_⟩, fun hlimit ↦ h'.limit (h.limit hlimit), fun r hr ↦ ?_⟩
  · rw [List.map_append, hrevisions, hrevisions', hrevision, Receipts.following_append]
  · omega
  · rw [List.foldl_append]
    exact h'.agrees _ (h.agrees r hr)

/-- An accepted batch is followed by those who are told of it. -/
theorem Accepted.followed {a : Admitted} {operations : List Json} {d d' : Json} {b b' : Board}
    {answer : Json} (h : Accepted dumpSize a operations d b answer d' b') (hshows : Shows d b) :
    Followed b (commitsOf answer) b' := by
  cases h with
  | duplicate created response revision flag reply_eq =>
    rw [reply_eq, commitsOf_watermark]
    exact .refl b
  | applied request mutation response broadcast flag staged limit frame told reply_eq =>
    obtain ⟨client, htold⟩ := told
    obtain ⟨event, hevent, htells⟩ := commitBroadcast_tells htold a.route response
    rw [reply_eq, hevent]
    refine ⟨⟨1, ?_, rfl⟩, fun _ ↦ ?_, fun r hr ↦ hr.commit hshows staged htells⟩
    · rw [List.map_singleton, htells.revision_eq]
      simp [Receipts.following]
    · rw [Broker.revisionLimit] at limit
      have hnext : b.revision + 1 < 9007199254740991 := by exact_mod_cast limit
      exact hnext

theorem Commits.followed {d d' : Json} {b : Board} {past : List Answered}
    (h : Commits base readNumber d past d') (hshows : Shows d b) (hsane : b.Sane) :
    ∃ b', Shows d' b' ∧ b'.Sane ∧ Followed b (commits past) b' := by
  refine h.rule (P := fun past _ b' ↦ Followed b (commits past) b') hshows hsane (.refl b) ?_
  intro past d₁ b₁ a answer d₂ b₂ hshows₁ hbefore haccepted _
  have hcommits : commits (past ++ [⟨a, answer⟩]) = commits past ++ commitsOf answer := by
    simp [commits]
  rw [hcommits]
  exact hbefore.trans (haccepted.followed hshows₁)

/-- **Snapshots and commits converge.** -/
theorem snapshot_and_commits_converge {start d d' : Json} {b₀ : Board} (hshows : Shows start b₀)
    (hsane : b₀.Sane) (hlow : 0 ≤ b₀.revision) (hhigh : b₀.revision < 9007199254740991)
    (honce : ItemsOnce start) {past more : List Answered}
    (h : Commits base readNumber start past d) (h' : Commits base readNumber d more d')
    {snapshot later : Json} (hsnapshot : Snapshot base readNumber d snapshot)
    (hlater : Snapshot base readNumber d' later) :
    ∃ r s : ℤ, r ≤ s ∧ snapshotRevision snapshot = some (.int r) ∧
      snapshotRevision later = some (.int s) ∧
      let told := (commits (past ++ more)).filter fun commit ↦
        r < commitRevision commit ∧ commitRevision commit ≤ s
      told.map commitRevision = Receipts.following r (s - r).toNat ∧
        (told.foldl Replica.apply (snapshotItems snapshot)).plain
          = (snapshotItems later).plain := by
  obtain ⟨b, hshows₁, hsane₁, hfollowed₁⟩ := h.followed hshows hsane
  obtain ⟨b', hshows₂, -, hfollowed₂⟩ := h'.followed hshows₁ hsane₁
  obtain ⟨n, hrevisions, hrevision⟩ := hfollowed₁.revisions
  obtain ⟨n', hrevisions', hrevision'⟩ := hfollowed₂.revisions
  have hlimit := hfollowed₁.limit hhigh
  have hlimit' := hfollowed₂.limit hlimit
  obtain ⟨hat, hagrees⟩ := hsnapshot.agrees hshows₁ (h.itemsOnce honce) (by omega) (by omega)
  obtain ⟨hat', hagrees'⟩ :=
    hlater.agrees hshows₂ (h'.itemsOnce (h.itemsOnce honce)) (by omega) (by omega)
  have hbetween : ((commits (past ++ more)).filter fun commit ↦
      b.revision < commitRevision commit ∧ commitRevision commit ≤ b'.revision) = commits more := by
    have hmem : ∀ {past : List Answered} {c : Json} {m : ℤ} {k : ℕ},
        (commits past).map commitRevision = Receipts.following m k → c ∈ commits past →
        m < commitRevision c ∧ commitRevision c ≤ m + k := by
      intro past c m k heq hc
      rw [← Receipts.mem_following, ← heq]
      exact List.mem_map_of_mem hc
    rw [commits, List.flatMap_append, List.filter_append]
    have hpast : (commits past).filter (fun commit ↦
        b.revision < commitRevision commit ∧ commitRevision commit ≤ b'.revision) = [] := by
      rw [List.filter_eq_nil_iff]
      intro c hc
      have hrange := hmem hrevisions hc
      simp only [decide_eq_true_eq]
      omega
    have hmore : (commits more).filter (fun commit ↦
        b.revision < commitRevision commit ∧ commitRevision commit ≤ b'.revision)
          = commits more := by
      rw [List.filter_eq_self]
      intro c hc
      have hrange := hmem hrevisions' hc
      simp only [decide_eq_true_eq]
      omega
    rw [← commits, hpast, ← commits, hmore, List.nil_append]
  refine ⟨b.revision, b'.revision, by omega, hat, hat', ?_, ?_⟩
  · rw [hbetween, hrevisions', hrevision']
    congr
    omega
  · rw [hbetween]
    funext id
    rw [(hfollowed₂.agrees _ hagrees).plain, hagrees'.plain]

end Storage

def placedItem : Json := .obj [("kind", .str "shape"), ("permission", .str "staff"), ("x", .int 1)]

/-- A canvas with a shape. -/
def placedDocument : Json := .obj [("items", .obj [("shape-1", placedItem)])]

/-- A user moves the shape. -/
def mover : Admitted :=
  { sender with event := .obj [("client_id", .str "tab"), ("request_count", .int 1),
      ("operations", .arr [.obj [("action", .str "translate"), ("ids", .arr [.str "shape-1"]),
        ("dx", .int 2), ("dy", .int 3)]])] }

/-- An administrator takes a snapshot. -/
def observer : Admitted :=
  { sender with admin := true, type := "canvas_sync", event := .obj [("client_id", .str "eye")] }

theorem placedDocument_shows : Shows placedDocument
    ⟨0, fun _ ↦ none, fun id ↦ if id = "shape-1" then some placedItem else none⟩ := by
  refine ⟨⟨_, rfl⟩, fun id ↦ ?_, Or.inl ⟨rfl, rfl, fun _ ↦ rfl⟩⟩
  by_cases hid : id = "shape-1"
  · rw [hid]
    rfl
  · change (Json.obj [("shape-1", placedItem)]).find [.key id]
      = if id = "shape-1" then some placedItem else none
    simp [Json.find, Json.child, hid]

theorem placedDocument_itemsOnce : ItemsOnce placedDocument := by
  intro fields hfields
  obtain rfl : [("shape-1", placedItem)] = fields := Json.obj.inj (Option.some.inj hfields)
  decide

theorem shape_converges :
    ∃ r s : ℤ, r ≤ s ∧ snapshotRevision (answerTo observer placedDocument) = some (.int r) ∧
      snapshotRevision (answerTo observer (documentAfter mover placedDocument)) = some (.int s) ∧
      let told := (commits ([] ++ [⟨mover, answerTo mover placedDocument⟩])).filter fun commit ↦
        r < commitRevision commit ∧ commitRevision commit ≤ s
      told.map commitRevision = Receipts.following r (s - r).toNat ∧
        (told.foldl Replica.apply (snapshotItems (answerTo observer placedDocument))).plain
          = (snapshotItems (answerTo observer (documentAfter mover placedDocument))).plain :=
  @snapshot_and_commits_converge silentBackend (fun _ ↦ none) _ _ _ _ placedDocument_shows nofun
    le_rfl (by decide) placedDocument_itemsOnce _ _ .nil
    (.snoc .nil mover rfl asVisited [] (answerTo mover placedDocument)
      (canvasQuery plainBackend mover ⟨placedDocument, []⟩).2 (by with_unfolding_all rfl))
    _ _ (.sync observer rfl rfl asVisited [] _
      (canvasQuery plainBackend observer ⟨placedDocument, []⟩).2 (by with_unfolding_all rfl))
    (.sync observer rfl rfl asVisited [] _
      (canvasQuery plainBackend observer ⟨documentAfter mover placedDocument, []⟩).2
      (by with_unfolding_all rfl))

end Agora
