import Agora.Query.Access
import Mathlib.Data.List.Induction

/-!
# Access rules

Who may see a canvas, in which groups a user is, which items a group admits, and what an item must
look like to be stored. A user who is in no group an item asks for does not see the item; an
administrator sees every item.
-/

namespace Agora

/-! ## The canvas document -/

/-- A field of a document. -/
def field? (doc : Json) (k : String) : Option Json := doc.child (.key k)

theorem field?_obj (fields : List (String × Json)) (k : String) :
    field? (.obj fields) k = fields.lookup k := rfl

theorem field?_of_index {j v : Json} {k : String} (h : j.index k = .ok v) :
    field? j k = some v := by
  unfold Json.index at h
  split at h
  · next fields =>
    split at h
    · next hlookup => rw [field?_obj, hlookup, Except.ok.inj h]
    · nomatch h
  · simp at h

/-- What `value` answers: the conversion of the field, or the default. -/
theorem field?_of_value {α : Type} {get : Json → Checked α} {j : Json} {k : String} {d a : α}
    (h : j.value get k d = .ok a) :
    (∃ v, field? j k = some v ∧ get v = .ok a) ∨ field? j k = none ∧ d = a := by
  unfold Json.value at h
  split at h
  · next fields =>
    split at h
    · next v hlookup => exact Or.inl ⟨v, hlookup, h⟩
    · next hlookup => exact Or.inr ⟨hlookup, Except.ok.inj h⟩
  · simp at h

theorem getString_ok {j : Json} {s : String} (h : j.getString = .ok s) : j = .str s := by
  cases j <;> simp only [Json.getString, typeError, reduceCtorEq, Except.ok.injEq] at h
  rw [h]

/-- A text that `value` answers and that is not the default is the field. -/
theorem field?_of_valueString {j : Json} {k s d : String} (h : j.valueString k d = .ok s)
    (hne : d ≠ s) : field? j k = some (.str s) := by
  rcases field?_of_value h with ⟨v, hv, hs⟩ | ⟨-, hd⟩
  · rw [hv, getString_ok hs]
  · exact absurd hd hne

theorem valueString_of_field? {j : Json} {k s : String} (h : field? j k = some (.str s))
    (d : String) : j.valueString k d = .ok s := by
  cases j with
  | obj fields =>
    rw [field?_obj] at h
    simp only [Json.valueString, Json.value, h, Json.getString]
  | _ => nomatch h

theorem field?_assign {j v j' : Json} {k : String} (h : j.assign k v = .ok j') (k' : String) :
    field? j' k' = if k = k' then some v else field? j k' := by
  cases j <;> simp only [Json.assign, Except.ok.injEq, typeError, reduceCtorEq] at h
  · rw [← h, field?_obj, List.lookup_cons]
    by_cases hk : k = k'
    · rw [if_pos hk, hk, beq_self_eq_true]
    · rw [if_neg hk, beq_eq_false_iff_ne.mpr (Ne.symm hk)]
      rfl
  · rw [← h, field?_obj, field?_obj, Assoc.lookup_set]

theorem field?_eraseKey {j j' : Json} {k : String} (h : j.eraseKey k = .ok j') (k' : String) :
    field? j' k' = if k = k' then none else field? j k' := by
  cases j <;> simp only [Json.eraseKey, Except.ok.injEq, typeError, reduceCtorEq] at h
  rw [← h, field?_obj, field?_obj, Assoc.lookup_erase]

theorem lookup_foldl_set (l fields : List (String × Json)) (k : String) :
    (l.foldl (fun fields e ↦ Assoc.set e.1 e.2 fields) fields).lookup k
      = ((l.foldl (fun fields e ↦ Assoc.set e.1 e.2 fields) []).lookup k).or (fields.lookup k) := by
  induction l using List.reverseRecOn with
  | nil => rfl
  | append_singleton l e ih =>
    rw [List.foldl_append, List.foldl_append, List.foldl_cons, List.foldl_cons, List.foldl_nil,
      List.foldl_nil, Assoc.lookup_set, Assoc.lookup_set, ih]
    split <;> rfl

/-- What an object is updated with replaces what was there. -/
theorem field?_update {j patch j' : Json} (h : j.update patch = .ok j') :
    ∃ given, (Json.obj []).update patch = .ok given ∧
      ∀ k, field? j' k = (field? given k).or (field? j k) := by
  unfold Json.update at h
  split at h
  · next fields patch =>
    refine ⟨_, rfl, fun k ↦ ?_⟩
    rw [← Except.ok.inj h]
    exact lookup_foldl_set _ fields k
  · next patch =>
    refine ⟨_, rfl, fun k ↦ ?_⟩
    rw [← Except.ok.inj h]
    exact lookup_foldl_set _ [] k
  · simp at h

def canvasIsPublic (doc : Json) : Bool :=
  decide (field? doc "visibility" = some (.str "public")) &&
    match field? doc "canvas-password-hash" with
    | none | some .null => true
    | some hash => decide (hash = .str "")

def canvasHasMember (doc : Json) (userId : ℤ) : Bool :=
  match field? doc "people" with
  | some (.arr people) => people.any fun member ↦ decide (member = .int userId)
  | _ => false

/-- Whether an entry of a list of members is a user, by a conversion to `int`. -/
def isUser (userId : ℤ) : Json → Bool
  | .int n => Json.wrap 32 n = userId
  | _ => false

/-- The groups of a user, and whether the user is an administrator. -/
def groupsForUser (doc : Json) (userId : ℤ) : List String × Bool :=
  match field? doc "inner-group" with
  | some (.obj groups) =>
    let joined := ((Json.sortedFields groups).filter fun e ↦
      match e.2 with
      | .arr members => members.any (isUser userId)
      | _ => false).map Prod.fst
    let isAdmin := joined.contains "admin-group"
    match field? doc "init-group" with
    | some (.str group) =>
      if canvasIsPublic doc && group ≠ "" && group ≠ "admin-group"
          && (groups.lookup group).isSome && !joined.contains group then
        (joined ++ [group], isAdmin)
      else (joined, isAdmin)
    | _ => (joined, isAdmin)
  | _ => ([], false)

/-! ## Items -/

/-- The groups an item asks for. -/
def queryPermissionGroups (item : Json) : List String :=
  match field? item "permission" with
  | some (.str group) => [group]
  | some (.arr groups) => groups.filterMap fun
    | .str group => some group
    | _ => none
  | some (.obj groups) => groups.map Prod.fst
  | _ => []

def queryCanAccess (item : Json) (groups : List String) (admin : Bool) : Bool :=
  admin || (queryPermissionGroups item).any groups.contains

/-- Whether two permissions ask for the same groups. -/
def sameGroups (a b : List String) : Bool := a.all b.contains && b.all a.contains

def validQueryItemId (id : String) : Bool :=
  id ≠ "" && decide (id.utf8ByteSize ≤ 128) && id ≠ "__proto__" && id ≠ "prototype"
    && id ≠ "constructor"

def queryCommentPermission (target : Json) (groups : List String) (admin : Bool) :
    Checked Json := do
  throwIf (!target.isObject) "ITEM_ACCESS_DENIED"
  throwIf ((← target.valueString "type" "") = "chat_room") "ITEM_ACCESS_DENIED"
  throwIf ((← target.valueString "kind" "") = "host-tombstone") "ITEM_ACCESS_DENIED"
  throwIf (!queryCanAccess target groups admin) "ITEM_ACCESS_DENIED"
  target.valueJson "permission" (.arr [])

def queryChatRoomBroadcast (roomId : String) (permission : Json) (nextSequence : ℤ) : Json :=
  .obj [("event", .obj [("type", .str "item_update"), ("item_id", .str roomId),
      ("item", .obj [("type", .str "chat_room"), ("permission", permission),
        ("next_sequence", .int nextSequence)])]),
    ("permission", permission)]

/-- The kinds whose text is kept as a history of changes. -/
def keepsHistory (kind : String) : Bool := kind = "text" || kind = "note" || kind = "code"

/-- Whether a change of an item of some kind is one that can be merged. -/
def validChange (kind : String) (change : Json) : Checked Bool := do
  if !change.isObject || !change.contains "change" then return false
  match ← change.index "change" with
  | .str s =>
    if s.utf8ByteSize > 1048576 then return false
    return (← change.valueString "field" "") = if kind = "code" then "code" else "text"
  | _ => return false

/-- `throw` unless every element passes. -/
def eachOrReject (passes : Json → Checked Bool) (code : String) : List Json → Checked Unit
  | [] => pure ()
  | v :: l => do
    if ← passes v then eachOrReject passes code l else reject code

/-- Throw unless the history of an item can be merged later. -/
def checkHistory (kind : String) (input : Json) : Checked Unit :=
  if keepsHistory kind then do
    throwIf (!input.contains "automerge_snapshot") "ITEM_SAVE_INVALID"
    throwIf (!(← input.index "automerge_snapshot").isString) "ITEM_SAVE_INVALID"
    throwIf (!input.contains "automerge_changes") "ITEM_SAVE_INVALID"
    let changes ← input.index "automerge_changes"
    throwIf (!changes.isArray || changes.size > 100000) "ITEM_SAVE_INVALID"
    eachOrReject (validChange kind) "ITEM_SAVE_INVALID" changes.elements
  else pure ()

/-- Whether an item that is there has some text in a field. -/
def hasText (item : Json) (k s : String) : Checked Bool :=
  if item.isNull then pure false else return decide ((← item.valueString k "") = s)

theorem hasText_ok {item : Json} {k s : String} {b : Bool} (hs : s ≠ "")
    (h : hasText item k s = .ok b) : b = decide (field? item k = some (.str s)) := by
  unfold hasText at h
  split at h
  · next hnull =>
    rw [← Checked.pure_ok.mp h]
    cases item with
    | null => rfl
    | _ => exact absurd hnull Bool.false_ne_true
  · obtain ⟨text, htext, h⟩ := Checked.bind_ok.mp h
    rw [← Checked.pure_ok.mp h, decide_eq_decide]
    constructor
    · rintro rfl
      exact field?_of_valueString htext hs.symm
    · intro hfield
      exact Except.ok.inj (htext.symm.trans (valueString_of_field? hfield ""))

def queryUpdatedItem (previous input : Json) (groups : List String) (admin : Bool) :
    Checked Json := do
  throwIf (!input.isObject || input.size = 0) "ITEM_INVALID"
  throwIf (!previous.isNull && !queryCanAccess previous groups admin) "ITEM_ACCESS_DENIED"
  throwIf (!queryCanAccess input groups admin) "ITEM_ACCESS_DENIED"
  throwIf (!admin && !previous.isNull
      && !sameGroups (queryPermissionGroups previous) (queryPermissionGroups input))
    "ITEM_PERMISSION_DENIED"
  throwIf (!admin && previous.isNull && !(queryPermissionGroups input).all groups.contains)
    "ITEM_PERMISSION_DENIED"
  throwIf (← hasText input "type" "chat_room") "CHAT_QUERY_REQUIRED"
  throwIf (← hasText previous "type" "chat_room") "CHAT_QUERY_REQUIRED"
  let kind ← input.valueString "kind" ""
  throwIf (kind = "") "ITEM_KIND_REQUIRED"
  checkHistory kind input
  return input

/-! ## Chat rooms -/

def isChatRoomItem (item : Json) : Bool := decide (field? item "type" = some (.str "chat_room"))

/-- A positive integer, or 0. -/
def positiveSequence : Json → ℤ
  | .int n => if 0 < n then n else 0
  | _ => 0

/-- The largest unsigned number of 64 bits. -/
def maxSequence : ℤ := 2 ^ 64 - 1

/-- The sequence after those of the messages so far. -/
def raiseSequence (next : ℤ) (message : Json) : ℤ :=
  match field? message "sequence" with
  | some v =>
    if positiveSequence v < maxSequence && next < positiveSequence v + 1 then positiveSequence v + 1
    else next
  | none => next

def chatRoomNextSequence (item : Json) : ℤ :=
  let stored := ((field? item "next_sequence").map positiveSequence).getD 1
  let next := if stored = 0 then 1 else stored
  match field? item "data" with
  | some (.arr messages) => messages.foldl raiseSequence next
  | _ => next

end Agora
