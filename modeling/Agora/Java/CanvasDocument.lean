import Agora.Java.Result
import Agora.Snapshot.Codec
import Mathlib.Data.List.Induction

/-!
# The canvas document of the Java services

The services hold a canvas document as an object of a class. The fields of the class have names in
JSON, and older names that are read as well; three more accessors (`admin`, `canvasPassword`,
`peoples`) are properties of their own, so that a written document has a property under both names.
The fields of a JSON object are read in their order, and where two set one property the later one
wins.

Values of another type than a property has are turned into that type where the JSON library does
this; how it does it is left open.
-/

namespace Agora

namespace Java

open Snapshot (Fields encodeItems)

abbrev Longs := List (Option ℤ)

structure CanvasDocument where
  canvasName : Option String := none
  canvasId : Option ℤ := none
  adminUserId : Option ℤ := none
  description : Option String := some ""
  isPublic : Bool := false
  canvasPasswordHash : Option String := none
  people : Longs := []
  innerGroup : List (String × Option Longs) := []
  items : Fields := []
  initGroup : Option String := some "default"
  settingsRevision : ℤ := 0
  deriving DecidableEq

namespace CanvasDocument

def getVisibility (doc : CanvasDocument) : String := if doc.isPublic then "public" else "private"

def setVisibility (value : Option String) (doc : CanvasDocument) : CanvasDocument :=
  { doc with isPublic := value = some "public" }

/-- The document of a new canvas. -/
def create (canvasName : Option String) (canvasId adminUserId : Option ℤ)
    (canvasPasswordHash initGroup : Option String) : CanvasDocument :=
  let initGroup := (given initGroup).getD "default"
  { canvasName, canvasId, adminUserId, canvasPasswordHash, initGroup := some initGroup,
    people := adminUserId.toList.map some
    innerGroup := match adminUserId with
      | none => []
      | some id =>
        if initGroup = "admin-group" then [("admin-group", some [some id])]
        else [("admin-group", some [some id]), (initGroup, some [])] }

end CanvasDocument

/-! ## Properties -/

inductive Property where
  | canvasName
  | canvasId
  | adminUserId
  | description
  | visibility
  | canvasPasswordHash
  | people
  | innerGroup
  | items
  | initGroup
  | settingsRevision
  deriving DecidableEq

/-- The names that are read. -/
def properties : List (String × Property) :=
  [("canvas-name", .canvasName), ("canvasName", .canvasName), ("canvas_name", .canvasName),
   ("canvas-id", .canvasId), ("canvasId", .canvasId), ("canvas_id", .canvasId),
   ("admin-user-id", .adminUserId), ("admin", .adminUserId), ("adminUserId", .adminUserId),
   ("admin_user_id", .adminUserId), ("description", .description), ("visibility", .visibility),
   ("canvas-password-hash", .canvasPasswordHash), ("canvasPassword", .canvasPasswordHash),
   ("canvas_password_hash", .canvasPasswordHash), ("canvas-password", .canvasPasswordHash),
   ("people", .people), ("peoples", .people), ("inner-group", .innerGroup),
   ("innerGroup", .innerGroup), ("inner_group", .innerGroup), ("items", .items),
   ("init-group", .initGroup), ("initGroup", .initGroup), ("init_group", .initGroup),
   ("settings-revision", .settingsRevision)]

/-- The names that are written, in their order: the accessors that no field has come first. -/
def writtenProperties : List (String × Property) :=
  [("admin", .adminUserId), ("canvasPassword", .canvasPasswordHash), ("peoples", .people),
   ("canvas-name", .canvasName), ("canvas-id", .canvasId), ("admin-user-id", .adminUserId),
   ("description", .description), ("visibility", .visibility),
   ("canvas-password-hash", .canvasPasswordHash), ("people", .people),
   ("inner-group", .innerGroup), ("items", .items), ("init-group", .initGroup),
   ("settings-revision", .settingsRevision)]

/-! ## Writing -/

def ofText (s : Option String) : Json := (s.map .str).getD .null

def ofNumber (n : Option ℤ) : Json := (n.map .int).getD .null

def ofLongs (l : Longs) : Json := .arr (l.map ofNumber)

def ofGroups (groups : List (String × Option Longs)) : Json :=
  .obj (groups.map fun group ↦ (group.1, (group.2.map ofLongs).getD .null))

/-- The value of a property as it is written. -/
def Property.get (doc : CanvasDocument) : Property → Json
  | canvasName => ofText doc.canvasName
  | canvasId => ofNumber doc.canvasId
  | adminUserId => ofNumber doc.adminUserId
  | description => ofText doc.description
  | visibility => .str doc.getVisibility
  | canvasPasswordHash => ofText doc.canvasPasswordHash
  | people => ofLongs doc.people
  | innerGroup => ofGroups doc.innerGroup
  | items => .obj doc.items
  | initGroup => ofText doc.initGroup
  | settingsRevision => .int doc.settingsRevision

def toTree (doc : CanvasDocument) : Fields :=
  writtenProperties.map fun property ↦ (property.1, property.2.get doc)

/-! ## Reading -/

/-- What becomes of a value of another type: as a text, and as a number. -/
structure Coercions where
  text : Json → Result String
  number : Json → Result (Option ℤ)

section Reading

variable (coercions : Coercions)

def readText : Json → Result (Option String)
  | .null => pure none
  | .str s => pure (some s)
  | j => some <$> coercions.text j

/-- A number of so many bits. -/
def readNumber (bits : ℕ) : Json → Result (Option ℤ)
  | .null => pure none
  | .int n =>
    if -2 ^ (bits - 1) ≤ n ∧ n < 2 ^ (bits - 1) then pure (some n) else .error .unexpected
  | j => coercions.number j

def readLongs : Json → Result (Option Longs)
  | .null => pure none
  | .arr elements => some <$> elements.mapM (readNumber coercions 64)
  | _ => .error .unexpected

def readGroups : Json → Result (Option (List (String × Option Longs)))
  | .null => pure none
  | .obj fields =>
    some <$> fields.mapM fun field ↦ do return (field.1, ← readLongs coercions field.2)
  | _ => .error .unexpected

def readItems : Json → Result (Option Fields)
  | .null => pure none
  | .obj fields => pure (some fields)
  | _ => .error .unexpected

/-- What setting a property to a value does to a document. -/
def Property.read (v : Json) : Property → Result (CanvasDocument → CanvasDocument)
  | canvasName => do
    let v ← readText coercions v
    return fun doc ↦ { doc with canvasName := v }
  | canvasId => do
    let v ← readNumber coercions 32 v
    return fun doc ↦ { doc with canvasId := v }
  | adminUserId => do
    let v ← readNumber coercions 64 v
    return fun doc ↦ { doc with adminUserId := v }
  | description => do
    let v ← readText coercions v
    return fun doc ↦ { doc with description := v }
  | visibility => do
    let v ← readText coercions v
    return CanvasDocument.setVisibility v
  | canvasPasswordHash => do
    let v ← readText coercions v
    return fun doc ↦ { doc with canvasPasswordHash := v }
  | people => do
    let v ← readLongs coercions v
    return fun doc ↦ { doc with people := v.getD [] }
  | innerGroup => do
    let v ← readGroups coercions v
    return fun doc ↦ { doc with innerGroup := v.getD [] }
  | items => do
    let v ← readItems v
    return fun doc ↦ { doc with items := v.getD [] }
  | initGroup => do
    let v ← readText coercions v
    return fun doc ↦ { doc with initGroup := v }
  | settingsRevision => do
    let v ← readNumber coercions 64 v
    return fun doc ↦ { doc with settingsRevision := v.getD 0 }

/-- What a field of a JSON object does to a document; a field with another name does nothing. -/
def readField (field : String × Json) : Result (CanvasDocument → CanvasDocument) :=
  match properties.lookup field.1 with
  | none => pure id
  | some property => property.read coercions field.2

def ofTree (fields : Fields) : Result CanvasDocument :=
  fields.foldlM (fun doc field ↦ do return (← readField coercions field) doc) {}

end Reading

/-! ## What is read

A property has the value of the last field that sets it. -/

section Read

variable {coercions : Coercions} {fields : Fields} {document : CanvasDocument}

/-- Setting a property leaves the others alone, and what it is set to depends on the value only. -/
theorem Property.get_read {property : Property} {v : Json} {f : CanvasDocument → CanvasDocument}
    (h : property.read coercions v = .ok f) (doc : CanvasDocument) :
    (∀ other ≠ property, other.get (f doc) = other.get doc) ∧
      property.get (f doc) = property.get (f {}) := by
  cases property
  all_goals
    simp only [Property.read, Result.bind_ok, Result.pure_ok] at h
    obtain ⟨w, -, rfl⟩ := h
    refine ⟨fun other hother ↦ ?_, rfl⟩
    cases other <;> first | rfl | exact absurd rfl hother

theorem ofTree_append (fields : Fields) (field : String × Json) :
    ofTree coercions (fields ++ [field]) = do
      let doc ← ofTree coercions fields
      return (← readField coercions field) doc := by
  simp only [ofTree, List.foldlM_append, List.foldlM_cons, List.foldlM_nil, bind_pure]

/-- An object is read when every field is. -/
theorem ofTree_ok_iff : (∃ document, ofTree coercions fields = .ok document) ↔
    ∀ field ∈ fields, ∃ f, readField coercions field = .ok f := by
  induction fields using List.reverseRecOn with
  | nil => exact ⟨nofun, fun _ ↦ ⟨_, rfl⟩⟩
  | append_singleton fields field ih =>
    rw [List.forall_mem_append, ← ih, List.forall_mem_singleton, ofTree_append]
    simp only [Result.bind_ok, Result.pure_ok]
    constructor
    · rintro ⟨-, doc, hdoc, f, hf, -⟩
      exact ⟨⟨doc, hdoc⟩, f, hf⟩
    · rintro ⟨⟨doc, hdoc⟩, f, hf⟩
      exact ⟨f doc, doc, hdoc, f, hf, rfl⟩

/-- The last value of a property. -/
def lastValue (property : Property) (fields : Fields) : Option Json :=
  (fields.reverse.find? fun field ↦ properties.lookup field.1 = some property).map Prod.snd

theorem lastValue_append (property : Property) (fields : Fields) (field : String × Json) :
    lastValue property (fields ++ [field]) =
      if properties.lookup field.1 = some property then some field.2
      else lastValue property fields := by
  rw [lastValue, List.reverse_append, List.reverse_singleton, List.singleton_append,
    List.find?_cons]
  split_ifs with h <;> simp [h, lastValue]

theorem lastValue_cons (property : Property) (field : String × Json) (fields : Fields) :
    lastValue property (field :: fields) =
      (lastValue property fields).or
        (if properties.lookup field.1 = some property then some field.2 else none) := by
  rw [lastValue, List.reverse_cons, List.find?_append, Option.map_or, ← lastValue]
  by_cases hfield : properties.lookup field.1 = some property
  · simp [hfield]
  · simp [hfield]

theorem lastValue_mem {property : Property} {v : Json} (h : lastValue property fields = some v) :
    ∃ field ∈ fields, properties.lookup field.1 = some property ∧ field.2 = v := by
  obtain ⟨field, hfind, hv⟩ := Option.map_eq_some_iff.mp h
  have hproperty := List.find?_some hfind
  exact ⟨field, List.mem_reverse.mp (List.mem_of_find?_eq_some hfind),
    of_decide_eq_true hproperty, hv⟩

theorem lastValue_isSome {property : Property} {field : String × Json} (hfield : field ∈ fields)
    (hproperty : properties.lookup field.1 = some property) :
    (lastValue property fields).isSome := by
  rw [lastValue, Option.isSome_map, List.find?_isSome]
  exact ⟨field, List.mem_reverse.mpr hfield, decide_eq_true hproperty⟩

theorem lastValue_set_of_ne {property : Property} {k : String}
    (hk : properties.lookup k ≠ some property) (v : Json) (fields : Fields) :
    lastValue property (Assoc.set k v fields) = lastValue property fields := by
  induction fields with
  | nil =>
    rw [Assoc.set, lastValue_cons, if_neg hk]
    rfl
  | cons field fields ih =>
    rw [Assoc.set]
    split_ifs with hfield
    · rw [lastValue_cons, lastValue_cons, if_neg hk, if_neg (hfield ▸ hk)]
    · rw [lastValue_cons, lastValue_cons, ih]

theorem lastValue_erase_of_ne {property : Property} {k : String}
    (hk : properties.lookup k ≠ some property) (fields : Fields) :
    lastValue property (Assoc.erase k fields) = lastValue property fields := by
  induction fields with
  | nil => rfl
  | cons field fields ih =>
    by_cases hfield : field.1 = k
    · have herase : Assoc.erase k (field :: fields) = Assoc.erase k fields := by
        simp [Assoc.erase, hfield]
      rw [herase, ih, lastValue_cons, if_neg (hfield ▸ hk), Option.or_none]
    · have herase : Assoc.erase k (field :: fields) = field :: Assoc.erase k fields := by
        simp [Assoc.erase, hfield]
      rw [herase, lastValue_cons, lastValue_cons, ih]

theorem get_ofTree (h : ofTree coercions fields = .ok document) (property : Property) :
    match lastValue property fields with
    | none => property.get document = property.get {}
    | some v => ∃ f, property.read coercions v = .ok f ∧ property.get document = property.get (f {})
    := by
  induction fields using List.reverseRecOn generalizing document with
  | nil =>
    rw [← Except.ok.inj h]
    rfl
  | append_singleton fields field ih =>
    rw [ofTree_append] at h
    simp only [Result.bind_ok, Result.pure_ok] at h
    obtain ⟨doc, hdoc, f, hf, rfl⟩ := h
    have hbefore := ih hdoc
    rw [lastValue_append]
    rw [readField] at hf
    split at hf
    · next hname =>
      rw [← (Result.pure_ok.mp hf : id = f), if_neg (by simp [hname])]
      exact hbefore
    · next set hname =>
      obtain ⟨hothers, hself⟩ := Property.get_read hf doc
      by_cases hset : set = property
      · subst hset
        rw [if_pos hname]
        exact ⟨f, hf, hself⟩
      · rw [if_neg (by simpa [hname] using hset), hothers property (Ne.symm hset)]
        exact hbefore

end Read

/-! ## Documents in the document store -/

variable (library : JsonLibrary) (coercions : Coercions)

def encodeCanvasDocument (document : CanvasDocument) : Fields :=
  Assoc.set "items-b64" (encodeItems library (.obj document.items))
    (Assoc.erase "items" (toTree document))

def decodeChunk : Json → Result (List UInt8)
  | .str chunk =>
    if itemsChunkChars < units chunk then .error .unexpected
    else
      match Base64.decode chunk.toList with
      | some decoded => pure decoded
      | none => .error .unexpected
  | _ => .error .unexpected

def decodeChunks : Json → Result (List UInt8)
  | .arr [] => .error .unexpected
  | .arr chunks => List.flatten <$> chunks.mapM decodeChunk
  | _ => .error .unexpected

def decodeItems (chunks : Json) : Result Json := do
  let raw ← decodeChunks chunks
  match library.parse raw with
  | some items => if items.isObject then pure items else .error .unexpected
  | none => .error .unexpected

def decodeCanvasDocument : Json → Result CanvasDocument
  | .obj source =>
    match source.lookup "items-b64" with
    | none => ofTree coercions source
    | some chunks => do
      let items ← decodeItems library chunks
      ofTree coercions (Assoc.set "items" items (Assoc.erase "items-b64" source))
  | _ => .error .unexpected

end Java

end Agora
