import Agora.Json.Same
import Agora.Query.Access
import Agora.Snapshot.Base64

/-!
# The snapshot of a canvas document

A canvas document goes to the document store with its items, its receipt ledger and its mention
states as text in base64, cut into chunks, so that the store sees none of their keys. Reading it
back puts the parts together again. Passwords are stored as hashes.

A store may order the fields of a document as it likes; what is said of a document here does not
depend on their order.
-/

namespace Agora

/-- What a JSON library writes and reads; a text that it refuses has no value. -/
structure JsonLibrary where
  dump : Json → List UInt8
  parse : List UInt8 → Option Json
  parse_nil : parse [] = none

/-- A library that knows the empty object. -/
def emptyLibrary : JsonLibrary where
  dump v := if v = .obj [] then "{}".toUTF8.toList else []
  parse raw := if raw = "{}".toUTF8.toList then some (.obj []) else none
  parse_nil := by decide +kernel

/-- A value that one library has written is read by another, up to the order of fields. -/
def ReadsBack (writer reader : JsonLibrary) (v : Json) : Prop :=
  ∃ w, reader.parse (writer.dump v) = some w ∧ v.Same w

/-- The bytes of a chunk before they are encoded. -/
def itemsChunkBytes : ℕ := 8190

/-- The length of an encoded chunk, at most. -/
def itemsChunkChars : ℕ := 4 * ((itemsChunkBytes + 2) / 3)

/-! ## Passwords -/

def bcryptShaped : List Char → Bool
  | '$' :: '2' :: version :: '$' :: c :: d :: '$' :: rest =>
    ['a', 'b', 'y'].contains version && c.isDigit && d.isDigit && rest.length = 53
      && rest.all fun c ↦ c.isAlphanum || c = '.' || c = '/'
  | _ => false

def isLowercaseHex (c : Char) : Bool := c.isDigit || ('a' ≤ c && c ≤ 'f')

def pbkdf2Shaped (value : List Char) : Bool :=
  match value.splitOn '$' with
  | [name, iterations, salt, digest] =>
    name = "pbkdf2".toList && !iterations.isEmpty && iterations.all Char.isDigit
      && salt.length = 32 && salt.all isLowercaseHex
      && digest.length = 64 && digest.all isLowercaseHex
  | _ => false

def isCanvasPasswordHash (value : String) : Bool :=
  bcryptShaped value.toList || pbkdf2Shaped value.toList

variable (hashCanvasPassword : String → Option String)

def normalizeCanvasPassword (stored : String) : Option String :=
  if stored = "" then some ""
  else if isCanvasPasswordHash stored then some stored
  else hashCanvasPassword stored

namespace Snapshot

abbrev Fields := List (String × Json)

variable (library : JsonLibrary)

/-! ## Parts -/

/-- The parts that are stored as text, with the names they are stored under. -/
def parts : List (String × String) :=
  [("items", "items-b64"), ("__broker_sync", "broker-sync-b64"),
   ("mention-states", "mention-states-b64")]

def encodeChunks (raw : List UInt8) : Json :=
  .arr ((pieces itemsChunkBytes raw).map fun chunk ↦ .str (.ofList (Base64.encode chunk)))

def encodeItems (items : Json) : Json := encodeChunks (library.dump items)

/-- The bytes of a chunk. The padding is counted in the text and cut off what is decoded. -/
def restoreChunk : Json → Option (List UInt8)
  | .str encoded =>
    if encoded = "" ∨ encoded.utf8ByteSize % 4 ≠ 0 ∨ itemsChunkChars < encoded.utf8ByteSize then
      none
    else do
      let decoded ← Base64.decodeBlock encoded.toList
      let padding := Base64.padding encoded.toList
      if decoded.length < padding then none
      else return decoded.take (decoded.length - padding)
  | _ => none

def restoreChunks : Json → Option (List UInt8)
  | .arr [] => none
  | .arr chunks => (chunks.mapM restoreChunk).map List.flatten
  | _ => none

def restoreItems (field encodedField : String) (source : Fields) : Option Fields :=
  match source.lookup encodedField with
  | none => some source
  | some chunks => do
    let raw ← restoreChunks chunks
    let items ← library.parse raw
    if items.isObject then return Assoc.erase encodedField (Assoc.set field items source) else none

def restoreFields (source : Fields) : Option Fields :=
  parts.foldlM (fun source part ↦ restoreItems library part.1 part.2 source) source

def restoreDocument : Json → Option Json
  | .obj source => (restoreFields library source).map .obj
  | source => some source

/-- A part of a document as it is stored. -/
def encodePart (field encodedField : String) (doc : Fields) : Option Fields :=
  match doc.lookup field with
  | none => some doc
  | some part =>
    if part.isObject then
      some (Assoc.erase field (Assoc.set encodedField (encodeItems library part) doc))
    else none

def encodeParts (doc : Fields) : Option Fields :=
  parts.foldlM (fun doc part ↦ encodePart library part.1 part.2 doc) doc

/-! ## Documents -/

def passwordField : String := "canvas-password-hash"

/-- The names a password was stored under before. -/
def legacyFields : List String := ["canvas-password", "canvasPassword", "canvas_password_hash"]

def setPassword (stored : String) (doc : Fields) : Option Fields :=
  (normalizeCanvasPassword hashCanvasPassword stored).map fun normalized ↦
    Assoc.set passwordField (.str normalized) doc

def normalizePassword (doc : Fields) : Option Fields :=
  match doc.lookup passwordField with
  | some (.str stored) => setPassword hashCanvasPassword stored doc
  | _ => some doc

def dropLegacy (doc : Fields) (legacy : String) : Option Fields :=
  match doc.lookup legacy, doc.lookup passwordField with
  | none, _ => some doc
  | some (.str stored), none =>
    (setPassword hashCanvasPassword stored doc).map (Assoc.erase legacy)
  | _, _ => some (Assoc.erase legacy doc)

/-- A document as it is stored. -/
def safeDocument (doc : Fields) : Option Fields := do
  let doc ← encodeParts library doc
  let doc ← normalizePassword hashCanvasPassword doc
  legacyFields.foldlM (dropLegacy hashCanvasPassword) doc

end Snapshot

/-! ## The snapshot store -/

structure JsonDocumentStore (σ : Type) where
  getDocument : String → String → StateM σ (Option Json)
  searchDocuments : String → Json → StateM σ (Option Json)
  putDocument : String → String → Json → StateM σ Bool
  patchDocument : String → String → Json → StateM σ Bool

/-- A call that answers, and what follows it. -/
theorem StateT.bind_of_run {σ α β : Type} {x : StateM σ α} {s t : σ} {a : α} (h : x s = (a, t))
    (f : α → StateM σ β) : (x >>= f) s = f a t := by
  change (match x s with | (a, s) => f a s) = f a t
  rw [h]

section Store

open Snapshot

variable {σ : Type} (library : JsonLibrary) (storage : JsonDocumentStore σ) (index : String)

/-- The first hit of a search. -/
def firstHit (response : Json) : Option Json :=
  match response.find [.key "hits", .key "hits"] with
  | some (.arr (hit :: _)) => hit.child (.key "_source")
  | _ => none

def getCanvasDocument (canvasId : ℤ) : StateM σ (Option Json) := do
  if index = "" then return none
  else
    match ← storage.getDocument index (toString canvasId) with
    | some document => return restoreDocument library document
    | none =>
      let query := .obj [("query", .obj [("term", .obj [("canvas-id", .int canvasId)])]),
        ("size", .int 1)]
      let response ← storage.searchDocuments index query
      return do restoreDocument library (← firstHit (← response))

def saveCanvasDocument (canvasId : ℤ) (doc : Json) : StateM σ Bool :=
  match doc with
  | .obj doc =>
    if index = "" then return false
    else
      match safeDocument hashCanvasPassword library doc with
      | some doc => storage.putDocument index (toString canvasId) (.obj doc)
      | none => return false
  | doc => if index = "" then return false else storage.putDocument index (toString canvasId) doc

def patchCanvasFields (canvasId : ℤ) (fields : Fields) : StateM σ Bool :=
  if fields.isEmpty || index = "" then return false
  else
    match normalizePassword hashCanvasPassword fields with
    | some fields => storage.patchDocument index (toString canvasId) (.obj fields)
    | none => return false

end Store

end Agora
