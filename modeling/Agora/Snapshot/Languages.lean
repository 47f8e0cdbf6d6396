import Agora.Java.CanvasDocument
import Agora.Snapshot.RoundTrip

/-!
# Snapshots across the two languages

The servers and the services write the items of a canvas in the same chunks, with a base64 coder
and a JSON library of their own. Each reads the items that the other has written.
-/

namespace Agora

open Java Snapshot

/-- A document whose two parts are text that the two languages write. -/
theorem restoreDocument_eq {library : JsonLibrary} {source restored : Fields}
    (h : restoreFields library source = some restored) :
    restoreDocument library (.obj source) = some (.obj restored) := by
  rw [restoreDocument, h, Option.map_some]

namespace Java

variable {library : JsonLibrary} {coercions : Coercions}

theorem units_encode (raw : List UInt8) :
    units (String.ofList (Base64.encode raw)) = 4 * ((raw.length + 2) / 3) := by
  have h : ∀ l : List Char, (∀ c ∈ l, c.utf8Size = 1) → (l.map utf16Size).sum = l.length := by
    intro l hl
    induction l with
    | nil => rfl
    | cons c l ih =>
      obtain ⟨hc, hl⟩ := List.forall_mem_cons.mp hl
      have hunit : utf16Size c = 1 := by
        rw [utf16Size, if_pos]
        have hle := Char.utf8Size_eq_one_iff.mp hc
        rw [UInt32.le_iff_toNat_le] at hle
        change c.toNat ≤ 127 at hle
        omega
      rw [List.map_cons, List.sum_cons, ih hl, hunit, List.length_cons, Nat.add_comm]
  rw [units, String.toList_ofList, h _ fun c hc ↦ (Base64.props_of_mem_encode hc).2,
    Base64.length_encode]

theorem decodeChunk_encode {raw : List UInt8} (hlen : raw.length ≤ itemsChunkBytes) :
    decodeChunk (.str (.ofList (Base64.encode raw))) = .ok raw := by
  have hbound : itemsChunkBytes = 8190 := rfl
  have hchars : itemsChunkChars = 10920 := rfl
  have hunits : ¬itemsChunkChars < units (String.ofList (Base64.encode raw)) := by
    rw [units_encode]
    omega
  rw [decodeChunk, if_neg hunits, String.toList_ofList, Base64.decode_encode]
  rfl

theorem mapM_decodeChunk {chunks : List (List UInt8)}
    (hchunks : ∀ chunk ∈ chunks, chunk.length ≤ itemsChunkBytes) :
    (chunks.map fun chunk ↦ Json.str (.ofList (Base64.encode chunk))).mapM decodeChunk
      = .ok chunks := by
  induction chunks with
  | nil => rfl
  | cons chunk chunks ih =>
    obtain ⟨hlen, hchunks⟩ := List.forall_mem_cons.mp hchunks
    rw [List.map_cons, List.mapM_cons, decodeChunk_encode hlen, ih hchunks]
    rfl

theorem decodeChunks_encodeChunks {raw : List UInt8} (hne : raw ≠ []) :
    decodeChunks (encodeChunks raw) = .ok raw := by
  have hmap := mapM_decodeChunk fun chunk (h : chunk ∈ pieces itemsChunkBytes raw) ↦
    length_le_of_mem_pieces h
  have hflat := flatten_pieces itemsChunkBytes_pos raw
  rw [encodeChunks]
  obtain ⟨chunk, chunks, hpieces⟩ :=
    List.exists_cons_of_ne_nil (pieces_ne_nil itemsChunkBytes_pos hne)
  rw [hpieces] at hmap hflat ⊢
  rw [List.map_cons] at hmap ⊢
  rw [decodeChunks, hmap, ← hflat]
  · rfl
  · simp

/-- The items that the writer has stored. -/
theorem decodeItems_encodeItems {writer : JsonLibrary} {part : Json} (hpart : part.isObject)
    (hreads : ReadsBack writer library part) :
    ∃ items, decodeItems library (encodeItems writer part) = .ok items ∧
      items.isObject ∧ part.Same items := by
  have hne := dump_ne_nil hreads
  obtain ⟨items, hparse, hsame⟩ := hreads
  have hitems : items.isObject := by
    rw [isObject_iff, ← hsame.shape_eq, ← isObject_iff]
    exact hpart
  refine ⟨items, ?_, hitems, hsame⟩
  refine Result.bind_ok.mpr ⟨writer.dump part, decodeChunks_encodeChunks hne, ?_⟩
  rw [hparse]
  exact if_pos hitems

/-- A property with one name has the value of that field. -/
theorem lastValue_eq_lookup {property : Property} {name : String} {fields : Fields}
    (hnodup : (fields.map Prod.fst).Nodup)
    (hname : ∀ k, properties.lookup k = some property ↔ k = name) :
    lastValue property fields = fields.lookup name := by
  rw [lastValue]
  rcases hfind : fields.reverse.find? fun field ↦
      decide (properties.lookup field.1 = some property) with _ | field
  · have hnone : ¬(fields.lookup name).isSome := by
      rw [Assoc.lookup_isSome_iff]
      intro hmem
      obtain ⟨field, hfield, rfl⟩ := List.mem_map.mp hmem
      have hnot := List.find?_eq_none.mp hfind field (List.mem_reverse.mpr hfield)
      exact hnot (decide_eq_true ((hname _).mpr rfl))
    rw [Option.not_isSome_iff_eq_none.mp hnone, hfind]
    rfl
  · have hmem := List.mem_reverse.mp (List.mem_of_find?_eq_some hfind)
    have hset := List.find?_some hfind
    rw [← (hname field.1).mp (of_decide_eq_true hset), Assoc.lookup_of_mem hnodup hmem, hfind]
    rfl

theorem lookup_items {k : String} : properties.lookup k = some .items ↔ k = "items" := by
  constructor
  · intro h
    simpa [properties] using Assoc.mem_of_lookup h
  · rintro rfl
    rfl

/-- The items of a document that is read. -/
theorem items_of_ofTree {fields : Fields} {document : CanvasDocument}
    (hnodup : (fields.map Prod.fst).Nodup) (h : ofTree coercions fields = .ok document)
    (hobj : ∀ v, fields.lookup "items" = some v → v.isObject) :
    .obj document.items = (fields.lookup "items").getD (.obj []) := by
  have hget := get_ofTree h .items
  rw [lastValue_eq_lookup hnodup fun _ ↦ lookup_items] at hget
  rcases hlookup : fields.lookup "items" with _ | v
  · rw [hlookup] at hget
    exact hget
  · rw [hlookup] at hget
    obtain ⟨f, hf, hitems⟩ := hget
    obtain ⟨items, rfl⟩ := Json.shape_eq_obj.mp (isObject_iff.mp (hobj v hlookup))
    simp only [Property.read, readItems, Result.bind_ok, Result.pure_ok] at hf
    obtain ⟨w, rfl, rfl⟩ := hf
    exact hitems

section Stored

variable {writer : JsonLibrary} {doc source : Fields}

/-- The fields that are stored as they are can be read when those of the document can. -/
theorem readField_of_encodedFrom (hfrom : EncodedFrom writer doc source)
    (hclass : ∃ document, ofTree coercions doc = .ok document) {k : String} {v : Json}
    (hv : source.lookup k = some v) : ∃ f, readField coercions (k, v) = .ok f := by
  by_cases hpart : k ∈ parts.map Prod.fst
  · obtain ⟨q, hq, rfl⟩ := List.mem_map.mp hpart
    rw [hfrom.part q hq] at hv
    nomatch hv
  · by_cases hencoded : k ∈ parts.map Prod.snd
    · have hunknown : ∀ k ∈ parts.map Prod.snd, properties.lookup k = none := by decide
      exact ⟨id, by rw [readField, hunknown k hencoded]; rfl⟩
    · rw [hfrom.other k hpart hencoded] at hv
      exact ofTree_ok_iff.mp hclass (k, v) (Assoc.mem_of_lookup hv)

/-- What a stored document is read as, when its own fields can be read: its items are those of the
document that was stored. -/
theorem decodeCanvasDocument_of_encodedFrom (hsource : (source.map Prod.fst).Nodup)
    (hfrom : EncodedFrom writer doc source)
    (hobj : ∀ v, doc.lookup "items" = some v → v.isObject)
    (hreads : ∀ v, doc.lookup "items" = some v → ReadsBack writer library v)
    (hclass : ∃ document, ofTree coercions doc = .ok document) :
    ∃ document, decodeCanvasDocument library coercions (.obj source) = .ok document ∧
      ((doc.lookup "items").getD (.obj [])).Same (.obj document.items) := by
  have hitems : ("items", "items-b64") ∈ parts := by decide
  have hplain : source.lookup "items" = none := hfrom.part _ hitems
  have hencoded : source.lookup "items-b64" = _ := hfrom.encoded _ hitems
  rw [decodeCanvasDocument]
  rcases hlookup : doc.lookup "items" with _ | part
  · obtain ⟨document, hdocument⟩ := ofTree_ok_iff.mpr fun field hfield ↦
      readField_of_encodedFrom hfrom hclass (Assoc.lookup_of_mem hsource hfield)
    refine ⟨document, ?_, ?_⟩
    · rw [hencoded, hlookup]
      exact hdocument
    · rw [items_of_ofTree hsource hdocument (by rw [hplain]; nofun), hplain]
      exact Json.Same.refl _
  · obtain ⟨items, hdecode, hobject, hsame⟩ :=
      decodeItems_encodeItems (hobj part hlookup) (hreads part hlookup)
    have hrestored := Assoc.nodup_set (Assoc.nodup_erase hsource "items-b64") "items" items
    obtain ⟨document, hdocument⟩ : ∃ document, ofTree coercions
        (Assoc.set "items" items (Assoc.erase "items-b64" source)) = .ok document := by
      refine ofTree_ok_iff.mpr fun field hfield ↦ ?_
      have hvalue := Assoc.lookup_of_mem hrestored hfield
      rw [Assoc.lookup_set] at hvalue
      split_ifs at hvalue with hname
      · obtain ⟨fields, rfl⟩ := Json.shape_eq_obj.mp (isObject_iff.mp hobject)
        refine ⟨fun doc ↦ { doc with items := fields }, ?_⟩
        rw [readField, ← hname, ← Option.some.inj hvalue]
        rfl
      · rw [Assoc.lookup_erase] at hvalue
        split_ifs at hvalue
        exact readField_of_encodedFrom hfrom hclass hvalue
    refine ⟨document, ?_, ?_⟩
    · rw [hencoded, hlookup]
      exact Result.bind_ok.mpr ⟨items, hdecode, hdocument⟩
    · rw [items_of_ofTree hrestored hdocument, Assoc.lookup_set_self]
      · exact hsame
      · rintro v hv
        rw [Assoc.lookup_set_self] at hv
        rwa [← Option.some.inj hv]

end Stored

end Java

/-! ## The round trip -/

section RoundTrip

variable {σ : Type} (storage : JsonDocumentStore σ) (hashCanvasPassword : String → Option String)
  (nlohmann jackson : JsonLibrary) (coercions : Coercions)

/-- What the services write is a document with its items stored. -/
theorem encodeCanvasDocument_encodedFrom (library : JsonLibrary) (document : CanvasDocument) :
    EncodedFrom library (toTree document) (encodeCanvasDocument library document) := by
  refine ⟨?_, ?_, ?_⟩
  · simp only [parts, List.forall_mem_cons, List.not_mem_nil, false_implies, implies_true, and_true,
      encodeCanvasDocument, Assoc.lookup_set, Assoc.lookup_erase]
    exact ⟨rfl, rfl, rfl⟩
  · simp only [parts, List.forall_mem_cons, List.not_mem_nil, false_implies, implies_true, and_true,
      encodeCanvasDocument, Assoc.lookup_set, Assoc.lookup_erase]
    exact ⟨rfl, rfl, rfl⟩
  · intro k hk hk'
    simp only [parts, List.map_cons, List.map_nil, List.mem_cons, List.not_mem_nil, or_false,
      not_or] at hk hk'
    rw [encodeCanvasDocument, Assoc.lookup_set_of_ne (Ne.symm hk'.1),
      Assoc.lookup_erase_of_ne (Ne.symm hk.1)]

theorem nodup_encodeCanvasDocument (library : JsonLibrary) (document : CanvasDocument) :
    ((encodeCanvasDocument library document).map Prod.fst).Nodup := by
  refine Assoc.nodup_set (Assoc.nodup_erase ?_ _) _ _
  rw [toTree, List.map_map]
  exact (by decide : (writtenProperties.map Prod.fst).Nodup)

/-- What the services write, as the servers restore it. -/
theorem restoreFields_encodeCanvasDocument (document : CanvasDocument)
    (hreads : ReadsBack jackson nlohmann (.obj document.items)) {source : Fields}
    (hsource : source.Perm (encodeCanvasDocument jackson document)) :
    ∃ restored, restoreFields nlohmann source = some restored ∧
      (Json.obj (toTree document)).Same (.obj restored) := by
  have hfrom := (encodeCanvasDocument_encodedFrom jackson document).perm
    (nodup_encodeCanvasDocument jackson document) hsource
  have hitems : (toTree document).lookup "items" = some (.obj document.items) := rfl
  have hpart : ∀ q ∈ parts, ∀ part, (toTree document).lookup q.1 = some part →
      part = .obj document.items := by
    simp only [parts, List.forall_mem_cons, List.not_mem_nil, false_implies, implies_true, and_true]
    exact ⟨fun part h ↦ (Option.some.inj (hitems.symm.trans h)).symm,
      fun _ h ↦ (by cases h), fun _ h ↦ (by cases h)⟩
  refine restoreFields_same hfrom (fun q hq part h ↦ ?_) (fun q hq part h ↦ ?_) ?_
  · rw [hpart q hq part h]
    rfl
  · rwa [hpart q hq part h]
  · simp only [parts, List.forall_mem_cons, List.not_mem_nil, false_implies, implies_true, and_true]
    exact ⟨rfl, rfl, rfl⟩

theorem restoreDocument_encodeCanvasDocument (document : CanvasDocument)
    (hreads : ReadsBack jackson nlohmann (.obj document.items)) {source : Fields}
    (hsource : source.Perm (encodeCanvasDocument jackson document)) :
    ∃ restored items, restoreDocument nlohmann (.obj source) = some (.obj restored) ∧
      restored.lookup "items" = some items ∧ (Json.obj document.items).Same items := by
  obtain ⟨restored, hrestored, hsame⟩ :=
    restoreFields_encodeCanvasDocument nlohmann jackson document hreads hsource
  have hrel := same_obj_iff.mp hsame "items"
  have hitems : (toTree document).lookup "items" = some (.obj document.items) := rfl
  rw [hitems] at hrel
  obtain ⟨items, hlookup, hitems⟩ := Json.rel_some_left hrel
  exact ⟨restored, items, restoreDocument_eq hrestored, hlookup, hitems⟩

/-- **Round trip.** What the servers save they restore as the document it was, and the items of a
document are read as they are by the other language, whatever their size: those of a document the
servers saved by the services, when the class can hold the other fields of the document, and those
of a document the services wrote by the servers. A store may reorder the fields it returns. -/
theorem snapshot_round_trip {index : String} (hindex : index ≠ "") (canvasId : ℤ) {doc : Fields}
    (hdoc : Snapshot.Storable doc)
    (hreads : ∀ q ∈ parts, ∀ part, doc.lookup q.1 = some part →
      ReadsBack nlohmann nlohmann part ∧ ReadsBack nlohmann jackson part)
    (hclass : ∃ document, ofTree coercions doc = .ok document) (written : CanvasDocument)
    (hwritten : ReadsBack jackson nlohmann (.obj written.items)) :
    (∃ stored,
      saveCanvasDocument hashCanvasPassword nlohmann storage index canvasId (.obj doc)
          = storage.putDocument index (toString canvasId) (.obj stored) ∧
        (∀ s t, storage.getDocument index (toString canvasId) s = (some (.obj stored), t) →
          ∃ restored, getCanvasDocument nlohmann storage index canvasId s = (some restored, t) ∧
            (Json.obj doc).Same restored) ∧
        ∀ source, source.Perm stored → ∃ document,
          decodeCanvasDocument jackson coercions (.obj source) = .ok document ∧
            ((doc.lookup "items").getD (.obj [])).Same (.obj document.items)) ∧
      ∀ source, source.Perm (encodeCanvasDocument jackson written) → ∃ restored items,
        restoreDocument nlohmann (.obj source) = some (.obj restored) ∧
          restored.lookup "items" = some items ∧ (Json.obj written.items).Same items := by
  constructor
  · obtain ⟨stored, hstored, hfrom, hnodup⟩ :=
      safeDocument_eq hashCanvasPassword nlohmann hdoc
    refine ⟨stored, ?_, ?_, ?_⟩
    · rw [saveCanvasDocument, if_neg hindex, hstored]
    · intro s t hget
      obtain ⟨restored, hrestored, hsame⟩ := restoreFields_same hfrom hdoc.parts_object
        (fun q hq part h ↦ (hreads q hq part h).1) hdoc.encoded_free
      refine ⟨.obj restored, ?_, hsame⟩
      rw [getCanvasDocument, if_neg hindex, StateT.bind_of_run hget]
      exact congrArg (·, t) (restoreDocument_eq hrestored)
    · intro source hsource
      have hitems : ("items", "items-b64") ∈ parts := by decide
      exact decodeCanvasDocument_of_encodedFrom
        ((hsource.map Prod.fst).nodup_iff.mpr hnodup) (hfrom.perm hnodup hsource)
        (hdoc.parts_object _ hitems) (fun part h ↦ (hreads _ hitems part h).2) hclass
  · exact fun source hsource ↦
      restoreDocument_encodeCanvasDocument nlohmann jackson written hwritten hsource

end RoundTrip

/-! ### An example -/

/-- The text of a note that does not fit in one chunk. -/
def longText : List Char := List.replicate 9000 'a'

def noteItems : Fields := [("note", .obj [("text", .str (String.ofList longText))])]

def note : Json := .obj noteItems

def noteBytes : List UInt8 :=
  "\x7b\"note\":\x7b\"text\":\"".toUTF8.toList ++ longText.map Char.toUInt8
    ++ "\"\x7d\x7d".toUTF8.toList

theorem noteBytes_ne_nil : noteBytes ≠ [] := by
  rw [noteBytes]
  refine List.append_ne_nil_of_left_ne_nil (List.append_ne_nil_of_left_ne_nil ?_ _) _
  decide +kernel

theorem parse_nil_note : (if [] = noteBytes then some note else emptyLibrary.parse []) = none := by
  rw [if_neg noteBytes_ne_nil.symm]
  exact emptyLibrary.parse_nil

/-- A library that knows the note too. -/
def noteLibrary : JsonLibrary where
  dump v := if v = note then noteBytes else emptyLibrary.dump v
  parse raw := if raw = noteBytes then some note else emptyLibrary.parse raw
  parse_nil := parse_nil_note

theorem parse_dump_note : noteLibrary.parse (noteLibrary.dump note) = some note := by
  rw [noteLibrary]
  dsimp only
  rw [if_pos rfl, if_pos rfl]

theorem readsBack_note : ReadsBack noteLibrary noteLibrary note :=
  ⟨note, parse_dump_note, Json.Same.refl note⟩

theorem readsBack_empty : ReadsBack noteLibrary noteLibrary (.obj []) := by
  have hother : Json.obj [] ≠ note := by
    intro h
    cases h
  have hbytes : "\x7b\x7d".toUTF8.toList ≠ noteBytes := by decide +kernel
  refine ⟨.obj [], ?_, Json.Same.refl _⟩
  dsimp only [noteLibrary, emptyLibrary]
  rw [if_neg hother, if_pos rfl, if_neg hbytes, if_pos rfl]

/-- A store with one document, which it gives back with its fields the other way round. -/
def reversingStore : JsonDocumentStore (Option Fields) where
  getDocument _ _ s := (s.map fun doc ↦ .obj doc.reverse, s)
  searchDocuments _ _ := pure none
  putDocument _ _ doc s :=
    match doc with
    | .obj doc => (true, some doc.reverse)
    | _ => (false, s)
  patchDocument _ _ _ := pure false

def strict : Coercions where
  text _ := .error .unexpected
  number _ := .error .unexpected

def noted : Fields :=
  [("canvas-id", .int 7), ("items", note), ("mention-states", .obj []), ("people", .arr [.int 1])]

theorem storable_noted : Snapshot.Storable noted where
  nodup := by decide
  parts_object := by
    simp only [parts, List.forall_mem_cons, List.not_mem_nil, false_implies, implies_true, and_true]
    exact ⟨fun part h ↦ by rw [← Option.some.inj h]; rfl, fun _ h ↦ (by cases h),
      fun part h ↦ by rw [← Option.some.inj h]; rfl⟩
  encoded_free := by decide
  legacy_free := by decide
  password _ h := by cases h

theorem readsBack_noted : ∀ q ∈ parts, ∀ part, noted.lookup q.1 = some part →
    ReadsBack noteLibrary noteLibrary part ∧ ReadsBack noteLibrary noteLibrary part := by
  simp only [parts, List.forall_mem_cons, List.not_mem_nil, false_implies, implies_true, and_true]
  refine ⟨fun part h ↦ ?_, fun _ h ↦ (by cases h), fun part h ↦ ?_⟩
  · rw [← Option.some.inj h]
    exact ⟨readsBack_note, readsBack_note⟩
  · rw [← Option.some.inj h]
    exact ⟨readsBack_empty, readsBack_empty⟩

/-- A document whose items take two chunks is read again by the servers and by the services, and the
items of the services are read by the servers. -/
theorem noted_round_trip :
    (∃ stored,
      (saveCanvasDocument (fun _ ↦ none) noteLibrary reversingStore "canvas" 7 (.obj noted)
          none).2 = some stored ∧
        (∃ restored,
          (getCanvasDocument noteLibrary reversingStore "canvas" 7 (some stored)).1
            = some restored ∧ (Json.obj noted).Same restored) ∧
        ∃ document, decodeCanvasDocument noteLibrary strict (.obj stored) = .ok document ∧
          note.Same (.obj document.items)) ∧
      ∃ restored items,
        restoreDocument noteLibrary (.obj (encodeCanvasDocument noteLibrary { items := noteItems }))
          = some (.obj restored) ∧
        restored.lookup "items" = some items ∧ note.Same items := by
  obtain ⟨⟨stored, hsaved, hrestored, hread⟩, hwritten⟩ :=
    snapshot_round_trip reversingStore (fun _ ↦ none) noteLibrary noteLibrary strict
      (by decide : "canvas" ≠ "") 7 storable_noted readsBack_noted ⟨_, rfl⟩
      { items := noteItems } readsBack_note
  refine ⟨⟨stored.reverse, ?_, ?_, ?_⟩, hwritten _ (.refl _)⟩
  · rw [hsaved]
    rfl
  · obtain ⟨restored, hget, hsame⟩ := hrestored (some stored.reverse) (some stored.reverse)
      (by rw [reversingStore]; dsimp only; rw [Option.map_some, List.reverse_reverse])
    exact ⟨restored, by rw [hget], hsame⟩
  · exact hread _ (List.reverse_perm stored)

end Agora
