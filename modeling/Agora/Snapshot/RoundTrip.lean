import Agora.Snapshot.Codec

/-!
# Reading a snapshot back

Every chunk that is written is read back, at whatever byte the text of a part was cut, so a part is
read back as the library reads its text, and a document as the document that was saved.
-/

namespace Agora

namespace Snapshot

/-! ## Chunks -/

theorem utf8ByteSize_ofList {l : List Char} (hl : ∀ c ∈ l, c.utf8Size = 1) :
    (String.ofList l).utf8ByteSize = l.length := by
  induction l with
  | nil => rfl
  | cons c l ih =>
    obtain ⟨hc, hl⟩ := List.forall_mem_cons.mp hl
    have hcons : String.ofList (c :: l) = String.singleton c ++ String.ofList l := by
      rw [← String.toList_inj]
      simp
    rw [hcons, String.utf8ByteSize_append, String.utf8ByteSize_singleton, ih hl, hc,
      List.length_cons]
    omega

theorem utf8ByteSize_encode (raw : List UInt8) :
    (String.ofList (Base64.encode raw)).utf8ByteSize = 4 * ((raw.length + 2) / 3) := by
  rw [utf8ByteSize_ofList fun c hc ↦ (Base64.props_of_mem_encode hc).2, Base64.length_encode]

theorem restoreChunk_encode {raw : List UInt8} (hne : raw ≠ [])
    (hlen : raw.length ≤ itemsChunkBytes) :
    restoreChunk (.str (.ofList (Base64.encode raw))) = some raw := by
  have hsize := utf8ByteSize_encode raw
  have hpos := List.length_pos_iff.mpr hne
  have hbound : itemsChunkBytes = 8190 := rfl
  have hchars : itemsChunkChars = 10920 := rfl
  have hempty : String.ofList (Base64.encode raw) ≠ "" := by
    intro h
    rw [h] at hsize
    have : "".utf8ByteSize = 0 := rfl
    omega
  have hcheck : ¬(String.ofList (Base64.encode raw) = ""
      ∨ (String.ofList (Base64.encode raw)).utf8ByteSize % 4 ≠ 0
      ∨ itemsChunkChars < (String.ofList (Base64.encode raw)).utf8ByteSize) := by
    rw [hsize, hchars]
    refine not_or.mpr ⟨hempty, ?_⟩
    omega
  rw [restoreChunk, if_neg hcheck, String.toList_ofList, Base64.decodeBlock_encode]
  simp

theorem mapM_restoreChunk {chunks : List (List UInt8)}
    (hchunks : ∀ chunk ∈ chunks, chunk ≠ [] ∧ chunk.length ≤ itemsChunkBytes) :
    (chunks.map fun chunk ↦ Json.str (.ofList (Base64.encode chunk))).mapM restoreChunk
      = some chunks := by
  induction chunks with
  | nil => rfl
  | cons chunk chunks ih =>
    obtain ⟨⟨hne, hlen⟩, hchunks⟩ := List.forall_mem_cons.mp hchunks
    simp [restoreChunk_encode hne hlen, ih hchunks]

theorem itemsChunkBytes_pos : 0 < itemsChunkBytes := by decide

theorem restoreChunks_encodeChunks {raw : List UInt8} (hne : raw ≠ []) :
    restoreChunks (encodeChunks raw) = some raw := by
  have hmap := mapM_restoreChunk fun chunk (h : chunk ∈ pieces itemsChunkBytes raw) ↦
    ⟨ne_nil_of_mem_pieces itemsChunkBytes_pos h, length_le_of_mem_pieces h⟩
  have hflat := flatten_pieces itemsChunkBytes_pos raw
  rw [encodeChunks]
  obtain ⟨chunk, chunks, hpieces⟩ :=
    List.exists_cons_of_ne_nil (pieces_ne_nil itemsChunkBytes_pos hne)
  rw [hpieces] at hmap hflat ⊢
  rw [List.map_cons] at hmap ⊢
  rw [restoreChunks, hmap, Option.map_some, hflat]
  nofun

/-! ## Parts -/

theorem isObject_iff {v : Json} : v.isObject ↔ v.shape = .obj := by
  rcases v with _ | _ | _ | _ | _ | _ | _ <;> simp [Json.isObject, Json.shape]

theorem same_obj_iff {a b : Fields} :
    (Json.obj a).Same (.obj b) ↔ ∀ k, Option.Rel Json.Same (a.lookup k) (b.lookup k) := by
  rw [Json.same_iff]
  constructor
  · rintro ⟨-, h⟩ k
    exact h (.key k)
  · intro h
    refine ⟨rfl, fun s ↦ ?_⟩
    rcases s with k | i
    · exact h k
    · exact Option.Rel.none

theorem dump_ne_nil {writer reader : JsonLibrary} {part : Json}
    (h : ReadsBack writer reader part) : writer.dump part ≠ [] := by
  intro hnil
  obtain ⟨w, hparse, -⟩ := h
  rw [hnil, reader.parse_nil] at hparse
  nomatch hparse

/-- `source` is `doc` with its parts stored as the writer's text. -/
structure EncodedFrom (writer : JsonLibrary) (doc source : Fields) : Prop where
  part : ∀ q ∈ parts, source.lookup q.1 = none
  encoded : ∀ q ∈ parts, source.lookup q.2 = (doc.lookup q.1).map (encodeItems writer)
  other : ∀ k, k ∉ parts.map Prod.fst → k ∉ parts.map Prod.snd → source.lookup k = doc.lookup k

theorem EncodedFrom.perm {library : JsonLibrary} {doc stored source : Fields}
    (h : EncodedFrom library doc stored) (hnodup : (stored.map Prod.fst).Nodup)
    (hsource : source.Perm stored) : EncodedFrom library doc source where
  part q hq := by rw [Assoc.lookup_perm hnodup hsource, h.part q hq]
  encoded q hq := by rw [Assoc.lookup_perm hnodup hsource, h.encoded q hq]
  other k hk hk' := by rw [Assoc.lookup_perm hnodup hsource, h.other k hk hk']

section Parts

variable {writer reader : JsonLibrary} {doc source : Fields}

theorem encodePart_lookup (writer : JsonLibrary) (field encodedField : String)
    (hobj : ∀ part, doc.lookup field = some part → part.isObject)
    (hfree : doc.lookup encodedField = none) :
    ∃ stored, encodePart writer field encodedField doc = some stored ∧ ∀ k, stored.lookup k =
      if k = field then none
      else if k = encodedField then (doc.lookup field).map (encodeItems writer)
      else doc.lookup k := by
  rcases hpart : doc.lookup field with _ | part
  · refine ⟨doc, by rw [encodePart, hpart], fun k ↦ ?_⟩
    split_ifs with hk hk'
    · rw [hk, hpart]
    · rw [hk', hfree]
      rfl
    · rfl
  · refine ⟨_, by rw [encodePart, hpart]; exact if_pos (hobj part hpart), fun k ↦ ?_⟩
    rw [Assoc.lookup_erase, Assoc.lookup_set]
    simp only [@eq_comm _ k]
    rfl

/-- A part is read back as what was stored, or it is not there. -/
theorem restoreItems_lookup (source : Fields) {field encodedField : String}
    (hnames : field ≠ encodedField)
    {part : Option Json} (hobj : ∀ v, part = some v → v.isObject)
    (hreads : ∀ v, part = some v → ReadsBack writer reader v)
    (hfree : source.lookup field = none)
    (hsource : source.lookup encodedField = part.map (encodeItems writer)) :
    ∃ restored items, restoreItems reader field encodedField source = some restored ∧
      Option.Rel Json.Same part items ∧ ∀ k, restored.lookup k =
        if k = field then items else if k = encodedField then none else source.lookup k := by
  rcases part with _ | part
  · refine ⟨source, none, by rw [restoreItems, hsource]; rfl, Option.Rel.none, fun k ↦ ?_⟩
    split_ifs with hk hk'
    · rw [hk, hfree]
    · rw [hk', hsource]
      rfl
    · rfl
  · have hne := dump_ne_nil (hreads part rfl)
    obtain ⟨items, hparse, hsame⟩ := hreads part rfl
    have hitems : items.isObject := by
      rw [isObject_iff, ← hsame.shape_eq, ← isObject_iff]
      exact hobj part rfl
    refine ⟨Assoc.erase encodedField (Assoc.set field items source), some items, ?_,
      Option.Rel.some hsame, fun k ↦ ?_⟩
    · rw [restoreItems, hsource]
      simp [encodeItems, restoreChunks_encodeChunks hne, hparse, hitems]
    · rw [Assoc.lookup_erase, Assoc.lookup_set]
      by_cases hk : encodedField = k
      · subst hk
        simp [hnames.symm]
      · simp only [if_neg hk, @eq_comm _ k]

theorem encodeParts_encodedFrom (writer : JsonLibrary)
    (hobj : ∀ q ∈ parts, ∀ part, doc.lookup q.1 = some part → part.isObject)
    (hfree : ∀ q ∈ parts, doc.lookup q.2 = none) :
    ∃ stored, encodeParts writer doc = some stored ∧ EncodedFrom writer doc stored := by
  simp only [parts, List.forall_mem_cons, List.not_mem_nil, false_implies, implies_true,
    and_true] at hobj hfree
  obtain ⟨hitems, hsync, hmentions⟩ := hobj
  obtain ⟨hitems', hsync', hmentions'⟩ := hfree
  obtain ⟨doc₁, h₁, hlookup₁⟩ := encodePart_lookup writer "items" "items-b64" hitems hitems'
  obtain ⟨doc₂, h₂, hlookup₂⟩ := @encodePart_lookup doc₁ writer "__broker_sync" "broker-sync-b64"
    (by simpa [hlookup₁] using hsync) (by simpa [hlookup₁] using hsync')
  obtain ⟨doc₃, h₃, hlookup₃⟩ := @encodePart_lookup doc₂ writer "mention-states"
    "mention-states-b64" (by simpa [hlookup₁, hlookup₂] using hmentions)
    (by simpa [hlookup₁, hlookup₂] using hmentions')
  refine ⟨doc₃, by simp [encodeParts, parts, h₁, h₂, h₃], ?_, ?_, ?_⟩
  · simp [parts, hlookup₁, hlookup₂, hlookup₃]
  · simp [parts, hlookup₁, hlookup₂, hlookup₃]
  · intro k hk hk'
    simp only [parts, List.map_cons, List.map_nil, List.mem_cons, List.not_mem_nil, or_false,
      not_or] at hk hk'
    simp [hlookup₁, hlookup₂, hlookup₃, hk, hk']

/-- What is restored is the document the parts were taken from. -/
theorem restoreFields_same (h : EncodedFrom writer doc source)
    (hobj : ∀ q ∈ parts, ∀ part, doc.lookup q.1 = some part → part.isObject)
    (hreads : ∀ q ∈ parts, ∀ part, doc.lookup q.1 = some part → ReadsBack writer reader part)
    (hfree : ∀ q ∈ parts, doc.lookup q.2 = none) :
    ∃ restored, restoreFields reader source = some restored ∧
      (Json.obj doc).Same (.obj restored) := by
  obtain ⟨hpart, hencoded, hother⟩ := h
  simp only [parts, List.forall_mem_cons, List.not_mem_nil, false_implies, implies_true, and_true]
    at hobj hreads hfree hpart hencoded
  obtain ⟨source₁, items, h₁, hitems, hlookup₁⟩ := restoreItems_lookup source
    (by decide : "items" ≠ "items-b64") hobj.1 hreads.1 hpart.1 hencoded.1
  obtain ⟨source₂, sync, h₂, hsync, hlookup₂⟩ := restoreItems_lookup source₁
    (by decide : "__broker_sync" ≠ "broker-sync-b64") hobj.2.1 hreads.2.1
    (by simpa [hlookup₁] using hpart.2.1) (by simpa [hlookup₁] using hencoded.2.1)
  obtain ⟨source₃, mentions, h₃, hmentions, hlookup₃⟩ := restoreItems_lookup source₂
    (by decide : "mention-states" ≠ "mention-states-b64") hobj.2.2 hreads.2.2
    (by simpa [hlookup₁, hlookup₂] using hpart.2.2)
    (by simpa [hlookup₁, hlookup₂] using hencoded.2.2)
  refine ⟨source₃, by simp [restoreFields, parts, h₁, h₂, h₃], ?_⟩
  rw [same_obj_iff]
  intro k
  -- The parts are restored, their encoded names are gone, every other field is as it was.
  rw [hlookup₃, hlookup₂, hlookup₁]
  split_ifs with hk₁ hk₂ hk₃ hk₄ hk₅ hk₆
  · rwa [hk₁]
  · rw [hk₂, hfree.2.2]
    exact Option.Rel.none
  · rwa [hk₃]
  · rw [hk₄, hfree.2.1]
    exact Option.Rel.none
  · rwa [hk₅]
  · rw [hk₆, hfree.1]
    exact Option.Rel.none
  · rw [hother k (by simp [parts, hk₁, hk₃, hk₅]) (by simp [parts, hk₂, hk₄, hk₆])]
    rcases doc.lookup k with _ | v
    · exact Option.Rel.none
    · exact Option.Rel.some (Json.Same.refl v)

end Parts

/-! ## Documents -/

/-- A document whose parts can be stored, with none of the names it is stored under and a password
that is a hash if there is one. -/
structure Storable (doc : Fields) : Prop where
  nodup : (doc.map Prod.fst).Nodup
  parts_object : ∀ q ∈ parts, ∀ part, doc.lookup q.1 = some part → part.isObject
  encoded_free : ∀ q ∈ parts, doc.lookup q.2 = none
  legacy_free : ∀ k ∈ legacyFields, doc.lookup k = none
  password : ∀ v, doc.lookup passwordField = some v →
    v = .null ∨ ∃ s, v = .str s ∧ (s = "" ∨ isCanvasPasswordHash s)

section Documents

variable {hashCanvasPassword : String → Option String} {writer : JsonLibrary} {doc stored : Fields}

theorem nodup_encodePart {field encodedField : String} (hdoc : (doc.map Prod.fst).Nodup)
    (h : encodePart writer field encodedField doc = some stored) :
    (stored.map Prod.fst).Nodup := by
  rw [encodePart] at h
  split at h
  · rwa [← Option.some.inj h]
  · split_ifs at h
    rw [← Option.some.inj h]
    exact Assoc.nodup_erase (Assoc.nodup_set hdoc _ _) _

theorem nodup_encodeParts (hdoc : (doc.map Prod.fst).Nodup)
    (h : encodeParts writer doc = some stored) : (stored.map Prod.fst).Nodup := by
  simp only [encodeParts, parts, List.foldlM_cons, List.foldlM_nil, Option.pure_def,
    Option.bind_eq_bind, Option.bind_eq_some_iff, Option.some.injEq] at h
  obtain ⟨doc₁, h₁, doc₂, h₂, doc₃, h₃, rfl⟩ := h
  exact nodup_encodePart (nodup_encodePart (nodup_encodePart hdoc h₁) h₂) h₃

/-- A password that is a hash stays as it is. -/
theorem normalizePassword_eq (hpassword : ∀ v, doc.lookup passwordField = some v →
    v = .null ∨ ∃ s, v = .str s ∧ (s = "" ∨ isCanvasPasswordHash s)) :
    normalizePassword hashCanvasPassword doc = some doc := by
  rw [normalizePassword]
  split
  · next stored hstored =>
    obtain h | ⟨s, hs, hhash⟩ := hpassword _ hstored
    · contradiction
    · obtain rfl := Json.str.inj hs
      have hsame : normalizeCanvasPassword hashCanvasPassword stored = some stored := by
        rw [normalizeCanvasPassword]
        rcases hhash with rfl | hhash
        · rfl
        · rw [if_pos hhash, ite_eq_right_iff]
          exact fun h ↦ by rw [h]
      rw [setPassword, hsame, Option.map_some, Assoc.set_of_lookup hstored]
  · rfl

theorem dropLegacy_eq {legacy : String} (h : doc.lookup legacy = none) :
    dropLegacy hashCanvasPassword doc legacy = some doc := by
  rw [dropLegacy, h]

/-- Only the parts of a storable document are changed when it is stored. -/
theorem safeDocument_eq (hashCanvasPassword : String → Option String) (writer : JsonLibrary)
    (h : Storable doc) : ∃ stored,
    safeDocument hashCanvasPassword writer doc = some stored ∧
      EncodedFrom writer doc stored ∧ (stored.map Prod.fst).Nodup := by
  obtain ⟨stored, hstored, hfrom⟩ :=
    encodeParts_encodedFrom writer h.parts_object h.encoded_free
  have hother {k : String} (hk : k ∈ passwordField :: legacyFields) :
      stored.lookup k = doc.lookup k := by
    refine hfrom.other k ?_ ?_ <;>
      · revert k
        decide
  have hpassword : normalizePassword hashCanvasPassword stored = some stored := by
    refine normalizePassword_eq fun v hv ↦ h.password v ?_
    rwa [← hother (List.mem_cons_self)]
  have hlegacy (legacy : String) (hmem : legacy ∈ legacyFields) :
      dropLegacy hashCanvasPassword stored legacy = some stored :=
    dropLegacy_eq (by rw [hother (List.mem_cons_of_mem _ hmem), h.legacy_free legacy hmem])
  refine ⟨stored, ?_, hfrom, nodup_encodeParts h.nodup hstored⟩
  simp only [legacyFields, List.forall_mem_cons] at hlegacy
  rw [safeDocument, hstored, Option.bind_eq_bind, Option.bind_some, hpassword]
  simp [legacyFields, hlegacy.1, hlegacy.2.1, hlegacy.2.2.1]

end Documents

end Snapshot

end Agora
