import Agora.Passwords.Formats
import Agora.Settings.Document

/-!
# Passwords under older names

A document may have its password under any of four names. Loading a document moves the value under
the first name that is there, whatever it is; saving takes the first text among the older names, and
only when the name of today is not there at all. So a value that is no password, under a name that
comes first, hides the password under a later one.
-/

namespace Agora

namespace Settings

open Snapshot (Fields passwordField legacyFields parts encodePart encodeParts dropLegacy setPassword
  normalizePassword safeDocument)

variable {doc : Fields}

/-- The names a password may be under, as they are looked for. -/
def passwordFields : List String := passwordField :: legacyFields

/-- The value under the first of some names that is there. -/
def firstPresent (doc : Fields) (names : List String) : Option Json :=
  names.findSome? fun name ↦ doc.lookup name

theorem firstPresent_congr {doc' : Fields} {names : List String}
    (h : ∀ name ∈ names, doc'.lookup name = doc.lookup name) :
    firstPresent doc' names = firstPresent doc names := by
  induction names with
  | nil => rfl
  | cons name names ih =>
    obtain ⟨hname, hnames⟩ := List.forall_mem_cons.mp h
    rw [firstPresent, firstPresent, List.findSome?_cons, List.findSome?_cons, hname]
    rcases doc.lookup name with _ | v
    · exact ih hnames
    · rfl

/-! ## Loading -/

theorem lookup_moveLegacy_of_ne {legacy name : String} (h : legacy ≠ name)
    (hpassword : passwordField ≠ name) : (moveLegacy doc legacy).lookup name = doc.lookup name := by
  unfold moveLegacy
  split
  · rfl
  · rw [Assoc.lookup_erase_of_ne h]
    split_ifs
    · rfl
    · exact Assoc.lookup_set_of_ne hpassword _ _

theorem lookup_moveLegacy {legacy : String} (h : legacy ≠ passwordField) :
    (moveLegacy doc legacy).lookup passwordField
      = (doc.lookup passwordField).or (doc.lookup legacy) := by
  unfold moveLegacy
  rcases hlegacy : doc.lookup legacy with _ | v
  · rw [Option.or_none]
  · dsimp only
    rw [Assoc.lookup_erase_of_ne h]
    rcases hpassword : doc.lookup passwordField with _ | w
    · rw [if_neg (by simp), Assoc.lookup_set_self, Option.none_or]
    · rw [if_pos (by simp), hpassword, Option.some_or]

/-- Moving brings the first value there is. -/
theorem lookup_foldl_moveLegacy {names : List String} (hnames : names.Nodup)
    (hpassword : passwordField ∉ names) (doc : Fields) :
    (names.foldl moveLegacy doc).lookup passwordField
      = firstPresent doc (passwordField :: names) := by
  induction names generalizing doc with
  | nil =>
    rw [firstPresent, List.findSome?_cons, List.findSome?_nil, List.foldl_nil]
    rcases doc.lookup passwordField with _ | v <;> rfl
  | cons legacy names ih =>
    obtain ⟨hfirst, hnames⟩ := List.nodup_cons.mp hnames
    rw [List.mem_cons, not_or] at hpassword
    have hrest : firstPresent (moveLegacy doc legacy) names = firstPresent doc names := by
      refine firstPresent_congr fun name hname ↦ ?_
      exact lookup_moveLegacy_of_ne (fun h ↦ hfirst (h ▸ hname)) fun h ↦ hpassword.2 (h ▸ hname)
    unfold firstPresent at hrest
    rw [List.foldl_cons, ih hnames hpassword.2, firstPresent, firstPresent, List.findSome?_cons,
      List.findSome?_cons, List.findSome?_cons, lookup_moveLegacy (Ne.symm hpassword.1), hrest]
    rcases doc.lookup passwordField with _ | v
    · rcases doc.lookup legacy with _ | w <;> rfl
    · rfl

theorem lookup_moved (doc : Fields) :
    (legacyFields.foldl moveLegacy doc).lookup passwordField = firstPresent doc passwordFields :=
  lookup_foldl_moveLegacy (by decide) (by decide) doc

/-! ## Saving -/

section Saving

variable {hashCanvasPassword : String → Option String} {library : JsonLibrary} {stored : Fields}

theorem lookup_encodePart {part : String × String} {name : String} (hfield : part.1 ≠ name)
    (hencoded : part.2 ≠ name) (h : encodePart library part.1 part.2 doc = some stored) :
    stored.lookup name = doc.lookup name := by
  unfold encodePart at h
  split at h
  · rw [Option.some.inj h]
  · split_ifs at h
    rw [← Option.some.inj h, Assoc.lookup_erase_of_ne hfield, Assoc.lookup_set_of_ne hencoded]

/-- Encoding the parts leaves the passwords alone. -/
theorem lookup_encodeParts {name : String} (hname : ∀ part ∈ parts, part.1 ≠ name ∧ part.2 ≠ name)
    (h : encodeParts library doc = some stored) : stored.lookup name = doc.lookup name := by
  have hfold : ∀ (l : List (String × String)), (∀ part ∈ l, part.1 ≠ name ∧ part.2 ≠ name) →
      ∀ doc, l.foldlM (fun doc part ↦ encodePart library part.1 part.2 doc) doc = some stored →
        stored.lookup name = doc.lookup name := by
    intro l
    induction l with
    | nil => exact fun _ doc h ↦ by rw [Option.some.inj h]
    | cons part l ih =>
      intro hl doc h
      obtain ⟨next, hnext, h⟩ := Option.bind_eq_some_iff.mp h
      obtain ⟨⟨hfield, hencoded⟩, hl⟩ := List.forall_mem_cons.mp hl
      rw [ih hl next h, lookup_encodePart hfield hencoded hnext]
  exact hfold parts hname doc h

theorem lookup_setPassword {s : String} (h : setPassword hashCanvasPassword s doc = some stored) :
    ∃ hash, normalizeCanvasPassword hashCanvasPassword s = some hash ∧
      stored.lookup passwordField = some (.str hash) ∧
      ∀ name, passwordField ≠ name → stored.lookup name = doc.lookup name := by
  obtain ⟨hash, hhash, rfl⟩ := Option.map_eq_some_iff.mp h
  exact ⟨hash, hhash, Assoc.lookup_set_self _ _ _, fun name hname ↦
    Assoc.lookup_set_of_ne hname _ _⟩

/-- Older names are dropped once the name of today is there. -/
theorem lookup_dropLegacy_foldlM {names : List String} (hpassword : passwordField ∉ names)
    {doc : Fields} {v : Json} (hv : doc.lookup passwordField = some v)
    (h : names.foldlM (dropLegacy hashCanvasPassword) doc = some stored) :
    stored.lookup passwordField = some v := by
  induction names generalizing doc with
  | nil => rw [← Option.some.inj h, hv]
  | cons legacy names ih =>
    rw [List.mem_cons, not_or] at hpassword
    obtain ⟨next, hnext, h⟩ := Option.bind_eq_some_iff.mp h
    refine ih hpassword.2 ?_ h
    unfold dropLegacy at hnext
    rw [hv] at hnext
    rcases hlegacy : doc.lookup legacy with _ | w
    · rw [hlegacy] at hnext
      rw [← Option.some.inj hnext, hv]
    · rw [hlegacy] at hnext
      have herase : Assoc.erase legacy doc = next := by
        cases w with
        | _ => exact Option.some.inj hnext
      rw [← herase, Assoc.lookup_erase_of_ne (Ne.symm hpassword.1), hv]

/-- Dropping takes the first value, when that is a text. -/
theorem lookup_dropLegacy_first {names : List String} (hnames : names.Nodup)
    (hpassword : passwordField ∉ names) {doc : Fields} {s : String}
    (hnone : doc.lookup passwordField = none) (hfirst : firstPresent doc names = some (.str s))
    (h : names.foldlM (dropLegacy hashCanvasPassword) doc = some stored) :
    ∃ hash, normalizeCanvasPassword hashCanvasPassword s = some hash ∧
      stored.lookup passwordField = some (.str hash) := by
  induction names generalizing doc with
  | nil => nomatch hfirst
  | cons legacy names ih =>
    obtain ⟨hmem, hnames⟩ := List.nodup_cons.mp hnames
    rw [List.mem_cons, not_or] at hpassword
    obtain ⟨next, hnext, h⟩ := Option.bind_eq_some_iff.mp h
    unfold dropLegacy at hnext
    rw [firstPresent, List.findSome?_cons] at hfirst
    rcases hlegacy : doc.lookup legacy with _ | w
    · rw [hlegacy] at hnext hfirst
      rw [← Option.some.inj hnext] at h
      exact ih hnames hpassword.2 hnone hfirst h
    · rw [hlegacy] at hnext hfirst
      obtain rfl := Option.some.inj hfirst
      rw [hnone] at hnext
      obtain ⟨set, hset, rfl⟩ := Option.map_eq_some_iff.mp hnext
      obtain ⟨hash, hhash, hlookup, -⟩ := lookup_setPassword hset
      refine ⟨hash, hhash, lookup_dropLegacy_foldlM hpassword.2 ?_ h⟩
      rw [Assoc.lookup_erase_of_ne (Ne.symm hpassword.1), hlookup]

/-- Saving keeps the first value there is, when that is a text. -/
theorem lookup_safeDocument {s : String} (hfirst : firstPresent doc passwordFields = some (.str s))
    (h : safeDocument hashCanvasPassword library doc = some stored) :
    ∃ hash, normalizeCanvasPassword hashCanvasPassword s = some hash ∧
      stored.lookup passwordField = some (.str hash) := by
  obtain ⟨encoded, hencoded, h⟩ := Option.bind_eq_some_iff.mp h
  obtain ⟨normalized, hnormalized, h⟩ := Option.bind_eq_some_iff.mp h
  have hsame : ∀ name ∈ passwordFields, encoded.lookup name = doc.lookup name := by
    intro name hname
    refine lookup_encodeParts (fun part hpart ↦ ?_) hencoded
    revert name part
    decide
  have hlookup : encoded.lookup passwordField = doc.lookup passwordField :=
    hsame _ List.mem_cons_self
  rw [firstPresent, passwordFields, List.findSome?_cons] at hfirst
  unfold normalizePassword at hnormalized
  rw [hlookup] at hnormalized
  rcases hpassword : doc.lookup passwordField with _ | v
  · rw [hpassword] at hnormalized hfirst hlookup
    rw [← Option.some.inj hnormalized] at h
    refine lookup_dropLegacy_first (by decide) (by decide) hlookup ?_ h
    rw [← hfirst]
    exact firstPresent_congr fun name hname ↦ hsame name (List.mem_cons_of_mem _ hname)
  · rw [hpassword] at hnormalized hfirst
    obtain rfl := Option.some.inj hfirst
    obtain ⟨hash, hhash, hset, -⟩ := lookup_setPassword hnormalized
    exact ⟨hash, hhash, lookup_dropLegacy_foldlM (by decide) hset h⟩

end Saving

/-! ## Where the documents go -/

/-- A document that was loaded is the migrated one, with its generation. -/
theorem initializeCanvas_migrated {server : Server} {canvasId : ℤ} {alreadyCached : Bool}
    {generation : String} {s : Store} {loaded : Fields}
    (h : (initializeCanvas server canvasId alreadyCached generation s).1 = some loaded) :
    ∃ doc migrated, (initialDocument server canvasId alreadyCached s).1 = some doc ∧
      migratedDocument server doc = some migrated ∧
      loaded = Assoc.set "_cache_generation" (.str generation) migrated := by
  unfold initializeCanvas at h
  obtain ⟨found, t, hfound⟩ :
      ∃ found t, initialDocument server canvasId alreadyCached s = (found, t) :=
    ⟨_, _, rfl⟩
  rw [StateT.bind_of_run hfound] at h
  rw [hfound]
  rcases found with _ | doc
  · nomatch h
  · rcases hmigrated : migratedDocument server doc with _ | migrated
    · simp only [Option.bind_some, hmigrated, Option.map_none] at h
      nomatch h
    · simp only [Option.bind_some, hmigrated, Option.map_some] at h
      refine ⟨doc, migrated, rfl, hmigrated, ?_⟩
      obtain ⟨saved, t', hsaved⟩ :
          ∃ saved t', saveMigrated server canvasId doc migrated t = (saved, t') :=
        ⟨_, _, rfl⟩
      rw [StateT.bind_of_run hsaved] at h
      rcases saved with _ | _
      · nomatch h
      · obtain ⟨kept, t'', hkept⟩ : ∃ kept t'', storeCanvas
            (Assoc.set "_cache_generation" (.str generation) migrated) t' = (kept, t'') :=
          ⟨_, _, rfl⟩
        rw [if_pos rfl, StateT.bind_of_run hkept] at h
        rcases kept with _ | _
        · nomatch h
        · exact (Option.some.inj h).symm

/-- A document that was saved is in the store, with the fields of the safe one. -/
theorem saveDocument_stored {server : Server} {canvasId : ℤ} {doc : Fields} {s : Store}
    (h : (saveDocument server canvasId doc s).1 = true) :
    ∃ stored, safeDocument server.hashCanvasPassword server.library doc = some stored ∧
      (saveDocument server canvasId doc s).2.index.lookup (toString canvasId)
        = some (.obj (Json.sortedFields stored)) := by
  unfold saveDocument saveCanvasDocument at h ⊢
  dsimp only at h ⊢
  split_ifs at h ⊢
  · nomatch h
  · rcases hstored : safeDocument server.hashCanvasPassword server.library doc with _ | stored
    · rw [hstored] at h
      nomatch h
    · rw [hstored] at h
      refine ⟨stored, rfl, ?_⟩
      dsimp only [documentStore, Store.acting] at h ⊢
      generalize s.faults.headD .answered = fault at h ⊢
      rcases fault with _ | _ | _
      · exact Assoc.lookup_set_self _ _ _
      · exact absurd h Bool.false_ne_true
      · exact absurd h Bool.false_ne_true

/-! ## Keeping the password -/

/-- A document is protected by a password. -/
def ProtectedBy (hashCanvasPassword : String → Option String) (s : String) (doc : Fields) : Prop :=
  ∃ hash, normalizeCanvasPassword hashCanvasPassword s = some hash ∧ hash ≠ "" ∧
    doc.lookup passwordField = some (.str hash)

/-- Loading and saving keep the password under one of the names. -/
def KeepsPassword (server : Server) (doc : Fields) : Prop :=
  ∃ field ∈ passwordFields, ∃ s, s ≠ "" ∧ doc.lookup field = some (.str s) ∧
    (∀ migrated, migratedDocument server doc = some migrated →
      ProtectedBy server.hashCanvasPassword s migrated) ∧
    ∀ stored, safeDocument server.hashCanvasPassword server.library doc = some stored →
      ProtectedBy server.hashCanvasPassword s stored

/-- A document with a password under one of the names. -/
def HasPassword (doc : Fields) : Prop :=
  ∃ field ∈ passwordFields, ∃ s, s ≠ "" ∧ doc.lookup field = some (.str s)

/-- **Moving passwords.** When there is a password under one of the names, loading and saving keep
one, and the same, exactly when the first of the names that is there has one; a document that is
loaded is the migrated one, with its generation, and one that is saved has the fields of the safe
one. -/
theorem keepsPassword_iff {server : Server} {pbkdf2 : Passwords.Pbkdf2}
    {salts : String → Option Passwords.Salt}
    (hserver : server.hashCanvasPassword =
      fun password ↦ Passwords.hashCanvasPassword pbkdf2 (salts password) password)
    (doc : Fields) :
    ((HasPassword doc → KeepsPassword server doc) ↔
      (HasPassword doc → ∃ s, s ≠ "" ∧ firstPresent doc passwordFields = some (.str s))) ∧
    (∀ canvasId alreadyCached generation s loaded,
      (initialDocument server canvasId alreadyCached s).1 = some doc →
      (initializeCanvas server canvasId alreadyCached generation s).1 = some loaded →
        ∃ migrated, migratedDocument server doc = some migrated ∧
          loaded = Assoc.set "_cache_generation" (.str generation) migrated) ∧
    ∀ canvasId s, (saveDocument server canvasId doc s).1 = true →
      ∃ stored, safeDocument server.hashCanvasPassword server.library doc = some stored ∧
        (saveDocument server canvasId doc s).2.index.lookup (toString canvasId)
          = some (.obj (Json.sortedFields stored)) := by
  refine ⟨?_, fun canvasId alreadyCached generation s loaded hdoc h ↦ ?_,
    fun canvasId s h ↦ saveDocument_stored h⟩
  swap
  · obtain ⟨found, migrated, hfound, hmigrated, hloaded⟩ := initializeCanvas_migrated h
    obtain rfl := Option.some.inj (hfound.symm.trans hdoc)
    exact ⟨migrated, hmigrated, hloaded⟩
  refine imp_congr_right fun _ ↦ ?_
  -- what is stored for a text is a text
  have hhash : ∀ s hash, s ≠ "" →
      normalizeCanvasPassword server.hashCanvasPassword s = some hash → hash ≠ "" := by
    intro s hash hs h
    unfold normalizeCanvasPassword at h
    rw [if_neg hs] at h
    split_ifs at h
    · exact Option.some.inj h ▸ hs
    · rw [hserver] at h
      exact Passwords.hashCanvasPassword_ne pbkdf2 h
  constructor
  · rintro ⟨field, hfield, s, hs, hlookup, hload, -⟩
    obtain ⟨v, hv⟩ : ∃ v, firstPresent doc passwordFields = some v := by
      refine Option.isSome_iff_exists.mp (List.findSome?_isSome_iff.mpr ⟨field, hfield, ?_⟩)
      rw [hlookup]
      rfl
    have hmoved := (lookup_moved doc).trans hv
    unfold migratedDocument at hload
    dsimp only at hload
    rw [hmoved] at hload
    cases v with
    | str t =>
      refine ⟨t, ?_, hv⟩
      rintro rfl
      obtain ⟨hash, -, hne, hkept⟩ := hload _ rfl
      rw [Assoc.lookup_set_self, Option.some.injEq, Json.str.injEq] at hkept
      exact hne hkept.symm
    -- another value is moved as it is, and no text takes its place
    | _ =>
      obtain ⟨hash, -, -, hkept⟩ := hload _ rfl
      rw [hmoved] at hkept
      nomatch hkept
  · rintro ⟨s, hs, hfirst⟩
    obtain ⟨field, hfield, hlookup⟩ := List.exists_of_findSome?_eq_some hfirst
    refine ⟨field, hfield, s, hs, hlookup, fun migrated hmigrated ↦ ?_, fun stored hstored ↦ ?_⟩
    · unfold migratedDocument at hmigrated
      dsimp only at hmigrated
      rw [(lookup_moved doc).trans hfirst] at hmigrated
      obtain ⟨hash, hnormalized, rfl⟩ := Option.map_eq_some_iff.mp hmigrated
      exact ⟨hash, hnormalized, hhash s hash hs hnormalized, Assoc.lookup_set_self _ _ _⟩
    · obtain ⟨hash, hnormalized, hkept⟩ := lookup_safeDocument hfirst hstored
      exact ⟨hash, hnormalized, hhash s hash hs hnormalized, hkept⟩

/-! ## Two documents -/

/-- A server whose salts and digests are zeros. -/
def zeroServer : Server where
  library := { dump := fun _ ↦ [], parse := fun _ ↦ none, parse_nil := rfl }
  hashCanvasPassword := Passwords.hashCanvasPassword Passwords.zeroPbkdf2 (some Passwords.zeroSalt)
  readNumber _ := none
  index := "canvases"

theorem keepsPassword_iff_zero :
    (HasPassword [("canvas-password", .str "secret")] →
      KeepsPassword zeroServer [("canvas-password", .str "secret")]) ↔
    (HasPassword [("canvas-password", .str "secret")] → ∃ s, s ≠ "" ∧
      firstPresent [("canvas-password", .str "secret")] passwordFields = some (.str s)) :=
  (@keepsPassword_iff zeroServer Passwords.zeroPbkdf2 (fun _ ↦ some Passwords.zeroSalt) rfl _).1

/-- A null under the name of today hides the password: it is gone after loading, and after saving.
-/
theorem keepsPassword_null :
    HasPassword [(passwordField, .null), ("canvas-password", .str "secret")] ∧
      migratedDocument zeroServer [(passwordField, .null), ("canvas-password", .str "secret")]
        = some [(passwordField, .null)] ∧
      safeDocument zeroServer.hashCanvasPassword zeroServer.library
          [(passwordField, .null), ("canvas-password", .str "secret")]
        = some [(passwordField, .null)] ∧
      ¬KeepsPassword zeroServer [(passwordField, .null), ("canvas-password", .str "secret")] := by
  have hmigrated : migratedDocument zeroServer
      [(passwordField, .null), ("canvas-password", .str "secret")]
      = some [(passwordField, .null)] :=
    rfl
  refine ⟨⟨"canvas-password", by decide, "secret", by decide, rfl⟩, hmigrated, rfl, ?_⟩
  rintro ⟨_, -, s, -, -, hload, -⟩
  obtain ⟨hash, -, -, hkept⟩ := hload _ hmigrated
  nomatch hkept

end Settings

end Agora
