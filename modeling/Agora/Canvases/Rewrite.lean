import Agora.Canvases.Deletion
import Agora.Chat.Keys
import Agora.Snapshot.Languages

/-!
# Saving a whole document back

An operation of the services that reads a document, changes some properties and saves the document
writes the fields of its class and no others. What the servers keep beside them in a stored
document, the receipt ledger and the mention states among it, is not written back.

**Main result.** What an operation does not set stays as it was exactly when nothing is written over
the document, or all of it is in fields that the class writes, with values of their types
(`rewrite_unchanged_iff`). Both are said of the fields that are stored and of the request.
-/

namespace Agora

namespace Canvases

open Java Snapshot

/-- An operation that saves a document back: a request that sets some properties, or the hashing of
a password that is not hashed yet. -/
inductive Rewrite where
  | update (fallbackCanvasName : Option String) (ownerId : Option ℤ)
      (request : UpdateCanvasDocumentRequest)
  | migrate

namespace Rewrite

/-- The properties that an operation sets. -/
def sets : Rewrite → Property → Bool
  | update _ _ request => request.sets
  | migrate => fun property ↦ property = .canvasPasswordHash

def setsField (op : Rewrite) (k : String) : Bool := (properties.lookup k).any op.sets

variable (es : Elasticsearch)

/-- What is saved of a document, if the operation comes to save it. -/
def written : Rewrite → CanvasDocument → Result (Option CanvasDocument)
  | update _ _ request, doc => some <$> normalized es (applyRequest request doc)
  | migrate, doc =>
    match legacyPassword doc with
    | none => pure none
    | some password => do
      let hash ← hashForStorage es.bcrypt (some password)
      some <$> normalized es { doc with canvasPasswordHash := hash }

def run (replies : Replies) (canvasId : ℤ) : Rewrite → Action Index Unit
  | update fallbackCanvasName ownerId request => do
    let _ ← updateCanvasDocument es replies canvasId fallbackCanvasName ownerId request
    return ()
  | migrate => do
    let doc ← Action.reading (getCanvasDocumentOrThrow es { replies } canvasId)
    let _ ← migrateLegacyCanvasPassword es replies doc
    return ()

end Rewrite

/-! ## What is written -/

section Written

variable {es : Elasticsearch} {op : Rewrite} {replies : Replies} {canvasId : ℤ} {index : Index}
  {source : Json} {doc saved : CanvasDocument}

/-- The index after a document is saved. -/
theorem saveCanvas_index (es : Elasticsearch) (replies : Replies) (doc : CanvasDocument)
    (index : Index) :
    (saveCanvas es replies doc index).2 = index ∨ ∃ saved, normalized es doc = .ok saved ∧
      (saveCanvas es replies doc index).2
        = Assoc.set (documentId saved) (.obj (encodeCanvasDocument es.library saved)) index := by
  unfold saveCanvas
  rcases hdoc : normalized es doc with e | saved
  · exact Or.inl rfl
  · rcases replies .put with _ | ⟨indexMissing, message⟩ | message
    · exact Or.inr ⟨saved, rfl, rfl⟩
    · exact Or.inl rfl
    · exact Or.inr ⟨saved, rfl, rfl⟩

theorem saveCanvas_answered (hdoc : normalized es doc = .ok saved) :
    saveCanvas es (fun _ ↦ .answered) doc index = (.ok true,
      Assoc.set (documentId saved) (.obj (encodeCanvasDocument es.library saved)) index) := by
  unfold saveCanvas
  rw [hdoc]
  rfl

/-- A document that is there is the one that is read. -/
theorem getCanvasDocumentById_of_lookup (es : Elasticsearch) (replies : Replies)
    (hsource : index.lookup (toString canvasId) = some source) :
    (∃ e, getCanvasDocumentById es replies canvasId index = .error e) ∨
      ∃ doc, decodeCanvasDocument es.library es.coercions source = .ok doc ∧
        getCanvasDocumentById es replies canvasId index = .ok (some doc) := by
  unfold getCanvasDocumentById restGet
  rcases replies .getById with _ | ⟨indexMissing, message⟩ | message
  · rw [hsource]
    rcases hdoc : decodeCanvasDocument es.library es.coercions source with e | doc
    · refine Or.inl ⟨canvasReadFailure (.other ""), ?_⟩
      simp only [decodeFound, hdoc]
    · refine Or.inr ⟨doc, rfl, ?_⟩
      simp only [decodeFound, hdoc]
  · cases indexMissing
    · exact Or.inl ⟨_, rfl⟩
    · exact Or.inl ⟨_, rfl⟩
  · exact Or.inl ⟨_, rfl⟩

theorem getCanvasDocumentById_answered
    (hsource : index.lookup (toString canvasId) = some source)
    (hdoc : decodeCanvasDocument es.library es.coercions source = .ok doc) :
    getCanvasDocumentById es (fun _ ↦ .answered) canvasId index = .ok (some doc) := by
  simp only [getCanvasDocumentById, restGet, hsource, decodeFound, hdoc]

/-- What follows a method and only returns leaves the state as it is. -/
theorem bind_return_snd {α β : Type} (x : Action Index α) (f : α → Action Index β)
    (hf : ∀ a index, (f a index).2 = index) (index : Index) :
    ((x >>= f) index).2 = (x index).2 := by
  rw [Action.bind_run]
  rcases x index with ⟨e | a, index'⟩
  · rfl
  · exact hf a index'

theorem updateCanvasDocument_index (fallbackCanvasName : Option String) (ownerId : Option ℤ)
    (request : UpdateCanvasDocumentRequest)
    (hdoc : getCanvasDocumentById es replies canvasId index = .ok (some doc)) :
    (updateCanvasDocument es replies canvasId fallbackCanvasName ownerId request index).2
      = (saveCanvas es replies (applyRequest request doc) index).2 := by
  have hexisting : existingDocument es replies canvasId fallbackCanvasName index
      = .ok (some doc) := by
    unfold existingDocument
    rw [hdoc]
    rfl
  rw [updateCanvasDocument, Action.bind_run, Action.reading_run, hexisting]
  exact bind_return_snd _ _ (fun _ _ ↦ rfl) index

theorem migrate_index (doc : CanvasDocument) :
    (migrateLegacyCanvasPassword es replies doc index).2 =
      match legacyPassword doc with
      | none => index
      | some password =>
        match hashForStorage es.bcrypt (some password) with
        | .error _ => index
        | .ok hash => (saveCanvas es replies { doc with canvasPasswordHash := hash } index).2 := by
  unfold migrateLegacyCanvasPassword
  rcases legacyPassword doc with _ | password
  · rfl
  · simp only [Action.bind_run, Action.lift_run]
    rcases hashForStorage es.bcrypt (some password) with e | hash
    · rfl
    · dsimp only
      rcases saveCanvas es replies { doc with canvasPasswordHash := hash } index with
        ⟨e | saved, index'⟩
      · rfl
      · cases saved <;> rfl

theorem run_update (fallbackCanvasName : Option String) (ownerId : Option ℤ)
    (request : UpdateCanvasDocumentRequest) :
    ((Rewrite.update fallbackCanvasName ownerId request).run es replies canvasId index).2
      = (updateCanvasDocument es replies canvasId fallbackCanvasName ownerId request index).2 :=
  bind_return_snd _ _ (fun _ _ ↦ rfl) index

theorem run_migrate (hdoc : getCanvasDocumentById es replies canvasId index = .ok (some doc)) :
    (Rewrite.migrate.run es replies canvasId index).2
      = (migrateLegacyCanvasPassword es replies doc index).2 := by
  have hthrow : getCanvasDocumentOrThrow es { replies } canvasId index = .ok doc := by
    unfold getCanvasDocumentOrThrow
    rw [hdoc]
    rfl
  rw [Rewrite.run, Action.bind_run, Action.reading_run, hthrow]
  exact bind_return_snd _ _ (fun _ _ ↦ rfl) index

/-- Without a document nothing is saved. -/
theorem run_of_error {e : Failure}
    (he : getCanvasDocumentById es replies canvasId index = .error e) :
    (op.run es replies canvasId index).2 = index := by
  rcases op with ⟨fallbackCanvasName, ownerId, request⟩ | _
  · have hexisting : existingDocument es replies canvasId fallbackCanvasName index = .error e := by
      unfold existingDocument
      rw [he]
      rfl
    rw [run_update, updateCanvasDocument, Action.bind_run, Action.reading_run, hexisting]
  · have hthrow : getCanvasDocumentOrThrow es { replies } canvasId index = .error e := by
      unfold getCanvasDocumentOrThrow
      rw [he]
      rfl
    rw [Rewrite.run, Action.bind_run, Action.reading_run, hthrow]

/-- An operation leaves the index alone, or saves what it writes. -/
theorem run_index (es : Elasticsearch) (op : Rewrite) (replies : Replies)
    (hsource : index.lookup (toString canvasId) = some source) :
    (op.run es replies canvasId index).2 = index ∨ ∃ doc saved,
      decodeCanvasDocument es.library es.coercions source = .ok doc ∧
      op.written es doc = .ok (some saved) ∧ (op.run es replies canvasId index).2
        = Assoc.set (documentId saved) (.obj (encodeCanvasDocument es.library saved)) index := by
  rcases getCanvasDocumentById_of_lookup es replies hsource with
    ⟨e, he⟩ | ⟨doc, hdoc, hget⟩
  · exact Or.inl (run_of_error he)
  rcases op with ⟨fallbackCanvasName, ownerId, request⟩ | _
  · rw [run_update, updateCanvasDocument_index _ _ _ hget]
    rcases saveCanvas_index es replies (applyRequest request doc) index with
      hsame | ⟨saved, hsaved, hset⟩
    · exact Or.inl hsame
    · exact Or.inr ⟨doc, saved, hdoc, by rw [Rewrite.written, hsaved]; rfl, hset⟩
  · rw [run_migrate hget, migrate_index]
    rcases hlegacy : legacyPassword doc with _ | password
    · exact Or.inl rfl
    dsimp only
    rcases hhash : hashForStorage es.bcrypt (some password) with e | hash
    · exact Or.inl rfl
    dsimp only
    rcases saveCanvas_index es replies { doc with canvasPasswordHash := hash } index with
      hsame | ⟨saved, hsaved, hset⟩
    · exact Or.inl hsame
    · refine Or.inr ⟨doc, saved, hdoc, ?_, hset⟩
      simp only [Rewrite.written, hlegacy]
      rw [hhash]
      change some <$> normalized es { doc with canvasPasswordHash := hash } = _
      rw [hsaved]
      rfl

theorem run_answered (hsource : index.lookup (toString canvasId) = some source)
    (hdoc : decodeCanvasDocument es.library es.coercions source = .ok doc)
    (hwritten : op.written es doc = .ok (some saved)) :
    (op.run es (fun _ ↦ .answered) canvasId index).2
      = Assoc.set (documentId saved) (.obj (encodeCanvasDocument es.library saved)) index := by
  have hget := getCanvasDocumentById_answered hsource hdoc
  rcases op with ⟨fallbackCanvasName, ownerId, request⟩ | _
  · obtain ⟨saved', hsaved, rfl⟩ :
        ∃ saved', normalized es (applyRequest request doc) = .ok saved' ∧ saved' = saved := by
      rcases hresult : normalized es (applyRequest request doc) with e | saved'
      · rw [Rewrite.written, hresult] at hwritten
        nomatch hwritten
      · rw [Rewrite.written, hresult] at hwritten
        exact ⟨saved', rfl, Option.some.inj (Except.ok.inj hwritten)⟩
    rw [run_update, updateCanvasDocument_index _ _ _ hget, saveCanvas_answered hsaved]
  · rw [run_migrate hget, migrate_index]
    simp only [Rewrite.written] at hwritten
    rcases hlegacy : legacyPassword doc with _ | password
    · rw [hlegacy] at hwritten
      nomatch hwritten
    · rw [hlegacy] at hwritten
      obtain ⟨hash, hhash, hsome⟩ := Result.bind_ok.mp hwritten
      dsimp only
      rw [hhash]
      rcases hresult : normalized es { doc with canvasPasswordHash := hash } with e | saved'
      · rw [hresult] at hsome
        nomatch hsome
      · rw [hresult] at hsome
        obtain rfl := Option.some.inj (Except.ok.inj hsome)
        simp only [saveCanvas_answered hresult]

end Written

/-! ## Values of a property -/

/-- A text, or none. -/
def IsText (v : Json) : Prop := v = .null ∨ ∃ text, v = .str text

/-- A whole number, or none. -/
def IsNumber (v : Json) : Prop := v = .null ∨ ∃ n, v = .int n

/-- An array of whole numbers. -/
def IsLongs (v : Json) : Prop :=
  (∃ n, v.shape = .arr n) ∧ ∀ i w, v.child (.index i) = some w → IsNumber w

/-- An object with arrays of whole numbers. -/
def IsGroups (v : Json) : Prop :=
  v.shape = .obj ∧ ∀ k w, v.child (.key k) = some w → w = .null ∨ IsLongs w

/-- A value of a property as the class writes it. -/
def Holds (v : Json) : Property → Prop
  | .canvasName => IsText v
  | .canvasId => IsNumber v
  | .adminUserId => IsNumber v
  | .description => IsText v
  | .visibility => v = .str "public" ∨ v = .str "private"
  | .canvasPasswordHash => v = .null ∨ ∃ text, v = .str text ∧ isHash text
  | .people => IsLongs v
  | .innerGroup => IsGroups v
  | .items => v.shape = .obj
  | .initGroup => IsText v
  | .settingsRevision => ∃ n, v = .int n

section Accepts

variable (coercions : Coercions)

def AcceptsText : Json → Prop
  | .null => True
  | .str _ => True
  | v => ∃ text, coercions.text v = .ok text

def AcceptsNumber (bits : ℕ) : Json → Prop
  | .null => True
  | .int n => -2 ^ (bits - 1) ≤ n ∧ n < 2 ^ (bits - 1)
  | v => ∃ n, coercions.number v = .ok n

def AcceptsLongs : Json → Prop
  | .null => True
  | .arr elements => ∀ v ∈ elements, AcceptsNumber coercions 64 v
  | _ => False

def AcceptsGroups : Json → Prop
  | .null => True
  | .obj fields => ∀ field ∈ fields, AcceptsLongs coercions field.2
  | _ => False

/-- A value that a property can be set to: one of its type, or one that is turned into it. -/
def Accepts (v : Json) : Property → Prop
  | .canvasName => AcceptsText coercions v
  | .canvasId => AcceptsNumber coercions 32 v
  | .adminUserId => AcceptsNumber coercions 64 v
  | .description => AcceptsText coercions v
  | .visibility => AcceptsText coercions v
  | .canvasPasswordHash => AcceptsText coercions v
  | .people => AcceptsLongs coercions v
  | .innerGroup => AcceptsGroups coercions v
  | .items => v = .null ∨ v.shape = .obj
  | .initGroup => AcceptsText coercions v
  | .settingsRevision => AcceptsNumber coercions 64 v

end Accepts

section Values

variable {coercions : Coercions} {v w : Json}

theorem IsText.same (h : IsText v) (hsame : v.Same w) : IsText w := by
  rcases h with rfl | ⟨text, rfl⟩
  · exact Or.inl hsame.symm.eq_null
  · exact Or.inr ⟨text, hsame.symm.eq_str⟩

theorem IsNumber.same (h : IsNumber v) (hsame : v.Same w) : IsNumber w := by
  rcases h with rfl | ⟨n, rfl⟩
  · exact Or.inl hsame.symm.eq_null
  · exact Or.inr ⟨n, hsame.symm.eq_int⟩

theorem IsLongs.same (h : IsLongs v) (hsame : v.Same w) : IsLongs w := by
  refine ⟨hsame.shape_eq ▸ h.1, fun i x hx ↦ ?_⟩
  have hrel := hsame.symm.child (.index i)
  rw [hx] at hrel
  obtain ⟨y, hy, hxy⟩ := Json.rel_some_left hrel
  exact (h.2 i y hy).same hxy.symm

theorem IsGroups.same (h : IsGroups v) (hsame : v.Same w) : IsGroups w := by
  refine ⟨hsame.shape_eq ▸ h.1, fun k x hx ↦ ?_⟩
  have hrel := hsame.symm.child (.key k)
  rw [hx] at hrel
  obtain ⟨y, hy, hxy⟩ := Json.rel_some_left hrel
  rcases h.2 k y hy with rfl | hlongs
  · exact Or.inl hxy.eq_null
  · exact Or.inr (hlongs.same hxy.symm)

/-- Whether a property holds a value does not depend on the order of its fields. -/
theorem Holds.same {property : Property} (h : Holds v property) (hsame : v.Same w) :
    Holds w property := by
  cases property with
  | canvasName | description | initGroup => exact IsText.same h hsame
  | canvasId | adminUserId => exact IsNumber.same h hsame
  | people => exact IsLongs.same h hsame
  | innerGroup => exact IsGroups.same h hsame
  | items => exact hsame.shape_eq.symm.trans h
  | visibility =>
    rcases h with rfl | rfl
    · exact Or.inl hsame.symm.eq_str
    · exact Or.inr hsame.symm.eq_str
  | canvasPasswordHash =>
    rcases h with rfl | ⟨text, rfl, hhash⟩
    · exact Or.inl hsame.symm.eq_null
    · exact Or.inr ⟨text, hsame.symm.eq_str, hhash⟩
  | settingsRevision =>
    obtain ⟨n, rfl⟩ := h
    exact ⟨n, hsame.symm.eq_int⟩

/-! ### Reading a value -/

theorem mapM_ok_iff {α β : Type} {f : α → Result β} {l : List α} :
    (∃ bs, l.mapM f = .ok bs) ↔ ∀ a ∈ l, ∃ b, f a = .ok b := by
  induction l with
  | nil => exact ⟨fun _ _ ha ↦ absurd ha List.not_mem_nil, fun _ ↦ ⟨[], rfl⟩⟩
  | cons a l ih =>
    rw [List.forall_mem_cons, ← ih, List.mapM_cons]
    simp only [Result.bind_ok, Result.pure_ok]
    constructor
    · rintro ⟨-, b, hb, bs, hbs, -⟩
      exact ⟨⟨b, hb⟩, bs, hbs⟩
    · rintro ⟨⟨b, hb⟩, bs, hbs⟩
      exact ⟨_, b, hb, bs, hbs, rfl⟩

theorem map_ok_iff {α β : Type} {f : α → β} {x : Result α} {b : β} :
    f <$> x = .ok b ↔ ∃ a, x = .ok a ∧ f a = b := by
  rcases x with e | a
  · constructor
    · intro h
      cases h
    · rintro ⟨_, h, -⟩
      cases h
  · constructor
    · exact fun h ↦ ⟨a, rfl, Except.ok.inj h⟩
    · rintro ⟨_, h, rfl⟩
      rw [← Except.ok.inj h]
      rfl

theorem exists_ok_iff {α β : Type} {x : Result α} {f : α → β} :
    (∃ b a, x = .ok a ∧ f a = b) ↔ ∃ a, x = .ok a := by
  constructor
  · rintro ⟨_, a, h, -⟩
    exact ⟨a, h⟩
  · rintro ⟨a, h⟩
    exact ⟨_, a, h, rfl⟩

theorem readText_ok_iff : (∃ text, readText coercions v = .ok text) ↔ AcceptsText coercions v := by
  cases v with
  | null | str => exact ⟨fun _ ↦ trivial, fun _ ↦ ⟨_, rfl⟩⟩
  | _ =>
    simp only [readText, AcceptsText, map_ok_iff]
    exact exists_ok_iff

theorem readNumber_ok_iff {bits : ℕ} :
    (∃ n, readNumber coercions bits v = .ok n) ↔ AcceptsNumber coercions bits v := by
  cases v with
  | null => exact ⟨fun _ ↦ trivial, fun _ ↦ ⟨_, rfl⟩⟩
  | int n =>
    simp only [readNumber, AcceptsNumber]
    split_ifs with hbits
    · exact ⟨fun _ ↦ hbits, fun _ ↦ ⟨_, rfl⟩⟩
    · refine ⟨?_, fun h ↦ absurd h hbits⟩
      rintro ⟨_, h⟩
      cases h
  | _ => exact Iff.rfl

theorem readLongs_ok_iff : (∃ l, readLongs coercions v = .ok l) ↔ AcceptsLongs coercions v := by
  cases v with
  | null => exact ⟨fun _ ↦ trivial, fun _ ↦ ⟨_, rfl⟩⟩
  | arr elements =>
    simp only [readLongs, AcceptsLongs, map_ok_iff, ← readNumber_ok_iff]
    rw [← mapM_ok_iff]
    exact exists_ok_iff
  | _ =>
    refine ⟨?_, fun h ↦ absurd h not_false⟩
    rintro ⟨_, h⟩
    cases h

theorem readGroups_ok_iff : (∃ g, readGroups coercions v = .ok g) ↔ AcceptsGroups coercions v := by
  cases v with
  | null => exact ⟨fun _ ↦ trivial, fun _ ↦ ⟨_, rfl⟩⟩
  | obj fields =>
    have hfield (field : String × Json) :
        (∃ g, (do return (field.1, ← readLongs coercions field.2) : Result _) = .ok g) ↔
          AcceptsLongs coercions field.2 := by
      simp only [← readLongs_ok_iff, Result.bind_ok, Result.pure_ok]
      exact exists_ok_iff
    simp only [readGroups, AcceptsGroups, map_ok_iff, ← hfield]
    rw [← mapM_ok_iff]
    exact exists_ok_iff
  | _ =>
    refine ⟨?_, fun h ↦ absurd h not_false⟩
    rintro ⟨_, h⟩
    cases h

theorem readItems_ok_iff : (∃ items, readItems v = .ok items) ↔ v = .null ∨ v.shape = .obj := by
  cases v with
  | null => exact ⟨fun _ ↦ Or.inl rfl, fun _ ↦ ⟨_, rfl⟩⟩
  | obj fields => exact ⟨fun _ ↦ Or.inr rfl, fun _ ↦ ⟨_, rfl⟩⟩
  | _ =>
    constructor
    · rintro ⟨_, h⟩
      cases h
    · rintro (h | h) <;> cases h

/-- A property is set to the values that it accepts. -/
theorem read_ok_iff {property : Property} :
    (∃ f, property.read coercions v = .ok f) ↔ Accepts coercions v property := by
  have hbind {α : Type} {x : Result α} {g : α → CanvasDocument → CanvasDocument} :
      (∃ f, (x >>= fun a ↦ pure (g a)) = .ok f) ↔ ∃ a, x = .ok a := by
    simp only [Result.bind_ok, Result.pure_ok]
    exact exists_ok_iff
  cases property with
  | canvasName | description | visibility | canvasPasswordHash | initGroup =>
    exact hbind.trans readText_ok_iff
  | canvasId | adminUserId | settingsRevision => exact hbind.trans readNumber_ok_iff
  | people => exact hbind.trans readLongs_ok_iff
  | innerGroup => exact hbind.trans readGroups_ok_iff
  | items => exact hbind.trans readItems_ok_iff

/-! ### A value of the type -/

theorem ofText_of_holds {text : Option String} (h : IsText v)
    (hread : readText coercions v = .ok text) : ofText text = v := by
  rcases h with rfl | ⟨s, rfl⟩
  · rw [← Result.pure_ok.mp hread]
    rfl
  · rw [← Result.pure_ok.mp hread]
    rfl

theorem ofNumber_of_holds {bits : ℕ} {n : Option ℤ} (h : IsNumber v)
    (hread : readNumber coercions bits v = .ok n) : ofNumber n = v := by
  rcases h with rfl | ⟨m, rfl⟩
  · rw [← Result.pure_ok.mp hread]
    rfl
  · rw [readNumber] at hread
    split_ifs at hread
    rw [← Result.pure_ok.mp hread]
    rfl

theorem ofLongs_of_holds {l : Option Longs} (h : IsLongs v)
    (hread : readLongs coercions v = .ok l) : ∃ longs, l = some longs ∧ ofLongs longs = v := by
  obtain ⟨⟨n, hshape⟩, hnumbers⟩ := h
  cases v with
  | arr elements =>
    obtain ⟨longs, hlongs, rfl⟩ := map_ok_iff.mp hread
    refine ⟨longs, rfl, congrArg Json.arr ?_⟩
    have hall : ∀ e ∈ elements, IsNumber e := by
      intro e he
      obtain ⟨i, hi⟩ := List.mem_iff_getElem?.mp he
      exact hnumbers i e hi
    clear hnumbers hshape hread
    induction elements generalizing longs with
    | nil =>
      rw [← Result.pure_ok.mp hlongs]
      rfl
    | cons e elements ih =>
      obtain ⟨he, hall⟩ := List.forall_mem_cons.mp hall
      rw [List.mapM_cons] at hlongs
      obtain ⟨n, hn, hlongs⟩ := Result.bind_ok.mp hlongs
      obtain ⟨longs, hlongs, hcons⟩ := Result.bind_ok.mp hlongs
      rw [← Result.pure_ok.mp hcons, List.map_cons, ofNumber_of_holds he hn, ih longs hlongs hall]
  | _ => cases hshape

/-- The groups that are read of an object. -/
theorem lookup_readGroups {fields : Fields} {groups : List (String × Option Longs)}
    (h : (fields.mapM fun field ↦ do return (field.1, ← readLongs coercions field.2))
      = .ok groups) (k : String) :
    Option.Rel (fun v l ↦ readLongs coercions v = .ok l) (fields.lookup k) (groups.lookup k) := by
  induction fields generalizing groups with
  | nil =>
    rw [← Result.pure_ok.mp h]
    exact Option.Rel.none
  | cons field fields ih =>
    obtain ⟨name, v⟩ := field
    rw [List.mapM_cons] at h
    obtain ⟨group, hgroup, h⟩ := Result.bind_ok.mp h
    obtain ⟨groups, hgroups, hcons⟩ := Result.bind_ok.mp h
    obtain ⟨l, hl, hpair⟩ := Result.bind_ok.mp hgroup
    obtain rfl := Result.pure_ok.mp hpair
    rw [← Result.pure_ok.mp hcons]
    by_cases hk : name = k
    · subst hk
      rw [List.lookup_cons_self, List.lookup_cons_self]
      exact Option.Rel.some hl
    · rw [Assoc.lookup_cons_of_ne hk, Assoc.lookup_cons_of_ne hk]
      exact ih hgroups

theorem same_ofGroups_of_holds {g : Option (List (String × Option Longs))} (h : IsGroups v)
    (hread : readGroups coercions v = .ok g) : v.Same (ofGroups (g.getD [])) := by
  obtain ⟨fields, rfl⟩ := Json.shape_eq_obj.mp h.1
  obtain ⟨groups, hgroups, rfl⟩ := map_ok_iff.mp hread
  refine same_obj_iff.mpr fun k ↦ ?_
  have hlookup : (groups.map fun group ↦ (group.1, (group.2.map ofLongs).getD .null)).lookup k
      = (groups.lookup k).map fun l ↦ (l.map ofLongs).getD .null := by
    clear hgroups hread
    induction groups with
    | nil => rfl
    | cons group groups ih =>
      obtain ⟨name, l⟩ := group
      by_cases hk : name = k
      · subst hk
        rw [List.map_cons, List.lookup_cons_self, List.lookup_cons_self]
        rfl
      · rw [List.map_cons, Assoc.lookup_cons_of_ne hk, ih, Assoc.lookup_cons_of_ne hk]
  change Option.Rel Json.Same _
    ((groups.map fun group ↦ (group.1, (group.2.map ofLongs).getD .null)).lookup k)
  rw [hlookup]
  have hrel := lookup_readGroups hgroups k
  have hvalue := h.2 k
  change ∀ w, fields.lookup k = some w → _ at hvalue
  generalize fields.lookup k = x at hrel hvalue
  generalize groups.lookup k = l at hrel
  cases hrel with
  | none => exact Option.Rel.none
  | some hreadx =>
    refine Option.Rel.some ?_
    rcases hvalue _ rfl with rfl | hlongs
    · rw [← Result.pure_ok.mp hreadx]
      exact Json.Same.refl _
    · obtain ⟨longs, rfl, hsame⟩ := ofLongs_of_holds hlongs hreadx
      rw [← hsame]
      exact Json.Same.refl _

theorem isNumber_ofNumber (n : Option ℤ) : IsNumber (ofNumber n) := by
  rcases n with _ | n
  · exact Or.inl rfl
  · exact Or.inr ⟨n, rfl⟩

theorem isText_ofText (text : Option String) : IsText (ofText text) := by
  rcases text with _ | text
  · exact Or.inl rfl
  · exact Or.inr ⟨text, rfl⟩

theorem isLongs_ofLongs (l : Longs) : IsLongs (ofLongs l) := by
  refine ⟨⟨_, rfl⟩, fun i w hw ↦ ?_⟩
  change (l.map ofNumber)[i]? = some w at hw
  obtain ⟨n, -, rfl⟩ := List.mem_map.mp (List.mem_of_getElem? hw)
  exact isNumber_ofNumber n

theorem isGroups_ofGroups (groups : List (String × Option Longs)) : IsGroups (ofGroups groups) := by
  refine ⟨rfl, fun k w hw ↦ ?_⟩
  obtain ⟨group, -, hgroup⟩ := List.mem_map.mp (Assoc.mem_of_lookup hw)
  obtain ⟨-, rfl⟩ := Prod.mk.inj hgroup
  rcases group.2 with _ | l
  · exact Or.inl rfl
  · exact Or.inr (isLongs_ofLongs l)

end Values

/-! ## What is kept -/

/-- A field of a stored document as the servers restore it. -/
def restoredField (library : JsonLibrary) (index : Index) (id k : String) : Option Json := do
  let doc ← restoreDocument library (← index.lookup id)
  doc.child (.key k)

/-- The fields of a document that an operation does not set are as they were when the servers
restore it. -/
def Unchanged (library : JsonLibrary) (op : Rewrite) (id : String) (before after : Index) : Prop :=
  ∀ k v, restoredField library before id k = some v → op.setsField k = false →
    ∃ w, restoredField library after id k = some w ∧ v.Same w

/-! ## Stored documents -/

/-- A document that the servers have stored: its parts are encoded, and what was written of them can
be read, the items in both languages. -/
structure StoredAs (nlohmann jackson : JsonLibrary) (doc source : Fields) : Prop where
  encoded : EncodedFrom nlohmann doc source
  nodup : (source.map Prod.fst).Nodup
  parts_object : ∀ q ∈ parts, ∀ part, doc.lookup q.1 = some part → part.isObject
  encoded_free : ∀ q ∈ parts, doc.lookup q.2 = none
  reads : ∀ q ∈ parts, ∀ part, doc.lookup q.1 = some part → ReadsBack nlohmann nlohmann part
  reads_items : ∀ items, doc.lookup "items" = some items → ReadsBack nlohmann jackson items

/-- The number of the canvas that the services read of a stored document. -/
def storedId (es : Elasticsearch) (source : Fields) : Option ℤ :=
  match lastValue .canvasId source with
  | none => none
  | some .null => none
  | some (.int n) => some n
  | some v => (es.coercions.number v).toOption.join

/-- The password that the services read of a stored document. -/
def storedPassword (es : Elasticsearch) (source : Fields) : Option String :=
  match lastValue .canvasPasswordHash source with
  | none => none
  | some .null => none
  | some (.str text) => some text
  | some v => (es.coercions.text v).toOption

/-- A password that can be saved: it is blank, a hash, or not too long to be hashed. -/
def Hashable (es : Elasticsearch) (password : Option String) : Prop :=
  ∀ text, given password = some text → isHash text = true ∨ (es.bcrypt text).isSome

namespace Rewrite

/-- An operation comes to save a document with a password. -/
def Saves (es : Elasticsearch) : Rewrite → Option String → Prop
  | update _ _ request, stored =>
    match request.canvasPassword with
    | none => Hashable es stored
    | some password => password = "null" ∨ Hashable es (some password)
  | migrate, stored =>
    ∃ text, given stored = some text ∧ isHash text = false ∧ (es.bcrypt text).isSome

/-- The items that an operation writes: those of the request, or those that are stored, as they are
read. -/
def WritesItems (nlohmann jackson : JsonLibrary) (doc items : Fields) (op : Rewrite) : Prop :=
  match op with
  | update _ _ { items := some given, .. } => given = items
  | _ =>
    match doc.lookup "items" with
    | none => items = []
    | some part => jackson.parse (nlohmann.dump part) = some (.obj items)

/-- An operation saves something over a stored document: every field has a value that its property
accepts, the document is that of the canvas, and the password can be saved. -/
structure Overwrites (es : Elasticsearch) (op : Rewrite) (canvasId : ℤ) (source : Fields) : Prop
    where
  accepts : ∀ k v property, source.lookup k = some v → properties.lookup k = some property →
    Accepts es.coercions v property
  canvasId : storedId es source = some canvasId
  saves : op.Saves es (storedPassword es source)

/-- The class has every field of a document that an operation does not set: it writes the name, the
value is of the type of the property, and no other name of the property has another value. -/
def Knows (op : Rewrite) (doc : Fields) : Prop :=
  ∀ k v, doc.lookup k = some v → op.setsField k = false →
    ∃ property, writtenProperties.lookup k = some property ∧ Holds v property ∧
      ∀ k' v', doc.lookup k' = some v' → properties.lookup k' = some property → v'.Same v

end Rewrite

section Stored

variable {nlohmann : JsonLibrary} {es : Elasticsearch} {doc source : Fields}

/-- A document as the servers save it. -/
theorem storedAs_of_safeDocument {hashCanvasPassword : String → Option String}
    {jackson : JsonLibrary} {stored : Fields} (hdoc : Snapshot.Storable doc)
    (hsaved : safeDocument hashCanvasPassword nlohmann doc = some stored)
    (hsource : source.Perm stored)
    (hreads : ∀ q ∈ parts, ∀ part, doc.lookup q.1 = some part → ReadsBack nlohmann nlohmann part)
    (hitems : ∀ items, doc.lookup "items" = some items → ReadsBack nlohmann jackson items) :
    StoredAs nlohmann jackson doc source := by
  obtain ⟨stored', hstored, hfrom, hnodup⟩ := safeDocument_eq hashCanvasPassword nlohmann hdoc
  obtain rfl := Option.some.inj (hstored.symm.trans hsaved)
  exact ⟨hfrom.perm hnodup hsource, (hsource.map Prod.fst).nodup_iff.mpr hnodup,
    hdoc.parts_object, hdoc.encoded_free, hreads, hitems⟩

/-- What the servers restore. -/
theorem StoredAs.restoredField {jackson : JsonLibrary} (h : StoredAs nlohmann jackson doc source)
    {index : Index} {id : String} (hsource : index.lookup id = some (.obj source)) (k : String) :
    Option.Rel Json.Same (doc.lookup k) (restoredField nlohmann index id k) := by
  obtain ⟨restored, hrestored, hsame⟩ :=
    restoreFields_same h.encoded h.parts_object h.reads h.encoded_free
  have hfield : Canvases.restoredField nlohmann index id k = restored.lookup k := by
    rw [Canvases.restoredField, hsource, Option.bind_eq_bind, Option.bind_some,
      restoreDocument_eq hrestored]
    rfl
  rw [hfield]
  exact same_obj_iff.mp hsame k

theorem property_name {k : String} {property : Property}
    (h : properties.lookup k = some property) (hitems : k ≠ "items") :
    k ∉ parts.map Prod.fst ∧ k ∉ parts.map Prod.snd ∧ property ≠ .items := by
  have hall : ∀ entry ∈ properties, entry.1 ≠ "items" → entry.1 ∉ parts.map Prod.fst ∧
      entry.1 ∉ parts.map Prod.snd ∧ entry.2 ≠ .items := by decide
  exact hall _ (Assoc.mem_of_lookup h) hitems

/-- The items that the services decode are what was written. -/
theorem parse_of_decodeItems {writer library : JsonLibrary} {part items : Json}
    (hne : writer.dump part ≠ [])
    (h : decodeItems library (encodeItems writer part) = .ok items) :
    library.parse (writer.dump part) = some items := by
  obtain ⟨raw, hraw, hparse⟩ := Result.bind_ok.mp h
  obtain rfl := Except.ok.inj ((decodeChunks_encodeChunks hne).symm.trans hraw)
  rcases hitems : library.parse (writer.dump part) with _ | items'
  · rw [hitems] at hparse
    cases hparse
  · rw [hitems] at hparse
    dsimp only at hparse
    split_ifs at hparse
    rw [Result.pure_ok.mp hparse]

/-- The fields that the services read: those that are stored, with the items. -/
theorem StoredAs.tree (h : StoredAs nlohmann es.library doc source) : ∃ tree,
    decodeCanvasDocument es.library es.coercions (.obj source) = ofTree es.coercions tree ∧
      (tree.map Prod.fst).Nodup ∧
      (match doc.lookup "items" with
        | none => tree.lookup "items" = none
        | some part => ∃ items, es.library.parse (nlohmann.dump part) = some items ∧
            part.Same items ∧ tree.lookup "items" = some items) ∧
      (∀ k property, properties.lookup k = some property → k ≠ "items" →
        tree.lookup k = source.lookup k) ∧
      ∀ property, property ≠ .items → lastValue property tree = lastValue property source := by
  have hitems : ("items", "items-b64") ∈ parts := by decide
  have hencoded : source.lookup "items-b64" = _ := h.encoded.encoded _ hitems
  rcases hlookup : doc.lookup "items" with _ | part
  · rw [hlookup] at hencoded
    refine ⟨source, ?_, h.nodup, ?_, fun _ _ _ _ ↦ rfl, fun _ _ ↦ rfl⟩
    · rw [decodeCanvasDocument, hencoded]
      rfl
    · exact h.encoded.part _ hitems
  · rw [hlookup] at hencoded
    obtain ⟨items, hdecode, -, hsame⟩ :=
      decodeItems_encodeItems (h.parts_object _ hitems part hlookup) (h.reads_items part hlookup)
    have hparse := parse_of_decodeItems (dump_ne_nil (h.reads_items part hlookup)) hdecode
    refine ⟨Assoc.set "items" items (Assoc.erase "items-b64" source), ?_,
      Assoc.nodup_set (Assoc.nodup_erase h.nodup _) _ _, ?_, fun k property hk hne ↦ ?_,
      fun property hproperty ↦ ?_⟩
    · rw [decodeCanvasDocument, hencoded, Option.map_some]
      dsimp only
      rw [hdecode]
      rfl
    · exact ⟨items, hparse, hsame, Assoc.lookup_set_self ..⟩
    · have hname : ("items-b64" : String) ≠ k := by
        rintro rfl
        exact (property_name hk hne).2.1 (List.mem_map_of_mem hitems)
      rw [Assoc.lookup_set_of_ne (Ne.symm hne), Assoc.lookup_erase_of_ne hname]
    · have hname : properties.lookup "items" = some .items := rfl
      have hencodedName : properties.lookup "items-b64" = none := rfl
      rw [lastValue_set_of_ne (by
          rw [hname]
          exact fun heq ↦ hproperty (Option.some.inj heq).symm),
        lastValue_erase_of_ne (by
          rw [hencodedName]
          exact (Option.some_ne_none _).symm)]

theorem ofNumber_injective {m n : Option ℤ} (h : ofNumber m = ofNumber n) : m = n := by
  rcases m with _ | m
  · rcases n with _ | n
    · rfl
    · cases h
  · rcases n with _ | n
    · cases h
    · exact congrArg some (Json.int.inj h)

theorem ofText_injective {s t : Option String} (h : ofText s = ofText t) : s = t := by
  rcases s with _ | s
  · rcases t with _ | t
    · rfl
    · cases h
  · rcases t with _ | t
    · cases h
    · exact congrArg some (Json.str.inj h)

variable {document : CanvasDocument}

/-- The number of a document that is read. -/
theorem StoredAs.canvasId (h : StoredAs nlohmann es.library doc source)
    (hdecode : decodeCanvasDocument es.library es.coercions (.obj source) = .ok document) :
    document.canvasId = storedId es source := by
  obtain ⟨tree, htree, -, -, -, hlast⟩ := h.tree
  have hget := get_ofTree (htree.symm.trans hdecode) .canvasId
  rw [hlast _ (by decide)] at hget
  rw [storedId]
  rcases hvalue : lastValue .canvasId source with _ | v
  · rw [hvalue] at hget
    exact ofNumber_injective hget
  · rw [hvalue] at hget
    obtain ⟨f, hf, hget⟩ := hget
    obtain ⟨n, hn, hf⟩ := Result.bind_ok.mp hf
    rw [← Result.pure_ok.mp hf] at hget
    rw [show document.canvasId = n from ofNumber_injective hget]
    cases v with
    | null => exact (Result.pure_ok.mp hn).symm
    | int m =>
      rw [readNumber] at hn
      split_ifs at hn
      exact (Result.pure_ok.mp hn).symm
    | _ =>
      change es.coercions.number _ = .ok n at hn
      dsimp only
      rw [hn]
      rcases n with _ | n <;> rfl

/-- The password of a document that is read. -/
theorem StoredAs.password (h : StoredAs nlohmann es.library doc source)
    (hdecode : decodeCanvasDocument es.library es.coercions (.obj source) = .ok document) :
    document.canvasPasswordHash = storedPassword es source := by
  obtain ⟨tree, htree, -, -, -, hlast⟩ := h.tree
  have hget := get_ofTree (htree.symm.trans hdecode) .canvasPasswordHash
  rw [hlast _ (by decide)] at hget
  rw [storedPassword]
  rcases hvalue : lastValue .canvasPasswordHash source with _ | v
  · rw [hvalue] at hget
    exact ofText_injective hget
  · rw [hvalue] at hget
    obtain ⟨f, hf, hget⟩ := hget
    obtain ⟨text, htext, hf⟩ := Result.bind_ok.mp hf
    rw [← Result.pure_ok.mp hf] at hget
    rw [show document.canvasPasswordHash = text from ofText_injective hget]
    cases v with
    | null | str => exact (Result.pure_ok.mp htext).symm
    | _ =>
      change some <$> es.coercions.text _ = .ok text at htext
      obtain ⟨s, hs, rfl⟩ := map_ok_iff.mp htext
      dsimp only
      rw [hs]
      rfl

/-- A stored document is read when every field has a value that is accepted. -/
theorem StoredAs.decode_iff (h : StoredAs nlohmann es.library doc source) :
    (∃ document, decodeCanvasDocument es.library es.coercions (.obj source) = .ok document) ↔
      ∀ k v property, source.lookup k = some v → properties.lookup k = some property →
        Accepts es.coercions v property := by
  have hitems : ("items", "items-b64") ∈ parts := by decide
  obtain ⟨tree, htree, hnodup, hrel, hother, -⟩ := h.tree
  rw [htree, ofTree_ok_iff]
  constructor
  · intro hread k v property hv hk
    have hne : k ≠ "items" := by
      rintro rfl
      rw [h.encoded.part _ hitems] at hv
      cases hv
    rw [← hother k property hk hne] at hv
    have hfield := hread _ (Assoc.mem_of_lookup hv)
    rw [readField, hk] at hfield
    exact read_ok_iff.mp hfield
  · intro haccepts field hfield
    have hv := Assoc.lookup_of_mem hnodup hfield
    rw [readField]
    split
    · exact ⟨id, rfl⟩
    · next property hk =>
      refine read_ok_iff.mpr ?_
      by_cases hne : field.1 = "items"
      · rw [hne] at hk hv
        obtain rfl := Option.some.inj (hk : some Property.items = some property)
        rcases hdoc : doc.lookup "items" with _ | part
        · rw [hdoc, hv] at hrel
          cases hrel
        · rw [hdoc] at hrel
          obtain ⟨items, -, hsame, htreeItems⟩ := hrel
          obtain rfl := Option.some.inj (htreeItems.symm.trans hv)
          exact Or.inr (hsame.shape_eq.symm.trans
            (isObject_iff.mp (h.parts_object _ hitems part hdoc)))
      · exact haccepts _ _ _ ((hother _ _ hk hne).symm.trans hv) hk

end Stored

/-! ## What is saved -/

/-- The value under a field that a save writes for a document that was read. -/
def Property.saved (es : Elasticsearch) (doc : CanvasDocument) : Property → Result Json
  | .canvasPasswordHash => ofText <$> normalizeStoredHash es.bcrypt doc.canvasPasswordHash
  | property => pure (property.get doc)

section Saved

variable {es : Elasticsearch} {op : Rewrite} {document saved : CanvasDocument}

theorem saved_congr {document' : CanvasDocument} {property : Property}
    (h : property.get document = property.get document') :
    Property.saved es document property = Property.saved es document' property := by
  cases property with
  | canvasPasswordHash =>
    have hpassword : document.canvasPasswordHash = document'.canvasPasswordHash :=
      ofText_injective h
    rw [Property.saved, Property.saved, hpassword]
  | _ => exact congrArg _ h

/-- Only hashes are saved as passwords. -/
theorem isHash_of_normalizeStoredHash {bcrypt : String → Option String}
    (hbcrypt : ∀ text hash, bcrypt text = some hash → isHash hash = true) {stored : Option String}
    {hash : Option String} (h : normalizeStoredHash bcrypt stored = .ok hash) :
    hash = none ∨ ∃ text, hash = some text ∧ isHash text = true := by
  rw [normalizeStoredHash] at h
  split at h
  · exact Or.inl (Result.pure_ok.mp h).symm
  · next text htext =>
    split_ifs at h with hhash
    · exact Or.inr ⟨text, (Result.pure_ok.mp h).symm, hhash⟩
    · rw [hashForStorage] at h
      split at h
      · exact Or.inl (Result.pure_ok.mp h).symm
      · next text' htext' =>
        split at h
        · next hash' hhash' =>
          exact Or.inr ⟨hash', (Result.pure_ok.mp h).symm, hbcrypt _ _ hhash'⟩
        · cases h

/-- A property that holds a value is saved with it. -/
theorem saved_of_holds {coercions : Coercions} {v : Json} {property : Property}
    {f : CanvasDocument → CanvasDocument} (hholds : Holds v property)
    (hread : property.read coercions v = .ok f) (document : CanvasDocument) :
    ∃ w, Property.saved es (f document) property = .ok w ∧ v.Same w := by
  cases property with
  | canvasName | description | initGroup =>
    obtain ⟨text, htext, hf⟩ := Result.bind_ok.mp hread
    rw [← Result.pure_ok.mp hf]
    refine ⟨v, congrArg Except.ok ?_, Json.Same.refl v⟩
    exact ofText_of_holds hholds htext
  | canvasId | adminUserId =>
    obtain ⟨n, hn, hf⟩ := Result.bind_ok.mp hread
    rw [← Result.pure_ok.mp hf]
    refine ⟨v, congrArg Except.ok ?_, Json.Same.refl v⟩
    exact ofNumber_of_holds hholds hn
  | visibility =>
    rcases hholds with rfl | rfl
    · rw [← (Result.pure_ok.mp hread : CanvasDocument.setVisibility (some "public") = f)]
      exact ⟨_, rfl, Json.Same.refl _⟩
    · rw [← (Result.pure_ok.mp hread : CanvasDocument.setVisibility (some "private") = f)]
      exact ⟨_, rfl, Json.Same.refl _⟩
  | canvasPasswordHash =>
    obtain ⟨text, htext, hf⟩ := Result.bind_ok.mp hread
    rw [← Result.pure_ok.mp hf, Property.saved]
    rcases hholds with rfl | ⟨hash, rfl, hhash⟩
    · rw [← Result.pure_ok.mp htext]
      exact ⟨.null, rfl, Json.Same.refl _⟩
    · rw [← Result.pure_ok.mp htext]
      dsimp only
      rw [normalizeStoredHash_of_isHash hhash]
      exact ⟨.str hash, rfl, Json.Same.refl _⟩
  | people =>
    obtain ⟨l, hl, hf⟩ := Result.bind_ok.mp hread
    rw [← Result.pure_ok.mp hf]
    obtain ⟨longs, rfl, rfl⟩ := ofLongs_of_holds hholds hl
    exact ⟨_, rfl, Json.Same.refl _⟩
  | innerGroup =>
    obtain ⟨groups, hgroups, hf⟩ := Result.bind_ok.mp hread
    rw [← Result.pure_ok.mp hf]
    exact ⟨_, rfl, same_ofGroups_of_holds hholds hgroups⟩
  | items =>
    obtain ⟨items, hitems, hf⟩ := Result.bind_ok.mp hread
    rw [← Result.pure_ok.mp hf]
    obtain ⟨fields, rfl⟩ := Json.shape_eq_obj.mp hholds
    rw [← Result.pure_ok.mp hitems]
    exact ⟨_, rfl, Json.Same.refl _⟩
  | settingsRevision =>
    obtain ⟨n, hn, hf⟩ := Result.bind_ok.mp hread
    rw [← Result.pure_ok.mp hf]
    obtain ⟨m, rfl⟩ := hholds
    rw [readNumber] at hn
    split_ifs at hn
    rw [← Result.pure_ok.mp hn]
    exact ⟨_, rfl, Json.Same.refl _⟩

/-- What is saved of a property is a value that it holds. -/
theorem holds_saved (hbcrypt : ∀ text hash, es.bcrypt text = some hash → isHash hash = true)
    {property : Property} {w : Json} (h : Property.saved es document property = .ok w) :
    Holds w property := by
  cases property with
  | canvasName | description | initGroup =>
    rw [← Result.pure_ok.mp h]
    exact isText_ofText _
  | canvasId | adminUserId =>
    rw [← Result.pure_ok.mp h]
    exact isNumber_ofNumber _
  | visibility =>
    rw [← Result.pure_ok.mp h, Property.get, CanvasDocument.getVisibility]
    split_ifs
    · exact Or.inl rfl
    · exact Or.inr rfl
  | canvasPasswordHash =>
    obtain ⟨hash, hhash, rfl⟩ := map_ok_iff.mp h
    rcases isHash_of_normalizeStoredHash hbcrypt hhash with rfl | ⟨text, rfl, htext⟩
    · exact Or.inl rfl
    · exact Or.inr ⟨text, rfl, htext⟩
  | people =>
    rw [← Result.pure_ok.mp h]
    exact isLongs_ofLongs _
  | innerGroup =>
    rw [← Result.pure_ok.mp h]
    exact isGroups_ofGroups _
  | items =>
    rw [← Result.pure_ok.mp h]
    rfl
  | settingsRevision =>
    rw [← Result.pure_ok.mp h]
    exact ⟨_, rfl⟩

theorem normalized_ok_iff : (∃ saved, normalized es document = .ok saved) ↔
    Hashable es document.canvasPasswordHash := by
  have hnormalized : (∃ saved, normalized es document = .ok saved) ↔
      ∃ hash, normalizeStoredHash es.bcrypt document.canvasPasswordHash = .ok hash := by
    simp only [normalized, Result.bind_ok, Result.pure_ok]
    exact exists_ok_iff
  rw [hnormalized, normalizeStoredHash, Hashable]
  rcases hgiven : given document.canvasPasswordHash with _ | text
  · refine ⟨fun _ text htext ↦ ?_, fun _ ↦ ⟨none, rfl⟩⟩
    cases htext
  · have hself : given (some text) = some text := by
      rw [given, Option.filter_eq_some_iff] at hgiven
      rw [given, Option.filter_eq_some_iff]
      exact ⟨rfl, hgiven.2⟩
    dsimp only
    rw [hashForStorage, hself]
    dsimp only
    constructor
    · rintro ⟨hash, hhash⟩ text' htext'
      obtain rfl := Option.some.inj htext'
      by_cases hshape : isHash text = true
      · exact Or.inl hshape
      · rw [if_neg hshape] at hhash
        rcases hbcrypt : es.bcrypt text with _ | hash'
        · rw [hbcrypt] at hhash
          cases hhash
        · exact Or.inr rfl
    · intro h
      by_cases hshape : isHash text = true
      · exact ⟨some text, if_pos hshape⟩
      · obtain ⟨hash, hhash⟩ := Option.isSome_iff_exists.mp ((h text rfl).resolve_left hshape)
        rw [if_neg hshape, hhash]
        exact ⟨some hash, rfl⟩

/-- An operation comes to save a document exactly when the password can be saved. -/
theorem written_iff (hbcrypt : ∀ text hash, es.bcrypt text = some hash → isHash hash = true) :
    (∃ saved, op.written es document = .ok (some saved)) ↔
      op.Saves es document.canvasPasswordHash := by
  have hsome {x : Result CanvasDocument} :
      (∃ saved, some <$> x = .ok (some saved)) ↔ ∃ saved, x = .ok saved := by
    simp only [map_ok_iff, Option.some.injEq, exists_eq_right]
  rcases op with ⟨fallbackCanvasName, ownerId, request⟩ | _
  · rw [Rewrite.written, hsome, normalized_ok_iff, applyRequest, Rewrite.Saves]
    rcases request.canvasPassword with _ | password
    · exact Iff.rfl
    · by_cases hnull : password = "null"
      · simp [hnull, Hashable, given]
      · simp [hnull]
  · rw [Rewrite.Saves]
    simp only [Rewrite.written]
    rcases hlegacy : legacyPassword document with _ | password
    · refine iff_of_false (fun h ↦ ?_) ?_
      · obtain ⟨_, h⟩ := h
        cases h
      rintro ⟨text, htext, hshape, -⟩
      rw [legacyPassword, htext, Option.filter_some, hshape] at hlegacy
      cases hlegacy
    · rw [legacyPassword, Option.filter_eq_some_iff] at hlegacy
      obtain ⟨htext, hshape⟩ := hlegacy
      have hself : given (some password) = some password := by
        rw [given, Option.filter_eq_some_iff] at htext
        rw [given, Option.filter_eq_some_iff]
        exact ⟨rfl, htext.2⟩
      dsimp only
      rw [hashForStorage, hself]
      dsimp only
      -- a text too long for bcrypt is not saved
      rcases hhash : es.bcrypt password with _ | hash
      · refine iff_of_false (fun h ↦ ?_) ?_
        · obtain ⟨_, h⟩ := h
          cases h
        rintro ⟨text, htext', -, hbcrypt'⟩
        obtain rfl := Option.some.inj (htext.symm.trans htext')
        rw [hhash] at hbcrypt'
        cases hbcrypt'
      · refine iff_of_true ?_ ⟨password, htext, by simpa using hshape, by rw [hhash]; rfl⟩
        refine hsome.mpr (normalized_ok_iff.mpr fun text htext' ↦ Or.inl ?_)
        have hhash' := hbcrypt _ _ hhash
        dsimp only at htext'
        rw [given_of_not_isBlank (not_isBlank_of_isHash hhash')] at htext'
        rwa [← Option.some.inj htext']

end Saved

section Kept

variable {es : Elasticsearch} {op : Rewrite} {doc saved : CanvasDocument}

theorem properties_of_written {k : String} {property : Property}
    (h : writtenProperties.lookup k = some property) : properties.lookup k = some property := by
  have hall : ∀ entry ∈ writtenProperties, properties.lookup entry.1 = some entry.2 := by decide
  exact hall _ (Assoc.mem_of_lookup h)

theorem toTree_lookup (doc : CanvasDocument) (k : String) :
    (toTree doc).lookup k = (writtenProperties.lookup k).map (Property.get doc) := by
  rw [toTree]
  generalize writtenProperties = l
  induction l with
  | nil => rfl
  | cons entry l ih =>
    obtain ⟨name, property⟩ := entry
    by_cases hk : name = k
    · subst hk
      rw [List.map_cons, List.lookup_cons_self, List.lookup_cons_self, Option.map_some]
    · rw [List.map_cons, Assoc.lookup_cons_of_ne hk, Assoc.lookup_cons_of_ne hk, ih]

/-- What a request does not set stays. -/
theorem applyRequest_get {request : UpdateCanvasDocumentRequest} {property : Property}
    (h : request.sets property = false) :
    property.get (applyRequest request doc) = property.get doc := by
  rcases property with _ | _ | _ | _ | _ | _ | _ | _ | _ | _ | _
  all_goals first | rfl | skip
  all_goals
    simp only [UpdateCanvasDocumentRequest.sets, Option.isSome_eq_false_iff,
      Option.isNone_iff_eq_none] at h
    simp [applyRequest, Property.get, h]

theorem normalized_get {doc' : CanvasDocument} (h : normalized es doc' = .ok saved)
    {property : Property} (hget : property.get doc' = property.get doc)
    (hpassword : property = .canvasPasswordHash →
      doc'.canvasPasswordHash = doc.canvasPasswordHash) :
    Property.saved es doc property = .ok (property.get saved) := by
  obtain ⟨hash, hhash, hdoc⟩ := Result.bind_ok.mp h
  rw [← Result.pure_ok.mp hdoc]
  by_cases hproperty : property = .canvasPasswordHash
  · subst hproperty
    rw [hpassword rfl] at hhash
    rw [Property.saved, hhash]
    rfl
  · have hplain : Property.saved es doc property = .ok (property.get doc) := by
      cases property <;> first | rfl | exact absurd rfl hproperty
    rw [hplain, ← hget]
    cases property <;> first | rfl | exact absurd rfl hproperty

/-- What is written is a document with the password as it is stored. -/
theorem written_eq (hwritten : op.written es doc = .ok (some saved)) :
    ∃ doc', normalized es doc' = .ok saved ∧ doc'.canvasId = doc.canvasId ∧
      ∀ property, op.sets property = false → property.get doc' = property.get doc ∧
        (property = .canvasPasswordHash → doc'.canvasPasswordHash = doc.canvasPasswordHash) := by
  rcases op with ⟨fallbackCanvasName, ownerId, request⟩ | _
  · rw [Rewrite.written] at hwritten
    obtain ⟨saved', hsaved, hsome⟩ := Result.bind_ok.mp hwritten
    obtain rfl := Option.some.inj (Result.pure_ok.mp hsome)
    refine ⟨applyRequest request doc, hsaved, rfl, fun property hsets ↦
      ⟨applyRequest_get hsets, ?_⟩⟩
    rintro rfl
    have hnone : request.canvasPassword = none := by
      simpa [Rewrite.sets, UpdateCanvasDocumentRequest.sets] using hsets
    rw [applyRequest, hnone]
  · simp only [Rewrite.written] at hwritten
    rcases hlegacy : legacyPassword doc with _ | password
    · rw [hlegacy] at hwritten
      nomatch hwritten
    · rw [hlegacy] at hwritten
      obtain ⟨hash, -, hsome⟩ := Result.bind_ok.mp hwritten
      obtain ⟨saved', hsaved, hsome⟩ := Result.bind_ok.mp hsome
      obtain rfl := Option.some.inj (Result.pure_ok.mp hsome)
      refine ⟨{ doc with canvasPasswordHash := hash }, hsaved, rfl, fun property hsets ↦ ?_⟩
      have hne : property ≠ .canvasPasswordHash := by simpa [Rewrite.sets] using hsets
      refine ⟨?_, fun h ↦ absurd h hne⟩
      cases property <;> first | rfl | exact absurd rfl hne

/-- What is saved of the properties that an operation does not set. -/
theorem saved_get (hwritten : op.written es doc = .ok (some saved)) (property : Property)
    (hsets : op.sets property = false) :
    Property.saved es doc property = .ok (property.get saved) := by
  obtain ⟨doc', hsaved, -, hsame⟩ := written_eq hwritten
  exact normalized_get hsaved (hsame property hsets).1 (hsame property hsets).2

theorem written_documentId (hwritten : op.written es doc = .ok (some saved)) :
    documentId saved = documentId doc := by
  obtain ⟨doc', hsaved, hid, -⟩ := written_eq hwritten
  obtain ⟨hash, -, hdoc⟩ := Result.bind_ok.mp hsaved
  rw [← Result.pure_ok.mp hdoc, documentId, documentId, hid]

/-- What is written, as the servers restore it. -/
theorem restoredField_written (es : Elasticsearch) {nlohmann : JsonLibrary} {index : Index}
    {id : String}
    (hreads : ReadsBack es.library nlohmann (.obj saved.items))
    (hlookup : index.lookup id = some (.obj (encodeCanvasDocument es.library saved))) (k : String) :
    Option.Rel Json.Same ((writtenProperties.lookup k).map (Property.get saved))
      (restoredField nlohmann index id k) := by
  obtain ⟨restored, hrestored, htree⟩ :=
    restoreFields_encodeCanvasDocument nlohmann es.library saved hreads (.refl _)
  have hfield : restoredField nlohmann index id k = restored.lookup k := by
    rw [restoredField, hlookup, Option.bind_eq_bind, Option.bind_some,
      restoreDocument_eq hrestored]
    rfl
  rw [hfield, ← toTree_lookup]
  exact same_obj_iff.mp htree k

end Kept

section Main

variable {nlohmann : JsonLibrary} {es : Elasticsearch} {doc source : Fields} {op : Rewrite}
  {canvasId : ℤ} {document saved : CanvasDocument}

theorem documentId_eq_iff : documentId document = toString canvasId ↔
    document.canvasId = some canvasId := by
  rw [documentId]
  rcases document.canvasId with _ | id
  · refine iff_of_false (fun h ↦ ?_) (by simp)
    have hmem : 'u' ∈ (toString canvasId).toList := by
      rw [← h]
      decide
    rcases canvasId with n | n
    · exact absurd (isDigit_of_mem_repr hmem) (by decide)
    · rw [toString_negSucc, String.toList_append] at hmem
      rcases List.mem_append.mp hmem with hmem | hmem
      · exact absurd hmem (by decide)
      · exact absurd (isDigit_of_mem_repr hmem) (by decide)
  · simp only [Option.some.injEq]
    exact ⟨intText_injective, fun h ↦ by rw [h]⟩

/-- An operation saves something over a document that was stored, if its calls are answered. -/
theorem overwrites_iff (h : StoredAs nlohmann es.library doc source)
    (hbcrypt : ∀ text hash, es.bcrypt text = some hash → isHash hash = true) :
    (∃ document saved,
      decodeCanvasDocument es.library es.coercions (.obj source) = .ok document ∧
        op.written es document = .ok (some saved) ∧ documentId document = toString canvasId) ↔
      op.Overwrites es canvasId source := by
  constructor
  · rintro ⟨document, saved, hdecode, hwritten, hid⟩
    refine ⟨h.decode_iff.mp ⟨document, hdecode⟩, ?_, ?_⟩
    · rw [← h.canvasId hdecode]
      exact documentId_eq_iff.mp hid
    · rw [← h.password hdecode]
      exact (written_iff hbcrypt).mp ⟨saved, hwritten⟩
  · rintro ⟨haccepts, hid, hsaves⟩
    obtain ⟨document, hdecode⟩ := h.decode_iff.mpr haccepts
    rw [← h.canvasId hdecode] at hid
    rw [← h.password hdecode] at hsaves
    obtain ⟨saved, hwritten⟩ := (written_iff hbcrypt).mpr hsaves
    exact ⟨document, saved, hdecode, hwritten, documentId_eq_iff.mpr hid⟩

/-- What is saved of a property that the stored document has: what becomes of the value under one of
its names. -/
theorem StoredAs.saved_value (h : StoredAs nlohmann es.library doc source)
    (hdecode : decodeCanvasDocument es.library es.coercions (.obj source) = .ok document)
    {k : String} {v : Json} {property : Property} (hv : doc.lookup k = some v)
    (hk : properties.lookup k = some property) : ∃ k' v' u f, doc.lookup k' = some v' ∧
      properties.lookup k' = some property ∧ v'.Same u ∧ property.read es.coercions u = .ok f ∧
        Property.saved es document property = Property.saved es (f {}) property := by
  have hitems : ("items", "items-b64") ∈ parts := by decide
  obtain ⟨tree, htree, hnodup, hrel, hother, -⟩ := h.tree
  have hfields {k : String} {property : Property} (hk : properties.lookup k = some property) :
      Option.Rel Json.Same (doc.lookup k) (tree.lookup k) := by
    by_cases hne : k = "items"
    · subst hne
      rcases hdoc : doc.lookup "items" with _ | part
      · rw [hdoc] at hrel
        rw [hrel]
        exact Option.Rel.none
      · rw [hdoc] at hrel
        obtain ⟨items, -, hsame, htreeItems⟩ := hrel
        rw [htreeItems]
        exact Option.Rel.some hsame
    · obtain ⟨hpart, hencoded, -⟩ := property_name hk hne
      rw [hother k property hk hne, h.encoded.other k hpart hencoded]
      exact Json.rel_same_refl _
  have hrelk := hfields hk
  rw [hv] at hrelk
  obtain ⟨w, hw, -⟩ := Json.rel_some_left hrelk
  obtain ⟨u, hlast⟩ := Option.isSome_iff_exists.mp (lastValue_isSome (Assoc.mem_of_lookup hw) hk)
  obtain ⟨field, hfield, hname, rfl⟩ := lastValue_mem hlast
  have hrel' := hfields hname
  rw [Assoc.lookup_of_mem hnodup hfield] at hrel'
  generalize hdoc : doc.lookup field.1 = x at hrel'
  cases hrel' with
  | some hsame =>
    have hget := get_ofTree (htree.symm.trans hdecode) property
    rw [hlast] at hget
    obtain ⟨f, hf, hget⟩ := hget
    exact ⟨field.1, _, field.2, f, hdoc, hname, hsame, hf, saved_congr hget⟩

/-- The items that are saved are those of the request, or those that are stored. -/
theorem StoredAs.writesItems (h : StoredAs nlohmann es.library doc source)
    (hdecode : decodeCanvasDocument es.library es.coercions (.obj source) = .ok document)
    (hwritten : op.written es document = .ok (some saved)) :
    op.WritesItems nlohmann es.library doc saved.items := by
  have hpair : ("items", "items-b64") ∈ parts := by decide
  obtain ⟨tree, htree, hnodup, hrel, -, -⟩ := h.tree
  have hobj (v : Json) (hv : tree.lookup "items" = some v) : v.isObject := by
    rcases hdoc : doc.lookup "items" with _ | part
    · rw [hdoc, hv] at hrel
      cases hrel
    · rw [hdoc] at hrel
      obtain ⟨items, -, hsame, htreeItems⟩ := hrel
      obtain rfl := Option.some.inj (htreeItems.symm.trans hv)
      exact isObject_iff.mpr
        (hsame.shape_eq.symm.trans (isObject_iff.mp (h.parts_object _ hpair part hdoc)))
  have hitems := items_of_ofTree hnodup (htree.symm.trans hdecode) hobj
  have hstored (hsets : op.sets .items = false) :
      match doc.lookup "items" with
      | none => saved.items = []
      | some part => es.library.parse (nlohmann.dump part) = some (.obj saved.items) := by
    have hsame : Json.obj document.items = .obj saved.items :=
      Except.ok.inj (saved_get hwritten .items hsets)
    rcases hdoc : doc.lookup "items" with _ | part
    · rw [hdoc] at hrel
      rw [hrel] at hitems
      exact Json.obj.inj (hsame.symm.trans hitems)
    · rw [hdoc] at hrel
      obtain ⟨items, hparse, -, htreeItems⟩ := hrel
      rw [htreeItems] at hitems
      exact hparse.trans (congrArg some (hitems.symm.trans hsame))
  rcases op with ⟨fallbackCanvasName, ownerId, ⟨canvasPassword, peoples, innerGroup, items,
    initGroup⟩⟩ | _
  · rcases items with _ | given
    · exact hstored rfl
    · obtain ⟨saved', hsaved, hsome⟩ := map_ok_iff.mp hwritten
      obtain rfl := Option.some.inj hsome
      obtain ⟨hash, -, hdoc⟩ := Result.bind_ok.mp hsaved
      rw [← Result.pure_ok.mp hdoc]
      rfl
  · exact hstored rfl

/-- **Saving back.** An operation keeps what it does not set of a document that the servers stored,
however its calls end, exactly when it saves nothing over the document or the class knows every
such field. -/
theorem rewrite_unchanged_iff (h : StoredAs nlohmann es.library doc source) (op : Rewrite)
    {canvasId : ℤ} {index : Index} (hsource : index.lookup (toString canvasId) = some (.obj source))
    (hbcrypt : ∀ text hash, es.bcrypt text = some hash → isHash hash = true)
    (hreads : ∀ items, op.WritesItems nlohmann es.library doc items →
      ReadsBack es.library nlohmann (.obj items)) :
    (∀ replies, Unchanged nlohmann op (toString canvasId) index
        (op.run es replies canvasId index).2) ↔
      (op.Overwrites es canvasId source → op.Knows doc) := by
  have hunset {k : String} {property : Property} (hk : properties.lookup k = some property) :
      op.setsField k = op.sets property := by
    rw [Rewrite.setsField, hk]
    rfl
  have hbefore (k : String) := h.restoredField hsource k
  constructor
  · intro hkept hover
    obtain ⟨document, saved, hdecode, hwritten, hid⟩ := (overwrites_iff h hbcrypt).mpr hover
    have hlookup : (op.run es (fun _ ↦ .answered) canvasId index).2.lookup (toString canvasId)
        = some (.obj (encodeCanvasDocument es.library saved)) := by
      rw [run_answered hsource hdecode hwritten, written_documentId hwritten, hid,
        Assoc.lookup_set_self]
    -- every field that is not set is saved with its value
    have hsaved : ∀ k v, doc.lookup k = some v → op.setsField k = false →
        ∃ property, writtenProperties.lookup k = some property ∧
          v.Same (property.get saved) := by
      intro k v hv hsets
      have hrel := hbefore k
      rw [hv] at hrel
      obtain ⟨u, hu, hvu⟩ := Json.rel_some_left hrel
      obtain ⟨w, hw, huw⟩ := hkept (fun _ ↦ .answered) k u hu hsets
      have hafter := restoredField_written es (hreads _ (h.writesItems hdecode hwritten)) hlookup k
      rw [hw] at hafter
      rcases hproperty : writtenProperties.lookup k with _ | property
      · rw [hproperty] at hafter
        cases hafter
      · rw [hproperty, Option.map_some] at hafter
        obtain ⟨w', hw', hsame⟩ := Json.rel_some_left hafter
        obtain rfl := Option.some.inj hw'
        exact ⟨property, rfl, (hvu.trans huw).trans hsame.symm⟩
    intro k v hv hsets
    obtain ⟨property, hproperty, hsame⟩ := hsaved k v hv hsets
    have hname := properties_of_written hproperty
    rw [hunset hname] at hsets
    refine ⟨property, hproperty, ?_, fun k' v' hv' hk' ↦ ?_⟩
    · exact (holds_saved hbcrypt (saved_get hwritten property hsets)).same hsame.symm
    · obtain ⟨property', hproperty', hsame'⟩ := hsaved k' v' hv' (by rw [hunset hk', hsets])
      obtain rfl := Option.some.inj (hk'.symm.trans (properties_of_written hproperty'))
      exact hsame'.trans hsame.symm
  · intro hknows replies k u hu hsets
    rcases run_index es op replies hsource with
      hsame | ⟨document, saved, hdecode, hwritten, hset⟩
    · exact ⟨u, by rw [hsame, hu], Json.Same.refl u⟩
    rw [written_documentId hwritten] at hset
    by_cases hid : documentId document = toString canvasId
    · have hover := (overwrites_iff h hbcrypt).mp ⟨document, saved, hdecode, hwritten, hid⟩
      have hrel := hbefore k
      rw [hu] at hrel
      generalize hv : doc.lookup k = x at hrel
      cases hrel with
      | @some v _ hvu =>
        obtain ⟨property, hproperty, hholds, hnames⟩ := hknows hover k v hv hsets
        have hname := properties_of_written hproperty
        rw [hunset hname] at hsets
        -- the value that is read is under some name, and the same
        obtain ⟨k', v', w, f, hv', hk', hvw, hf, hvalue⟩ := h.saved_value hdecode hv hname
        have hsame := (hnames k' v' hv' hk').symm.trans hvw
        obtain ⟨w', hw', hww'⟩ := @saved_of_holds es _ _ _ _ (hholds.same hsame) hf {}
        have hget : w' = property.get saved := Except.ok.inj
          (hw'.symm.trans (hvalue.symm.trans (saved_get hwritten property hsets)))
        subst hget
        have hlookup : (op.run es replies canvasId index).2.lookup (toString canvasId)
            = some (.obj (encodeCanvasDocument es.library saved)) := by
          rw [hset, hid, Assoc.lookup_set_self]
        have hafter :=
          restoredField_written es (hreads _ (h.writesItems hdecode hwritten)) hlookup k
        rw [hproperty, Option.map_some] at hafter
        obtain ⟨y, hy, hsavedSame⟩ := Json.rel_some_left hafter
        exact ⟨y, hy, ((hvu.symm.trans hsame).trans hww').trans hsavedSame⟩
    · refine ⟨u, ?_, Json.Same.refl u⟩
      rw [restoredField, hset, Assoc.lookup_set_of_ne hid]
      exact hu

end Main

/-! ### An example -/

def ledger : Json := .obj [("revision", .int 17), ("receipts", .obj [])]

/-- A library that knows the empty object and a ledger. -/
def ledgerLibrary : JsonLibrary where
  dump v := if v = ledger then "L".toUTF8.toList else emptyLibrary.dump v
  parse raw := if raw = "L".toUTF8.toList then some ledger else emptyLibrary.parse raw
  parse_nil := by decide +kernel

def ledgerElasticsearch : Elasticsearch := { plainElasticsearch with library := ledgerLibrary }

/-- A canvas with a ledger, as the servers store it. -/
def withLedger : Index :=
  ((safeDocument (fun _ ↦ none) ledgerLibrary
    [("__broker_sync", ledger), ("canvas-id", .int 7), ("items", .obj [])]).map
      fun stored ↦ ("7", .obj stored)).toList

/-- A request that sets the initial group. -/
def initGroupRequest : Rewrite := .update none none { initGroup := some "default" }

theorem ledger_is_lost : ¬∀ replies, Unchanged ledgerLibrary initGroupRequest "7" withLedger
    (initGroupRequest.run ledgerElasticsearch replies 7 withLedger).2 := by
  intro h
  obtain ⟨w, hw, -⟩ :=
    h (fun _ ↦ .answered) "__broker_sync" ledger (by decide +kernel) (by decide)
  have hgone : restoredField ledgerLibrary
      (initGroupRequest.run ledgerElasticsearch (fun _ ↦ .answered) 7 withLedger).2 "7"
        "__broker_sync" = none := by decide +kernel
  nomatch hgone.symm.trans hw

/-- A document that the services have created, with a note. -/
def created : CanvasDocument :=
  { CanvasDocument.create (some "notes") (some 7) (some 10) none none with
    items := noteItems }

/-- The canvas in the memory of a server: a password has no older name there. -/
def createdFields : Fields := Assoc.erase "canvasPassword" (toTree created)

/-- The canvas as the servers have saved it. -/
def asCreated : Index :=
  ((safeDocument (fun _ ↦ none) noteLibrary createdFields).map
    fun stored ↦ ("7", .obj stored)).toList

theorem items_of_created : ∀ q ∈ parts, ∀ part, createdFields.lookup q.1 = some part →
    part = note := by
  have hitems : createdFields.lookup "items" = some note := rfl
  simp only [parts, List.forall_mem_cons, List.not_mem_nil, false_implies, implies_true, and_true]
  exact ⟨fun part h ↦ (Option.some.inj (hitems.symm.trans h)).symm,
    fun _ h ↦ (by cases h), fun _ h ↦ (by cases h)⟩

theorem storable_created : Snapshot.Storable createdFields where
  nodup := by decide
  parts_object q hq part hpart := by
    rw [items_of_created q hq part hpart]
    rfl
  encoded_free := by decide
  legacy_free := by decide
  password v hv := Or.inl (Option.some.inj hv).symm

theorem lookup_createdFields {k : String} {v : Json} (h : createdFields.lookup k = some v) :
    ∃ property, writtenProperties.lookup k = some property ∧ property.get created = v := by
  rw [createdFields, Assoc.lookup_erase] at h
  split_ifs at h
  rw [toTree_lookup] at h
  exact Option.map_eq_some_iff.mp h

theorem created_unchanged : Unchanged noteLibrary initGroupRequest "7" asCreated
    (initGroupRequest.run { plainElasticsearch with library := noteLibrary }
      (fun _ ↦ .answered) 7 asCreated).2 := by
  obtain ⟨stored, hsaved, -⟩ := safeDocument_eq (fun _ ↦ none) noteLibrary storable_created
  have hstored : StoredAs noteLibrary noteLibrary createdFields stored :=
    storedAs_of_safeDocument storable_created hsaved (.refl _)
      (fun q hq part hpart ↦ items_of_created q hq part hpart ▸ readsBack_note)
      (fun items hitems ↦ items_of_created _ (by decide : ("items", "items-b64") ∈ parts) items
        hitems ▸ readsBack_note)
  have hsource : asCreated.lookup (toString (7 : ℤ)) = some (.obj stored) := by
    rw [asCreated, hsaved]
    rfl
  refine (@rewrite_unchanged_iff _ { plainElasticsearch with library := noteLibrary } _ _ hstored
    initGroupRequest _ _ hsource (fun _ _ h ↦ by cases h) fun items hitems ↦ ?_).mpr
      (fun _ k v hv _ ↦ ?_) _
  · rw [← Option.some.inj (parse_dump_note.symm.trans hitems)]
    exact readsBack_note
  · obtain ⟨property, hproperty, rfl⟩ := lookup_createdFields hv
    refine ⟨property, hproperty, ?_, fun k' v' hv' hk' ↦ ?_⟩
    · have hsaved : Property.saved plainElasticsearch created property
          = .ok (property.get created) := by cases property <;> rfl
      exact holds_saved (fun _ _ h ↦ by cases h) hsaved
    · obtain ⟨property', hproperty', rfl⟩ := lookup_createdFields hv'
      obtain rfl := Option.some.inj (hk'.symm.trans (properties_of_written hproperty'))
      exact Json.Same.refl _

end Canvases

end Agora
