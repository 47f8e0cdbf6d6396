import Agora.Canvases.Deletion
import Agora.Chat.Keys

/-!
# Rows and documents

A canvas has a row and a document. Over a run of creations and deletions they come apart exactly in
a step whose call to the document store takes effect while the database is rolled back, or in a
deletion that takes the document of another canvas along: the document store takes no part in the
rollback.
-/

namespace Agora

namespace Canvases

open Java

variable {es : Elasticsearch} {outcome : Outcome} {canvasId : ℤ} {currentUser : Option User}
  {request : CreateCanvasRequest} {w : World} {doc : CanvasDocument}

/-! ## What a creation does -/

/-- The document that a creation comes to save. -/
def preparedDocument (es : Elasticsearch) (outcome : Outcome) (request : CreateCanvasRequest)
    (currentUser : Option User) (w : World) : Result CanvasDocument := do
  let userId ← requireUser currentUser "캔버스 생성은 로그인한 사용자만 가능합니다."
  checkCanvas request
  let targetId ← (insertCanvasInfo outcome w).1
  let _ ← outcome.image
  let hash ← hashForStorage es.bcrypt request.canvasPassword
  normalized es (newDocument request targetId userId hash)

/-- The world with a row for the next number. -/
def withCanvas (w : World) : World :=
  { w with rows := w.rows ++ [{ canvasId := w.nextId }], nextId := w.nextId + 1 }

theorem insertCanvasInfo_cases (outcome : Outcome) (w : World) :
    insertCanvasInfo outcome w = (.ok w.nextId, withCanvas w) ∨
      ∃ e, insertCanvasInfo outcome w = (.error e, w) := by
  unfold insertCanvasInfo
  split_ifs
  · exact Or.inl rfl
  · exact Or.inr ⟨_, rfl⟩

theorem saveFailure_cases (es : Elasticsearch) (e : RestError) :
    saveFailure es e = .ok false ∨ ∃ failure, saveFailure es e = .error failure := by
  unfold saveFailure
  split_ifs
  · exact Or.inl rfl
  · cases e <;> exact Or.inr ⟨_, rfl⟩

/-- When the document is not saved, at most a number of a row is used up. -/
theorem createCanvas_of_refused
    (h : ∃ e, preparedDocument es outcome request currentUser w = .error e) :
    (createCanvas es outcome request currentUser w).2 = w ∨
      (createCanvas es outcome request currentUser w).2 = { w with nextId := w.nextId + 1 } := by
  obtain ⟨e, he⟩ := h
  simp only [preparedDocument] at he
  simp only [createCanvas, Action.transactional, Action.bind_run, Action.lift_run]
  rcases huser : requireUser currentUser "캔버스 생성은 로그인한 사용자만 가능합니다." with _ | userId
  · exact Or.inl rfl
  rcases hcheck : checkCanvas request with _ | ⟨⟩
  · exact Or.inl rfl
  rcases insertCanvasInfo_cases outcome w with hinsert | ⟨_, hinsert⟩
  · simp only [hinsert]
    rcases himage : outcome.image with _ | imagePath
    · exact Or.inr rfl
    rcases hhash : hashForStorage es.bcrypt request.canvasPassword with _ | hash
    · exact Or.inr rfl
    rw [huser, hcheck, hinsert, himage, hhash] at he
    have hnormalized : normalized es (newDocument request w.nextId userId hash) = .error e := he
    simp only [onIndex, Action.within, saveCanvas, hnormalized]
    rcases saveFailure_cases es (.other "password cannot be more than 72 bytes") with
      hsave | ⟨_, hsave⟩
    · rw [hsave]
      exact Or.inr rfl
    · rw [hsave]
      exact Or.inr rfl
  · simp only [hinsert]
    exact Or.inl rfl

/-- From then on the document stays saved, and the row stays when the reply says so and the commit
succeeds. -/
theorem createCanvas_of_prepared
    (h : preparedDocument es outcome request currentUser w = .ok doc) :
    doc.canvasId = some w.nextId ∧
    (createCanvas es outcome request currentUser w).2 =
      { (if outcome.replies .put = .answered ∧ outcome.commits then withCanvas w
          else { w with nextId := w.nextId + 1 }) with
        index := (restPut (outcome.replies .put) (toString w.nextId)
          (.obj (encodeCanvasDocument es.library doc)) w.index).2 } := by
  simp only [preparedDocument, Result.bind_ok] at h
  obtain ⟨userId, huser, ⟨⟩, hcheck, targetId, htarget, imagePath, himage, hash, hhash, hdoc⟩ := h
  have hinsert : insertCanvasInfo outcome w = (.ok w.nextId, withCanvas w) := by
    rcases insertCanvasInfo_cases outcome w with hinsert | ⟨_, hinsert⟩
    · exact hinsert
    · rw [hinsert] at htarget
      nomatch htarget
  rw [hinsert] at htarget
  obtain rfl := Except.ok.inj htarget
  have hid : doc.canvasId = some w.nextId := by
    obtain ⟨_, -, hnew⟩ := Result.bind_ok.mp hdoc
    rw [← Result.pure_ok.mp hnew]
    rfl
  refine ⟨hid, ?_⟩
  have hdocument : documentId doc = toString w.nextId := by rw [documentId, hid]
  simp only [createCanvas, Action.transactional, Action.bind_run, Action.lift_run, huser, hcheck,
    hinsert, himage, hhash, onIndex, Action.within, saveCanvas, hdoc, hdocument]
  rcases outcome.replies .put with _ | ⟨indexMissing, message⟩ | message
  · cases hcommits : outcome.commits
    · rfl
    · rfl
  · rcases saveFailure_cases es (refused indexMissing message) with hsave | ⟨_, hsave⟩
    · simp only [restPut, hsave]
      rfl
    · simp only [restPut, hsave]
      rfl
  · rcases saveFailure_cases es (.other message) with hsave | ⟨_, hsave⟩
    · simp only [restPut, hsave]
      rfl
    · simp only [restPut, hsave]
      rfl

/-! ## Pairs -/

def HasRow (w : World) (i : ℤ) : Prop := ∃ row ∈ w.rows, row.canvasId = i

def HasDocument (w : World) (i : ℤ) : Prop :=
  ∃ id source, w.index.lookup id = some source ∧ canvasIdOf source = some (.int i)

/-- Every canvas has a row exactly when it has a document. -/
def Paired (w : World) : Prop := ∀ i, HasRow w i ↔ HasDocument w i

/-- Each document is under the number of its canvas, and that number has been given out. -/
def Placed (w : World) : Prop := ∀ id source, w.index.lookup id = some source →
  ∃ i < w.nextId, id = toString i ∧ canvasIdOf source = some (.int i)

structure Sound (w : World) : Prop where
  paired : Paired w
  placed : Placed w

theorem sound_start : Sound {} where
  paired i := ⟨fun ⟨_, h, _⟩ ↦ by simp at h, fun ⟨_, _, h, _⟩ ↦ by simp at h⟩
  placed _ _ h := by simp at h

theorem Placed.hasDocument_iff (h : Placed w) {i : ℤ} :
    HasDocument w i ↔ (w.index.lookup (toString i)).isSome := by
  constructor
  · rintro ⟨id, source, hsource, hid⟩
    obtain ⟨j, -, rfl, hj⟩ := h id source hsource
    obtain rfl : j = i := Json.int.inj (Option.some.inj (hj.symm.trans hid))
    rw [hsource]
    rfl
  · intro hsome
    obtain ⟨source, hsource⟩ := Option.isSome_iff_exists.mp hsome
    obtain ⟨j, -, hji, hj⟩ := h _ source hsource
    obtain rfl := intText_injective hji
    exact ⟨_, source, hsource, hj⟩

/-- A number that has not been given out has no row. -/
theorem Sound.not_hasRow_nextId (h : Sound w) : ¬HasRow w w.nextId := by
  rw [h.paired]
  rintro ⟨id, source, hsource, hid⟩
  obtain ⟨j, hj, -, hcanvas⟩ := h.placed id source hsource
  obtain rfl : j = w.nextId := Json.int.inj (Option.some.inj (hcanvas.symm.trans hid))
  exact absurd hj (lt_irrefl _)

theorem Sound.congr {w' : World} (h : Sound w) (hrows : w'.rows = w.rows)
    (hindex : w'.index = w.index) (hnext : w.nextId ≤ w'.nextId) : Sound w' where
  paired := by
    simpa only [Paired, HasRow, HasDocument, hrows, hindex] using h.paired
  placed id source hsource := by
    rw [hindex] at hsource
    obtain ⟨i, hi, hplace⟩ := h.placed id source hsource
    exact ⟨i, lt_of_lt_of_le hi hnext, hplace⟩

/-- A document that is not there leaves its row alone. -/
theorem not_paired_of_missing {w' : World} {i : ℤ} (h : Placed w)
    (hindex : ∀ id source, w'.index.lookup id = some source → w.index.lookup id = some source)
    (hrow : HasRow w' i) (hgone : w'.index.lookup (toString i) = none) : ¬Paired w' := by
  intro hpaired
  obtain ⟨id, source, hsource, hid⟩ := (hpaired i).mp hrow
  obtain ⟨j, -, rfl, hj⟩ := h id source (hindex id source hsource)
  obtain rfl : j = i := Json.int.inj (Option.some.inj (hj.symm.trans hid))
  rw [hgone] at hsource
  nomatch hsource

/-! ## One step -/

theorem canvasIdOf_encode (library : JsonLibrary) (document : CanvasDocument) :
    canvasIdOf (.obj (encodeCanvasDocument library document))
      = some (ofNumber document.canvasId) := by
  rw [canvasIdOf, Json.child, encodeCanvasDocument, Assoc.lookup_set_of_ne (by decide),
    Assoc.lookup_erase_of_ne (by decide)]
  rfl

/-- When a creation comes to save its document, the save is answered and the commit succeeds, or the
save has no effect. -/
def CreationHolds (es : Elasticsearch) (outcome : Outcome) (request : CreateCanvasRequest)
    (currentUser : Option User) (w : World) : Prop :=
  ∀ doc, preparedDocument es outcome request currentUser w = .ok doc →
    match outcome.replies .put with
    | .answered => outcome.commits = true
    | .failed _ _ => True
    | .lost _ => False

/-- When a deletion comes to delete the document, the call has no effect, or it is answered, every
later step succeeds, and the canvas is not called by the number of another one whose document is
deleted as well. -/
def DeletionHolds (es : Elasticsearch) (outcome : Outcome) (canvasId : ℤ)
    (currentUser : Option User) (w : World) : Prop :=
  ∀ doc, checkDeletion es outcome canvasId currentUser w = .ok doc → outcome.enqueue = true →
    outcome.remove = true →
      match outcome.replies .deleteById with
      | .answered =>
        (outcome.resources = true ∧ outcome.publish = true ∧ outcome.commits = true) ∧
          ∀ name, doc.canvasName = some name → name ≠ toString canvasId →
            (w.index.lookup name).isSome → ∃ indexMissing message,
              outcome.replies .deleteByName = .failed indexMissing message
      | .failed _ _ => True
      | .lost _ => False

/-- A document under a number that no row has. -/
theorem not_paired_of_left {w' : World} {source : Json} (h : Sound w) (hrows : w'.rows = w.rows)
    (hindex : w'.index = Assoc.set (toString w.nextId) source w.index)
    (hsource : canvasIdOf source = some (.int w.nextId)) : ¬Paired w' := by
  intro hpaired
  have hrow : HasRow w' w.nextId := (hpaired _).mpr
    ⟨_, source, by rw [hindex, Assoc.lookup_set_self], hsource⟩
  rw [HasRow, hrows] at hrow
  exact h.not_hasRow_nextId hrow

/-- A row and its document. -/
theorem Sound.withCanvas {source : Json} (h : Sound w)
    (hsource : canvasIdOf source = some (.int w.nextId)) :
    Sound { withCanvas w with index := Assoc.set (toString w.nextId) source w.index } := by
  have hplaced : Placed { Canvases.withCanvas w with
      index := Assoc.set (toString w.nextId) source w.index } := by
    intro id found hfound
    rw [Assoc.lookup_set] at hfound
    split_ifs at hfound with hid
    · exact ⟨w.nextId, lt_add_one _, hid.symm, (Option.some.inj hfound) ▸ hsource⟩
    · obtain ⟨i, hi, hplace⟩ := h.placed id found hfound
      exact ⟨i, lt_trans hi (lt_add_one _), hplace⟩
  refine ⟨fun i ↦ ?_, hplaced⟩
  rw [hplaced.hasDocument_iff, Assoc.lookup_set]
  have hrow : HasRow { Canvases.withCanvas w with
      index := Assoc.set (toString w.nextId) source w.index } i ↔ HasRow w i ∨ w.nextId = i := by
    simp [HasRow, Canvases.withCanvas, or_and_right, exists_or]
  rw [hrow]
  split_ifs with hid
  · simp [intText_injective hid]
  · have hne : w.nextId ≠ i := fun heq ↦ hid (congrArg toString heq)
    rw [← h.placed.hasDocument_iff, ← h.paired]
    simp [hne]

theorem sound_create (h : Sound w) :
    (CreationHolds es outcome request currentUser w →
      Sound (createCanvas es outcome request currentUser w).2) ∧
    (Paired (createCanvas es outcome request currentUser w).2 →
      CreationHolds es outcome request currentUser w) := by
  rcases hprepared : preparedDocument es outcome request currentUser w with e | doc
  · refine ⟨fun _ ↦ ?_, fun _ doc hdoc ↦ ?_⟩
    · rcases createCanvas_of_refused ⟨e, hprepared⟩ with hsame | hsame
      · rw [hsame]
        exact h
      · rw [hsame]
        exact h.congr rfl rfl (le_of_lt (lt_add_one _))
    · rw [hprepared] at hdoc
      nomatch hdoc
  · obtain ⟨hid, hrun⟩ := createCanvas_of_prepared hprepared
    have hcanvas : canvasIdOf (.obj (encodeCanvasDocument es.library doc))
        = some (.int w.nextId) := by
      rw [canvasIdOf_encode, hid]
      rfl
    have hholds : CreationHolds es outcome request currentUser w ↔
        (match outcome.replies .put with
          | .answered => outcome.commits = true
          | .failed _ _ => True
          | .lost _ => False) :=
      ⟨fun hall ↦ hall doc hprepared, fun hput other hother ↦ hput⟩
    rw [hholds, hrun]
    rcases outcome.replies .put with _ | ⟨indexMissing, message⟩ | message
    · rcases hcommits : outcome.commits with _ | _
      · exact ⟨nofun, fun hpaired ↦ absurd hpaired (not_paired_of_left h rfl rfl hcanvas)⟩
      · exact ⟨fun _ ↦ h.withCanvas hcanvas, fun _ ↦ rfl⟩
    · exact ⟨fun _ ↦ h.congr rfl rfl (le_of_lt (lt_add_one _)), fun _ ↦ trivial⟩
    · exact ⟨False.elim, fun hpaired ↦ absurd hpaired (not_paired_of_left h rfl rfl hcanvas)⟩

theorem hasRow_of_checked (h : checkDeletion es outcome canvasId currentUser w = .ok doc) :
    HasRow w canvasId := by
  obtain ⟨info, hinfo, -⟩ := Result.bind_ok.mp h
  unfold getCanvasInfoWithLockOrThrow at hinfo
  split at hinfo
  · next row hrow =>
    have hid := List.find?_some hrow
    exact ⟨row, List.mem_of_find?_eq_some hrow, of_decide_eq_true hid⟩
  · nomatch hinfo

/-- What a deletion in the document store leaves was there. -/
theorem lookup_restDelete {reply : Reply} {key id : String} {index : Index} {source : Json}
    (h : (restDelete reply key index).2.lookup id = some source) :
    index.lookup id = some source := by
  have herase (h : (Assoc.erase key index).lookup id = some source) :
      index.lookup id = some source := by
    rw [Assoc.lookup_erase] at h
    split_ifs at h
    exact h
  unfold restDelete at h
  split at h
  · split at h
    · exact herase h
    · exact h
  · exact h
  · exact herase h

/-- The row is deleted with the document. -/
theorem Sound.withoutCanvas {index : Index} (h : Sound w) (hindex : ∀ id,
      index.lookup id = if id = toString canvasId then none else w.index.lookup id) :
    Sound { withoutCanvas canvasId w with index := index } := by
  have hplaced : Placed { Canvases.withoutCanvas canvasId w with index := index } := by
    intro id source hsource
    rw [hindex] at hsource
    split_ifs at hsource
    exact h.placed id source hsource
  refine ⟨fun i ↦ ?_, hplaced⟩
  have hrow : HasRow { Canvases.withoutCanvas canvasId w with index := index } i ↔
      HasRow w i ∧ i ≠ canvasId := by
    simp only [HasRow, Canvases.withoutCanvas, List.mem_filter, decide_eq_true_eq]
    constructor
    · rintro ⟨row, ⟨hrow, hne⟩, rfl⟩
      exact ⟨⟨row, hrow, rfl⟩, hne⟩
    · rintro ⟨⟨row, hrow, rfl⟩, hne⟩
      exact ⟨row, ⟨hrow, hne⟩, rfl⟩
  rw [hrow, hplaced.hasDocument_iff, hindex, h.paired, h.placed.hasDocument_iff]
  split_ifs with hid
  · simp [intText_injective hid]
  · have hne : i ≠ canvasId := fun heq ↦ hid (congrArg toString heq)
    simp [hne]

theorem lookup_restDelete_of_none {reply : Reply} {key : String} {index : Index}
    (h : index.lookup key = none) (id : String) :
    (restDelete reply key index).2.lookup id = index.lookup id := by
  unfold restDelete
  split
  · rw [h]
  · rfl
  · rw [Assoc.erase_of_lookup h]

theorem lookup_restDelete_self {reply : Reply} {key : String} {index : Index}
    (h : ∀ indexMissing message, reply ≠ .failed indexMissing message) :
    (restDelete reply key index).2.lookup key = none := by
  unfold restDelete
  split
  · split
    · exact Assoc.lookup_erase_self _ _
    · next hnone => exact hnone
  · next indexMissing message => exact absurd rfl (h indexMissing message)
  · exact Assoc.lookup_erase_self _ _

section Deleted

variable {replies : Replies} {name : Option String} {index : Index}

/-- After the document of the canvas, the one under its name is deleted if it may. -/
theorem deleteDocuments_eq (hreply : replies .deleteById = .answered)
    (hthere : (index.lookup (toString canvasId)).isSome) :
    deleteDocuments replies canvasId name index =
      (.ok true, match name.filter (· ≠ toString canvasId) with
        | none => Assoc.erase (toString canvasId) index
        | some key =>
          (restDelete (replies .deleteByName) key (Assoc.erase (toString canvasId) index)).2) := by
  obtain ⟨source, hsource⟩ := Option.isSome_iff_exists.mp hthere
  rw [deleteDocuments, hreply, restDelete, hsource]
  generalize toString canvasId = own
  rcases name with _ | key
  · rfl
  · by_cases hkey : key = own
    · simp [Option.filter, hkey]
    · simp [Option.filter, hkey]

/-- The document of the canvas is the only one that goes. -/
theorem deleteDocuments_own (hreply : replies .deleteById = .answered)
    (hthere : (index.lookup (toString canvasId)).isSome)
    (hname : ∀ key, name = some key → key ≠ toString canvasId → (index.lookup key).isSome →
      ∃ indexMissing message, replies .deleteByName = .failed indexMissing message) (id : String) :
    (deleteDocuments replies canvasId name index).2.lookup id =
      if id = toString canvasId then none else index.lookup id := by
  rw [deleteDocuments_eq hreply hthere]
  have herased : (Assoc.erase (toString canvasId) index).lookup id =
      if id = toString canvasId then none else index.lookup id := by
    rw [Assoc.lookup_erase]
    simp only [@eq_comm _ id]
  rcases hkey : name.filter (· ≠ toString canvasId) with _ | key
  · exact herased
  · simp only [Option.filter_eq_some_iff, decide_eq_true_eq] at hkey
    rcases hlookup : index.lookup key with _ | other
    · refine (lookup_restDelete_of_none ?_ id).trans herased
      rw [Assoc.lookup_erase_of_ne (Ne.symm hkey.2), hlookup]
    · obtain ⟨indexMissing, message, hfailed⟩ :=
        hname key hkey.1 hkey.2 (by rw [hlookup]; rfl)
      rw [← herased, hfailed]
      rfl

theorem deleteDocuments_gone (name : Option String) (hreply : replies .deleteById = .answered)
    (hthere : (index.lookup (toString canvasId)).isSome) :
    (deleteDocuments replies canvasId name index).2.lookup (toString canvasId) = none ∧
      ∀ key, name = some key → key ≠ toString canvasId →
        (∀ indexMissing message, replies .deleteByName ≠ .failed indexMissing message) →
          (deleteDocuments replies canvasId name index).2.lookup key = none := by
  rw [deleteDocuments_eq hreply hthere]
  generalize toString canvasId = own
  have herased := Assoc.lookup_erase_self own index
  rcases name with _ | key
  · exact ⟨herased, nofun⟩
  · by_cases hkey : key = own
    · refine ⟨by simp [Option.filter, hkey], fun other hother hne ↦ ?_⟩
      exact absurd (Option.some.inj hother ▸ hkey) hne
    · have hfilter : (some key).filter (· ≠ own) = some key := by simp [Option.filter, hkey]
      rw [hfilter]
      constructor
      · rcases hlookup : (restDelete (replies .deleteByName) key
            (Assoc.erase own index)).2.lookup own with _ | source
        · rfl
        · have hsource := lookup_restDelete hlookup
          rw [herased] at hsource
          nomatch hsource
      · intro other hother _ hnot
        rw [← Option.some.inj hother]
        exact lookup_restDelete_self hnot

/-- What is left was there. -/
theorem lookup_deleteDocuments {id : String} {source : Json}
    (h : (deleteDocuments replies canvasId name index).2.lookup id = some source) :
    index.lookup id = some source := by
  have hfirst {rest : Index} (hrest : (restDelete (replies .deleteById) (toString canvasId) index).2
      = rest) (hlookup : rest.lookup id = some source) : index.lookup id = some source :=
    lookup_restDelete (hrest ▸ hlookup)
  unfold deleteDocuments at h
  split at h
  · next hrest => exact hfirst (congrArg Prod.snd hrest) h
  · next hrest =>
    split at h
    · exact hfirst (congrArg Prod.snd hrest) h
    · split_ifs at h
      · exact hfirst (congrArg Prod.snd hrest) h
      · exact hfirst (congrArg Prod.snd hrest) (lookup_restDelete h)

end Deleted

theorem sound_delete (h : Sound w) :
    (DeletionHolds es outcome canvasId currentUser w →
      Sound (deleteCanvas es outcome canvasId currentUser w).2) ∧
    (Paired (deleteCanvas es outcome canvasId currentUser w).2 →
      DeletionHolds es outcome canvasId currentUser w) := by
  by_cases hrefused : (∃ e, checkDeletion es outcome canvasId currentUser w = .error e) ∨
      outcome.enqueue = false ∨ outcome.remove = false
  · refine ⟨fun _ ↦ by rwa [deleteCanvas_of_refused hrefused], fun _ doc hdoc henqueue hremove ↦ ?_⟩
    rcases hrefused with ⟨e, he⟩ | hfalse | hfalse
    · rw [hdoc] at he
      nomatch he
    · rw [henqueue] at hfalse
      nomatch hfalse
    · rw [hremove] at hfalse
      nomatch hfalse
  rw [not_or, not_or, Bool.not_eq_false, Bool.not_eq_false] at hrefused
  obtain ⟨hcheck, henqueue, hremove⟩ := hrefused
  obtain ⟨doc, hdoc⟩ : ∃ doc, checkDeletion es outcome canvasId currentUser w = .ok doc := by
    rcases hresult : checkDeletion es outcome canvasId currentUser w with e | doc
    · exact absurd ⟨e, hresult⟩ hcheck
    · exact ⟨doc, rfl⟩
  have hrow := hasRow_of_checked hdoc
  have hthere := h.placed.hasDocument_iff.mp ((h.paired canvasId).mp hrow)
  have hrun := deleteCanvas_of_checked hdoc henqueue hremove
  have hholds : DeletionHolds es outcome canvasId currentUser w ↔
      (match outcome.replies .deleteById with
        | .answered =>
          (outcome.resources = true ∧ outcome.publish = true ∧ outcome.commits = true) ∧
            ∀ name, doc.canvasName = some name → name ≠ toString canvasId →
              (w.index.lookup name).isSome → ∃ indexMissing message,
                outcome.replies .deleteByName = .failed indexMissing message
        | .failed _ _ => True
        | .lost _ => False) := by
    refine ⟨fun hall ↦ hall doc hdoc henqueue hremove, fun hreply other hother _ _ ↦ ?_⟩
    obtain rfl : other = doc := Except.ok.inj (hother.symm.trans hdoc)
    exact hreply
  rw [hholds, hrun]
  have hleft (w' : World) (hrows : w'.rows = w.rows) (hindex : w'.index
      = (deleteDocuments outcome.replies canvasId doc.canvasName w.index).2)
      (hgone : w'.index.lookup (toString canvasId) = none) : ¬Paired w' := by
    refine not_paired_of_missing h.placed (fun id source hsource ↦ ?_) ?_ hgone
    · rw [hindex] at hsource
      exact lookup_deleteDocuments hsource
    · rwa [HasRow, hrows]
  rcases hreply : outcome.replies .deleteById with _ | ⟨indexMissing, message⟩ | message
  · obtain ⟨hgone, hother⟩ := deleteDocuments_gone doc.canvasName hreply hthere
    have hok : (deleteDocuments outcome.replies canvasId doc.canvasName w.index).1 = .ok true := by
      rw [deleteDocuments_eq hreply hthere]
    by_cases hlater : outcome.resources = true ∧ outcome.publish = true ∧ outcome.commits = true
    · rw [if_pos ⟨hok, hlater⟩]
      constructor
      · exact fun hmeets ↦ h.withoutCanvas (deleteDocuments_own hreply hthere hmeets.2)
      · intro hpaired
        refine ⟨hlater, fun name hname hne hsome ↦ ?_⟩
        by_contra hnot
        push Not at hnot
        obtain ⟨source, hsource⟩ := Option.isSome_iff_exists.mp hsome
        obtain ⟨j, -, rfl, hj⟩ := h.placed name source hsource
        obtain ⟨row, hmem, hid⟩ := (h.paired j).mpr ⟨_, source, hsource, hj⟩
        -- The row of the other canvas is still there.
        refine not_paired_of_missing h.placed (fun id found hfound ↦ ?_) ?_
          (hother _ hname hne hnot) hpaired
        · exact lookup_deleteDocuments hfound
        · refine ⟨row, List.mem_filter.mpr ⟨hmem, decide_eq_true ?_⟩, hid⟩
          rintro heq
          exact hne (congrArg toString (hid.symm.trans heq))
    · rw [if_neg fun hall ↦ hlater hall.2]
      exact ⟨fun hmeets ↦ absurd hmeets.1 hlater,
        fun hpaired ↦ absurd hpaired (hleft _ rfl rfl hgone)⟩
  · have hrest : deleteDocuments outcome.replies canvasId doc.canvasName w.index
        = (.ok false, w.index) := by
      rw [deleteDocuments, hreply]
      rfl
    rw [hrest]
    exact ⟨fun _ ↦ h, fun _ ↦ trivial⟩
  · have hrest : deleteDocuments outcome.replies canvasId doc.canvasName w.index
        = (.ok false, Assoc.erase (toString canvasId) w.index) := by
      rw [deleteDocuments, hreply]
      rfl
    refine ⟨False.elim, fun hpaired ↦ absurd hpaired (hleft _ ?_ rfl ?_)⟩
    · rw [hrest]
      rfl
    · rw [hrest]
      exact Assoc.lookup_erase_self _ _

/-! ## Runs -/

inductive Operation where
  | create (outcome : Outcome) (request : CreateCanvasRequest) (currentUser : Option User)
  | delete (outcome : Outcome) (canvasId : ℤ) (currentUser : Option User)

def Operation.run (es : Elasticsearch) (w : World) : Operation → World
  | create outcome request currentUser => (createCanvas es outcome request currentUser w).2
  | delete outcome canvasId currentUser => (deleteCanvas es outcome canvasId currentUser w).2

/-- The step changes the database and the documents alike. -/
def Operation.Holds (es : Elasticsearch) (w : World) : Operation → Prop
  | create outcome request currentUser => CreationHolds es outcome request currentUser w
  | delete outcome canvasId currentUser => DeletionHolds es outcome canvasId currentUser w

def runAll (es : Elasticsearch) (operations : List Operation) (w : World) : World :=
  operations.foldl (Operation.run es) w

theorem sound_run (es : Elasticsearch) (operation : Operation) (h : Sound w) :
    (operation.Holds es w → Sound (operation.run es w)) ∧
      (Paired (operation.run es w) → operation.Holds es w) := by
  rcases operation with ⟨outcome, request, currentUser⟩ | ⟨outcome, canvasId, currentUser⟩
  · exact sound_create h
  · exact sound_delete h

/-- The world before each step of a run. -/
def StepsHold (es : Elasticsearch) : List Operation → World → Prop
  | [], _ => True
  | operation :: rest, w => operation.Holds es w ∧ StepsHold es rest (operation.run es w)

/-- The worlds that a run goes through. -/
def StatesPaired (es : Elasticsearch) : List Operation → World → Prop
  | [], w => Paired w
  | operation :: rest, w => Paired w ∧ StatesPaired es rest (operation.run es w)

theorem statesPaired_iff (operations : List Operation) (h : Sound w) :
    StatesPaired es operations w ↔ StepsHold es operations w := by
  induction operations generalizing w with
  | nil => exact ⟨fun _ ↦ trivial, fun _ ↦ h.paired⟩
  | cons operation rest ih =>
    have hstep := sound_run es operation h
    constructor
    · rintro ⟨-, hrest⟩
      have hnext : Paired (operation.run es w) := by
        rcases rest with _ | ⟨next, rest⟩
        · exact hrest
        · exact hrest.1
      have hholds := hstep.2 hnext
      exact ⟨hholds, (ih (hstep.1 hholds)).mp hrest⟩
    · rintro ⟨hholds, hrest⟩
      exact ⟨h.paired, (ih (hstep.1 hholds)).mpr hrest⟩

/-- **Pairs.** Over a run of creations and deletions, rows and documents are paired in every state
exactly when every step changes both alike. -/
theorem rows_and_documents_paired (es : Elasticsearch) (operations : List Operation) :
    StatesPaired es operations {} ↔ StepsHold es operations {} :=
  statesPaired_iff operations sound_start

/-- A canvas is created, and its deletion fails when it commits. -/
def failedDeletion : List Operation :=
  [.create {} { canvasName := some "notes" } ada, .delete { commits := false } 1 ada]

/-- The canvas is still there and its document is not. -/
theorem failed_deletion_loses_document : ¬StatesPaired plainElasticsearch failedDeletion {} := by
  rintro ⟨-, -, hpaired⟩
  replace hpaired : Paired (runAll plainElasticsearch failedDeletion {}) := hpaired
  have hrows : (runAll plainElasticsearch failedDeletion {}).rows = [{ canvasId := 1 }] := by
    decide +kernel
  have hindex : (runAll plainElasticsearch failedDeletion {}).index = [] := by decide +kernel
  obtain ⟨id, source, hsource, -⟩ := (hpaired 1).mp ⟨{ canvasId := 1 }, by rw [hrows]; simp, rfl⟩
  rw [hindex] at hsource
  nomatch hsource

end Canvases

end Agora
