import Agora.Canvases.Service

/-!
# What a deletion removes

A canvas is deleted together with the document under its number and, for documents from before, the
document under its name. Names are chosen freely, numerals included, so the document under the name
of a canvas may be the document of another canvas.
-/

namespace Agora

namespace Canvases

open Java

variable {es : Elasticsearch} {outcome : Outcome} {canvasId : ℤ} {currentUser : Option User}
  {w : World} {doc : CanvasDocument}

/-- The number in a stored document. -/
def canvasIdOf (source : Json) : Option Json := source.child (.key "canvas-id")

/-! ## What a deletion does -/

/-- The database after a deletion that commits. -/
def withoutCanvas (canvasId : ℤ) (w : World) : World :=
  { w with
    rows := w.rows.filter fun row ↦ row.canvasId ≠ canvasId
    cleanup := w.cleanup ++ [canvasId] }

theorem deleteDocuments_ok (replies : Replies) (canvasId : ℤ) (name : Option String)
    (index : Index) : ∃ deleted, (deleteDocuments replies canvasId name index).1 = .ok deleted := by
  unfold deleteDocuments
  split
  · exact ⟨_, rfl⟩
  · split
    · exact ⟨_, rfl⟩
    · split_ifs <;> exact ⟨_, rfl⟩

/-- Nothing changes before the documents are deleted. -/
theorem deleteCanvas_of_refused
    (h : (∃ e, checkDeletion es outcome canvasId currentUser w = .error e) ∨
      outcome.enqueue = false ∨ outcome.remove = false) :
    (deleteCanvas es outcome canvasId currentUser w).2 = w := by
  rw [deleteCanvas, Action.transactional, Action.bind_run, Action.reading_run]
  rcases hcheck : checkDeletion es outcome canvasId currentUser w with e | doc
  · rfl
  · rcases h with ⟨e, he⟩ | henqueue | hremove
    · rw [hcheck] at he
      nomatch he
    · simp [Action.bind_run, step, henqueue, rollback]
    · cases outcome.enqueue <;>
        simp [Action.bind_run, step, hremove, rollback, enqueueCleanup]

/-- From then on the documents stay deleted, and the database follows when every later step
succeeds. -/
theorem deleteCanvas_of_checked (hcheck : checkDeletion es outcome canvasId currentUser w = .ok doc)
    (henqueue : outcome.enqueue = true) (hremove : outcome.remove = true) :
    let deleted := deleteDocuments outcome.replies canvasId doc.canvasName w.index
    (deleteCanvas es outcome canvasId currentUser w).2 =
      { (if deleted.1 = .ok true ∧ outcome.resources ∧ outcome.publish ∧ outcome.commits then
          withoutCanvas canvasId w else w) with index := deleted.2 } := by
  intro deleted
  obtain ⟨b, hb⟩ := deleteDocuments_ok outcome.replies canvasId doc.canvasName w.index
  have hdeleted : deleted = (.ok b, deleted.2) := Prod.ext hb rfl
  have hpair : deleteDocuments outcome.replies canvasId doc.canvasName w.index
      = (.ok b, deleted.2) := hdeleted
  rw [hdeleted]
  simp only [deleteCanvas, Action.transactional, Action.bind_run, Action.reading_run, hcheck, step,
    henqueue, hremove, enqueueCleanup, deleteCanvasInfo, onIndex, Action.within,
    Action.modify_run, if_true, hpair, Action.lift_run, Java.throwIf, Except.ok.injEq]
  cases b
  · simp [rollback]
  · cases hresources : outcome.resources
    · simp [rollback]
    · cases hpublish : outcome.publish
      · simp [rollback]
      · cases hcommits : outcome.commits
        · simp [rollback]
        · simp [withoutCanvas]

/-- The documents that may go: the one under the number and, when it went, the one under the name.
-/
theorem deleteDocuments_lookup (replies : Replies) (canvasId : ℤ) (name : Option String)
    (index : Index) (id : String) :
    (deleteDocuments replies canvasId name index).2.lookup id = index.lookup id ∨
      id = toString canvasId ∨
      name = some id ∧ id ≠ toString canvasId ∧ (index.lookup (toString canvasId)).isSome := by
  have hdelete (reply : Reply) (key : String) (l : Index) (hne : id ≠ key) :
      (restDelete reply key l).2.lookup id = l.lookup id := by
    unfold restDelete
    split
    · split
      · exact Assoc.lookup_erase_of_ne hne.symm l
      · rfl
    · rfl
    · exact Assoc.lookup_erase_of_ne hne.symm l
  by_cases hid : id = toString canvasId
  · exact Or.inr (Or.inl hid)
  have hfirst := hdelete (replies .deleteById) (toString canvasId) index hid
  unfold deleteDocuments
  split
  · next hrest =>
    rw [hrest] at hfirst
    exact Or.inl hfirst
  · next hrest =>
    have hthere : (index.lookup (toString canvasId)).isSome := by
      unfold restDelete at hrest
      split at hrest
      · split at hrest
        · next hlookup => rw [hlookup]; rfl
        · nomatch hrest
      · nomatch hrest
      · nomatch hrest
    rw [hrest] at hfirst
    split
    · exact Or.inl hfirst
    · next key =>
      split_ifs with hkey
      · exact Or.inl hfirst
      · by_cases hname : id = key
        · exact Or.inr (Or.inr ⟨congrArg some hname.symm, hid, hthere⟩)
        · exact Or.inl ((hdelete _ key _ hname).trans hfirst)

/-- When every call is answered, both go. -/
theorem deleteDocuments_answered {index : Index}
    (hthere : (index.lookup (toString canvasId)).isSome) {name : Option String} {id : String}
    (hid : id = toString canvasId ∨ name = some id) :
    (deleteDocuments (fun _ ↦ .answered) canvasId name index).2.lookup id = none := by
  obtain ⟨source, hsource⟩ := Option.isSome_iff_exists.mp hthere
  have hrest : restDelete .answered (toString canvasId) index
      = (.ok (), Assoc.erase (toString canvasId) index) := by
    rw [restDelete, hsource]
  have hgone : (Assoc.erase (toString canvasId) index).lookup (toString canvasId) = none :=
    Assoc.lookup_erase_self _ _
  have hstays (key k : String)
      (h : (Assoc.erase (toString canvasId) index).lookup k = none ∨ k = key) :
      (restDelete .answered key (Assoc.erase (toString canvasId) index)).2.lookup k = none := by
    rw [restDelete]
    split
    · rw [Assoc.lookup_erase]
      split_ifs with hk
      · rfl
      · exact h.resolve_right (Ne.symm hk)
    · next hnone =>
      rcases h with h | rfl
      · exact h
      · exact hnone
  rw [deleteDocuments, hrest]
  rcases name with _ | key
  · obtain rfl := hid.resolve_right nofun
    exact hgone
  · by_cases hkey : key = toString canvasId
    · obtain rfl : id = toString canvasId := hid.elim (fun h ↦ h) fun h ↦
      (Option.some.inj h).symm.trans hkey
      simpa only [if_pos hkey] using hgone
    · simp only [if_neg hkey]
      refine hstays key id ?_
      rcases hid with rfl | h
      · exact Or.inl hgone
      · exact Or.inr (Option.some.inj h).symm

/-- A document that is there is the one that is checked. -/
theorem checkDeletion_answered {source : Json}
    (hsource : w.index.lookup (toString canvasId) = some source)
    (h : checkDeletion es outcome canvasId currentUser w = .ok doc) :
    checkDeletion es {} canvasId currentUser w = .ok doc := by
  have hget : getCanvasDocumentOrThrow es outcome canvasId w.index
      = getCanvasDocumentOrThrow es {} canvasId w.index ∨
        ∃ e, getCanvasDocumentOrThrow es outcome canvasId w.index = .error e := by
    unfold getCanvasDocumentOrThrow getCanvasDocumentById restGet
    rcases outcome.replies .getById with _ | ⟨indexMissing, message⟩ | message
    · exact Or.inl (by rw [hsource])
    · cases indexMissing
      · exact Or.inr ⟨_, rfl⟩
      · exact Or.inr ⟨_, rfl⟩
    · exact Or.inr ⟨_, rfl⟩
  unfold checkDeletion at h ⊢
  obtain ⟨info, hinfo, h⟩ := Result.bind_ok.mp h
  refine Result.bind_ok.mpr ⟨info, hinfo, ?_⟩
  obtain ⟨doc', hdoc', h⟩ := Result.bind_ok.mp h
  refine Result.bind_ok.mpr ⟨doc', ?_, h⟩
  rcases hget with heq | ⟨e, he⟩
  · rwa [← heq]
  · rw [he] at hdoc'
    nomatch hdoc'

/-! ## Which documents go -/

/-- The documents under the number and under the name of a canvas that may be deleted are its
own. -/
def SparesOthers (es : Elasticsearch) (canvasId : ℤ) (currentUser : Option User) (w : World) :
    Prop :=
  ∀ source doc, w.index.lookup (toString canvasId) = some source →
    checkDeletion es {} canvasId currentUser w = .ok doc →
      canvasIdOf source = some (.int canvasId) ∧
      ∀ name other, doc.canvasName = some name → w.index.lookup name = some other →
        canvasIdOf other = some (.int canvasId)

/-- A deletion removes no document of another canvas, however its calls end, exactly when the
documents under the number and under the name are its own. -/
theorem deletion_spares_iff (es : Elasticsearch) (canvasId : ℤ) (currentUser : Option User)
    (w : World) :
    (∀ outcome id source, w.index.lookup id = some source →
      canvasIdOf source ≠ some (.int canvasId) →
        (deleteCanvas es outcome canvasId currentUser w).2.index.lookup id = some source) ↔
      SparesOthers es canvasId currentUser w := by
  constructor
  · intro h source doc hsource hcheck
    have hthere : (w.index.lookup (toString canvasId)).isSome := by
      rw [hsource]
      rfl
    have hgone (id : String) (hid : id = toString canvasId ∨ doc.canvasName = some id) :
        (deleteCanvas es {} canvasId currentUser w).2.index.lookup id = none := by
      rw [deleteCanvas_of_checked hcheck rfl rfl]
      exact deleteDocuments_answered hthere hid
    have howned (id : String) (other : Json)
        (hid : id = toString canvasId ∨ doc.canvasName = some id)
        (hother : w.index.lookup id = some other) : canvasIdOf other = some (.int canvasId) := by
      by_contra hne
      have hkept := h {} id other hother hne
      rw [hgone id hid] at hkept
      nomatch hkept
    exact ⟨howned _ source (Or.inl rfl) hsource,
      fun name other hname hother ↦ howned name other (Or.inr hname) hother⟩
  · intro h outcome id source hsource hne
    by_cases hrefused : (∃ e, checkDeletion es outcome canvasId currentUser w = .error e) ∨
        outcome.enqueue = false ∨ outcome.remove = false
    · rwa [deleteCanvas_of_refused hrefused]
    · rw [not_or, not_or, Bool.not_eq_false, Bool.not_eq_false] at hrefused
      obtain ⟨hcheck, henqueue, hremove⟩ := hrefused
      obtain ⟨doc, hdoc⟩ : ∃ doc, checkDeletion es outcome canvasId currentUser w = .ok doc := by
        rcases hresult : checkDeletion es outcome canvasId currentUser w with e | doc
        · exact absurd ⟨e, hresult⟩ hcheck
        · exact ⟨doc, rfl⟩
      rw [deleteCanvas_of_checked hdoc henqueue hremove]
      rcases deleteDocuments_lookup outcome.replies canvasId doc.canvasName w.index id with
        hkept | rfl | ⟨hname, -, hthere⟩
      · exact hkept.trans hsource
      · exact absurd (h source doc hsource (checkDeletion_answered hsource hdoc)).1 hne
      · obtain ⟨own, hown⟩ := Option.isSome_iff_exists.mp hthere
        exact absurd ((h own doc hown (checkDeletion_answered hown hdoc)).2 id source hname hsource)
          hne

/-! ### An example -/

def plainElasticsearch : Elasticsearch where
  library := emptyLibrary
  coercions := ⟨fun _ ↦ .error .unexpected, fun _ ↦ .error .unexpected⟩
  bcrypt _ := none
  index := "canvas"
  failOnError := false

def ada : Option User := some { userId := some 10 }

def bob : Option User := some { userId := some 11 }

/-- Two canvases, of which the first is called by the number of the second. -/
def twoCanvases : World :=
  (createCanvas plainElasticsearch {} { canvasName := some "notes" } bob
    (createCanvas plainElasticsearch {} { canvasName := some "2" } ada {}).2).2

/-- Deleting the first removes the document of the second. -/
theorem deletion_removes_another :
    ¬∀ outcome id source, twoCanvases.index.lookup id = some source →
      canvasIdOf source ≠ some (.int 1) →
        (deleteCanvas plainElasticsearch outcome 1 ada twoCanvases).2.index.lookup id
          = some source := by
  intro h
  have hfound : ∃ source, twoCanvases.index.lookup "2" = some source ∧
      canvasIdOf source ≠ some (.int 1) := by
    refine ⟨(twoCanvases.index.lookup "2").get (by decide +kernel), ?_, ?_⟩
    · rw [Option.some_get]
    · decide +kernel
  obtain ⟨source, hsource, hother⟩ := hfound
  have hgone :
      (deleteCanvas plainElasticsearch {} 1 ada twoCanvases).2.index.lookup "2" = none := by
    decide +kernel
  rw [h {} "2" source hsource hother] at hgone
  nomatch hgone

end Canvases

end Agora
