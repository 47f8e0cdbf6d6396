import Agora.Settings.Changes
import Agora.Json.Merge

/-!
# What stays in a document

Loading and saving each change a few fields of a document. A password that is a hash, under the name
it has today, is left alone everywhere.
-/

namespace Agora

namespace Settings

open Snapshot (Fields passwordField legacyFields parts restoreItems restoreFields restoreDocument
  encodePart encodeParts dropLegacy normalizePassword safeDocument normalizePassword_eq)

variable {doc doc' fields : Fields}

/-! ## Setting fields -/

theorem nodup_setFields (hdoc : (doc.map Prod.fst).Nodup) (fields : Fields) :
    ((setFields doc fields).map Prod.fst).Nodup := by
  induction fields generalizing doc with
  | nil => exact hdoc
  | cons e fields ih => exact ih (Assoc.nodup_set hdoc e.1 e.2)

theorem lookup_setFields (hfields : (fields.map Prod.fst).Nodup) (doc : Fields) (k : String) :
    (setFields doc fields).lookup k = (fields.lookup k).or (doc.lookup k) := by
  induction fields generalizing doc with
  | nil => rfl
  | cons e fields ih =>
    obtain ⟨k', v⟩ := e
    obtain ⟨hnew, hfields⟩ := List.nodup_cons.mp hfields
    refine (ih hfields (Assoc.set k' v doc)).trans ?_
    by_cases hk : k' = k
    · subst hk
      have hnone : fields.lookup k' = none := by
        rw [← Option.not_isSome_iff_eq_none, Assoc.lookup_isSome_iff]
        exact hnew
      rw [hnone, List.lookup_cons_self, Assoc.lookup_set_self]
      rfl
    · rw [Assoc.lookup_cons_of_ne hk, Assoc.lookup_set_of_ne hk]

/-! ## Loading and saving -/

/-- The names of the parts of a document, and the mark of a load. -/
def movedNames : List String := "_cache_generation" :: parts.flatMap fun part ↦ [part.1, part.2]

/-- `doc'` is `doc` but for its parts and older names of the password. -/
structure Carried (doc doc' : Fields) : Prop where
  nodup : (doc'.map Prod.fst).Nodup
  lookup : ∀ name ∉ movedNames,
    doc'.lookup name = doc.lookup name ∨ name ∈ legacyFields ∧ doc'.lookup name = none

/-- The password is where it belongs, and is a hash if there is one. -/
structure Hashed (doc : Fields) : Prop where
  nodup : (doc.map Prod.fst).Nodup
  password : ∃ v, doc.lookup passwordField = some v ∧
    (v = .null ∨ ∃ s, v = .str s ∧ isCanvasPasswordHash s)

theorem Carried.refl (h : (doc.map Prod.fst).Nodup) : Carried doc doc := ⟨h, fun _ _ ↦ Or.inl rfl⟩

theorem Carried.trans {doc'' : Fields} (h : Carried doc doc') (h' : Carried doc' doc'') :
    Carried doc doc'' := by
  refine ⟨h'.nodup, fun name hname ↦ ?_⟩
  rcases h'.lookup name hname with heq | hnone
  · rw [heq]
    exact h.lookup name hname
  · exact Or.inr hnone

theorem Carried.lookup_of_notMem (h : Carried doc doc') {name : String}
    (hmoved : name ∉ movedNames) (hlegacy : name ∉ legacyFields) :
    doc'.lookup name = doc.lookup name :=
  (h.lookup name hmoved).resolve_right fun hnone ↦ hlegacy hnone.1

theorem Carried.none (h : Carried doc doc') {name : String} (hmoved : name ∉ movedNames)
    (hnone : doc.lookup name = none) : doc'.lookup name = none := by
  rcases h.lookup name hmoved with heq | hgone
  · rw [heq, hnone]
  · exact hgone.2

theorem Hashed.carried (h : Hashed doc) (hcarried : Carried doc doc') : Hashed doc' :=
  ⟨hcarried.nodup, by rw [hcarried.lookup_of_notMem (by decide) (by decide)]; exact h.password⟩

theorem carried_set (hdoc : (doc.map Prod.fst).Nodup) {name : String} (hname : name ∈ movedNames)
    (v : Json) : Carried doc (Assoc.set name v doc) :=
  ⟨Assoc.nodup_set hdoc name v, fun name' hname' ↦
    Or.inl (Assoc.lookup_set_of_ne (fun heq ↦ hname' (by rwa [← heq])) v doc)⟩

theorem carried_erase (hdoc : (doc.map Prod.fst).Nodup) {name : String}
    (hname : name ∈ movedNames ∨ name ∈ legacyFields) : Carried doc (Assoc.erase name doc) := by
  refine ⟨Assoc.nodup_erase hdoc name, fun name' hname' ↦ ?_⟩
  by_cases heq : name = name'
  · subst heq
    exact Or.inr ⟨hname.resolve_left hname', Assoc.lookup_erase_self name doc⟩
  · exact Or.inl (Assoc.lookup_erase_of_ne heq doc)

theorem carried_sorted (hdoc : (doc.map Prod.fst).Nodup) : Carried doc (Json.sortedFields doc) :=
  ⟨((Json.sortedFields_perm doc).map Prod.fst).nodup_iff.mpr hdoc, fun name _ ↦
    Or.inl (Assoc.lookup_perm hdoc (Json.sortedFields_perm doc) name)⟩

/-- Steps one after the other. -/
theorem carried_foldlM {α : Type} {f : Fields → α → Option Fields} {l : List α}
    (hf : ∀ x ∈ l, ∀ doc doc', Hashed doc → f doc x = some doc' → Carried doc doc')
    (hdoc : Hashed doc) (h : l.foldlM f doc = some doc') : Carried doc doc' := by
  induction l generalizing doc with
  | nil =>
    obtain rfl := Option.some.inj h
    exact Carried.refl hdoc.nodup
  | cons x l ih =>
    rw [List.foldlM_cons] at h
    obtain ⟨next, hnext, h⟩ := Option.bind_eq_some_iff.mp h
    have hfirst := hf x List.mem_cons_self doc next hdoc hnext
    exact hfirst.trans (ih (fun y hy ↦ hf y (List.mem_cons_of_mem _ hy)) (hdoc.carried hfirst) h)

theorem fst_mem_movedNames {part : String × String} (h : part ∈ parts) : part.1 ∈ movedNames :=
  List.mem_cons_of_mem _ (List.mem_flatMap.mpr ⟨part, h, List.mem_cons_self⟩)

theorem snd_mem_movedNames {part : String × String} (h : part ∈ parts) : part.2 ∈ movedNames :=
  List.mem_cons_of_mem _ (List.mem_flatMap.mpr
    ⟨part, h, List.mem_cons_of_mem _ (List.mem_singleton_self _)⟩)

/-- A document that is read has the fields of the stored one. -/
theorem carried_restoreDocument {library : JsonLibrary} {source : Fields} (hsource : Hashed source)
    (h : restoreDocument library (.obj source) = some (.obj doc)) : Carried source doc := by
  obtain ⟨doc', hdoc, heq⟩ := Option.map_eq_some_iff.mp h
  obtain rfl := Json.obj.inj heq
  refine carried_foldlM (fun part hpart doc doc' hdoc h ↦ ?_) hsource hdoc
  unfold restoreItems at h
  split at h
  · rw [← Option.some.inj h]
    exact Carried.refl hdoc.nodup
  · obtain ⟨raw, -, h⟩ := Option.bind_eq_some_iff.mp h
    obtain ⟨items, -, h⟩ := Option.bind_eq_some_iff.mp h
    split_ifs at h
    rw [← Option.some.inj h]
    have hset := carried_set hdoc.nodup (fst_mem_movedNames hpart) items
    exact hset.trans (carried_erase hset.nodup (Or.inl (snd_mem_movedNames hpart)))

/-- The older names of the password are gone. -/
def Current (doc : Fields) : Prop := ∀ name ∈ legacyFields, doc.lookup name = none

theorem legacy_notMem_moved : ∀ name ∈ legacyFields, name ∉ movedNames := by decide

theorem Current.carried (h : Current doc) (hcarried : Carried doc doc') : Current doc' :=
  fun name hname ↦ hcarried.none (legacy_notMem_moved name hname) (h name hname)

/-- Steps that each take one of the older names away. -/
theorem current_foldlM {f : Fields → String → Option Fields}
    (hf : ∀ name ∈ legacyFields, ∀ doc doc', Hashed doc → f doc name = some doc' →
      Carried doc doc' ∧ doc'.lookup name = none)
    (hdoc : Hashed doc) (h : legacyFields.foldlM f doc = some doc') : Current doc' := by
  suffices hall : ∀ l ⊆ legacyFields, ∀ doc, Hashed doc → l.foldlM f doc = some doc' →
      ∀ name ∈ l, doc'.lookup name = none from hall _ (List.Subset.refl _) doc hdoc h
  intro l hl
  induction l with
  | nil => exact fun _ _ _ _ h ↦ nomatch h
  | cons first l ih =>
    intro doc hdoc h name hname
    rw [List.foldlM_cons] at h
    obtain ⟨next, hnext, hrest⟩ := Option.bind_eq_some_iff.mp h
    obtain ⟨hmem, hsub⟩ := List.cons_subset.mp hl
    obtain ⟨hcarried, hnone⟩ := hf first hmem doc next hdoc hnext
    have hnextHashed := hdoc.carried hcarried
    rcases List.mem_cons.mp hname with rfl | hname
    · refine (carried_foldlM (fun x hx doc doc' hdoc h ↦ (hf x (hsub hx) doc doc' hdoc h).1)
        hnextHashed hrest).none (legacy_notMem_moved _ hmem) hnone
    · exact ih hsub next hnextHashed hrest name hname

theorem Hashed.lookup_isSome (h : Hashed doc) : (doc.lookup passwordField).isSome := by
  obtain ⟨v, hv, -⟩ := h.password
  rw [hv]
  rfl

theorem Hashed.normalize (h : Hashed doc) (hashCanvasPassword : String → Option String) :
    normalizePassword hashCanvasPassword doc = some doc := by
  refine normalizePassword_eq fun v hv ↦ ?_
  obtain ⟨w, hw, hnull | ⟨s, hs, hhash⟩⟩ := h.password
  · exact Or.inl (Option.some.inj (hv.symm.trans hw) ▸ hnull)
  · exact Or.inr ⟨s, Option.some.inj (hv.symm.trans hw) ▸ hs, Or.inr hhash⟩

/-- A document that is loaded has the fields it had. -/
theorem carried_migratedDocument {server : Server} {migrated : Fields} (hdoc : Hashed doc)
    (h : migratedDocument server doc = some migrated) :
    Carried doc migrated ∧ Current migrated := by
  have hmove : ∀ name ∈ legacyFields, ∀ doc doc', Hashed doc →
      some (moveLegacy doc name) = some doc' → Carried doc doc' ∧ doc'.lookup name = none := by
    intro name hname doc doc' hdoc h
    rw [← Option.some.inj h]
    unfold moveLegacy
    split
    · next hnone => exact ⟨Carried.refl hdoc.nodup, hnone⟩
    · rw [if_pos hdoc.lookup_isSome]
      exact ⟨carried_erase hdoc.nodup (Or.inr hname), Assoc.lookup_erase_self name doc⟩
  have hfold : legacyFields.foldlM (fun doc name ↦ some (moveLegacy doc name)) doc
      = some (legacyFields.foldl moveLegacy doc) := rfl
  have hcarried := carried_foldlM (fun name hname doc doc' hdoc h ↦
    (hmove name hname doc doc' hdoc h).1) hdoc hfold
  have hcurrent := current_foldlM hmove hdoc hfold
  have hhashed := hdoc.carried hcarried
  have heq : migrated = legacyFields.foldl moveLegacy doc := by
    unfold migratedDocument at h
    dsimp only at h
    split at h
    · next stored hstored =>
      obtain ⟨normalized, hnormalized, rfl⟩ := Option.map_eq_some_iff.mp h
      have hsame := hhashed.normalize server.hashCanvasPassword
      rw [normalizePassword, hstored] at hsame
      dsimp only [Snapshot.setPassword] at hsame
      rw [hnormalized] at hsame
      exact Option.some.inj hsame
    · exact (Option.some.inj h).symm
  rw [heq]
  exact ⟨hcarried, hcurrent⟩

theorem carried_encodeParts {library : JsonLibrary} {stored : Fields} (hdoc : Hashed doc)
    (h : encodeParts library doc = some stored) : Carried doc stored := by
  refine carried_foldlM (fun part hpart doc doc' hdoc h ↦ ?_) hdoc h
  unfold encodePart at h
  split at h
  · rw [← Option.some.inj h]
    exact Carried.refl hdoc.nodup
  · next items _ =>
    split_ifs at h
    rw [← Option.some.inj h]
    have hset := carried_set hdoc.nodup (snd_mem_movedNames hpart)
      (Snapshot.encodeItems library items)
    exact hset.trans (carried_erase hset.nodup (Or.inl (fst_mem_movedNames hpart)))

/-- A document that is saved has the fields it had. -/
theorem carried_safeDocument {hashCanvasPassword : String → Option String} {library : JsonLibrary}
    {source : Fields} (hdoc : Hashed doc)
    (h : safeDocument hashCanvasPassword library doc = some source) :
    Carried doc source ∧ Current source := by
  obtain ⟨encoded, hencoded, h⟩ := Option.bind_eq_some_iff.mp h
  have hcarried := carried_encodeParts hdoc hencoded
  have hhashed := hdoc.carried hcarried
  rw [hhashed.normalize hashCanvasPassword, Option.bind_eq_bind, Option.bind_some] at h
  have hdrop : ∀ name ∈ legacyFields, ∀ doc doc', Hashed doc →
      dropLegacy hashCanvasPassword doc name = some doc' →
        Carried doc doc' ∧ doc'.lookup name = none := by
    intro name hname doc doc' hdoc h
    unfold dropLegacy at h
    split at h
    · next hnone =>
      rw [← Option.some.inj h]
      exact ⟨Carried.refl hdoc.nodup, hnone⟩
    · next hnone =>
      have hsome := hdoc.lookup_isSome
      rw [hnone] at hsome
      nomatch hsome
    · rw [← Option.some.inj h]
      exact ⟨carried_erase hdoc.nodup (Or.inr hname), Assoc.lookup_erase_self name doc⟩
  exact ⟨hcarried.trans (carried_foldlM (fun name hname doc doc' hdoc h ↦
    (hdrop name hname doc doc' hdoc h).1) hhashed h), current_foldlM hdrop hhashed h⟩

/-- Documents in memory and stored documents that keep whatever loading and saving do not touch. -/
theorem lifelong_of_carried (server : Server) {inMemory stored : Fields → Prop}
    (hmemory : ∀ doc, inMemory doc → Hashed doc) (hstored : ∀ doc, stored doc → Hashed doc)
    (hload : ∀ source doc, stored source → Carried source doc → Current doc → inMemory doc)
    (hkeep : ∀ doc doc', inMemory doc → Carried doc doc' → inMemory doc')
    (hsave : ∀ doc source, inMemory doc → Carried doc source → Current source → stored source) :
    Lifelong server inMemory stored where
  load hsource hrestored hmigrated := by
    have hcarried := carried_restoreDocument (hstored _ hsource) hrestored
    obtain ⟨hagain, hcurrent⟩ :=
      carried_migratedDocument ((hstored _ hsource).carried hcarried) hmigrated
    exact hload _ _ hsource (hcarried.trans hagain) hcurrent
  reload hdoc hmigrated :=
    hkeep _ _ hdoc (carried_migratedDocument (hmemory _ hdoc) hmigrated).1
  mark generation hdoc :=
    hkeep _ _ hdoc (carried_set (hmemory _ hdoc).nodup (by decide) (.str generation))
  unmark hdoc := hkeep _ _ hdoc (carried_erase (hmemory _ hdoc).nodup (Or.inl (by decide)))
  save hdoc hsafe := by
    obtain ⟨hcarried, hcurrent⟩ := carried_safeDocument (hmemory _ hdoc) hsafe
    have hsorted := carried_sorted hcarried.nodup
    exact hsave _ _ hdoc (hcarried.trans hsorted) (hcurrent.carried hsorted)

end Settings

end Agora
