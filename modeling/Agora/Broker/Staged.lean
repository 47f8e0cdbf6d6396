import Agora.Broker.Operations
import Mathlib.Logic.Relation

/-!
# What a batch stages

Every item of a prepared batch was read once, by a caller who may access it, and its staged value
comes from the value that was read by edits each of which the caller was allowed to make
(`Mutation.Traced`). The recorded revision is the one the item was read at. Nothing here depends on
the order of the operations or on how often an item occurs among them.
-/

namespace Agora

/-- Neither a scalar nor a list: no item, or an object. -/
def Itemlike (item : Json) : Prop := item = .null ∨ item.isObject

theorem Json.assign_ok {j v j' : Json} {k : String} (h : j.assign k v = .ok j') :
    j'.isObject := by
  cases j <;> simp only [Json.assign, Except.ok.injEq, typeError, reduceCtorEq] at h
  all_goals
    rw [← h]
    rfl

theorem Json.eraseKey_ok {j j' : Json} {k : String} (h : j.eraseKey k = .ok j') :
    j'.isObject := by
  cases j <;> simp only [Json.eraseKey, Except.ok.injEq, typeError, reduceCtorEq] at h
  rw [← h]
  rfl

namespace Broker

variable {dumpSize : Json → ℕ} {groups : List String} {admin : Bool}

/-! ## Edits -/

/-- A change of an item. -/
inductive Change where
  | move (dx dy : ℚ)
  | delete
  | create (operation : Json)
  | patch (operation : Json)

/-- An accepted change of an item by a caller: null stands for an item that is not there. -/
inductive Edit (dumpSize : Json → ℕ) (groups : List String) (admin : Bool) :
    Change → Json → Json → Prop
  | move {item item' : Json} {dx dy : ℚ} (there : item.isNull = false)
      (connector : hasText item "kind" "connector" = .ok false)
      (room : hasText item "type" "chat_room" = .ok false)
      (moved : translateItem dx dy item = .ok item') (valid : validate dumpSize item' = .ok ()) :
      Edit dumpSize groups admin (.move dx dy) item item'
  | delete {item : Json} (room : hasText item "type" "chat_room" = .ok false) :
      Edit dumpSize groups admin .delete item .null
  | create {operation item : Json}
      (stored : storedItem dumpSize groups admin .null operation = .ok item) :
      Edit dumpSize groups admin (.create operation) .null item
  | patch {old operation item : Json} (there : old.isNull = false)
      (stored : storedItem dumpSize groups admin old operation = .ok item) :
      Edit dumpSize groups admin (.patch operation) old item

/-- Accepted changes, one after the other. -/
inductive Edits (dumpSize : Json → ℕ) (groups : List String) (admin : Bool) :
    List Change → Json → Json → Prop
  | nil (item : Json) : Edits dumpSize groups admin [] item item
  | snoc {changes : List Change} {change : Change} {item item' item'' : Json}
      (h : Edits dumpSize groups admin changes item item')
      (edit : Edit dumpSize groups admin change item' item'') :
      Edits dumpSize groups admin (changes ++ [change]) item item''

/-! ### The changes an operation asks for -/

/-- A number, 0 for anything else. -/
def numberIn : Option Json → ℚ
  | some (.int n) => toDouble n
  | some (.float q) => q
  | _ => 0

theorem numberIn_of_getDouble {v : Json} {q : ℚ} (h : v.getDouble = .ok q) :
    numberIn (some v) = q := by
  cases v <;> simp only [Json.getDouble, typeError, reduceCtorEq, Except.ok.injEq] at h
  all_goals exact h

/-- An id that is valid is not the default. -/
theorem field?_of_validId {operation : Json} {id : String} (hvalid : validQueryItemId id)
    (h : operation.valueString "id" "" = .ok id) : field? operation "id" = some (.str id) := by
  refine field?_of_valueString h fun hempty ↦ ?_
  rw [← hempty] at hvalid
  exact absurd hvalid (by decide)

/-- Whether a translation lists an item. -/
def lists (operation : Json) (id : String) : Bool :=
  match field? operation "ids" with
  | some (.arr ids) => decide (.str id ∈ ids)
  | _ => false

/-- The changes of one item that an operation asks for. -/
def changesOf (id : String) (operation : Json) : List Change :=
  match field? operation "action" with
  | some (.str "translate") =>
    if lists operation id then
      [.move (numberIn (field? operation "dx")) (numberIn (field? operation "dy"))]
    else []
  | some (.str "delete") => if field? operation "id" = some (.str id) then [.delete] else []
  | some (.str "create") =>
    if field? operation "id" = some (.str id) then [.create operation] else []
  | some (.str "patch") =>
    if field? operation "id" = some (.str id) then [.patch operation] else []
  | _ => []

/-- The changes of one item that a batch asks for. -/
def historyOf (operations : List Json) (id : String) : List Change :=
  operations.flatMap (changesOf id)

theorem historyOf_snoc (operations : List Json) (operation : Json) (id : String) :
    historyOf (operations ++ [operation]) id
      = historyOf operations id ++ changesOf id operation := by
  simp [historyOf]

theorem validate_object {item : Json} (h : validate dumpSize item = .ok ()) : item.isObject := by
  unfold validate at h
  obtain ⟨_, hobject, _⟩ := Checked.bind_ok.mp h
  simpa using hobject

theorem queryUpdatedItem_eq {previous input item : Json}
    (h : queryUpdatedItem previous input groups admin = .ok item) : item = input := by
  unfold queryUpdatedItem at h
  simp only [Checked.bind_ok, Checked.pure_ok] at h
  obtain ⟨_, -, _, -, _, -, _, -, _, -, _, -, _, -, _, -, _, -, _, -, _, -, _, -, rfl⟩ := h
  rfl

theorem storedItem_object {old operation item : Json}
    (h : storedItem dumpSize groups admin old operation = .ok item) : item.isObject := by
  unfold storedItem at h
  simp only [Checked.bind_ok] at h
  obtain ⟨patched, -, _, hvalid, updated, hupdated, kind, -, h⟩ := h
  split at h
  · unfold mergeHistory at h
    simp only [Checked.bind_ok] at h
    obtain ⟨_, -, _, -, _, -, _, -, _, -, h⟩ := h
    exact Json.assign_ok h
  · rw [← Checked.pure_ok.mp h, queryUpdatedItem_eq hupdated]
    exact validate_object hvalid

theorem Edit.itemlike {change : Change} {item item' : Json}
    (h : Edit dumpSize groups admin change item item') : Itemlike item' := by
  cases h with
  | move _ _ _ _ hvalid => exact Or.inr (validate_object hvalid)
  | delete => exact Or.inl rfl
  | create hstored => exact Or.inr (storedItem_object hstored)
  | patch _ hstored => exact Or.inr (storedItem_object hstored)

theorem Edits.itemlike {changes : List Change} {item item' : Json} (hitem : Itemlike item)
    (h : Edits dumpSize groups admin changes item item') : Itemlike item' := by
  cases h with
  | nil => exact hitem
  | snoc _ hlast => exact hlast.itemlike

theorem visibleItem_itemlike {old item : Json} (h : visibleItem old = .ok item) :
    Itemlike item := by
  unfold visibleItem at h
  simp only [Checked.bind_ok] at h
  obtain ⟨tombstone, -, h⟩ := h
  split at h
  · exact Or.inl (Checked.pure_ok.mp h).symm
  · obtain ⟨_, -, h⟩ := Checked.bind_ok.mp h
    exact Or.inr (Json.eraseKey_ok h)

/-! ## Traced batches -/

variable {σ : Type} {I : σ → Prop} {read : String → Query σ (Option Json)}

/-- A value that reading an item may give in the storage states of `I`, null when it is not
there. -/
def Reads (I : σ → Prop) (read : String → Query σ (Option Json)) (id : String) (old : Json) :
    Prop :=
  ∃ s s' found, I s ∧ read id s = (.ok found, s') ∧ found.getD .null = old

/-- Where a staged value comes from: what was read, by whom, and how it was changed. -/
structure Trace (dumpSize : Json → ℕ) (groups : List String) (admin : Bool) (I : σ → Prop)
    (read : String → Query σ (Option Json)) (changes : List Change) (id : String) (old : Json)
    (revision : ℤ) (item : Json) : Prop where
  valid : validQueryItemId id
  reads : Reads I read id old
  access : old = .null ∨ queryCanAccess old groups admin
  revision : readRevision old = .ok revision
  edited : ∃ start, visibleItem old = .ok start ∧ Edits dumpSize groups admin changes start item

section Trace

variable {changes : List Change} {change : Change} {id : String} {old item item' : Json}
  {revision : ℤ}

theorem Trace.itemlike (h : Trace dumpSize groups admin I read changes id old revision item) :
    Itemlike item := by
  obtain ⟨start, hstart, hedits⟩ := h.edited
  exact Edits.itemlike (visibleItem_itemlike hstart) hedits

theorem Trace.edit (h : Trace dumpSize groups admin I read changes id old revision item)
    (hedit : Edit dumpSize groups admin change item item') :
    Trace dumpSize groups admin I read (changes ++ [change]) id old revision item' := by
  obtain ⟨start, hstart, hedits⟩ := h.edited
  exact { h with edited := ⟨start, hstart, hedits.snoc hedit⟩ }

end Trace

namespace Mutation

/-- Every staged value has a trace with the changes of its item so far, nothing else has changes,
and the three tables speak about the same items. -/
structure Traced (dumpSize : Json → ℕ) (groups : List String) (admin : Bool) (I : σ → Prop)
    (read : String → Query σ (Option Json)) (history : String → List Change) (result : Mutation) :
    Prop where
  nodup : (result.items.map Prod.fst).Nodup
  expected : result.expected.map Prod.fst = result.items.map Prod.fst
  previous : result.previous.map Prod.fst = result.items.map Prod.fst
  untouched : ∀ id, result.items.lookup id = none → history id = []
  trace : ∀ id item, result.items.lookup id = some item → ∃ old revision,
    result.previous.lookup id = some old ∧ result.expected.lookup id = some revision ∧
      Trace dumpSize groups admin I read (history id) id old revision item

variable {result : Mutation} {history : String → List Change}

theorem traced_empty : Traced dumpSize groups admin I read (fun _ ↦ []) {} where
  nodup := List.nodup_nil
  expected := rfl
  previous := rfl
  untouched _ _ := rfl
  trace := by
    intro id item h
    simp at h

theorem Traced.translations (h : Traced dumpSize groups admin I read history result)
    (translations : List Json) (only : Bool) :
    Traced dumpSize groups admin I read history
      { result with translations := translations, onlyTranslations := only } :=
  ⟨h.nodup, h.expected, h.previous, h.untouched, h.trace⟩

/-- The trace of a staged value, by its entry. -/
theorem Traced.of_lookup (h : Traced dumpSize groups admin I read history result) {id : String}
    {item : Json} (hitem : result.items.lookup id = some item) : ∃ old revision,
      result.previous.lookup id = some old ∧ result.expected.lookup id = some revision ∧
        Trace dumpSize groups admin I read (history id) id old revision item :=
  h.trace id item hitem

/-- Replacing the value of an item by an edit of it. -/
theorem Traced.stage (h : Traced dumpSize groups admin I read history result) {id : String}
    {change : Change} {item item' : Json} (hitem : result.items.lookup id = some item)
    (hedit : Edit dumpSize groups admin change item item') :
    Traced dumpSize groups admin I read
      (fun id' ↦ history id' ++ if id = id' then [change] else []) (result.stage id item') := by
  have hmem : id ∈ result.items.map Prod.fst := Assoc.lookup_isSome_iff.mp (by rw [hitem]; rfl)
  have hkeys : (result.stage id item').items.map Prod.fst = result.items.map Prod.fst :=
    Assoc.map_fst_set_of_mem hmem item'
  refine ⟨hkeys ▸ h.nodup, h.expected.trans hkeys.symm, h.previous.trans hkeys.symm, ?_, ?_⟩
  · intro id' hlookup
    rw [Mutation.stage, Assoc.lookup_set] at hlookup
    split at hlookup
    · nomatch hlookup
    · next hne => rw [if_neg hne, List.append_nil, h.untouched id' hlookup]
  · intro id' item'' hlookup
    rw [Mutation.stage, Assoc.lookup_set] at hlookup
    split at hlookup
    · next heq =>
      subst heq
      obtain ⟨old, revision, hold, hrevision, htrace⟩ := h.of_lookup hitem
      rw [Option.some.injEq] at hlookup
      rw [← hlookup, if_pos rfl]
      exact ⟨old, revision, hold, hrevision, htrace.edit hedit⟩
    · next hne =>
      rw [if_neg hne, List.append_nil]
      exact h.of_lookup hlookup

/-- Staging an item that was just read. -/
theorem Traced.add (h : Traced dumpSize groups admin I read history result) {id : String}
    {old item : Json} {revision : ℤ} (hnew : result.items.lookup id = none)
    (htrace : Trace dumpSize groups admin I read [] id old revision item) :
    Traced dumpSize groups admin I read history { result with
      items := Assoc.set id item result.items
      previous := Assoc.set id old result.previous
      expected := Assoc.set id revision result.expected } := by
  have hmem : id ∉ result.items.map Prod.fst := by
    rw [← Assoc.lookup_isSome_iff, hnew]
    exact Bool.false_ne_true
  have hkeys := Assoc.map_fst_set_of_notMem hmem item
  refine ⟨?_, ?_, ?_, ?_, ?_⟩
  · rw [hkeys, List.nodup_append]
    refine ⟨h.nodup, List.nodup_singleton _, ?_⟩
    intro a ha b hb hab
    rw [List.mem_singleton] at hb
    exact hmem (hb ▸ hab ▸ ha)
  · rw [hkeys, Assoc.map_fst_set_of_notMem (h.expected ▸ hmem), h.expected]
  · rw [hkeys, Assoc.map_fst_set_of_notMem (h.previous ▸ hmem), h.previous]
  · intro id' hlookup
    rw [Assoc.lookup_set] at hlookup
    split at hlookup
    · nomatch hlookup
    · exact h.untouched id' hlookup
  · intro id' item' hlookup
    simp only [Assoc.lookup_set] at hlookup ⊢
    split at hlookup
    · next heq =>
      subst heq
      rw [Option.some.injEq] at hlookup
      rw [if_pos rfl, if_pos rfl, ← hlookup, h.untouched id hnew]
      exact ⟨old, revision, rfl, rfl, htrace⟩
    · next hne =>
      rw [if_neg hne, if_neg hne]
      exact h.of_lookup hlookup

end Mutation

/-! ## Preparation keeps traces -/

open Mutation Query

section Traced

variable {result : Mutation} {history : String → List Change} (hread : ∀ id, Keeps I (read id))

include hread

theorem get_traced (h : result.Traced dumpSize groups admin I read history) (id : String) :
    Yields I (get read groups admin result id) fun r ↦
      r.2.Traced dumpSize groups admin I read history ∧ r.2.items.lookup id = some r.1 := by
  refine yields_step fun _ hvalid ↦ ?_
  cases hlookup : result.items.lookup id with
  | some item => exact yields_pure ⟨h, hlookup⟩
  | none =>
    refine yields_bind (P := Reads I read id ∘ fun found ↦ found.getD .null) ?_ ?_
    · intro s found t hs hfound
      exact ⟨((hread id).yields s found t hs hfound).1, s, t, found, hs, hfound, rfl⟩
    intro found hreads
    refine yields_step fun _ haccess ↦ ?_
    refine yields_step fun revision hrevision ↦ yields_step fun item hitem ↦ ?_
    refine yields_pure ⟨h.add hlookup ⟨?_, hreads, ?_, hrevision, item, hitem, .nil item⟩, by simp⟩
    · simpa using Checked.throwIf_ok.mp hvalid
    · have hdenied := Checked.throwIf_ok.mp haccess
      cases hnull : found.getD .null with
      | null => exact Or.inl rfl
      | _ =>
        right
        simpa [hnull, Json.isNull] using hdenied

theorem translateOne_traced {dx dy : ℚ} {state : Mutation × List String}
    (h : state.1.Traced dumpSize groups admin I read history) (value : Json) :
    Yields I (translateOne dumpSize read groups admin dx dy state value) fun r ↦
      ∃ id, value = .str id ∧ id ∉ state.2 ∧ r.2 = id :: state.2 ∧
        r.1.Traced dumpSize groups admin I read fun id' ↦
          history id' ++ if id = id' then [.move dx dy] else [] := by
  refine yields_step fun _ _ ↦ yields_step fun id hid ↦ yields_step fun _ hnew ↦ ?_
  refine yields_bind (get_traced hread h id) fun ⟨item, result⟩ hget ↦ ?_
  refine yields_step fun _ hnull ↦ yields_step fun connector hconnector ↦ ?_
  refine yields_step fun _ hc ↦ yields_step fun room hroom ↦ yields_step fun _ hr ↦ ?_
  refine yields_step fun moved hmoved ↦ yields_step fun _ hvalid ↦ yields_pure ?_
  rw [Checked.throwIf_ok] at hnew hnull hc hr
  refine ⟨id, getString_ok hid, by simpa using hnew, rfl, ?_⟩
  · exact hget.1.stage hget.2 (.move hnull (hc ▸ hconnector) (hr ▸ hroom) hmoved hvalid)

/-- After moving some of the items of a list. -/
structure Moved (dumpSize : Json → ℕ) (groups : List String) (admin : Bool) (I : σ → Prop)
    (read : String → Query σ (Option Json)) (history : String → List Change) (dx dy : ℚ)
    (done : List Json) (state : Mutation × List String) : Prop where
  seen : ∀ id, id ∈ state.2 ↔ Json.str id ∈ done
  traced : state.1.Traced dumpSize groups admin I read fun id ↦
    history id ++ if Json.str id ∈ done then [.move dx dy] else []

theorem translateAll_traced {dx dy : ℚ} (h : result.Traced dumpSize groups admin I read history)
    (ids : List Json) :
    Yields I (ids.foldlM (translateOne dumpSize read groups admin dx dy) (result, []))
      (Moved dumpSize groups admin I read history dx dy ids) := by
  refine yields_foldlM (P := Moved dumpSize groups admin I read history dx dy) ?_ ids [] ?_
  · intro done state value hdone
    refine (translateOne_traced hread hdone.traced value).mono ?_
    rintro ⟨result', seen⟩ ⟨id, rfl, hnew, hseen, htraced⟩
    have hnotMem : Json.str id ∉ done := fun hmem ↦ hnew ((hdone.seen id).mpr hmem)
    refine ⟨fun id' ↦ ?_, ?_⟩
    · rw [show seen = id :: state.2 from hseen]
      simp [hdone.seen, or_comm]
    · have hhistory : (fun id' ↦ (history id' ++ if Json.str id' ∈ done then [Change.move dx dy]
          else []) ++ if id = id' then [Change.move dx dy] else [])
          = fun id' ↦ history id' ++ if Json.str id' ∈ done ++ [Json.str id] then
            [Change.move dx dy] else [] := by
        funext id'
        by_cases heq : id = id'
        · subst heq
          simp [hnotMem]
        · simp [heq, Ne.symm heq]
      exact hhistory ▸ htraced
  · exact ⟨fun id ↦ by simp, by simpa using h⟩

theorem translate_traced (h : result.Traced dumpSize groups admin I read history)
    {operation : Json} (haction : field? operation "action" = some (.str "translate")) :
    Yields I (translate dumpSize read groups admin result operation) fun r ↦
      r.Traced dumpSize groups admin I read fun id ↦ history id ++ changesOf id operation := by
  refine yields_step fun ids hids ↦ yields_step fun _ hsize ↦ yields_step fun _ _ ↦ ?_
  refine yields_step fun _ _ ↦ yields_step fun x hx ↦ yields_step fun dx hdx ↦ ?_
  refine yields_step fun y hy ↦ yields_step fun dy hdy ↦ yields_step fun _ _ ↦ ?_
  refine yields_bind (translateAll_traced hread h ids.elements) ?_
  rintro ⟨moved, _⟩ hmoved
  refine yields_pure (Traced.translations ?_ _ _)
  rw [Checked.throwIf_ok] at hsize
  -- the list is the one in the request, since it is not empty
  have hlist : ∃ list, ids = .arr list ∧ field? operation "ids" = some (.arr list) := by
    cases ids with
    | arr list =>
      refine ⟨list, rfl, ?_⟩
      rcases field?_of_value hids with ⟨v, hv, hsame⟩ | ⟨-, hempty⟩
      · rw [hv, Except.ok.inj hsame]
      · obtain rfl : [] = list := Json.arr.inj hempty
        simp [Json.size] at hsize
    | _ => simp [Json.isArray] at hsize
  obtain ⟨list, rfl, hfield⟩ := hlist
  have hchanges : ∀ id, changesOf id operation
      = if Json.str id ∈ list then [.move dx dy] else [] := by
    intro id
    rw [changesOf, haction]
    simp only [lists, hfield, field?_of_index hx, field?_of_index hy, numberIn_of_getDouble hdx,
      numberIn_of_getDouble hdy, decide_eq_true_eq]
  rw [funext fun id ↦ congrArg (history id ++ ·) (hchanges id)]
  exact hmoved.traced

omit hread in
theorem storeItem_edit {r : Mutation} {id action : String} {old operation : Json}
    (hvalid : validQueryItemId id) (hid : operation.valueString "id" "" = .ok id)
    (haction : operation.valueString "action" "" = .ok action)
    (h : storeItem dumpSize groups admin result id old action operation = .ok r) :
    ∃ item change, r = result.stage id item ∧ Edit dumpSize groups admin change old item ∧
      ∀ id', changesOf id' operation = if id = id' then [change] else [] := by
  unfold storeItem at h
  simp only [Checked.bind_ok, Checked.throwIf_ok, Checked.pure_ok, exists_const] at h
  obtain ⟨hknown, hcreate, hpatch, item, hitem, -, rfl⟩ := h
  have hfield := field?_of_validId hvalid hid
  have hknown : action = "create" ∨ action = "patch" := by
    simpa [or_iff_not_imp_left] using hknown
  rcases hknown with rfl | rfl
  · have hnull : old.isNull = true := by simpa using hcreate
    have hold : old = .null := by
      cases old <;> simp [Json.isNull] at hnull ⊢
    rw [hold] at hitem ⊢
    refine ⟨item, .create operation, rfl, .create hitem, fun id' ↦ ?_⟩
    rw [changesOf, field?_of_valueString haction (by decide)]
    simp [hfield]
  · refine ⟨item, .patch operation, rfl, .patch (by simpa using hpatch) hitem, fun id' ↦ ?_⟩
    rw [changesOf, field?_of_valueString haction (by decide)]
    simp [hfield]

omit hread in
theorem deleteItem_edit {r : Mutation} {id : String} {old operation : Json}
    (hvalid : validQueryItemId id) (hid : operation.valueString "id" "" = .ok id)
    (haction : operation.valueString "action" "" = .ok "delete")
    (h : deleteItem result id old = .ok r) :
    r = result.stage id .null ∧ Edit dumpSize groups admin .delete old .null ∧
      ∀ id', changesOf id' operation = if id = id' then [.delete] else [] := by
  unfold deleteItem at h
  simp only [Checked.bind_ok, Checked.throwIf_ok, Checked.pure_ok, exists_const] at h
  obtain ⟨room, hroom, hfalse, rfl⟩ := h
  refine ⟨rfl, .delete (hfalse ▸ hroom), fun id' ↦ ?_⟩
  rw [changesOf, field?_of_valueString haction (by decide)]
  simp [field?_of_validId hvalid hid]

theorem mutateItem_traced (h : result.Traced dumpSize groups admin I read history)
    {action : String} {operation : Json}
    (haction : operation.valueString "action" "" = .ok action) :
    Yields I (mutateItem dumpSize read groups admin result action operation) fun r ↦
      r.Traced dumpSize groups admin I read fun id ↦ history id ++ changesOf id operation := by
  refine yields_step fun id hid ↦ ?_
  refine yields_bind (get_traced hread (h.translations _ _) id) ?_
  rintro ⟨old, result'⟩ ⟨htraced, hlookup⟩
  have hvalid := (htraced.of_lookup hlookup).choose_spec.choose_spec.2.2.valid
  dsimp only
  split
  · next hdelete =>
    subst hdelete
    refine yields_lift fun r hr ↦ ?_
    obtain ⟨rfl, hedit, hchanges⟩ := deleteItem_edit hvalid hid haction hr
    simpa only [hchanges] using htraced.stage hlookup hedit
  · refine yields_lift fun r hr ↦ ?_
    obtain ⟨item, change, rfl, hedit, hchanges⟩ := storeItem_edit hvalid hid haction hr
    simpa only [hchanges] using htraced.stage hlookup hedit

theorem prepareOperation_traced (h : result.Traced dumpSize groups admin I read history)
    (operation : Json) :
    Yields I (prepareOperation dumpSize read groups admin result operation) fun r ↦
      r.Traced dumpSize groups admin I read fun id ↦ history id ++ changesOf id operation := by
  refine yields_step fun _ _ ↦ yields_step fun action haction ↦ ?_
  split
  · next htranslate =>
    subst htranslate
    have hfield := field?_of_valueString haction (by decide)
    refine yields_bind (translate_traced hread h hfield) fun r hr ↦ ?_
    exact yields_step fun _ _ ↦ yields_pure hr
  · exact mutateItem_traced hread h haction

end Traced

/-! ## Preparation only reads -/

section Keeps

theorem get_keeps (hread : ∀ id, Keeps I (read id)) (result : Mutation) (id : String) :
    Keeps I (get read groups admin result id) := by
  refine keeps_step fun _ ↦ ?_
  cases result.items.lookup id with
  | some item => exact keeps_pure _
  | none =>
    refine keeps_bind (hread id) fun found ↦ keeps_step fun _ ↦ ?_
    exact keeps_step fun _ ↦ keeps_step fun _ ↦ keeps_pure _

theorem translateOne_keeps (hread : ∀ id, Keeps I (read id)) (dx dy : ℚ)
    (state : Mutation × List String) (value : Json) :
    Keeps I (translateOne dumpSize read groups admin dx dy state value) := by
  refine keeps_step fun _ ↦ keeps_step fun id ↦ keeps_step fun _ ↦ ?_
  refine keeps_bind (get_keeps hread _ _) fun r ↦ keeps_step fun _ ↦ keeps_step fun _ ↦ ?_
  refine keeps_step fun _ ↦ keeps_step fun _ ↦ keeps_step fun _ ↦ keeps_step fun _ ↦ ?_
  exact keeps_step fun _ ↦ keeps_pure _

theorem translate_keeps (hread : ∀ id, Keeps I (read id)) (result : Mutation)
    (operation : Json) : Keeps I (translate dumpSize read groups admin result operation) := by
  refine keeps_step fun ids ↦ keeps_step fun _ ↦ keeps_step fun _ ↦ keeps_step fun _ ↦ ?_
  refine keeps_step fun _ ↦ keeps_step fun dx ↦ keeps_step fun _ ↦ keeps_step fun dy ↦ ?_
  refine keeps_step fun _ ↦ ?_
  exact keeps_bind (keeps_foldlM (fun _ _ ↦ translateOne_keeps hread dx dy _ _) _ _)
    fun _ ↦ keeps_pure _

theorem prepareOperation_keeps (hread : ∀ id, Keeps I (read id)) (result : Mutation)
    (operation : Json) :
    Keeps I (prepareOperation dumpSize read groups admin result operation) := by
  refine keeps_step fun _ ↦ keeps_step fun action ↦ ?_
  split
  · exact keeps_bind (translate_keeps hread _ _) fun _ ↦ keeps_step fun _ ↦ keeps_pure _
  · refine keeps_step fun id ↦ keeps_bind (get_keeps hread _ _) fun r ↦ ?_
    dsimp only
    split
    · exact keeps_lift _
    · exact keeps_lift _

theorem checkEndpoint_keeps (hread : ∀ id, Keeps I (read id)) (result : Mutation) (id : String) :
    Keeps I (checkEndpoint read groups admin result id) := by
  have hstaged : Keeps I (readStaged read result id) := by
    unfold readStaged
    split
    · exact keeps_pure _
    · exact keeps_bind (hread id) fun _ ↦ keeps_pure _
  refine keeps_bind hstaged fun _ ↦ keeps_step fun _ ↦ keeps_step fun _ ↦ ?_
  exact keeps_step fun _ ↦ keeps_step fun _ ↦ keeps_step fun _ ↦ keeps_lift _

theorem checkConnector_keeps (hread : ∀ id, Keeps I (read id)) (result : Mutation) (item : Json) :
    Keeps I (checkConnector read groups admin result item) := by
  refine keeps_step fun connector ↦ ?_
  split
  · refine keeps_step fun _ ↦ keeps_step fun _ ↦ keeps_step fun _ ↦ ?_
    exact keeps_bind (checkEndpoint_keeps hread _ _) fun _ ↦ checkEndpoint_keeps hread _ _
  · exact keeps_pure _

/-- Preparing a batch changes nothing that reading does not change. -/
theorem prepare_keeps (hread : ∀ id, Keeps I (read id)) (operations : Json) :
    Keeps I (prepare dumpSize read groups admin operations) := by
  refine keeps_step fun _ ↦ ?_
  refine keeps_bind (keeps_foldlM (fun _ _ ↦ prepareOperation_keeps hread _ _) _ _) fun result ↦ ?_
  refine keeps_bind
    (keeps_forM (fun e : String × Json ↦ checkConnector_keeps hread result e.2) _) fun _ ↦ ?_
  exact keeps_step fun _ ↦ keeps_pure _

/-- **What a batch stages.** Every staged value comes from what was read by the changes the batch
asks for, each of which the caller was allowed to make, and the revision it was read at is
recorded. -/
theorem prepare_traced (hread : ∀ id, Keeps I (read id)) (operations : Json) :
    Yields I (prepare dumpSize read groups admin operations) fun r ↦
      r.Traced dumpSize groups admin I read (historyOf operations.elements) := by
  refine yields_step fun _ _ ↦ ?_
  refine yields_bind (yields_foldlM (P := fun done (result : Mutation) ↦
    result.Traced dumpSize groups admin I read (historyOf done)) ?_ _ [] traced_empty) ?_
  · intro done result operation hresult
    rw [funext (historyOf_snoc done operation)]
    exact prepareOperation_traced hread hresult operation
  · intro result hresult
    refine yields_bind
      (keeps_forM (fun e : String × Json ↦ checkConnector_keeps hread result e.2) _).yields ?_
    exact fun _ _ ↦ yields_step fun _ _ ↦ yields_pure hresult

end Keeps

end Broker

end Agora
