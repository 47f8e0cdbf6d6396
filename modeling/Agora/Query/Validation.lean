import Agora.Query.Branches

/-!
# What validation looks at

Validation does not look into the history of a text, so an item that passes still passes after its
history has been merged with an older one, unless the snapshot there is an infinity. Every other
item that a batch stages passes, whatever was read.
-/

namespace Agora

namespace Broker

/-- The fields a history is kept in. -/
def historyFields : List String := ["automerge_snapshot", "automerge_changes"]

section Agree

variable {fields fields' : List (String × Json)} {k : String}

theorem contains_congr (h : fields'.lookup k = fields.lookup k) :
    (Json.obj fields').contains k = (Json.obj fields).contains k := congrArg Option.isSome h

theorem index_congr (h : fields'.lookup k = fields.lookup k) :
    (Json.obj fields').index k = (Json.obj fields).index k := by
  simp only [Json.index, h]

theorem value_congr {α : Type} {get : Json → Checked α} {default : α}
    (h : fields'.lookup k = fields.lookup k) :
    (Json.obj fields').value get k default = (Json.obj fields).value get k default := by
  simp only [Json.value, h]

theorem hasText_congr {s : String} (h : fields'.lookup k = fields.lookup k) :
    hasText (.obj fields') k s = hasText (.obj fields) k s := by
  unfold hasText Json.valueString
  rw [value_congr h]
  rfl

theorem optional_congr {passes : Json → Checked Bool} {code : String}
    (h : fields'.lookup k = fields.lookup k) :
    optional passes code (.obj fields') k = optional passes code (.obj fields) k := by
  simp only [optional, contains_congr h, index_congr h]

theorem required_congr {passes : Json → Checked Bool} {code : String}
    (h : fields'.lookup k = fields.lookup k) :
    required passes code (.obj fields') k = required passes code (.obj fields) k := by
  simp only [required, contains_congr h, optional_congr h]

theorem forM_congr {α : Type} {f g : α → Checked PUnit} : ∀ {l : List α},
    (∀ a ∈ l, f a = g a) → forM l f = forM l g
  | [], _ => rfl
  | a :: l, h => by
    obtain ⟨ha, hl⟩ := List.forall_mem_cons.mp h
    rw [List.forM_cons, List.forM_cons, ha, forM_congr hl]

theorem forM_ok {α : Type} {f : α → Checked PUnit} {l : List α} :
    l.forM f = .ok () ↔ ∀ a ∈ l, f a = .ok () := by
  induction l with
  | nil => exact iff_of_true rfl nofun
  | cons a l ih =>
    rw [List.forall_mem_cons, ← ih]
    refine Checked.bind_ok.trans ?_
    exact ⟨fun ⟨_, ha, hl⟩ ↦ ⟨ha, hl⟩, fun ⟨ha, hl⟩ ↦ ⟨(), ha, hl⟩⟩

theorem validateField_ok {e : String × Json} : validateField e = .ok () ↔
    itemFields.contains e.1 ∧ ∀ x, e.2 = .float x → isfinite x := by
  unfold validateField
  simp only [Checked.bind_ok, Checked.throwIf_ok, Bool.not_eq_false', exists_const]
  refine and_congr_right fun _ ↦ ?_
  split
  · next x hx =>
    simp only [hx, Json.float.injEq, forall_eq', Checked.throwIf_ok, Bool.not_eq_false']
  · next hno => exact iff_of_true rfl fun x hx ↦ absurd hx (hno x)

/-- The fields of an item are known, and no number among them is an infinity. -/
theorem validateFields_ok {fields : List (String × Json)} :
    (Json.obj fields).items.forM validateField = .ok () ↔
      ∀ e ∈ fields, itemFields.contains e.1 ∧ ∀ x, e.2 = .float x → isfinite x := by
  rw [forM_ok]
  refine forall_congr' fun e ↦ ?_
  rw [validateField_ok]
  exact imp_congr_left (Json.sortedFields_perm fields).mem_iff

theorem validate_fields {dumpSize : Json → ℕ} {item : Json} (h : validate dumpSize item = .ok ()) :
    item.items.forM validateField = .ok () := by
  unfold validate at h
  simp only [Checked.bind_ok] at h
  obtain ⟨_, -, _, -, _, -, ⟨⟩, hfields, -⟩ := h
  exact hfields

/-- Items that agree on everything but their histories. -/
theorem validate_of_agree {dumpSize : Json → ℕ}
    (h : ∀ k, k ∉ historyFields → fields'.lookup k = fields.lookup k)
    (hfields : (Json.obj fields').items.forM validateField = .ok ())
    (hvalid : validate dumpSize (.obj fields) = .ok ()) :
    validate dumpSize (.obj fields') = .ok () := by
  have hlist {passes : Json → Checked Bool} {code : String} {l : List String}
      (hl : ∀ k ∈ l, k ∉ historyFields) : l.forM (optional passes code (.obj fields'))
        = l.forM (optional passes code (.obj fields)) :=
    forM_congr fun k hk ↦ optional_congr (h k (hl k hk))
  have hrole : validateRole (.obj fields') = validateRole (.obj fields) := by
    unfold validateRole Json.valueString
    rw [contains_congr (h _ (by decide)), value_congr (h _ (by decide)),
      required_congr (h _ (by decide))]
  have hresults :
      validateResults dumpSize (.obj fields') = validateResults dumpSize (.obj fields) := by
    unfold validateResults Json.valueString
    rw [contains_congr (h _ (by decide)), index_congr (h _ (by decide)),
      value_congr (h _ (by decide))]
  have hchart : validateChart dumpSize (.obj fields') = validateChart dumpSize (.obj fields) := by
    unfold validateChart validateChartData
    rw [hasText_congr (h _ (by decide))]
    simp only [required_congr (h "chartType" (by decide)), optional_congr (h "title" (by decide)),
      required_congr (h "columns" (by decide)), index_congr (h "columns" (by decide)),
      required_congr (h "rows" (by decide)), index_congr (h "rows" (by decide))]
  have hbend : validateBend (.obj fields') = validateBend (.obj fields) := by
    unfold validateBend Json.valueInt
    rw [contains_congr (h _ (by decide)), index_congr (h _ (by decide)),
      value_congr (h _ (by decide))]
  have hstroke : validateStroke (.obj fields') = validateStroke (.obj fields) := by
    unfold validateStroke validatePoints
    rw [hasText_congr (h _ (by decide)), contains_congr (h _ (by decide)),
      index_congr (h _ (by decide))]
  unfold validate Json.valueString at hvalid ⊢
  rw [hlist (by decide), hlist (by decide), optional_congr (h _ (by decide)),
    value_congr (h _ (by decide)), hrole, hresults, hchart, hbend, hstroke]
  simp only [Checked.bind_ok] at hvalid ⊢
  obtain ⟨_, hobject, kind, hkind, _, hknown, ⟨⟩, -, hrest⟩ := hvalid
  exact ⟨(), hobject, kind, hkind, (), hknown, (), hfields, hrest⟩

end Agree

/-! ## What is staged passes -/

section Staged

variable {dumpSize : Json → ℕ} {groups : List String} {admin : Bool}

/-- A text whose snapshot is an infinity. -/
structure Damaged (item : Json) : Prop where
  kind : ∃ kind, field? item "kind" = some (.str kind) ∧ keepsHistory kind
  snapshot : ∃ x, field? item "automerge_snapshot" = some (.float x) ∧ isfinite x = false

/-- A removal, or an item that passes: a snapshot that was read is not looked at. -/
def Stageable (dumpSize : Json → ℕ) (item : Json) : Prop :=
  item = .null ∨ validate dumpSize item = .ok () ∨ Damaged item

/-- Where the fields of a merged item come from. -/
theorem mergeHistory_mem {old merged : Json} {fields : List (String × Json)}
    (h : mergeHistory old (.obj fields) = .ok merged) :
    ∃ fields', merged = .obj fields' ∧ ∀ e ∈ fields', e ∈ fields ∨
      e.1 = "automerge_snapshot" ∧ field? old "automerge_snapshot" = some e.2 ∨
        ∃ changes, e = ("automerge_changes", .arr changes) ∧
          field? merged "automerge_changes" = some (.arr changes) := by
  unfold mergeHistory at h
  simp only [Checked.bind_ok] at h
  obtain ⟨kept, hkept, _, -, _, -, _, -, merged', -, h⟩ := h
  have hkept : ∃ fields', kept = .obj fields' ∧ ∀ e ∈ fields', e ∈ fields ∨
      e.1 = "automerge_snapshot" ∧ field? old "automerge_snapshot" = some e.2 := by
    unfold keepSnapshot at hkept
    split at hkept
    · obtain ⟨snapshot, hsnapshot, hassign⟩ := Checked.bind_ok.mp hkept
      refine ⟨_, (Except.ok.inj hassign).symm, fun e he ↦ ?_⟩
      rcases Assoc.mem_set he with rfl | hmem
      · exact Or.inr ⟨rfl, field?_of_index hsnapshot⟩
      · exact Or.inl hmem
    · exact ⟨fields, (Checked.pure_ok.mp hkept).symm, fun e he ↦ Or.inl he⟩
  obtain ⟨fields', rfl, hmem⟩ := hkept
  have hchanges := field?_assign h "automerge_changes"
  refine ⟨_, (Except.ok.inj h).symm, fun e he ↦ ?_⟩
  rcases Assoc.mem_set he with rfl | he
  · exact Or.inr (Or.inr ⟨_, rfl, by rw [hchanges, if_pos rfl]⟩)
  · exact (hmem e he).imp_right Or.inl

theorem mergeHistory_stageable {old item merged : Json} {kind : String}
    (hitem : validate dumpSize item = .ok ()) (hkind : field? item "kind" = some (.str kind))
    (hkeeps : keepsHistory kind) (h : mergeHistory old item = .ok merged) :
    Stageable dumpSize merged := by
  obtain ⟨hsnapshot, hfields, -⟩ := mergeHistory_ok h
  by_cases hdamaged : ∃ x, field? old "automerge_snapshot" = some (.float x) ∧ isfinite x = false
  · obtain ⟨x, hx, hinfinite⟩ := hdamaged
    refine Or.inr (Or.inr ⟨⟨kind, ?_, hkeeps⟩, x, hsnapshot _ hx, hinfinite⟩)
    rw [hfields "kind" (by decide) (by decide), hkind]
  · match item, validate_object hitem with
    | .obj fields, _ =>
      obtain ⟨fields', rfl, hmem⟩ := mergeHistory_mem h
      refine Or.inr (Or.inl (validate_of_agree (fun k hk ↦ hfields k ?_ ?_) ?_ hitem))
      · rintro rfl
        exact hk List.mem_cons_self
      · rintro rfl
        exact hk (List.mem_cons_of_mem _ List.mem_cons_self)
      · refine validateFields_ok.mpr fun e he ↦ ?_
        obtain hsame | ⟨hkey, hold⟩ | ⟨changes, rfl, -⟩ := hmem e he
        · exact validateFields_ok.mp (validate_fields hitem) e hsame
        · refine ⟨by rw [hkey]; decide, fun x hx ↦ ?_⟩
          by_contra hinfinite
          exact hdamaged ⟨x, hx ▸ hold, Bool.eq_false_of_not_eq_true hinfinite⟩
        · exact ⟨(by decide : itemFields.contains "automerge_changes" = true),
            fun x hx ↦ nomatch hx⟩

theorem storedItem_stageable {old operation item : Json}
    (h : storedItem dumpSize groups admin old operation = .ok item) :
    Stageable dumpSize item := by
  unfold storedItem at h
  simp only [Checked.bind_ok] at h
  obtain ⟨patched, -, ⟨⟩, hvalid, updated, hupdated, kind, hkind, h⟩ := h
  obtain rfl := queryUpdatedItem_eq hupdated
  split at h
  · next hkeeps =>
    obtain ⟨-, hkeeps⟩ := (Bool.and_eq_true _ _).mp hkeeps
    refine mergeHistory_stageable hvalid (field?_of_valueString hkind ?_) hkeeps h
    rintro rfl
    exact absurd hkeeps (by decide)
  · rw [← Checked.pure_ok.mp h]
    exact Or.inr (Or.inl hvalid)

/-- Every staged item, except one that is just being read, is a removal or passes. -/
def Validated (dumpSize : Json → ℕ) (result : Mutation) (reading : Option String) : Prop :=
  ∀ id item, some id ≠ reading → result.items.lookup id = some item → Stageable dumpSize item

theorem Validated.stage {result : Mutation} {id : String} {item : Json}
    (h : Validated dumpSize result (some id))
    (hitem : Stageable dumpSize item) : Validated dumpSize (result.stage id item) none := by
  intro id' item' _ hlookup
  rw [Mutation.stage, Assoc.lookup_set] at hlookup
  split_ifs at hlookup with hid
  · rwa [← Option.some.inj hlookup]
  · exact h id' item' (fun heq ↦ hid (Option.some.inj heq).symm) hlookup

variable {σ : Type} {I : σ → Prop} {read : String → Query σ (Option Json)}
  (hread : ∀ id, Query.Keeps I (read id)) {result : Mutation}

open Query

include hread

theorem get_validated (h : Validated dumpSize result none) (id : String) :
    Yields I (get read groups admin result id) fun r ↦ Validated dumpSize r.2 (some id) := by
  refine yields_step fun _ _ ↦ ?_
  have hothers : Validated dumpSize result (some id) := fun id' item _ ↦ h id' item nofun
  cases result.items.lookup id with
  | some item => exact yields_pure hothers
  | none =>
    refine yields_bind (hread id).yields fun found _ ↦ yields_step fun _ _ ↦ ?_
    refine yields_step fun _ _ ↦ yields_step fun item _ ↦ yields_pure fun id' item' hne hlookup ↦ ?_
    have hid : id ≠ id' := fun heq ↦ hne (congrArg some heq.symm)
    refine hothers id' item' hne ?_
    rwa [Assoc.lookup_set_of_ne hid] at hlookup

theorem translateOne_validated {dx dy : ℚ} {state : Mutation × List String}
    (h : Validated dumpSize state.1 none) (value : Json) :
    Yields I (translateOne dumpSize read groups admin dx dy state value) fun r ↦
      Validated dumpSize r.1 none := by
  refine yields_step fun _ _ ↦ yields_step fun id _ ↦ yields_step fun _ _ ↦ ?_
  refine yields_bind (get_validated hread h id) fun r hr ↦ yields_step fun _ _ ↦ ?_
  refine yields_step fun _ _ ↦ yields_step fun _ _ ↦ yields_step fun _ _ ↦ yields_step fun _ _ ↦ ?_
  refine yields_step fun item _ ↦ yields_step fun _ hvalid ↦ yields_pure ?_
  exact hr.stage (Or.inr (Or.inl hvalid))

theorem translate_validated (h : Validated dumpSize result none) (operation : Json) :
    Yields I (translate dumpSize read groups admin result operation) fun r ↦
      Validated dumpSize r none := by
  refine yields_step fun ids _ ↦ yields_step fun _ _ ↦ yields_step fun _ _ ↦ ?_
  refine yields_step fun _ _ ↦ yields_step fun _ _ ↦ yields_step fun dx _ ↦ ?_
  refine yields_step fun _ _ ↦ yields_step fun dy _ ↦ yields_step fun _ _ ↦ ?_
  refine yields_bind (yields_foldlM (P := fun _ (state : Mutation × List String) ↦
    Validated dumpSize state.1 none) (fun _ _ value hstate ↦
      translateOne_validated hread hstate value) ids.elements [] h) fun state hstate ↦ ?_
  exact yields_pure hstate

theorem prepareOperation_validated (h : Validated dumpSize result none) (operation : Json) :
    Yields I (prepareOperation dumpSize read groups admin result operation) fun r ↦
      Validated dumpSize r none := by
  refine yields_step fun _ _ ↦ yields_step fun action _ ↦ ?_
  split
  · refine yields_bind (translate_validated hread h operation) fun r hr ↦ ?_
    exact yields_step fun _ _ ↦ yields_pure hr
  · have h' : Validated dumpSize { result with onlyTranslations := false } none := h
    refine yields_step fun id _ ↦ yields_bind (get_validated hread h' id) fun r hr ↦ ?_
    dsimp only
    split
    · refine yields_lift fun r' hdelete ↦ ?_
      obtain ⟨_, -, _, -, hdelete⟩ := by simpa only [deleteItem, Checked.bind_ok] using hdelete
      rw [← Checked.pure_ok.mp hdelete]
      exact hr.stage (Or.inl rfl)
    · refine yields_lift fun r' hstore ↦ ?_
      unfold storeItem at hstore
      simp only [Checked.bind_ok] at hstore
      obtain ⟨_, -, _, -, _, -, item, hitem, _, -, hstore⟩ := hstore
      rw [← Checked.pure_ok.mp hstore]
      exact hr.stage (storedItem_stageable hitem)

/-- **What a batch stages passes**, whatever was read, unless a snapshot that was read is an
infinity. -/
theorem prepare_validated (operations : Json) :
    Yields I (prepare dumpSize read groups admin operations) fun r ↦
      ∀ id item, r.items.lookup id = some item → Stageable dumpSize item := by
  refine yields_step fun _ _ ↦ ?_
  refine yields_bind (yields_foldlM (P := fun _ (result : Mutation) ↦
    Validated dumpSize result none) (fun _ _ operation hresult ↦
      prepareOperation_validated hread hresult operation) _ [] nofun) fun result hresult ↦ ?_
  refine yields_bind (keeps_forM (fun e : String × Json ↦
    checkConnector_keeps hread result e.2) _).yields fun _ _ ↦ yields_step fun _ _ ↦ ?_
  exact yields_pure fun id item hlookup ↦ hresult id item nofun hlookup

end Staged

end Broker

end Agora
