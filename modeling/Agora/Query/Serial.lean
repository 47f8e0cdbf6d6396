import Agora.Optimistic.Versions
import Agora.Query.Accepted

/-!
# Batches one after the other

Several servers may prepare batches of one canvas at once, from items that they read at different
moments, and give them to the script later, in any order, more than once. The script compares the
revision of every item with the one it was read at, and so only batches go through whose items are
still those they were prepared from: whatever is stored in the end is the outcome of the applied
batches alone, one after the other, each prepared from the very document it is applied to
(`batches_serial`).

An item without a revision counts as revision 0, and one that is not there as revision -1.
-/

namespace Agora

open Broker Query

namespace Serial

/-! ## Revisions as versions -/

/-- The revision of an item. -/
def versionOf : Option Json → ℤ
  | some item =>
    match field? item "__broker_revision" with
    | some (.int n) => n
    | _ => 0
  | none => -1

def revisions : Versioning (Option Json) where
  absent := none
  version := versionOf
  version_absent := by decide

/-- A board whose items have no revision, or one that was given out. -/
structure Lawful (b : Board) : Prop where
  revision : 0 ≤ b.revision ∧ (b.revision : ℚ) < Broker.revisionLimit
  items : ∀ id item, b.items id = some item → ∃ fields, item = .obj fields ∧
    (fields.lookup "__broker_revision" = none ∨
      ∃ n, fields.lookup "__broker_revision" = some (.int n) ∧ 0 < n ∧ n ≤ b.revision)

variable {b : Board}

theorem Lawful.dated (h : Lawful b) : revisions.Dated b.revision b.items := by
  refine ⟨h.revision.1, fun id ↦ ?_⟩
  rcases hitem : b.items id with _ | item
  · exact Or.inl rfl
  · right
    obtain ⟨fields, rfl, hnone | ⟨n, hn, hlow, hhigh⟩⟩ := h.items id item hitem
    · have hversion : revisions.version (some (.obj fields)) = 0 := by
        simp [revisions, versionOf, field?_obj, hnone]
      rw [hversion]
      exact ⟨Int.le_refl _, h.revision.1⟩
    · have hversion : revisions.version (some (.obj fields)) = n := by
        simp [revisions, versionOf, field?_obj, hn]
      rw [hversion]
      omega

/-- The script compares the revisions of the items. -/
theorem Lawful.revisionAt (h : Lawful b) (readNumber : String → Option ℚ) (id : String) :
    revisionAt readNumber (b.items id) = some (versionOf (b.items id) : ℚ) := by
  rcases hitem : b.items id with _ | item
  · simp [Broker.revisionAt, versionOf]
  · obtain ⟨fields, rfl, hnone | ⟨n, hn, -, -⟩⟩ := h.items id item hitem
    · simp [Broker.revisionAt, versionOf, field?_obj, hnone, Script.toNumber]
    · simp [Broker.revisionAt, versionOf, field?_obj, hn, Script.toNumber]

theorem lt_of_lt_revisionLimit {n : ℤ} (h : (n : ℚ) < Broker.revisionLimit) :
    n < 9007199254740991 := by
  rw [Broker.revisionLimit] at h
  exact_mod_cast h

/-- The revision that is expected of an item is the one it was read at. -/
theorem Lawful.readRevision (h : Lawful b) {id : String} {revision : ℤ}
    (hread : readRevision ((b.items id).getD .null) = .ok revision) :
    revision = versionOf (b.items id) := by
  have hlimit := lt_of_lt_revisionLimit h.revision.2
  rcases hitem : b.items id with _ | item
  · rw [hitem] at hread
    exact (Except.ok.inj hread).symm
  · obtain ⟨fields, rfl, hnone | ⟨n, hn, hlow, hhigh⟩⟩ := h.items id item hitem
    · rw [hitem, Option.getD_some] at hread
      simp only [Broker.readRevision, Json.isNull, Bool.false_eq_true, if_false, Json.valueLong,
        Json.value, hnone, Except.ok.injEq] at hread
      simp [versionOf, field?_obj, hnone, ← hread]
    · rw [hitem, Option.getD_some] at hread
      simp only [Broker.readRevision, Json.isNull, Bool.false_eq_true, if_false, Json.valueLong,
        Json.value, hn, Json.getLong, Json.getSigned, Except.ok.injEq] at hread
      rw [Json.wrap_64 (by omega) (by omega)] at hread
      simp [versionOf, field?_obj, hn, ← hread]

/-- Applying a batch gives the items that it changes the next revision. -/
theorem commits_apply {batch : Batch} (hlike : ∀ e ∈ batch.items, Itemlike e.2) (b : Board) :
    revisions.Commits b.revision b.items (b.apply batch).items := by
  intro id
  rcases hlookup : batch.items.lookup id with _ | item
  · left
    simp [Board.apply, hlookup]
  · right
    have hstamp : (b.apply batch).items id = stamp (b.revision + 1) item := by
      simp [Board.apply, hlookup]
    rw [hstamp]
    rcases hlike _ (Assoc.mem_of_lookup hlookup) with hnull | hobject
    · obtain rfl : item = .null := hnull
      exact Or.inl rfl
    · right
      obtain ⟨fields, rfl⟩ : ∃ fields, item = .obj fields := by
        rcases item
        all_goals simp [Json.isObject] at hobject ⊢
      simp [revisions, versionOf, stamp, field?_obj]

theorem Lawful.apply (h : Lawful b) {batch : Batch} (hlike : ∀ e ∈ batch.items, Itemlike e.2)
    (hlimit : (b.revision : ℚ) + 1 < Broker.revisionLimit) : Lawful (b.apply batch) := by
  obtain ⟨hlow, -⟩ := h.revision
  refine ⟨⟨?_, ?_⟩, fun id item hitem ↦ ?_⟩
  · change 0 ≤ b.revision + 1
    omega
  · change ((b.revision + 1 : ℤ) : ℚ) < Broker.revisionLimit
    rwa [Int.cast_add, Int.cast_one]
  · rcases hlookup : batch.items.lookup id with _ | v
    · have hold : b.items id = some item := by
        rw [← hitem]
        simp [Board.apply, hlookup]
      obtain ⟨fields, rfl, hrevision⟩ := h.items id item hold
      refine ⟨fields, rfl, hrevision.imp_right ?_⟩
      rintro ⟨n, hn, hpositive, hle⟩
      refine ⟨n, hn, hpositive, ?_⟩
      change n ≤ b.revision + 1
      omega
    · have hstamp : stamp (b.revision + 1) v = some item := by
        rw [← hitem]
        simp [Board.apply, hlookup]
      rcases hlike _ (Assoc.mem_of_lookup hlookup) with hnull | hobject
      · obtain rfl : v = .null := hnull
        cases hstamp
      · obtain ⟨fields, rfl⟩ : ∃ fields, v = .obj fields := by
          rcases v
          all_goals simp [Json.isObject] at hobject ⊢
        refine ⟨_, (Option.some.inj hstamp).symm, Or.inr ⟨b.revision + 1, by simp, by omega, ?_⟩⟩
        exact Int.le_refl _

/-! ## Servers -/

/-- A batch that was prepared, with what was asked for and by whom. -/
structure Flight where
  groups : List String
  admin : Bool
  operations : List Json
  request : BatchRequest
  mutation : Mutation

def Flight.batch (f : Flight) : Batch := batchOf f.request f.mutation

/-- The document and those before it, the batches in flight, and those that were applied. -/
structure System where
  document : Json
  earlier : List Json := []
  inFlight : List Flight := []
  applied : List Flight := []

/-- All documents so far. -/
def System.documents (S : System) : List Json := S.document :: S.earlier

def appliedAfter (applied : List Flight) (f : Flight) : Option Reply → List Flight
  | some (.applied _ _) => applied ++ [f]
  | _ => applied

inductive Step (dumpSize : Json → ℕ) (readNumber : String → Option ℚ) : System → System → Prop
  /-- A batch is prepared from items that were read, each at some moment. -/
  | prepare (S : System) {σ : Type} (I : σ → Prop) (read : String → Query σ (Option Json))
      (keeps : ∀ id, Keeps I (read id))
      (reads : ∀ id old, Reads I read id old → ∃ d ∈ S.documents, old = itemOf d id)
      (groups : List String) (admin : Bool) (operations : Json) (request : BatchRequest)
      (mutation : Mutation) (s s' : σ) (start : I s)
      (run : prepare dumpSize read groups admin operations s = (.ok mutation, s')) :
      Step dumpSize readNumber S { S with
        inFlight := ⟨groups, admin, operations.elements, request, mutation⟩ :: S.inFlight }
  /-- The script runs on a batch, which stays in flight. -/
  | run (S : System) (f : Flight) (mem : f ∈ S.inFlight) (batch' : Batch)
      (order : f.batch.Reordered batch') (reply : Option Reply) (d : Json)
      (run : applyBrokerBatch readNumber batch' (some S.document) = (reply, some d)) :
      Step dumpSize readNumber S { S with
        document := d
        earlier := S.documents
        applied := appliedAfter S.applied f reply }

/-- The systems that are reached from a document. -/
inductive Reachable (dumpSize : Json → ℕ) (readNumber : String → Option ℚ) (start : Json) :
    System → Prop
  | init : Reachable dumpSize readNumber start ⟨start, [], [], []⟩
  | step {S S' : System} (h : Reachable dumpSize readNumber start S)
      (hstep : Step dumpSize readNumber S S') : Reachable dumpSize readNumber start S'

/-- Batches one after the other, each prepared from the document it is applied to. -/
inductive Executed (dumpSize : Json → ℕ) (start : Json) : List Flight → Json → Prop
  | start : Executed dumpSize start [] start
  | idle {past : List Flight} {d d' : Json} (h : Executed dumpSize start past d)
      (created : LedgerCreated d d') : Executed dumpSize start past d'
  | apply {past : List Flight} {d d' : Json} (h : Executed dumpSize start past d) (f : Flight)
      (staged : StagedFrom dumpSize f.groups f.admin d f.operations f.mutation) (b : Board)
      (before : Shows d b) (after : Shows d' (b.apply f.batch)) (frame : FramesBatch f.batch d d') :
      Executed dumpSize start (past ++ [f]) d'

/-! ## The invariant -/

variable {dumpSize : Json → ℕ} {readNumber : String → Option ℚ}

/-- What is staged for one item was made from what one of the documents has there. -/
structure MadeFrom (dumpSize : Json → ℕ) (f : Flight) (id : String) (item d : Json) : Prop where
  previous : f.mutation.previous.lookup id = some (itemOf d id)
  access : itemOf d id = .null ∨ queryCanAccess (itemOf d id) f.groups f.admin
  revision : ∃ revision, f.mutation.expected.lookup id = some revision ∧
    readRevision (itemOf d id) = .ok revision
  edited : ∃ start, visibleItem (itemOf d id) = .ok start ∧
    Edits dumpSize f.groups f.admin (historyOf f.operations id) start item

/-- A batch that was prepared from some of the documents. -/
structure PreparedFrom (dumpSize : Json → ℕ) (documents : List Json) (f : Flight) : Prop where
  staged : f.batch.Staged
  expected : f.mutation.expected.map Prod.fst = f.mutation.items.map Prod.fst
  untouched : ∀ id, f.mutation.items.lookup id = none → historyOf f.operations id = []
  items : ∀ id item, f.mutation.items.lookup id = some item →
    ∃ d ∈ documents, MadeFrom dumpSize f id item d
  translated : Translated f.operations f.mutation

theorem PreparedFrom.mono {documents documents' : List Json} {f : Flight}
    (h : PreparedFrom dumpSize documents f) (hsub : ∀ d ∈ documents, d ∈ documents') :
    PreparedFrom dumpSize documents' f := by
  refine ⟨h.staged, h.expected, h.untouched, fun id item hitem ↦ ?_, h.translated⟩
  obtain ⟨d, hd, hmade⟩ := h.items id item hitem
  exact ⟨d, hsub d hd, hmade⟩

/-- Preparing, whenever its items are read. -/
theorem preparedFrom_of_prepare {σ : Type} {I : σ → Prop} {read : String → Query σ (Option Json)}
    (hkeeps : ∀ id, Keeps I (read id)) {documents : List Json}
    (hreads : ∀ id old, Reads I read id old → ∃ d ∈ documents, old = itemOf d id)
    {groups : List String} {admin : Bool} {operations : Json} {request : BatchRequest}
    {mutation : Mutation} {s s' : σ} (hs : I s)
    (hrun : prepare dumpSize read groups admin operations s = (.ok mutation, s')) :
    PreparedFrom dumpSize documents ⟨groups, admin, operations.elements, request, mutation⟩ := by
  obtain ⟨-, htraced⟩ := prepare_traced hkeeps operations s mutation s' hs hrun
  obtain ⟨-, htranslated⟩ := prepare_translated hkeeps operations s mutation s' hs hrun
  refine ⟨htraced.staged request, htraced.expected, htraced.untouched, fun id item hitem ↦ ?_,
    htranslated⟩
  obtain ⟨old, revision, hprevious, hexpected, htrace⟩ := htraced.of_lookup hitem
  obtain ⟨d, hd, rfl⟩ := hreads id old htrace.reads
  exact ⟨d, hd, hprevious, htrace.access, ⟨revision, hexpected, htrace.revision⟩, htrace.edited⟩

/-- A batch whose items are still what they were read as is prepared from the document itself. -/
theorem PreparedFrom.stagedFrom {documents : List Json} {f : Flight} {d : Json}
    (h : PreparedFrom dumpSize documents f)
    (hcurrent : ∀ id item, f.mutation.items.lookup id = some item → ∀ d' ∈ documents,
      MadeFrom dumpSize f id item d' → itemOf d id = itemOf d' id) :
    StagedFrom dumpSize f.groups f.admin d f.operations f.mutation := by
  have hmade : ∀ id item, f.mutation.items.lookup id = some item →
      MadeFrom dumpSize f id item d := by
    intro id item hitem
    obtain ⟨d', hd', hmade⟩ := h.items id item hitem
    have hsame := hcurrent id item hitem d' hd' hmade
    exact ⟨hsame ▸ hmade.previous, hsame ▸ hmade.access, hsame ▸ hmade.revision,
      hsame ▸ hmade.edited⟩
  exact
    { nodup := h.staged.nodup
      expected := h.expected
      untouched := h.untouched
      previous := fun id item hitem ↦ (hmade id item hitem).previous
      access := fun id item hitem ↦ (hmade id item hitem).access
      revision := fun id item hitem ↦ (hmade id item hitem).revision
      edited := fun id item hitem ↦ (hmade id item hitem).edited
      only := h.translated.only
      translations := h.translated.translations
      once := h.translated.once }

/-- The documents are those of a run of writes, and what is in flight was prepared from them. -/
structure Inv (dumpSize : Json → ℕ) (start : Json) (b₀ : Board) (S : System) (b : Board) :
    Prop where
  shows : Shows S.document b
  lawful : Lawful b
  history : ∃ past, revisions.Run b₀.revision b₀.items past b.revision b.items ∧
    ∀ d ∈ S.documents, ∃ b', Shows d b' ∧ Lawful b' ∧
      (b'.revision, b'.items) ∈ (b.revision, b.items) :: past
  flying : ∀ f ∈ S.inFlight, PreparedFrom dumpSize S.documents f
  executed : Executed dumpSize start S.applied S.document

theorem itemOf_shows {d : Json} (h : Shows d b) (id : String) :
    itemOf d id = (b.items id).getD .null := by
  rw [itemOf, h.items]

/-- An item that has the revision it was read at is what it was read as. -/
theorem Inv.current {start : Json} {b₀ : Board} {S : System} (hlawful : Lawful b₀)
    (h : Inv dumpSize start b₀ S b) {f : Flight} {id : String} {item d : Json}
    (hd : d ∈ S.documents) (hmade : MadeFrom dumpSize f id item d)
    (hunchanged : ∀ e ∈ f.mutation.expected,
      revisionAt readNumber (b.items e.1) = some (e.2 : ℚ)) :
    itemOf S.document id = itemOf d id := by
  obtain ⟨past, hrun, hdocuments⟩ := h.history
  obtain ⟨b', hshows', hlawful', hpast⟩ := hdocuments d hd
  obtain ⟨revision, hexpected, hread⟩ := hmade.revision
  have hnow := hunchanged _ (Assoc.mem_of_lookup hexpected)
  rw [h.lawful.revisionAt readNumber id, Option.some.injEq] at hnow
  have hnow : versionOf (b.items id) = revision := by exact_mod_cast hnow
  rw [itemOf_shows hshows'] at hread
  have hthen := hlawful'.readRevision hread
  rw [itemOf_shows h.shows, itemOf_shows hshows']
  exact congrArg (Option.getD · .null) (hrun.current hlawful.dated hpast (hnow.trans hthen))

theorem Inv.step {start : Json} {b₀ : Board} {S S' : System} (hlawful : Lawful b₀)
    (h : Inv dumpSize start b₀ S b) (hstep : Step dumpSize readNumber S S') :
    ∃ b', Inv dumpSize start b₀ S' b' := by
  rcases hstep with ⟨I, read, hkeeps, hreads, groups, admin, operations, request, mutation, s, s',
    hs, hrun⟩ | ⟨f, hmem, batch', horder, reply, d, hrun⟩
  · refine ⟨b, h.shows, h.lawful, h.history, fun f hf ↦ ?_, h.executed⟩
    rcases List.mem_cons.mp hf with rfl | hf
    · exact preparedFrom_of_prepare hkeeps hreads hs hrun
    · exact h.flying f hf
  · have hflying := h.flying f hmem
    have hstaged := hflying.staged
    obtain ⟨reply', d', b', hrun', hran⟩ :=
      applyBrokerBatch_spec readNumber (horder.staged hstaged) h.shows
    rw [hrun, Prod.mk.injEq, Option.some.injEq] at hrun'
    obtain ⟨rfl, rfl⟩ := hrun'
    have hout := horder.outcome hstaged hran.outcome
    have hmore : ∀ g ∈ S.inFlight, PreparedFrom dumpSize (d :: S.documents) g :=
      fun g hg ↦ (h.flying g hg).mono fun _ ↦ List.mem_cons_of_mem _
    obtain ⟨past, hpast, hdocuments⟩ := h.history
    by_cases happlied : ∃ r n, reply = some (.applied r n)
    · obtain ⟨r, n, rfl⟩ := happlied
      have hlimit := hout.limit
      obtain ⟨rfl, -, -, -, hunchanged⟩ := hout.applied_inv
      -- items whose revisions have not changed are the items the batch was prepared from
      have hfrom : StagedFrom dumpSize f.groups f.admin S.document f.operations f.mutation :=
        hflying.stagedFrom fun id item _ d' hd' hmade ↦ h.current hlawful hd' hmade hunchanged
      have hframe : FramesBatch f.batch S.document d := by
        rcases hran.frame with ⟨-, hsame⟩ | ⟨hframe, -⟩
        · have hrevision : b.revision + 1 = b.revision := congrArg Board.revision hsame
          omega
        · exact horder.frames hframe
      have hlawful' := h.lawful.apply hstaged.itemlike hlimit
      refine ⟨_, hran.shows, hlawful', ⟨_, hpast.commit (commits_apply hstaged.itemlike b),
        fun d' hd' ↦ ?_⟩, hmore, .apply h.executed f hfrom b h.shows hran.shows hframe⟩
      rcases List.mem_cons.mp hd' with rfl | hd'
      · exact ⟨_, hran.shows, hlawful', List.mem_cons_self⟩
      · obtain ⟨b', hshows', hlawful', hmem'⟩ := hdocuments d' hd'
        exact ⟨b', hshows', hlawful', List.mem_cons_of_mem _ hmem'⟩
    · have hnot : ∀ r n, reply ≠ some (.applied r n) := fun r n heq ↦ happlied ⟨r, n, heq⟩
      obtain rfl := hout.unapplied hnot
      have hcreated : LedgerCreated S.document d := by
        rcases hran.frame with ⟨hcreated, -⟩ | ⟨-, hsame⟩
        · exact hcreated
        · have hrevision : b'.revision = b'.revision + 1 := congrArg Board.revision hsame
          omega
      have hlog : appliedAfter S.applied f reply = S.applied := by
        rcases reply with _ | reply
        · rfl
        · rcases reply
          case applied r n => exact absurd rfl (hnot r n)
          all_goals rfl
      refine ⟨b', hran.shows, h.lawful, ⟨past, hpast, fun d' hd' ↦ ?_⟩, hmore, ?_⟩
      · rcases List.mem_cons.mp hd' with rfl | hd'
        · exact ⟨b', hran.shows, h.lawful, List.mem_cons_self⟩
        · exact hdocuments d' hd'
      · rw [hlog]
        exact .idle h.executed hcreated

/-- **Serial batches.** -/
theorem batches_serial {start : Json} {b₀ : Board} (hshows : Shows start b₀) (hlawful : Lawful b₀)
    {S : System} (h : Reachable dumpSize readNumber start S) :
    Executed dumpSize start S.applied S.document := by
  have hinv : ∃ b, Inv dumpSize start b₀ S b := by
    induction h with
    | init =>
      refine ⟨b₀, hshows, hlawful, ⟨[], .start, fun d hd ↦ ?_⟩, List.forall_mem_nil _, .start⟩
      obtain rfl := List.mem_singleton.mp hd
      exact ⟨b₀, hshows, hlawful, List.mem_cons_self⟩
    | step _ hstep ih =>
      obtain ⟨b, hb⟩ := ih
      exact hb.step hlawful hstep
  obtain ⟨b, hb⟩ := hinv
  exact hb.executed

/-- Reading from a document. -/
def readFrom (id : String) : Query Json (Option Json) := fun d ↦ (.ok (d.find (itemPath id)), d)

/-- The creation of a shape. -/
def creation : Flight :=
  ⟨["staff"], false, requested sender, stagedCreation.1, stagedCreation.2⟩

theorem shape_serial : Executed (fun _ ↦ 0) blankDocument [creation] shapeDocument := by
  have hlawful : Lawful ⟨0, fun _ ↦ none, fun _ ↦ none⟩ :=
    ⟨⟨Int.le_refl _, by rw [Broker.revisionLimit]; decide⟩, fun _ _ h ↦ by cases h⟩
  have hreads : ∀ id old, Reads (· = blankDocument) readFrom id old →
      ∃ d ∈ (System.mk blankDocument [] [] []).documents, old = itemOf d id := by
    rintro id old ⟨d, d', found, rfl, hrun, rfl⟩
    obtain rfl := Except.ok.inj (Prod.mk.inj hrun).1
    exact ⟨_, List.mem_cons_self, rfl⟩
  refine @batches_serial (fun _ ↦ 0) (fun _ ↦ none) _ _ blankDocument_shows hlawful
    ⟨shapeDocument, [blankDocument], [creation], [creation]⟩ (.step (.step .init
      (.prepare ⟨blankDocument, [], [], []⟩ (· = blankDocument) readFrom (fun id d hd ↦ hd) hreads
        ["staff"] false (.arr (requested sender)) stagedCreation.1 stagedCreation.2 blankDocument
        blankDocument rfl ?_))
      (.run _ creation List.mem_cons_self creationBatch ?_ (some (.applied 1 1)) shapeDocument ?_))
  · rfl
  · exact ⟨rfl, rfl, rfl, rfl, .refl _, .refl _⟩
  · decide +kernel

end Serial

end Agora
