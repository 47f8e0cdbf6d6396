import Agora.Passwords.Access
import Agora.Settings.History

/-!
# The life of a canvas

A server loads a canvas, changes its settings and gives it up, over and over. Calls may fail at any
point of this. As long as no call has its effect without a reply, the canvas stays as it should be
(`canvas_stays_lawful`): it keeps its owner, who is one of the people and in the group of the
administrators; the groups have no other members than the people; its password is a hash, under the
name of today; and it is not open to everyone while it has a password.
-/

namespace Agora

namespace Settings

open Snapshot (Fields passwordField legacyFields)

variable {server : Server} {canvasId owner : ℤ} {doc doc' : Fields} {u : Update}

/-! ## Documents that are as they should be -/

structure Lawful (owner : ℤ) (doc : Fields) : Prop where
  members : ∃ m : Membership ℤ String "admin-group", m.owner = owner ∧ Represents m doc
  hashed : Hashed doc
  closed : ¬(doc.lookup "visibility" = some (.str "public") ∧ isProtected (.obj doc))

theorem Lawful.carried (h : Lawful owner doc) (hcarried : Carried doc doc') :
    Lawful owner doc' := by
  have hsame {name : String} (hmoved : name ∉ movedNames) (hlegacy : name ∉ legacyFields) :=
    hcarried.lookup_of_notMem hmoved hlegacy
  obtain ⟨m, howner, hm⟩ := h.members
  refine ⟨⟨m, howner, hm.congr (hsame (by decide) (by decide)) (hsame (by decide) (by decide))
    (hsame (by decide) (by decide))⟩, h.hashed.carried hcarried, ?_⟩
  rw [hsame (by decide) (by decide), isProtected_congr (hsame (by decide) (by decide))]
  exact h.closed

/-! ## Changes -/

/-- The servers hash a password with a salt of its own. -/
def Hashes (server : Server) (pbkdf2 : Passwords.Pbkdf2) : Prop :=
  ∀ password hash, server.hashCanvasPassword password = some hash →
    ∃ salt, Passwords.hashCanvasPassword pbkdf2 salt password = some hash

theorem isCanvasPasswordHash_of_hashes {pbkdf2 : Passwords.Pbkdf2} (h : Hashes server pbkdf2)
    {password hash : String} (hhash : server.hashCanvasPassword password = some hash) :
    isCanvasPasswordHash hash = true := by
  obtain ⟨salt, hsalt⟩ := h password hash hhash
  exact (@Passwords.passwordMatches_hashCanvasPassword Passwords.noBCrypt _ _ _ _ hsalt).1

theorem Hashed.outcomes {pbkdf2 : Passwords.Pbkdf2} (hserver : Hashes server pbkdf2)
    (hplanned : Planned server.hashCanvasPassword u.doc u.changes) (h : Hashed u.doc) :
    ∀ doc ∈ u.outcomes, Hashed doc := by
  intro doc hmem
  refine ⟨nodup_outcomes h.nodup doc hmem, ?_⟩
  have hlookup :=
    lookup_outcomes hplanned (by decide : passwordField ≠ "settings-revision") doc hmem
  obtain ⟨v, hv, hvalue⟩ := h.password
  rcases hlookup with heq | heq | ⟨-, hnone, -⟩
  · exact ⟨v, heq.trans hv, hvalue⟩
  · rw [heq, hv]
    generalize u.changes = changes at hplanned
    cases hplanned with
    | visibility | name | description | add | remove => exact ⟨v, rfl, hvalue⟩
    | unprotect => exact ⟨.null, rfl, Or.inl rfl⟩
    | protect value hash hhash =>
      exact ⟨.str hash, rfl, Or.inr ⟨hash, rfl, isCanvasPasswordHash_of_hashes hserver hhash⟩⟩
  · rw [hnone] at hv
    nomatch hv

/-- The older names of the password do not come back. -/
theorem Current.outcomes (hplanned : Planned server.hashCanvasPassword u.doc u.changes)
    (h : Current u.doc) : ∀ doc ∈ u.outcomes, Current doc := by
  intro doc hmem name hname
  have hkept : ∀ name ∈ legacyFields, name ≠ "settings-revision" ∧ name ∉ editableFields := by
    decide
  obtain ⟨hrevision, heditable⟩ := hkept name hname
  have hunchanged : name ∉ u.changes.map Prod.fst := fun hin ↦
    heditable (hplanned.editable name hin)
  have hnone : u.changes.lookup name = none := by
    rwa [← Option.not_isSome_iff_eq_none, Assoc.lookup_isSome_iff]
  rcases lookup_outcomes hplanned hrevision doc hmem with heq | heq | ⟨hin, -, -⟩
  · exact heq.trans (h name hname)
  · rw [heq, hnone, Option.none_or]
    exact h name hname
  · exact absurd hin hunchanged

theorem Lawful.outcomes {pbkdf2 : Passwords.Pbkdf2} (hserver : Hashes server pbkdf2)
    (hplanned : Planned server.hashCanvasPassword u.doc u.changes) (h : Lawful owner u.doc) :
    ∀ doc ∈ u.outcomes, Lawful owner doc := by
  intro doc hmem
  obtain ⟨m, rfl, hm⟩ := h.members
  exact ⟨hm.outcomes hplanned doc hmem, h.hashed.outcomes hserver hplanned doc hmem,
    not_public_and_protected hplanned h.hashed h.closed doc hmem⟩

/-! ## Runs -/

/-- What becomes of a canvas: a server without an object for it loads it, a server with one changes
its settings or gives it up. Before each step it is open how the calls of the step will end, except
that none of them has an effect without a reply. -/
inductive Lived (server : Server) (canvasId : ℤ) (start : Store) : Store → Prop
  | start : Lived server canvasId start start
  | load {s : Store} (h : Lived server canvasId start s) (absent : s.revision = none)
      (faults : List Fault) (hloss : ∀ fault ∈ faults, fault ≠ .lost) (generation : String) :
      Lived server canvasId start
        (getOrCreateCanvas server canvasId generation { s with faults := faults }).2
  | change {s : Store} (h : Lived server canvasId start s) (present : s.revision.isSome)
      (faults : List Fault) (hloss : ∀ fault ∈ faults, fault ≠ .lost)
      (directory : List Fault → Directory) (task : Task) :
      Lived server canvasId start
        (executeSettings (settingsBackend server directory) canvasId task.userId task.nickname
          task.tag task.event task.requestId { s with faults := faults }).2
  | remove {s : Store} (h : Lived server canvasId start s) (present : s.revision.isSome)
      (faults : List Fault) (hloss : ∀ fault ∈ faults, fault ≠ .lost) :
      Lived server canvasId start (removeCanvas server canvasId { s with faults := faults }).2

/-- What is said of documents in memory, and of stored ones. -/
theorem lawful_lifelong (server : Server) (owner : ℤ) :
    Lifelong server (fun doc ↦ Lawful owner doc ∧ Current doc) (Lawful owner) :=
  lifelong_of_carried server (fun _ h ↦ h.1.hashed) (fun _ h ↦ h.hashed)
    (fun _ _ h hcarried hcurrent ↦ ⟨h.carried hcarried, hcurrent⟩)
    (fun _ _ h hcarried ↦ ⟨h.1.carried hcarried, h.2.carried hcarried⟩)
    (fun _ _ h hcarried _ ↦ h.1.carried hcarried)

theorem Lived.sound {pbkdf2 : Passwords.Pbkdf2} (hserver : Hashes server pbkdf2) {start s : Store}
    (hstart : Sound (fun doc ↦ Lawful owner doc ∧ Current doc) (Lawful owner) canvasId start)
    (h : Lived server canvasId start s) :
    Sound (fun doc ↦ Lawful owner doc ∧ Current doc) (Lawful owner) canvasId s := by
  induction h with
  | start => exact hstart
  | @load s _ absent faults hloss generation ih =>
    exact (getOrCreateCanvas_triple (lawful_lifelong server owner) generation
      { s with faults := faults } hloss ⟨ih, absent⟩).2
  | @change s _ present faults hloss directory task ih =>
    refine (executeSettings_triple server directory canvasId (fun u hdoc hplanned _ doc hmem ↦ ?_)
      task.userId task.nickname task.tag task.event task.requestId { s with faults := faults }
      hloss ⟨ih, present⟩).2
    exact ⟨hdoc.1.outcomes hserver hplanned doc hmem, hdoc.2.outcomes hplanned doc hmem⟩
  | @remove s _ _ faults hloss ih =>
    exact (removeCanvas_triple (lawful_lifelong server owner) { s with faults := faults } hloss
      ih).2

/-- **A canvas stays as it should be.** From a canvas that is stored as it should be, and that no
server has loaded, the document in memory is as it should be after any run, and the stored one is
whenever the canvas is not loaded. -/
theorem canvas_stays_lawful {pbkdf2 : Passwords.Pbkdf2} (hserver : Hashes server pbkdf2)
    {start s : Store} (habsent : start.revision = none) (hmemory : start.document = none)
    (honly : OnlyStored canvasId start.index)
    (hstored : StoredIn (Lawful owner) canvasId start.index)
    (h : Lived server canvasId start s) :
    (∀ doc, s.document = some doc → Lawful owner doc ∧ Current doc) ∧
      (s.isCached = false → StoredIn (Lawful owner) canvasId s.index) := by
  have hstart : Sound (fun doc ↦ Lawful owner doc ∧ Current doc) (Lawful owner) canvasId start := by
    refine ⟨fun hsome ↦ ?_, fun doc hdoc ↦ ?_, honly, fun _ ↦ hstored⟩
    · rw [habsent] at hsome
      nomatch hsome
    · rw [hmemory] at hdoc
      nomatch hdoc
  have hsound := h.sound hserver hstart
  exact ⟨hsound.2.1, hsound.2.2.2⟩

/-! ### A canvas that is opened to everyone -/

def adasCanvas : Fields :=
  [("canvas-id", .int 7), ("admin-user-id", .int 1), ("people", .arr [.int 1]),
    ("inner-group", .obj [("admin-group", .arr [.int 1])]), (passwordField, .null),
    ("visibility", .str "private"), ("settings-revision", .int 0)]

theorem adasCanvas_lawful : Lawful 1 adasCanvas where
  members := by
    refine ⟨.found 1 "admin-group", rfl, rfl, rfl, [("admin-group", .arr [.int 1])], rfl,
      by decide, fun g ↦ ?_⟩
    by_cases hg : g = "admin-group"
    · subst hg
      rfl
    · rw [Assoc.lookup_cons_of_ne (Ne.symm hg)]
      simp [Membership.found, hg]
  hashed := ⟨by decide, .null, rfl, Or.inl rfl⟩
  closed h := absurd h.2 (by decide)

/-- Ada asks for a change. -/
def asked (field value : String) (revision : ℤ) : Task where
  userId := 1
  nickname := "ann"
  tag := 1
  event := .obj [("type", .str "canvas_settings_update"), ("expected_revision", .int revision),
    ("field", .str field), ("value", .str value)]
  requestId := "r"

def Task.done (task : Task) (s : Store) : Store :=
  (executeSettings (settingsBackend zeroServer onlyAnn) 7 task.userId task.nickname task.tag
    task.event task.requestId { s with faults := [] }).2

def storedAda : Store := { index := [("7", .obj adasCanvas)] }

def loadedAda : Store :=
  (getOrCreateCanvas zeroServer 7 "g" { storedAda with faults := [] }).2

/-- The canvas after it was opened to everyone, and was asked to get a password. -/
def openAda : Store :=
  (asked "password" "secret" 1).done ((asked "visibility" "public" 0).done loadedAda)

/-- It is given up at the second try. -/
def releasedAda : Store :=
  (removeCanvas zeroServer 7 { (removeCanvas zeroServer 7
    { openAda with faults := [.failed] }).2 with faults := [] }).2

theorem Lived.done {start s : Store} (h : Lived zeroServer 7 start s) (present : s.revision.isSome)
    (task : Task) : Lived zeroServer 7 start (task.done s) :=
  h.change present [] (fun _ h ↦ absurd h List.not_mem_nil) onlyAnn task

theorem lived_releasedAda : Lived zeroServer 7 storedAda releasedAda := by
  have hnone : ∀ fault ∈ ([] : List Fault), fault ≠ .lost := fun _ h ↦ absurd h List.not_mem_nil
  have hloaded : Lived zeroServer 7 storedAda loadedAda := .load .start rfl [] hnone "g"
  have hopen : Lived zeroServer 7 storedAda openAda :=
    (hloaded.done (by decide +kernel) _).done (by decide +kernel) _
  exact (hopen.remove (by decide +kernel) [.failed] (by decide)).remove
    (by decide +kernel) [] hnone

theorem releasedAda_lawful : StoredIn (Lawful 1) 7 releasedAda.index := by
  have hhashes : Hashes zeroServer Passwords.zeroPbkdf2 := fun _ _ h ↦ ⟨_, h⟩
  have honly : OnlyStored 7 storedAda.index := by
    refine ⟨by decide, fun e he _ ↦ ?_⟩
    rw [List.mem_singleton.mp he]
    decide
  exact (canvas_stays_lawful hhashes rfl rfl honly ⟨adasCanvas, rfl, adasCanvas_lawful⟩
    lived_releasedAda).2 (by decide +kernel)

end Settings

end Agora
