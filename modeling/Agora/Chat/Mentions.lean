import Agora.Chat.Rooms

/-!
# Mentions

A mention is kept twice: as a record under the states of the mentioned user, and as a mark in the
message itself. As long as messages are committed and mentions are read, the two agree
(`mentions_agree`): there is a record exactly for each mention in a message, and it is unread
exactly as long as the message is marked as unread.

The id of a record names its message, so a record leads to the place of the mark. It is the position
the script computes from the number in the record, which works since rooms are logs.
-/

namespace Agora

namespace Chat

open Script Broker Receipts

/-! ## The records of a document -/

/-- Places for records, and what is there. -/
structure RecordsShown (d : Json) (records : String → String → Option Json) : Prop where
  holder : ∀ v, d.find statesPath = some v → v.isObject
  users : ∀ user v, d.find (userPath user) = some v → v.isObject
  records : ∀ user mention, d.find (statePath user mention) = records user mention

section Records

variable {d d' : Json} {records : String → String → Option Json}

theorem fields_of_isObject {v : Json} (h : v.isObject) : ∃ fields, v = .obj fields := by
  cases v <;> simp [Json.isObject] at h ⊢

theorem RecordsShown.frame (h : RecordsShown d records)
    (hframe : ∀ p, d'.find (statesPath ++ p) = d.find (statesPath ++ p)) :
    RecordsShown d' records where
  holder v hv := h.holder v ((hframe []).symm.trans hv)
  users user v hv := h.users user v ((hframe [.key user]).symm.trans hv)
  records user mention := (hframe [.key user, .key mention]).trans (h.records user mention)

theorem apart_users {user user' : String} (h : user ≠ user') (p q : List Segment) :
    Json.Apart (userPath user ++ p) (userPath user' ++ q) :=
  Json.apart_cons_iff.mpr (Or.inr (apart_head (by simpa using h) p q))

theorem apart_states {user user' mention mention' : String}
    (h : ¬(user = user' ∧ mention = mention')) :
    Json.Apart (statePath user mention) (statePath user' mention') :=
  Json.apart_of_length_eq rfl fun heq ↦ h (by simpa [statePath] using heq)

theorem find_child_empty (p : List Segment) (k : String) (hd : d.find p = some (.obj [])) :
    d.find (p ++ [.key k]) = none := by
  rw [Json.find_append, hd]
  rfl

theorem find_child_none {p : List Segment} (q : List Segment) (hd : d.find p = none) :
    d.find (p ++ q) = none := by
  rw [Json.find_append, hd]
  rfl

/-- Making a place for records. -/
theorem RecordsShown.openStates (h : RecordsShown d records) :
    ∃ d', jsonSetNew statesPath (.obj []) d = (.ok (), d') ∧ RecordsShown d' records ∧
      (d.isObject → ∃ fields, d'.find statesPath = some (.obj fields)) := by
  cases hfind : d.find statesPath with
  | some v =>
    obtain ⟨fields, rfl⟩ := fields_of_isObject (h.holder v hfind)
    exact ⟨d, jsonSetNew_of_find hfind, h, fun _ ↦ ⟨fields, hfind⟩⟩
  | none =>
    rw [jsonSetNew_of_none hfind]
    cases hset : d.set statesPath (.obj []) with
    | none =>
      refine ⟨d, jsonSet_of_none hset, h, fun hobject ↦ ?_⟩
      obtain ⟨fields, rfl⟩ := fields_of_isObject hobject
      have hsome := @Json.set_key_isSome [] (.obj fields) fields (Json.find_nil _)
        "mention-states" (.obj [])
      rw [show ([] ++ [.key "mention-states"] : List Segment) = statesPath from rfl, hset] at hsome
      nomatch hsome
    | some d' =>
      have hempty : d'.find statesPath = some (.obj []) := Json.find_set_self hset
      refine ⟨d', jsonSet_run hset, ⟨?_, ?_, ?_⟩, fun _ ↦ ⟨[], hempty⟩⟩
      · intro v hv
        rw [hempty, Option.some.injEq] at hv
        rw [← hv]
        rfl
      · intro user v hv
        have hnone := find_child_empty statesPath user hempty
        rw [show statesPath ++ [.key user] = userPath user from rfl, hv] at hnone
        nomatch hnone
      · intro user mention
        have hbefore := h.records user mention
        rw [show statePath user mention = statesPath ++ [.key user, .key mention] from rfl,
          find_child_none _ hfind] at hbefore
        rw [← hbefore, show statePath user mention = statesPath ++ ([.key user] ++ [.key mention])
          from rfl, Json.find_append, hempty]
        rfl

/-- Making a place for the records of a user. -/
theorem RecordsShown.openUser (h : RecordsShown d records) (user : String) :
    ∃ d', jsonSetNew (userPath user) (.obj []) d = (.ok (), d') ∧ RecordsShown d' records ∧
      ((∃ fields, d.find statesPath = some (.obj fields)) →
        ∃ fields, d'.find (userPath user) = some (.obj fields)) := by
  cases hfind : d.find (userPath user) with
  | some v =>
    obtain ⟨fields, rfl⟩ := fields_of_isObject (h.users user v hfind)
    exact ⟨d, jsonSetNew_of_find hfind, h, fun _ ↦ ⟨fields, hfind⟩⟩
  | none =>
    rw [jsonSetNew_of_none hfind]
    cases hset : d.set (userPath user) (.obj []) with
    | none =>
      refine ⟨d, jsonSet_of_none hset, h, fun ⟨fields, hfields⟩ ↦ ?_⟩
      have hsome := Json.set_key_isSome hfields user (.obj [])
      rw [show statesPath ++ [.key user] = userPath user from rfl, hset] at hsome
      nomatch hsome
    | some d' =>
      have hempty : d'.find (userPath user) = some (.obj []) := Json.find_set_self hset
      refine ⟨d', jsonSet_run hset, ⟨?_, ?_, ?_⟩, fun _ ↦ ⟨[], hempty⟩⟩
      · intro v hv
        obtain ⟨fields, hfields⟩ := @Json.find_holder statesPath _ _ user hempty
        rw [hfields, Option.some.injEq] at hv
        rw [← hv]
        rfl
      · intro user' v hv
        by_cases heq : user = user'
        · rw [← heq, hempty, Option.some.injEq] at hv
          rw [← hv]
          rfl
        · have hkept := Json.find_set_of_apart (apart_users heq [] []) hset
          exact h.users user' v (hkept.symm.trans hv)
      · intro user' mention
        by_cases heq : user = user'
        · have hbefore := h.records user' mention
          rw [← heq, show statePath user mention = userPath user ++ [.key mention] from rfl,
            find_child_none _ hfind] at hbefore
          rw [← heq, ← hbefore]
          exact find_child_empty (userPath user) mention hempty
        · rw [← h.records user' mention]
          exact Json.find_set_of_apart (apart_users heq [] [.key mention]) hset

/-- The records with one more, or with another one in its place. -/
def setRecord (records : String → String → Option Json) (user mention : String) (v : Json) :
    String → String → Option Json := fun user' mention' ↦
  if user = user' ∧ mention = mention' then some v else records user' mention'

/-- Storing a record. -/
theorem RecordsShown.set (h : RecordsShown d records) {user mention : String} {v : Json}
    (hset : d.set (statePath user mention) v = some d') :
    RecordsShown d' (setRecord records user mention v) := by
  have hhere : d'.find (userPath user ++ [.key mention]) = some v := Json.find_set_self hset
  obtain ⟨fields, hfields⟩ := Json.find_holder hhere
  refine ⟨?_, ?_, ?_⟩
  · intro w hw
    obtain ⟨entries, hentries⟩ := @Json.find_holder statesPath _ _ user hfields
    rw [hentries, Option.some.injEq] at hw
    rw [← hw]
    rfl
  · intro user' w hw
    by_cases heq : user = user'
    · rw [← heq, hfields, Option.some.injEq] at hw
      rw [← hw]
      rfl
    · have hkept := Json.find_set_of_apart (apart_users heq [.key mention] []) hset
      rw [List.append_nil] at hkept
      exact h.users user' w (hkept.symm.trans hw)
  · intro user' mention'
    rw [setRecord]
    by_cases heq : user = user' ∧ mention = mention'
    · rw [if_pos heq, ← heq.1, ← heq.2]
      exact hhere
    · rw [if_neg heq, ← h.records user' mention']
      exact Json.find_set_of_apart (apart_states heq) hset

/-- The records after some users have been given one, where they had none. -/
def addRecords (records : String → String → Option Json) (users : List String) (mention : String)
    (v : Json) : String → String → Option Json := fun user' mention' ↦
  if user' ∈ users ∧ mention = mention' then some ((records user' mention').getD v)
  else records user' mention'

/-- Giving a user a record. -/
theorem RecordsShown.recordMention (h : RecordsShown d records)
    (hholder : ∃ fields, d.find statesPath = some (.obj fields)) (m : Message) (user : String) :
    ∃ d', recordMention m user d = (.ok (), d') ∧
      RecordsShown d' (addRecords records [user] m.mentionId (m.record true)) ∧
      ∃ fields, d'.find statesPath = some (.obj fields) := by
  obtain ⟨d₁, hrun₁, h₁, hplace⟩ := h.openUser user
  obtain ⟨fields, hfields⟩ := hplace hholder
  have hstates : ∀ {d₂ : Json} {v : Json}, d₂.find (userPath user) = some v →
      ∃ fields, d₂.find statesPath = some (.obj fields) := fun hfind ↦
    @Json.find_holder statesPath _ _ user hfind
  cases hfind : d₁.find (statePath user m.mentionId) with
  | some v =>
    refine ⟨d₁, (Query.bind_of_ok hrun₁ _).trans (jsonSetNew_of_find hfind), ?_, hstates hfields⟩
    rw [h₁.records] at hfind
    refine ⟨h₁.holder, h₁.users, fun user' mention' ↦ ?_⟩
    rw [h₁.records, addRecords]
    split
    · next heq =>
      rw [List.mem_singleton] at heq
      rw [heq.1, ← heq.2, hfind, Option.getD_some]
    · rfl
  | none =>
    obtain ⟨d₂, (hset : d₁.set (statePath user m.mentionId) (m.record true) = some d₂)⟩ :=
      Option.isSome_iff_exists.mp (Json.set_key_isSome hfields m.mentionId (m.record true))
    have hnew : jsonSetNew (statePath user m.mentionId) (m.record true) d₁ = (.ok (), d₂) := by
      rw [jsonSetNew_of_none hfind]
      exact jsonSet_run hset
    have h₂ := h₁.set hset
    have hhere : d₂.find (userPath user ++ [.key m.mentionId]) = some (m.record true) :=
      Json.find_set_self hset
    obtain ⟨entries, hentries⟩ := Json.find_holder hhere
    refine ⟨d₂, (Query.bind_of_ok hrun₁ _).trans hnew, ?_, hstates hentries⟩
    rw [h₁.records] at hfind
    refine ⟨h₂.holder, h₂.users, fun user' mention' ↦ ?_⟩
    rw [h₂.records, setRecord, addRecords]
    by_cases heq : user = user' ∧ m.mentionId = mention'
    · rw [if_pos heq, if_pos ⟨List.mem_singleton.mpr heq.1.symm, heq.2⟩, ← heq.1, ← heq.2, hfind]
      rfl
    · rw [if_neg heq, if_neg fun hc ↦ heq ⟨(List.mem_singleton.mp hc.1).symm, hc.2⟩]

/-- Giving every mentioned user a record. -/
theorem RecordsShown.recordMentions (h : RecordsShown d records) (hobject : d.isObject)
    (m : Message) (users : List String) : ∃ d', recordMentions m users d = (.ok (), d') ∧
      RecordsShown d' (addRecords records users m.mentionId (m.record true)) := by
  unfold Chat.recordMentions
  split
  · next hempty =>
    rw [List.isEmpty_iff] at hempty
    refine ⟨d, rfl, h.holder, h.users, fun user mention ↦ ?_⟩
    rw [h.records, addRecords, hempty, if_neg fun hc ↦ List.not_mem_nil hc.1]
  · obtain ⟨d₁, hrun₁, h₁, hplace⟩ := h.openStates
    have hloop : ∀ (users : List String) {d : Json} {records : String → String → Option Json},
        RecordsShown d records → (∃ fields, d.find statesPath = some (.obj fields)) →
        ∃ d', users.forM (Chat.recordMention m) d = (.ok (), d') ∧
          RecordsShown d' (addRecords records users m.mentionId (m.record true)) := by
      intro users
      induction users with
      | nil =>
        intro d records h _
        refine ⟨d, rfl, h.holder, h.users, fun user mention ↦ ?_⟩
        rw [h.records, addRecords, if_neg fun hc ↦ List.not_mem_nil hc.1]
      | cons user users ih =>
        intro d records h hholder
        obtain ⟨d₁, hrun₁, h₁, hholder₁⟩ := h.recordMention hholder m user
        obtain ⟨d₂, hrun₂, h₂⟩ := ih h₁ hholder₁
        refine ⟨d₂, (Query.bind_of_ok hrun₁ _).trans hrun₂, h₂.holder, h₂.users,
          fun user' mention ↦ ?_⟩
        rw [h₂.records]
        by_cases hmention : m.mentionId = mention
        · by_cases huser : user' = user
          · by_cases hmem : user' ∈ users <;> simp [addRecords, hmention, huser]
          · by_cases hmem : user' ∈ users <;> simp [addRecords, hmention, huser]
        · simp [addRecords, hmention]
    obtain ⟨d₂, hrun₂, h₂⟩ := hloop users h₁ (hplace hobject)
    exact ⟨d₂, (Query.bind_of_ok hrun₁ _).trans hrun₂, h₂⟩

end Records

/-! ## Items that are no rooms -/

/-- What is there under an id, if anything, is no chat room. -/
structure Idle (d : Json) (room : String) : Prop where
  type : d.find (typePath room) ≠ some (.str "chat_room")
  next : d.find (nextPath room) = none

/-- There is no chat room under an id, or one in order. -/
def Settled (d : Json) (room : String) : Prop :=
  Idle d room ∨ ∃ log, RoomShown d room log ∧ LogOf room log

section Settled

variable {readNumber : String → Option ℚ} {d d' : Json} {room : String} {log : List Message}

theorem RoomShown.not_idle (h : RoomShown d room log) : ¬Idle d room := fun hidle ↦
  hidle.type h.type

theorem idle_of_absent (h : d.find (itemPath room) = none) : Idle d room where
  type := by
    rw [typePath, find_child_none _ h]
    simp
  next := find_child_none _ h

theorem RoomOk.settled (h : RoomOk d room) : Settled d room := h.imp_left idle_of_absent

theorem Settled.ok (h : Settled d room) (hlog : RoomShown d room log) : RoomOk d room :=
  Or.inr (h.resolve_left hlog.not_idle)

theorem Settled.logOf (h : Settled d room) (hlog : RoomShown d room log) : LogOf room log :=
  (h.ok hlog).logOf hlog

theorem Settled.frame (h : Settled d room)
    (hframe : ∀ q, d'.find (itemPath room ++ q) = d.find (itemPath room ++ q)) :
    Settled d' room := by
  rcases h with hidle | ⟨log, hshown, hlog⟩
  · exact Or.inl ⟨fun h ↦ hidle.type ((hframe _).symm.trans h), (hframe _).trans hidle.next⟩
  · exact Or.inr ⟨log, hshown.frame hframe, hlog⟩

/-- Nothing is committed to an item that is no chat room. -/
theorem commitScript_idle (m : Message) (permission : Json) (users : List String)
    (hidle : Idle d m.room) (hthere : d.find (itemPath m.room) ≠ none) :
    (commitScript readNumber m permission users d).2 = d := by
  have hnext : (appendNext readNumber m users d).2 = d := by
    rw [appendNext, Query.bind_of_ok (jsonGet_run _ d), hidle.next]
    rfl
  rw [commitScript, Query.bind_of_ok (jsonGet_run _ d)]
  split
  · exact @answerReceived_keeps (· = d) m _ d rfl
  rw [appendNew, Query.bind_of_ok (jsonGet_run _ d)]
  split
  · obtain ⟨w, hw⟩ := Option.ne_none_iff_exists'.mp hthere
    rw [Query.bind_of_ok (jsonSetNew_of_find hw)]
    exact hnext
  · rw [if_neg hidle.type]
    rfl

end Settled

/-! ## Agreement -/

/-- A message of a document that mentions a user, and whether it is unread by the user. -/
def Mentions (d : Json) (user : String) (m : Message) (unread : Bool) : Prop :=
  ∃ log, RoomShown d m.room log ∧ m ∈ log ∧ m.mentions.lookup user = some unread

/-- The records are those of the mentions in the messages. -/
structure Agrees (d : Json) : Prop where
  rooms : ∀ room, Settled d room
  records : ∃ records, RecordsShown d records ∧ ∀ user mention v, records user mention = some v ↔
    ∃ m unread, Mentions d user m unread ∧ m.mentionId = mention ∧ v = m.record unread

section Agrees

variable {readNumber : String → Option ℚ} {d d' : Json} {room : String} {log : List Message}

/-- The mentions of messages depend on the rooms only. -/
theorem Mentions.frame {user : String} {m : Message} {unread : Bool}
    (h : Mentions d user m unread)
    (hframe : ∀ q, d'.find (itemPath m.room ++ q) = d.find (itemPath m.room ++ q)) :
    Mentions d' user m unread := by
  obtain ⟨log, hlog, hmem, hlookup⟩ := h
  exact ⟨log, hlog.frame hframe, hmem, hlookup⟩

/-- A record names one message. -/
theorem Mentions.unique (hrooms : ∀ room, Settled d room) {user user' : String} {m m' : Message}
    {unread unread' : Bool} (h : Mentions d user m unread) (h' : Mentions d user' m' unread')
    (hmention : m.mentionId = m'.mentionId) : m = m' := by
  obtain ⟨hroom, hnumber⟩ := colon_intText_inj hmention
  obtain ⟨log, hlog, hmem, -⟩ := h
  obtain ⟨log', hlog', hmem', -⟩ := h'
  rw [← hroom] at hlog'
  obtain rfl := hlog.unique hlog'
  obtain ⟨i, hi⟩ := List.getElem?_of_mem hmem
  obtain ⟨j, hj⟩ := List.getElem?_of_mem hmem'
  have hnumbers := ((hrooms m.room).logOf hlog).numbered.numbers
  have hij : i = j := by
    have heq : (i : ℤ) + 1 = j + 1 := by rw [← hnumbers i m hi, ← hnumbers j m' hj, hnumber]
    omega
  rw [hij, hj, Option.some.injEq] at hi
  exact hi.symm

/-- Agreement when neither the rooms nor the records change. -/
theorem Agrees.frame (h : Agrees d)
    (hitems : ∀ room q, d'.find (itemPath room ++ q) = d.find (itemPath room ++ q))
    (hrecords : ∀ records, RecordsShown d records → RecordsShown d' records) : Agrees d' := by
  refine ⟨fun room ↦ (h.rooms room).frame (hitems room), ?_⟩
  obtain ⟨records, hshown, hiff⟩ := h.records
  refine ⟨records, hrecords records hshown, fun user mention v ↦ (hiff user mention v).trans ?_⟩
  constructor
  · rintro ⟨m, unread, hmentions, hrest⟩
    exact ⟨m, unread, hmentions.frame (hitems m.room), hrest⟩
  · rintro ⟨m, unread, hmentions, hrest⟩
    exact ⟨m, unread, hmentions.frame fun q ↦ (hitems m.room q).symm, hrest⟩

/-- The state of the rooms after a commit. -/
theorem commit_settles (h : ∀ room, Settled d room) {m : Message} {users : List String}
    {reply : Commit} (hok : RoomOk d m.room) (hcommitted : Committed d m users reply d')
    (hothers : ∀ room, m.room ≠ room → ∀ q,
      d'.find (itemPath room ++ q) = d.find (itemPath room ++ q)) (room : String) :
    Settled d' room := by
  by_cases hroom : m.room = room
  · exact hroom ▸ (hcommitted.goes hok).1.settled
  · exact (h room).frame (hothers room hroom)

theorem isObject_of_find {k : String} {p : List Segment} {v : Json}
    (h : d.find (.key k :: p) = some v) : d.isObject := by
  cases d with
  | obj => rfl
  | _ => nomatch h

/-- A message that has been appended to its room, with records for those it mentions. -/
structure Stored (d : Json) (m : Message) (users : List String) (log : List Message) (d' : Json) :
    Prop where
  before : RoomShown d m.room log ∨ d.find (itemPath m.room) = none ∧ log = []
  number : m.sequence = log.length + 1
  shown : RoomShown d' m.room (log ++ [m])
  others : ∀ room, m.room ≠ room → ∀ q,
    d'.find (itemPath room ++ q) = d.find (itemPath room ++ q)
  records : ∀ records, RecordsShown d records →
    RecordsShown d' (addRecords records users m.mentionId (m.record true))

namespace Stored

variable {m : Message} {users : List String}

theorem of_records {d₁ : Json}
    (hbefore : RoomShown d m.room log ∨ d.find (itemPath m.room) = none ∧ log = [])
    (hnumber : m.sequence = log.length + 1) (hshown : RoomShown d₁ m.room (log ++ [m]))
    (hframe : ∀ q, Json.Apart (itemPath m.room) q → d₁.find q = d.find q)
    (hrecords : recordMentions m users d₁ = (.ok (), d')) : Stored d m users log d' where
  before := hbefore
  number := hnumber
  shown := hshown.records hrecords
  others := by
    intro room hroom q
    obtain ⟨d₂, hrun, hkept⟩ := recordMentions_writes m users d₁
    rw [hrecords, Prod.mk.injEq] at hrun
    rw [hrun.2, hkept _ (apart_states_item room q)]
    exact hframe _ ((apart_items hroom).append_right q)
  records := by
    intro records h
    have h₁ : RecordsShown d₁ records := h.frame fun p ↦ hframe _ (apart_item_states m.room p)
    obtain ⟨d₂, hrun, h₂⟩ := h₁.recordMentions (isObject_of_find hshown.type) m users
    rw [hrecords, Prod.mk.injEq] at hrun
    rw [hrun.2]
    exact h₂

theorem last (h : Stored d m users log d') {log' : List Message}
    (hlog' : RoomShown d m.room log') : log' = log := by
  rcases h.before with hlog | ⟨habsent, -⟩
  · exact hlog'.unique hlog
  · exact absurd habsent hlog'.there

/-- The mentions of the message come to those that were there. -/
theorem mentions (h : Stored d m users log d') (user : String) (m' : Message) (unread : Bool) :
    Mentions d' user m' unread ↔
      Mentions d user m' unread ∨ m' = m ∧ m.mentions.lookup user = some unread := by
  by_cases hroom : m.room = m'.room
  · constructor
    · rintro ⟨log', hlog', hmem, hlookup⟩
      rw [← hroom] at hlog'
      obtain rfl := hlog'.unique h.shown
      rcases List.mem_append.mp hmem with hmem | hmem
      · rcases h.before with hlog | ⟨-, rfl⟩
        · exact Or.inl ⟨log, hroom ▸ hlog, hmem, hlookup⟩
        · exact absurd hmem List.not_mem_nil
      · rw [List.mem_singleton] at hmem
        exact Or.inr ⟨hmem, hmem ▸ hlookup⟩
    · rintro (⟨log', hlog', hmem, hlookup⟩ | ⟨rfl, hlookup⟩)
      · rw [← hroom] at hlog'
        obtain rfl := h.last hlog'
        exact ⟨log' ++ [m], hroom ▸ h.shown, List.mem_append_left _ hmem, hlookup⟩
      · exact ⟨log ++ [m'], h.shown, List.mem_append_right _ (List.mem_singleton_self m'), hlookup⟩
  · rw [or_iff_left fun hc ↦ hroom (congrArg Message.room hc.1).symm]
    exact ⟨fun hm ↦ hm.frame fun q ↦ (h.others _ hroom q).symm,
      fun hm ↦ hm.frame (h.others _ hroom)⟩

/-- No message had the number before. -/
theorem fresh (h : Stored d m users log d') (hrooms : ∀ room, Settled d room) {user : String}
    {m' : Message} {unread : Bool} (hm' : Mentions d user m' unread) :
    m'.mentionId ≠ m.mentionId := by
  intro hmention
  obtain ⟨log', hlog', hmem, -⟩ := hm'
  obtain ⟨hroom, hsequence⟩ := colon_intText_inj hmention
  rw [hroom] at hlog'
  obtain rfl := h.last hlog'
  obtain ⟨i, hi⟩ := List.getElem?_of_mem hmem
  obtain ⟨hlength, -⟩ := List.getElem?_eq_some_iff.mp hi
  have hnumbers := ((hrooms m.room).logOf hlog').numbered.numbers i m' hi
  have hnumber := h.number
  omega

end Stored

/-- The users who are visited are those for whom the message is unread. -/
theorem lookup_mentions_iff {m : Message} {users : List String}
    (hunread : ∀ e ∈ m.mentions, e.2 = true) (hvisit : users.Perm (m.mentions.map Prod.fst))
    (user : String) (unread : Bool) :
    m.mentions.lookup user = some unread ↔ user ∈ users ∧ unread = true := by
  rw [hvisit.mem_iff, ← Assoc.lookup_isSome_iff]
  constructor
  · intro hlookup
    exact ⟨by rw [hlookup]; rfl, hunread _ (Assoc.mem_of_lookup hlookup)⟩
  · rintro ⟨hsome, rfl⟩
    obtain ⟨unread, hlookup⟩ := Option.isSome_iff_exists.mp hsome
    have htrue : unread = true := hunread _ (Assoc.mem_of_lookup hlookup)
    rw [hlookup, htrue]

/-- A new message brings new mentions, all of them unread, under an id that was not there. -/
theorem Agrees.store (h : Agrees d) {m : Message} {users : List String}
    (hunread : ∀ e ∈ m.mentions, e.2 = true) (hvisit : users.Perm (m.mentions.map Prod.fst))
    (hstored : Stored d m users log d') (hsettled : ∀ room, Settled d' room) : Agrees d' := by
  obtain ⟨records, hshown, hiff⟩ := h.records
  have hnew : ∀ user, records user m.mentionId = none := by
    intro user
    rw [Option.eq_none_iff_forall_ne_some]
    intro v hv
    obtain ⟨m', unread, hm', hmention, -⟩ := (hiff user _ v).mp hv
    exact hstored.fresh h.rooms hm' hmention
  have hlisted := lookup_mentions_iff hunread hvisit
  refine ⟨hsettled, _, hstored.records records hshown, fun user mention v ↦ ?_⟩
  rw [addRecords]
  by_cases hmention : m.mentionId = mention
  · subst hmention
    rw [hnew, Option.getD_none]
    constructor
    · intro hv
      split at hv
      · next hmem =>
        refine ⟨m, true, (hstored.mentions user m true).mpr (Or.inr ⟨rfl, ?_⟩), rfl,
          (Option.some.inj hv).symm⟩
        exact (hlisted user true).mpr ⟨hmem.1, rfl⟩
      · nomatch hv
    · rintro ⟨m', unread, hm', hmention, rfl⟩
      rcases (hstored.mentions user m' unread).mp hm' with hold | ⟨rfl, hlookup⟩
      · exact absurd hmention (hstored.fresh h.rooms hold)
      · obtain ⟨hmem, rfl⟩ := (hlisted user unread).mp hlookup
        rw [if_pos ⟨hmem, rfl⟩]
  · rw [if_neg fun hc ↦ hmention hc.2, hiff]
    constructor
    · rintro ⟨m', unread, hm', hrest⟩
      exact ⟨m', unread, (hstored.mentions user m' unread).mpr (Or.inl hm'), hrest⟩
    · rintro ⟨m', unread, hm', hid, hrest⟩
      rcases (hstored.mentions user m' unread).mp hm' with hold | ⟨rfl, -⟩
      · exact ⟨m', unread, hold, hid, hrest⟩
      · exact absurd hid hmention

/-! ## Reading a mention -/

theorem readRecord_record (m : Message) (unread : Bool) :
    readRecord (m.record unread) = pure (m.record false) := by
  unfold Message.record Message.objectField
  cases m.object <;> rfl

/-- The record of a mention leads to the mark in the message. -/
theorem markMessage_run {user : String} {i : ℕ} {m : Message} (h : RoomShown d m.room log)
    (hlog : LogOf m.room log) (hm : log[i]? = some m) (hmentioned : (m.mentions.lookup user).isSome)
    (unread : Bool) : ∃ d', markMessage readNumber user (m.record unread) d = (.ok (), d') ∧
      RoomShown d' m.room (markLog log i user) ∧
      ∀ q, Json.Apart (markPath m.room i user) q → d'.find q = d.find q := by
  have hfind : d.find (markPath m.room i user) = (m.mentions.lookup user).map Json.bool := by
    rw [markPath_eq, Json.find_append, h.data, Option.bind_some, Json.find_cons, Json.child,
      List.getElem?_map, hm]
    exact m.find_mark user
  obtain ⟨b, hb⟩ := Option.isSome_iff_exists.mp hmentioned
  rw [hb] at hfind
  obtain ⟨d', hset⟩ := Option.isSome_iff_exists.mp (Json.set_isSome_of_find
    (show (d.find (markPath m.room i user)).isSome by rw [hfind]; rfl) (.bool false))
  obtain ⟨-, -, -, hshown⟩ := h.mark hfind hset
  refine ⟨d', ?_, hshown, fun q hq ↦ Json.find_set_of_apart hq hset⟩
  have hroom : luaIndex "room_id" (m.record unread) = pure (some (.str m.room)) := by
    rw [Message.record, luaIndex_obj, Message.objectField]
    cases m.object <;> rfl
  have hsequence : luaIndex "sequence" (m.record unread) = pure (some (.int m.sequence)) := by
    rw [Message.record, luaIndex_obj, Message.objectField]
    cases m.object <;> rfl
  have hplace : ((m.sequence : ℚ)) - 1 = (i : ℤ) := by
    rw [hlog.numbered.numbers i m hm]
    push_cast
    exact add_sub_cancel_right _ _
  have hmark : markAt m.room ((m.sequence : ℚ) - 1) user d = (.ok (), d') := by
    rw [hplace, markAt, if_neg (by simp), Query.bind_of_ok (jsonGet_run _ d), h.data]
    dsimp only
    rw [Rat.num_intCast, positionOf_natCast]
    exact (jsonSetOld_of_find hfind).trans (jsonSet_run hset)
  rw [markMessage, hroom, hsequence]
  exact hmark

/-- The mentions after a message has been read by a user. -/
theorem mentions_mark (hrooms : ∀ room, Settled d room) {user : String} {m : Message} {i : ℕ}
    (hlog : RoomShown d m.room log) (hm : log[i]? = some m)
    (hlog' : RoomShown d' m.room (markLog log i user))
    (hothers : ∀ room, m.room ≠ room → ∀ q,
      d'.find (itemPath room ++ q) = d.find (itemPath room ++ q))
    (user' : String) (m' : Message) (unread : Bool) :
    Mentions d' user' m' unread ↔ (Mentions d user' m' unread ∧ m'.mentionId ≠ m.mentionId) ∨
      m' = m.markRead user ∧ m'.mentions.lookup user' = some unread := by
  have hnumbers := ((hrooms m.room).logOf hlog).numbered.numbers
  have hmark : (markLog log i user)[i]? = some (m.markRead user) := by simp [markLog, hm]
  have hkept : ∀ j, j ≠ i → (markLog log i user)[j]? = log[j]? := by
    intro j hj
    simp [markLog, Ne.symm hj]
  by_cases hroom : m.room = m'.room
  · have hother : ∀ j, log[j]? = some m' → (j ≠ i ↔ m'.mentionId ≠ m.mentionId) := by
      intro j hj
      refine not_congr ⟨?_, fun hmention ↦ ?_⟩
      · rintro rfl
        rw [hm, Option.some.injEq] at hj
        rw [hj]
      · have hsequence := (colon_intText_inj hmention).2
        rw [hnumbers j m' hj, hnumbers i m hm] at hsequence
        omega
    constructor
    · rintro ⟨log'', hlog'', hmem, hlookup⟩
      rw [← hroom] at hlog''
      obtain rfl := hlog''.unique hlog'
      obtain ⟨j, hj⟩ := List.getElem?_of_mem hmem
      by_cases hji : j = i
      · rw [hji, hmark, Option.some.injEq] at hj
        exact Or.inr ⟨hj.symm, hlookup⟩
      · rw [hkept j hji] at hj
        exact Or.inl ⟨⟨log, hroom ▸ hlog, List.mem_of_getElem? hj, hlookup⟩, (hother j hj).mp hji⟩
    · rintro (⟨⟨log'', hlog'', hmem, hlookup⟩, hmention⟩ | ⟨rfl, hlookup⟩)
      · rw [← hroom] at hlog''
        obtain rfl := hlog''.unique hlog
        obtain ⟨j, hj⟩ := List.getElem?_of_mem hmem
        have hji := (hother j hj).mpr hmention
        exact ⟨_, hroom ▸ hlog', List.mem_of_getElem? ((hkept j hji).trans hj), hlookup⟩
      · exact ⟨_, hlog', List.mem_of_getElem? hmark, hlookup⟩
  · have hmarked : m' ≠ m.markRead user := fun hc ↦ hroom (congrArg Message.room hc).symm
    have hmention : m'.mentionId ≠ m.mentionId := fun hc ↦ hroom (colon_intText_inj hc).1.symm
    rw [or_iff_left fun hc ↦ hmarked hc.1, and_iff_left hmention]
    exact ⟨fun h ↦ h.frame fun q ↦ (hothers _ hroom q).symm, fun h ↦ h.frame (hothers _ hroom)⟩

/-- The script reads a mention that is there: it changes the record and the mark. -/
theorem readState_run {user : String} {m : Message} {i : ℕ} {unread : Bool}
    (hlog : RoomShown d m.room log) (hof : LogOf m.room log) (hi : log[i]? = some m)
    (hmentioned : (m.mentions.lookup user).isSome)
    (hfind : d.find (statePath user m.mentionId) = some (m.record unread)) :
    ∃ d', readState readNumber user m.mentionId d = (.ok true, d') ∧
      RoomShown d' m.room (markLog log i user) ∧
      (∀ room, m.room ≠ room → ∀ q,
        d'.find (itemPath room ++ q) = d.find (itemPath room ++ q)) ∧
      ∀ records, RecordsShown d records →
        RecordsShown d' (setRecord records user m.mentionId (m.record false)) := by
  obtain ⟨d₁, hset⟩ := Option.isSome_iff_exists.mp (Json.set_isSome_of_find
    (show (d.find (statePath user m.mentionId)).isSome by rw [hfind]; rfl) (m.record false))
  have hitems₁ : ∀ room q, d₁.find (itemPath room ++ q) = d.find (itemPath room ++ q) :=
    fun room q ↦ Json.find_set_of_apart (apart_head (by decide) _ _) hset
  obtain ⟨d', hrun, hlog', hkept⟩ :=
    @markMessage_run readNumber _ _ user i m (hlog.frame (hitems₁ m.room)) hof hi hmentioned false
  refine ⟨d', ?_, hlog', fun room hroom q ↦ ?_, fun records h ↦ ?_⟩
  · rw [readState, Query.bind_of_ok (jsonGet_run _ d), hfind]
    rw [if_pos (show truthy (some (m.record unread)) = true from rfl), Option.getD_some,
      readRecord_record]
    refine (Query.bind_of_ok (Query.pure_run _ d) _).trans ?_
    exact (Query.bind_of_ok (jsonSet_run hset) _).trans (Query.bind_of_ok hrun _)
  · exact (hkept _ (apart_mark hroom i user q)).trans (hitems₁ room q)
  · exact (h.set hset).frame fun p ↦ hkept _ (apart_head (by decide) _ _)

/-- Agreement after a user has read a message. -/
theorem Agrees.mark (h : Agrees d) {user : String} {m : Message} {i : ℕ} {unread : Bool}
    (hlog : RoomShown d m.room log) (hi : log[i]? = some m)
    (hlookup : m.mentions.lookup user = some unread)
    (hlog' : RoomShown d' m.room (markLog log i user))
    (hothers : ∀ room, m.room ≠ room → ∀ q,
      d'.find (itemPath room ++ q) = d.find (itemPath room ++ q))
    (hrecords : ∀ records, RecordsShown d records →
      RecordsShown d' (setRecord records user m.mentionId (m.record false))) : Agrees d' := by
  obtain ⟨records, hshown, hiff⟩ := h.records
  have hrooms : ∀ room, Settled d' room := by
    intro room
    by_cases hroom : m.room = room
    · exact hroom ▸ Or.inr ⟨_, hlog', ((h.rooms m.room).logOf hlog).mark i user⟩
    · exact (h.rooms room).frame (hothers room hroom)
  refine ⟨hrooms, _, hrecords records hshown, fun user' mention' v ↦ ?_⟩
  simp only [mentions_mark h.rooms hlog hi hlog' hothers]
  rw [setRecord]
  have hmark := lookup_markRead m user user'
  by_cases hplace : user = user' ∧ m.mentionId = mention'
  · -- the record that was read, and the message with its mark
    obtain ⟨rfl, rfl⟩ := hplace
    rw [hlookup, Option.map_some, if_pos rfl] at hmark
    rw [if_pos ⟨rfl, rfl⟩, Option.some.injEq]
    constructor
    · rintro rfl
      exact ⟨m.markRead user, false, Or.inr ⟨rfl, hmark⟩, rfl, rfl⟩
    · rintro ⟨m', unread', ⟨-, hne⟩ | ⟨rfl, hmark'⟩, hid, rfl⟩
      · exact absurd hid hne
      · rw [hmark, Option.some.injEq] at hmark'
        rw [← hmark']
        rfl
  · rw [if_neg hplace, hiff]
    constructor
    · rintro ⟨m', unread', hm', rfl, rfl⟩
      by_cases hid : m'.mentionId = m.mentionId
      · -- the same message, but for another user
        have hsame := hm'.unique h.rooms ⟨log, hlog, List.mem_of_getElem? hi, hlookup⟩ hid
        subst hsame
        have huser : user' ≠ user := fun heq ↦ hplace ⟨heq.symm, rfl⟩
        obtain ⟨log'', hlog'', -, hlookup'⟩ := hm'
        rw [hlookup', Option.map_some, if_neg huser] at hmark
        exact ⟨m'.markRead user, unread', Or.inr ⟨rfl, hmark⟩, rfl, rfl⟩
      · exact ⟨m', unread', Or.inl ⟨hm', hid⟩, rfl, rfl⟩
    · rintro ⟨m', unread', ⟨hm', -⟩ | ⟨rfl, hmark'⟩, rfl, rfl⟩
      · exact ⟨m', unread', hm', rfl, rfl⟩
      · have huser : user' ≠ user := fun heq ↦ hplace ⟨heq.symm, rfl⟩
        rw [hmark] at hmark'
        obtain ⟨b, hb, hbu⟩ := Option.map_eq_some_iff.mp hmark'
        rw [if_neg huser] at hbu
        exact ⟨m, unread', ⟨log, hlog, List.mem_of_getElem? hi, hbu ▸ hb⟩, rfl, rfl⟩

/-- Reading a mention. -/
theorem Agrees.read (h : Agrees d) (user mention : String) :
    Agrees (readState readNumber user mention d).2 := by
  obtain ⟨records, hshown, hiff⟩ := h.records
  cases hrecord : records user mention with
  | none =>
    rw [readState, Query.bind_of_ok (jsonGet_run _ d), hshown.records, hrecord]
    exact h
  | some v =>
    obtain ⟨m, unread, ⟨log, hlog, hmem, hlookup⟩, rfl, rfl⟩ := (hiff user mention v).mp hrecord
    obtain ⟨i, hi⟩ := List.getElem?_of_mem hmem
    obtain ⟨d', hrun, hlog', hothers, hrecords⟩ := @readState_run readNumber _ _ user m i unread
      hlog ((h.rooms m.room).logOf hlog) hi (by rw [hlookup]; rfl)
      (by rw [hshown.records, hrecord])
    rw [hrun]
    exact h.mark hlog hi hlookup hlog' hothers hrecords

/-- Making places for the records of a user changes nothing. -/
theorem Agrees.openUser (h : Agrees d) (user : String) :
    ∃ d₁, (jsonSetNew statesPath (.obj []) >>= fun _ ↦ jsonSetNew (userPath user) (.obj [])) d
      = (.ok (), d₁) ∧ Agrees d₁ := by
  have hwrites : Writes statesPath
      (jsonSetNew statesPath (.obj []) >>= fun _ ↦ jsonSetNew (userPath user) (.obj [])) :=
    writes_bind (writes_setNew [] _) (writes_setNew [.key user] _)
  obtain ⟨d₁, hrun, hkept⟩ := hwrites d
  refine ⟨d₁, hrun, h.frame (fun room q ↦ hkept _ (apart_states_item room q)) ?_⟩
  intro records hshown
  obtain ⟨d₂, hrun₂, h₂, -⟩ := hshown.openStates
  obtain ⟨d₃, hrun₃, h₃, -⟩ := h₂.openUser user
  rw [Query.bind_of_ok hrun₂, hrun₃, Prod.mk.injEq] at hrun
  exact hrun.2 ▸ h₃

end Agrees

/-! ## Runs -/

/-- Whether a record is created on its own. -/
def Event.creates : Event → Bool
  | .state _ _ _ unread => unread
  | _ => false

/-- The documents that commits and the reading of mentions lead to. -/
inductive MentionRun (readNumber : String → Option ℚ) (start : Json) : Json → Prop
  | init : MentionRun readNumber start start
  | step {d d' : Json} {e : Event} (h : MentionRun readNumber start d)
      (hstep : Step readNumber d e d') (hread : e.creates = false) :
      MentionRun readNumber start d'

section Runs

variable {readNumber : String → Option ℚ} {start d d' : Json}

theorem Agrees.commit (h : Agrees d) {m : Message} {permission : Json} {users : List String}
    {reply : Option Commit} (hunread : ∀ e ∈ m.mentions, e.2 = true)
    (hvisit : users.Perm (m.mentions.map Prod.fst))
    (hrun : commitChatMessage readNumber m permission users (some d) = (reply, some d')) :
    Agrees d' := by
  have hd' : (commitScript readNumber m permission users d).2 = d' :=
    Option.some.inj (congrArg Prod.snd hrun)
  by_cases hidle : Idle d m.room ∧ d.find (itemPath m.room) ≠ none
  · rw [commitScript_idle m permission users hidle.1 hidle.2] at hd'
    exact hd' ▸ h
  have hok : RoomOk d m.room := by
    rcases h.rooms m.room with hroom | ⟨log, hlog, hof⟩
    · exact Or.inl (by simpa [hroom] using hidle)
    · exact Or.inr ⟨log, hlog, hof⟩
  obtain ⟨reply', d'', hrun', hcommitted⟩ := commitChatMessage_spec readNumber hok permission users
  rw [hrun, Prod.mk.injEq, Option.some.injEq] at hrun'
  obtain ⟨-, rfl⟩ := hrun'
  have hsettled := commit_settles h.rooms hok hcommitted fun room hroom q ↦ by
    rw [← hd']
    exact commitScript_frame m permission users d ((apart_items hroom).append_right q)
      (apart_states_item room q)
  cases hcommitted with
  | repeated => exact h
  | refused => exact h
  | opened _ habsent hshown hframe =>
    obtain ⟨records, hrecords, hiff⟩ := h.records
    refine ⟨hsettled, records, hrecords.frame fun p ↦ hframe _ (apart_item_states m.room p), ?_⟩
    intro user mention v
    refine (hiff user mention v).trans ?_
    -- the new room has no messages
    have hmentions : ∀ m' unread, Mentions d user m' unread ↔ Mentions d' user m' unread := by
      intro m' unread
      by_cases hroom : m.room = m'.room
      · constructor
        · rintro ⟨log, hlog, -, -⟩
          exact absurd (hroom ▸ habsent) hlog.there
        · rintro ⟨log, hlog, hmem, -⟩
          rw [← hroom] at hlog
          obtain rfl := hlog.unique hshown
          exact absurd hmem List.not_mem_nil
      · have hothers : ∀ q, d'.find (itemPath m'.room ++ q) = d.find (itemPath m'.room ++ q) :=
          fun q ↦ hframe _ ((apart_items hroom).append_right q)
        exact ⟨fun hm ↦ hm.frame hothers, fun hm ↦ hm.frame fun q ↦ (hothers q).symm⟩
    simp only [hmentions]
  | stored log d₁ _ hbefore hnumber _ hshown hframe hrecords =>
    exact h.store hunread hvisit (.of_records hbefore hnumber hshown hframe hrecords) hsettled

/-- One step. -/
theorem Agrees.step (h : Agrees d) {e : Event} (hstep : Step readNumber d e d')
    (hread : e.creates = false) : Agrees d' := by
  cases hstep with
  | commit m permission users reply _ lost hunread hvisit hrun =>
    exact h.commit hunread hvisit hrun
  | state user mention note unread _ hrun =>
    obtain rfl : unread = false := hread
    rcases storeMentionState_spec hrun with rfl | ⟨record, rfl⟩
    · exact h
    · obtain ⟨d₁, hopen, h₁⟩ := h.openUser (toString user)
      have hscript : stateScript readNumber (toString user) mention record false d
          = readState readNumber (toString user) mention d₁ := by
        obtain ⟨_, d₂, hrun₂, hrun₁⟩ := Query.bind_ok.mp hopen
        rw [stateScript, Query.bind_of_ok hrun₂, Query.bind_of_ok hrun₁]
        rfl
      rw [hscript]
      exact h₁.read _ mention
  | page request =>
    rw [pageScript_run]
    exact h

theorem MentionRun.agrees (h : MentionRun readNumber start d) (hstart : Agrees start) :
    Agrees d := by
  induction h with
  | init => exact hstart
  | step _ hstep hread ih => exact ih.step hstep hread

theorem MentionRun.reachable (h : MentionRun readNumber start d) :
    Reachable readNumber start d := by
  induction h with
  | init => exact .init
  | step _ hstep _ ih => exact ih.step hstep

/-! ## Records and messages -/

/-- Where a record says whether it is unread. -/
def unreadPath (user mention : String) : List Segment := statePath user mention ++ [.key "unread"]

theorem find_unread (m : Message) (unread : Bool) :
    (m.record unread).find [.key "unread"] = some (.bool unread) := by
  unfold Message.record Message.objectField
  cases m.object <;> rfl

theorem find_room (m : Message) (unread : Bool) :
    (m.record unread).find [.key "room_id"] = some (.str m.room) := by
  unfold Message.record Message.objectField
  cases m.object <;> rfl

theorem find_sequence (m : Message) (unread : Bool) :
    (m.record unread).find [.key "sequence"] = some (.int m.sequence) := by
  unfold Message.record Message.objectField
  cases m.object <;> rfl

/-- What a document says about mentions. -/
structure MentionsAgree (d : Json) : Prop where
  /-- There is a record exactly where the message with that number lists the user. -/
  records : ∀ user mention v, d.find (statePath user mention) = some v ↔
    ∃ (room : String) (log : List Message) (i : ℕ) (m : Message) (unread : Bool),
      Lawful d room log ∧ log[i]? = some m ∧ m.mentions.lookup user = some unread ∧
        mention = room ++ ":" ++ toString (i + 1 : ℤ) ∧ v = m.record unread
  /-- A record is unread exactly as long as the message is marked as unread. -/
  unread : ∀ room log (i : ℕ) m user, Lawful d room log → log[i]? = some m →
    (m.mentions.lookup user).isSome →
      d.find (unreadPath user (room ++ ":" ++ toString (i + 1 : ℤ))) = d.find (markPath room i user)
  /-- The id of a mention names one message. -/
  distinct : ∀ room room' log log' (i j : ℕ) m m', Lawful d room log → Lawful d room' log' →
    log[i]? = some m → log'[j]? = some m' → m.mentionId = m'.mentionId → room = room' ∧ i = j
  /-- No user has two records of one message. -/
  once : ∀ user mention mention' v v', d.find (statePath user mention) = some v →
    d.find (statePath user mention') = some v' →
    v.find [.key "room_id"] = v'.find [.key "room_id"] →
    v.find [.key "sequence"] = v'.find [.key "sequence"] → mention = mention'

theorem Lawful.shown {room : String} {log : List Message} (h : Lawful d room log)
    (hrooms : ∀ room, Settled d room) : RoomShown d room log ∧ LogOf room log := by
  rcases hrooms room with hidle | ⟨log', hlog', hof⟩
  · exact absurd (hidle.next.symm.trans h.next) nofun
  · have hdata := h.data.symm.trans hlog'.data
    rw [Option.some.injEq, Json.arr.injEq] at hdata
    obtain rfl := List.map_injective_iff.mpr Message.toJson_injective hdata
    exact ⟨hlog', hof⟩

theorem LogOf.mentionId {room : String} {log : List Message} (h : LogOf room log) {i : ℕ}
    {m : Message} (hm : log[i]? = some m) :
    m.mentionId = room ++ ":" ++ toString (i + 1 : ℤ) := by
  rw [Message.mentionId, h.room m (List.mem_of_getElem? hm), h.numbered.numbers i m hm]

theorem Agrees.record_iff (h : Agrees d) (user mention : String) (v : Json) :
    d.find (statePath user mention) = some v ↔
      ∃ m unread, Mentions d user m unread ∧ m.mentionId = mention ∧ v = m.record unread := by
  obtain ⟨records, hshown, hiff⟩ := h.records
  rw [hshown.records, hiff]

theorem Agrees.mentionsAgree (h : Agrees d) : MentionsAgree d where
  records := by
    intro user mention v
    rw [h.record_iff]
    constructor
    · rintro ⟨m, unread, ⟨log, hlog, hmem, hlookup⟩, rfl, rfl⟩
      have hof := (h.rooms m.room).logOf hlog
      obtain ⟨i, hi⟩ := List.getElem?_of_mem hmem
      exact ⟨m.room, log, i, m, unread, hlog.lawful hof, hi, hlookup, hof.mentionId hi, rfl⟩
    · rintro ⟨room, log, i, m, unread, hlawful, hi, hlookup, rfl, rfl⟩
      obtain ⟨hlog, hof⟩ := hlawful.shown h.rooms
      have hmem := List.mem_of_getElem? hi
      rw [← hof.room m hmem] at hlog
      exact ⟨m, unread, ⟨log, hlog, hmem, hlookup⟩, hof.mentionId hi, rfl⟩
  unread := by
    intro room log i m user hlawful hi hmentioned
    obtain ⟨hlog, hof⟩ := hlawful.shown h.rooms
    obtain ⟨unread, hlookup⟩ := Option.isSome_iff_exists.mp hmentioned
    have hmem := List.mem_of_getElem? hi
    have hrecord : d.find (statePath user (room ++ ":" ++ toString (i + 1 : ℤ)))
        = some (m.record unread) := by
      rw [← hof.mentionId hi, h.record_iff]
      exact ⟨m, unread, ⟨log, (hof.room m hmem).symm ▸ hlog, hmem, hlookup⟩, rfl, rfl⟩
    rw [unreadPath, Json.find_append, hrecord, Option.bind_some, find_unread, markPath_eq,
      Json.find_append, hlog.data, Option.bind_some, Json.find_cons, Json.child,
      List.getElem?_map, hi]
    exact ((m.find_mark user).trans (by rw [hlookup]; rfl)).symm
  distinct := by
    intro room room' log log' i j m m' hlawful hlawful' hi hj hmention
    obtain ⟨-, hof⟩ := hlawful.shown h.rooms
    obtain ⟨-, hof'⟩ := hlawful'.shown h.rooms
    rw [hof.mentionId hi, hof'.mentionId hj] at hmention
    obtain ⟨hroom, hnumber⟩ := colon_intText_inj hmention
    exact ⟨hroom, by omega⟩
  once := by
    intro user mention mention' v v' hv hv' hroom hsequence
    obtain ⟨m, unread, -, rfl, rfl⟩ := (h.record_iff user mention v).mp hv
    obtain ⟨m', unread', -, rfl, rfl⟩ := (h.record_iff user mention' v').mp hv'
    rw [find_room, find_room, Option.some.injEq, Json.str.injEq] at hroom
    rw [find_sequence, find_sequence, Option.some.injEq, Json.int.injEq] at hsequence
    rw [Message.mentionId, Message.mentionId, hroom, hsequence]

/-- What has been read stays read. -/
theorem Agrees.staysRead (h : Agrees d) (h' : Agrees d') (hrun : Reachable readNumber d d')
    {user mention : String} (hread : d.find (unreadPath user mention) = some (.bool false)) :
    d'.find (unreadPath user mention) = some (.bool false) := by
  rw [unreadPath, Json.find_append] at hread
  obtain ⟨v, hv, hfalse⟩ := Option.bind_eq_some_iff.mp hread
  obtain ⟨m, unread, ⟨log, hlog, hmem, hlookup⟩, rfl, rfl⟩ := (h.record_iff user mention v).mp hv
  rw [find_unread, Option.some.injEq, Json.bool.injEq] at hfalse
  rw [hfalse] at hlookup
  obtain ⟨i, hi⟩ := List.getElem?_of_mem hmem
  obtain ⟨-, hheld⟩ := reachable_goes hrun ((h.rooms m.room).ok hlog)
  obtain ⟨log', hlog', hholds⟩ := hheld log hlog
  obtain ⟨m', hi', hkept⟩ := hholds i m hi
  have hid : m'.mentionId = m.mentionId := by
    rw [Message.mentionId, Message.mentionId, hkept.room, hkept.sequence]
  have hrecord : d'.find (statePath user m.mentionId) = some (m'.record false) :=
    (h'.record_iff _ _ _).mpr ⟨m', false, ⟨log', hkept.room.symm ▸ hlog',
      List.mem_of_getElem? hi', hkept.read user hlookup⟩, hid, rfl⟩
  rw [unreadPath, Json.find_append, hrecord, Option.bind_some, find_unread]

/-- **Mentions agree.** -/
theorem mentions_agree (hrooms : ∀ room, Idle start room)
    (hrecords : RecordsShown start fun _ _ ↦ none) (h : MentionRun readNumber start d) :
    MentionsAgree d ∧ ∀ d', MentionRun readNumber d d' → MentionsAgree d' ∧
      ∀ user mention, d.find (unreadPath user mention) = some (.bool false) →
        d'.find (unreadPath user mention) = some (.bool false) := by
  have hstart : Agrees start := by
    refine ⟨fun room ↦ Or.inl (hrooms room), _, hrecords, fun user mention v ↦ ⟨nofun, ?_⟩⟩
    rintro ⟨m, unread, ⟨log, hlog, -, -⟩, -, -⟩
    exact absurd (hrooms m.room) hlog.not_idle
  have hd := h.agrees hstart
  refine ⟨hd.mentionsAgree, fun d' hrun ↦ ?_⟩
  have hd' := hrun.agrees hd
  exact ⟨hd'.mentionsAgree, fun user mention ↦ hd.staysRead hd' hrun.reachable⟩

/-- The canvas with one message, after the mention in it has been read. -/
def readCanvas : Json :=
  (storeMentionState (fun _ ↦ none) 2 "general:1" (.obj []) false (some greetedCanvas)).2.getD .null

theorem readCanvas_run : MentionRun (fun _ ↦ none) emptyCanvas readCanvas := by
  refine .step (.step .init (.commit emptyCanvas greeting (.str "default") ["2"]
    (some (.stored greeting.toJson)) greetedCanvas true (by decide) (List.Perm.refl _)
    (by decide +kernel)) rfl) (.state greetedCanvas 2 "general:1" (.obj []) false readCanvas ?_) rfl
  decide +kernel

theorem emptyCanvas_idle (room : String) : Idle emptyCanvas room := idle_of_absent rfl

theorem emptyCanvas_records : RecordsShown emptyCanvas fun _ _ ↦ none := by
  refine ⟨?_, ?_, ?_⟩
  · intro v hv
    nomatch hv
  · intro user v hv
    nomatch hv
  · intro user mention
    rfl

theorem mentions_agree_read :
    MentionsAgree readCanvas ∧ ∀ d', MentionRun (fun _ ↦ none) readCanvas d' → MentionsAgree d' ∧
      ∀ user mention, readCanvas.find (unreadPath user mention) = some (.bool false) →
        d'.find (unreadPath user mention) = some (.bool false) :=
  mentions_agree emptyCanvas_idle emptyCanvas_records readCanvas_run

example : readCanvas.find (unreadPath "2" "general:1") = some (.bool false) := by decide +kernel

end Runs

end Chat

end Agora
