import Agora.Chat.Rooms
import Agora.Query.Admission
import Agora.Query.Guarded
import Agora.Settings.Asking

/-!
# The ids of comment rooms

The comments on an object are kept in a room whose id is computed from the id of the object. A chat
query cannot name such a room, but an item can be stored under its id. In a run of queries of any
kind none of which does so where nothing is stored yet, what is under such an id is a room, and a
comment has created it (`comment_rooms_reserved`).
-/

namespace Agora

open Broker Chat Query

/-! ## Rooms that go on -/

/-- A chat room as a message creates it, without a kind. -/
def PlainRoom (item : Json) : Prop := isChatRoomItem item ∧ field? item "kind" = none

instance (item : Json) : Decidable (PlainRoom item) := inferInstanceAs (Decidable (_ ∧ _))

theorem PlainRoom.room {item : Json} (h : PlainRoom item) : Room item :=
  ⟨h.1, by rw [h.2]; exact (Option.some_ne_none _).symm⟩

theorem PlainRoom.congr {item item' : Json} (h : PlainRoom item)
    (htype : field? item' "type" = field? item "type")
    (hkind : field? item' "kind" = field? item "kind") : PlainRoom item' :=
  ⟨(isChatRoomItem_congr htype).trans h.1, hkind.trans h.2⟩

/-- What chats make of an item: a room stays one, and where nothing is a room may appear. -/
def RoomFrom (old item : Json) : Prop :=
  (old = .null → item = .null ∨ PlainRoom item) ∧ (PlainRoom old → PlainRoom item)

theorem RoomFrom.refl (item : Json) : RoomFrom item item := ⟨Or.inl, id⟩

theorem RoomFrom.trans {old item item' : Json} (h : RoomFrom old item) (h' : RoomFrom item item') :
    RoomFrom old item' := by
  refine ⟨fun hnull ↦ ?_, fun hroom ↦ h'.2 (h.2 hroom)⟩
  rcases h.1 hnull with hnull | hroom
  · exact h'.1 hnull
  · exact Or.inr (h'.2 hroom)

theorem itemOf_field (d : Json) (id k : String) :
    field? (itemOf d id) k = d.find (itemPath id ++ [.key k]) := by
  rw [Json.find_append, itemOf]
  rcases d.find (itemPath id) with _ | item
  · rfl
  · exact (Option.bind_fun_some _).symm

/-- Where there is no item, nothing is written into one. -/
theorem set_field_of_null {d : Json} {id : String} (h : itemOf d id = .null) (k : String)
    (p : List Segment) (v : Json) : d.set (itemPath id ++ .key k :: p) v = none := by
  rw [itemOf] at h
  rcases hfind : d.find (itemPath id) with _ | item
  · exact Json.set_append_of_none hfind (List.cons_ne_nil _ _) v
  · rw [hfind, Option.getD_some] at h
    rw [Json.set_append hfind, h]
    rcases p with _ | ⟨s, p⟩
    · rfl
    · rfl

/-- From one document to the next only rooms change. -/
structure OnlyRooms (d d' : Json) : Prop where
  holder : (∃ fields, d.find itemsPath = some (.obj fields)) →
    ∃ fields, d'.find itemsPath = some (.obj fields)
  ledger : ∀ p, d'.find (.key "__broker_sync" :: p) = d.find (.key "__broker_sync" :: p)
  items : ∀ id, RoomFrom (itemOf d id) (itemOf d' id)

namespace OnlyRooms

variable {d d' d'' : Json}

theorem refl (d : Json) : OnlyRooms d d := ⟨id, fun _ ↦ rfl, fun _ ↦ .refl _⟩

theorem trans (h : OnlyRooms d d') (h' : OnlyRooms d' d'') : OnlyRooms d d'' where
  holder hholder := h'.holder (h.holder hholder)
  ledger p := (h'.ledger p).trans (h.ledger p)
  items id := (h.items id).trans (h'.items id)

theorem inOrder (h : OnlyRooms d d') (hin : InOrder d) : InOrder d' := by
  have hholder := hin
  obtain ⟨b, hshows, -⟩ := hholder
  exact hin.of_ledger (h.holder hshows.holder) h.ledger

/-- Nothing happens to the items and the ledger. -/
theorem of_frame (hitems : ∀ p, d'.find (.key "items" :: p) = d.find (.key "items" :: p))
    (hledger : ∀ p, d'.find (.key "__broker_sync" :: p) = d.find (.key "__broker_sync" :: p)) :
    OnlyRooms d d' where
  holder hholder := by rwa [show d'.find itemsPath = d.find itemsPath from hitems []]
  ledger := hledger
  items id := by
    rw [itemOf_eq (hitems [.key id])]
    exact .refl _

theorem of_states (h : ∀ q, Json.Apart statesPath q → d'.find q = d.find q) : OnlyRooms d d' :=
  of_frame (fun p ↦ h _ (apart_head (by decide) _ _)) fun p ↦ h _ (apart_head (by decide) _ _)

/-- Something is stored at or below an item. -/
theorem of_set {id : String} {p : List Segment} {v : Json}
    (hset : d.set (itemPath id ++ p) v = some d')
    (hitem : RoomFrom (itemOf d id) (itemOf d' id)) : OnlyRooms d d' where
  holder := by
    rintro -
    have hthere := Json.find_set_self hset
    rw [Json.find_append] at hthere
    obtain ⟨item, hfound, -⟩ := Option.bind_eq_some_iff.mp hthere
    exact @Json.find_holder itemsPath _ _ id hfound
  ledger q := Json.find_set_of_apart (apart_ledger_items q (.key id :: p)).symm hset
  items id' := by
    by_cases hid : id' = id
    · rw [hid]
      exact hitem
    · rw [itemOf_eq (Json.find_set_of_apart ((apart_items (Ne.symm hid)).append_left p) hset)]
      exact .refl _

/-- Something is stored in a field of an item that is neither its type nor its kind. -/
theorem of_set_field {id k : String} (htype : k ≠ "type") (hkind : k ≠ "kind") {p : List Segment}
    {v : Json} (hset : d.set (itemPath id ++ .key k :: p) v = some d') : OnlyRooms d d' := by
  have hfield : ∀ {k'}, k ≠ k' → field? (itemOf d' id) k' = field? (itemOf d id) k' := by
    intro k' hk
    rw [itemOf_field, itemOf_field]
    exact Json.find_set_of_apart (apart_fields hk id p []) hset
  refine of_set hset ⟨fun hnull ↦ ?_, fun hroom ↦ hroom.congr (hfield htype) (hfield hkind)⟩
  rw [set_field_of_null hnull] at hset
  cases hset

theorem of_marked {room user : String} (h : MarkedAt room user d d') : OnlyRooms d d' := by
  rcases h with _ | ⟨i, w, _, -, hset⟩
  · exact .refl d
  · rw [markPath_eq, dataPath, List.append_assoc] at hset
    exact of_set_field (by decide) (by decide) hset

end OnlyRooms

/-! ## Scripts -/

section Scripts

variable {readNumber : String → Option ℚ} {d : Json}

theorem keeps_of_onlyRooms {α : Type} {x : Script α} (h : ∀ d, OnlyRooms d (x d).2) :
    Keeps (OnlyRooms d) x := fun d' hd ↦ hd.trans (h d')

theorem jsonSet_onlyRooms {id k : String} (htype : k ≠ "type") (hkind : k ≠ "kind")
    (p : List Segment) (v : Json) :
    Keeps (OnlyRooms d) (Script.jsonSet (itemPath id ++ .key k :: p) v) := by
  refine keeps_of_onlyRooms fun d ↦ ?_
  rcases hset : d.set (itemPath id ++ .key k :: p) v with _ | d'
  · rw [Script.jsonSet_of_none hset]
    exact .refl d
  · rw [Script.jsonSet_run hset]
    exact .of_set_field htype hkind hset

theorem jsonSetNew_onlyRooms {id k : String} (htype : k ≠ "type") (hkind : k ≠ "kind")
    (p : List Segment) (v : Json) :
    Keeps (OnlyRooms d) (Script.jsonSetNew (itemPath id ++ .key k :: p) v) := by
  refine keeps_bind (Script.keeps_jsonGet _) fun found ↦ ?_
  rcases found with _ | w
  · exact jsonSet_onlyRooms htype hkind p v
  · exact keeps_pure _

/-- A room is only created where there is nothing. -/
theorem newRoom_onlyRooms (room : String) (permission : Json) :
    Keeps (OnlyRooms d) (Script.jsonSetNew (itemPath room) (newRoom permission)) := by
  refine keeps_of_onlyRooms fun d ↦ ?_
  rcases hfind : d.find (itemPath room) with _ | w
  · rw [Script.jsonSetNew_of_none hfind]
    rcases hset : d.set (itemPath room) (newRoom permission) with _ | d'
    · rw [Script.jsonSet_of_none hset]
      exact .refl d
    · rw [Script.jsonSet_run hset]
      have hnew : itemOf d' room = newRoom permission := by
        rw [itemOf, Json.find_set_self hset, Option.getD_some]
      have hplain : PlainRoom (newRoom permission) := ⟨decide_eq_true rfl, rfl⟩
      rw [← List.append_nil (itemPath room)] at hset
      refine .of_set hset ?_
      rw [hnew]
      exact ⟨fun _ ↦ Or.inr hplain, fun _ ↦ hplain⟩
  · rw [Script.jsonSetNew_of_find hfind]
    exact .refl d

theorem writes_onlyRooms {x : Script Unit} (h : Writes statesPath x) : Keeps (OnlyRooms d) x := by
  refine keeps_of_onlyRooms fun d ↦ ?_
  obtain ⟨d', hrun, hframe⟩ := h d
  rw [hrun]
  exact .of_states hframe

/-- **Committing a message** changes only rooms. -/
theorem commitScript_onlyRooms (m : Message) (permission : Json) (users : List String) :
    Keeps (OnlyRooms d) (commitScript readNumber m permission users) := by
  have hstore : ∀ n : ℚ, Keeps (OnlyRooms d) (store m n users) := by
    intro n
    have happend : Keeps (OnlyRooms d) (Script.arrAppend (dataPath m.room) m.toJson) := by
      refine keeps_bind (Script.keeps_jsonGet _) fun data ↦ ?_
      split
      · exact jsonSet_onlyRooms (by decide) (by decide) [] _
      · exact keeps_pure _
    refine keeps_bind happend fun _ ↦ ?_
    refine keeps_bind (jsonSet_onlyRooms (by decide) (by decide) [] _) fun _ ↦ ?_
    refine keeps_bind (jsonSetNew_onlyRooms (by decide) (by decide) [] _) fun _ ↦ ?_
    refine keeps_bind (jsonSet_onlyRooms (by decide) (by decide) [.key m.key] _) fun _ ↦ ?_
    exact keeps_bind (writes_onlyRooms (recordMentions_writes m users)) fun _ ↦ keeps_pure _
  have hnext : Keeps (OnlyRooms d) (appendNext readNumber m users) := by
    refine keeps_bind (Script.keeps_jsonGet _) fun next ↦ ?_
    dsimp only
    split
    · exact hstore _
    · exact keeps_pure _
  refine keeps_bind (Script.keeps_jsonGet _) fun received ↦ ?_
  split
  · exact answerReceived_keeps m _
  · refine keeps_bind (Script.keeps_jsonGet _) fun type ↦ ?_
    split
    · exact keeps_bind (newRoom_onlyRooms m.room permission) fun _ ↦ hnext
    · split
      · exact hnext
      · exact keeps_pure _

/-- Reading a mention changes only rooms, and creates none. -/
theorem stateScript_onlyRooms (user mention : String) (note : Json) (unread : Bool) (d : Json) :
    OnlyRooms d (stateScript readNumber user mention note unread d).2 ∧ ∀ id,
      itemOf d id = .null → itemOf (stateScript readNumber user mention note unread d).2 id = .null
    := by
  obtain ⟨room, d₁, hframe, hmarked⟩ := stateScript_spec readNumber user mention note unread d
  refine ⟨(OnlyRooms.of_states hframe).trans (.of_marked hmarked), fun id hnull ↦ ?_⟩
  have hbefore : itemOf d₁ id = .null :=
    (itemOf_eq (hframe _ (apart_states_item id []))).trans hnull
  rcases hmarked with _ | ⟨i, w, _, -, hset⟩
  · exact hbefore
  · by_cases hid : room = id
    · rw [markPath_eq, dataPath, List.append_assoc, hid] at hset
      rw [show itemPath id ++ ([Segment.key "data"] ++ [.index i, .key "mentions", .key user])
        = itemPath id ++ .key "data" :: [.index i, .key "mentions", .key user] from rfl,
        set_field_of_null hbefore] at hset
      cases hset
    · rw [itemOf_eq (Json.find_set_of_apart (apart_mark hid i user []) hset)]
      exact hbefore

end Scripts

/-! ## Chat queries -/

section Chats

variable {base : Backend Storage} {readNumber : String → Option ℚ} {visit : Visit} {told : Telling}
  {d : Json} {a : Admitted}

/-- A query about the comments on an object whose room has an id. -/
def Concerns (base : Backend Storage) (a : Admitted) (id : String) : Prop :=
  ∃ x, x ≠ "" ∧ a.event.valueString "object_id" "" = .ok x ∧ commentRoomId base x = id

/-- An id as comment rooms have it. -/
abbrev IsReserved (id : String) : Prop := "object-comment-".isPrefixOf id

theorem readItem_front (id : ℤ) (item : String) : Keeps (fun s ↦ s.document = d)
    (readItem (canvasBackend base readNumber visit told) id item) := by
  refine keeps_bind (keeps_read _) fun raw ↦ keeps_bind ?_ fun _ ↦ keeps_step fun found ↦ ?_
  · rcases raw with _ | text
    · exact keeps_fail _
    · exact keeps_pure _
  · rcases found
    case arr => exact keeps_pure _
    all_goals exact keeps_fail _

theorem commentTarget_front (objectId : String) : Keeps (fun s ↦ s.document = d)
    (commentTarget (canvasBackend base readNumber visit told) a objectId) := by
  refine keeps_step fun _ ↦ keeps_bind (readItem_front _ _) fun found ↦ ?_
  rcases found with _ | target
  · exact keeps_lift _
  · exact keeps_step fun _ ↦ keeps_pure _

/-- The room with the comments on an object cannot be named. -/
theorem roomTarget_yields : Yields (fun s ↦ s.document = d)
    (roomTarget (canvasBackend base readNumber visit told) a)
    fun target ↦ IsReserved target.2.2 → Concerns base a target.2.2 := by
  refine yields_step fun objectId hobject ↦ yields_step fun roomId _ ↦ ?_
  split
  · next hne =>
    refine yields_step fun _ _ ↦ yields_bind (readItem_front _ _).yields fun found _ ↦ ?_
    rcases found with _ | target
    · exact yields_lift fun _ h ↦ absurd h Checked.reject_ok
    · exact yields_step fun _ _ ↦ yields_pure fun _ ↦ ⟨objectId, hne, hobject, rfl⟩
  · refine yields_lift fun target htarget hreserved ↦ ?_
    obtain ⟨_, hnamed, htarget⟩ := Checked.bind_ok.mp htarget
    obtain rfl := Checked.pure_ok.mp htarget
    rw [Checked.throwIf_ok] at hnamed
    exact absurd (hnamed.symm.trans hreserved) Bool.false_ne_true

theorem findRoom_front : Keeps (fun s ↦ s.document = d)
    (findRoom (canvasBackend base readNumber visit told) a) := by
  refine keeps_bind (keeps_step fun objectId ↦ keeps_step fun roomId ↦ ?_) fun target ↦
    keeps_step fun _ ↦ keeps_bind (readItem_front _ _) fun _ ↦ keeps_step fun _ ↦ keeps_pure _
  split
  · exact commentTarget_front _
  · exact keeps_lift _

theorem findRoom_yields : Yields (fun s ↦ s.document = d)
    (findRoom (canvasBackend base readNumber visit told) a)
    fun r ↦ IsReserved r.roomId → Concerns base a r.roomId :=
  yields_bind roomTarget_yields fun _ htarget ↦ yields_step fun _ _ ↦
    yields_bind (readItem_front _ _).yields fun _ _ ↦ yields_step fun _ _ ↦ yields_pure htarget

theorem loadDocument_front (id : ℤ) : Keeps (fun s ↦ s.document = d)
    (loadDocument (canvasBackend base readNumber visit told) id) := by
  refine keeps_bind (keeps_read _) fun raw ↦ keeps_bind ?_ fun _ ↦ keeps_lift _
  rcases raw with _ | text
  · exact keeps_fail _
  · exact keeps_pure _

theorem mentioned_front (hbase : Outside base) (permission : Json) (text : String) :
    Keeps (fun s ↦ s.document = d)
      (mentioned (canvasBackend base readNumber visit told) a permission text) := by
  unfold mentioned
  split
  · exact keeps_pure _
  · refine keeps_bind (loadDocument_front _) fun doc ↦ keeps_foldlM (fun m handle ↦ ?_) _ _
    refine keeps_bind (keeps_call (hbase.getActiveUserIdChecked _ _)) fun found ↦
      keeps_bind ?_ fun _ ↦ keeps_step fun _ ↦ keeps_step fun _ ↦ keeps_pure _
    rcases found with _ | recipient
    · exact keeps_fail _
    · exact keeps_pure _

theorem newMessage_front (hbase : Outside base) (r : RoomRef) (text : String) :
    Keeps (fun s ↦ s.document = d)
        (newMessage (canvasBackend base readNumber visit told) a r text) ∧
      Yields (fun s ↦ s.document = d)
        (newMessage (canvasBackend base readNumber visit told) a r text)
        fun m ↦ m.room = r.roomId :=
  ⟨keeps_step fun _ ↦ keeps_step fun _ ↦ keeps_step fun _ ↦ keeps_step fun _ ↦
      keeps_bind (keeps_call hbase.nowMillis) fun _ ↦ keeps_pure _,
    yields_step fun _ _ ↦ yields_step fun _ _ ↦ yields_step fun _ _ ↦ yields_step fun _ _ ↦
      yields_bind (keeps_call hbase.nowMillis).yields fun _ _ ↦ yields_pure rfl⟩

theorem readChatPage_front (id : ℤ) (request : PageRequest) : Keeps (fun s ↦ s.document = d)
    (liftM ((canvasBackend base readNumber visit told).readChatPage id request) :
      Query Storage (Option Text)) :=
  keeps_call fun s ↦ (Storage.reading_run (fun d ↦ readChatPage readNumber request (some d)) s).1

theorem flush_keeps {P : Json → Prop} (id : ℤ) : Keeps (fun s : Storage ↦ P s.document)
    (liftM ((canvasBackend base readNumber visit told).flushCanvas id) : Query Storage Bool) := by
  intro s hs
  rw [call_run]
  rcases Storage.writing_document some s with hsame | hwritten
  · exact hsame ▸ hs
  · exact Option.some.inj hwritten ▸ hs

/-- What chats leave: only rooms have changed, and of these only one. -/
def RoomLeft (d : Json) (room : String) (d' : Json) : Prop :=
  OnlyRooms d d' ∧ ∀ id, id ≠ room → itemOf d' id = itemOf d id

theorem RoomLeft.refl (d : Json) (room : String) : RoomLeft d room d := ⟨.refl d, fun _ _ ↦ rfl⟩

/-- The message is committed, or it is not. -/
theorem commitChatMessage_leads (id : ℤ) (permission : Json) (m : Message) :
    Leads (fun s ↦ s.document = d) (fun s ↦ RoomLeft d m.room s.document)
      (liftM ((canvasBackend base readNumber visit told).commitChatMessage id permission m) :
        Query Storage (Option Json)) := by
  rintro s rfl
  rw [call_run]
  rcases Storage.scripted_document (fun d ↦
    ((commitChatMessage readNumber m permission (told.order m) (some d)).1,
      (commitChatMessage readNumber m permission (told.order m) (some d)).2.getD d)) s with
    hsame | hran
  · exact hsame ▸ RoomLeft.refl _ _
  · refine hran ▸ ⟨commitScript_onlyRooms m permission (told.order m) s.document (.refl _), ?_⟩
    intro id hid
    exact itemOf_eq (commitScript_frame m permission (told.order m) s.document
      (apart_items hid.symm) (apart_states_item id []))

theorem chatMessage_leads (hbase : Outside base) (r : RoomRef) :
    Leads (fun s ↦ s.document = d) (fun s ↦ RoomLeft d r.roomId s.document)
      (chatMessage (canvasBackend base readNumber visit told) a r) := by
  have hstart : ∀ s : Storage, s.document = d → RoomLeft d r.roomId s.document := by
    rintro s rfl
    exact .refl _ _
  refine leads_step hstart fun text _ ↦ leads_step hstart fun _ _ ↦ ?_
  obtain ⟨hkeeps, hyields⟩ := @newMessage_front base readNumber visit told d a hbase r text
  refine leads_bind hkeeps hyields hstart fun m hroom ↦ ?_
  refine leads_bind (mentioned_front hbase _ _) (mentioned_front hbase _ _).yields hstart ?_
  intro users _
  refine Leads.bind (hroom ▸ commitChatMessage_leads a.route.id (roomPermission a r)
    { m with mentions := users.users, nodup := users.nodup }) fun committed ↦ ?_
  refine keeps_bind ?_ fun _ ↦ keeps_bind (flush_keeps _) fun flushed ↦ keeps_bind ?_ fun _ ↦
    keeps_step fun _ ↦ keeps_pure _
  · rcases committed with _ | message
    · exact keeps_fail _
    · exact keeps_pure _
  · rcases flushed
    · exact keeps_fail _
    · exact keeps_pure _

/-- **A chat query** changes at most the room it is about. -/
theorem chatQuery_leads (hbase : Outside base) :
    Leads (fun s ↦ s.document = d)
      (fun s ↦ OnlyRooms d s.document ∧ ∀ id, IsReserved id → itemOf s.document id ≠ itemOf d id →
        a.type ≠ "chat_history" ∧ Concerns base a id)
      (chatQuery (canvasBackend base readNumber visit told) a) := by
  have hstart : ∀ s : Storage, s.document = d → OnlyRooms d s.document ∧
      ∀ id, IsReserved id → itemOf s.document id ≠ itemOf d id →
        a.type ≠ "chat_history" ∧ Concerns base a id := by
    rintro s rfl
    exact ⟨.refl _, fun _ _ h ↦ absurd rfl h⟩
  refine leads_bind findRoom_front findRoom_yields hstart fun r hroom ↦ ?_
  split
  · refine Keeps.leads ?_ hstart
    unfold chatHistoryQuery
    split
    · exact keeps_step fun _ ↦ keeps_lift _
    · refine keeps_step fun _ ↦ keeps_bind (readChatPage_front _ _) fun raw ↦
        keeps_bind ?_ fun _ ↦ keeps_step fun _ ↦ keeps_step fun _ ↦ keeps_lift _
      rcases raw with _ | text
      · exact keeps_fail _
      · exact keeps_pure _
  · next htype =>
    intro s hs
    obtain ⟨honly, hothers⟩ := chatMessage_leads hbase r s hs
    refine ⟨honly, fun id hreserved hchanged ↦ ?_⟩
    by_cases hid : id = r.roomId
    · exact ⟨htype, hid ▸ hroom (hid ▸ hreserved)⟩
    · exact absurd (hothers id hid) hchanged

end Chats

/-! ## Other queries that change no items -/

section Others

variable {base : Backend Storage} {readNumber : String → Option ℚ} {visit : Visit} {told : Telling}
  {d : Json} {a : Admitted}

theorem accessible_front (note : Json) : Keeps (fun s ↦ s.document = d)
    (accessible (canvasBackend base readNumber visit told) a note) := by
  refine keeps_step fun key ↦ ?_
  split
  · exact keeps_bind (readItem_front _ _) fun _ ↦ keeps_lift _
  · exact keeps_pure _

theorem accessibleNotes_front (notes shown : List Json) : Keeps (fun s ↦ s.document = d)
    (accessibleNotes (canvasBackend base readNumber visit told) a notes shown) := by
  induction notes generalizing shown with
  | nil => exact keeps_pure _
  | cons note notes ih =>
    refine keeps_bind (accessible_front note) fun visible ↦ ?_
    dsimp only
    split_ifs
    · exact keeps_pure _
    · exact ih _
    · exact keeps_pure _
    · exact ih _

theorem readMentionStates_front (id user : ℤ) : Keeps (fun s ↦ s.document = d)
    (readMentionStates (canvasBackend base readNumber visit told) id user) := by
  unfold readMentionStates
  split
  · refine keeps_bind (keeps_pure _) fun found ↦ ?_
    beta_reduce
    split
    · exact keeps_pure _
    · exact keeps_fail _
  · refine keeps_bind (keeps_read _) fun found ↦ ?_
    beta_reduce
    split
    · exact keeps_pure _
    · exact keeps_fail _

/-- What reading a mention leaves: rooms may have changed, and none is new. -/
def NoneNew (d d' : Json) : Prop :=
  OnlyRooms d d' ∧ ∀ id, itemOf d id = .null → itemOf d' id = .null

theorem NoneNew.refl (d : Json) : NoneNew d d := ⟨.refl d, fun _ h ↦ h⟩

theorem storeMentionState_leads (id user : ℤ) (mention : String) (note : Json) :
    Leads (fun s ↦ s.document = d) (fun s ↦ NoneNew d s.document)
      (liftM ((canvasBackend base readNumber visit told).storeMentionState id user mention note) :
        Query Storage Bool) := by
  rintro s rfl
  rw [call_run]
  rcases Storage.scripted_document (fun d ↦
    (some (storeMentionState readNumber user mention note false (some d)).1,
      (storeMentionState readNumber user mention note false (some d)).2.getD d)) s with
    hsame | hran
  · exact hsame ▸ NoneNew.refl _
  · refine hran ▸ ?_
    rcases hstate : (storeMentionState readNumber user mention note false (some s.document)).2 with
      _ | d'
    · exact NoneNew.refl _
    · rcases storeMentionState_spec hstate with rfl | ⟨record, rfl⟩
      · exact NoneNew.refl _
      · exact stateScript_onlyRooms (toString user) mention record false s.document

theorem mentionQuery_leads :
    Leads (fun s ↦ s.document = d) (fun s ↦ NoneNew d s.document)
      (mentionQuery (canvasBackend base readNumber visit told) a) := by
  have hstart : ∀ s : Storage, s.document = d → NoneNew d s.document := by
    rintro s rfl
    exact .refl _
  have hensure : ∀ {P : Storage → Prop} (succeeded : Bool), Keeps P (ensure succeeded) := by
    intro P succeeded
    rcases succeeded
    · exact keeps_fail _
    · exact keeps_pure _
  refine leads_step hstart fun index _ ↦ leads_step hstart fun user _ ↦ ?_
  refine leads_bind (readMentionStates_front _ _) (readMentionStates_front _ _).yields hstart ?_
  intro states _
  split
  · refine leads_step hstart fun mention _ ↦ ?_
    split
    · exact (keeps_lift _).leads hstart
    · refine leads_bind (accessible_front _) (accessible_front _).yields hstart fun _ _ ↦ ?_
      refine leads_step hstart fun _ _ ↦ Leads.bind ?_ fun _ ↦ keeps_pure _
      refine leads_bind (hensure _) (hensure _).yields hstart fun _ _ ↦ ?_
      refine leads_step hstart fun _ _ ↦ ?_
      refine Leads.bind (storeMentionState_leads _ _ _ _) fun stored ↦ ?_
      exact keeps_bind (hensure _) fun _ ↦ keeps_bind (flush_keeps _) fun _ ↦ hensure _
  · refine leads_step hstart fun notes _ ↦ Keeps.leads ?_ hstart
    exact keeps_bind (accessibleNotes_front _ _) fun _ ↦ keeps_pure _

theorem lookup_setFields_of_ne {doc fields : List (String × Json)} {k : String}
    (h : ∀ e ∈ fields, e.1 ≠ k) : (Settings.setFields doc fields).lookup k = doc.lookup k := by
  induction fields generalizing doc with
  | nil => rfl
  | cons e fields ih =>
    obtain ⟨he, hrest⟩ := List.forall_mem_cons.mp h
    exact (ih hrest).trans (Assoc.lookup_set_of_ne he _ _)

/-- Two documents with the same items and the same ledger. -/
def SameItems (d d' : Json) : Prop :=
  ∀ k ∈ ["items", "__broker_sync"], ∀ p, d'.find (.key k :: p) = d.find (.key k :: p)

theorem SameItems.noneNew {d' : Json} (h : SameItems d d') : NoneNew d d' :=
  ⟨.of_frame (h _ (by decide)) (h _ (by decide)),
    fun id hnull ↦ (itemOf_eq (h "items" (by decide) [.key id])).trans hnull⟩

theorem compareAndSet_sameItems {expected : ℤ} {fields : List (String × Json)}
    (h : Settings.OffItems fields) :
    SameItems d ((Storage.compareAndSet readNumber expected fields (some d)).2.getD d) := by
  rcases d
  case obj doc =>
    rw [Storage.compareAndSet]
    split
    · intro k hk p
      change ((Settings.setFields doc fields).lookup k).bind _ = (doc.lookup k).bind _
      rw [lookup_setFields_of_ne fun e he heq ↦ h e he (heq ▸ hk)]
    · exact fun _ _ _ ↦ rfl
  all_goals exact fun _ _ _ ↦ rfl

theorem settingsQuery_leads (hbase : Outside base) :
    Leads (fun s ↦ s.document = d) (fun s ↦ NoneNew d s.document)
      (settingsQuery (canvasBackend base readNumber visit told) a) := by
  have hout : ∀ {α : Type} {x : StateM Storage α}, (∀ s, (x s).2.document = s.document) →
      Settings.Leaves (fun s : Storage ↦ SameItems d s.document) x := by
    intro α x hx s hs
    rw [hx s]
    exact hs
  have hasked : Settings.Questions (canvasBackend base readNumber visit told)
      fun s : Storage ↦ SameItems d s.document :=
    { loadCanvas := fun _ ↦ hout fun s ↦ (Storage.reading_run some s).1
      isCanvasAssignedToServer := fun _ ↦ hout (hbase.isCanvasAssignedToServer _)
      getActiveUserId := fun _ _ ↦ hout (hbase.getActiveUserId _ _)
      getUserHandle := fun _ ↦ hout (hbase.getUserHandle _)
      hashCanvasPassword := fun _ ↦ hout (hbase.hashCanvasPassword _) }
  have hwritten : Settings.Writings (canvasBackend base readNumber visit told)
      fun s : Storage ↦ SameItems d s.document :=
    { compareAndSetFields := by
        intro id revision fields hfields s hs
        rcases Storage.scripted_document (fun d ↦
          ((Storage.compareAndSet readNumber revision fields (some d)).1,
            (Storage.compareAndSet readNumber revision fields (some d)).2.getD d)) s with
          hsame | hran
        · exact hsame ▸ hs
        · exact hran ▸ fun k hk p ↦ (compareAndSet_sameItems hfields k hk p).trans (hs k hk p)
      patchCanvasFields := fun _ _ ↦ hout (hbase.patchCanvasFields _ _)
      setSettingsRevision := fun _ _ ↦ hout (hbase.setSettingsRevision _ _) }
  have hkeeps : Keeps (fun s : Storage ↦ SameItems d s.document)
      (settingsQuery (canvasBackend base readNumber visit told) a) :=
    keeps_step fun _ ↦ keeps_step fun _ ↦ keeps_step fun _ ↦ keeps_step fun _ ↦
      keeps_step fun _ ↦ keeps_step fun _ ↦
        keeps_bind (Settings.executeSettings_keeps hasked hwritten _ _ _ _ _ _) fun _ ↦ keeps_pure _
  rintro s rfl
  exact (hkeeps s fun _ _ _ ↦ rfl).noneNew

end Others

/-! ## Runs -/

/-- An operation of a batch creates an item under an id. -/
def creates (id : String) (operation : Json) : Prop :=
  field? operation "action" = some (.str "create") ∧ field? operation "id" = some (.str id)

instance (id : String) (operation : Json) : Decidable (creates id operation) :=
  inferInstanceAs (Decidable (_ ∧ _))

/-- A query for changes of items asks to store one under an id. -/
def Puts (a : Admitted) (id : String) : Prop :=
  ItemQuery a ∧ (a.type = "canvas_ops" ∧ (∃ operation ∈ requested a, creates id operation) ∨
    Single a ∧ ∃ operation ∈ changed a, stores id operation)

instance (a : Admitted) (id : String) : Decidable (Puts a id) :=
  inferInstanceAs (Decidable (_ ∧ _))

/-- A comment is committed to the room under an id. -/
def Comments (base : Backend Storage) (a : Admitted) (id : String) : Prop :=
  a.type = "chat" ∧ Concerns base a id

theorem creates_of_mem_historyOf {id : String} {operations : List Json} {operation : Json}
    (h : Change.create operation ∈ historyOf operations id) :
    ∃ operation ∈ operations, creates id operation := by
  obtain ⟨operation', hmem, hcreate⟩ := List.mem_flatMap.mp h
  refine ⟨operation', hmem, ?_⟩
  unfold changesOf at hcreate
  unfold creates
  split at hcreate <;> (try split at hcreate) <;> simp_all

/-- Where there is no item and none is created, there is none in the end. -/
theorem Broker.Edits.absent {dumpSize : Json → ℕ} {groups : List String} {admin : Bool}
    {changes : List Change} {start item : Json} (h : Edits dumpSize groups admin changes start item)
    (hstart : start = .null) (hcreate : ∀ operation, Change.create operation ∉ changes) :
    item = .null := by
  induction h with
  | nil => exact hstart
  | snoc _ hedit ih =>
    obtain rfl := ih hstart fun operation hmem ↦ hcreate operation (List.mem_append_left _ hmem)
    rcases hedit with ⟨hthere, -, -, -, -⟩ | ⟨-⟩ | ⟨-⟩ | ⟨hthere, -⟩
    · exact absurd hthere (by decide)
    · rfl
    · exact absurd (List.mem_append_right _ (List.mem_singleton_self _)) (hcreate _)
    · exact absurd hthere (by decide)

theorem Origin.absent {dumpSize : Json → ℕ} {a : Admitted} (ha : ItemQuery a) {id : String}
    {old item : Json} (h : Origin dumpSize a id old item) (hnull : old = .null)
    (hputs : ¬Puts a id) : item = .null := by
  rcases h with _ | @⟨start, v, hbatch, -, hvisible, -, hedits, revision⟩ | ⟨-, -, -⟩ |
    ⟨hsingle, -, -, hasked⟩
  · exact hnull
  · have hstart : start = .null := by
      rcases visibleItem_groups hvisible with ⟨hstart, -⟩ | ⟨-, hvacant, -⟩
      · exact hstart
      · exact absurd (Or.inl hnull) hvacant
    have habsent := hedits.absent hstart fun operation hmem ↦
      hputs ⟨ha, Or.inl ⟨hbatch, creates_of_mem_historyOf hmem⟩⟩
    rw [habsent]
    rfl
  · rfl
  · exact absurd ⟨ha, Or.inr ⟨hsingle, hasked⟩⟩ hputs

/-- What a query leaves under the id of a comment room. -/
structure RoomKept (base : Backend Storage) (a : Admitted) (id : String) (old item : Json) :
    Prop where
  room : PlainRoom old → PlainRoom item
  absent : old = .null → ¬Puts a id → item = .null ∨ PlainRoom item ∧ Comments base a id

theorem NoneNew.roomKept {base : Backend Storage} {d d' : Json} (h : NoneNew d d') (a : Admitted)
    (id : String) : RoomKept base a id (itemOf d id) (itemOf d' id) :=
  ⟨(h.1.items id).2, fun hnull _ ↦ Or.inl (h.2 id hnull)⟩

section Run

variable {base : Backend Storage} {readNumber : String → Option ℚ} {visit : Visit} {told : Telling}
  {d : Json} {a : Admitted}

theorem itemQuery_leads (ha : ItemQuery a) (hin : InOrder d) :
    Leads (fun s ↦ s.document = d) (fun s ↦ InOrder s.document ∧ ∀ id,
        RoomKept base a id (itemOf d id) (itemOf s.document id))
      (performQuery (canvasBackend base readNumber visit told) a) := by
  intro s hs
  -- the scripts of chats and settings are calls a query for items does not make
  let outer : Backend Storage :=
    { base with
      readChatPage := (canvasBackend base readNumber visit told).readChatPage
      commitChatMessage := (canvasBackend base readNumber visit told).commitChatMessage
      appendMessage := (canvasBackend base readNumber visit told).appendMessage
      storeMentionState := (canvasBackend base readNumber visit told).storeMentionState
      compareAndSetFields := (canvasBackend base readNumber visit told).compareAndSetFields }
  obtain ⟨hin', horigin⟩ := @performQuery_written outer readNumber visit a ha d hin s hs
  refine ⟨hin', fun id ↦ ⟨fun hroom ↦ ?_, fun hnull hputs ↦ ?_⟩⟩
  · have hsame := (horigin id).rooms.1 hroom.room
    rw [← hsame] at hroom
    exact hroom
  · exact Or.inl ((horigin id).absent ha hnull hputs)

/-- **One query**, of any kind. -/
theorem performQuery_roomKept (hbase : Outside base) (hin : InOrder d) :
    Leads (fun s ↦ s.document = d) (fun s ↦ InOrder s.document ∧ ∀ id, IsReserved id →
        RoomKept base a id (itemOf d id) (itemOf s.document id))
      (performQuery (canvasBackend base readNumber visit told) a) := by
  have hnone : ∀ {x : Query Storage Json}, Leads (fun s ↦ s.document = d)
      (fun s ↦ NoneNew d s.document) x → Leads (fun s ↦ s.document = d)
        (fun s ↦ InOrder s.document ∧ ∀ id, IsReserved id →
          RoomKept base a id (itemOf d id) (itemOf s.document id)) x :=
    fun hx s hs ↦ ⟨(hx s hs).1.inOrder hin, fun id _ ↦ (hx s hs).roomKept a id⟩
  by_cases hsettings : "canvas_settings_".isPrefixOf a.type = true
  · have hops : ¬(a.type = "canvas_ops" ∨ a.type = "canvas_sync") := by
      rintro (htype | htype)
      all_goals
        rw [htype] at hsettings
        exact absurd hsettings (by decide)
    have hlease : a.type ≠ "broker_lease" := by
      intro htype
      rw [htype] at hsettings
      exact absurd hsettings (by decide)
    rw [performQuery, if_neg hops, if_neg hlease, if_pos hsettings]
    exact hnone (settingsQuery_leads hbase)
  · by_cases hother : a.type ∈ ["mentions_get", "mention_read", "chat", "chat_history"]
    · simp only [List.mem_cons, List.not_mem_nil, or_false] at hother
      have hfront : ¬(a.type = "canvas_ops" ∨ a.type = "canvas_sync") ∧
          a.type ≠ "broker_lease" := by
        rcases hother with htype | htype | htype | htype
        all_goals
          rw [htype]
          decide
      rw [performQuery, if_neg hfront.1, if_neg hfront.2, if_neg hsettings]
      split
      · exact hnone mentionQuery_leads
      · next hmention =>
        have hchat : a.type = "chat" ∨ a.type = "chat_history" := by
          rcases hother with htype | htype | htype | htype
          · exact absurd (Or.inl htype) hmention
          · exact absurd (Or.inr htype) hmention
          · exact Or.inl htype
          · exact Or.inr htype
        rw [if_pos hchat]
        intro s hs
        obtain ⟨honly, hchanged⟩ := chatQuery_leads (a := a) hbase s hs
        refine ⟨honly.inOrder hin, fun id hreserved ↦ ⟨(honly.items id).2, fun hnull _ ↦ ?_⟩⟩
        rcases (honly.items id).1 hnull with hleft | hroom
        · exact Or.inl hleft
        · have hnothing : ¬PlainRoom .null := by decide
          obtain ⟨hhistory, hconcerns⟩ := hchanged id hreserved fun hsame ↦
            hnothing (hsame.trans hnull ▸ hroom)
          exact Or.inr ⟨hroom, hchat.resolve_right hhistory, hconcerns⟩
    · intro s hs
      have hitem : ItemQuery a := ⟨Bool.not_eq_true _ ▸ hsettings, hother⟩
      obtain ⟨hin', hkept⟩ := @itemQuery_leads base readNumber visit told d a hitem hin s hs
      exact ⟨hin', fun id _ ↦ hkept id⟩

/-- Queries of any kind, one after the other, whatever becomes of their calls. -/
inductive Queries (base : Backend Storage) (readNumber : String → Option ℚ) (d : Json) :
    List Turn → Json → Prop
  | nil : Queries base readNumber d [] d
  | snoc {past : List Turn} {d' d'' : Json} (h : Queries base readNumber d past d') (a : Admitted)
      (visit : Visit) (told : Telling) (faults : List Fault)
      (run : (performQuery (canvasBackend base readNumber visit told) a ⟨d', faults⟩).2.document
        = d'') :
      Queries base readNumber d (past ++ [⟨a, d', d''⟩]) d''

/-- A comment has created the room under an id. -/
def Commented (base : Backend Storage) (past : List Turn) (id : String) : Prop :=
  ∃ t ∈ past, Comments base t.query id ∧ itemOf t.before id = .null ∧ PlainRoom (itemOf t.after id)

theorem Commented.snoc {past : List Turn} {id : String} (h : Commented base past id) (t : Turn) :
    Commented base (past ++ [t]) id := by
  obtain ⟨t', hmem, h⟩ := h
  exact ⟨t', List.mem_append_left _ hmem, h⟩

theorem isReserved_commentRoomId (x : String) : IsReserved (commentRoomId base x) := by
  rw [IsReserved, commentRoomId, String.isPrefixOf, String.startsWith_string_iff,
    String.toList_append]
  exact List.prefix_append _ _

/-- **The ids of comment rooms** are taken by nothing but comment rooms, as long as no query asks to
store an item under one where nothing is stored yet. -/
theorem comment_rooms_reserved (hbase : Outside base) (hstart : InOrder d)
    (hfree : ∀ x, itemOf d (commentRoomId base x) = .null) {past : List Turn} {d' : Json}
    (h : Queries base readNumber d past d')
    (hspared : ∀ t ∈ past, ∀ x, itemOf t.before (commentRoomId base x) = .null →
      ¬Puts t.query (commentRoomId base x)) :
    ∀ x, itemOf d' (commentRoomId base x) = .null ∨
      PlainRoom (itemOf d' (commentRoomId base x)) ∧
        Commented base past (commentRoomId base x) := by
  suffices hinv : InOrder d' ∧ ∀ x, itemOf d' (commentRoomId base x) = .null ∨
      PlainRoom (itemOf d' (commentRoomId base x)) ∧
        Commented base past (commentRoomId base x) from hinv.2
  induction h with
  | nil => exact ⟨hstart, fun x ↦ Or.inl (hfree x)⟩
  | snoc _ a visit told faults hrun ih =>
    obtain ⟨hbefore, hlast⟩ := List.forall_mem_append.mp hspared
    obtain ⟨hin, hrooms⟩ := ih hbefore
    obtain ⟨hin', hkept⟩ := @performQuery_roomKept base readNumber visit told _ a hbase hin
      ⟨_, faults⟩ rfl
    rw [hrun] at hin' hkept
    refine ⟨hin', fun x ↦ ?_⟩
    obtain ⟨hroom, habsent⟩ := hkept _ (isReserved_commentRoomId x)
    rcases hrooms x with hnull | ⟨hplain, hcommented⟩
    · rcases habsent hnull (List.forall_mem_singleton.mp hlast x hnull) with hleft | ⟨hnew, hmade⟩
      · exact Or.inl hleft
      · refine Or.inr ⟨hnew, _, List.mem_append_right _ (List.mem_singleton_self _), hmade, ?_⟩
        exact ⟨hnull, hnew⟩
    · exact Or.inr ⟨hroom hplain, hcommented.snoc _⟩

end Run

/-! ## A comment, and an item in the place of its room -/

/-- Digests are the texts themselves. -/
def commentBase : Backend Storage := { silentBackend with sha256 := fun text ↦ text }

def commentBackend : Backend Storage :=
  canvasBackend commentBase (fun _ ↦ none) asVisited plainTelling

def commenter : Admitted :=
  { drafter with
    identity := .obj [("user_id", .int 5), ("nickname", .str "ann"), ("tag_number", .int 1)] }

def comment : Admitted :=
  { commenter with
    type := "chat"
    event := .obj [("type", .str "chat"), ("object_id", .str "shape-1"), ("text", .str "ready?")] }

/-- A batch of one operation. -/
def batchQuery (operation : List (String × Json)) : Admitted :=
  { commenter with
    event := .obj [("client_id", .str "tab"), ("request_count", .int 1),
      ("operations", .arr [.obj operation])] }

def recoloring : Admitted :=
  batchQuery [("action", .str "patch"), ("id", .str "shape-1"),
    ("patch", .obj [("color", .str "red")])]

/-- An item is created under the id of the room for comments on another one. -/
def taking : Admitted :=
  batchQuery [("action", .str "create"), ("id", .str (commentRoomId commentBase "shape-1")),
    ("patch", .obj [("kind", .str "shape"), ("permission", .str "guests")])]

def afterChat (a : Admitted) (d : Json) : Json := (performQuery commentBackend a ⟨d, []⟩).2.document

def commentedDocument : Json := afterChat comment draftDocument

def takenDocument : Json := afterChat taking draftDocument

theorem outside_commentBase : Outside commentBase := { outside_silentBackend with }

/-- Under the ids of comment rooms there is nothing when the keys are none of them. -/
theorem itemOf_free {base : Backend Storage} {fields : List (String × Json)}
    (h : (fields.all fun e ↦ !"object-comment-".isPrefixOf e.1) = true) (x : String) :
    itemOf (.obj [("items", .obj fields)]) (commentRoomId base x) = .null := by
  have hnone : fields.lookup (commentRoomId base x) = none := by
    refine List.lookup_eq_none_iff.mpr fun e he ↦ bne_iff_ne.mpr fun heq ↦ ?_
    have hfree := List.all_eq_true.mp h e he
    rw [← heq, isReserved_commentRoomId x] at hfree
    exact absurd hfree (by decide)
  rw [itemOf, show itemPath (commentRoomId base x) = itemsPath ++ [.key (commentRoomId base x)]
    from rfl, @Json.find_key itemsPath _ fields rfl, hnone, Option.getD_none]

theorem comment_rooms_reserved_comment :
    PlainRoom (itemOf (afterChat recoloring commentedDocument)
        (commentRoomId commentBase "shape-1")) ∧
      Commented commentBase
        [⟨comment, draftDocument, commentedDocument⟩,
          ⟨recoloring, commentedDocument, afterChat recoloring commentedDocument⟩]
        (commentRoomId commentBase "shape-1") := by
  have hqueries : Queries commentBase (fun _ ↦ none) draftDocument
      ([⟨comment, draftDocument, commentedDocument⟩] ++
        [⟨recoloring, commentedDocument, afterChat recoloring commentedDocument⟩])
      (afterChat recoloring commentedDocument) :=
    .snoc (@Queries.snoc _ _ _ [] _ _ .nil comment asVisited plainTelling [] rfl) recoloring
      asVisited plainTelling [] rfl
  have hspared : ∀ a ∈ [comment, recoloring], ∀ id, ¬Puts a id := by
    refine List.forall_mem_cons.mpr ⟨fun id hputs ↦ ?_,
      List.forall_mem_singleton.mpr fun id hputs ↦ ?_⟩
    · exact absurd hputs.1 (by decide)
    · have hpatches : ((requested recoloring).all fun operation ↦
          field? operation "action" ≠ some (.str "create")) = true := by decide
      rcases hputs.2 with ⟨-, operation, hmem, hcreates⟩ | ⟨hsingle, -⟩
      · exact of_decide_eq_true (List.all_eq_true.mp hpatches operation hmem) hcreates.1
      · exact absurd hsingle (by decide)
  have hreserved := comment_rooms_reserved outside_commentBase draftDocument_inOrder
    (itemOf_free (by decide)) hqueries (List.forall_mem_cons.mpr
      ⟨fun x _ ↦ hspared comment List.mem_cons_self _, List.forall_mem_singleton.mpr fun x _ ↦
        hspared recoloring (List.mem_cons_of_mem _ List.mem_cons_self) _⟩) "shape-1"
  exact hreserved.resolve_left (by decide +kernel)

/-- The item stays, and nobody can comment on the other one any more. -/
theorem comment_rooms_reserved_taken :
    Queries commentBase (fun _ ↦ none) draftDocument [⟨taking, draftDocument, takenDocument⟩]
        takenDocument ∧
      (∀ x, itemOf draftDocument (commentRoomId commentBase x) = .null) ∧
      itemOf takenDocument (commentRoomId commentBase "shape-1") ≠ .null ∧
      isChatRoomItem (itemOf takenDocument (commentRoomId commentBase "shape-1")) = false ∧
      (performQuery commentBackend comment ⟨takenDocument, []⟩).1 = reject "ITEM_ACCESS_DENIED" :=
  ⟨@Queries.snoc _ _ _ [] _ _ .nil taking asVisited plainTelling [] rfl,
    itemOf_free (by decide),
    by decide +kernel, by decide +kernel, by decide +kernel⟩

end Agora
