import Agora.Broker.Ledger
import Agora.Chat.Keys
import Agora.Chat.Page
import Agora.Receipts.Log

/-!
# Chat rooms as logs

A room that the commit script has created is a log: its messages are numbered from 1, the next
number follows the last message, and for every request it remembers the number of the message the
request has become (`RoomShown`).
-/

namespace Agora

namespace Chat

open Script Broker Receipts

/-! ## Scripts that store in one place -/

/-- A script that comes to its end, and stores only at or below a place. -/
def Writes (base : List Segment) (x : Script Unit) : Prop :=
  ∀ d, ∃ d', x d = (.ok (), d') ∧ ∀ q, Json.Apart base q → d'.find q = d.find q

section Writes

variable {base : List Segment}

theorem writes_pure : Writes base (pure ()) := fun d ↦ ⟨d, rfl, fun _ _ ↦ rfl⟩

theorem writes_set (p : List Segment) (v : Json) : Writes base (jsonSet (base ++ p) v) := by
  intro d
  cases hset : d.set (base ++ p) v with
  | none => exact ⟨d, jsonSet_of_none hset, fun _ _ ↦ rfl⟩
  | some d' =>
    refine ⟨d', jsonSet_run hset, fun q hq ↦ ?_⟩
    exact Json.find_set_of_apart (hq.append_left p) hset

theorem writes_setNew (p : List Segment) (v : Json) : Writes base (jsonSetNew (base ++ p) v) := by
  intro d
  cases hfind : d.find (base ++ p) with
  | none =>
    rw [jsonSetNew_of_none hfind]
    exact writes_set p v d
  | some w => exact ⟨d, jsonSetNew_of_find hfind, fun _ _ ↦ rfl⟩

theorem writes_bind {x y : Script Unit} (hx : Writes base x) (hy : Writes base y) :
    Writes base (x >>= fun _ ↦ y) := by
  intro d
  obtain ⟨d₁, hrun₁, h₁⟩ := hx d
  obtain ⟨d₂, hrun₂, h₂⟩ := hy d₁
  exact ⟨d₂, (Query.bind_of_ok hrun₁ _).trans hrun₂, fun q hq ↦ (h₂ q hq).trans (h₁ q hq)⟩

theorem writes_forM {α : Type} {f : α → Script Unit} (hf : ∀ a, Writes base (f a)) :
    ∀ l : List α, Writes base (l.forM f)
  | [] => writes_pure
  | a :: l => writes_bind (hf a) (writes_forM hf l)

end Writes

theorem recordMentions_writes (m : Message) (users : List String) :
    Writes statesPath (recordMentions m users) := by
  unfold recordMentions
  split
  · exact writes_pure
  · refine writes_bind (writes_setNew [] _) (writes_forM (fun user ↦ ?_) users)
    exact writes_bind (writes_setNew [.key user] _) (writes_setNew [.key user, .key m.mentionId] _)

/-! ## Marking messages -/

namespace Message

/-- The message after a user has read it. -/
def markRead (user : String) (m : Message) : Message where
  room := m.room
  text := m.text
  sender := m.sender
  tag := m.tag
  senderId := m.senderId
  sequence := m.sequence
  createdAt := m.createdAt
  request := m.request
  object := m.object
  mentions := m.mentions.map fun e ↦ (e.1, if e.1 = user then false else e.2)
  nodup := by
    rw [List.map_map]
    exact m.nodup

theorem lookup_mentions (m : Message) (user : String) :
    (m.mentions.map fun e ↦ (e.1, Json.bool e.2)).lookup user
      = (m.mentions.lookup user).map Json.bool := by
  induction m.mentions with
  | nil => rfl
  | cons e l ih =>
    obtain ⟨k, v⟩ := e
    rw [List.map_cons, List.lookup_cons, List.lookup_cons, ih]
    cases user == k <;> rfl

theorem set_mention {l : List (String × Bool)} (hnodup : (l.map Prod.fst).Nodup) {user : String}
    (h : (l.lookup user).isSome) :
    Assoc.set user (Json.bool false) (l.map fun e ↦ (e.1, Json.bool e.2))
      = (l.map fun e ↦ (e.1, if e.1 = user then false else e.2)).map fun e ↦
        (e.1, Json.bool e.2) := by
  induction l with
  | nil => simp at h
  | cons e l ih =>
    obtain ⟨k, v⟩ := e
    rw [List.map_cons, List.nodup_cons] at hnodup
    by_cases hk : k = user
    · subst hk
      have hrest : ∀ e ∈ l, e.1 ≠ k := fun e he heq ↦
        hnodup.1 (List.mem_map.mpr ⟨e, he, heq⟩)
      simp only [List.map_cons, Assoc.set, if_true, List.cons.injEq, true_and, List.map_map]
      exact List.map_congr_left fun e he ↦ by simp [hrest e he]
    · rw [Assoc.lookup_cons_of_ne hk] at h
      simp only [List.map_cons, Assoc.set, if_neg hk, List.cons.injEq, true_and]
      exact ih hnodup.2 h

theorem child_mentions (m : Message) :
    m.toJson.child (.key "mentions") = some m.mentionsJson := by
  unfold toJson objectField
  cases m.object <;> rfl

theorem putChild_mentions (m : Message) (user : String) :
    m.toJson.putChild (.key "mentions") (m.markRead user).mentionsJson
      = some (m.markRead user).toJson := by
  unfold toJson objectField
  rw [show (m.markRead user).object = m.object from rfl]
  cases m.object <;> rfl

/-- Marking a stored message, where it mentions the user. -/
theorem set_mark (m : Message) {user : String} (h : (m.mentions.lookup user).isSome) :
    m.toJson.set [.key "mentions", .key user] (.bool false) = some (m.markRead user).toJson := by
  have hset : m.mentionsJson.set [.key user] (.bool false)
      = some (m.markRead user).mentionsJson := by
    rw [Json.set_singleton, mentionsJson, Json.putChild, set_mention m.nodup h]
    rfl
  rw [Json.set_cons_of_child m.child_mentions, hset, Option.bind_some, putChild_mentions]

theorem find_mark (m : Message) (user : String) :
    m.toJson.find [.key "mentions", .key user] = (m.mentions.lookup user).map Json.bool := by
  rw [Json.find_cons, child_mentions, Option.bind_some, Json.find_cons, mentionsJson, Json.child,
    lookup_mentions]
  exact Option.bind_fun_some _

end Message

theorem mentions_injective :
    Function.Injective fun e : String × Bool ↦ (e.1, Json.bool e.2) := by
  rintro ⟨k, v⟩ ⟨k', v'⟩ h
  simpa using h

theorem Message.toJson_injective : Function.Injective Message.toJson := by
  intro m m' h
  have hmentions : m.mentions = m'.mentions := by
    have hchild : some m.mentionsJson = some m'.mentionsJson := by
      rw [← m.child_mentions, ← m'.child_mentions, h]
    exact List.map_injective_iff.mpr mentions_injective
      (Json.obj.inj (Option.some.inj hchild))
  obtain ⟨room, text, sender, tag, senderId, sequence, createdAt, request, object, mentions, _⟩ := m
  obtain ⟨room', text', sender', tag', senderId', sequence', createdAt', request', object', _, _⟩ :=
    m'
  unfold Message.toJson Message.objectField at h
  cases object <;> cases object' <;> simp_all

/-- A log after a user has read a message. -/
def markLog (log : List Message) (i : ℕ) (user : String) : List Message :=
  log.modify i (Message.markRead user)

theorem set_markLog {log : List Message} {i : ℕ} {m : Message} (hm : log[i]? = some m)
    {user : String} (h : (m.mentions.lookup user).isSome) :
    (Json.arr (log.map Message.toJson)).set [.index i, .key "mentions", .key user] (.bool false)
      = some (.arr ((markLog log i user).map Message.toJson)) := by
  have hchild : (Json.arr (log.map Message.toJson)).child (.index i) = some m.toJson := by
    rw [Json.child, List.getElem?_map, hm]
    rfl
  obtain ⟨hi, rfl⟩ := List.getElem?_eq_some_iff.mp hm
  rw [Json.set_cons_of_child hchild, Message.set_mark _ h, Option.bind_some, Json.putChild,
    if_pos (by simpa using hi), markLog, List.modify_eq_set_getElem?]
  simp [hi, List.map_set]

theorem map_markLog {β : Type} {f : Message → β} (hf : ∀ user m, f (m.markRead user) = f m)
    (log : List Message) (i : ℕ) (user : String) : (markLog log i user).map f = log.map f := by
  refine List.ext_getElem? fun j ↦ ?_
  rw [markLog, List.getElem?_map, List.getElem?_modify, List.getElem?_map]
  by_cases hij : i = j
  · subst hij
    cases log[i]? with
    | none => rfl
    | some m => simp [hf]
  · simp [hij]

/-! ## Rooms -/

/-- The number a room remembers for a request. -/
abbrev requestNumber (log : List Message) (key : String) : Option ℤ :=
  receipt Message.sequence Message.key log key

/-- A room that holds a log. -/
structure RoomShown (d : Json) (room : String) (log : List Message) : Prop where
  type : d.find (typePath room) = some (.str "chat_room")
  data : d.find (dataPath room) = some (.arr (log.map Message.toJson))
  next : d.find (nextPath room) = some (.int (log.length + 1))
  holder : ∃ fields, d.find (requestsPath room) = some (.obj fields)
  requests : ∀ key, d.find (requestPath room key) = (requestNumber log key).map Json.int

/-- A log of a room, in order. -/
structure LogOf (room : String) (log : List Message) : Prop where
  numbered : Numbered Message.sequence Message.key log
  room : ∀ m ∈ log, m.room = room

/-- Nothing is there under the id of a room, or the room is in order. -/
def RoomOk (d : Json) (room : String) : Prop :=
  d.find (itemPath room) = none ∨ ∃ log, RoomShown d room log ∧ LogOf room log

section Rooms

variable {d d' : Json} {room : String} {log : List Message}

/-- The messages that are stored are those of one log. -/
theorem RoomShown.unique {log' : List Message} (h : RoomShown d room log)
    (h' : RoomShown d room log') : log = log' := by
  have hdata := h.data.symm.trans h'.data
  rw [Option.some.injEq, Json.arr.injEq] at hdata
  exact List.map_injective_iff.mpr Message.toJson_injective hdata

theorem RoomShown.there (h : RoomShown d room log) : d.find (itemPath room) ≠ none := by
  intro hnone
  have htype := h.type
  rw [typePath, Json.find_append, hnone] at htype
  nomatch htype

theorem RoomOk.logOf (h : RoomOk d room) (hlog : RoomShown d room log) : LogOf room log := by
  rcases h with hnone | ⟨log', hlog', hof⟩
  · exact absurd hnone hlog.there
  · exact hlog.unique hlog' ▸ hof

theorem RoomShown.frame (h : RoomShown d room log)
    (hframe : ∀ q, d'.find (itemPath room ++ q) = d.find (itemPath room ++ q)) :
    RoomShown d' room log where
  type := (hframe _).trans h.type
  data := (hframe _).trans h.data
  next := (hframe _).trans h.next
  holder := by
    obtain ⟨fields, hfields⟩ := h.holder
    exact ⟨fields, (hframe _).trans hfields⟩
  requests key := (hframe _).trans (h.requests key)

theorem RoomOk.frame (h : RoomOk d room)
    (hframe : ∀ q, d'.find (itemPath room ++ q) = d.find (itemPath room ++ q)) :
    RoomOk d' room := by
  rcases h with hnone | ⟨log, hshown, hlog⟩
  · left
    simpa [hnone] using hframe []
  · exact Or.inr ⟨log, hshown.frame hframe, hlog⟩

theorem apart_fields {a b : String} (h : a ≠ b) (room : String) (p q : List Segment) :
    Json.Apart (itemPath room ++ .key a :: p) (itemPath room ++ .key b :: q) := by
  refine Json.apart_cons_iff.mpr (Or.inr (Json.apart_cons_iff.mpr (Or.inr ?_)))
  exact apart_head (by simpa using h) p q

theorem apart_item_states (room : String) (p : List Segment) :
    Json.Apart (itemPath room) (.key "mention-states" :: p) := apart_head (by decide) _ _

theorem apart_states_item (room : String) (p : List Segment) :
    Json.Apart statesPath (itemPath room ++ p) := apart_head (by decide) _ _

/-- A room that was just created. -/
theorem newRoom_shown {permission : Json}
    (h : d.set (itemPath room) (newRoom permission) = some d') : RoomShown d' room [] := by
  have hbelow : ∀ q, d'.find (itemPath room ++ q) = (newRoom permission).find q :=
    Json.find_append_set h
  exact ⟨hbelow _, hbelow _, hbelow _, ⟨[], hbelow _⟩, fun key ↦ hbelow _⟩

theorem ofNumber_succ (n : ℤ) : ofNumber ((n : ℚ) + 1) = .int (n + 1) := by
  rw [← Int.cast_one, ← Int.cast_add, ofNumber_intCast]

/-- Storing the next message of a room. -/
theorem store_spec {m : Message} (h : RoomShown d m.room log)
    (hnumber : m.sequence = log.length + 1) (hkey : requestNumber log m.key = none)
    (users : List String) :
    ∃ d₁ d', store m m.sequence users d = (.ok (.stored m.toJson), d') ∧
      RoomShown d₁ m.room (log ++ [m]) ∧
      (∀ q, Json.Apart (itemPath m.room) q → d₁.find q = d.find q) ∧
      recordMentions m users d₁ = (.ok (), d') := by
  obtain ⟨fields, hfields⟩ := h.holder
  -- the messages, then the next number, then the request
  obtain ⟨d₁, hset₁⟩ := Option.isSome_iff_exists.mp (Json.set_isSome_of_find
    (show (d.find (dataPath m.room)).isSome by rw [h.data]; rfl)
    (.arr ((log ++ [m]).map Message.toJson)))
  have hnext₁ : d₁.find (nextPath m.room) = d.find (nextPath m.room) :=
    Json.find_set_of_apart (apart_fields (by decide) _ [] []) hset₁
  obtain ⟨d₂, hset₂⟩ := Option.isSome_iff_exists.mp (Json.set_isSome_of_find
    (show (d₁.find (nextPath m.room)).isSome by rw [hnext₁, h.next]; rfl)
    (.int (m.sequence + 1)))
  have hkept₂ : ∀ q, d₂.find (itemPath m.room ++ .key "requests" :: q)
      = d.find (itemPath m.room ++ .key "requests" :: q) := fun q ↦
    (Json.find_set_of_apart (apart_fields (by decide) _ [] q) hset₂).trans
      (Json.find_set_of_apart (apart_fields (by decide) _ [] q) hset₁)
  have hholder₂ : d₂.find (requestsPath m.room) = some (.obj fields) := (hkept₂ []).trans hfields
  obtain ⟨d₃, (hset₃ : d₂.set (requestPath m.room m.key) (.int m.sequence) = some d₃)⟩ :=
    Option.isSome_iff_exists.mp (@Json.set_key_isSome (requestsPath m.room) _ _ hholder₂ m.key
      (.int m.sequence))
  obtain ⟨d', hrun, -⟩ := recordMentions_writes m users d₃
  refine ⟨d₃, d', ?_, ⟨?_, ?_, ?_, ?_, ?_⟩, ?_, hrun⟩
  · have hdata : arrAppend (dataPath m.room) m.toJson d = (.ok (), d₁) := by
      rw [arrAppend_run h.data]
      exact jsonSet_run (by rw [← hset₁, List.map_append]; rfl)
    refine (Query.bind_of_ok hdata _).trans ?_
    refine (Query.bind_of_ok (jsonSet_run (by rw [ofNumber_succ]; exact hset₂)) _).trans ?_
    refine (Query.bind_of_ok (jsonSetNew_of_find hholder₂) _).trans ?_
    refine (Query.bind_of_ok (jsonSet_run (by rw [ofNumber_intCast]; exact hset₃)) _).trans ?_
    exact Query.bind_of_ok hrun _
  · refine (Json.find_set_of_apart (apart_fields (by decide) _ _ []) hset₃).trans ?_
    refine (Json.find_set_of_apart (apart_fields (by decide) _ [] []) hset₂).trans ?_
    exact (Json.find_set_of_apart (apart_fields (by decide) _ [] []) hset₁).trans h.type
  · refine (Json.find_set_of_apart (apart_fields (by decide) _ _ []) hset₃).trans ?_
    refine (Json.find_set_of_apart (apart_fields (by decide) _ [] []) hset₂).trans ?_
    exact Json.find_set_self hset₁
  · refine (Json.find_set_of_apart (apart_fields (by decide) _ _ []) hset₃).trans ?_
    refine (Json.find_set_self hset₂).trans ?_
    rw [hnumber, List.length_append, List.length_singleton]
    push_cast
    rfl
  · exact @Json.find_holder (requestsPath m.room) _ _ _ (Json.find_set_self hset₃)
  · intro key
    rw [requestNumber, receipt_append]
    by_cases heq : m.key = key
    · subst heq
      have hnone : receipt Message.sequence Message.key log m.key = none := hkey
      rw [Json.find_set_self hset₃, hnone, if_pos rfl]
      rfl
    · have hapart : Json.Apart (requestPath m.room m.key) (requestPath m.room key) :=
        Json.apart_of_length_eq rfl fun h ↦ heq (by simpa [requestPath] using h)
      rw [Json.find_set_of_apart hapart hset₃, if_neg heq, Option.or_none]
      exact (hkept₂ [.key key]).trans (h.requests key)
  · intro q hq
    rw [Json.find_set_of_apart (hq.append_left _) hset₃,
      Json.find_set_of_apart (hq.append_left _) hset₂,
      Json.find_set_of_apart (hq.append_left _) hset₁]

end Rooms

/-! ## Committing -/

/-- What committing a message does. -/
inductive Committed (d : Json) (m : Message) (users : List String) : Commit → Json → Prop
  /-- The request has become a message already. -/
  | repeated (log : List Message) (i : ℕ) (previous : Message) (shown : RoomShown d m.room log)
      (at_place : log[i]? = some previous) (key : previous.key = m.key) :
      Committed d m users
        (if previous.text = m.text ∧ previous.object = m.object then .stored previous.toJson
          else .mismatch) d
  /-- The request is new, and not answered with a message. -/
  | refused (reply : Commit) (unstored : ∀ j, reply ≠ .stored j)
      (fresh : ∀ log, RoomShown d m.room log → requestNumber log m.key = none) :
      Committed d m users reply d
  /-- A room is created, but the message does not have its first number. -/
  | opened (d' : Json) (absent : d.find (itemPath m.room) = none)
      (shown : RoomShown d' m.room [])
      (frame : ∀ q, Json.Apart (itemPath m.room) q → d'.find q = d.find q) :
      Committed d m users .sequenceConflict d'
  | stored (log : List Message) (d₁ d' : Json)
      (before : RoomShown d m.room log ∨ d.find (itemPath m.room) = none ∧ log = [])
      (number : m.sequence = log.length + 1) (fresh : requestNumber log m.key = none)
      (shown : RoomShown d₁ m.room (log ++ [m]))
      (frame : ∀ q, Json.Apart (itemPath m.room) q → d₁.find q = d.find q)
      (records : recordMentions m users d₁ = (.ok (), d')) :
      Committed d m users (.stored m.toJson) d'

section Commit

variable {d : Json} {m : Message} {log : List Message} {users : List String} {permission : Json}

theorem sameMessage_run (previous : Message) (d : Json) :
    sameMessage previous.toJson m d = (.ok (decide (previous.text = m.text ∧
      previous.object = m.object ∧ previous.senderId = m.senderId)), d) := by
  have htext : luaIndex "text" previous.toJson = pure (some (.str previous.text)) := rfl
  have hobject : luaIndex "object_id" previous.toJson = pure (previous.object.map Json.str) := by
    rw [Message.toJson, luaIndex_obj, Message.objectField]
    cases previous.object <;> rfl
  have hsender : luaIndex "sender_user_id" previous.toJson
      = pure (some (.int previous.senderId)) := by
    rw [Message.toJson, luaIndex_obj, Message.objectField]
    cases previous.object <;> rfl
  have hiff : (some (Json.str previous.text) = some (.str m.text) ∧
      previous.object.map Json.str = m.object.map Json.str ∧
        some (Json.int previous.senderId) = some (.int m.senderId)) ↔
      (previous.text = m.text ∧ previous.object = m.object ∧ previous.senderId = m.senderId) := by
    rw [Option.map_inj_right (fun _ _ ↦ Json.str.inj)]
    simp
  rw [sameMessage, htext, hobject, hsender]
  exact congrArg (fun b ↦ ((.ok b : Except Halt Bool), d)) (decide_eq_decide.mpr hiff)

/-- A request whose number is remembered is answered from the message at that number. -/
theorem answerReceived_run {previous : Message} {i : ℕ} (h : RoomShown d m.room log)
    (hprevious : log[i]? = some previous) (hkey : previous.key = m.key) :
    answerReceived m (some ((i + 1 : ℤ) : ℚ)) d
      = (.ok (if previous.text = m.text ∧ previous.object = m.object then .stored previous.toJson
        else .mismatch), d) := by
  have hsender : previous.senderId = m.senderId := (intText_colon_inj hkey).1
  have hget : jsonGetAt (dataPath m.room) (((i + 1 : ℤ) : ℚ) - 1) d
      = (.ok (some previous.toJson), d) := by
    have hindex : ((i + 1 : ℤ) : ℚ) - 1 = (i : ℚ) := by
      push_cast
      exact add_sub_cancel_right _ _
    rw [hindex, jsonGetAt_run h.data, List.getElem?_map, hprevious]
    rfl
  refine (Query.bind_of_ok hget _).trans ?_
  refine (Query.bind_of_ok (sameMessage_run previous d) _).trans ?_
  rw [Query.pure_run]
  simp [hsender]

theorem answerReceived_keeps {I : Json → Prop} (m : Message) (number : Option ℚ) :
    Query.Keeps I (answerReceived m number) := by
  cases number with
  | none => exact keeps_raise
  | some n =>
    refine Query.keeps_bind (keeps_jsonGetAt _ _) fun found ↦ ?_
    cases found with
    | none => exact keeps_raise
    | some previous =>
      refine Query.keeps_bind ?_ fun _ ↦ Query.keeps_pure _
      refine Query.keeps_bind (keeps_luaIndex _ _) fun _ ↦ ?_
      refine Query.keeps_bind (keeps_luaIndex _ _) fun _ ↦ ?_
      exact Query.keeps_bind (keeps_luaIndex _ _) fun _ ↦ Query.keeps_pure _

theorem appendNext_spec (readNumber : String → Option ℚ) (users : List String)
    (h : RoomShown d m.room log) (hkey : requestNumber log m.key = none) :
    (∃ d₁ d', appendNext readNumber m users d = (.ok (.stored m.toJson), d') ∧
      m.sequence = log.length + 1 ∧ RoomShown d₁ m.room (log ++ [m]) ∧
      (∀ q, Json.Apart (itemPath m.room) q → d₁.find q = d.find q) ∧
      recordMentions m users d₁ = (.ok (), d')) ∨
      appendNext readNumber m users d = (.ok .sequenceConflict, d) := by
  have hget : jsonGet (nextPath m.room) d = (.ok (some (.int (log.length + 1))), d) := by
    rw [jsonGet_run, h.next]
  rw [appendNext, Query.bind_of_ok hget]
  by_cases hnumber : m.sequence = log.length + 1
  · obtain ⟨d₁, d', hrun, hrest⟩ := store_spec h hnumber hkey users
    left
    refine ⟨d₁, d', ?_, hnumber, hrest⟩
    rw [if_pos (by rw [hnumber]; rfl)]
    exact hrun
  · right
    rw [if_neg fun heq ↦ hnumber (by
      have hcast := Option.some.inj heq
      exact_mod_cast hcast.symm)]
    rfl

/-- **The commit script.** On a document whose room is in order no error is raised. -/
theorem commitChatMessage_spec (readNumber : String → Option ℚ) (h : RoomOk d m.room)
    (permission : Json) (users : List String) :
    ∃ reply d', commitChatMessage readNumber m permission users (some d) = (some reply, some d') ∧
      Committed d m users reply d' := by
  have hscript : ∀ reply d', commitScript readNumber m permission users d = (.ok reply, d') →
      Committed d m users reply d' → ∃ reply d',
        commitChatMessage readNumber m permission users (some d) = (some reply, some d') ∧
          Committed d m users reply d' := by
    intro reply d' hrun hcommitted
    refine ⟨reply, d', ?_, hcommitted⟩
    rw [commitChatMessage, hrun]
    rfl
  rcases h with habsent | ⟨log, hshown, hlog⟩
  · have hbelow : ∀ q, d.find (itemPath m.room ++ q) = none := by
      intro q
      rw [Json.find_append, habsent]
      rfl
    have hreceived : jsonGet (requestPath m.room m.key) d = (.ok none, d) :=
      congrArg (fun v ↦ ((.ok v : Except Halt (Option Json)), d)) (hbelow _)
    have htype : jsonGet (typePath m.room) d = (.ok none, d) :=
      congrArg (fun v ↦ ((.ok v : Except Halt (Option Json)), d)) (hbelow _)
    have hstart : commitScript readNumber m permission users d
        = (jsonSetNew (itemPath m.room) (newRoom permission) >>= fun _ ↦
          appendNext readNumber m users) d := by
      rw [commitScript, Query.bind_of_ok hreceived]
      exact Query.bind_of_ok htype _
    cases hset : d.set (itemPath m.room) (newRoom permission) with
    | none =>
      -- there is no place for a room
      have hnew : jsonSetNew (itemPath m.room) (newRoom permission) d = (.ok (), d) := by
        rw [jsonSetNew_of_none habsent]
        exact jsonSet_of_none hset
      have hnext : jsonGet (nextPath m.room) d = (.ok none, d) :=
        congrArg (fun v ↦ ((.ok v : Except Halt (Option Json)), d)) (hbelow _)
      refine hscript .sequenceConflict d ?_
        (.refused _ nofun fun log hlog ↦ absurd habsent hlog.there)
      rw [hstart, Query.bind_of_ok hnew, appendNext, Query.bind_of_ok hnext]
      rfl
    | some d₀ =>
      have hnew : jsonSetNew (itemPath m.room) (newRoom permission) d = (.ok (), d₀) := by
        rw [jsonSetNew_of_none habsent]
        exact jsonSet_run hset
      rw [Query.bind_of_ok hnew] at hstart
      have hframe : ∀ q, Json.Apart (itemPath m.room) q → d₀.find q = d.find q :=
        fun q hq ↦ Json.find_set_of_apart hq hset
      rcases appendNext_spec readNumber users (newRoom_shown hset) rfl
        with ⟨d₁, d', hrun, hnumber, hshown, hkept, hrecords⟩ | hrun
      · exact hscript _ _ (hstart.trans hrun) (.stored [] d₁ d' (Or.inr ⟨habsent, rfl⟩) hnumber rfl
          hshown (fun q hq ↦ (hkept q hq).trans (hframe q hq)) hrecords)
      · exact hscript _ _ (hstart.trans hrun) (.opened d₀ habsent (newRoom_shown hset) hframe)
  · cases hreceived : requestNumber log m.key with
    | some n =>
      obtain ⟨i, previous, hprevious, hkey, rfl⟩ := hlog.numbered.receipt hreceived
      have hget : jsonGet (requestPath m.room m.key) d = (.ok (some (.int (i + 1))), d) := by
        rw [jsonGet_run, hshown.requests, hreceived]
        rfl
      refine hscript _ _ ?_ (.repeated log i previous hshown hprevious hkey)
      rw [commitScript, Query.bind_of_ok hget]
      exact answerReceived_run hshown hprevious hkey
    | none =>
      have hget : jsonGet (requestPath m.room m.key) d = (.ok none, d) := by
        rw [jsonGet_run, hshown.requests, hreceived]
        rfl
      have htype : jsonGet (typePath m.room) d = (.ok (some (.str "chat_room")), d) := by
        rw [jsonGet_run, hshown.type]
      have hstart : commitScript readNumber m permission users d
          = appendNext readNumber m users d := by
        rw [commitScript, Query.bind_of_ok hget]
        exact Query.bind_of_ok htype _
      rcases appendNext_spec readNumber users hshown hreceived
        with ⟨d₁, d', hrun, hnumber, hshown₁, hkept, hrecords⟩ | hrun
      · exact hscript _ _ (hstart.trans hrun) (.stored log d₁ d' (Or.inl hshown) hnumber hreceived
          hshown₁ hkept hrecords)
      · exact hscript _ _ (hstart.trans hrun)
          (.refused _ nofun fun log' hlog' ↦ hlog'.unique hshown ▸ hreceived)

end Commit

end Chat

end Agora
