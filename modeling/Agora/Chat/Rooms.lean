import Agora.Chat.Log

/-!
# Runs of the chat scripts

Clients commit messages, mark mentions as read and read pages, in any order, as often as they like,
whether they get the replies or not. A room stays a log (`chat_rooms_are_logs`): a request becomes
at most one message, a request that comes again is answered with the message it has become, and
nothing that is stored in a room is lost or changed, but for a mention that turns from unread to
read.
-/

namespace Agora

namespace Chat

open Script Broker Receipts

variable {readNumber : String → Option ℚ}

/-! ## Marking a mention -/

/-- A document with one mention marked as read, where it is there. -/
inductive MarkedAt (room : String) (user : String) (d : Json) : Json → Prop
  | same : MarkedAt room user d d
  | mark (i : ℕ) (w d' : Json) (there : d.find (markPath room i user) = some w)
      (set : d.set (markPath room i user) (.bool false) = some d') : MarkedAt room user d d'

theorem markAt_spec (room : String) (n : ℚ) (user : String) (d : Json) :
    MarkedAt room user d (markAt room n user d).2 := by
  unfold markAt
  split
  · exact .same
  rw [Query.bind_of_ok (jsonGet_run _ d)]
  cases d.find (dataPath room) with
  | none => exact .same
  | some data =>
    cases data with
    | arr elements =>
      dsimp only
      cases positionOf n.num elements.length with
      | none => exact .same
      | some i =>
        dsimp only
        cases hfind : d.find (markPath room i user) with
        | none =>
          rw [jsonSetOld_of_none hfind]
          exact .same
        | some w =>
          obtain ⟨d', hset⟩ := Option.isSome_iff_exists.mp
            (Json.set_isSome_of_find (show (d.find (markPath room i user)).isSome by
              rw [hfind]; rfl) (.bool false))
          rw [jsonSetOld_of_find hfind, jsonSet_run hset]
          exact .mark i w d' hfind hset
    | _ => exact .same

theorem markMessage_spec (user : String) (note d : Json) :
    ∃ room, MarkedAt room user d (markMessage readNumber user note d).2 := by
  have hindex : ∀ k, ∃ r, luaIndex k note d = (r, d) := fun k ↦
    ⟨_, Prod.ext rfl (luaIndex_run k note d)⟩
  unfold markMessage
  obtain ⟨halt | room, hroom⟩ := hindex "room_id"
  · rw [Query.bind_of_error hroom]
    exact ⟨"", .same⟩
  obtain ⟨halt | sequence, hsequence⟩ := hindex "sequence"
  · rw [Query.bind_of_ok hroom, Query.bind_of_error hsequence]
    exact ⟨"", .same⟩
  rw [Query.bind_of_ok hroom, Query.bind_of_ok hsequence]
  split
  · cases markTarget room (toNumber readNumber sequence) with
    | none => exact ⟨"", .same⟩
    | some target => exact ⟨_, markAt_spec _ _ _ _⟩
  · exact ⟨"", .same⟩

/-- What storing or reading a mention state does: it stores under the mention states, and may mark
one mention. -/
theorem stateScript_spec (readNumber : String → Option ℚ) (user mention : String) (note : Json)
    (unread : Bool) (d : Json) :
    ∃ room d₁, (∀ q, Json.Apart statesPath q → d₁.find q = d.find q) ∧
      MarkedAt room user d₁ (stateScript readNumber user mention note unread d).2 := by
  have hstates : Writes statesPath (jsonSetNew statesPath (.obj [])) := writes_setNew [] _
  have huser : Writes statesPath (jsonSetNew (userPath user) (.obj [])) :=
    writes_setNew [.key user] _
  obtain ⟨d₁, hrun₁, h₁⟩ := hstates d
  obtain ⟨d₂, hrun₂, h₂⟩ := huser d₁
  have hkept₂ : ∀ q, Json.Apart statesPath q → d₂.find q = d.find q :=
    fun q hq ↦ (h₂ q hq).trans (h₁ q hq)
  unfold stateScript
  rw [Query.bind_of_ok hrun₁, Query.bind_of_ok hrun₂]
  cases unread with
  | true =>
    have hnew : Writes statesPath (jsonSetNew (statePath user mention) note) :=
      writes_setNew [.key user, .key mention] _
    obtain ⟨d₃, hrun₃, h₃⟩ := hnew d₂
    refine ⟨"", d₃, fun q hq ↦ (h₃ q hq).trans (hkept₂ q hq), ?_⟩
    rw [if_pos rfl, Query.bind_of_ok hrun₃]
    exact .same
  | false =>
    rw [if_neg Bool.false_ne_true, readState, Query.bind_of_ok (jsonGet_run _ d₂)]
    split
    · obtain ⟨r, hrecord⟩ : ∃ r, readRecord ((d₂.find (statePath user mention)).getD .null) d₂
          = (r, d₂) := by
        refine ⟨_, Prod.ext rfl ?_⟩
        cases (d₂.find (statePath user mention)).getD .null <;> rfl
      rcases r with halt | record
      · rw [Query.bind_of_error hrecord]
        exact ⟨"", d₂, hkept₂, .same⟩
      have hset : Writes statesPath (jsonSet (statePath user mention) record) :=
        writes_set [.key user, .key mention] _
      obtain ⟨d₃, hrun₃, h₃⟩ := hset d₂
      obtain ⟨room, hmarked⟩ := @markMessage_spec readNumber user record d₃
      refine ⟨room, d₃, fun q hq ↦ (h₃ q hq).trans (hkept₂ q hq), ?_⟩
      rw [Query.bind_of_ok hrecord, Query.bind_of_ok hrun₃, Query.bind_run]
      rcases hmark : markMessage readNumber user record d₃ with ⟨halt | _, d₄⟩
      all_goals
        rw [hmark] at hmarked
        exact hmarked
    · exact ⟨"", d₂, hkept₂, .same⟩

/-! ## A room under a mark -/

section Mark

variable {d d' : Json} {room : String} {log : List Message}

theorem markPath_eq (room : String) (i : ℕ) (user : String) :
    markPath room i user = dataPath room ++ [.index i, .key "mentions", .key user] := rfl

theorem LogOf.mark (h : LogOf room log) (i : ℕ) (user : String) :
    LogOf room (markLog log i user) where
  numbered := h.numbered.congr (map_markLog (fun _ _ ↦ rfl) log i user)
    (map_markLog (fun _ _ ↦ rfl) log i user)
  room := by
    intro m hm
    have hmem : m.room ∈ (markLog log i user).map Message.room := List.mem_map_of_mem hm
    rw [map_markLog (fun _ _ ↦ rfl)] at hmem
    obtain ⟨m', hm', heq⟩ := List.mem_map.mp hmem
    rw [← heq]
    exact h.room m' hm'

/-- Marking a mention of a room in order. -/
theorem RoomShown.mark (h : RoomShown d room log) {i : ℕ} {user : String} {w : Json}
    (hthere : d.find (markPath room i user) = some w)
    (hset : d.set (markPath room i user) (.bool false) = some d') :
    ∃ m, log[i]? = some m ∧ (m.mentions.lookup user).isSome ∧
      RoomShown d' room (markLog log i user) := by
  rw [markPath_eq, Json.find_append, h.data, Option.bind_some, Json.find_cons, Json.child,
    List.getElem?_map] at hthere
  obtain ⟨j, hj, hw⟩ := Option.bind_eq_some_iff.mp hthere
  obtain ⟨m, hm, rfl⟩ := Option.map_eq_some_iff.mp hj
  rw [Message.find_mark] at hw
  have hmentioned : (m.mentions.lookup user).isSome := by
    obtain ⟨b, hb, -⟩ := Option.map_eq_some_iff.mp hw
    rw [hb]
    rfl
  have hwhole : d.set (dataPath room) (.arr ((markLog log i user).map Message.toJson))
      = some d' := by
    rw [markPath_eq, Json.set_append h.data, set_markLog hm hmentioned] at hset
    exact hset
  have hkept : ∀ k p, k ≠ "data" → d'.find (itemPath room ++ .key k :: p)
      = d.find (itemPath room ++ .key k :: p) := fun k p hk ↦
    Json.find_set_of_apart (apart_fields hk.symm _ [] p) hwhole
  refine ⟨m, hm, hmentioned, (hkept "type" [] (by decide)).trans h.type,
    Json.find_set_self hwhole, ?_, ?_, fun key ↦ ?_⟩
  · refine (hkept "next_sequence" [] (by decide)).trans (h.next.trans ?_)
    rw [markLog, List.length_modify]
  · obtain ⟨fields, hfields⟩ := h.holder
    exact ⟨fields, (hkept "requests" [] (by decide)).trans hfields⟩
  · refine (hkept "requests" [.key key] (by decide)).trans ((h.requests key).trans ?_)
    rw [requestNumber, requestNumber, receipt_congr (map_markLog (fun _ _ ↦ rfl) log i user)
      (map_markLog (fun _ _ ↦ rfl) log i user)]

theorem apart_mark {room room' : String} (h : room' ≠ room) (i : ℕ) (user : String)
    (q : List Segment) : Json.Apart (markPath room' i user) (itemPath room ++ q) :=
  (((apart_items h).append_left _).append_left _).append_right q

/-- What happens to a log between two documents. -/
inductive Grows (log : List Message) : List Message → Prop
  | same : Grows log log
  | append (m : Message) : Grows log (log ++ [m])
  | mark (i : ℕ) (user : String) : Grows log (markLog log i user)

/-- A room goes on as a log, from one document to the next. -/
def Goes (d d' : Json) (room : String) : Prop :=
  RoomOk d' room ∧ ∀ log, RoomShown d room log → ∃ log', RoomShown d' room log' ∧ Grows log log'

theorem RoomOk.goes (h : RoomOk d room)
    (hframe : ∀ q, d'.find (itemPath room ++ q) = d.find (itemPath room ++ q)) : Goes d d' room :=
  ⟨h.frame hframe, fun log hlog ↦ ⟨log, hlog.frame hframe, .same⟩⟩

theorem RoomOk.goes_mark (h : RoomOk d room) {room' user : String}
    (hmarked : MarkedAt room' user d d') : Goes d d' room := by
  cases hmarked with
  | same => exact h.goes fun _ ↦ rfl
  | mark i w d' hthere hset =>
    by_cases hroom : room' = room
    · subst hroom
      rcases h with hnone | ⟨log, hshown, hlog⟩
      · rw [markPath_eq, dataPath, List.append_assoc, Json.find_append, hnone] at hthere
        nomatch hthere
      · obtain ⟨m, -, -, hshown'⟩ := hshown.mark hthere hset
        refine ⟨Or.inr ⟨_, hshown', hlog.mark i user⟩, fun log' hlog' ↦ ?_⟩
        obtain ⟨-, -, -, hshown''⟩ := hlog'.mark hthere hset
        exact ⟨_, hshown'', .mark i user⟩
    · exact h.goes fun q ↦ Json.find_set_of_apart (apart_mark hroom i user q) hset

end Mark

/-! ## Runs -/

inductive Event where
  /-- A message is committed; the reply may be lost. -/
  | commit (m : Message) (reply : Option Commit) (lost : Bool)
  /-- A mention state is stored or read. -/
  | state (user : ℤ) (mention : String) (note : Json) (unread : Bool)
  /-- A page of a history is read. -/
  | page (request : PageRequest)

inductive Step (readNumber : String → Option ℚ) : Json → Event → Json → Prop
  | commit (d : Json) (m : Message) (permission : Json) (users : List String)
      (reply : Option Commit) (d' : Json) (lost : Bool)
      (mentions : ∀ e ∈ m.mentions, e.2 = true) (visit : users.Perm (m.mentions.map Prod.fst))
      (h : commitChatMessage readNumber m permission users (some d) = (reply, some d')) :
      Step readNumber d (.commit m reply lost) d'
  | state (d : Json) (user : ℤ) (mention : String) (note : Json) (unread : Bool) (d' : Json)
      (h : (storeMentionState readNumber user mention note unread (some d)).2 = some d') :
      Step readNumber d (.state user mention note unread) d'
  | page (d : Json) (request : PageRequest) :
      Step readNumber d (.page request) (pageScript readNumber request d).2

inductive Reachable (readNumber : String → Option ℚ) (start : Json) : Json → Prop
  | init : Reachable readNumber start start
  | step {d d' : Json} {e : Event} (h : Reachable readNumber start d)
      (hstep : Step readNumber d e d') : Reachable readNumber start d'

theorem storeMentionState_spec {user : ℤ} {mention : String} {note : Json} {unread : Bool}
    {d d' : Json}
    (h : (storeMentionState readNumber user mention note unread (some d)).2 = some d') :
    d' = d ∨ ∃ record, d' = (stateScript readNumber (toString user) mention record unread d).2 := by
  unfold storeMentionState at h
  split at h
  · exact Or.inl (Option.some.inj h).symm
  · cases hrecord : note.assign "unread" (.bool unread) with
    | error => exact Or.inl (by simpa [hrecord] using h.symm)
    | ok record =>
      cases hroom : changedRoom note unread with
      | error => exact Or.inl (by simpa [hrecord, hroom] using h.symm)
      | ok => exact Or.inr ⟨record, by simpa [hrecord, hroom, runStateScript] using h.symm⟩

section Runs

variable {d d' : Json} {room : String} {log : List Message}

/-- Committing a message to another room leaves the room alone, whatever state that one is in. -/
theorem commitScript_frame (m : Message) (permission : Json) (users : List String) (d : Json)
    {q : List Segment} (hitem : Json.Apart (itemPath m.room) q)
    (hstates : Json.Apart statesPath q) :
    (commitScript readNumber m permission users d).2.find q = d.find q := by
  have hwrites : ∀ {base : List Segment} {x : Script Unit}, Json.Apart base q → Writes base x →
      Query.Keeps (fun d' ↦ d'.find q = d.find q) x := by
    intro base x hbase hx d₁ h₁
    obtain ⟨d₂, hrun, h₂⟩ := hx d₁
    rw [hrun]
    exact (h₂ q hbase).trans h₁
  have hstore : ∀ n : ℚ, Query.Keeps (fun d' ↦ d'.find q = d.find q) (store m n users) := by
    intro n
    have happend : Query.Keeps (fun d' ↦ d'.find q = d.find q)
        (arrAppend (dataPath m.room) m.toJson) := by
      refine Query.keeps_bind (keeps_jsonGet _) fun data ↦ ?_
      split
      · exact hwrites hitem (writes_set [.key "data"] _)
      · exact Query.keeps_pure _
    refine Query.keeps_bind happend fun _ ↦ ?_
    refine Query.keeps_bind (hwrites hitem (writes_set [.key "next_sequence"] _)) fun _ ↦ ?_
    refine Query.keeps_bind (hwrites hitem (writes_setNew [.key "requests"] _)) fun _ ↦ ?_
    refine Query.keeps_bind (hwrites hitem (writes_set [.key "requests", .key m.key] _)) fun _ ↦ ?_
    exact Query.keeps_bind (hwrites hstates (recordMentions_writes m users)) fun _ ↦
      Query.keeps_pure _
  have hnext : Query.Keeps (fun d' ↦ d'.find q = d.find q) (appendNext readNumber m users) := by
    refine Query.keeps_bind (keeps_jsonGet _) fun next ↦ ?_
    dsimp only
    split
    · exact hstore _
    · exact Query.keeps_pure _
  have hscript : Query.Keeps (fun d' ↦ d'.find q = d.find q)
      (commitScript readNumber m permission users) := by
    refine Query.keeps_bind (keeps_jsonGet _) fun received ↦ ?_
    split
    · exact answerReceived_keeps m _
    · refine Query.keeps_bind (keeps_jsonGet _) fun type ↦ ?_
      split
      · exact Query.keeps_bind (hwrites hitem (List.append_nil (itemPath m.room) ▸
          writes_setNew [] _)) fun _ ↦ hnext
      · split
        · exact hnext
        · exact Query.keeps_pure _
  exact hscript d rfl

/-- The room after its mentions are recorded. -/
theorem RoomShown.records {d₁ : Json} {m : Message} {users : List String}
    (h : RoomShown d₁ room log) (hrecords : recordMentions m users d₁ = (.ok (), d')) :
    RoomShown d' room log := by
  refine h.frame fun q ↦ ?_
  obtain ⟨d₂, hrun, hkept⟩ := recordMentions_writes m users d₁
  rw [hrecords, Prod.mk.injEq] at hrun
  rw [hrun.2]
  exact hkept _ (apart_states_item room q)

theorem Committed.goes {m : Message} {users : List String} {reply : Commit}
    (h : Committed d m users reply d') (hok : RoomOk d m.room) : Goes d d' m.room := by
  cases h with
  | repeated => exact hok.goes fun _ ↦ rfl
  | refused => exact hok.goes fun _ ↦ rfl
  | opened d' habsent hshown hframe =>
    refine ⟨Or.inr ⟨[], hshown, numbered_nil, nofun⟩, fun log hlog ↦ ?_⟩
    exact absurd habsent hlog.there
  | stored log d₁ _ hbefore hnumber hfresh hshown hframe hrecords =>
    have hlog : LogOf m.room log := by
      rcases hbefore with hshown' | ⟨-, rfl⟩
      · rcases hok with hnone | ⟨log', hshown'', hlog'⟩
        · exact absurd hnone hshown'.there
        · exact hshown''.unique hshown' ▸ hlog'
      · exact ⟨numbered_nil, nofun⟩
    refine ⟨Or.inr ⟨log ++ [m], hshown.records hrecords, ?_, ?_⟩, fun log' hlog' ↦ ?_⟩
    · exact hlog.numbered.append hnumber hfresh
    · intro m' hm'
      rcases List.mem_append.mp hm' with hm' | hm'
      · exact hlog.room m' hm'
      · rw [List.mem_singleton.mp hm']
    · refine ⟨log ++ [m], hshown.records hrecords, ?_⟩
      rcases hbefore with hshown' | ⟨hnone, -⟩
      · exact hshown'.unique hlog' ▸ .append m
      · exact absurd hnone hlog'.there

/-- A request that has become a message. -/
theorem Committed.of_repeated {m : Message} {users : List String} {reply : Commit}
    (h : Committed d m users reply d') (hok : RoomOk d m.room) (hlog : RoomShown d m.room log)
    {previous : Message} (hmem : previous ∈ log) (hsender : previous.senderId = m.senderId)
    (hrequest : previous.request = m.request) :
    d' = d ∧ some reply = some (if previous.text = m.text ∧ previous.object = m.object then
      .stored previous.toJson else .mismatch) := by
  have hkey : previous.key = m.key := by
    rw [Message.key, Message.key, hsender, hrequest]
  have hknown : requestNumber log m.key ≠ none := fun hnone ↦
    receipt_eq_none.mp hnone previous hmem hkey
  cases h with
  | repeated log' i found hshown hfound hfoundKey =>
    have hplace : found = previous := by
      obtain rfl := hshown.unique hlog
      exact List.inj_on_of_nodup_map (hok.logOf hlog).numbered.once
        (List.mem_of_getElem? hfound) hmem (hfoundKey.trans hkey.symm)
    rw [hplace]
    exact ⟨rfl, rfl⟩
  | refused _ _ hfresh => exact absurd (hfresh log hlog) hknown
  | opened _ habsent => exact absurd habsent hlog.there
  | stored log' d₁ _ hbefore _ hfresh =>
    rcases hbefore with hshown | ⟨habsent, -⟩
    · exact absurd (hshown.unique hlog ▸ hfresh) hknown
    · exact absurd habsent hlog.there

/-- The message that is answered. -/
theorem Committed.of_stored {m : Message} {users : List String} {reply : Commit} {j : Json}
    (h : Committed d m users reply d') (hreply : reply = .stored j) :
    ∃ log, RoomShown d' m.room log ∧ ∃ m' ∈ log, j = m'.toJson ∧ m'.senderId = m.senderId ∧
      m'.request = m.request ∧ m'.text = m.text ∧ m'.object = m.object := by
  cases h with
  | repeated log i previous hshown hprevious hkey =>
    split at hreply
    · next hsame =>
      obtain ⟨hsender, hrequest⟩ := intText_colon_inj hkey
      exact ⟨log, hshown, previous, List.mem_of_getElem? hprevious,
        (Commit.stored.inj hreply).symm, hsender, hrequest, hsame.1, hsame.2⟩
    · nomatch hreply
  | refused _ hunstored => exact absurd hreply (hunstored j)
  | opened => nomatch hreply
  | stored log d₁ _ _ _ _ hshown _ hrecords =>
    exact ⟨log ++ [m], hshown.records hrecords, m,
      List.mem_append_right _ (List.mem_singleton_self m), (Commit.stored.inj hreply).symm, rfl,
      rfl, rfl, rfl⟩

/-- A commit that is not answered with a message. -/
theorem Committed.of_unstored {m : Message} {users : List String} {reply : Commit}
    (h : Committed d m users reply d') (hreply : ∀ j, reply ≠ .stored j) :
    d'.find (itemPath m.room) = d.find (itemPath m.room) ∨
      d.find (itemPath m.room) = none ∧ RoomShown d' m.room [] := by
  cases h with
  | repeated => exact Or.inl rfl
  | refused => exact Or.inl rfl
  | opened _ habsent hshown => exact Or.inr ⟨habsent, hshown⟩
  | stored => exact absurd rfl (hreply m.toJson)

/-- One step. -/
theorem step_goes {e : Event} (hstep : Step readNumber d e d') (h : RoomOk d room) :
    Goes d d' room := by
  cases hstep with
  | commit m permission users reply _ lost _ _ hrun =>
    by_cases hroom : m.room = room
    · subst hroom
      obtain ⟨reply', d'', hrun', hcommitted⟩ := commitChatMessage_spec readNumber h
        permission users
      rw [hrun, Prod.mk.injEq, Option.some.injEq] at hrun'
      obtain ⟨-, rfl⟩ := hrun'
      exact hcommitted.goes h
    · have hd' : (commitScript readNumber m permission users d).2 = d' :=
        Option.some.inj (congrArg Prod.snd hrun)
      rw [← hd']
      exact h.goes fun q ↦ commitScript_frame m permission users d
        ((apart_items hroom).append_right q) (apart_states_item room q)
  | state user mention note unread _ hrun =>
    rcases storeMentionState_spec hrun with rfl | ⟨record, rfl⟩
    · exact h.goes fun _ ↦ rfl
    · obtain ⟨room', d₁, hframe, hmarked⟩ := stateScript_spec readNumber
        (toString user) mention record unread d
      have hkept : ∀ q, d₁.find (itemPath room ++ q) = d.find (itemPath room ++ q) :=
        fun q ↦ hframe _ (apart_states_item room q)
      obtain ⟨hok, hgrows⟩ := (h.frame hkept).goes_mark hmarked
      exact ⟨hok, fun log hlog ↦ hgrows log (hlog.frame hkept)⟩
  | page request =>
    rw [pageScript_run]
    exact h.goes fun _ ↦ rfl

end Runs

/-! ## Logs over runs -/

/-- A message that is kept: only mentions change, and only from unread to read. -/
structure Message.Kept (m m' : Message) : Prop where
  room : m'.room = m.room
  text : m'.text = m.text
  sender : m'.sender = m.sender ∧ m'.tag = m.tag ∧ m'.senderId = m.senderId
  sequence : m'.sequence = m.sequence
  createdAt : m'.createdAt = m.createdAt
  request : m'.request = m.request
  object : m'.object = m.object
  users : m'.mentions.map Prod.fst = m.mentions.map Prod.fst
  read : ∀ user, m.mentions.lookup user = some false → m'.mentions.lookup user = some false

theorem Message.Kept.refl (m : Message) : m.Kept m :=
  ⟨rfl, rfl, ⟨rfl, rfl, rfl⟩, rfl, rfl, rfl, rfl, rfl, fun _ h ↦ h⟩

theorem Message.Kept.trans {m m' m'' : Message} (h : m.Kept m') (h' : m'.Kept m'') :
    m.Kept m'' where
  room := h'.room.trans h.room
  text := h'.text.trans h.text
  sender := ⟨h'.sender.1.trans h.sender.1, h'.sender.2.1.trans h.sender.2.1,
    h'.sender.2.2.trans h.sender.2.2⟩
  sequence := h'.sequence.trans h.sequence
  createdAt := h'.createdAt.trans h.createdAt
  request := h'.request.trans h.request
  object := h'.object.trans h.object
  users := h'.users.trans h.users
  read user hread := h'.read user (h.read user hread)

theorem lookup_markRead (m : Message) (user user' : String) :
    (m.markRead user).mentions.lookup user'
      = (m.mentions.lookup user').map fun b ↦ if user' = user then false else b := by
  change (m.mentions.map fun e ↦ (e.1, if e.1 = user then false else e.2)).lookup user' = _
  induction m.mentions with
  | nil => rfl
  | cons e l ih =>
    obtain ⟨k, v⟩ := e
    by_cases hk : k = user'
    · simp [hk]
    · rw [List.map_cons, Assoc.lookup_cons_of_ne hk, Assoc.lookup_cons_of_ne hk, ih]

theorem Message.kept_markRead (m : Message) (user : String) : m.Kept (m.markRead user) where
  room := rfl
  text := rfl
  sender := ⟨rfl, rfl, rfl⟩
  sequence := rfl
  createdAt := rfl
  request := rfl
  object := rfl
  users := by
    rw [Message.markRead, List.map_map]
    rfl
  read user' h := by
    rw [lookup_markRead, h]
    simp

/-- Every message of a log is kept, at its place. -/
def Holds (log log' : List Message) : Prop :=
  ∀ (i : ℕ) m, log[i]? = some m → ∃ m', log'[i]? = some m' ∧ m.Kept m'

theorem Grows.holds {log log' : List Message} (h : Grows log log') : Holds log log' := by
  intro i m hm
  cases h with
  | same => exact ⟨m, hm, .refl m⟩
  | append m' =>
    obtain ⟨hi, -⟩ := List.getElem?_eq_some_iff.mp hm
    exact ⟨m, by rw [List.getElem?_append_left hi, hm], .refl m⟩
  | mark j user =>
    by_cases hij : j = i
    · subst hij
      exact ⟨m.markRead user, by simp [markLog, hm], m.kept_markRead user⟩
    · exact ⟨m, by simp [markLog, hij, hm], .refl m⟩

theorem Holds.trans {log log' log'' : List Message} (h : Holds log log') (h' : Holds log' log'') :
    Holds log log'' := by
  intro i m hm
  obtain ⟨m', hm', hkept⟩ := h i m hm
  obtain ⟨m'', hm'', hkept'⟩ := h' i m' hm'
  exact ⟨m'', hm'', hkept.trans hkept'⟩

theorem reachable_goes {start d : Json} {room : String} (h : Reachable readNumber start d)
    (hstart : RoomOk start room) : RoomOk d room ∧ ∀ log, RoomShown start room log →
      ∃ log', RoomShown d room log' ∧ Holds log log' := by
  induction h with
  | init => exact ⟨hstart, fun log hlog ↦ ⟨log, hlog, fun i m hm ↦ ⟨m, hm, .refl m⟩⟩⟩
  | step _ hstep ih =>
    obtain ⟨hok, hheld⟩ := ih
    obtain ⟨hok', hgrows⟩ := step_goes hstep hok
    refine ⟨hok', fun log hlog ↦ ?_⟩
    obtain ⟨log', hlog', hholds⟩ := hheld log hlog
    obtain ⟨log'', hlog'', hgrow⟩ := hgrows log' hlog'
    exact ⟨log'', hlog'', hholds.trans hgrow.holds⟩

/-! ## Chat rooms are logs -/

/-- What is stored for a room that holds a log. -/
structure Lawful (d : Json) (room : String) (log : List Message) : Prop where
  data : d.find (dataPath room) = some (.arr (log.map Message.toJson))
  next : d.find (nextPath room) = some (.int (log.length + 1))
  numbers : ∀ (i : ℕ) m, log[i]? = some m → m.sequence = i + 1
  requests : ∀ key v, d.find (requestPath room key) = some v → ∃ (i : ℕ) (m : Message),
    log[i]? = some m ∧ key = toString m.senderId ++ ":" ++ m.request ∧ v = .int (i + 1)
  once : ∀ (i j : ℕ) m m', log[i]? = some m → log[j]? = some m' → m.senderId = m'.senderId →
    m.request = m'.request → i = j

theorem RoomShown.lawful {d : Json} {room : String} {log : List Message} (h : RoomShown d room log)
    (hlog : LogOf room log) : Lawful d room log where
  data := h.data
  next := h.next
  numbers := hlog.numbered.numbers
  requests := by
    intro key v hv
    rw [h.requests] at hv
    obtain ⟨n, hn, rfl⟩ := Option.map_eq_some_iff.mp hv
    obtain ⟨i, m, hm, hkey, rfl⟩ := hlog.numbered.receipt hn
    exact ⟨i, m, hm, hkey.symm, rfl⟩
  once := by
    intro i j m m' hm hm' hsender hrequest
    have hkey : ∀ (k : ℕ) m, log[k]? = some m → (log.map Message.key)[k]? = some m.key := by
      intro k m hm
      rw [List.getElem?_map, hm]
      rfl
    have hi := hkey i m hm
    have hj := hkey j m' hm'
    rw [show m'.key = m.key by rw [Message.key, Message.key, hsender, hrequest]] at hj
    obtain ⟨hlength, -⟩ := List.getElem?_eq_some_iff.mp hi
    exact (List.getElem?_inj hlength hlog.numbered.once).mp (hi.trans hj.symm)

/-- How a room answers the commits of a step. -/
structure Answers (d : Json) (room : String) (e : Event) (d' : Json) : Prop where
  /-- A request that has become a message changes nothing. It is answered with the message as it is
  stored, if it says the same, and otherwise refused. -/
  repeated : ∀ m reply lost, e = .commit m reply lost → m.room = room → ∀ log,
    RoomShown d room log → ∀ previous ∈ log, previous.senderId = m.senderId →
      previous.request = m.request → d' = d ∧
        reply = some (if previous.text = m.text ∧ previous.object = m.object then
          .stored previous.toJson else .mismatch)
  /-- The message that is answered is in the room. -/
  stored : ∀ m j lost, e = .commit m (some (.stored j)) lost → m.room = room → ∃ log,
    RoomShown d' room log ∧ ∃ m' ∈ log, j = m'.toJson ∧ m'.senderId = m.senderId ∧
      m'.request = m.request ∧ m'.text = m.text ∧ m'.object = m.object
  /-- Without a message as the answer, the room is as before, or new and empty. -/
  unstored : ∀ m reply lost, e = .commit m reply lost → (∀ j, reply ≠ some (.stored j)) →
    m.room = room → d'.find (itemPath room) = d.find (itemPath room) ∨
      d.find (itemPath room) = none ∧ Lawful d' room []

theorem step_answers {d d' : Json} {room : String} {e : Event} (hstep : Step readNumber d e d')
    (h : RoomOk d room) : Answers d room e d' := by
  cases hstep with
  | state => exact ⟨nofun, nofun, nofun⟩
  | page => exact ⟨nofun, nofun, nofun⟩
  | commit m permission users reply _ lost _ _ hrun =>
    by_cases hroom : m.room = room
    · subst hroom
      obtain ⟨reply', d'', hrun', hcommitted⟩ := commitChatMessage_spec readNumber h
        permission users
      rw [hrun, Prod.mk.injEq, Option.some.injEq] at hrun'
      obtain ⟨rfl, rfl⟩ := hrun'
      refine ⟨?_, ?_, ?_⟩
      · rintro m₁ reply₁ lost₁ hevent - log hlog previous hmem hsender hrequest
        obtain ⟨rfl, rfl, rfl⟩ := Event.commit.inj hevent
        exact hcommitted.of_repeated h hlog hmem hsender hrequest
      · rintro m₁ j lost₁ hevent -
        obtain ⟨rfl, hreply, rfl⟩ := Event.commit.inj hevent
        exact hcommitted.of_stored (Option.some.inj hreply)
      · rintro m₁ reply₁ lost₁ hevent hreply -
        obtain ⟨rfl, rfl, rfl⟩ := Event.commit.inj hevent
        refine (hcommitted.of_unstored fun j hj ↦ hreply j (congrArg some hj)).imp_right ?_
        exact fun ⟨habsent, hshown⟩ ↦ ⟨habsent, hshown.lawful ⟨numbered_nil, nofun⟩⟩
    · refine ⟨?_, ?_, ?_⟩
      · rintro m₁ reply₁ lost₁ hevent heq
        obtain ⟨rfl, -, -⟩ := Event.commit.inj hevent
        exact absurd heq hroom
      · rintro m₁ j lost₁ hevent heq
        obtain ⟨rfl, -, -⟩ := Event.commit.inj hevent
        exact absurd heq hroom
      · rintro m₁ reply₁ lost₁ hevent - heq
        obtain ⟨rfl, -, -⟩ := Event.commit.inj hevent
        exact absurd heq hroom

/-- **Chat rooms are logs.** -/
theorem chat_rooms_are_logs {start d : Json} {room : String} (hstart : RoomOk start room)
    (h : Reachable readNumber start d) :
    (d.find (itemPath room) = none ∨ ∃ log, Lawful d room log) ∧
      (∀ log, RoomShown start room log → ∃ log', Lawful d room log' ∧ Holds log log') ∧
      ∀ e d', Step readNumber d e d' → Answers d room e d' := by
  obtain ⟨hok, hheld⟩ := reachable_goes h hstart
  refine ⟨?_, fun log hlog ↦ ?_, fun e d' hstep ↦ step_answers hstep hok⟩
  · rcases hok with hnone | ⟨log, hshown, hlog⟩
    · exact Or.inl hnone
    · exact Or.inr ⟨log, hshown.lawful hlog⟩
  · obtain ⟨log', hlog', hholds⟩ := hheld log hlog
    refine ⟨log', hlog'.lawful ?_, hholds⟩
    exact hok.logOf hlog'

/-- A message that mentions a user is committed to a room that is not there yet. -/
def greeting : Message where
  room := "general"
  text := "@bob#1 hello"
  sender := .str "alice"
  tag := .int 1
  senderId := 1
  sequence := 1
  createdAt := 123
  request := "request-one"
  object := none
  mentions := [("2", true)]
  nodup := by decide

def emptyCanvas : Json := .obj [("items", .obj [])]

/-- The canvas with one message. -/
def greetedCanvas : Json :=
  (commitChatMessage (fun _ ↦ none) greeting (.str "default") ["2"] (some emptyCanvas)).2.getD .null

theorem greetedCanvas_reachable : Reachable (fun _ ↦ none) emptyCanvas greetedCanvas :=
  .step .init (.commit emptyCanvas greeting (.str "default") ["2"]
    (some (.stored greeting.toJson)) greetedCanvas true (by decide) (List.Perm.refl _)
    (by decide +kernel))

theorem chat_rooms_are_logs_greeted :
    (greetedCanvas.find (itemPath "general") = none ∨ ∃ log, Lawful greetedCanvas "general" log) ∧
      (∀ log, RoomShown emptyCanvas "general" log → ∃ log',
        Lawful greetedCanvas "general" log' ∧ Holds log log') ∧
      ∀ e d', Step (fun _ ↦ none) greetedCanvas e d' → Answers greetedCanvas "general" e d' :=
  chat_rooms_are_logs (Or.inl (by decide +kernel)) greetedCanvas_reachable

end Chat

end Agora
