import Agora.Chat.Slices

/-!
# Answers with a part of a history

The query for a part of a chat history. The page leaves the script through the Lua codec, for which
an empty array and an empty object are the same. The handler parses it, adds up to where earlier
messages can be asked for, and takes out of the messages what stays on the server.

In a dense history every message has the number of its position, so a page is a slice of it
(`chatHistory_page`).
-/

namespace Agora

namespace Chat

/-! ## The Lua codec -/

mutual

/-- A value that was decoded and encoded again by the Lua codec. -/
def recoded : Json → Json
  | .arr elements => listJson (recodedElements elements)
  | .obj fields => .obj (recodedFields fields)
  | .null => .null
  | .bool b => .bool b
  | .int n => .int n
  | .float q => .float q
  | .str s => .str s

def recodedElements : List Json → List Json
  | [] => []
  | e :: es => recoded e :: recodedElements es

def recodedFields : List (String × Json) → List (String × Json)
  | [] => []
  | (k, v) :: fs => (k, recoded v) :: recodedFields fs

end

mutual

/-- Whether there is an empty array in a value. -/
def hasEmptyArray : Json → Bool
  | .arr elements => elements.isEmpty || elementsHaveEmptyArray elements
  | .obj fields => fieldsHaveEmptyArray fields
  | .null => false
  | .bool _ => false
  | .int _ => false
  | .float _ => false
  | .str _ => false

def elementsHaveEmptyArray : List Json → Bool
  | [] => false
  | e :: es => hasEmptyArray e || elementsHaveEmptyArray es

def fieldsHaveEmptyArray : List (String × Json) → Bool
  | [] => false
  | (_, v) :: fs => hasEmptyArray v || fieldsHaveEmptyArray fs

end

theorem recodedElements_eq (es : List Json) : recodedElements es = es.map recoded := by
  induction es with
  | nil => rfl
  | cons e es ih => rw [recodedElements, ih, List.map_cons]

theorem recodedFields_eq (fs : List (String × Json)) :
    recodedFields fs = fs.map fun e ↦ (e.1, recoded e.2) := by
  induction fs with
  | nil => rfl
  | cons e fs ih => rw [recodedFields, ih, List.map_cons]

theorem lookup_recodedFields (fs : List (String × Json)) (k : String) :
    (recodedFields fs).lookup k = (fs.lookup k).map recoded := by
  induction fs with
  | nil => rfl
  | cons e fs ih =>
    obtain ⟨k', v⟩ := e
    rw [recodedFields]
    by_cases hk : k' = k
    · subst hk
      simp
    · rw [Assoc.lookup_cons_of_ne hk, Assoc.lookup_cons_of_ne hk, ih]

mutual

/-- The codec gives back what has no empty array in it, and nothing else. -/
theorem recoded_eq_iff : ∀ j : Json, recoded j = j ↔ hasEmptyArray j = false
  | .arr [] => by simp [recoded, recodedElements, listJson, hasEmptyArray]
  | .arr (e :: es) => by
    rw [recoded, recodedElements, listJson, hasEmptyArray, Json.arr.injEq, List.isEmpty_cons,
      Bool.false_or, ← recodedElements_eq_iff (e :: es), recodedElements]
    exact List.cons_ne_nil _ _
  | .obj fields => by
    rw [recoded, hasEmptyArray, Json.obj.injEq]
    exact recodedFields_eq_iff fields
  | .null | .bool _ | .int _ | .float _ | .str _ => by simp [recoded, hasEmptyArray]

theorem recodedElements_eq_iff :
    ∀ es : List Json, recodedElements es = es ↔ elementsHaveEmptyArray es = false
  | [] => by simp [recodedElements, elementsHaveEmptyArray]
  | e :: es => by
    rw [recodedElements, elementsHaveEmptyArray, List.cons.injEq, recoded_eq_iff e,
      recodedElements_eq_iff es, Bool.or_eq_false_iff]

theorem recodedFields_eq_iff :
    ∀ fs : List (String × Json), recodedFields fs = fs ↔ fieldsHaveEmptyArray fs = false
  | [] => by simp [recodedFields, fieldsHaveEmptyArray]
  | (k, v) :: fs => by
    rw [recodedFields, fieldsHaveEmptyArray, List.cons.injEq, Prod.mk.injEq, recoded_eq_iff v,
      recodedFields_eq_iff fs, Bool.or_eq_false_iff]
    simp

end

/-! ## The handler -/

/-- `get<uint64_t>`. -/
def getUnsigned (j : Json) : Checked ℕ := do
  return ((← j.getLong) % 2 ^ 64).toNat

/-- A bound of a request, where it is a positive integer. -/
def historyBound (event : Json) (k : String) : Option ℕ :=
  match field? event k with
  | some (.int n) => if 0 < Json.wrap 64 n then some (Json.wrap 64 n).toNat else none
  | _ => none

/-- What a query for a part of the history of a room asks the script. -/
def historyRequest (room : String) (event : Json) : Checked PageRequest := do
  return ⟨room, historyBound event "from_sequence", historyBound event "to_sequence",
    ← event.value getUnsigned "limit" 50⟩

/-- A message without what stays on the server. -/
def publicMessage (message : Json) : Checked Json := do
  (← message.eraseKey "sender_user_id").eraseKey "mentions"

/-- Change every element that a range loop visits. -/
def changeElements (change : Json → Checked Json) : Json → Checked Json
  | .null => pure .null
  | .arr elements => return .arr (← elements.mapM change)
  | .obj fields => return .obj (← fields.mapM fun e ↦ return (e.1, ← change e.2))
  | j => change j

/-- The object whose comments the room holds, if it is such a room. -/
def withObject (object : Option String) (response : Json) : Checked Json :=
  match object with
  | some id => response.assign "object_id" (.str id)
  | none => pure response

/-- Up to where earlier messages can be asked for, when there are messages. -/
def withNext (response : Json) : Checked Json :=
  match field? response "from_sequence" with
  | some v => do response.assign "next_to_sequence" (.int ((← v.getLong) - 1))
  | none => pure response

def withPublicMessages (response : Json) : Checked Json :=
  match field? response "messages" with
  | some messages => do response.assign "messages" (← changeElements publicMessage messages)
  | none => pure response

/-- The answer with a page that was parsed. -/
def historyResponse (room : String) (object : Option String) (page : Json) : Checked Json := do
  let response ← page.assign "type" (.str "chat_history")
  let response ← response.assign "room_id" (.str room)
  let response ← withObject object response
  let response ← withNext response
  withPublicMessages response

/-- The answer for a room that is not there. -/
def noHistory (room : String) (object : Option String) : Checked Json :=
  withObject object (.obj [("type", .str "chat_history"), ("room_id", .str room),
    ("messages", .arr []), ("total", .int 0), ("has_more", .bool false)])

/-- What the script answered, or `STORAGE_UNAVAILABLE`. -/
def pageOrUnavailable : Option Json → Checked Json
  | some page => .ok page
  | none => .error (.threw (.runtimeError "STORAGE_UNAVAILABLE"))

variable (readNumber : String → Option ℚ) (groups : List String) (admin : Bool) (room : String)
  (object : Option String)

/-- The answer to a query for a part of the history of a room. The access to the object whose
comments the room holds has been checked before. -/
def chatHistory (event d : Json) : Checked Json :=
  match d.find (Broker.itemPath room) with
  | none => noHistory room object
  | some item => do
    throwIf (!isChatRoomItem item || (object.isNone && !queryCanAccess item groups admin))
      "ITEM_ACCESS_DENIED"
    let request ← historyRequest room event
    let page ← pageOrUnavailable (readChatPage readNumber request (some d))
    historyResponse room object (recoded page)

/-! ## Dense histories -/

/-- A room whose messages have the numbers of their positions. -/
structure Dense (d : Json) (data : List Json) : Prop where
  type : d.find (typePath room) = some (.str "chat_room")
  stored : d.find (dataPath room) = some (.arr data)
  numbered : contiguousFrom readNumber 0 data = true

/-- Whether a room is open to a user. -/
def Open (d : Json) : Prop :=
  object.isSome ∨
    ∀ item, d.find (Broker.itemPath room) = some item → queryCanAccess item groups admin

/-- A stored message without what stays on the server. -/
def stripped : Json → Json
  | .obj fields => .obj (Assoc.erase "mentions" (Assoc.erase "sender_user_id" fields))
  | j => j

/-- A message as it is delivered. -/
def delivered (message : Json) : Json :=
  stripped (recoded message)

section Slices

variable {readNumber : String → Option ℚ} {room : String} {d : Json} {data : List Json}

theorem contiguousFrom_append (start : ℤ) (l l' : List Json) :
    contiguousFrom readNumber start (l ++ l')
      = (contiguousFrom readNumber start l && contiguousFrom readNumber (start + l.length) l') := by
  induction l generalizing start with
  | nil => simp [contiguousFrom]
  | cons message l ih =>
    rw [List.cons_append, contiguousFrom, contiguousFrom, ih, Bool.and_assoc, List.length_cons]
    push_cast
    rw [show start + 1 + (l.length : ℤ) = start + (l.length + 1) by omega]

/-- A part of a dense history. -/
theorem contiguousFrom_slice (h : contiguousFrom readNumber 0 data = true) (start stop : ℕ) :
    contiguousFrom readNumber start ((data.take stop).drop start) = true := by
  rw [← List.take_append_drop stop data, contiguousFrom_append, Bool.and_eq_true] at h
  have htake := h.1
  rcases le_or_gt start (data.take stop).length with hle | hlt
  · rw [← List.take_append_drop start (data.take stop), contiguousFrom_append, Bool.and_eq_true,
      List.length_take, min_eq_left hle, zero_add] at htake
    exact htake.2
  · rw [List.drop_of_length_le hlt.le]
    rfl

variable {r : PageRequest}

theorem Dense.accepts (h : Dense readNumber room d data)
    (hfrom : ∀ n, r.fromSequence = some n → 1 ≤ n) : r.Accepts readNumber data := by
  have hbounds := PageRequest.window_bounds hfrom data.length
  have hslice := PageRequest.sliceOf_eq hfrom data
  have hstart : (((r.window data.length).start.toNat : ℕ) : ℤ) = (r.window data.length).start :=
    Int.toNat_of_nonneg hbounds.1
  unfold PageRequest.Accepts contiguous
  rw [Bool.and_eq_true, decide_eq_true_eq]
  constructor
  · rw [hslice, List.length_drop, List.length_take]
    omega
  · rw [hslice, ← hstart]
    exact contiguousFrom_slice h.numbered _ _

/-- The messages of a dense history are objects. -/
theorem exists_fields_of_contiguousFrom {start : ℤ} {l : List Json}
    (h : contiguousFrom readNumber start l = true) :
    ∀ message ∈ l, ∃ fields, message = .obj fields := by
  intro message hmem
  obtain ⟨k, hk, -⟩ := (contiguousFrom_spec h).1 message hmem
  match message with
  | .obj fields => exact ⟨fields, rfl⟩
  | .null | .bool _ | .int _ | .float _ | .str _ | .arr _ => nomatch hk

/-- The numbers of the ends of a slice that is not empty. -/
theorem ends_of_contiguousFrom {start : ℤ} {first : Json} {l : List Json}
    (h : contiguousFrom readNumber start (first :: l) = true) :
    sequenceOf readNumber first = some ((start + 1 : ℤ) : ℚ) ∧
      sequenceOf readNumber ((first :: l).getLast (List.cons_ne_nil _ _))
        = some ((start + (l.length + 1) : ℤ) : ℚ) := by
  constructor
  · rw [contiguousFrom, Bool.and_eq_true] at h
    exact of_decide_eq_true h.1
  · rw [← List.dropLast_append_getLast (List.cons_ne_nil first l), contiguousFrom_append,
      Bool.and_eq_true] at h
    have hlast := h.2
    rw [contiguousFrom, Bool.and_eq_true, decide_eq_true_eq, List.length_dropLast,
      List.length_cons, Nat.add_sub_cancel] at hlast
    rw [hlast.1, show start + (l.length : ℤ) + 1 = start + (l.length + 1) by omega]

/-- The page of a slice of a dense history: its ends are the positions. -/
theorem Dense.slicePage_eq (h : Dense readNumber room d data)
    (hfrom : ∀ n, r.fromSequence = some n → 1 ≤ n) :
    r.slicePage readNumber data = .obj ([("total", .int data.length),
      ("messages", listJson (r.sliceOf data)), ("has_more", .bool (r.window data.length).more)] ++
        if r.sliceOf data = [] then [] else
          [("from_sequence", .int ((r.window data.length).start + 1)),
            ("to_sequence", .int (r.window data.length).stop)]) := by
  have haccepts := h.accepts hfrom
  have hlength := PageRequest.length_sliceOf haccepts
  unfold PageRequest.Accepts contiguous at haccepts
  rw [Bool.and_eq_true] at haccepts
  unfold PageRequest.slicePage pageJson
  dsimp only
  rcases hslice : r.sliceOf data with _ | ⟨first, l⟩
  · rfl
  · rw [hslice] at haccepts hlength
    obtain ⟨hfirst, hlast⟩ := ends_of_contiguousFrom haccepts.2
    rw [List.length_cons] at hlength
    push_cast at hlength
    rw [show (r.window data.length).start + ((l.length : ℤ) + 1) = (r.window data.length).stop by
      omega] at hlast
    rw [List.head?_cons, List.getLast?_eq_some_getLast (List.cons_ne_nil first l),
      if_neg (List.cons_ne_nil first l)]
    dsimp only
    rw [hfirst, hlast, Option.getD_some, Option.getD_some, Script.ofNumber_intCast,
      Script.ofNumber_intCast]

theorem Dense.readChatPage (h : Dense readNumber room d data) (hroom : r.room = room)
    (hfrom : ∀ n, r.fromSequence = some n → 1 ≤ n) :
    readChatPage readNumber r (some d) = some (r.slicePage readNumber data) := by
  have hpage : pageOf readNumber r (some (.arr data)) = some (r.slicePage readNumber data) :=
    PageRequest.pageOf_of_accepts rfl (h.accepts hfrom)
  have hscript : (pageScript readNumber r d).1 = .ok (some (r.slicePage readNumber data)) := by
    subst hroom
    unfold pageScript
    rw [Query.bind_of_ok (Script.jsonGet_run _ d), h.type, if_neg (by simp),
      Query.bind_of_ok (Script.jsonGet_run _ d), h.stored, hpage]
    rfl
  rw [Chat.readChatPage, hscript]
  rfl

end Slices

/-! ## Answers -/

section Answers

variable {room : String} {object : Option String} {event : Json} {r : PageRequest}

theorem one_le_of_historyBound {k : String} {n : ℕ} (h : historyBound event k = some n) :
    1 ≤ n := by
  unfold historyBound at h
  split at h
  · split_ifs at h with hpos
    rw [← Option.some.inj h]
    omega
  · nomatch h

theorem historyRequest_ok (h : historyRequest room event = .ok r) :
    r.room = room ∧ r.fromSequence = historyBound event "from_sequence" ∧
      r.toSequence = historyBound event "to_sequence" ∧
      event.value getUnsigned "limit" 50 = .ok r.limit := by
  obtain ⟨limit, hlimit, h⟩ := Checked.bind_ok.mp h
  rw [← Checked.pure_ok.mp h]
  exact ⟨rfl, rfl, rfl, hlimit⟩

theorem one_le_fromSequence (h : historyRequest room event = .ok r) {n : ℕ}
    (hn : r.fromSequence = some n) : 1 ≤ n := by
  rw [(historyRequest_ok h).2.1] at hn
  exact one_le_of_historyBound hn

/-- Messages that are objects are delivered. -/
theorem changeElements_recoded {messages : List Json}
    (h : ∀ message ∈ messages, ∃ fields, message = .obj fields) :
    changeElements publicMessage (listJson (messages.map recoded))
      = .ok (listJson (messages.map delivered)) := by
  have hall : (messages.map recoded).mapM publicMessage = .ok (messages.map delivered) := by
    induction messages with
    | nil => rfl
    | cons message messages ih =>
      obtain ⟨⟨fields, rfl⟩, hrest⟩ := List.forall_mem_cons.mp h
      rw [List.map_cons, List.mapM_cons, ih hrest]
      rfl
  rcases messages with _ | ⟨message, messages⟩
  · rfl
  · rw [List.map_cons] at hall ⊢
    rw [listJson, changeElements, hall]
    · rfl
    · exact List.cons_ne_nil _ _

/-- What the handler makes of a page. -/
theorem historyResponse_spec (room : String) (object : Option String)
    {fields : List (String × Json)} {messages messages' : Json} {first : Option ℤ}
    (hmessages : fields.lookup "messages" = some messages)
    (hchange : changeElements publicMessage messages = .ok messages')
    (hfirst : fields.lookup "from_sequence" = first.map Json.int)
    (hnext : fields.lookup "next_to_sequence" = none) :
    ∃ response, historyResponse room object (.obj fields) = .ok response ∧
      field? response "messages" = some messages' ∧
      field? response "has_more" = fields.lookup "has_more" ∧
      field? response "next_to_sequence" = first.map fun n ↦ .int (Json.wrap 64 n - 1) := by
  obtain ⟨base, hbase⟩ : ∃ base, base = Assoc.set "room_id" (.str room)
      (Assoc.set "type" (.str "chat_history") fields) := ⟨_, rfl⟩
  obtain ⟨owned, howned, hkept⟩ : ∃ owned, withObject object (.obj base) = .ok (.obj owned) ∧
      ∀ k, k ≠ "object_id" → owned.lookup k = base.lookup k := by
    rcases object with _ | id
    · exact ⟨base, rfl, fun _ _ ↦ rfl⟩
    · exact ⟨_, rfl, fun k hk ↦ Assoc.lookup_set_of_ne hk.symm _ _⟩
  have hlookup : ∀ k, k ≠ "object_id" → k ≠ "room_id" → k ≠ "type" →
      owned.lookup k = fields.lookup k := by
    intro k hobject hroom htype
    rw [hkept k hobject, hbase, Assoc.lookup_set_of_ne hroom.symm,
      Assoc.lookup_set_of_ne htype.symm]
  obtain ⟨led, hled, hledkept, hlednext⟩ : ∃ led, withNext (.obj owned) = .ok (.obj led) ∧
      (∀ k, k ≠ "next_to_sequence" → led.lookup k = owned.lookup k) ∧
      led.lookup "next_to_sequence" = first.map fun n ↦ .int (Json.wrap 64 n - 1) := by
    have hfield : field? (.obj owned) "from_sequence" = first.map Json.int :=
      (hlookup _ (by decide) (by decide) (by decide)).trans hfirst
    rcases first with _ | n
    · refine ⟨owned, ?_, fun _ _ ↦ rfl, (hlookup _ (by decide) (by decide) (by decide)).trans hnext⟩
      rw [withNext, hfield]
      rfl
    · refine ⟨_, ?_, fun k hk ↦ Assoc.lookup_set_of_ne hk.symm _ _, Assoc.lookup_set_self _ _ _⟩
      rw [withNext, hfield]
      rfl
  have hfield : field? (.obj led) "messages" = some messages :=
    (hledkept _ (by decide)).trans ((hlookup _ (by decide) (by decide) (by decide)).trans hmessages)
  refine ⟨.obj (Assoc.set "messages" messages' led), ?_, Assoc.lookup_set_self _ _ _, ?_, ?_⟩
  · have hlast :
        withPublicMessages (.obj led) = .ok (.obj (Assoc.set "messages" messages' led)) := by
      rw [withPublicMessages, hfield]
      exact Checked.bind_ok.mpr ⟨_, hchange, rfl⟩
    refine Checked.bind_ok.mpr ⟨_, rfl, Checked.bind_ok.mpr ⟨.obj base, by rw [hbase]; rfl, ?_⟩⟩
    exact Checked.bind_ok.mpr ⟨_, howned, Checked.bind_ok.mpr ⟨_, hled, hlast⟩⟩
  · refine (Assoc.lookup_set_of_ne (by decide) _ _).trans ((hledkept _ (by decide)).trans ?_)
    exact hlookup _ (by decide) (by decide) (by decide)
  · exact (Assoc.lookup_set_of_ne (by decide) _ _).trans hlednext

variable {readNumber : String → Option ℚ} {groups : List String} {admin : Bool} {d : Json}
  {data : List Json}

/-- **A page of a dense history.** The query is answered with the messages of the slice, as they
come out of the codec. -/
theorem chatHistory_page (h : Dense readNumber room d data)
    (hopen : Open groups admin room object d) (hr : historyRequest room event = .ok r) :
    ∃ response, chatHistory readNumber groups admin room object event d = .ok response ∧
      field? response "messages" = some (listJson ((r.sliceOf data).map delivered)) ∧
      field? response "has_more" = some (.bool (r.window data.length).more) ∧
      (r.sliceOf data ≠ [] → field? response "next_to_sequence" =
        some (.int (Json.wrap 64 ((r.window data.length).start + 1) - 1))) := by
  have hfrom : ∀ n, r.fromSequence = some n → 1 ≤ n := fun n ↦ one_le_fromSequence hr
  obtain ⟨item, hitem, htype⟩ : ∃ item, d.find (Broker.itemPath room) = some item ∧
      field? item "type" = some (.str "chat_room") := by
    have htype := h.type
    rw [typePath, Json.find_append] at htype
    obtain ⟨item, hitem, htype⟩ := Option.bind_eq_some_iff.mp htype
    rw [Json.find_cons] at htype
    exact ⟨item, hitem, (Option.bind_fun_some _).symm.trans htype⟩
  have hobjects : ∀ message ∈ r.sliceOf data, ∃ fields, message = .obj fields := by
    have haccepts := h.accepts hfrom
    unfold PageRequest.Accepts contiguous at haccepts
    rw [Bool.and_eq_true] at haccepts
    exact exists_fields_of_contiguousFrom haccepts.2
  -- the room is there and open to the user
  have hadmitted : (!isChatRoomItem item || (object.isNone && !queryCanAccess item groups admin))
      = false := by
    rw [isChatRoomItem, htype, decide_eq_true rfl, Bool.not_true, Bool.false_or]
    rcases hopen with hobject | haccess
    · rw [Option.isNone_eq_false_iff.mpr hobject, Bool.false_and]
    · rw [haccess item hitem, Bool.not_true, Bool.and_false]
  obtain ⟨fields, hpage, hmessages, hmore, hfirst, hnext⟩ : ∃ fields,
      recoded (r.slicePage readNumber data) = .obj fields ∧
      fields.lookup "messages" = some (listJson ((r.sliceOf data).map recoded)) ∧
      fields.lookup "has_more" = some (.bool (r.window data.length).more) ∧
      fields.lookup "from_sequence" = (if r.sliceOf data = [] then none
        else some ((r.window data.length).start + 1)).map Json.int ∧
      fields.lookup "next_to_sequence" = none := by
    -- only an empty list changes on its way through the script's decoder
    have hlist : ∀ l, recoded (listJson l) = listJson (l.map recoded) := by
      intro l
      rcases l with _ | ⟨e, l⟩
      · rfl
      · rw [listJson, recoded, recodedElements_eq]
        exact List.cons_ne_nil _ _
    rw [h.slicePage_eq hfrom]
    refine ⟨_, rfl, ?_⟩
    rw [lookup_recodedFields, lookup_recodedFields, lookup_recodedFields, lookup_recodedFields]
    split_ifs
    · exact ⟨congrArg some (hlist _), rfl, rfl, rfl⟩
    · exact ⟨congrArg some (hlist _), rfl, rfl, rfl⟩
  obtain ⟨response, hresponse, hshown, hresponseMore, hresponseNext⟩ := historyResponse_spec room
    object hmessages (changeElements_recoded hobjects) hfirst hnext
  refine ⟨response, ?_, hshown, hresponseMore.trans hmore, fun hne ↦ ?_⟩
  · unfold chatHistory
    rw [hitem]
    refine Checked.bind_ok.mpr ⟨(), by rw [hadmitted]; rfl, Checked.bind_ok.mpr ⟨r, hr, ?_⟩⟩
    refine Checked.bind_ok.mpr ⟨r.slicePage readNumber data, ?_, ?_⟩
    · rw [h.readChatPage (historyRequest_ok hr).1 hfrom]
      rfl
    · rw [hpage]
      exact hresponse
  · rw [hresponseNext, if_neg hne]
    rfl

theorem recodedFields_erase (k : String) (fields : List (String × Json)) :
    recodedFields (Assoc.erase k fields) = Assoc.erase k (recodedFields fields) := by
  rw [recodedFields_eq, recodedFields_eq, Assoc.erase, Assoc.erase, List.filter_map]
  rfl

/-- A message is delivered as it is stored when there is no empty array in it. -/
theorem delivered_eq_iff {message : Json} (h : ∃ fields, message = .obj fields) :
    delivered message = stripped message ↔ hasEmptyArray (stripped message) = false := by
  obtain ⟨fields, rfl⟩ := h
  rw [← recoded_eq_iff, delivered, recoded, stripped, stripped, recoded, recodedFields_erase,
    recodedFields_erase]

theorem listJson_eq_arr_iff {messages : List Json} {f g : Json → Json} :
    listJson (messages.map f) = .arr (messages.map g) ↔
      messages ≠ [] ∧ ∀ message ∈ messages, f message = g message := by
  rcases messages with _ | ⟨message, messages⟩
  · simp [listJson]
  · rw [List.map_cons, listJson, ← List.map_cons, Json.arr.injEq, List.map_inj_left]
    · simp
    · exact List.cons_ne_nil _ _

/-- **The messages of a page.** They are the selected messages, without what stays on the server,
when there are any, and there is no empty array in them. -/
theorem chatHistory_messages_iff (h : Dense readNumber room d data)
    (hopen : Open groups admin room object d) (hr : historyRequest room event = .ok r) :
    ∃ response, chatHistory readNumber groups admin room object event d = .ok response ∧
      (field? response "messages" = some (.arr ((r.sliceOf data).map stripped)) ↔
        r.sliceOf data ≠ [] ∧
          ∀ message ∈ r.sliceOf data, hasEmptyArray (stripped message) = false) := by
  obtain ⟨response, hresponse, hmessages, -⟩ := chatHistory_page h hopen hr
  have hfrom : ∀ n, r.fromSequence = some n → 1 ≤ n := fun n ↦ one_le_fromSequence hr
  have hobjects : ∀ message ∈ r.sliceOf data, ∃ fields, message = .obj fields := by
    have haccepts := h.accepts hfrom
    unfold PageRequest.Accepts contiguous at haccepts
    rw [Bool.and_eq_true] at haccepts
    exact exists_fields_of_contiguousFrom haccepts.2
  refine ⟨response, hresponse, ?_⟩
  rw [hmessages, Option.some.injEq, listJson_eq_arr_iff]
  exact and_congr_right' (forall₂_congr fun message hm ↦ delivered_eq_iff (hobjects message hm))

end Answers

/-- A stored message. -/
def hello : Json :=
  .obj [("text", .str "hello"), ("sender_user_id", .int 3), ("sequence", .int 1),
    ("mentions", .obj [])]

/-- A canvas with a chat room that holds one message. -/
def helloCanvas : Json :=
  .obj [("items", .obj [("room", .obj [("type", .str "chat_room"), ("permission", .str "team"),
    ("data", .arr [hello]), ("next_sequence", .int 2)])])]

theorem helloCanvas_dense : Dense (fun _ ↦ none) "room" helloCanvas [hello] :=
  ⟨by decide +kernel, by decide +kernel, by decide +kernel⟩

/-- More messages; the sender of the last one has an empty array for a name. -/
def threeMessages : List Json :=
  [hello,
    .obj [("text", .str "@carl#4"), ("sender_user_id", .int 3), ("sequence", .int 2),
      ("mentions", .obj [("4", .bool true)])],
    .obj [("text", .str "yes"), ("sender", .arr []), ("sender_user_id", .int 4),
      ("sequence", .int 3), ("mentions", .obj [])]]

def threeCanvas : Json :=
  .obj [("items", .obj [("room", .obj [("type", .str "chat_room"), ("permission", .str "team"),
    ("data", .arr threeMessages), ("next_sequence", .int 4)])])]

theorem threeCanvas_dense : Dense (fun _ ↦ none) "room" threeCanvas threeMessages :=
  ⟨by decide +kernel, by decide +kernel, by decide +kernel⟩

/-- The first two messages arrive as they are stored; the last two do not. -/
theorem chatHistory_messages_iff_two :
    (∃ response,
      chatHistory (fun _ ↦ none) [] true "room" none (.obj [("to_sequence", .int 2)]) threeCanvas
        = .ok response ∧
      (field? response "messages" = some (.arr
          ((PageRequest.sliceOf ⟨"room", none, some 2, 50⟩ threeMessages).map stripped)) ↔
        PageRequest.sliceOf ⟨"room", none, some 2, 50⟩ threeMessages ≠ [] ∧
          ∀ message ∈ PageRequest.sliceOf ⟨"room", none, some 2, 50⟩ threeMessages,
            hasEmptyArray (stripped message) = false)) ∧
      ∃ response,
        chatHistory (fun _ ↦ none) [] true "room" none (.obj [("limit", .int 2)]) threeCanvas
          = .ok response ∧
        (field? response "messages" =
            some (.arr ((PageRequest.sliceOf ⟨"room", none, none, 2⟩ threeMessages).map stripped)) ↔
          PageRequest.sliceOf ⟨"room", none, none, 2⟩ threeMessages ≠ [] ∧
            ∀ message ∈ PageRequest.sliceOf ⟨"room", none, none, 2⟩ threeMessages,
              hasEmptyArray (stripped message) = false) :=
  ⟨chatHistory_messages_iff threeCanvas_dense (Or.inr fun _ _ ↦ rfl) rfl,
    chatHistory_messages_iff threeCanvas_dense (Or.inr fun _ _ ↦ rfl) rfl⟩

/-- After the last message there are none, and the page has an empty object in their place. -/
theorem chatHistory_after_last :
    Dense (fun _ ↦ none) "room" helloCanvas [hello] ∧
      chatHistory (fun _ ↦ none) [] true "room" none (.obj [("from_sequence", .int 2)])
          helloCanvas =
        .ok (.obj [("total", .int 1), ("messages", .obj []), ("has_more", .bool false),
          ("type", .str "chat_history"), ("room_id", .str "room")]) :=
  ⟨helloCanvas_dense, by decide +kernel⟩

end Chat

end Agora
