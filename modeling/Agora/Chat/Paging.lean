import Agora.Chat.History
import Agora.Chat.Rooms

/-!
# Reading a history backwards

A client reads the latest messages first, and as long as there are more asks for those up to where
the last page began. Messages may be committed in between. Each page ends where the one before it
began, so the pages, read from the last to the first, are the messages from the first one on.
-/

namespace Agora

namespace Chat

/-! ## The client -/

/-- Whether there are more messages to read. -/
def hasMore (response : Json) : Bool := decide (field? response "has_more" = some (.bool true))

/-- The messages of an answer. -/
def messagesOf (response : Json) : List Json :=
  match field? response "messages" with
  | some (.arr messages) => messages
  | _ => []

/-- The request for the latest messages, or for those up to a number. -/
def backwardEvent (fields : List (String × Json)) : Option Json → Json
  | none => .obj fields
  | some n => .obj (Assoc.set "to_sequence" n fields)

/-- The pages a client reads, when it comes to an end within so many requests. The answer to a
request may depend on how many were made before it. -/
def readBackward (respond : ℕ → Option Json → Checked Json) : ℕ → ℕ → Option Json →
    Option (List Json)
  | 0, _, _ => none
  | fuel + 1, k, last =>
    match respond k last with
    | .ok response =>
      if hasMore response then
        (readBackward respond fuel (k + 1) (field? response "next_to_sequence")).map (response :: ·)
      else some [response]
    | .error _ => none

/-! ## Pages -/

variable {readNumber : String → Option ℚ} {groups : List String} {admin : Bool} {room : String}
  {object : Option String} {fields : List (String × Json)}

/-- The numbers of the messages in an answer. -/
def numbersOf (readNumber : String → Option ℚ) (response : Json) : List (Option ℚ) :=
  (messagesOf response).map (sequenceOf readNumber)

/-- So many numbers after a first one. -/
def numbersFrom (start count : ℕ) : List (Option ℚ) :=
  (List.range' (start + 1) count).map fun i : ℕ ↦ some (i : ℚ)

theorem numbersFrom_append (start a b : ℕ) :
    numbersFrom start a ++ numbersFrom (start + a) b = numbersFrom start (a + b) := by
  unfold numbersFrom
  rw [← List.map_append, ← List.range'_append_1, show start + a + 1 = start + 1 + a by omega]

theorem sequenceOf_delivered (message : Json) :
    sequenceOf readNumber (delivered message) = sequenceOf readNumber message := by
  match message with
  | .obj fields =>
    change Script.toNumber readNumber _ = Script.toNumber readNumber (fields.lookup "sequence")
    rw [Assoc.lookup_erase_of_ne (by decide), Assoc.lookup_erase_of_ne (by decide),
      lookup_recodedFields]
    rcases fields.lookup "sequence" with _ | v
    · rfl
    · cases v with
      | arr elements => cases elements <;> rfl
      | _ => rfl
  | .arr elements => cases elements <;> rfl
  | .null | .bool _ | .int _ | .float _ | .str _ => rfl

/-- The numbers in a slice of a dense history. -/
theorem sequenceOf_of_contiguousFrom {start : ℕ} {l : List Json}
    (h : contiguousFrom readNumber start l = true) :
    l.map (sequenceOf readNumber) = numbersFrom start l.length := by
  induction l generalizing start with
  | nil => rfl
  | cons message l ih =>
    rw [contiguousFrom, Bool.and_eq_true, decide_eq_true_eq] at h
    have hrest : contiguousFrom readNumber ((start + 1 : ℕ) : ℤ) l = true := by exact_mod_cast h.2
    rw [List.map_cons, h.1, ih hrest, numbersFrom, numbersFrom, List.length_cons, List.range'_succ,
      List.map_cons]
    push_cast
    rfl

/-- Pages that are, from the last to the first, the messages with the numbers up to `n`, as they
were when the page was read. -/
structure Backward (readNumber : String → Option ℚ) (data : ℕ → List Json) (n : ℕ)
    (pages : List Json) : Prop where
  complete : (pages.map (numbersOf readNumber)).reverse.flatten = numbersFrom 0 n
  contiguous : ∀ page ∈ pages, ∃ start count,
    numbersOf readNumber page = numbersFrom start count ∧ (0 < n → 0 < count)
  stored : ∀ i page, pages[i]? = some page →
    ∀ message ∈ messagesOf page, ∃ m ∈ data i, message = delivered m

section Requests

variable {limit : ℕ}

/-- A request for messages in backward direction, with a limit. -/
structure BackwardFields (fields : List (String × Json)) (limit : ℕ) : Prop where
  fromSequence : historyBound (.obj fields) "from_sequence" = none
  toSequence : historyBound (.obj fields) "to_sequence" = none
  limit : (Json.obj fields).value getUnsigned "limit" 50 = .ok limit

theorem historyRequest_latest (h : BackwardFields fields limit) :
    historyRequest room (backwardEvent fields none) = .ok ⟨room, none, none, limit⟩ := by
  rw [backwardEvent, historyRequest, h.fromSequence, h.toSequence, h.limit]
  rfl

theorem historyRequest_backward (h : BackwardFields fields limit) {n : ℕ} (hpos : 1 ≤ n)
    (hlt : n < 2 ^ 63) : historyRequest room (backwardEvent fields (some (.int n)))
      = .ok ⟨room, none, some n, limit⟩ := by
  have hfrom : historyBound (backwardEvent fields (some (.int n))) "from_sequence" = none := by
    rw [← h.fromSequence, historyBound, historyBound, backwardEvent, field?_obj, field?_obj,
      Assoc.lookup_set_of_ne (by decide)]
  have hto : historyBound (backwardEvent fields (some (.int n))) "to_sequence" = some n := by
    rw [historyBound, backwardEvent, field?_obj, Assoc.lookup_set_self]
    dsimp only
    rw [Json.wrap_64 (by omega) (by omega), if_pos (by omega), Int.toNat_natCast]
  have hlimit :
      (backwardEvent fields (some (.int n))).value getUnsigned "limit" 50 = .ok limit := by
    rw [← h.limit, backwardEvent, Json.value, Json.value, Assoc.lookup_set_of_ne (by decide)]
  rw [historyRequest, hfrom, hto, hlimit]
  rfl

variable {d : Json} {data : List Json}

/-- The answer to one request of the client: the `limit` messages before its end. -/
theorem chatHistory_backward (hfields : BackwardFields fields limit)
    (h : Dense readNumber room d data) (hopen : Open groups admin room object d)
    {stop : Option ℕ} (hstop : ∀ n, stop = some n → 1 ≤ n ∧ n ≤ data.length) {last : ℕ}
    (hlast : stop.getD data.length = last) (hbound : last < 2 ^ 63) :
    ∃ response, chatHistory readNumber groups admin room object
        (backwardEvent fields (stop.map fun n ↦ .int n)) d = .ok response ∧
      messagesOf response = ((data.take last).drop (last - limit)).map delivered ∧
      hasMore response = decide (limit < last) ∧
      (1 ≤ limit → limit < last →
        field? response "next_to_sequence" = some (.int (last - limit : ℕ))) := by
  obtain ⟨r, hr, hfrom, hwindow⟩ : ∃ r, historyRequest room
      (backwardEvent fields (stop.map fun n ↦ .int n)) = .ok r ∧ r.fromSequence = none ∧
      r.window data.length = ⟨max 0 ((last : ℤ) - limit), last, decide (limit < last)⟩ := by
    rcases stop with _ | n
    · refine ⟨_, historyRequest_latest hfields, rfl, ?_⟩
      rw [Option.getD_none] at hlast
      rw [← hlast, PageRequest.window, PageRequest.fromSequence, PageRequest.toSequence]
      exact congrArg (Window.mk _ _) (decide_eq_decide.mpr (by dsimp only; omega))
    · obtain ⟨hpos, hle⟩ := hstop n rfl
      rw [Option.getD_some] at hlast
      subst hlast
      refine ⟨_, historyRequest_backward hfields hpos hbound, rfl, ?_⟩
      have hmin : min (data.length : ℤ) n = n := by omega
      rw [PageRequest.window, PageRequest.fromSequence, PageRequest.toSequence]
      dsimp only
      rw [hmin]
      exact congrArg (Window.mk _ _) (decide_eq_decide.mpr (by omega))
  have hle : last ≤ data.length := by
    rcases stop with _ | n
    · exact hlast.symm.le
    · exact hlast ▸ (hstop n rfl).2
  have hslice : r.sliceOf data = (data.take last).drop (last - limit) := by
    rw [PageRequest.sliceOf_eq (by simp [hfrom]), hwindow]
    dsimp only
    rw [Int.toNat_natCast, show (max 0 ((last : ℤ) - limit)).toNat = last - limit by omega]
  obtain ⟨response, hresponse, hmessages, hmore, hnext⟩ := chatHistory_page h hopen hr
  rw [hslice] at hmessages hnext
  rw [hwindow] at hmore hnext
  refine ⟨response, hresponse, ?_, ?_, fun hpos hlt ↦ ?_⟩
  · rw [messagesOf, hmessages]
    rcases (data.take last).drop (last - limit) with _ | ⟨message, l⟩ <;> rfl
  · rw [hasMore, hmore]
    simp
  · have hne : (data.take last).drop (last - limit) ≠ [] := by
      rw [← List.length_pos_iff, List.length_drop, List.length_take]
      omega
    rw [hnext hne, Json.wrap_64 (by dsimp only; omega) (by dsimp only; omega)]
    dsimp only
    rw [show max 0 ((last : ℤ) - limit) + 1 - 1 = ((last - limit : ℕ) : ℤ) by omega]

end Requests

section Runs

variable {limit : ℕ} {docs : ℕ → Json} {data : ℕ → List Json}

/-- **Reading backwards.** However the history grows in between, the client comes to an end, and has
read every message that was there at its first request once, page by page. The number of the last
of them is one the handler can count with. -/
theorem readBackward_complete (hfields : BackwardFields fields limit) (hlimit : 1 ≤ limit)
    (hdense : ∀ k, Dense readNumber room (docs k) (data k))
    (hopen : ∀ k, Open groups admin room object (docs k))
    (hgrows : ∀ k, (data k).length ≤ (data (k + 1)).length)
    (hbound : (data 0).length < 2 ^ 63) :
    ∃ fuel pages, readBackward (fun k last ↦ chatHistory readNumber groups admin room object
        (backwardEvent fields last) (docs k)) fuel 0 none = some pages ∧
      Backward readNumber data (data 0).length pages := by
  -- By induction on the number of the last message of the next page.
  suffices hrun : ∀ (last k : ℕ) (stop : Option ℕ), last < 2 ^ 63 →
      (∀ n, stop = some n → 1 ≤ n ∧ n ≤ (data k).length) → stop.getD (data k).length = last →
      ∃ fuel pages, readBackward (fun k last ↦ chatHistory readNumber groups admin room object
          (backwardEvent fields last) (docs k)) fuel k (stop.map fun n ↦ .int n) = some pages ∧
        Backward readNumber (fun i ↦ data (k + i)) last pages by
    obtain ⟨fuel, pages, hread, hpages⟩ := hrun _ 0 none hbound nofun rfl
    simp only [Nat.zero_add] at hpages
    exact ⟨fuel, pages, hread, hpages⟩
  intro last
  induction last using Nat.strong_induction_on with
  | _ last ih =>
    intro k stop hbound hstop hlast
    obtain ⟨response, hresponse, hmessages, hmore, hnext⟩ :=
      chatHistory_backward hfields (hdense k) (hopen k) hstop hlast hbound
    have hle : last ≤ (data k).length := by
      rcases stop with _ | n
      · exact hlast.symm.le
      · exact hlast ▸ (hstop n rfl).2
    have hnumbers :
        numbersOf readNumber response = numbersFrom (last - limit) (min last limit) := by
      have hslice := sequenceOf_of_contiguousFrom
        (contiguousFrom_slice (hdense k).numbered (last - limit) last)
      rw [numbersOf, hmessages, List.map_map]
      refine (List.map_congr_left fun message _ ↦ sequenceOf_delivered message).trans ?_
      rw [hslice, List.length_drop, List.length_take]
      congr 1
      omega
    have hstored : ∀ message ∈ messagesOf response, ∃ m ∈ data k, message = delivered m := by
      rw [hmessages]
      intro message hm
      obtain ⟨m, hmem, rfl⟩ := List.mem_map.mp hm
      exact ⟨m, List.mem_of_mem_take (List.mem_of_mem_drop hmem), rfl⟩
    by_cases hlt : limit < last
    · -- The next page ends where this one begins.
      obtain ⟨fuel, pages, hread, hpages⟩ := ih (last - limit) (by omega) (k + 1)
        (some (last - limit)) (by omega) (fun n hn ↦ by
          have hgrow := hgrows k
          rw [← Option.some.inj hn]
          omega) rfl
      refine ⟨fuel + 1, response :: pages, ?_, ?_, ?_, ?_⟩
      · rw [readBackward, hresponse]
        dsimp only
        rw [hmore, decide_eq_true hlt, if_pos rfl, hnext hlimit hlt]
        exact congrArg (Option.map (response :: ·)) hread
      · rw [List.map_cons, List.reverse_cons, List.flatten_append, hpages.complete,
          List.flatten_singleton, hnumbers, min_eq_right hlt.le]
        have happend := numbersFrom_append 0 (last - limit) limit
        rwa [Nat.zero_add, Nat.sub_add_cancel hlt.le] at happend
      · refine List.forall_mem_cons.mpr ⟨⟨_, _, hnumbers, fun _ ↦ by omega⟩, fun page hpage ↦ ?_⟩
        obtain ⟨start, count, hpage, hcount⟩ := hpages.contiguous page hpage
        exact ⟨start, count, hpage, fun _ ↦ hcount (by omega)⟩
      · intro i page hpage
        rcases i with _ | i
        · rw [List.getElem?_cons_zero, Option.some.injEq] at hpage
          subst hpage
          exact hstored
        · rw [List.getElem?_cons_succ] at hpage
          have hrest := hpages.stored i page hpage
          rwa [Nat.add_right_comm, Nat.add_assoc] at hrest
    · refine ⟨1, [response], ?_, ?_, ?_, ?_⟩
      · rw [readBackward, hresponse]
        dsimp only
        rw [hmore, decide_eq_false hlt]
        rfl
      · rw [List.map_singleton, List.reverse_singleton, List.flatten_singleton, hnumbers,
          Nat.sub_eq_zero_of_le (not_lt.mp hlt), min_eq_left (not_lt.mp hlt)]
      · exact List.forall_mem_singleton.mpr ⟨_, _, hnumbers, fun _ ↦ by omega⟩
      · intro i page hpage
        rcases i with _ | i
        · rw [List.getElem?_cons_zero, Option.some.injEq] at hpage
          subst hpage
          exact hstored
        · nomatch hpage

end Runs

/-! ## Rooms of committed messages -/

theorem contiguousFrom_toJson {start : ℤ} {log : List Message}
    (h : ∀ (i : ℕ) m, log[i]? = some m → m.sequence = start + i + 1) :
    contiguousFrom readNumber start (log.map Message.toJson) = true := by
  induction log generalizing start with
  | nil => rfl
  | cons m log ih =>
    have hfirst : m.sequence = start + 1 := by simpa using h 0 m rfl
    rw [List.map_cons, contiguousFrom, Bool.and_eq_true]
    constructor
    · rw [decide_eq_true_eq, ← hfirst]
      rfl
    · refine ih fun i m' hm' ↦ ?_
      have hnumber := h (i + 1) m' hm'
      push_cast at hnumber
      omega

/-- The messages of a room that the commit script keeps are a dense history. -/
theorem RoomShown.dense {d : Json} {log : List Message} (h : RoomShown d room log)
    (hlog : LogOf room log) : Dense readNumber room d (log.map Message.toJson) := by
  refine ⟨h.type, h.data, contiguousFrom_toJson fun i m hm ↦ ?_⟩
  have hnumber := hlog.numbered.numbers i m hm
  omega

/-- The codec leaves the messages of users alone. -/
theorem Message.delivered_toJson {m : Message} (hsender : hasEmptyArray m.sender = false)
    (htag : hasEmptyArray m.tag = false) : delivered m.toJson = stripped m.toJson := by
  refine (delivered_eq_iff ⟨_, rfl⟩).mpr ?_
  unfold Message.objectField
  cases m.object with
  | none => simp [stripped, Assoc.erase, hasEmptyArray, fieldsHaveEmptyArray, hsender, htag]
  | some id => simp [stripped, Assoc.erase, hasEmptyArray, fieldsHaveEmptyArray, hsender, htag]

/-- The messages that are stored in a room. -/
def storedMessages (room : String) (d : Json) : List Json :=
  match d.find (dataPath room) with
  | some (.arr messages) => messages
  | _ => []

/-- Whatever the scripts have done, a room that is there has a dense history. -/
theorem Reachable.dense {start d : Json} (h : Reachable readNumber start d)
    (hstart : RoomOk start room) (hthere : d.find (Broker.itemPath room) ≠ none) :
    Dense readNumber room d (storedMessages room d) := by
  obtain ⟨log, hshown, hlog⟩ := (reachable_goes h hstart).1.resolve_left hthere
  rw [storedMessages, hshown.data]
  exact hshown.dense hlog

/-! ### A conversation -/

/-- A line of a conversation; each of them mentions a user. -/
def line (i : ℕ) : Message := { greeting with sequence := i + 1, request := toString i }

/-- A canvas after so many lines of the conversation. -/
def talk : ℕ → Json
  | 0 => emptyCanvas
  | n + 1 =>
    (commitChatMessage (fun _ ↦ none) (line n) (.str "default") ["2"] (some (talk n))).2.getD .null

theorem talk_reachable (n : ℕ) : Reachable (fun _ ↦ none) emptyCanvas (talk n) := by
  induction n with
  | zero => exact .init
  | succ n ih =>
    have hunread : ∀ e ∈ greeting.mentions, e.2 = true := by decide
    exact .step ih (.commit (talk n) (line n) (.str "default") ["2"] _ _ false hunread
      (List.Perm.refl _) rfl)

/-- Five lines when the client begins to read, and one more from its second request on. -/
def talkAt (k : ℕ) : Json := if k = 0 then talk 5 else talk 6

theorem talkAt_messages (k : ℕ) : storedMessages "general" (talkAt k)
    = (List.range (if k = 0 then 5 else 6)).map fun i ↦ (line i).toJson := by
  rw [talkAt]
  split
  · decide +kernel
  · decide +kernel

theorem talkAt_dense (k : ℕ) :
    Dense (fun _ ↦ none) "general" (talkAt k) (storedMessages "general" (talkAt k)) := by
  rw [talkAt]
  split
  · exact (talk_reachable 5).dense (Or.inl (by decide +kernel)) (by decide +kernel)
  · exact (talk_reachable 6).dense (Or.inl (by decide +kernel)) (by decide +kernel)

/-- Two lines a page: the five lines are read although there is a sixth one meanwhile. -/
theorem readBackward_complete_talk :
    ∃ fuel pages, readBackward (fun k last ↦ chatHistory (fun _ ↦ none) [] true "general" none
        (backwardEvent [("limit", .int 2)] last) (talkAt k)) fuel 0 none = some pages ∧
      Backward (fun _ ↦ none) (fun k ↦ storedMessages "general" (talkAt k)) 5 pages ∧
      ∀ page ∈ pages, ∀ message ∈ messagesOf page, ∃ i, message = stripped (line i).toJson := by
  have hlength (k : ℕ) : (storedMessages "general" (talkAt k)).length = if k = 0 then 5 else 6 := by
    rw [talkAt_messages, List.length_map, List.length_range]
  obtain ⟨fuel, pages, hread, hpages⟩ :=
    @readBackward_complete (fun _ ↦ none) [] true "general" none [("limit", .int 2)] 2 talkAt
      (fun k ↦ storedMessages "general" (talkAt k)) ⟨rfl, rfl, rfl⟩ (by decide) talkAt_dense
      (fun _ ↦ Or.inr fun _ _ ↦ rfl)
      (fun k ↦ by rw [hlength, hlength]; split <;> simp)
      (by rw [hlength]; decide)
  rw [hlength, if_pos rfl] at hpages
  refine ⟨fuel, pages, hread, hpages, fun page hpage message hmessage ↦ ?_⟩
  obtain ⟨k, hk⟩ := List.getElem?_of_mem hpage
  obtain ⟨m, hm, rfl⟩ := hpages.stored k page hk message hmessage
  rw [talkAt_messages] at hm
  obtain ⟨i, -, rfl⟩ := List.mem_map.mp hm
  exact ⟨i, Message.delivered_toJson rfl rfl⟩

end Chat

end Agora
