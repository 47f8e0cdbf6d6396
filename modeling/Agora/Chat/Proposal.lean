import Agora.Chat.Log
import Mathlib.Data.Int.CharZero

/-!
# The number proposed for a message

The handler proposes a number for a new message from the room that is stored; the scripts compare it
with the next number they find. The handler repairs a counter that is missing or behind the history,
the commit script takes the counter as it is, and the older append script counts the history when
there is no counter.
-/

namespace Agora

namespace Chat

open Script Broker

variable (readNumber : String → Option ℚ)

/-! ## Appending a message -/

/-- The answers of the append script. An array or a reset history can always be appended to, so it
answers nothing else. -/
inductive Append where
  | missingRoom
  | notChatRoom
  | sequenceConflict
  | badMessage
  | ok
  deriving DecidableEq

/-- A room without an array of messages gets an empty one. -/
def resetData (room : String) : Script Unit := do
  match ← jsonGet (dataPath room) with
  | some (.arr _) => pure ()
  | _ => jsonSet (dataPath room) (.arr [])

/-- The largest positive number of a message, or 0. -/
def historyMaximum (messages : List Json) : ℚ :=
  messages.foldl (fun maximum previous ↦
    match sequenceOf readNumber previous with
    | some n => if maximum < n then n else maximum
    | none => maximum) 0

/-- The next number of a room: the counter, or else one more than the largest in the history. -/
def nextNumber (room : String) : Script ℚ := do
  match toNumber readNumber (← jsonGet (nextPath room)) with
  | some n => pure n
  | none =>
    match ← jsonGet (dataPath room) with
    | some (.arr messages) => return historyMaximum readNumber messages + 1
    | _ => return 1

/-- Append a message that has the next number. -/
def appendNumbered (room : String) (sequence : ℤ) (message : Json) (next : ℚ) : Script Append :=
  if next ≠ sequence then pure .sequenceConflict
  else if sequenceOf readNumber message ≠ some (sequence : ℚ) then pure .badMessage
  else do
    arrAppend (dataPath room) message
    jsonSet (nextPath room) (ofNumber (sequence + 1))
    return .ok

def appendScript (room : String) (sequence : ℤ) (message : Json) : Script Append := do
  let type ← jsonGet (typePath room)
  if type ≠ some (.str "chat_room") then return .notChatRoom
  else do
    resetData room
    let next ← nextNumber readNumber room
    appendNumbered readNumber room sequence message next

/-- The script on a key. -/
def appendChatMessage (room : String) (sequence : ℤ) (message : Json) :
    Option Json → Option Append × Option Json
  | none => (some .missingRoom, none)
  | some d =>
    let r := appendScript readNumber room sequence message d
    (r.1.toOption, some r.2)

/-! ## The proposed number -/

/-- The number of a message, if the handler counts it. -/
def countedSequence (message : Json) : Option ℤ :=
  match field? message "sequence" with
  | some v =>
    if 0 < positiveSequence v ∧ positiveSequence v < maxSequence then some (positiveSequence v)
    else none
  | none => none

/-- The numbers of the messages that the handler counts. -/
def sequencesOf (item : Json) : List ℤ :=
  match field? item "data" with
  | some (.arr messages) => messages.filterMap countedSequence
  | _ => []

/-- The counter of a room, where it is an integer that is not 0. -/
def counterOf (item : Json) : ℤ :=
  match field? item "next_sequence" with
  | some (.int n) => max 1 n
  | _ => 1

/-- A room whose counter is ahead of its history, and not by more than one unless it is an integer
of its own. -/
def Counts (item : Json) : Prop :=
  ∃ n : ℤ, toNumber readNumber (field? item "next_sequence") = some (n : ℚ) ∧ 1 ≤ n ∧
    (∀ s ∈ sequencesOf item, s < n) ∧
      (field? item "next_sequence" = some (.int n) ∨ n = 1 ∨ n - 1 ∈ sequencesOf item)

section Proposal

variable {readNumber : String → Option ℚ} {item : Json}

/-- A fold that raises a number above those of messages. -/
theorem foldl_raiseSequence (messages : List Json) (next : ℤ) (hnext : 1 ≤ next) :
    messages.foldl raiseSequence next =
      (messages.filterMap countedSequence).foldl (fun next s ↦ max next (s + 1)) next := by
  induction messages generalizing next with
  | nil => rfl
  | cons message messages ih =>
    rw [List.foldl_cons, List.filterMap_cons]
    rcases hfield : field? message "sequence" with _ | v
    · rw [raiseSequence, countedSequence, hfield]
      exact ih next hnext
    · rw [raiseSequence, countedSequence, hfield]
      dsimp only
      by_cases hv : 0 < positiveSequence v ∧ positiveSequence v < maxSequence
      · rw [if_pos hv, List.foldl_cons, decide_eq_true hv.2, Bool.true_and]
        by_cases hlt : next < positiveSequence v + 1
        · rw [if_pos (decide_eq_true hlt), max_eq_right hlt.le]
          exact ih _ (by omega)
        · rw [if_neg (by simpa using hlt), max_eq_left (not_lt.mp hlt)]
          exact ih _ hnext
      · rw [if_neg hv]
        have hkeep : ¬((decide (positiveSequence v < maxSequence) &&
            decide (next < positiveSequence v + 1)) = true) := by
          rw [Bool.and_eq_true, decide_eq_true_eq, decide_eq_true_eq]
          intro h
          exact hv ⟨by omega, h.1⟩
        rw [if_neg hkeep]
        exact ih next hnext

theorem chatRoomNextSequence_eq (item : Json) : chatRoomNextSequence item
    = (sequencesOf item).foldl (fun next s ↦ max next (s + 1)) (counterOf item) := by
  have hcounter : (if ((field? item "next_sequence").map positiveSequence).getD 1 = 0 then 1
      else ((field? item "next_sequence").map positiveSequence).getD 1) = counterOf item := by
    unfold counterOf
    rcases field? item "next_sequence" with _ | v
    · rfl
    · cases v with
      | int n =>
        simp only [Option.map_some, Option.getD_some, positiveSequence]
        split_ifs <;> omega
      | _ => rfl
  have hpos : 1 ≤ counterOf item := by
    unfold counterOf
    split
    · exact le_max_left _ _
    · exact le_rfl
  unfold chatRoomNextSequence sequencesOf
  dsimp only
  rw [hcounter]
  rcases field? item "data" with _ | v
  · rfl
  · cases v with
    | arr messages => exact foldl_raiseSequence messages _ hpos
    | _ => rfl

theorem foldl_max_succ (l : List ℤ) (next : ℤ) :
    next ≤ l.foldl (fun next s ↦ max next (s + 1)) next ∧
      (∀ s ∈ l, s < l.foldl (fun next s ↦ max next (s + 1)) next) ∧
      (l.foldl (fun next s ↦ max next (s + 1)) next = next ∨
        l.foldl (fun next s ↦ max next (s + 1)) next - 1 ∈ l) := by
  induction l generalizing next with
  | nil => exact ⟨le_rfl, nofun, Or.inl rfl⟩
  | cons s l ih =>
    obtain ⟨hle, hall, hlast⟩ := ih (max next (s + 1))
    rw [List.foldl_cons]
    refine ⟨(le_max_left _ _).trans hle, List.forall_mem_cons.mpr ⟨?_, hall⟩, ?_⟩
    · exact Int.lt_iff_add_one_le.mpr ((le_max_right _ _).trans hle)
    · rcases hlast with heq | hmem
      · rw [heq]
        rcases le_total next (s + 1) with hs | hs
        · rw [max_eq_right hs, Int.add_sub_cancel]
          exact Or.inr List.mem_cons_self
        · exact Or.inl (max_eq_left hs)
      · exact Or.inr (List.mem_cons_of_mem _ hmem)

/-- The number proposed: at least the counter, above the history, and no larger. -/
theorem chatRoomNextSequence_spec (item : Json) :
    counterOf item ≤ chatRoomNextSequence item ∧
      (∀ s ∈ sequencesOf item, s < chatRoomNextSequence item) ∧
      (chatRoomNextSequence item = counterOf item ∨
        chatRoomNextSequence item - 1 ∈ sequencesOf item) := by
  rw [chatRoomNextSequence_eq]
  exact foldl_max_succ _ _

/-- The number proposed is the one that the counter says. -/
theorem counter_eq_iff :
    toNumber readNumber (field? item "next_sequence") = some (chatRoomNextSequence item : ℚ) ↔
      Counts readNumber item := by
  obtain ⟨hle, hall, hlast⟩ := chatRoomNextSequence_spec item
  have hcases : counterOf item = 1 ∨ ∃ n, field? item "next_sequence" = some (.int n) ∧
      1 ≤ n ∧ counterOf item = n := by
    unfold counterOf
    split
    · next n hn =>
      rcases le_total 1 n with h1 | h1
      · exact Or.inr ⟨n, hn, h1, max_eq_right h1⟩
      · exact Or.inl (max_eq_left h1)
    · exact Or.inl rfl
  have hpos : 1 ≤ counterOf item := by
    rcases hcases with h1 | ⟨n, -, h1, hn⟩
    · exact h1.ge
    · exact h1.trans hn.ge
  constructor
  · intro h
    refine ⟨_, h, hpos.trans hle, hall, ?_⟩
    rcases hlast with heq | hmem
    · rcases hcases with h1 | ⟨n, hn, -, hcounter⟩
      · exact Or.inr (Or.inl (heq.trans h1))
      · rw [heq, hcounter]
        exact Or.inl hn
    · exact Or.inr (Or.inr hmem)
  · rintro ⟨n, hn, h1, hbelow, hkind⟩
    rw [hn, Option.some.injEq, Int.cast_inj]
    -- An integer counter is the number that the script reads.
    have hcounter : counterOf item ≤ n := by
      rcases hcases with h | ⟨k, hk, -, hcounter⟩
      · exact h.le.trans h1
      · rw [hk] at hn
        rw [hcounter]
        exact (Int.cast_inj.mp (Option.some.inj hn)).le
    have hnext : chatRoomNextSequence item ≤ n := by
      rcases hlast with heq | hmem
      · exact heq.le.trans hcounter
      · have hlt := hbelow _ hmem
        omega
    refine le_antisymm ?_ hnext
    rcases hkind with hint | hone | hmem
    · have hge : n ≤ counterOf item := by
        unfold counterOf
        rw [hint]
        exact le_max_right _ _
      exact hge.trans hle
    · exact hone.le.trans (hpos.trans hle)
    · have hlt := hall _ hmem
      omega

/-! ## What the scripts accept -/

theorem writes_arrAppend (path : List Segment) (v : Json) : Writes [] (arrAppend path v) := by
  intro d
  unfold arrAppend
  rw [Query.bind_of_ok (jsonGet_run path d)]
  rcases d.find path with _ | w
  · exact writes_pure d
  · cases w with
    | arr elements =>
      have hset : Writes [] (jsonSet path (.arr (elements ++ [v]))) := writes_set path _
      exact hset d
    | _ => exact writes_pure d

/-- Storing a message comes to its end, whatever is there. -/
theorem store_run (m : Message) (next : ℚ) (users : List String) (d : Json) :
    ∃ d', store m next users d = (.ok (.stored m.toJson), d') := by
  have hwrites : Writes [] (do
      arrAppend (dataPath m.room) m.toJson
      jsonSet (nextPath m.room) (ofNumber (next + 1))
      jsonSetNew (requestsPath m.room) (.obj [])
      jsonSet (requestPath m.room m.key) (ofNumber next)) :=
    writes_bind (writes_arrAppend _ _) (writes_bind (writes_set (nextPath m.room) _)
      (writes_bind (writes_setNew (requestsPath m.room) _)
        (writes_set (requestPath m.room m.key) _)))
  obtain ⟨d₁, hrun₁, -⟩ := hwrites d
  obtain ⟨d₂, hrun₂, -⟩ := recordMentions_writes m users d₁
  obtain ⟨_, e₁, hstep₁, hrest₁⟩ := Query.bind_ok.mp hrun₁
  obtain ⟨_, e₂, hstep₂, hrest₂⟩ := Query.bind_ok.mp hrest₁
  obtain ⟨_, e₃, hstep₃, hstep₄⟩ := Query.bind_ok.mp hrest₂
  refine ⟨d₂, ?_⟩
  unfold store
  rw [Query.bind_of_ok hstep₁, Query.bind_of_ok hstep₂, Query.bind_of_ok hstep₃,
    Query.bind_of_ok hstep₄, Query.bind_of_ok hrun₂]
  rfl

variable {d : Json} {room : String} {m : Message}

theorem find_field (hitem : d.find (itemPath room) = some item) (k : String) :
    d.find (itemPath room ++ [.key k]) = field? item k := by
  rw [Json.find_append, hitem, Option.bind_some, Json.find_cons]
  exact Option.bind_fun_some _

/-- The commit script takes a new message whose number is the counter. -/
theorem commitChatMessage_stored_iff (hitem : d.find (itemPath m.room) = some item)
    (hroom : isChatRoomItem item) (hnew : truthy (d.find (requestPath m.room m.key)) = false)
    (permission : Json) (users : List String) :
    (commitChatMessage readNumber m permission users (some d)).1 = some (.stored m.toJson) ↔
      toNumber readNumber (field? item "next_sequence") = some (m.sequence : ℚ) := by
  have htype : d.find (typePath m.room) = some (.str "chat_room") :=
    (find_field hitem "type").trans (of_decide_eq_true hroom)
  have hnext : d.find (nextPath m.room) = field? item "next_sequence" := find_field hitem _
  have hscript :
      commitScript readNumber m permission users d = appendNext readNumber m users d := by
    rw [commitScript, Query.bind_of_ok (jsonGet_run _ d), hnew, if_neg Bool.false_ne_true,
      appendNew, Query.bind_of_ok (jsonGet_run _ d), htype]
    rfl
  rw [commitChatMessage, hscript, appendNext, Query.bind_of_ok (jsonGet_run _ d), hnext]
  dsimp only
  by_cases hnumber : toNumber readNumber (field? item "next_sequence") = some (m.sequence : ℚ)
  · obtain ⟨d', hstore⟩ := store_run m m.sequence users d
    rw [if_pos hnumber, hstore]
    exact iff_of_true rfl hnumber
  · rw [if_neg hnumber]
    refine iff_of_false (fun h ↦ ?_) hnumber
    have hoff := Option.some.inj h
    contradiction

/-- The append script takes a message whose number is the counter. -/
theorem appendChatMessage_ok {sequence : ℤ} {message : Json}
    (hitem : d.find (itemPath room) = some item) (hroom : isChatRoomItem item)
    (hmessage : sequenceOf readNumber message = some (sequence : ℚ))
    (hnumber : toNumber readNumber (field? item "next_sequence") = some (sequence : ℚ)) :
    (appendChatMessage readNumber room sequence message (some d)).1 = some .ok := by
  have htype : d.find (typePath room) = some (.str "chat_room") :=
    (find_field hitem "type").trans (of_decide_eq_true hroom)
  obtain ⟨d₁, hreset, hkept⟩ : ∃ d₁, resetData room d = (.ok (), d₁) ∧
      d₁.find (nextPath room) = field? item "next_sequence" := by
    have hnext : d.find (nextPath room) = field? item "next_sequence" := find_field hitem _
    obtain ⟨d₁, hrun, hframe⟩ : ∃ d₁, jsonSet (dataPath room ++ []) (.arr []) d = (.ok (), d₁) ∧
        ∀ q, Json.Apart (dataPath room) q → d₁.find q = d.find q := writes_set [] (.arr []) d
    rw [List.append_nil] at hrun
    have hreset : ∃ d₁, jsonSet (dataPath room) (.arr []) d = (.ok (), d₁) ∧
        d₁.find (nextPath room) = field? item "next_sequence" :=
      ⟨d₁, hrun, (hframe _ (apart_fields (by decide) _ [] [])).trans hnext⟩
    unfold resetData
    rw [Query.bind_of_ok (jsonGet_run _ d)]
    rcases d.find (dataPath room) with _ | w
    · exact hreset
    · cases w with
      | arr elements => exact ⟨d, rfl, hnext⟩
      | _ => exact hreset
  have hnext : nextNumber readNumber room d₁ = (.ok (sequence : ℚ), d₁) := by
    rw [nextNumber, Query.bind_of_ok (jsonGet_run _ d₁), hkept, hnumber]
    rfl
  have hwrites : Writes [] (do
      arrAppend (dataPath room) message
      jsonSet (nextPath room) (ofNumber (sequence + 1))) :=
    writes_bind (writes_arrAppend _ _) (writes_set (nextPath room) _)
  obtain ⟨d₂, hrun, -⟩ := hwrites d₁
  obtain ⟨_, e, hstep, hlast⟩ := Query.bind_ok.mp hrun
  rw [appendChatMessage, appendScript, Query.bind_of_ok (jsonGet_run _ d), htype, if_neg (by simp),
    Query.bind_of_ok hreset, Query.bind_of_ok hnext, appendNumbered, if_neg (by simp),
    if_neg (by simpa using hmessage), Query.bind_of_ok hstep, Query.bind_of_ok hlast]
  rfl

/-- **The proposed number.** A new message with the number that the handler proposes is taken by
both scripts exactly when the counter of the room can be relied on. -/
theorem proposal_accepted_iff (hitem : d.find (itemPath m.room) = some item)
    (hroom : isChatRoomItem item) (hnew : truthy (d.find (requestPath m.room m.key)) = false)
    (hsequence : m.sequence = chatRoomNextSequence item) (permission : Json) (users : List String) :
    ((commitChatMessage readNumber m permission users (some d)).1 = some (.stored m.toJson) ∧
      (appendChatMessage readNumber m.room m.sequence m.toJson (some d)).1 = some .ok) ↔
      Counts readNumber item := by
  rw [commitChatMessage_stored_iff hitem hroom hnew, ← counter_eq_iff, ← hsequence]
  constructor
  · exact And.left
  · intro hnumber
    exact ⟨hnumber, appendChatMessage_ok hitem hroom rfl hnumber⟩

end Proposal

/-- A message of a user, with some number. -/
def firstWords (sequence : ℤ) : Message where
  room := "room"
  text := "hello"
  sender := .str "ann"
  tag := .int 1
  senderId := 3
  sequence := sequence
  createdAt := 0
  request := "r"
  object := none
  mentions := []
  nodup := List.nodup_nil

/-- Another message, with the number that the handler proposes after number 6. -/
def nextWords : Message := { firstWords 7 with request := "again" }

/-- A canvas with a room of two messages, whose numbers are not next to each other. -/
def sparseCanvas (next : Json) : Json :=
  .obj [("items", .obj [("room", .obj [("type", .str "chat_room"), ("permission", .str "team"),
    ("data", .arr [(firstWords 2).toJson, (firstWords 6).toJson]), ("next_sequence", next)])])]

/-- With the counter after the last message, and with one that is behind. -/
theorem proposal_accepted_iff_sparse :
    (((commitChatMessage (fun _ ↦ none) nextWords (.str "team") []
          (some (sparseCanvas (.int 7)))).1 = some (.stored nextWords.toJson) ∧
      (appendChatMessage (fun _ ↦ none) "room" 7 nextWords.toJson
        (some (sparseCanvas (.int 7)))).1 = some .ok) ↔
      Counts (fun _ ↦ none) (((sparseCanvas (.int 7)).find (itemPath "room")).getD .null)) ∧
    (((commitChatMessage (fun _ ↦ none) nextWords (.str "team") []
          (some (sparseCanvas (.int 6)))).1 = some (.stored nextWords.toJson) ∧
      (appendChatMessage (fun _ ↦ none) "room" 7 nextWords.toJson
        (some (sparseCanvas (.int 6)))).1 = some .ok) ↔
      Counts (fun _ ↦ none) (((sparseCanvas (.int 6)).find (itemPath "room")).getD .null)) :=
  ⟨proposal_accepted_iff (m := nextWords) (by decide +kernel) (by decide +kernel)
      (by decide +kernel) (by decide +kernel) _ _,
    proposal_accepted_iff (m := nextWords) (by decide +kernel) (by decide +kernel)
      (by decide +kernel) (by decide +kernel) _ _⟩

/-- A room without a counter: the handler proposes 1, and the commit script takes no number. -/
theorem proposal_refused :
    isChatRoomItem (.obj [("type", .str "chat_room"), ("data", .arr [])]) = true ∧
      chatRoomNextSequence (.obj [("type", .str "chat_room"), ("data", .arr [])]) = 1 ∧
      commitChatMessage (fun _ ↦ none) (firstWords 1) (.str "team") []
          (some (.obj [("items", .obj [("room", .obj [("type", .str "chat_room"),
            ("data", .arr [])])])])) =
        (some .sequenceConflict, some (.obj [("items", .obj [("room", .obj [
          ("type", .str "chat_room"), ("data", .arr [])])])])) :=
  ⟨by decide +kernel, by decide +kernel, by decide +kernel⟩

end Chat

end Agora
