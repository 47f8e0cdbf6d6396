import Agora.Chat.Script

/-!
# Pages of a chat history

The script that reads a part of a chat history: the latest messages, those from or up to some
number, or those in between. Messages are looked up by their position first; when the positions and
the numbers do not agree, the whole history is sorted by number.
-/

namespace Agora

namespace Chat

open Script Broker

/-- How much of a chat history is asked for. -/
structure PageRequest where
  room : String
  fromSequence : Option ℕ
  toSequence : Option ℕ
  limit : ℕ

/-- The positions a page covers in a history of some length, and whether there are more messages
in the direction of reading. -/
structure Window where
  start : ℤ
  stop : ℤ
  more : Bool

def PageRequest.window (r : PageRequest) (total : ℤ) : Window :=
  match r.fromSequence, r.toSequence with
  | none, none =>
    let start := max 0 (total - r.limit)
    ⟨start, total, decide (0 < start)⟩
  | some n, none =>
    let start := min total (n - 1)
    let stop := min total (start + r.limit)
    ⟨start, stop, decide (stop < total)⟩
  | none, some n =>
    let stop := min total n
    let start := max 0 (stop - r.limit)
    ⟨start, stop, decide (0 < start)⟩
  | some n, some n' =>
    let start := min total (n - 1)
    let stop := min total n'
    ⟨start, max start stop, false⟩

/-- A part of an array; a negative start counts from the end. -/
def slice (elements : List Json) (start stop : ℤ) : List Json :=
  let start := if start < 0 then max 0 (elements.length + start) else start
  (elements.take stop.toNat).drop start.toNat

variable (readNumber : String → Option ℚ)

/-- The number of a message, where it is a table with one. -/
def sequenceOf : Json → Option ℚ
  | .obj fields => toNumber readNumber (fields.lookup "sequence")
  | _ => none

/-- Whether messages carry the numbers of their positions, from some position on. -/
def contiguousFrom (start : ℤ) : List Json → Bool
  | [] => true
  | message :: l =>
    decide (sequenceOf readNumber message = some ((start + 1 : ℤ) : ℚ)) &&
      contiguousFrom (start + 1) l

def contiguous (w : Window) (messages : List Json) : Bool :=
  decide ((messages.length : ℤ) = w.stop - w.start) && contiguousFrom readNumber w.start messages

/-- The messages with a positive number, sorted by it. -/
def sortedRows (data : List Json) : List (ℚ × Json) :=
  (data.filterMap fun message ↦
    match sequenceOf readNumber message with
    | some n => if 0 < n then some (n, message) else none
    | none => none).insertionSort fun a b ↦ a.1 ≤ b.1

/-- The rows of a page, and whether there are more. -/
def PageRequest.select (r : PageRequest) (rows : List (ℚ × Json)) : List (ℚ × Json) × Bool :=
  match r.fromSequence, r.toSequence with
  | none, none => (rows.drop (rows.length - r.limit), decide (r.limit < rows.length))
  | some n, none =>
    let candidates := rows.filter fun row ↦ (n : ℚ) ≤ row.1
    (candidates.take r.limit, decide (r.limit < candidates.length))
  | none, some n =>
    let candidates := rows.filter fun row ↦ row.1 ≤ (n : ℚ)
    (candidates.drop (candidates.length - r.limit), decide (r.limit < candidates.length))
  | some n, some n' =>
    (rows.filter fun row ↦ (n : ℚ) ≤ row.1 ∧ row.1 ≤ (n' : ℚ), false)

/-- A list as the Lua codec writes it: an empty one turns into an object. -/
def listJson : List Json → Json
  | [] => .obj []
  | elements => .arr elements

/-- A page. Its ends are the numbers of its first and last messages, or else its positions. -/
def pageJson (total : ℤ) (messages : List Json) (more : Bool) (start stop : ℚ) : Json :=
  .obj ([("total", .int total), ("messages", listJson messages), ("has_more", .bool more)] ++
    match messages.head?, messages.getLast? with
    | some first, some last =>
      [("from_sequence", ofNumber ((sequenceOf readNumber first).getD (start + 1))),
        ("to_sequence", ofNumber ((sequenceOf readNumber last).getD stop))]
    | _, _ => [])

/-- The elements of a table that is visited as an array. -/
def tableElements : Option Json → Option (List Json)
  | none | some (.bool false) => some []
  | some (.arr elements) => some elements
  | some (.obj _) => some []
  | _ => none

/-- The page from a history whose positions cannot be relied on. -/
def sortedPage (r : PageRequest) (data : List Json) : Json :=
  let rows := sortedRows readNumber data
  let selected := r.select rows
  let start := (selected.1.head?.map fun row ↦ row.1 - 1).getD 0
  let stop := (selected.1.getLast?.map Prod.fst).getD 0
  pageJson readNumber rows.length (selected.1.map Prod.snd) selected.2 start stop

/-- The messages that have a position. -/
def positioned : Option Json → List Json
  | some (.arr elements) => elements
  | _ => []

/-- The page from what is stored under `data`; none when that cannot be visited. -/
def pageOf (r : PageRequest) (data : Option Json) : Option Json :=
  let elements := positioned data
  let w := r.window elements.length
  let messages := slice elements w.start w.stop
  if contiguous readNumber w messages then
    some (pageJson readNumber elements.length messages w.more w.start w.stop)
  else (tableElements data).map (sortedPage readNumber r)

/-- The script; no page when there is no chat room, or no history in it. -/
def pageScript (r : PageRequest) : Script (Option Json) := do
  let type ← jsonGet (typePath r.room)
  if type ≠ some (.str "chat_room") then return none
  else return pageOf readNumber r (← jsonGet (dataPath r.room))

/-- Reading a page changes nothing. -/
theorem pageScript_run (r : PageRequest) (d : Json) : (pageScript readNumber r d).2 = d := by
  unfold pageScript
  rw [Query.bind_of_ok (jsonGet_run _ d)]
  split
  · rfl
  · rfl

/-- The script on a key. -/
def readChatPage (r : PageRequest) : Option Json → Option Json
  | none => none
  | some d => (pageScript readNumber r d).1.toOption.join

end Chat

end Agora
