import Agora.Resp.Transport

/-!
# The reader of replies

The client reads a reply from its connection: a line, then what the line announces. It closes the
connection at whatever it cannot read, and gives up the answer with it. The nesting of arrays has
no bound of its own; the reader goes no deeper than there are bytes (`readResponse_eq`).
-/

namespace Agora

namespace Resp

open Transport

def kMaximumRedisBulkReplyBytes : ℕ := 256 * 1024 * 1024

def kMaximumRedisArrayElements : ℕ := 1000000

def kRedisErrorMarker : UInt8 := 1

/-- What a line may have before its end. -/
def lineLimit : ℕ := 64 * 1024

/-- A connection with what is still to arrive on it, none when it is closed. -/
abbrev Connection := Option (Stream UInt8)

def bytes (text : String) : List UInt8 := text.toList.map Char.toUInt8

def isspace (c : UInt8) : Bool := c = ' '.toUInt8 || ('\t'.toUInt8 ≤ c && c ≤ '\r'.toUInt8)

def isdigit (c : UInt8) : Bool := '0'.toUInt8 ≤ c && c ≤ '9'.toUInt8

/-- The value of a run of digits. -/
def decimal (digits : List UInt8) : ℕ :=
  digits.foldl (fun value c ↦ value * 10 + (c.toNat - '0'.toNat)) 0

/-- The sign of a number and what stands after it. -/
def signed : List UInt8 → Bool × List UInt8
  | [] => (false, [])
  | c :: digits =>
    if c = '-'.toUInt8 then (true, digits)
    else if c = '+'.toUInt8 then (false, digits)
    else (false, c :: digits)

/-- `std::stoll` of the whole text; no value when a part of the text is left, or when it does not
fit in 64 bits. -/
def parseRespLength (text : List UInt8) : Option ℤ :=
  let (negative, digits) := signed (text.dropWhile isspace)
  let value : ℤ := if negative then -decimal digits else decimal digits
  if digits.isEmpty || !digits.all isdigit then none
  else if value < -9223372036854775808 ∨ 9223372036854775807 < value then none
  else some value

/-- A line without its end, where the bytes after the first are read by `readRest`. No line when a
read fails, and when a carriage return stands alone. -/
def readLineWith (readRest : Stream UInt8 → Option (List UInt8 × Stream UInt8))
    (t : Stream UInt8) : Option (List UInt8 × Stream UInt8) :=
  let (received, t) := t.read 1
  match received with
  | [c] =>
    if c = '\r'.toUInt8 then
      let (next, t) := t.read 1
      if next = ['\n'.toUInt8] then some ([], t) else none
    else (readRest t).map fun (line, t) ↦ (c :: line, t)
  | _ => none

/-- A line with so much room for its bytes. -/
def readLine : ℕ → Stream UInt8 → Option (List UInt8 × Stream UInt8)
  | 0 => readLineWith fun _ ↦ none
  | room + 1 => readLineWith (readLine room)

/-- A string of a given length and the end of its line. -/
def readBulk (length : ℕ) (t : Stream UInt8) : List UInt8 × Connection :=
  let result := t.readExact length
  let crlf := result.2.readExact 2
  if result.1.length ≠ length || crlf.1 ≠ ['\r'.toUInt8, '\n'.toUInt8] then ([], none)
  else (result.1, some crlf.2)

/-- The elements of an array, with blanks between them. -/
def readItems (readResponse : Connection → List UInt8 × Connection) :
    Bool → ℕ → Connection → List UInt8 × Connection
  | _, 0, conn => ([], conn)
  | first, count + 1, conn =>
    let item := readResponse conn
    let rest := readItems readResponse false count item.2
    ((if first then [] else [' '.toUInt8]) ++ item.1 ++ rest.1, rest.2)

/-- What an announced length stands for: a null, or so many as `readMany` reads. A length that is
none, or beyond its limit, closes the connection. -/
def readAnnounced (limit : ℕ) (length : List UInt8) (t : Stream UInt8)
    (readMany : ℕ → List UInt8 × Connection) : List UInt8 × Connection :=
  match parseRespLength length with
  | none => ([], none)
  | some parsed =>
    if parsed < -1 ∨ limit < parsed then ([], none)
    else if parsed = -1 then ([], some t)
    else readMany parsed.toNat

/-- What follows a line with its type, where the elements of an array are read by `readResponse`. -/
def readTyped (readResponse : Connection → List UInt8 × Connection) (type : UInt8)
    (rest : List UInt8) (t : Stream UInt8) : List UInt8 × Connection :=
  if type = '-'.toUInt8 then
    if bytes "READONLY" <+: rest ∨ bytes "MASTERDOWN" <+: rest then
      (kRedisErrorMarker :: rest, none)
    else (kRedisErrorMarker :: rest, some t)
  else if type = '+'.toUInt8 ∨ type = ':'.toUInt8 then (rest, some t)
  else if type = '$'.toUInt8 then
    readAnnounced kMaximumRedisBulkReplyBytes rest t fun length ↦ readBulk length t
  else if type = '*'.toUInt8 then
    readAnnounced kMaximumRedisArrayElements rest t fun count ↦
      readItems readResponse true count (some t)
  else (type :: rest, some t)

/-- A reply, where the elements of an array are read by `readResponse`. -/
def readWith (readResponse : Connection → List UInt8 × Connection) :
    Connection → List UInt8 × Connection
  | none => ([], none)
  | some t =>
    match readLine lineLimit t with
    | none => ([], none)
    | some ([], t) => ([], some t)
    | some (type :: rest, t) => readTyped readResponse type rest t

/-- A reply whose arrays are nested at most so deep. -/
def readDepth : ℕ → Connection → List UInt8 × Connection
  | 0, _ => ([], none)
  | depth + 1, conn => readWith (readDepth depth) conn

/-- More than what is still to arrive. -/
def depthOf : Connection → ℕ
  | none => 0
  | some t => t.size + 1

def readResponse (conn : Connection) : List UInt8 × Connection := readDepth (depthOf conn) conn

/-- Send a command and read its reply; `sent` is the connection once the command is out. -/
def execute (sent : Connection) : Option (List UInt8) × Connection :=
  match sent with
  | none => (none, none)
  | some t =>
    match readResponse (some t) with
    | (_, none) => (none, none)
    | (response, some t) => (some response, some t)

/-! ## The depth suffices -/

/-- What a line that was read began with: its end, or a byte before the rest of it. -/
theorem readLineWith_cases {readRest : Stream UInt8 → Option (List UInt8 × Stream UInt8)}
    {t t' : Stream UInt8} {line : List UInt8} (h : readLineWith readRest t = some (line, t')) :
    ((t.read 1).1 = ['\r'.toUInt8] ∧ ((t.read 1).2.read 1).1 = ['\n'.toUInt8] ∧ line = [] ∧
      t' = ((t.read 1).2.read 1).2) ∨
    ∃ c line', (t.read 1).1 = [c] ∧ c ≠ '\r'.toUInt8 ∧ line = c :: line' ∧
      readRest (t.read 1).2 = some (line', t') := by
  rw [readLineWith] at h
  dsimp only at h
  split at h
  · next c hc =>
    split at h
    · next hend =>
      split at h
      · next hnext =>
        obtain ⟨rfl, rfl⟩ := Prod.mk.inj (Option.some.inj h)
        exact Or.inl ⟨hend ▸ hc, hnext, rfl, rfl⟩
      · nomatch h
    · next hend =>
      obtain ⟨⟨line', t''⟩, hread, heq⟩ := Option.map_eq_some_iff.mp h
      obtain ⟨rfl, rfl⟩ := Prod.mk.inj heq
      exact Or.inr ⟨c, line', hc, hend, rfl, hread⟩
  · nomatch h

theorem size_readLine_lt {room : ℕ} {t t' : Stream UInt8} {line : List UInt8}
    (h : readLine room t = some (line, t')) : t'.size < t.size := by
  have hline {readRest : Stream UInt8 → Option (List UInt8 × Stream UInt8)} {t : Stream UInt8}
      {line : List UInt8} (h : readLineWith readRest t = some (line, t'))
      (hrest : ∀ line, readRest (t.read 1).2 = some (line, t') → t'.size ≤ (t.read 1).2.size) :
      t'.size < t.size := by
    have hfirst := t.size_read_add_le 1
    obtain ⟨hc, -, -, rfl⟩ | ⟨c, line', hc, -, -, hread⟩ := readLineWith_cases h
    · have hsecond := (t.read 1).2.size_read_le 1
      rw [hc, List.length_singleton] at hfirst
      omega
    · have hle := hrest line' hread
      rw [hc, List.length_singleton] at hfirst
      omega
  induction room generalizing t line with
  | zero => exact hline h fun _ hnone ↦ nomatch hnone
  | succ room ih => exact hline h fun _ hread ↦ (ih hread).le

theorem depthOf_readBulk_le (length : ℕ) (t : Stream UInt8) :
    depthOf (readBulk length t).2 ≤ depthOf (some t) := by
  rw [readBulk]
  split
  · exact Nat.zero_le _
  · have hresult := t.size_readExact_le length
    have hcrlf := (t.readExact length).2.size_readExact_le 2
    rw [depthOf, depthOf]
    omega

theorem depthOf_readAnnounced_le {limit : ℕ} {length : List UInt8} {t : Stream UInt8}
    {readMany : ℕ → List UInt8 × Connection}
    (h : ∀ n, depthOf (readMany n).2 ≤ depthOf (some t)) :
    depthOf (readAnnounced limit length t readMany).2 ≤ depthOf (some t) := by
  rw [readAnnounced]
  split
  · exact Nat.zero_le _
  · split
    · exact Nat.zero_le _
    · split
      · exact le_refl _
      · exact h _

theorem depthOf_readItems_le {read : Connection → List UInt8 × Connection}
    (h : ∀ conn, depthOf (read conn).2 ≤ depthOf conn) (first : Bool) (count : ℕ)
    (conn : Connection) : depthOf (readItems read first count conn).2 ≤ depthOf conn := by
  induction count generalizing first conn with
  | zero => exact le_refl _
  | succ count ih =>
    rw [readItems]
    exact (ih false _).trans (h conn)

theorem depthOf_readWith_le {read : Connection → List UInt8 × Connection}
    (h : ∀ conn, depthOf (read conn).2 ≤ depthOf conn) (conn : Connection) :
    depthOf (readWith read conn).2 ≤ depthOf conn := by
  match conn with
  | none => exact le_refl _
  | some t =>
    rw [readWith.eq_def]
    dsimp only
    split
    · exact Nat.zero_le _
    · next hline => exact (Nat.succ_lt_succ (size_readLine_lt hline)).le
    · next t' hline =>
      have hle : depthOf (some t') ≤ depthOf (some t) :=
        (Nat.succ_lt_succ (size_readLine_lt hline)).le
      refine le_trans ?_ hle
      rw [readTyped]
      split
      · split
        · exact Nat.zero_le _
        · exact le_refl _
      · split
        · exact le_refl _
        · split
          · exact depthOf_readAnnounced_le fun length ↦ depthOf_readBulk_le length t'
          · split
            · exact depthOf_readAnnounced_le fun count ↦ depthOf_readItems_le h true count _
            · exact le_refl _

theorem depthOf_readDepth_le (depth : ℕ) (conn : Connection) :
    depthOf (readDepth depth conn).2 ≤ depthOf conn := by
  induction depth generalizing conn with
  | zero => exact Nat.zero_le _
  | succ depth ih => exact depthOf_readWith_le ih conn

/-- Two readers of elements that agree where less is to arrive read the same arrays. -/
theorem readItems_congr {read read' : Connection → List UInt8 × Connection} {bound : ℕ}
    (hle : ∀ conn, depthOf (read conn).2 ≤ depthOf conn)
    (h : ∀ conn, depthOf conn ≤ bound → read conn = read' conn) (first : Bool) (count : ℕ)
    {conn : Connection} (hconn : depthOf conn ≤ bound) :
    readItems read first count conn = readItems read' first count conn := by
  induction count generalizing first conn with
  | zero => rfl
  | succ count ih =>
    rw [readItems, readItems, ← h conn hconn, ih false ((hle conn).trans hconn)]

theorem readWith_congr {read read' : Connection → List UInt8 × Connection} {bound : ℕ}
    (hle : ∀ conn, depthOf (read conn).2 ≤ depthOf conn)
    (h : ∀ conn, depthOf conn ≤ bound → read conn = read' conn)
    {conn : Connection} (hconn : depthOf conn ≤ bound + 1) :
    readWith read conn = readWith read' conn := by
  match conn with
  | none => rfl
  | some t =>
    rw [readWith.eq_def, readWith.eq_def]
    dsimp only
    split
    · rfl
    · rfl
    · next t' hline =>
      have hlt := size_readLine_lt hline
      have ht : depthOf (some t') ≤ bound := by
        rw [depthOf] at hconn ⊢
        omega
      have hitems (count : ℕ) := readItems_congr hle h true count ht
      simp only [readTyped, hitems]

theorem readDepth_succ {depth : ℕ} {conn : Connection} (h : depthOf conn ≤ depth) :
    readDepth depth conn = readDepth (depth + 1) conn := by
  induction depth generalizing conn with
  | zero =>
    match conn with
    | none => rfl
    | some t => exact absurd h (Nat.not_succ_le_zero _)
  | succ depth ih =>
    exact readWith_congr (depthOf_readDepth_le depth) (fun conn hconn ↦ ih hconn) h

/-- At any depth that suffices the reader reads the same. -/
theorem readDepth_eq {depth : ℕ} {conn : Connection} (h : depthOf conn ≤ depth) :
    readDepth depth conn = readResponse conn := by
  induction depth, h using Nat.le_induction with
  | base => rfl
  | succ depth h ih => rw [← readDepth_succ h, ih]

/-- **The reader calls itself** for the elements of arrays, at whatever depth. -/
theorem readResponse_eq (conn : Connection) :
    readResponse conn = readWith readResponse conn := by
  rw [← readDepth_eq (Nat.le_succ (depthOf conn))]
  exact readWith_congr (depthOf_readDepth_le _) (fun conn' h ↦ readDepth_eq h) (Nat.le_succ _)

end Resp

end Agora
