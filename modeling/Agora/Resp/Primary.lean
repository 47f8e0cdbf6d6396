import Agora.Resp.Commands

/-!
# Commands go to the primary

A client without a connection asks the Sentinels, one after the other, which node is the master, and
connects to that node; it says who it is, and asks the node for its role before it uses the
connection. Sentinels may be wrong during a failover, nodes change their roles, and any reply may be
cut off.

The connections of the past are kept with what was said on them.
-/

namespace Agora

namespace Resp

open Transport

/-! ## Refusals -/

/-- An error that says that the node is not the master any more. -/
def Line.refuses (line : Line) : Bool :=
  decide (bytes "READONLY" <+: line.text ∨ bytes "MASTERDOWN" <+: line.text)

mutual

/-- A reply with such an error in it. -/
def Reply.refuses : Reply → Bool
  | .error line => line.refuses
  | .array items => anyRefuses items
  | .simple _ | .integer _ | .bulk _ | .nil | .nilArray => false

def anyRefuses : List Reply → Bool
  | [] => false
  | reply :: replies => reply.refuses || anyRefuses replies

end

theorem closed_of_line {type : UInt8} {rest announced lost : List UInt8} {t : Stream UInt8}
    {read : Connection → List UInt8 × Connection} (hline : '\r'.toUInt8 ∉ type :: rest)
    (hbytes : t.bytes ++ lost = (type :: rest) ++ crlf ++ announced)
    (h : ∀ t', t'.bytes ++ lost = announced → (readTyped read type rest t').2 = none) :
    (readWith read (some t)).2 = none := by
  rw [readWith]
  rcases hread : readLine lineLimit t with _ | ⟨line, t'⟩
  · rfl
  · obtain ⟨rfl, hannounced⟩ := of_readLine hread hline hbytes
    exact h t' hannounced

mutual

/-- The connection is closed at a refusal, wherever it stands in the reply. -/
theorem closed_of_refuses (reply : Reply) {t : Stream UInt8} {following lost : List UInt8}
    (h : t.bytes ++ lost = reply.encode ++ following) (hrefuses : reply.refuses = true) :
    (readResponse (some t)).2 = none := by
  rw [readResponse_eq]
  match reply with
  | .error line =>
    refine closed_of_line (line.notMem_cons (by decide)) h fun t' ht' ↦ ?_
    have hdown : bytes "READONLY" <+: line.text ∨ bytes "MASTERDOWN" <+: line.text :=
      of_decide_eq_true hrefuses
    rw [readTyped, if_pos rfl, if_pos hdown]
  | .array items =>
    rw [Reply.encode, List.append_assoc] at h
    refine closed_of_line (return_notMem_length _ (by decide)) h fun t' ht' ↦ ?_
    rw [readTyped_array]
    split
    · exact closed_of_anyRefuses items true ht' hrefuses
    · rfl
  | .simple _ | .integer _ | .bulk _ | .nil | .nilArray => cases hrefuses
theorem closed_of_anyRefuses (replies : List Reply) (first : Bool) {t : Stream UInt8}
    {following lost : List UInt8} (h : t.bytes ++ lost = encodeAll replies ++ following)
    (hrefuses : anyRefuses replies = true) :
    (readItems readResponse first replies.length (some t)).2 = none := by
  match replies with
  | [] => cases hrefuses
  | reply :: replies =>
    rw [encodeAll, List.append_assoc] at h
    rw [List.length_cons, readItems]
    rcases (reads reply h).in_step with hclosed | ⟨t', hread, hrest⟩
    · rw [hclosed]
      exact readItems_none _ _
    · rcases (Bool.or_eq_true _ _).mp hrefuses with hrefuses | hrefuses
      · rw [closed_of_refuses reply h hrefuses]
        exact readItems_none _ _
      · rw [hread]
        exact closed_of_anyRefuses replies false hrest hrefuses

end

/-! ## The client -/

/-- What the client is configured with. -/
structure Config where
  user : List UInt8
  password : List UInt8
  sentinelMasterName : List UInt8
  sentinelUser : List UInt8
  sentinelPassword : List UInt8
  sentinelSeeds : List (List UInt8 × ℤ)
  tlsEnabled : Bool
  tlsConfigValid : Bool

/-- What becomes of a connection that is opened: how the writes go, and what arrives. The replies
are those that the node means to send. -/
structure Dial where
  writes : List ℕ
  arrivals : Stream UInt8
  replies : List Reply := []

/-- What was said on a connection: commands of the handshake, commands of the callers, replies. -/
inductive Event where
  | asked (command : List (List UInt8))
  | executed (command : List (List UInt8))
  | answered (reply : List UInt8)
  deriving DecidableEq

/-- The command of an event, the command of a caller, and the reply. -/
def Event.command : Event → Option (List (List UInt8))
  | asked command | executed command => some command
  | answered _ => none

def Event.own : Event → Option (List (List UInt8))
  | executed command => some command
  | asked _ | answered _ => none

def Event.reply : Event → Option (List UInt8)
  | answered reply => some reply
  | asked _ | executed _ => none

/-- A connection, open or closed, with the bytes that the node has received. -/
structure Link where
  host : List UInt8
  port : ℤ
  dial : Dial
  writes : List ℕ
  arrivals : Stream UInt8
  received : List UInt8 := []
  history : List Event := []

/-- The client: its open connection, the connections that it has closed, and what will become of
those that it opens. -/
structure RedisClient where
  link : Option Link := none
  past : List Link := []
  dials : List (Option Dial) := []

/-! ## Numbers and words in replies -/

/-- The next word of a text and what stands after it; no word is the empty one. -/
def nextWord (text : List UInt8) : List UInt8 × List UInt8 :=
  let text := text.dropWhile isspace
  (text.takeWhile fun c ↦ !isspace c, text.dropWhile fun c ↦ !isspace c)

/-- The next number of a text. -/
def nextInt (text : List UInt8) : Option ℤ :=
  let (negative, digits) := signed (text.dropWhile isspace)
  let digits := digits.takeWhile isdigit
  let value : ℤ := if negative then -decimal digits else decimal digits
  if digits.isEmpty || decide (value < -2147483648) || decide (2147483647 < value) then none
  else some value

/-- The address in the reply of a Sentinel. -/
def masterAddress (reply : List UInt8) : Option (List UInt8 × ℤ) :=
  let (host, rest) := nextWord reply
  match nextInt rest with
  | some port =>
    if host.isEmpty || decide (port ≤ 0) || decide (65535 < port) then none else some (host, port)
  | none => none

namespace RedisClient

variable (c : RedisClient)

/-- All connections, the open one last. -/
def links : List Link := c.past ++ c.link.toList

def disconnect : RedisClient := { c with link := none, past := c.links }

/-- Open a connection, if the network lets us. -/
def connectTo (host : List UInt8) (port : ℤ) : Bool × RedisClient :=
  let c := c.disconnect
  match c.dials with
  | some dial :: dials =>
    (true, { c with
      link := some { host, port, dial, writes := dial.writes, arrivals := dial.arrivals }
      dials })
  | none :: dials => (false, { c with dials })
  | [] => (false, c)

/-- Write a command on the open connection. The handshake has one whenever it writes
(`not_cutOff_ok`), so that it never begins another. -/
def send (event : List (List UInt8) → Event) (command : List (List UInt8)) : Bool × RedisClient :=
  match c.link with
  | none => (false, c)
  | some link =>
    let r := writeAll link.writes (encodeCommand command)
    let c : RedisClient :=
      { c with
        link := some { link with
          writes := r.2.2
          received := link.received ++ r.1
          history := link.history ++ [event command] } }
    if r.2.1 then (true, c) else (false, c.disconnect)

/-- Read a reply from the open connection. -/
def read : List UInt8 × RedisClient :=
  match c.link with
  | none => ([], c)
  | some link =>
    let r := readResponse (some link.arrivals)
    let link := { link with history := link.history ++ [.answered r.1] }
    match r.2 with
    | some arrivals => (r.1, { c with link := some { link with arrivals } })
    | none => (r.1, { c with link := some link }.disconnect)

end RedisClient

namespace Config

variable (config : Config)

/-- The login at a Sentinel. -/
def sentinelAuth : List (List UInt8) := [bytes "AUTH", config.sentinelUser, config.sentinelPassword]

def masterQuery : List (List UInt8) :=
  [bytes "SENTINEL", bytes "get-master-addr-by-name", config.sentinelMasterName]

/-- The login at a node. -/
def auth : List (List UInt8) :=
  if config.user.isEmpty then [bytes "AUTH", config.password]
  else [bytes "AUTH", config.user, config.password]

def role : List (List UInt8) := [bytes "ROLE"]

/-- Ask a Sentinel for the master. -/
def askSentinel (seed : List UInt8 × ℤ) (c : RedisClient) :
    Option (List UInt8 × ℤ) × RedisClient :=
  let dialed := c.disconnect.connectTo seed.1 seed.2
  if !dialed.1 then (none, dialed.2)
  else
    let sent := dialed.2.send .asked config.sentinelAuth
    if !sent.1 then (none, sent.2.disconnect)
    else
      let reply := sent.2.read
      if reply.1 ≠ bytes "OK" then (none, reply.2.disconnect)
      else
        let sent := reply.2.send .asked config.masterQuery
        if !sent.1 then (none, sent.2.disconnect)
        else
          let reply := sent.2.read
          (masterAddress reply.1, reply.2.disconnect)

/-- Log in at a node. -/
def authenticate (c : RedisClient) : Bool × RedisClient :=
  let sent := c.send .asked config.auth
  if !sent.1 then (false, sent.2)
  else
    let reply := sent.2.read
    if reply.1 ≠ bytes "OK" then (false, reply.2.disconnect) else (true, reply.2)

/-- Connect to a node, and keep the connection when the node says that it is the master. -/
def connectMaster (address : List UInt8 × ℤ) (c : RedisClient) : Bool × RedisClient :=
  let dialed := c.connectTo address.1 address.2
  if !dialed.1 then (false, dialed.2)
  else
    let login := config.authenticate dialed.2
    if !login.1 then (false, login.2)
    else
      let sent := login.2.send .asked role
      if !sent.1 then (false, sent.2)
      else
        let reply := sent.2.read
        if (nextWord reply.1).1 = bytes "master" then (true, reply.2)
        else (false, reply.2.disconnect)

/-- The Sentinels one after the other, until one leads to the master. -/
def discover : List (List UInt8 × ℤ) → RedisClient → Bool × RedisClient
  | [], c => (false, c.disconnect)
  | seed :: seeds, c =>
    match config.askSentinel seed c with
    | (none, c) => discover seeds c
    | (some address, c) =>
      match config.connectMaster address c with
      | (true, c) => (true, c)
      | (false, c) => discover seeds c

/-- All Sentinels, three times. -/
def attempts : List (List UInt8 × ℤ) :=
  config.sentinelSeeds ++ config.sentinelSeeds ++ config.sentinelSeeds

def connect (c : RedisClient) : Bool × RedisClient :=
  if c.link.isSome then (true, c)
  else if config.password.isEmpty then (false, c)
  else if config.tlsEnabled && !config.tlsConfigValid then (false, c)
  else if config.sentinelSeeds.isEmpty then (false, c)
  else if config.sentinelUser.isEmpty || config.sentinelPassword.isEmpty then (false, c)
  else config.discover config.attempts c

/-- Write a command of a caller, on a new connection when there is none. -/
def sendCommand (command : List (List UInt8)) (c : RedisClient) : Bool × RedisClient :=
  if c.link.isSome then c.send .executed command
  else
    let r := config.connect c
    if r.1 then r.2.send .executed command else (false, r.2)

def ping (c : RedisClient) : Bool × RedisClient :=
  let sent := config.sendCommand [bytes "PING"] c
  if !sent.1 then (false, sent.2)
  else (sent.2.read.1 = bytes "PONG", sent.2.read.2)

def execute (command : List (List UInt8)) (c : RedisClient) : Option (List UInt8) × RedisClient :=
  let sent := config.sendCommand command c
  if !sent.1 then (none, sent.2)
  else
    let reply := sent.2.read
    (if reply.2.link.isNone then none else some reply.1, reply.2)

end Config

/-! ## A reply that was cut off

No reply that the handshake goes on after is one of these, so that the handshake has its connection
whenever it writes. -/

/-- What can be read before a connection is closed. -/
def CutOff (text : List UInt8) : Prop :=
  text = [] ∨ text.head? = some kRedisErrorMarker ∨ ' '.toUInt8 ∈ text

theorem readItems_cutOff {read : Connection → List UInt8 × Connection}
    (hread : ∀ conn, (read conn).2 = none → CutOff (read conn).1) (count : ℕ) (conn : Connection)
    (h : (readItems read true count conn).2 = none) :
    CutOff (readItems read true count conn).1 := by
  rcases count with _ | _ | count
  · exact Or.inl rfl
  · change CutOff ([] ++ (read conn).1 ++ [])
    rw [List.append_nil]
    exact hread conn h
  · -- there is a blank before the second element
    refine Or.inr (Or.inr ?_)
    rw [readItems, readItems]
    apply List.mem_append_right
    exact List.mem_append_left _ (List.mem_append_left _ List.mem_cons_self)

theorem readAnnounced_cutOff {limit : ℕ} {length : List UInt8} {t : Stream UInt8}
    {readMany : ℕ → List UInt8 × Connection}
    (hread : ∀ n, (readMany n).2 = none → CutOff (readMany n).1)
    (h : (readAnnounced limit length t readMany).2 = none) :
    CutOff (readAnnounced limit length t readMany).1 := by
  rw [readAnnounced] at h ⊢
  rcases hlength : parseRespLength length with _ | parsed
  · exact Or.inl rfl
  rw [hlength] at h
  dsimp only at h ⊢
  split
  · exact Or.inl rfl
  · next hlimit =>
    rw [if_neg hlimit] at h
    split
    · exact Or.inl rfl
    · next hsome =>
      rw [if_neg hsome] at h
      exact hread _ h

theorem readTyped_cutOff {read : Connection → List UInt8 × Connection}
    (hread : ∀ conn, (read conn).2 = none → CutOff (read conn).1) {type : UInt8}
    {rest : List UInt8} {t : Stream UInt8} (h : (readTyped read type rest t).2 = none) :
    CutOff (readTyped read type rest t).1 := by
  rw [readTyped] at h ⊢
  -- Only a bulk string and an array go on after their line, so that the end can come within them.
  by_cases herror : type = '-'.toUInt8
  · rw [if_pos herror] at h ⊢
    split
    · exact Or.inr (Or.inl rfl)
    · exact Or.inr (Or.inl rfl)
  rw [if_neg herror] at h ⊢
  by_cases hline : type = '+'.toUInt8 ∨ type = ':'.toUInt8
  · rw [if_pos hline] at h
    cases h
  rw [if_neg hline] at h ⊢
  by_cases hbulk : type = '$'.toUInt8
  · rw [if_pos hbulk] at h ⊢
    refine readAnnounced_cutOff (fun length hclosed ↦ ?_) h
    rw [readBulk] at hclosed ⊢
    split
    · exact Or.inl rfl
    · next hwhole =>
      rw [if_neg hwhole] at hclosed
      cases hclosed
  rw [if_neg hbulk] at h ⊢
  by_cases harray : type = '*'.toUInt8
  · rw [if_pos harray] at h ⊢
    exact readAnnounced_cutOff (fun count ↦ readItems_cutOff hread count _) h
  · rw [if_neg harray] at h
    cases h

theorem readDepth_cutOff (depth : ℕ) (conn : Connection) (h : (readDepth depth conn).2 = none) :
    CutOff (readDepth depth conn).1 := by
  induction depth generalizing conn with
  | zero => exact Or.inl rfl
  | succ depth ih =>
    rw [readDepth, readWith.eq_def] at h ⊢
    rcases conn with _ | t
    · exact Or.inl rfl
    dsimp only at h ⊢
    rcases hline : readLine lineLimit t with _ | ⟨_ | ⟨type, rest⟩, t'⟩
    · exact Or.inl rfl
    · exact Or.inl rfl
    · rw [hline] at h
      exact readTyped_cutOff ih h

theorem readResponse_cutOff {conn : Connection} (h : (readResponse conn).2 = none) :
    CutOff (readResponse conn).1 :=
  readDepth_cutOff _ conn h

theorem not_cutOff_ok : ¬CutOff (bytes "OK") := by
  rw [CutOff]
  decide +kernel

end Resp

end Agora
