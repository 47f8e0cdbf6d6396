import Agora.Broker.Framing
import Mathlib.Algebra.BigOperators.Ring.Finset
import Mathlib.Algebra.Order.Ring.Int

/-!
# Replies to the broker

The replies of a connection wait in a queue and go out in fragments, as far as the socket takes
them; the front of the queue remembers how much of it is out. A frame that meets backpressure is
out nevertheless, a frame that is dropped is not. The sizes of all waiting replies are counted.

**Main result.** `replies_framed`: over every run, the frames of a connection are the replies that
the events have brought for it, in their order, each one message, up to where they stand, and the
count is what waits.
-/

namespace Agora

namespace BrokerSocket

open Framing

structure Reply where
  data : List UInt8
  offset : ℕ

/-- What a send comes to. -/
inductive Status where
  | success
  | backpressure
  | dropped
  deriving DecidableEq, Repr

/-- What the loop meets in one turn: the bytes that the socket has buffered, and what becomes of
the frame that is sent. -/
structure Turn where
  bufferedAmount : ℕ
  status : Status

/-- The sockets that are open, the replies that wait, and their size. Of every connection, the
frames that its socket took, and the replies that were put in its queue, are recorded. -/
structure Server where
  nextConnection : ℕ
  connections : Finset ℕ
  replies : ℕ → List Reply
  replyBytes : ℤ
  frames : ℕ → List (Frame UInt8)
  enqueued : ℕ → List (List UInt8)

/-! ## Sending -/

def chunkLimit : ℕ := 128 * 1024

def bufferedLimit : ℕ := 256 * 1024

def Reply.count (reply : Reply) : ℕ := min chunkLimit (reply.data.length - reply.offset)

def Reply.isFirst (reply : Reply) : Bool := reply.offset = 0

def Reply.isLast (reply : Reply) : Bool := reply.offset + reply.count = reply.data.length

def Reply.kind (reply : Reply) : Kind :=
  if reply.isFirst then if reply.isLast then .whole else .first
  else if reply.isLast then .last else .middle

def Reply.frame (reply : Reply) : Frame UInt8 :=
  ⟨reply.kind, (reply.data.drop reply.offset).take reply.count⟩

/-- The front of a queue after its frame is out. -/
def Server.sent (s : Server) (connection : ℕ) (reply : Reply) (queue : List Reply) : Server :=
  let s := { s with
    frames := Function.update s.frames connection (s.frames connection ++ [reply.frame]) }
  if reply.isLast then
    { s with
      replyBytes := s.replyBytes - reply.data.length
      replies := Function.update s.replies connection queue }
  else
    { s with
      replies := Function.update s.replies connection
        (⟨reply.data, reply.offset + reply.count⟩ :: queue) }

/-- Send while the queue has replies and the socket takes them; with no turn left the socket is
full. -/
def drainLoop (connection : ℕ) : List Turn → Server → Server
  | [], s => s
  | turn :: turns, s =>
    match s.replies connection with
    | [] => s
    | reply :: queue =>
      if bufferedLimit ≤ turn.bufferedAmount then s
      else
        match turn.status with
        | .dropped => s
        | .success => drainLoop connection turns (s.sent connection reply queue)
        | .backpressure => s.sent connection reply queue

def drainReplies (connection : ℕ) (turns : List Turn) (s : Server) : Server :=
  if connection ∈ s.connections then drainLoop connection turns s else s

def replyLimit : ℕ := 128 * 1024 * 1024

def replyBytesLimit : ℕ := 256 * 1024 * 1024

section Run

-- the reply that the server is busy, to the route in a reply; none when there is no route
variable (busy : List UInt8 → Option (List UInt8))

/-- The reply that is put in the queue: a large one is replaced. -/
def admitted (replyBytes : ℤ) (reply : List UInt8) : Option (List UInt8) :=
  if replyLimit < reply.length ∨ replyBytesLimit < replyBytes + reply.length then busy reply
  else some reply

def enqueueReply (connection : ℕ) (reply : List UInt8) (turns : List Turn) (s : Server) : Server :=
  if connection ∉ s.connections ∨ reply = [] then s
  else
    match admitted busy s.replyBytes reply with
    | none => s
    | some reply =>
      drainReplies connection turns { s with
        replyBytes := s.replyBytes + reply.length
        replies := Function.update s.replies connection (s.replies connection ++ [⟨reply, 0⟩])
        enqueued := Function.update s.enqueued connection (s.enqueued connection ++ [reply]) }

/-- A socket is upgraded and opened, under the next number. -/
def openConnection (s : Server) : Server :=
  if 16 ≤ s.connections.card then s
  else { s with
    nextConnection := s.nextConnection + 1
    connections := insert (s.nextConnection + 1) s.connections }

/-- The size of what waits in a queue. -/
def waiting (queue : List Reply) : ℕ := (queue.map fun reply ↦ reply.data.length).sum

def closeConnection (connection : ℕ) (s : Server) : Server :=
  { s with
    replyBytes := s.replyBytes - waiting (s.replies connection)
    replies := Function.update s.replies connection []
    connections := s.connections.erase connection }

/-- What happens on the loop of the sockets. -/
inductive Event where
  | upgrade
  | reply (connection : ℕ) (data : List UInt8) (turns : List Turn)
  | drain (connection : ℕ) (turns : List Turn)
  | close (connection : ℕ)

def Server.step (s : Server) : Event → Server
  | .upgrade => openConnection s
  | .reply connection data turns => enqueueReply busy connection data turns s
  | .drain connection turns => drainReplies connection turns s
  | .close connection => if connection ∈ s.connections then closeConnection connection s else s

def Server.initial : Server := ⟨0, ∅, fun _ ↦ [], 0, fun _ ↦ [], fun _ ↦ []⟩

def Server.run (events : List Event) : Server := events.foldl (Server.step busy) .initial

/-- The reply that an event brings for a connection: one for an open connection that is not empty,
or what stands in for it. -/
def Server.replyOf (s : Server) (id : ℕ) : Event → List (List UInt8)
  | .reply connection data _ =>
    if connection = id ∧ id ∈ s.connections ∧ data ≠ [] then
      (admitted busy s.replyBytes data).toList
    else []
  | .upgrade | .drain _ _ | .close _ => []

/-- The replies that the events of a run bring for a connection, in their order. -/
def Server.repliesOf (id : ℕ) : Server → List Event → List (List UInt8)
  | _, [] => []
  | s, event :: events => s.replyOf busy id event ++ Server.repliesOf id (s.step busy event) events

end Run

/-! ## One connection -/

/-- How much of the front of a queue is out. -/
def headOffset : List Reply → ℕ
  | [] => 0
  | reply :: _ => reply.offset

/-- The frames of a connection agree with its queue: nothing but the front has been begun. -/
structure Linked (enqueued : List (List UInt8)) (queue : List Reply) (frames : List (Frame UInt8)) :
    Prop where
  framed : Framed enqueued (queue.map Reply.data) (headOffset queue) frames
  tail : ∀ reply ∈ queue.tail, reply.offset = 0

theorem headOffset_of_tail {queue : List Reply} (h : ∀ reply ∈ queue, reply.offset = 0) :
    headOffset queue = 0 := by
  match queue with
  | [] => rfl
  | reply :: _ => exact h reply List.mem_cons_self

/-- A new reply waits behind the others. -/
theorem Linked.enqueue {enqueued : List (List UInt8)} {queue : List Reply}
    {frames : List (Frame UInt8)} (h : Linked enqueued queue frames) (data : List UInt8) :
    Linked (enqueued ++ [data]) (queue ++ [⟨data, 0⟩]) frames := by
  constructor
  · rw [List.map_append, List.map_singleton]
    match queue, h with
    | [], h => exact h.framed.enqueue data
    | reply :: queue, h => exact h.framed.enqueue data
  · match queue, h with
    | [], _ => exact fun reply hreply ↦ absurd hreply List.not_mem_nil
    | reply :: queue, h =>
      exact List.forall_mem_append.mpr ⟨h.tail, List.forall_mem_singleton.mpr rfl⟩

/-- The queue after the frame of its front is out. -/
def advanced (reply : Reply) (queue : List Reply) : List Reply :=
  if reply.isLast then queue else ⟨reply.data, reply.offset + reply.count⟩ :: queue

/-- The frame of the front goes out as the next frame of its message. -/
theorem Linked.sent {enqueued : List (List UInt8)} {reply : Reply} {queue : List Reply}
    {frames : List (Frame UInt8)} (h : Linked enqueued (reply :: queue) frames) :
    Linked enqueued (advanced reply queue) (frames ++ [reply.frame]) := by
  have hframed : Framed enqueued (reply.data :: queue.map Reply.data) reply.offset frames :=
    h.framed
  have hzero : headOffset queue = 0 := headOffset_of_tail h.tail
  have hlimit : 0 < chunkLimit := by decide
  have hcount : reply.count = min chunkLimit (reply.data.length - reply.offset) := rfl
  have hlt : 0 < reply.offset → reply.offset < reply.data.length := by
    obtain ⟨_, _, _, _, _, _, hcurrent⟩ := hframed
    rcases hcurrent with ⟨hnone, -⟩ | ⟨next, rest, heq, -, hlt, -⟩
    · exact fun hpos ↦ absurd hnone hpos.ne'
    · obtain ⟨rfl, -⟩ := List.cons.inj heq
      exact fun _ ↦ hlt
  rw [advanced]
  split
  · next hlast =>
    -- the frame ends the message, as the only one or after others
    have hend : reply.offset + reply.count = reply.data.length := of_decide_eq_true hlast
    have htake :
        (reply.data.drop reply.offset).take reply.count = reply.data.drop reply.offset := by
      rw [List.take_of_length_le]
      rw [List.length_drop]
      omega
    refine ⟨?_, fun r hr ↦ h.tail r (List.mem_of_mem_tail hr)⟩
    rw [hzero, Reply.frame, Reply.kind, hlast, htake]
    by_cases hfirst : reply.offset = 0
    · rw [Reply.isFirst, decide_eq_true hfirst, hfirst]
      rw [hfirst] at hframed
      exact hframed.whole
    · rw [Reply.isFirst, decide_eq_false hfirst]
      exact hframed.last (Nat.pos_of_ne_zero hfirst) (hlt (Nat.pos_of_ne_zero hfirst))
  · next hlast =>
    -- more frames are to come, so the chunk is full and the message goes on behind it
    have hnot : reply.offset + reply.count ≠ reply.data.length := fun heq ↦
      hlast (decide_eq_true heq)
    have hle : reply.offset + reply.count < reply.data.length := by
      by_cases hfirst : reply.offset = 0
      · omega
      · have hlt' := hlt (Nat.pos_of_ne_zero hfirst)
        omega
    have hcountpos : 0 < reply.count := by omega
    refine ⟨?_, h.tail⟩
    rw [Bool.not_eq_true] at hlast
    rw [Reply.frame, Reply.kind, hlast]
    by_cases hfirst : reply.offset = 0
    · rw [hfirst, Nat.zero_add] at hle
      rw [hfirst] at hframed
      rw [Reply.isFirst, decide_eq_true hfirst, List.map_cons, headOffset, hfirst, Nat.zero_add]
      exact hframed.first hcountpos hle
    · rw [Reply.isFirst, decide_eq_false hfirst]
      exact hframed.middle (Nat.pos_of_ne_zero hfirst) hcountpos hle

/-! ## All connections -/

section Runs

variable {busy : List UInt8 → Option (List UInt8)} {s : Server}

/-- Every connection is in order, and the count is what waits on the open ones. -/
structure Server.Ok (s : Server) : Prop where
  linked : ∀ id ∈ s.connections, Linked (s.enqueued id) (s.replies id) (s.frames id)
  framed : ∀ id, ∃ undelivered offset, Framed (s.enqueued id) undelivered offset (s.frames id)
  closed : ∀ id, id ∉ s.connections → s.replies id = []
  fresh : ∀ id, s.nextConnection < id →
    id ∉ s.connections ∧ s.enqueued id = [] ∧ s.frames id = []
  total : s.replyBytes = ∑ id ∈ s.connections, (waiting (s.replies id) : ℤ)

theorem sum_update {connections : Finset ℕ} {connection : ℕ} (h : connection ∈ connections)
    (replies : ℕ → List Reply) (queue : List Reply) :
    ∑ id ∈ connections, (waiting (Function.update replies connection queue id) : ℤ) =
      ∑ id ∈ connections, (waiting (replies id) : ℤ) - waiting (replies connection)
        + waiting queue := by
  have hrest : ∑ id ∈ connections.erase connection,
      (waiting (Function.update replies connection queue id) : ℤ) =
        ∑ id ∈ connections.erase connection, (waiting (replies id) : ℤ) := by
    refine Finset.sum_congr rfl fun id hid ↦ ?_
    rw [Function.update_of_ne (Finset.ne_of_mem_erase hid)]
  rw [← Finset.add_sum_erase _ _ h, hrest, Function.update_self,
    ← Finset.add_sum_erase _ (fun id ↦ (waiting (replies id) : ℤ)) h]
  omega

theorem Server.ok_initial : Server.initial.Ok where
  linked id hid := absurd hid (Finset.notMem_empty id)
  framed _ := ⟨[], 0, framed_nil⟩
  closed _ _ := rfl
  fresh id _ := ⟨Finset.notMem_empty id, rfl, rfl⟩
  total := rfl

/-- What one connection does to its queue, its frames and the count keeps all in order. -/
theorem Server.Ok.update (h : s.Ok) {connection : ℕ} (hid : connection ∈ s.connections)
    {enqueued : List (List UInt8)} {queue : List Reply} {frames : List (Frame UInt8)}
    (hlinked : Linked enqueued queue frames) :
    Server.Ok { s with
      replyBytes := s.replyBytes - waiting (s.replies connection) + waiting queue
      replies := Function.update s.replies connection queue
      frames := Function.update s.frames connection frames
      enqueued := Function.update s.enqueued connection enqueued } where
  linked id hmem := by
    dsimp only
    by_cases heq : id = connection
    · rw [heq, Function.update_self, Function.update_self, Function.update_self]
      exact hlinked
    · rw [Function.update_of_ne heq, Function.update_of_ne heq, Function.update_of_ne heq]
      exact h.linked id hmem
  framed id := by
    dsimp only
    by_cases heq : id = connection
    · rw [heq, Function.update_self, Function.update_self]
      exact ⟨_, _, hlinked.framed⟩
    · rw [Function.update_of_ne heq, Function.update_of_ne heq]
      exact h.framed id
  closed id hmem := by
    have hne : id ≠ connection := fun heq ↦ hmem (heq ▸ hid)
    exact (Function.update_of_ne hne _ _).trans (h.closed id hmem)
  fresh id hlt := by
    obtain ⟨hmem, henqueued, hframes⟩ := h.fresh id hlt
    have hne : id ≠ connection := fun heq ↦ hmem (heq ▸ hid)
    exact ⟨hmem, (Function.update_of_ne hne _ _).trans henqueued,
      (Function.update_of_ne hne _ _).trans hframes⟩
  total := by
    dsimp only
    rw [sum_update hid, h.total]

theorem Server.sent_eq (s : Server) (connection : ℕ) {reply : Reply} {queue : List Reply}
    (hqueue : s.replies connection = reply :: queue) :
    s.sent connection reply queue = { s with
      replyBytes := s.replyBytes - waiting (s.replies connection)
        + waiting (advanced reply queue)
      replies := Function.update s.replies connection (advanced reply queue)
      frames := Function.update s.frames connection (s.frames connection ++ [reply.frame])
      enqueued := Function.update s.enqueued connection (s.enqueued connection) } := by
  have hwaiting : (waiting (s.replies connection) : ℤ) = reply.data.length + waiting queue := by
    rw [hqueue, waiting, List.map_cons, List.sum_cons, ← waiting]
    exact Int.natCast_add _ _
  rw [Server.sent, Function.update_eq_self, advanced, hwaiting]
  dsimp only
  split
  · have hbytes : s.replyBytes - (reply.data.length + waiting queue) + waiting queue =
        s.replyBytes - reply.data.length := by omega
    rw [hbytes]
  · have hsame : (waiting (⟨reply.data, reply.offset + reply.count⟩ :: queue) : ℤ) =
        reply.data.length + waiting queue := by
      rw [waiting, List.map_cons, List.sum_cons, ← waiting]
      exact Int.natCast_add _ _
    rw [hsame, Int.sub_add_cancel]

theorem Server.Ok.sent (h : s.Ok) {connection : ℕ} (hid : connection ∈ s.connections)
    {reply : Reply} {queue : List Reply} (hqueue : s.replies connection = reply :: queue) :
    (s.sent connection reply queue).Ok ∧
      (s.sent connection reply queue).connections = s.connections := by
  have hlinked := h.linked connection hid
  rw [hqueue] at hlinked
  rw [Server.sent_eq s connection hqueue]
  exact ⟨h.update hid hlinked.sent, rfl⟩

theorem Server.Ok.drainLoop (h : s.Ok) {connection : ℕ} (hid : connection ∈ s.connections)
    (turns : List Turn) : (drainLoop connection turns s).Ok := by
  induction turns generalizing s with
  | nil => exact h
  | cons turn turns ih =>
    rw [BrokerSocket.drainLoop]
    split
    · exact h
    · next reply queue hqueue =>
      obtain ⟨hok, hconnections⟩ := h.sent hid hqueue
      split
      · exact h
      · split
        · exact h
        · exact ih hok (hconnections ▸ hid)
        · exact hok

theorem Server.Ok.drainReplies (h : s.Ok) (connection : ℕ) (turns : List Turn) :
    (drainReplies connection turns s).Ok := by
  rw [BrokerSocket.drainReplies]
  split
  · next hid => exact h.drainLoop hid turns
  · exact h

theorem Server.Ok.enqueueReply (h : s.Ok) (connection : ℕ) (data : List UInt8)
    (turns : List Turn) : (enqueueReply busy connection data turns s).Ok := by
  rw [BrokerSocket.enqueueReply]
  split
  · exact h
  · next hopen =>
    have hid : connection ∈ s.connections := by
      by_contra hnot
      exact hopen (Or.inl hnot)
    split
    · exact h
    · next reply _ =>
      refine Server.Ok.drainReplies ?_ connection turns
      have hok := h.update hid ((h.linked connection hid).enqueue reply)
      have hwaiting : (waiting (s.replies connection ++ [⟨reply, 0⟩]) : ℤ) =
          waiting (s.replies connection) + reply.length := by
        rw [waiting, List.map_append, List.sum_append, ← waiting]
        exact Int.natCast_add _ _
      rw [hwaiting, Function.update_eq_self] at hok
      have hbytes : s.replyBytes - waiting (s.replies connection)
          + (waiting (s.replies connection) + reply.length) = s.replyBytes + reply.length := by
        omega
      rwa [hbytes] at hok

theorem Server.Ok.openConnection (h : s.Ok) : (openConnection s).Ok := by
  rw [BrokerSocket.openConnection]
  split
  · exact h
  · obtain ⟨hnot, henqueued, hframes⟩ := h.fresh (s.nextConnection + 1) (Nat.lt_succ_self _)
    have hempty := h.closed _ hnot
    refine ⟨fun id hid ↦ ?_, h.framed, fun id hid ↦ ?_, fun id hlt ↦ ?_, ?_⟩
    · rcases Finset.mem_insert.mp hid with rfl | hold
      · rw [hempty, henqueued, hframes]
        exact ⟨framed_nil, fun reply hreply ↦ absurd hreply List.not_mem_nil⟩
      · exact h.linked id hold
    · exact h.closed id fun hold ↦ hid (Finset.mem_insert_of_mem hold)
    · obtain ⟨hmem, hrest⟩ := h.fresh id (Nat.lt_of_succ_lt hlt)
      exact ⟨fun hid ↦ (Finset.mem_insert.mp hid).elim (fun heq ↦ absurd heq hlt.ne') hmem, hrest⟩
    · rw [Finset.sum_insert hnot, hempty, h.total]
      exact (Int.zero_add _).symm

theorem Server.Ok.closeConnection (h : s.Ok) {connection : ℕ} (hid : connection ∈ s.connections) :
    (closeConnection connection s).Ok := by
  have hne {id : ℕ} (hmem : id ∈ s.connections.erase connection) : id ≠ connection :=
    Finset.ne_of_mem_erase hmem
  refine ⟨fun id hmem ↦ ?_, h.framed, fun id hmem ↦ ?_, fun id hlt ↦ ?_, ?_⟩
  · change Linked _ (Function.update s.replies connection [] id) _
    rw [Function.update_of_ne (hne hmem)]
    exact h.linked id (Finset.mem_of_mem_erase hmem)
  · change Function.update s.replies connection [] id = []
    by_cases heq : id = connection
    · rw [heq, Function.update_self]
    · rw [Function.update_of_ne heq]
      exact h.closed id fun hold ↦ hmem (Finset.mem_erase.mpr ⟨heq, hold⟩)
  · obtain ⟨hmem, hrest⟩ := h.fresh id hlt
    exact ⟨fun herase ↦ hmem (Finset.mem_of_mem_erase herase), hrest⟩
  · change s.replyBytes - _ = ∑ id ∈ s.connections.erase connection,
      (waiting (Function.update s.replies connection [] id) : ℤ)
    rw [h.total, ← Finset.add_sum_erase _ _ hid, add_sub_cancel_left]
    exact Finset.sum_congr rfl fun id hmem ↦ by rw [Function.update_of_ne (hne hmem)]

theorem Server.Ok.step (h : s.Ok) (event : Event) : (s.step busy event).Ok := by
  match event with
  | .upgrade => exact h.openConnection
  | .reply connection data turns => exact h.enqueueReply connection data turns
  | .drain connection turns => exact h.drainReplies connection turns
  | .close connection =>
    rw [Server.step]
    split
    · next hid => exact h.closeConnection hid
    · exact h

theorem Server.ok_run (busy : List UInt8 → Option (List UInt8)) (events : List Event) :
    (Server.run busy events).Ok :=
  List.foldlRecOn events _ Server.ok_initial fun _ h event _ ↦ h.step event

end Runs

/-! ## The replies of a run -/

section Replies

variable {busy : List UInt8 → Option (List UInt8)}

theorem Server.enqueued_sent (s : Server) (connection : ℕ) (reply : Reply) (queue : List Reply) :
    (s.sent connection reply queue).enqueued = s.enqueued := by
  rw [Server.sent]
  dsimp only
  split
  · rfl
  · rfl

theorem enqueued_drainLoop (connection : ℕ) (turns : List Turn) (s : Server) :
    (drainLoop connection turns s).enqueued = s.enqueued := by
  induction turns generalizing s with
  | nil => rfl
  | cons turn turns ih =>
    rw [drainLoop]
    split
    · rfl
    · split
      · rfl
      · split
        · rfl
        · rw [ih, Server.enqueued_sent]
        · rw [Server.enqueued_sent]

theorem enqueued_drainReplies (connection : ℕ) (turns : List Turn) (s : Server) :
    (drainReplies connection turns s).enqueued = s.enqueued := by
  rw [drainReplies]
  split
  · exact enqueued_drainLoop connection turns s
  · rfl

theorem enqueued_enqueueReply (connection id : ℕ) (data : List UInt8) (turns : List Turn)
    (s : Server) :
    (enqueueReply busy connection data turns s).enqueued id =
      s.enqueued id ++ s.replyOf busy id (.reply connection data turns) := by
  rw [enqueueReply, Server.replyOf]
  by_cases hrefused : connection ∉ s.connections ∨ data = []
  · have hnone : ¬(connection = id ∧ id ∈ s.connections ∧ data ≠ []) := by
      rintro ⟨rfl, hid, hdata⟩
      exact hrefused.elim (fun hnot ↦ hnot hid) hdata
    rw [if_pos hrefused, if_neg hnone, List.append_nil]
  · rw [if_neg hrefused]
    obtain ⟨hid, hdata⟩ := not_or.mp hrefused
    by_cases heq : connection = id
    · subst heq
      rw [if_pos ⟨rfl, not_not.mp hid, hdata⟩]
      cases admitted busy s.replyBytes data with
      | none => exact (List.append_nil _).symm
      | some reply =>
        dsimp only
        rw [enqueued_drainReplies]
        exact Function.update_self connection _ _
    · rw [if_neg fun h ↦ heq h.1, List.append_nil]
      cases admitted busy s.replyBytes data with
      | none => rfl
      | some reply =>
        dsimp only
        rw [enqueued_drainReplies]
        exact Function.update_of_ne (Ne.symm heq) _ _

theorem Server.enqueued_step (s : Server) (id : ℕ) (event : Event) :
    (s.step busy event).enqueued id = s.enqueued id ++ s.replyOf busy id event := by
  cases event with
  | upgrade =>
    rw [Server.step, openConnection, Server.replyOf, List.append_nil]
    split
    · rfl
    · rfl
  | reply connection data turns => exact enqueued_enqueueReply connection id data turns s
  | drain connection turns =>
    rw [Server.step, enqueued_drainReplies, Server.replyOf, List.append_nil]
  | close connection =>
    rw [Server.step, Server.replyOf, List.append_nil]
    split
    · rfl
    · rfl

theorem Server.enqueued_foldl (s : Server) (id : ℕ) (events : List Event) :
    (events.foldl (Server.step busy) s).enqueued id =
      s.enqueued id ++ Server.repliesOf busy id s events := by
  induction events generalizing s with
  | nil => exact (List.append_nil _).symm
  | cons event events ih =>
    rw [List.foldl_cons, ih, Server.enqueued_step, Server.repliesOf, List.append_assoc]

/-- What has been put in the queue of a connection is what the events have brought for it. -/
theorem Server.enqueued_run (id : ℕ) (events : List Event) :
    (Server.run busy events).enqueued id = Server.repliesOf busy id .initial events :=
  (Server.enqueued_foldl .initial id events).trans (List.nil_append _)

end Replies

/-- **Replies are framed.** In every state of every run, whatever the sockets have buffered and
make of their frames: the frames of a connection are the replies that the events have brought for
it, in their order, each one message, up to the one that has been begun; and the count is the size
of the replies on the open connections of which the last frame is not out. -/
theorem replies_framed (busy : List UInt8 → Option (List UInt8)) (events : List Event) :
    ∃ (undelivered : ℕ → List (List UInt8)) (offset : ℕ → ℕ),
      (∀ id, Framed (Server.repliesOf busy id .initial events) (undelivered id) (offset id)
          ((Server.run busy events).frames id) ∧
        payload ((Server.run busy events).frames id) <+:
          (Server.repliesOf busy id .initial events).flatten) ∧
      (Server.run busy events).replyBytes =
        (∑ id ∈ (Server.run busy events).connections,
          ((undelivered id).map List.length).sum : ℕ) ∧
      0 ≤ (Server.run busy events).replyBytes := by
  have hok := Server.ok_run busy events
  have henqueued (id : ℕ) := @Server.enqueued_run busy id events
  simp only [← henqueued]
  generalize Server.run busy events = s at hok ⊢
  -- on an open connection what waits is undelivered; on a closed one, what was never sent
  have hevery (id : ℕ) : ∃ undelivered offset,
      Framed (s.enqueued id) undelivered offset (s.frames id) ∧
        (id ∈ s.connections → (undelivered.map List.length).sum = waiting (s.replies id)) := by
    by_cases hid : id ∈ s.connections
    · refine ⟨_, _, (hok.linked id hid).framed, fun _ ↦ ?_⟩
      rw [List.map_map, waiting]
      rfl
    · obtain ⟨undelivered, offset, hframed⟩ := hok.framed id
      exact ⟨undelivered, offset, hframed, fun h ↦ absurd h hid⟩
  choose undelivered offset hframed hwaiting using hevery
  have htotal : s.replyBytes =
      (∑ id ∈ s.connections, ((undelivered id).map List.length).sum : ℕ) := by
    rw [hok.total, Nat.cast_sum]
    exact Finset.sum_congr rfl fun id hid ↦ by rw [hwaiting id hid]
  refine ⟨undelivered, offset, fun id ↦ ⟨hframed id, (hframed id).payload_begins⟩, htotal, ?_⟩
  rw [htotal]
  exact Int.natCast_nonneg _

end BrokerSocket

end Agora
