import Agora.Resp.Primary

/-!
# What is said to which node

`executed_on_primary`: a command of a caller is written only on a connection to an address that a
configured Sentinel has just named, on which the login was accepted and the node has said that it is
the master; besides these commands nothing is written but the handshake, and no command is written
twice. `nothing_after_refusal`: nothing is written after the node has answered that it is not the
master any more.
-/

namespace Agora

namespace Resp

open Transport

/-! ## What was said -/

/-- The commands on a connection. -/
def commandsOf (history : List Event) : List (List (List UInt8)) := history.filterMap Event.command

/-- The commands of the callers. -/
def ownOf (history : List Event) : List (List (List UInt8)) := history.filterMap Event.own

/-- The number of replies that were read. -/
def answersOf (history : List Event) : ℕ := (history.filterMap Event.reply).length

/-- What arrives are the replies of the node, as far as it comes. -/
def Dial.Speaks (dial : Dial) : Prop := dial.arrivals.bytes <+: encodeAll dial.replies

/-- Nothing is written after a refusal. -/
def Link.Obeys (link : Link) : Prop := ∀ i : ℕ,
  link.dial.replies[i]?.any Reply.refuses = true → (commandsOf link.history).length ≤ i + 1

/-- So many replies have been read, and none of them was a refusal. -/
structure Link.Heard (link : Link) (n : ℕ) : Prop where
  arrivals : link.arrivals.bytes <+: encodeAll (link.dial.replies.drop n)
  willing : ∀ i < n, link.dial.replies[i]?.any Reply.refuses = false

section Links

variable {link : Link} {host : List UInt8} {port : ℤ} {history : List Event} {c : RedisClient}
  {past : List Link}

/-- A connection on which everything was written that was said. -/
structure Link.Whole (link : Link) (host : List UInt8) (port : ℤ) (history : List Event) :
    Prop where
  host : link.host = host
  port : link.port = port
  said : link.history = history
  received : link.received = encodeCommands (commandsOf history)
  heard : link.dial.Speaks → link.Heard (answersOf history)

/-- A connection whose last command may have been cut off. -/
structure Link.Ended (link : Link) (host : List UInt8) (port : ℤ) (history : List Event) :
    Prop where
  host : link.host = host
  port : link.port = port
  said : link.history = history
  received : link.received <+: encodeCommands (commandsOf history)
  obeys : link.dial.Speaks → link.Obeys

theorem Link.Heard.obeys {n : ℕ} (h : link.Heard n)
    (hcount : (commandsOf link.history).length ≤ n + 1) : link.Obeys := by
  intro i hrefuses
  by_contra hlt
  have hwilling := h.willing i (by omega)
  rw [hrefuses] at hwilling
  cases hwilling

theorem Link.Whole.ended (h : link.Whole host port history)
    (hcount : (commandsOf history).length ≤ answersOf history + 1) :
    link.Ended host port history where
  host := h.host
  port := h.port
  said := h.said
  received := h.received ▸ List.prefix_refl _
  obeys hspeaks := by
    apply (h.heard hspeaks).obeys
    rw [h.said]
    exact hcount

/-- The open connection of a client. -/
structure Open (c : RedisClient) (past : List Link) (host : List UInt8) (port : ℤ)
    (history : List Event) : Prop where
  past : c.past = past
  link : ∃ link, c.link = some link ∧ link.Whole host port history

/-- The connection that a client has closed last. -/
structure Closed (c : RedisClient) (past : List Link) (host : List UInt8) (port : ℤ)
    (history : List Event) : Prop where
  link : c.link = none
  past : ∃ link, c.past = past ++ [link] ∧ link.Ended host port history

theorem links_of_none (h : c.link = none) : c.links = c.past := by
  rw [RedisClient.links, h]
  exact List.append_nil _

theorem links_of_some (h : c.link = some link) : c.links = c.past ++ [link] := by
  rw [RedisClient.links, h]
  rfl

theorem links_disconnect (c : RedisClient) : c.disconnect.links = c.links :=
  List.append_nil _

theorem Closed.links (h : Closed c past host port history) :
    ∃ link, c.links = past ++ [link] ∧ link.Ended host port history := by
  rw [links_of_none h.link]
  exact h.past

theorem Closed.disconnect (h : Closed c past host port history) :
    Closed c.disconnect past host port history :=
  ⟨rfl, h.links⟩

theorem Open.disconnect (h : Open c past host port history)
    (hcount : (commandsOf history).length ≤ answersOf history + 1) :
    Closed c.disconnect past host port history := by
  obtain ⟨link, hlink, hwhole⟩ := h.link
  refine ⟨rfl, link, ?_, hwhole.ended hcount⟩
  rw [← h.past]
  exact links_of_some hlink

theorem connectTo_cases (c : RedisClient) (host : List UInt8) (port : ℤ) :
    ((c.connectTo host port).1 = true ∧ Open (c.connectTo host port).2 c.links host port []) ∨
      ((c.connectTo host port).1 = false ∧ (c.connectTo host port).2.link = none ∧
        (c.connectTo host port).2.past = c.links) := by
  rw [RedisClient.connectTo]
  rcases hdials : c.disconnect.dials with _ | ⟨_ | dial, dials⟩
  · exact Or.inr ⟨rfl, rfl, rfl⟩
  · exact Or.inr ⟨rfl, rfl, rfl⟩
  · refine Or.inl ⟨rfl, rfl, _, rfl, rfl, rfl, rfl, rfl, fun hspeaks ↦ ⟨hspeaks, fun i hi ↦ ?_⟩⟩
    exact absurd hi (Nat.not_lt_zero i)

/-- Writing a command: it is out, or it is cut off with the connection. -/
theorem Open.send (h : Open c past host port history) (event : List (List UInt8) → Event)
    (command : List (List UInt8)) (hcommand : (event command).command = some command)
    (hreply : (event command).reply = none)
    (hcount : (commandsOf history).length ≤ answersOf history) :
    ((c.send event command).1 = true ∧
        Open (c.send event command).2 past host port (history ++ [event command])) ∨
      ((c.send event command).1 = false ∧
        Closed (c.send event command).2 past host port (history ++ [event command])) := by
  obtain ⟨link, hlink, hwhole⟩ := h.link
  have hcommands : commandsOf (history ++ [event command]) = commandsOf history ++ [command] := by
    rw [commandsOf, List.filterMap_append, List.filterMap_cons_some hcommand]
    rfl
  have hanswers : answersOf (history ++ [event command]) = answersOf history := by
    rw [answersOf, List.filterMap_append, List.filterMap_cons_none hreply]
    exact congrArg List.length (List.append_nil _)
  obtain ⟨hbegin, hall⟩ := writeAll_spec link.writes (encodeCommand command)
  rw [RedisClient.send, hlink]
  dsimp only
  rcases hwrite : writeAll link.writes (encodeCommand command) with ⟨written, ok, writes⟩
  rw [hwrite] at hbegin hall
  dsimp only at hbegin hall ⊢
  have hreceived : link.received ++ written
      <+: encodeCommands (commandsOf (history ++ [event command])) := by
    rw [hcommands, encodeCommands_append, encodeCommands_singleton, hwhole.received]
    exact (List.prefix_append_right_inj _).mpr hbegin
  -- A write that fails leaves a part of the command with the node, and closes the connection.
  rcases ok with _ | _
  · refine Or.inr ⟨rfl, rfl, { link with
      writes, received := link.received ++ written, history := link.history ++ [event command] },
      ?_, hwhole.host, hwhole.port, ?_, hreceived, fun hspeaks ↦ ?_⟩
    · rw [← h.past]
      rfl
    · rw [hwhole.said]
    · have hheard := hwhole.heard hspeaks
      refine Link.Heard.obeys ⟨hheard.arrivals, hheard.willing⟩ ?_
      rw [hwhole.said, hcommands, List.length_append]
      exact Nat.add_le_add_right hcount 1
  · refine Or.inl ⟨rfl, h.past, _, rfl, hwhole.host, hwhole.port, ?_, ?_, fun hspeaks ↦ ?_⟩
    · rw [hwhole.said]
    · rw [hcommands, encodeCommands_append, encodeCommands_singleton, hwhole.received, hall rfl]
    · have hheard := hwhole.heard hspeaks
      rw [hanswers]
      exact ⟨hheard.arrivals, hheard.willing⟩

/-- Nothing is read when nothing is left to arrive. -/
theorem closed_of_silent {t : Stream UInt8} (h : t.bytes = []) :
    (readResponse (some t)).2 = none := by
  have hnothing : (t.read 1).1 = [] := by
    have hbytes := t.read_bytes 1
    rw [h] at hbytes
    exact (List.append_eq_nil_iff.mp hbytes).1
  have hline : readLine lineLimit t = none := by
    rw [lineLimit, readLine, readLineWith]
    dsimp only
    rw [hnothing]
  rw [readResponse_eq, readWith, hline]

/-- Reading a reply: the connection stays, or it is closed at a reply that was cut off. -/
theorem Open.read (h : Open c past host port history)
    (hcount : (commandsOf history).length ≤ answersOf history + 1) :
    Open c.read.2 past host port (history ++ [.answered c.read.1]) ∨
      Closed c.read.2 past host port (history ++ [.answered c.read.1]) ∧ CutOff c.read.1 := by
  obtain ⟨link, hlink, hwhole⟩ := h.link
  have hcommands (reply : List UInt8) :
      commandsOf (history ++ [.answered reply]) = commandsOf history := by
    rw [commandsOf, List.filterMap_append]
    exact List.append_nil _
  have hanswers (reply : List UInt8) :
      answersOf (history ++ [.answered reply]) = answersOf history + 1 := by
    rw [answersOf, List.filterMap_append, List.length_append]
    rfl
  rw [RedisClient.read, hlink]
  dsimp only
  -- Closed within the reply, or read to its end; the node is then in step with the client, since a
  -- reply that refuses the password closes the connection as well.
  rcases hread : readResponse (some link.arrivals) with ⟨reply, _ | arrivals⟩
  · refine Or.inr ⟨⟨rfl, { link with history := link.history ++ [.answered reply] }, ?_,
      hwhole.host, hwhole.port, ?_, ?_, fun hspeaks ↦ ?_⟩, ?_⟩
    · rw [← h.past]
      rfl
    · rw [hwhole.said]
    · have hall : link.received <+: encodeCommands (commandsOf history) :=
        hwhole.received ▸ List.prefix_refl _
      rw [hcommands]
      exact hall
    · have hheard := hwhole.heard hspeaks
      refine Link.Heard.obeys ⟨hheard.arrivals, hheard.willing⟩ ?_
      rw [hwhole.said, hcommands]
      exact hcount
    · have hcut : CutOff (readResponse (some link.arrivals)).1 := by
        apply readResponse_cutOff
        rw [hread]
      rw [hread] at hcut
      exact hcut
  · refine Or.inl ⟨h.past, _, rfl, hwhole.host, hwhole.port, ?_, ?_, fun hspeaks ↦ ?_⟩
    · rw [hwhole.said]
    · rw [hcommands, hwhole.received]
    · obtain ⟨⟨lost, hlost⟩, hwilling⟩ := hwhole.heard hspeaks
      rw [hanswers]
      rcases hleft : link.dial.replies.drop (answersOf history) with _ | ⟨next, later⟩
      · rw [hleft] at hlost
        have hclosed := closed_of_silent (List.append_eq_nil_iff.mp hlost).1
        rw [hread] at hclosed
        cases hclosed
      · have hnext : link.dial.replies[answersOf history]? = some next := by
          rw [← Nat.add_zero (answersOf history), ← List.getElem?_drop, hleft]
          rfl
        rw [hleft, encodeAll] at hlost
        have hwilling' : next.refuses = false := by
          rw [← Bool.not_eq_true]
          intro hrefuses
          have hclosed := closed_of_refuses next hlost hrefuses
          rw [hread] at hclosed
          cases hclosed
        have hrest : arrivals.bytes ++ lost = encodeAll later := by
          rcases (reads next hlost).in_step with hclosed | ⟨t, hsome, hrest⟩
          · rw [hread] at hclosed
            cases hclosed
          · rw [hread] at hsome
            rw [Option.some.inj (Prod.mk.inj hsome).2]
            exact hrest
        refine ⟨⟨lost, ?_⟩, fun i hi ↦ ?_⟩
        · change arrivals.bytes ++ lost = encodeAll (link.dial.replies.drop (answersOf history + 1))
          rw [hrest, ← List.drop_drop, hleft]
          rfl
        · rcases Nat.lt_succ_iff_lt_or_eq.mp hi with hi | rfl
          · exact hwilling i hi
          · change (link.dial.replies[answersOf history]?).any Reply.refuses = false
            rw [hnext]
            exact hwilling'

end Links

/-! ## The handshake -/

namespace Config

variable (config : Config)

/-- The commands of the handshake. -/
def handshake : List (List (List UInt8)) :=
  [config.sentinelAuth, config.masterQuery, config.auth, role]

/-- A command of the handshake, or a reply. -/
def Whispers : Event → Prop
  | .asked command => command ∈ config.handshake
  | .executed _ => False
  | .answered _ => True

/-- The login was accepted, and then the node has said that it is the master. -/
def Checked (history : List Event) : Prop :=
  ∃ answer, (nextWord answer).1 = bytes "master" ∧
    [.asked config.auth, .answered (bytes "OK"), .asked role, .answered answer] <+: history

/-- On the connection before, a configured Sentinel has named the address of the master. -/
def Named (previous : Option Link) (host : List UInt8) (port : ℤ) : Prop :=
  ∃ sentinel, previous = some sentinel ∧ (sentinel.host, sentinel.port) ∈ config.sentinelSeeds ∧
    ∃ answer, masterAddress answer = some (host, port) ∧
      sentinel.history = [.asked config.sentinelAuth, .answered (bytes "OK"),
        .asked config.masterQuery, .answered answer]

/-- What may be said on a connection: commands of the handshake, and commands of callers once the
node is known to be the master. -/
structure Proper (previous : Option Link) (host : List UInt8) (port : ℤ) (history : List Event) :
    Prop where
  asked : ∀ command, .asked command ∈ history → command ∈ config.handshake
  executed : ∀ before command after, history = before ++ .executed command :: after →
    config.Checked before ∧ config.Named previous host port

/-- Connections one after the other, and the commands of callers that were to be written so far. -/
structure Kept (done : List (List (List UInt8))) (links : List Link) : Prop where
  proper : ∀ before link after, links = before ++ link :: after →
    link.received <+: encodeCommands (commandsOf link.history) ∧
      config.Proper before.getLast? link.host link.port link.history
  own : (links.flatMap fun link ↦ ownOf link.history).Sublist done
  obeys : ∀ link ∈ links, link.dial.Speaks → link.Obeys

end Config

section Handshake

variable {config : Config} {link : Link} {host : List UInt8} {port : ℤ} {history : List Event}
  {c : RedisClient} {past links links' : List Link} {done done' : List (List (List UInt8))}
  {previous : Option Link}

theorem whispers_concat {event : Event} (h : ∀ event ∈ history, config.Whispers event)
    (hevent : config.Whispers event) : ∀ event' ∈ history ++ [event], config.Whispers event' := by
  intro event' hmem
  rcases List.mem_append.mp hmem with hmem | hmem
  · exact h event' hmem
  · rw [List.mem_singleton.mp hmem]
    exact hevent

theorem ownOf_of_whispers (h : ∀ event ∈ history, config.Whispers event) : ownOf history = [] := by
  rw [ownOf, List.filterMap_eq_nil_iff]
  intro event hmem
  have hevent := h event hmem
  rcases event with command | command | reply
  · rfl
  · exact hevent.elim
  · rfl

theorem Config.Proper.of_whispers (h : ∀ event ∈ history, config.Whispers event) :
    config.Proper previous host port history where
  asked command hmem := h _ hmem
  executed before command after heq := by
    have hmem : Event.executed command ∈ history := by
      rw [heq]
      exact List.mem_append_right _ List.mem_cons_self
    exact (h _ hmem).elim

/-- A connection is closed. -/
theorem Config.Kept.concat (h : config.Kept done links) (hended : link.Ended host port history)
    (hproper : config.Proper links.getLast? host port history)
    (hown : ((links.flatMap fun link ↦ ownOf link.history) ++ ownOf history).Sublist done') :
    config.Kept done' (links ++ [link]) where
  proper before link' after heq := by
    rcases List.eq_nil_or_concat after with rfl | ⟨after, last, rfl⟩
    · obtain ⟨rfl, hlink⟩ := List.append_inj' heq rfl
      obtain rfl := List.head_eq_of_cons_eq hlink
      rw [hended.host, hended.port, hended.said]
      exact ⟨hended.received, hproper⟩
    · rw [List.concat_eq_append, ← List.cons_append, ← List.append_assoc] at heq
      exact h.proper before link' after (List.append_inj' heq rfl).1
  own := by
    rw [List.flatMap_append, List.flatMap_singleton, hended.said]
    exact hown
  obeys link' hlink' := by
    rcases List.mem_append.mp hlink' with hlink' | hlink'
    · exact h.obeys link' hlink'
    · rw [List.mem_singleton.mp hlink']
      exact hended.obeys

/-- At most one more connection was made, and nothing but the handshake was said on it. -/
def Grown (config : Config) (links links' : List Link) : Prop :=
  links' = links ∨ ∃ link host port history, links' = links ++ [link] ∧
    link.Ended host port history ∧ ∀ event ∈ history, config.Whispers event

theorem Config.Kept.grown (h : config.Kept done links) (hgrown : Grown config links links') :
    config.Kept done links' := by
  rcases hgrown with rfl | ⟨link, host, port, history, rfl, hended, hwhispers⟩
  · exact h
  · apply h.concat hended (Config.Proper.of_whispers hwhispers)
    rw [ownOf_of_whispers hwhispers, List.append_nil]
    exact h.own

theorem Closed.grown (h : Closed c past host port history)
    (hwhispers : ∀ event ∈ history, config.Whispers event) :
    c.link = none ∧ Grown config past c.past := by
  obtain ⟨link, hpast, hended⟩ := h.past
  exact ⟨h.link, Or.inr ⟨link, host, port, history, hpast, hended, hwhispers⟩⟩

theorem whispers_start : ∀ event ∈ [], config.Whispers event := by
  intro event hmem
  cases hmem

theorem whispers_sentinelAuth : config.Whispers (.asked config.sentinelAuth) :=
  List.mem_cons_self

theorem whispers_masterQuery : config.Whispers (.asked config.masterQuery) :=
  List.mem_cons_of_mem _ List.mem_cons_self

theorem whispers_auth : config.Whispers (.asked config.auth) :=
  List.mem_cons_of_mem _ (List.mem_cons_of_mem _ List.mem_cons_self)

theorem whispers_role : config.Whispers (.asked Config.role) :=
  List.mem_cons_of_mem _ (List.mem_cons_of_mem _ (List.mem_cons_of_mem _ List.mem_cons_self))

theorem whispers_answered (reply : List UInt8) : config.Whispers (.answered reply) := trivial

theorem Open.grown (h : Open c past host port history)
    (hcount : (commandsOf history).length ≤ answersOf history + 1)
    (hwhispers : ∀ event ∈ history, config.Whispers event) :
    c.disconnect.link = none ∧ Grown config past c.disconnect.past :=
  (h.disconnect hcount).grown hwhispers

/-- After a Sentinel was asked: the connection is closed again, and an address was named on it. -/
structure Asked (config : Config) (links : List Link) (r : Option (List UInt8 × ℤ) × RedisClient) :
    Prop where
  grown : r.2.link = none ∧ Grown config links r.2.past
  named : ∀ address, r.1 = some address → config.Named r.2.past.getLast? address.1 address.2

theorem Asked.nothing (h : c.link = none ∧ Grown config links c.past) :
    Asked config links (none, c) where
  grown := h
  named address h := by cases h

theorem askSentinel_spec {seed : List UInt8 × ℤ} (hseed : seed ∈ config.sentinelSeeds)
    (c : RedisClient) : Asked config c.links (config.askSentinel seed c) := by
  rw [Config.askSentinel]
  have hdial := connectTo_cases c.disconnect seed.1 seed.2
  rw [links_disconnect] at hdial
  generalize c.disconnect.connectTo seed.1 seed.2 = dialed at hdial ⊢
  obtain ⟨hdialed, hopen⟩ | ⟨hdialed, hlink, hpast⟩ := hdial
  swap
  · rw [hdialed]
    exact Asked.nothing ⟨hlink, Or.inl hpast⟩
  rw [hdialed]
  -- the login
  have hwhispers := whispers_concat whispers_start (@whispers_sentinelAuth config)
  have hsend := hopen.send .asked config.sentinelAuth rfl rfl (Nat.le_refl 0)
  dsimp only
  generalize dialed.2.send .asked config.sentinelAuth = sent at hsend ⊢
  obtain ⟨hsent, hopen⟩ | ⟨hsent, hclosed⟩ := hsend
  swap
  · rw [hsent]
    exact Asked.nothing (hclosed.disconnect.grown hwhispers)
  rw [hsent]
  have hread := hopen.read (Nat.le_refl 1)
  have hanswered := whispers_concat hwhispers (whispers_answered sent.2.read.1)
  generalize sent.2.read = login at hread hanswered ⊢
  by_cases hok : login.1 = bytes "OK"
  swap
  · simp only [Bool.not_true, Bool.false_eq_true, if_false, ne_eq, hok, not_false_iff, if_true]
    apply Asked.nothing
    rcases hread with hopen | ⟨hclosed, -⟩
    · exact hopen.grown (Nat.le_succ 1) hanswered
    · exact hclosed.disconnect.grown hanswered
  rw [hok] at hread hanswered
  have hopen := hread.resolve_right fun h ↦ not_cutOff_ok h.2
  -- the question
  have hwhispers := whispers_concat hanswered (@whispers_masterQuery config)
  have hsend := hopen.send .asked config.masterQuery rfl rfl (Nat.le_refl 1)
  simp only [Bool.not_true, Bool.false_eq_true, if_false, ne_eq, hok, not_true]
  generalize login.2.send .asked config.masterQuery = sent at hsend ⊢
  obtain ⟨hsent, hopen⟩ | ⟨hsent, hclosed⟩ := hsend
  swap
  · rw [hsent]
    exact Asked.nothing (hclosed.disconnect.grown hwhispers)
  rw [hsent]
  have hread := hopen.read (Nat.le_refl 2)
  have hanswered := whispers_concat hwhispers (whispers_answered sent.2.read.1)
  generalize sent.2.read = reply at hread hanswered ⊢
  have hclosed : Closed reply.2.disconnect c.links seed.1 seed.2
      ([] ++ [.asked config.sentinelAuth] ++ [.answered (bytes "OK")] ++
        [.asked config.masterQuery] ++ [.answered reply.1]) := by
    rcases hread with hopen | ⟨hclosed, -⟩
    · exact hopen.disconnect (Nat.le_succ 2)
    · exact hclosed.disconnect
  refine ⟨hclosed.grown hanswered, fun address haddress ↦ ?_⟩
  obtain ⟨link, hpast, hended⟩ := hclosed.past
  refine ⟨link, ?_, ?_, reply.1, haddress, hended.said⟩
  · change reply.2.disconnect.past.getLast? = some link
    rw [hpast, List.getLast?_concat]
  · rw [hended.host, hended.port]
    exact hseed

theorem authenticate_spec (h : Open c past host port []) :
    ((config.authenticate c).1 = true ∧ Open (config.authenticate c).2 past host port
        [.asked config.auth, .answered (bytes "OK")]) ∨
      ((config.authenticate c).1 = false ∧ (config.authenticate c).2.link = none ∧
        Grown config past (config.authenticate c).2.past) := by
  rw [Config.authenticate]
  have hwhispers := whispers_concat whispers_start (@whispers_auth config)
  have hsend := h.send .asked config.auth rfl rfl (Nat.le_refl 0)
  dsimp only
  generalize c.send .asked config.auth = sent at hsend ⊢
  obtain ⟨hsent, hopen⟩ | ⟨hsent, hclosed⟩ := hsend
  swap
  · rw [hsent]
    exact Or.inr ⟨rfl, hclosed.grown hwhispers⟩
  rw [hsent]
  have hread := hopen.read (Nat.le_refl 1)
  have hanswered := whispers_concat hwhispers (whispers_answered sent.2.read.1)
  generalize sent.2.read = login at hread hanswered ⊢
  -- The word of an accepted login is not one that a reply is cut off with.
  by_cases hok : login.1 = bytes "OK"
  · rw [hok] at hread
    simp only [Bool.not_true, Bool.false_eq_true, if_false, ne_eq, hok, not_true]
    exact Or.inl ⟨trivial, hread.resolve_right fun h ↦ not_cutOff_ok h.2⟩
  · simp only [Bool.not_true, Bool.false_eq_true, if_false, ne_eq, hok, not_false_iff, if_true]
    refine Or.inr ⟨trivial, ?_⟩
    rcases hread with hopen | ⟨hclosed, -⟩
    · exact hopen.grown (Nat.le_succ 1) hanswered
    · exact hclosed.disconnect.grown hanswered

/-- After a node was asked: the connection is closed again, or the node has said that it is the
master. -/
def Settled (config : Config) (links : List Link) (address : List UInt8 × ℤ)
    (r : Bool × RedisClient) : Prop :=
  (r.2.link = none ∧ Grown config links r.2.past) ∨
    (r.1 = true ∧ ∃ answer, (nextWord answer).1 = bytes "master" ∧
      Open r.2 links address.1 address.2
        [.asked config.auth, .answered (bytes "OK"), .asked Config.role, .answered answer])

theorem connectMaster_spec (address : List UInt8 × ℤ) (c : RedisClient) :
    Settled config c.links address (config.connectMaster address c) := by
  rw [Config.connectMaster]
  -- Each step of the handshake either fails, and nothing is left open, or the next one follows.
  have hdial := connectTo_cases c address.1 address.2
  generalize c.connectTo address.1 address.2 = dialed at hdial ⊢
  obtain ⟨hdialed, hopen⟩ | ⟨hdialed, hlink, hpast⟩ := hdial
  swap
  · rw [hdialed]
    exact Or.inl ⟨hlink, Or.inl hpast⟩
  rw [hdialed]
  dsimp only
  have hlogin := @authenticate_spec config _ _ _ _ hopen
  generalize config.authenticate dialed.2 = login at hlogin ⊢
  obtain ⟨hlogged, hopen⟩ | ⟨hlogged, hgrown⟩ := hlogin
  swap
  · rw [hlogged]
    exact Or.inl hgrown
  rw [hlogged]
  have hwhispers := whispers_concat (whispers_concat (whispers_concat whispers_start
    (@whispers_auth config)) (whispers_answered (bytes "OK"))) (@whispers_role config)
  have hsend := hopen.send .asked Config.role rfl rfl (Nat.le_refl 1)
  generalize login.2.send .asked Config.role = sent at hsend ⊢
  obtain ⟨hsent, hopen⟩ | ⟨hsent, hclosed⟩ := hsend
  swap
  · rw [hsent]
    exact Or.inl (hclosed.grown hwhispers)
  rw [hsent]
  have hread := hopen.read (Nat.le_refl 2)
  have hanswered := whispers_concat hwhispers (whispers_answered sent.2.read.1)
  generalize sent.2.read = reply at hread hanswered ⊢
  simp only [Bool.not_true, Bool.false_eq_true, if_false]
  split
  · next hmaster =>
    rcases hread with hopen | ⟨hclosed, -⟩
    · exact Or.inr ⟨rfl, reply.1, hmaster, hopen⟩
    · -- the rest of the reply was cut off
      exact Or.inl (hclosed.grown hanswered)
  · refine Or.inl ?_
    rcases hread with hopen | ⟨hclosed, -⟩
    · exact hopen.grown (Nat.le_succ 2) hanswered
    · exact hclosed.disconnect.grown hanswered

end Handshake

/-! ## Runs -/

section Runs

variable {config : Config} {c : RedisClient} {done : List (List (List UInt8))}
  {history : List Event} {host : List UInt8} {port : ℤ} {past : List Link} {previous : Option Link}

/-- A connection that commands may be written on, and the commands that were to be written so far.
-/
structure Config.Trusted (config : Config) (done : List (List (List UInt8))) (past : List Link)
    (host : List UInt8) (port : ℤ) (history : List Event) : Prop where
  proper : config.Proper past.getLast? host port history
  checked : config.Checked history
  named : config.Named past.getLast? host port
  answered : (commandsOf history).length ≤ answersOf history
  own : ((past.flatMap fun link ↦ ownOf link.history) ++ ownOf history).Sublist done

/-- Between two calls. -/
structure Config.Ready (config : Config) (done : List (List (List UInt8))) (c : RedisClient) :
    Prop where
  kept : config.Kept done c.past
  link : c.link = none ∨ ∃ host port history, Open c c.past host port history ∧
    config.Trusted done c.past host port history

theorem Config.Kept.mono {links : List Link} {done' : List (List (List UInt8))}
    (h : config.Kept done links) (hdone : done.Sublist done') : config.Kept done' links :=
  { h with own := h.own.trans hdone }

theorem Config.Ready.mono {done' : List (List (List UInt8))} (h : config.Ready done c)
    (hdone : done.Sublist done') : config.Ready done' c where
  kept := h.kept.mono hdone
  link := h.link.imp_right fun ⟨host, port, history, hopen, htrusted⟩ ↦
    ⟨host, port, history, hopen, { htrusted with own := htrusted.own.trans hdone }⟩

theorem Config.Ready.of_none (hkept : config.Kept done c.past) (hlink : c.link = none) :
    config.Ready done c :=
  ⟨hkept, Or.inl hlink⟩

/-- All connections of a client at rest. -/
theorem Config.Ready.links (h : config.Ready done c) : config.Kept done c.links := by
  rcases h.link with hlink | ⟨host, port, history, hopen, htrusted⟩
  · rw [links_of_none hlink]
    exact h.kept
  · obtain ⟨link, hlink, hwhole⟩ := hopen.link
    rw [links_of_some hlink]
    exact h.kept.concat (hwhole.ended (htrusted.answered.trans (Nat.le_succ _))) htrusted.proper
      htrusted.own

theorem Config.Ready.disconnect (h : config.Ready done c) : config.Ready done c.disconnect :=
  .of_none h.links rfl

theorem trusted_start {answer : List UInt8} (hkept : config.Kept done past)
    (hnamed : config.Named past.getLast? host port)
    (hmaster : (nextWord answer).1 = bytes "master") :
    config.Trusted done past host port
      [.asked config.auth, .answered (bytes "OK"), .asked Config.role, .answered answer] where
  proper := Config.Proper.of_whispers (whispers_concat (whispers_concat (whispers_concat
    (whispers_concat whispers_start whispers_auth) (whispers_answered _)) whispers_role)
    (whispers_answered answer))
  checked := ⟨answer, hmaster, List.prefix_refl _⟩
  named := hnamed
  answered := Nat.le_refl 2
  own := by
    refine List.Sublist.trans ?_ hkept.own
    exact (List.append_nil _).symm ▸ List.Sublist.refl _

theorem discover_ready (seeds : List (List UInt8 × ℤ)) (hseeds : seeds ⊆ config.sentinelSeeds)
    (h : config.Kept done c.links) : config.Ready done (config.discover seeds c).2 := by
  induction seeds generalizing c with
  | nil => exact .of_none h rfl
  | cons seed seeds ih =>
    have hrest := List.subset_of_cons_subset hseeds
    rw [Config.discover]
    have hasked := askSentinel_spec (hseeds List.mem_cons_self) c
    generalize config.askSentinel seed c = r at hasked ⊢
    -- A Sentinel without an answer is passed over, and so is one that has named a replica.
    rcases r with ⟨_ | address, asked⟩
    · apply ih hrest
      rw [links_of_none hasked.grown.1]
      exact h.grown hasked.grown.2
    · have hkept := h.grown hasked.grown.2
      have hlinks := links_of_none hasked.grown.1
      have hsettled : Settled config asked.links address (config.connectMaster address asked) :=
        connectMaster_spec address asked
      dsimp only
      rw [hlinks] at hsettled
      generalize config.connectMaster address asked = r at hsettled ⊢
      rcases r with ⟨_ | _, settled⟩
      · rcases hsettled with ⟨hlink, hgrown⟩ | ⟨hno, -⟩
        · apply ih hrest
          rw [links_of_none hlink]
          exact hkept.grown hgrown
        · cases hno
      · rcases hsettled with ⟨hlink, hgrown⟩ | ⟨-, answer, hmaster, hopen⟩
        · exact .of_none (hkept.grown hgrown) hlink
        · have htrusted := trusted_start hkept (hasked.named address rfl) hmaster
          rw [← hopen.past] at hkept htrusted
          exact ⟨hkept, Or.inr ⟨_, _, _, ⟨rfl, hopen.link⟩, htrusted⟩⟩

theorem connect_ready (h : config.Ready done c) : config.Ready done (config.connect c).2 := by
  rw [Config.connect]
  split_ifs
  · exact h
  · exact h
  · exact h
  · exact h
  · exact h
  · apply discover_ready _ _ h.links
    intro seed hseed
    rw [Config.attempts, List.mem_append, List.mem_append] at hseed
    rcases hseed with (hseed | hseed) | hseed
    · exact hseed
    · exact hseed
    · exact hseed

theorem Config.Checked.mono {more : List Event} (h : config.Checked history) :
    config.Checked (history ++ more) := by
  obtain ⟨answer, hmaster, hprefix⟩ := h
  exact ⟨answer, hmaster, hprefix.trans (List.prefix_append _ _)⟩

/-- A reply is read, or a command is written by a caller. -/
theorem Config.Proper.concat {event : Event} (h : config.Proper previous host port history)
    (hasked : ∀ command, event = .asked command → command ∈ config.handshake)
    (hexecuted : ∀ command, event = .executed command →
      config.Checked history ∧ config.Named previous host port) :
    config.Proper previous host port (history ++ [event]) where
  asked command hmem := by
    rcases List.mem_append.mp hmem with hmem | hmem
    · exact h.asked command hmem
    · exact hasked command (List.mem_singleton.mp hmem).symm
  executed before command after heq := by
    rcases List.eq_nil_or_concat after with rfl | ⟨after, last, rfl⟩
    · obtain ⟨rfl, hevent⟩ := List.append_inj' heq rfl
      exact hexecuted command (List.head_eq_of_cons_eq hevent)
    · rw [List.concat_eq_append, ← List.cons_append, ← List.append_assoc] at heq
      exact h.executed before command after (List.append_inj' heq rfl).1

theorem Config.Proper.answered (h : config.Proper previous host port history) (reply : List UInt8) :
    config.Proper previous host port (history ++ [.answered reply]) := by
  apply h.concat
  · intro command heq
    cases heq
  · intro command heq
    cases heq

/-- While a command waits for its reply. -/
structure Config.Waiting (config : Config) (done : List (List (List UInt8))) (past : List Link)
    (host : List UInt8) (port : ℤ) (history : List Event) : Prop where
  proper : config.Proper past.getLast? host port history
  checked : config.Checked history
  named : config.Named past.getLast? host port
  unanswered : (commandsOf history).length ≤ answersOf history + 1
  own : ((past.flatMap fun link ↦ ownOf link.history) ++ ownOf history).Sublist done

theorem Config.Trusted.executed (h : config.Trusted done past host port history)
    (command : List (List UInt8)) :
    config.Waiting (done ++ [command]) past host port (history ++ [.executed command]) where
  proper := by
    apply h.proper.concat
    · intro command heq
      cases heq
    · exact fun _ _ ↦ ⟨h.checked, h.named⟩
  checked := h.checked.mono
  named := h.named
  unanswered := by
    rw [commandsOf, List.filterMap_append, answersOf, List.filterMap_append, List.length_append,
      List.length_append]
    exact Nat.add_le_add_right h.answered 1
  own := by
    rw [ownOf, List.filterMap_append, ← List.append_assoc]
    exact h.own.append (List.Sublist.refl _)

theorem Config.Waiting.answered (h : config.Waiting done past host port history)
    (reply : List UInt8) :
    config.Trusted done past host port (history ++ [.answered reply]) where
  proper := h.proper.answered reply
  checked := h.checked.mono
  named := h.named
  answered := by
    rw [commandsOf, List.filterMap_append, answersOf, List.filterMap_append, List.length_append,
      List.length_append]
    exact h.unanswered
  own := by
    rw [ownOf, List.filterMap_append]
    exact (List.append_nil (ownOf history)).symm ▸ h.own

/-- A command is out and waits for its reply, or it could not be written. -/
def Sent (config : Config) (done : List (List (List UInt8))) (r : Bool × RedisClient) : Prop :=
  (r.1 = false ∧ config.Ready done r.2) ∨ r.1 = true ∧ config.Kept done r.2.past ∧
    ∃ host port history, Open r.2 r.2.past host port history ∧
      config.Waiting done r.2.past host port history

theorem Closed.kept (h : Closed c past host port history) (hkept : config.Kept done past)
    (hproper : config.Proper past.getLast? host port history)
    (hown : ((past.flatMap fun link ↦ ownOf link.history) ++ ownOf history).Sublist done) :
    config.Kept done c.past := by
  obtain ⟨link, hpast, hended⟩ := h.past
  rw [hpast]
  exact hkept.concat hended hproper hown

theorem send_sent (h : config.Ready done c) (command : List (List UInt8)) :
    Sent config (done ++ [command]) (c.send .executed command) := by
  have hdone : done.Sublist (done ++ [command]) := List.sublist_append_left _ _
  rcases h.link with hlink | ⟨host, port, history, hopen, htrusted⟩
  · rw [RedisClient.send, hlink]
    exact Or.inl ⟨rfl, h.mono hdone⟩
  · have hwaiting := htrusted.executed command
    rcases hopen.send .executed command rfl rfl htrusted.answered with
      ⟨hsent, hopen⟩ | ⟨hsent, hclosed⟩
    · have hpast := hopen.past
      refine Or.inr ⟨hsent, ?_, host, port, _, ⟨rfl, hopen.link⟩, ?_⟩
      · rw [hpast]
        exact h.kept.mono hdone
      · rw [hpast]
        exact hwaiting
    · have hkept := hclosed.kept (h.kept.mono hdone) hwaiting.proper hwaiting.own
      exact Or.inl ⟨hsent, .of_none hkept hclosed.link⟩

theorem sendCommand_sent (h : config.Ready done c) (command : List (List UInt8)) :
    Sent config (done ++ [command]) (config.sendCommand command c) := by
  rw [Config.sendCommand]
  split
  · exact send_sent h command
  · have hready := connect_ready h
    dsimp only
    split
    · exact send_sent hready command
    · exact Or.inl ⟨rfl, hready.mono (List.sublist_append_left _ _)⟩

/-- The reply to a command of a caller is read. -/
theorem read_ready (hkept : config.Kept done c.past) (hopen : Open c c.past host port history)
    (hwaiting : config.Waiting done c.past host port history) : config.Ready done c.read.2 := by
  have htrusted := hwaiting.answered c.read.1
  rcases hopen.read hwaiting.unanswered with hopen | ⟨hclosed, -⟩
  · have hpast := hopen.past
    refine ⟨?_, Or.inr ⟨host, port, _, ⟨rfl, hopen.link⟩, ?_⟩⟩
    · rw [hpast]
      exact hkept
    · rw [hpast]
      exact htrusted
  · exact .of_none (hclosed.kept hkept htrusted.proper htrusted.own) hclosed.link

theorem execute_ready (h : config.Ready done c) (command : List (List UInt8)) :
    config.Ready (done ++ [command]) (config.execute command c).2 := by
  rw [Config.execute]
  rcases sendCommand_sent h command with ⟨hsent, hready⟩ | ⟨hsent, hkept, _, _, _, hopen, hwaiting⟩
  · simp only [hsent, Bool.not_false, if_true]
    exact hready
  · simp only [hsent, Bool.not_true, Bool.false_eq_true, if_false]
    exact read_ready hkept hopen hwaiting

theorem ping_ready (h : config.Ready done c) :
    config.Ready (done ++ [[bytes "PING"]]) (config.ping c).2 := by
  rw [Config.ping]
  rcases sendCommand_sent h [bytes "PING"] with
    ⟨hsent, hready⟩ | ⟨hsent, hkept, _, _, _, hopen, hwaiting⟩
  · simp only [hsent, Bool.not_false, if_true]
    exact hready
  · simp only [hsent, Bool.not_true, Bool.false_eq_true, if_false]
    exact read_ready hkept hopen hwaiting

/-- What callers do. -/
inductive Call where
  | connect
  | disconnect
  | ping
  | execute (command : List (List UInt8))

def Call.run (config : Config) (c : RedisClient) : Call → RedisClient
  | connect => (config.connect c).2
  | disconnect => c.disconnect
  | ping => (config.ping c).2
  | execute command => (config.execute command c).2

/-- The command of a call. -/
def Call.command : Call → Option (List (List UInt8))
  | connect | disconnect => none
  | ping => some [bytes "PING"]
  | execute command => some command

def runAll (config : Config) (calls : List Call) (c : RedisClient) : RedisClient :=
  calls.foldl (Call.run config) c

theorem run_ready (h : config.Ready done c) (call : Call) :
    config.Ready (done ++ call.command.toList) (call.run config c) := by
  rcases call with _ | _ | _ | command
  · exact (connect_ready h).mono (List.sublist_append_left _ _)
  · exact h.disconnect.mono (List.sublist_append_left _ _)
  · exact ping_ready h
  · exact execute_ready h command

theorem runAll_ready (calls : List Call) (h : config.Ready done c) :
    config.Ready (done ++ calls.filterMap Call.command) (runAll config calls c) := by
  induction calls generalizing done c with
  | nil =>
    rw [List.filterMap_nil, List.append_nil]
    exact h
  | cons call calls ih =>
    have hcommands : (call :: calls).filterMap Call.command
        = call.command.toList ++ calls.filterMap Call.command := by
      rcases call with _ | _ | _ | command
      all_goals rfl
    rw [hcommands, ← List.append_assoc]
    exact ih (run_ready h call)

theorem ready_start (config : Config) (dials : List (Option Dial)) :
    config.Ready [] { dials } := by
  refine .of_none ⟨?_, List.Sublist.refl _, ?_⟩ rfl
  · intro before link after heq
    cases (List.append_eq_nil_iff.mp heq.symm).2
  · intro link hlink
    cases hlink

/-- **Commands go to the primary.** Whatever the network and the nodes do, over every run of a
client: what a node has received is how the commands that were said to it begin; these are commands
of the handshake, and a command of a caller only behind an accepted login and the node's word that
it is the master, at an address that a configured Sentinel had named on the connection before; and
the commands of callers that were written, over all connections, are commands of the calls in their
order, each at most once. -/
theorem executed_on_primary (config : Config) (dials : List (Option Dial)) (calls : List Call) :
    (∀ before link after, (runAll config calls { dials }).links = before ++ link :: after →
      link.received <+: encodeCommands (commandsOf link.history) ∧
        config.Proper before.getLast? link.host link.port link.history) ∧
      ((runAll config calls { dials }).links.flatMap fun link ↦ ownOf link.history).Sublist
        (calls.filterMap Call.command) := by
  have hkept := (runAll_ready calls (ready_start config dials)).links
  exact ⟨hkept.proper, hkept.own⟩

/-- **Nothing is said after a refusal.** When what arrives on a connection are replies of the node,
then, from the reply on that says that the node is not the master any more, wherever it stands in
that reply, no further command is written on the connection. -/
theorem nothing_after_refusal (config : Config) (dials : List (Option Dial)) (calls : List Call)
    {link : Link} (hlink : link ∈ (runAll config calls { dials }).links)
    (hspeaks : link.dial.Speaks) {i : ℕ}
    (hrefuses : link.dial.replies[i]?.any Reply.refuses = true) :
    (commandsOf link.history).length ≤ i + 1 :=
  (runAll_ready calls (ready_start config dials)).links.obeys link hlink hspeaks i hrefuses

/-! ### An example -/

def localConfig : Config where
  user := []
  password := bytes "pw"
  sentinelMasterName := bytes "agora-master"
  sentinelUser := bytes "s"
  sentinelPassword := bytes "spw"
  sentinelSeeds := [(bytes "s1", 26379)]
  tlsEnabled := false
  tlsConfigValid := true

theorem plain_ok : ∀ c ∈ bytes "OK", c ≠ '\r'.toUInt8 ∧ c ≠ '\n'.toUInt8 := by
  decide +kernel

theorem plain_readOnly :
    ∀ c ∈ bytes "READONLY You can't write against a read only replica.",
      c ≠ '\r'.toUInt8 ∧ c ≠ '\n'.toUInt8 := by
  decide +kernel

def ok : Line := ⟨bytes "OK", plain_ok⟩

def readOnly : Line :=
  ⟨bytes "READONLY You can't write against a read only replica.", plain_readOnly⟩

def answering (replies : List Reply) : Dial where
  writes := List.replicate 9 100
  arrivals := [.data (encodeAll replies)]
  replies := replies

def sentinelDial : Dial :=
  answering [.simple ok, .array [.bulk (bytes "10.0.0.1"), .bulk (bytes "6379")]]

def nodeDial : Dial :=
  answering [.simple ok, .array [.bulk (bytes "master")], .error readOnly]

def demoted : RedisClient :=
  runAll localConfig [.execute [bytes "DEL", bytes "k"], .execute [bytes "DEL", bytes "k"]]
    { dials := [some sentinelDial, some nodeDial] }

example : demoted.links.map (fun link ↦ (commandsOf link.history).length) = [2, 3] := by
  decide +kernel

theorem demoted_silent : ∃ link, demoted.links.getLast? = some link ∧
    (commandsOf link.history).length ≤ 3 := by
  have hspeaks : (demoted.links.getLast?.any fun link ↦
      decide (link.dial.arrivals.bytes <+: encodeAll link.dial.replies) &&
        link.dial.replies[2]?.any Reply.refuses) = true := by decide +kernel
  obtain ⟨link, hlink, hboth⟩ := (Option.any_eq_true _ _).mp hspeaks
  obtain ⟨harrivals, hrefuses⟩ := (Bool.and_eq_true _ _).mp hboth
  have hspeaks : link.dial.arrivals.bytes <+: encodeAll link.dial.replies :=
    of_decide_eq_true harrivals
  exact ⟨link, hlink, nothing_after_refusal localConfig _ _ (List.mem_of_getLast? hlink) hspeaks
    hrefuses⟩

end Runs

end Resp

end Agora
