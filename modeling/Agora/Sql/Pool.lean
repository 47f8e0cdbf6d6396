import Agora.Sql.Threads

/-!
# The pool of database connections

Threads share at most ten connections. A thread that finds none free and no room for another one
waits; a thread that returns a connection, or gives up opening one, wakes waiting threads. A thread
that was woken looks again, since another one may have been faster, and a connection may break at
any time.

What matters for the waiting is the room: the connections in the pool and those that may still be
opened. Whoever makes room wakes somebody, and whoever is woken takes room or finds none, so that
there are always as many threads awake as there is room, unless nobody waits (`Sound.awake`).
-/

namespace Agora

namespace Sql

/-- Where a thread is: between requests, asleep, woken, opening a connection, about to wake all
others after that failed, or with a connection. -/
inductive Phase where
  | idle
  | waiting
  | notified
  | opening
  | notifying
  | holding (connection : ℕ)
  deriving DecidableEq

def maxConnections : ℤ := 10

/-- What the lock of the pool guards; `closed` are the connections that were closed. -/
structure Pool where
  /-- The last one that was put back first. -/
  pool : List ℕ := []
  activeConnections : ℤ := 0
  closed : List ℕ := []

/-- The pool, the threads, which connections are broken, and how many were opened. -/
structure State (T : Type) where
  shared : Pool := {}
  phases : T → Phase := fun _ ↦ .idle
  dead : ℕ → Bool := fun _ ↦ false
  opened : ℕ := 0

/-- Take a connection that is not broken, and close those that are; when there is none, one is to
be opened. -/
def acquireFrom (dead : ℕ → Bool) : List ℕ → ℤ → List ℕ → Option ℕ × Pool
  | [], active, closed => (none, ⟨[], active + 1, closed⟩)
  | conn :: pool, active, closed =>
    if dead conn then acquireFrom dead pool (active - 1) (conn :: closed)
    else (some conn, ⟨pool, active, closed⟩)

variable {T : Type} [DecidableEq T]

/-- There is a connection, or room for another one. -/
def State.Free (s : State T) : Prop :=
  s.shared.pool ≠ [] ∨ s.shared.activeConnections < maxConnections

instance (s : State T) : Decidable s.Free := inferInstanceAs (Decidable (_ ∨ _))

def State.move (t : T) (phase : Phase) (s : State T) : State T :=
  { s with phases := Function.update s.phases t phase }

/-- A thread leaves `acquire` with a connection, or goes to open one. -/
def State.acquire (t : T) (s : State T) : State T :=
  let taken :=
    acquireFrom s.dead s.shared.pool s.shared.activeConnections s.shared.closed
  let phase :=
    match taken.1 with
    | some conn => .holding conn
    | none => .opening
  { s.move t phase with shared := taken.2 }

def wake : Phase → Phase
  | .waiting => .notified
  | phase => phase

def State.notifyAll (s : State T) : State T := { s with phases := wake ∘ s.phases }

/-- The connection goes back to the pool. -/
def State.putBack (conn : ℕ) (s : State T) : State T :=
  { s with shared := { s.shared with pool := conn :: s.shared.pool } }

/-- One connection less. -/
def State.giveUp (s : State T) : State T :=
  { s with
    shared := { s.shared with activeConnections := s.shared.activeConnections - 1 } }

def State.close (conn : ℕ) (s : State T) : State T :=
  { s.giveUp with shared := { s.giveUp.shared with closed := conn :: s.shared.closed } }

/-- What the threads do that have come to the pool. -/
inductive Serve : State T → State T → Prop where
  | acquire (s : State T) (t : T) (ht : s.phases t = .notified) (hfree : s.Free) :
      Serve s (s.acquire t)
  | sleep (s : State T) (t : T) (ht : s.phases t = .notified) (hfull : ¬s.Free) :
      Serve s (s.move t .waiting)
  | opened (s : State T) (t : T) (ht : s.phases t = .opening) :
      Serve s { s.move t (.holding s.opened) with opened := s.opened + 1 }
  | failed (s : State T) (t : T) (ht : s.phases t = .opening) :
      Serve s (s.giveUp.move t .notifying)
  | notify (s : State T) (t : T) (ht : s.phases t = .notifying) :
      Serve s (s.move t .idle).notifyAll
  /-- A connection that can be used again wakes one thread, if there is one asleep. -/
  | release (s : State T) (t : T) (conn : ℕ) (ht : s.phases t = .holding conn)
      (halive : s.dead conn = false) (u : T) (hu : s.phases u = .waiting) :
      Serve s (((s.putBack conn).move t .idle).move u .notified)
  | releaseQuietly (s : State T) (t : T) (conn : ℕ) (ht : s.phases t = .holding conn)
      (halive : s.dead conn = false) (hnobody : ∀ u, s.phases u ≠ .waiting) :
      Serve s ((s.putBack conn).move t .idle)
  /-- A connection that is broken, or that was invalidated, is closed. -/
  | discard (s : State T) (t : T) (conn : ℕ) (ht : s.phases t = .holding conn) :
      Serve s ((s.close conn).move t .idle).notifyAll

/-- What happens: threads come, and find room or fall asleep; sleeping threads may wake without
being woken; connections break. -/
inductive Step : State T → State T → Prop where
  | serve {s s' : State T} (h : Serve s s') : Step s s'
  | acquire (s : State T) (t : T) (ht : s.phases t = .idle) (hfree : s.Free) :
      Step s (s.acquire t)
  | sleep (s : State T) (t : T) (ht : s.phases t = .idle) (hfull : ¬s.Free) :
      Step s (s.move t .waiting)
  | wakeUp (s : State T) (t : T) (ht : s.phases t = .waiting) : Step s (s.move t .notified)
  | breakDown (s : State T) (conn : ℕ) :
      Step s { s with dead := Function.update s.dead conn true }

/-- Steps one after the other, from an empty pool. -/
inductive Reachable : State T → Prop where
  | start : Reachable {}
  | step {s s' : State T} (h : Reachable s) (hstep : Step s s') : Reachable s'

/-! ## Taking a connection -/

section Acquire

variable {dead : ℕ → Bool} {pool closed : List ℕ} {active : ℤ}

/-- What is left in the pool is the rest of it. -/
theorem acquireFrom_suffix : (acquireFrom dead pool active closed).2.pool <:+ pool := by
  induction pool generalizing active closed with
  | nil => exact List.suffix_refl _
  | cons conn pool ih =>
    rw [acquireFrom]
    split
    · exact ih.trans (List.suffix_cons _ _)
    · exact List.suffix_cons _ _

/-- Closing a connection makes as much room as it takes from the pool: whoever acquires takes one
connection, there or still to be opened. -/
theorem acquireFrom_active :
    (acquireFrom dead pool active closed).2.activeConnections
      = (acquireFrom dead pool active closed).2.pool.length + (active - pool.length) + 1 := by
  induction pool generalizing active closed with
  | nil =>
    rw [acquireFrom]
    simp
  | cons conn pool ih =>
    rw [acquireFrom]
    split
    · rw [ih, List.length_cons]
      push_cast
      omega
    · rw [List.length_cons]
      push_cast
      omega

/-- A connection that is handed out comes from the pool and is not broken. -/
theorem acquireFrom_some {conn : ℕ} (h : (acquireFrom dead pool active closed).1 = some conn) :
    dead conn = false ∧ conn :: (acquireFrom dead pool active closed).2.pool <:+ pool := by
  induction pool generalizing active closed with
  | nil => cases h
  | cons first pool ih =>
    rw [acquireFrom] at h ⊢
    split at h
    · next hdead =>
      rw [if_pos hdead]
      exact (ih h).imp_right fun hsuffix ↦ hsuffix.trans (List.suffix_cons _ _)
    · next halive =>
      rw [if_neg halive]
      cases h
      exact ⟨Bool.eq_false_iff.mpr halive, List.suffix_refl _⟩

theorem acquireFrom_none (h : (acquireFrom dead pool active closed).1 = none) :
    (acquireFrom dead pool active closed).2.pool = [] := by
  induction pool generalizing active closed with
  | nil => rfl
  | cons first pool ih =>
    rw [acquireFrom] at h ⊢
    split at h
    · next hdead =>
      rw [if_pos hdead]
      exact ih h
    · cases h

/-- What is closed was in the pool, before what is left of it. -/
theorem mem_closed_acquireFrom {conn : ℕ}
    (h : conn ∈ (acquireFrom dead pool active closed).2.closed) :
    conn ∈ closed ∨ dead conn ∧ conn ∈ pool := by
  induction pool generalizing active closed with
  | nil => exact Or.inl h
  | cons first pool ih =>
    rw [acquireFrom] at h
    split at h
    · next hdead =>
      rcases ih h with hmem | ⟨hbroken, hmem⟩
      · rcases List.mem_cons.mp hmem with rfl | hmem
        · exact Or.inr ⟨hdead, List.mem_cons_self⟩
        · exact Or.inl hmem
      · exact Or.inr ⟨hbroken, List.mem_cons_of_mem _ hmem⟩
    · exact Or.inl h

/-- A connection that is left in the pool was not closed. -/
theorem notMem_closed_acquireFrom (hnodup : pool.Nodup) (happart : ∀ conn ∈ pool, conn ∉ closed)
    {conn : ℕ} (h : conn ∈ (acquireFrom dead pool active closed).2.pool) :
    conn ∉ (acquireFrom dead pool active closed).2.closed := by
  induction pool generalizing active closed with
  | nil => cases h
  | cons first pool ih =>
    obtain ⟨hfirst, hnodup⟩ := List.nodup_cons.mp hnodup
    rw [acquireFrom] at h ⊢
    split at h
    · next hdead =>
      rw [if_pos hdead]
      refine ih hnodup (fun other hother ↦ ?_) h
      rw [List.mem_cons, not_or]
      exact ⟨fun heq ↦ hfirst (heq ▸ hother), happart other (List.mem_cons_of_mem _ hother)⟩
    · next halive =>
      rw [if_neg halive]
      exact happart conn (List.mem_cons_of_mem _ h)

end Acquire

end Sql

end Agora
