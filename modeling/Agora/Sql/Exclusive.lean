import Agora.Sql.Pool

/-!
# Who has a connection

The counter of the pool counts the connections in it, those threads have and those that are being
opened. A connection is in one of these places, and once it is closed it is in none.

**Main results.** No two threads have the same connection, none has one that is also in the pool or
was closed, and at most ten are open or being opened (`connections_exclusive`); and no thread is
handed a broken one (`holding_of_step`).
-/

namespace Agora

namespace Sql

open Threads (total total_update total_comp update_cases of_update_of_ne)

variable {T : Type}

/-! ## The counter -/

/-- The thread has a connection, or is opening one. -/
def busy : Phase → ℕ
  | .opening => 1
  | .holding _ => 1
  | _ => 0

section Counting

/-- What the counter counts. -/
structure Counted [Fintype T] (shared : Pool) (phases : T → Phase) : Prop where
  active_eq : shared.activeConnections = shared.pool.length + (total busy phases : ℤ)
  active_le : shared.activeConnections ≤ maxConnections

theorem busy_wake : busy ∘ wake = busy := by
  funext phase
  rcases phase with _ | _ | _ | _ | _ | conn
  all_goals rfl

theorem Counted.wake [Fintype T] {shared : Pool} {phases : T → Phase} (h : Counted shared phases) :
    Counted shared (wake ∘ phases) := by
  refine ⟨?_, h.active_le⟩
  rw [total_comp, busy_wake]
  exact h.active_eq

variable [Fintype T] [DecidableEq T] {shared shared' : Pool} {phases : T → Phase} {s s' : State T}

/-- The connections of a thread and those in the pool change as the counter does. -/
theorem Counted.update (h : Counted shared phases) {t : T} {phase : Phase}
    (hactive : shared'.activeConnections + busy (phases t) + shared.pool.length
      = shared.activeConnections + busy phase + shared'.pool.length)
    (hle : shared'.activeConnections ≤ maxConnections) :
    Counted shared' (Function.update phases t phase) := by
  have htotal := total_update busy phases t phase
  have heq := h.active_eq
  exact ⟨by omega, hle⟩

/-- A thread moves to a place like the one it leaves. -/
theorem Counted.move (h : Counted shared phases) {t : T} {phase : Phase}
    (hphase : busy phase = busy (phases t)) : Counted shared (Function.update phases t phase) :=
  h.update (by omega) h.active_le

/-- A thread that was not busy takes a connection, or the place of one. -/
theorem Counted.acquire (h : Counted s.shared s.phases) {t : T} (ht : busy (s.phases t) = 0)
    (hfree : s.Free) : Counted (s.acquire t).shared (s.acquire t).phases := by
  have hle := h.active_le
  rw [State.acquire]
  rcases htaken : acquireFrom s.dead s.shared.pool s.shared.activeConnections s.shared.closed
    with ⟨conn?, taken⟩
  have hactive := @acquireFrom_active s.dead s.shared.pool s.shared.closed
    s.shared.activeConnections
  rw [htaken] at hactive
  dsimp only at hactive
  rcases conn? with _ | conn
  · have hpool := acquireFrom_none (congrArg Prod.fst htaken)
    have hroom : 0 < s.shared.pool.length ∨ s.shared.activeConnections < maxConnections :=
      hfree.imp_left List.length_pos_iff.mpr
    have hopening : busy .opening = 1 := rfl
    rw [htaken] at hpool
    dsimp only at hpool
    rw [hpool, List.length_nil] at hactive
    have hafter : Counted taken (Function.update s.phases t .opening) :=
      h.update (by rw [hpool, List.length_nil]; omega) (by omega)
    exact hafter
  · have hsuffix := (acquireFrom_some (congrArg Prod.fst htaken)).2.length_le
    have hholding : busy (.holding conn) = 1 := rfl
    rw [htaken, List.length_cons] at hsuffix
    dsimp only at hsuffix
    have hafter : Counted taken (Function.update s.phases t (.holding conn)) :=
      h.update (by omega) (by omega)
    exact hafter

theorem Counted.serve (h : Counted s.shared s.phases) (hserve : Serve s s') :
    Counted s'.shared s'.phases := by
  have hle := h.active_le
  cases hserve with
  | acquire t ht hfree => exact h.acquire (by rw [ht]; rfl) hfree
  | sleep t ht hfull => exact h.move (by rw [ht]; rfl)
  | opened t ht => exact h.move (by rw [ht]; rfl)
  | failed t ht =>
    refine h.update ?_ (Int.le_trans (Int.sub_le_self _ (by decide)) hle)
    rw [ht]
    dsimp only [State.giveUp, State.move, busy]
    omega
  | notify t ht => exact (h.move (by rw [ht]; rfl)).wake
  | release t conn ht halive u hu =>
    have hput : Counted (s.putBack conn).shared (Function.update s.phases t .idle) := by
      refine h.update ?_ hle
      rw [ht]
      dsimp only [State.putBack, State.move, busy]
      rw [List.length_cons]
      omega
    have hother : u ≠ t := by
      rintro rfl
      rw [ht] at hu
      cases hu
    refine hput.move ?_
    rw [Function.update_of_ne hother, hu]
    rfl
  | releaseQuietly t conn ht halive hnobody =>
    refine h.update ?_ hle
    rw [ht]
    dsimp only [State.putBack, State.move, busy]
    rw [List.length_cons]
    omega
  | discard t conn ht =>
    refine Counted.wake (h.update ?_ (Int.le_trans (Int.sub_le_self _ (by decide)) hle))
    rw [ht]
    dsimp only [State.close, State.giveUp, State.move, State.notifyAll, busy]
    omega

theorem Counted.step (h : Counted s.shared s.phases) (hstep : Step s s') :
    Counted s'.shared s'.phases := by
  cases hstep with
  | serve hserve => exact h.serve hserve
  | acquire t ht hfree => exact h.acquire (by rw [ht]; rfl) hfree
  | sleep t ht hfull => exact h.move (by rw [ht]; rfl)
  | wakeUp t ht => exact h.move (by rw [ht]; rfl)
  | breakDown conn => exact h

theorem counted_of_reachable (h : Reachable s) : Counted s.shared s.phases := by
  induction h with
  | start =>
    refine ⟨?_, show (0 : ℤ) ≤ maxConnections by decide⟩
    have hnone : total busy (fun _ : T ↦ Phase.idle) = 0 := Threads.total_eq_zero.mpr fun _ ↦ rfl
    rw [hnone]
    rfl
  | step h hstep ih => exact ih.step hstep

end Counting

/-! ## The connections -/

/-- Every connection that was not closed is in one place. -/
structure Owned (s : State T) : Prop where
  nodup : s.shared.pool.Nodup
  single : ∀ t u conn, s.phases t = .holding conn → s.phases u = .holding conn → t = u
  apart : ∀ t conn, s.phases t = .holding conn → conn ∉ s.shared.pool
  pooled : ∀ conn ∈ s.shared.pool, conn < s.opened ∧ conn ∉ s.shared.closed
  held : ∀ t conn, s.phases t = .holding conn → conn < s.opened ∧ conn ∉ s.shared.closed
  closed : ∀ conn ∈ s.shared.closed, conn < s.opened

section Ownership

variable {s s' : State T}

theorem holding_wake {phase : Phase} {conn : ℕ} :
    wake phase = .holding conn ↔ phase = .holding conn := by
  rcases phase with _ | _ | _ | _ | _ | other
  · exact Iff.rfl
  · exact ⟨fun h ↦ (by cases h), fun h ↦ (by cases h)⟩
  all_goals exact Iff.rfl

theorem Owned.notifyAll (h : Owned s) : Owned s.notifyAll :=
  ⟨h.nodup, fun t u conn ht hu ↦ h.single t u conn (holding_wake.mp ht) (holding_wake.mp hu),
    fun t conn ht ↦ h.apart t conn (holding_wake.mp ht), h.pooled,
    fun t conn ht ↦ h.held t conn (holding_wake.mp ht), h.closed⟩

theorem Owned.giveUp (h : Owned s) : Owned s.giveUp :=
  ⟨h.nodup, h.single, h.apart, h.pooled, h.held, h.closed⟩

/-- The pool after connections were taken from it. -/
theorem Owned.taken (h : Owned s) :
    Owned { s with shared :=
      (acquireFrom s.dead s.shared.pool s.shared.activeConnections s.shared.closed).2 } := by
  have hapart : ∀ conn ∈ s.shared.pool, conn ∉ s.shared.closed := fun conn hconn ↦
    (h.pooled conn hconn).2
  have hsuffix := @acquireFrom_suffix s.dead s.shared.pool s.shared.closed
    s.shared.activeConnections
  constructor
  · exact h.nodup.sublist hsuffix.sublist
  · exact h.single
  · exact fun t conn ht hmem ↦ h.apart t conn ht (hsuffix.subset hmem)
  · intro conn hconn
    exact ⟨(h.pooled conn (hsuffix.subset hconn)).1, notMem_closed_acquireFrom h.nodup hapart hconn⟩
  · intro t conn ht
    refine ⟨(h.held t conn ht).1, fun hclosed ↦ ?_⟩
    rcases mem_closed_acquireFrom hclosed with hold | ⟨-, hmem⟩
    · exact (h.held t conn ht).2 hold
    · exact h.apart t conn ht hmem
  · intro conn hclosed
    rcases mem_closed_acquireFrom hclosed with hold | ⟨-, hmem⟩
    · exact h.closed conn hold
    · exact (h.pooled conn hmem).1

variable [DecidableEq T]

/-- A thread goes to a place without a connection. -/
theorem Owned.move (h : Owned s) {t : T} {phase : Phase} (hphase : ∀ conn, phase ≠ .holding conn) :
    Owned (s.move t phase) := by
  have hold : ∀ u conn, (s.move t phase).phases u = .holding conn → s.phases u = .holding conn := by
    intro u conn hu
    exact of_update_of_ne (hphase conn) hu
  exact ⟨h.nodup, fun u v conn hu hv ↦ h.single u v conn (hold u conn hu) (hold v conn hv),
    fun u conn hu ↦ h.apart u conn (hold u conn hu), h.pooled,
    fun u conn hu ↦ h.held u conn (hold u conn hu), h.closed⟩

/-- A thread gets a connection that is in no place. -/
theorem Owned.hold (h : Owned s) {t : T} {conn : ℕ} (hpool : conn ∉ s.shared.pool)
    (hheld : ∀ u, s.phases u ≠ .holding conn)
    (hopen : conn < s.opened ∧ conn ∉ s.shared.closed) : Owned (s.move t (.holding conn)) := by
  constructor
  · exact h.nodup
  · intro u v other hu hv
    rcases update_cases hu with ⟨rfl, hconn⟩ | ⟨hut, hold⟩
    · rcases update_cases hv with ⟨rfl, -⟩ | ⟨hvt, hold⟩
      · rfl
      · cases hconn
        exact absurd hold (hheld v)
    · rcases update_cases hv with ⟨rfl, hconn⟩ | ⟨hvt, hold'⟩
      · cases hconn
        exact absurd hold (hheld u)
      · exact h.single u v other hold hold'
  · intro u other hu
    rcases update_cases hu with ⟨-, hconn⟩ | ⟨-, hold⟩
    · cases hconn
      exact hpool
    · exact h.apart u other hold
  · exact h.pooled
  · intro u other hu
    rcases update_cases hu with ⟨-, hconn⟩ | ⟨-, hold⟩
    · cases hconn
      exact hopen
    · exact h.held u other hold
  · exact h.closed

theorem Owned.acquire (h : Owned s) (t : T) : Owned (s.acquire t) := by
  have htaken := h.taken
  rw [State.acquire]
  rcases hconn : (acquireFrom s.dead s.shared.pool s.shared.activeConnections s.shared.closed).1
    with _ | conn
  · exact htaken.move (by simp)
  · -- The connection comes from the pool, where it was once.
    have hsuffix := (acquireFrom_some hconn).2
    have hmem : conn ∈ s.shared.pool := hsuffix.subset List.mem_cons_self
    have hnodup := List.nodup_cons.mp (h.nodup.sublist hsuffix.sublist)
    refine htaken.hold hnodup.1 (fun u hu ↦ h.apart u conn hu hmem) ⟨(h.pooled conn hmem).1, ?_⟩
    intro hclosed
    rcases mem_closed_acquireFrom hclosed with hold | ⟨hdead, -⟩
    · exact (h.pooled conn hmem).2 hold
    · rw [(acquireFrom_some hconn).1] at hdead
      cases hdead

/-- The connection that a thread leaves is in no place. -/
theorem Owned.leave (h : Owned s) {t : T} {conn : ℕ} (ht : s.phases t = .holding conn) (u : T) :
    (s.move t .idle).phases u ≠ .holding conn := by
  intro hu
  rcases update_cases hu with ⟨-, hidle⟩ | ⟨hut, hold⟩
  · cases hidle
  · exact hut (h.single u t conn hold ht)

theorem Owned.putBack (h : Owned s) {t : T} {conn : ℕ} (ht : s.phases t = .holding conn) :
    Owned ((s.putBack conn).move t .idle) := by
  have hleft : Owned (s.move t .idle) := h.move (by simp)
  constructor
  · exact List.nodup_cons.mpr ⟨h.apart t conn ht, h.nodup⟩
  · exact hleft.single
  · intro u other hu hmem
    rcases List.mem_cons.mp hmem with rfl | hmem
    · exact h.leave ht u hu
    · exact hleft.apart u other hu hmem
  · intro other hmem
    rcases List.mem_cons.mp hmem with rfl | hmem
    · exact h.held t other ht
    · exact h.pooled other hmem
  · exact hleft.held
  · exact h.closed

theorem Owned.close (h : Owned s) {t : T} {conn : ℕ} (ht : s.phases t = .holding conn) :
    Owned ((s.close conn).move t .idle) := by
  have hleft : Owned (s.move t .idle) := h.move (by simp)
  constructor
  · exact h.nodup
  · exact hleft.single
  · exact hleft.apart
  · intro other hmem
    refine ⟨(h.pooled other hmem).1, fun hclosed ↦ ?_⟩
    rcases List.mem_cons.mp hclosed with rfl | hclosed
    · exact h.apart t other ht hmem
    · exact (h.pooled other hmem).2 hclosed
  · intro u other hu
    refine ⟨(hleft.held u other hu).1, fun hclosed ↦ ?_⟩
    rcases List.mem_cons.mp hclosed with rfl | hclosed
    · exact h.leave ht u hu
    · exact (hleft.held u other hu).2 hclosed
  · intro other hclosed
    rcases List.mem_cons.mp hclosed with rfl | hclosed
    · exact (h.held t other ht).1
    · exact h.closed other hclosed

/-- A new connection is none of those there were. -/
theorem Owned.opened (h : Owned s) (t : T) :
    Owned { s.move t (.holding s.opened) with opened := s.opened + 1 } := by
  have hmore : Owned { s with opened := s.opened + 1 } :=
    ⟨h.nodup, h.single, h.apart,
      fun conn hmem ↦ ⟨Nat.lt_succ_of_lt (h.pooled conn hmem).1, (h.pooled conn hmem).2⟩,
      fun u conn hu ↦ ⟨Nat.lt_succ_of_lt (h.held u conn hu).1, (h.held u conn hu).2⟩,
      fun conn hclosed ↦ Nat.lt_succ_of_lt (h.closed conn hclosed)⟩
  exact hmore.hold (fun hmem ↦ Nat.lt_irrefl _ (h.pooled _ hmem).1)
    (fun u hu ↦ Nat.lt_irrefl _ (h.held u _ hu).1)
    ⟨Nat.lt_succ_self _, fun hclosed ↦ Nat.lt_irrefl _ (h.closed _ hclosed)⟩

theorem Owned.serve (h : Owned s) (hserve : Serve s s') : Owned s' := by
  cases hserve with
  | acquire t ht hfree => exact h.acquire t
  | sleep t ht hfull => exact h.move (by simp)
  | opened t ht => exact h.opened t
  | failed t ht => exact h.giveUp.move (by simp)
  | notify t ht => exact (h.move (by simp)).notifyAll
  | release t conn ht halive u hu => exact (h.putBack ht).move (by simp)
  | releaseQuietly t conn ht halive hnobody => exact h.putBack ht
  | discard t conn ht => exact (h.close ht).notifyAll

theorem Owned.step (h : Owned s) (hstep : Step s s') : Owned s' := by
  cases hstep with
  | serve hserve => exact h.serve hserve
  | acquire t ht hfree => exact h.acquire t
  | sleep t ht hfull => exact h.move (by simp)
  | wakeUp t ht => exact h.move (by simp)
  | breakDown conn => exact ⟨h.nodup, h.single, h.apart, h.pooled, h.held, h.closed⟩

theorem owned_of_reachable (h : Reachable s) : Owned s := by
  induction h with
  | start => exact ⟨List.nodup_nil, by simp, by simp, by simp, by simp, by simp⟩
  | step h hstep ih => exact ih.step hstep

/-- A thread that gets a connection from the pool gets one that is not broken. -/
theorem holding_acquire {t u : T} {conn : ℕ} (h : (s.acquire t).phases u = .holding conn) :
    s.phases u = .holding conn ∨ (s.dead conn = false ∧ conn ∈ s.shared.pool) := by
  rw [State.acquire] at h
  rcases update_cases h with ⟨-, hphase⟩ | ⟨-, hold⟩
  · rcases hconn : (acquireFrom s.dead s.shared.pool s.shared.activeConnections
      s.shared.closed).1 with _ | other
    · rw [hconn] at hphase
      cases hphase
    · rw [hconn] at hphase
      cases hphase
      have hsome := acquireFrom_some hconn
      exact Or.inr ⟨hsome.1, hsome.2.subset List.mem_cons_self⟩
  · exact Or.inl hold

end Ownership

/-! ## Main results -/

section Results

variable [DecidableEq T] {s s' : State T}

/-- A thread that has a connection after a step had it before, or the connection is
new, or it was in the pool and not broken. -/
theorem holding_of_step (hstep : Step s s') {t : T} {conn : ℕ}
    (ht : s'.phases t = .holding conn) :
    s.phases t = .holding conn ∨ conn = s.opened ∨
      (s.dead conn = false ∧ conn ∈ s.shared.pool) := by
  cases hstep with
  | serve hserve =>
    cases hserve with
    | acquire u hu hfree => exact (holding_acquire ht).imp_right Or.inr
    | sleep u hu hfull => exact Or.inl (of_update_of_ne (by simp) ht)
    | opened u hu =>
      rcases update_cases ht with ⟨-, heq⟩ | ⟨-, heq⟩
      · cases heq
        exact Or.inr (Or.inl rfl)
      · exact Or.inl heq
    | failed u hu => exact Or.inl (of_update_of_ne (by simp) ht)
    | notify u hu => exact Or.inl (of_update_of_ne (by simp) (holding_wake.mp ht))
    | release u other hu halive v hv =>
      exact Or.inl (of_update_of_ne (by simp) (of_update_of_ne (by simp) ht))
    | releaseQuietly u other hu halive hnobody => exact Or.inl (of_update_of_ne (by simp) ht)
    | discard u other hu => exact Or.inl (of_update_of_ne (by simp) (holding_wake.mp ht))
  | acquire u hu hfree => exact (holding_acquire ht).imp_right Or.inr
  | sleep u hu hfull => exact Or.inl (of_update_of_ne (by simp) ht)
  | wakeUp u hu => exact Or.inl (of_update_of_ne (by simp) ht)
  | breakDown other => exact Or.inl ht

/-- **Exclusive use.** In every state that can be reached, a connection that a thread has is nobody
else's, not in the pool and not closed; there are never more than ten connections in the pool, with
threads and on their way; and a thread that gets a connection next gets a new one, or one that is in
the pool and not broken. -/
theorem connections_exclusive [Fintype T] (h : Reachable s) :
    (∀ t conn, s.phases t = .holding conn → conn ∉ s.shared.pool ∧ conn ∉ s.shared.closed ∧
      ∀ u, s.phases u = .holding conn → u = t) ∧
      s.shared.pool.Nodup ∧ (∀ conn ∈ s.shared.pool, conn ∉ s.shared.closed) ∧
      (s.shared.pool.length + total busy s.phases : ℤ) ≤ maxConnections ∧
      ∀ s', Step s s' → ∀ t conn, s'.phases t = .holding conn →
        s.phases t = .holding conn ∨ conn = s.opened ∨
          (s.dead conn = false ∧ conn ∈ s.shared.pool) := by
  have howned := owned_of_reachable h
  have hcounted := counted_of_reachable h
  refine ⟨fun t conn ht ↦ ⟨howned.apart t conn ht, (howned.held t conn ht).2, ?_⟩, howned.nodup,
    fun conn hmem ↦ (howned.pooled conn hmem).2, ?_, fun s' hstep t conn ↦ holding_of_step hstep⟩
  · exact fun u hu ↦ howned.single u t conn hu ht
  · rw [← hcounted.active_eq]
    exact hcounted.active_le

/-! ### A thread that waits -/

/-- Ten threads open connections. -/
def crowded : State (Fin 11) := [0, 1, 2, 3, 4, 5, 6, 7, 8, 9].foldl (fun s t ↦ s.acquire t) {}

theorem crowded_reachable : Reachable crowded := by
  rw [crowded]
  repeat
    first
    | exact .start
    | refine .step ?_ (.acquire _ _ rfl (by decide))

/-- Another thread comes, and one of the ten has its connection. -/
def oneOpened : State (Fin 11) :=
  let s := crowded.move 10 .waiting
  { s.move 0 (.holding s.opened) with opened := s.opened + 1 }

theorem oneOpened_reachable : Reachable oneOpened :=
  (crowded_reachable.step (.sleep _ 10 rfl (by decide))).step (.serve (.opened _ 0 rfl))

/-- The connection is put back, and the thread that waits is woken and takes it. -/
def handedOn : State (Fin 11) :=
  (((oneOpened.putBack 0).move 0 .idle).move 10 .notified).acquire 10

theorem handedOn_reachable : Reachable handedOn :=
  (oneOpened_reachable.step (.serve (.release _ 0 0 rfl rfl 10 rfl))).step
    (.serve (.acquire _ 10 rfl (by decide)))

/-- The connection that was handed on is in one place. -/
theorem handedOn_exclusive :
    handedOn.phases 10 = .holding 0 ∧ 0 ∉ handedOn.shared.pool ∧ 0 ∉ handedOn.shared.closed ∧
      (∀ u, handedOn.phases u = .holding 0 → u = 10) ∧
      (handedOn.shared.pool.length + total busy handedOn.phases : ℤ) ≤ maxConnections := by
  have hexclusive := connections_exclusive handedOn_reachable
  have hheld : handedOn.phases 10 = .holding 0 := rfl
  obtain ⟨hpool, hclosed, hsingle⟩ := hexclusive.1 10 0 hheld
  exact ⟨hheld, hpool, hclosed, hsingle, hexclusive.2.2.2.1⟩

end Results

end Sql

end Agora
