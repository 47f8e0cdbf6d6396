import Agora.Sql.Exclusive

/-!
# Nobody waits for ever

A thread sleeps when there is no room, and room is made one at a time: a connection that is put back
wakes one thread, a connection that is given up wakes all. As long as somebody sleeps there are as
many threads awake as there is room, or a thread is about to wake all (`awake_of_reachable`), so no
room is left unseen, although threads that come later may be faster than those that were woken.

**Main result.** When no more threads come, all that have come are served: each of their steps makes
a rank smaller, and where no step is left nobody waits (`requests_finish`).
-/

namespace Agora

namespace Sql

open Threads (total total_update total_comp total_eq_zero total_le_mul_card of_update_of_ne
  update_of_ne_place)

variable {T : Type}

/-! ## Room -/

/-- The connections in the pool and those that may still be opened. -/
def State.room (s : State T) : ℤ :=
  s.shared.pool.length + (maxConnections - s.shared.activeConnections)

/-- The thread was woken. -/
def awake : Phase → ℕ
  | .notified => 1
  | _ => 0

/-- Where there is no room, none is counted. -/
theorem room_of_not_free {s : State T} (hfull : ¬s.Free) : s.room ≤ 0 := by
  obtain ⟨hpool, hactive⟩ := not_or.mp hfull
  rw [State.room, not_not.mp hpool, List.length_nil]
  omega

theorem notifyAll_waiting (s : State T) (t : T) : s.notifyAll.phases t ≠ .waiting := by
  have hwake : ∀ phase, wake phase ≠ .waiting := by
    intro phase
    rcases phase with _ | _ | _ | _ | _ | conn
    all_goals
      intro h
      cases h
  exact hwake (s.phases t)

/-- While somebody sleeps, as many threads are awake as there is room, or one is about to wake all
others. -/
def Awake [Fintype T] (s : State T) : Prop :=
  (∃ t, s.phases t = .waiting) →
    (∃ t, s.phases t = .notifying) ∨ s.room ≤ (total awake s.phases : ℤ)

theorem awake_of_nobody [Fintype T] {s : State T} (h : ∀ t, s.phases t ≠ .waiting) : Awake s := by
  rintro ⟨t, ht⟩
  exact absurd ht (h t)

variable [DecidableEq T]

theorem room_acquire (s : State T) (t : T) : (s.acquire t).room = s.room - 1 := by
  have hactive := @acquireFrom_active s.dead s.shared.pool s.shared.closed
    s.shared.activeConnections
  rw [State.acquire, State.room, State.room]
  dsimp only
  omega

/-- A thread that acquires neither sleeps nor is woken then. -/
theorem phases_acquire (s : State T) (t : T) :
    ∃ phase, (s.acquire t).phases = Function.update s.phases t phase ∧
      (phase = .opening ∨ ∃ conn, phase = .holding conn) := by
  rw [State.acquire]
  rcases (acquireFrom s.dead s.shared.pool s.shared.activeConnections s.shared.closed).1
    with _ | conn
  · exact ⟨_, rfl, Or.inl rfl⟩
  · exact ⟨_, rfl, Or.inr ⟨conn, rfl⟩⟩

variable [Fintype T] {s s' : State T}

/-- One thread moves between places where it neither sleeps nor is about to wake others; if it was
awake, there is less room. -/
theorem Awake.move (h : Awake s) {t : T} {phase : Phase}
    (hphases : s'.phases = Function.update s.phases t phase) (hsleeps : phase ≠ .waiting)
    (hnotifying : s.phases t ≠ .notifying)
    (hroom : s'.room + awake (s.phases t) ≤ s.room + awake phase) : Awake s' := by
  rintro ⟨u, hu⟩
  rw [hphases] at hu ⊢
  rcases h ⟨u, of_update_of_ne hsleeps hu⟩ with ⟨v, hv⟩ | hle
  · exact Or.inl ⟨v, update_of_ne_place hnotifying hv⟩
  · have htotal := total_update awake s.phases t phase
    exact Or.inr (by omega)

/-- Whoever acquires takes the room that it was woken for, or that of another one. -/
theorem Awake.acquire (h : Awake s) {t : T} (ht : s.phases t = .notified ∨ s.phases t = .idle) :
    Awake (s.acquire t) := by
  obtain ⟨phase, hphases, hphase⟩ := phases_acquire s t
  have hawake : awake phase = 0 := by
    rcases hphase with rfl | ⟨conn, rfl⟩
    · rfl
    · rfl
  have hle : awake (s.phases t) ≤ 1 := by
    rcases ht with ht | ht
    · rw [ht]
      exact Nat.le_refl 1
    · rw [ht]
      exact Nat.zero_le 1
  refine h.move hphases ?_ ?_ ?_
  · rcases hphase with rfl | ⟨conn, rfl⟩
    · simp
    · simp
  · rcases ht with ht | ht
    · simp [ht]
    · simp [ht]
  · rw [room_acquire]
    omega

/-- Room for one is made, and one is woken. -/
theorem Awake.release (h : Awake s) {t u : T} {conn : ℕ} (ht : s.phases t = .holding conn)
    (hu : s.phases u = .waiting) :
    Awake (((s.putBack conn).move t .idle).move u .notified) := by
  have hut : u ≠ t := by
    rintro rfl
    rw [ht] at hu
    cases hu
  intro _
  rcases h ⟨u, hu⟩ with ⟨v, hv⟩ | hle
  · have hleft : Function.update s.phases t .idle v = .notifying :=
      update_of_ne_place (by simp [ht]) hv
    have hasleep : Function.update s.phases t .idle u ≠ .notifying := by
      rw [Function.update_of_ne hut, hu]
      simp
    exact Or.inl ⟨v, update_of_ne_place hasleep hleft⟩
  · have hidle := total_update awake s.phases t .idle
    have hwoken := total_update awake (Function.update s.phases t .idle) u .notified
    rw [Function.update_of_ne hut, hu] at hwoken
    rw [ht] at hidle
    have hzero : awake .idle = 0 ∧ awake (.holding conn) = 0 ∧ awake .waiting = 0 ∧
      awake .notified = 1 := ⟨rfl, rfl, rfl, rfl⟩
    have hroom : (((s.putBack conn).move t .idle).move u .notified).room = s.room + 1 := by
      dsimp only [State.room, State.move, State.putBack]
      rw [List.length_cons]
      push_cast
      omega
    refine Or.inr ?_
    rw [hroom]
    dsimp only [State.move, State.putBack]
    omega

theorem Awake.serve (h : Awake s) (hserve : Serve s s') : Awake s' := by
  cases hserve with
  | acquire t ht hfree => exact h.acquire (Or.inl ht)
  | sleep t ht hfull =>
    intro _
    exact Or.inr ((room_of_not_free hfull).trans (Int.natCast_nonneg _))
  | opened t ht => exact h.move rfl (by simp) (by simp [ht]) (by rw [ht]; exact Int.le_refl _)
  | failed t ht =>
    intro _
    exact Or.inl ⟨t, Function.update_self _ _ _⟩
  | notify t ht => exact awake_of_nobody (notifyAll_waiting _)
  | release t conn ht halive u hu => exact h.release ht hu
  | releaseQuietly t conn ht halive hnobody =>
    exact awake_of_nobody fun u hu ↦ hnobody u (of_update_of_ne (by simp) hu)
  | discard t conn ht => exact awake_of_nobody (notifyAll_waiting _)

theorem Awake.step (h : Awake s) (hstep : Step s s') : Awake s' := by
  cases hstep with
  | serve hserve => exact h.serve hserve
  | acquire t ht hfree => exact h.acquire (Or.inr ht)
  | sleep t ht hfull =>
    intro _
    exact Or.inr ((room_of_not_free hfull).trans (Int.natCast_nonneg _))
  | wakeUp t ht =>
    refine h.move rfl (by simp) (by simp [ht]) ?_
    rw [ht]
    exact Int.add_le_add_left (by decide) _
  | breakDown conn => exact h

theorem awake_of_reachable (h : Reachable s) : Awake s := by
  induction h with
  | start => exact awake_of_nobody (by simp)
  | step h hstep ih => exact ih.step hstep

/-- **No lost wakeups.** In every state that can be reached, when somebody sleeps although there is
a connection, or room for one, somebody else is awake or about to wake all. -/
theorem awake_of_free (h : Reachable s) {t : T} (ht : s.phases t = .waiting) (hfree : s.Free) :
    ∃ u, s.phases u = .notified ∨ s.phases u = .notifying := by
  rcases awake_of_reachable h ⟨t, ht⟩ with ⟨u, hu⟩ | hroom
  · exact ⟨u, Or.inr hu⟩
  · have hle := (counted_of_reachable h).active_le
    have hpool : 0 < s.shared.pool.length ∨ s.shared.activeConnections < maxConnections :=
      hfree.imp_left List.length_pos_iff.mpr
    have hpos : total awake s.phases ≠ 0 := by
      rw [State.room] at hroom
      omega
    obtain ⟨u, hu⟩ := not_forall.mp (mt total_eq_zero.mpr hpos)
    refine ⟨u, Or.inl ?_⟩
    rcases hphase : s.phases u with _ | _ | _ | _ | _ | conn
    case notified => rfl
    all_goals
      rw [hphase] at hu
      exact absurd rfl hu

/-- Ten threads open connections, another one sleeps, and one of the ten fails. -/
theorem failed_wakes :
    let s : State (Fin 11) := ((State.giveUp (State.move 10 .waiting
      ([0, 1, 2, 3, 4, 5, 6, 7, 8, 9].foldl (fun s t ↦ s.acquire t) {}))).move 0 .notifying)
    ∃ u, s.phases u = .notified ∨ s.phases u = .notifying := by
  intro s
  have hsleeping := crowded_reachable.step (.sleep _ 10 rfl (by decide))
  have hfailed := hsleeping.step (.serve (.failed _ 0 rfl))
  have hasleep : s.phases 10 = .waiting := rfl
  exact awake_of_free hfailed hasleep (by decide)

/-! ## Progress -/

/-- The steps that a thread has before it, at most, when it does not fall asleep again. -/
def stage : Phase → ℕ
  | .idle => 0
  | .waiting => 3
  | .notified => 3
  | .opening => 2
  | .notifying => 1
  | .holding _ => 1

/-- A thread that goes on makes the first part smaller, and may wake all others; one that falls
asleep again makes the second part smaller. -/
def State.rank (s : State T) : ℕ :=
  total stage s.phases * (Fintype.card T + 1) + total awake s.phases

theorem awake_le (phase : Phase) : awake phase ≤ 1 := by
  rcases phase with _ | _ | _ | _ | _ | conn
  case notified => exact Nat.le_refl 1
  all_goals exact Nat.zero_le 1

theorem stage_le (phase : Phase) : stage phase ≤ 3 := by
  rcases phase with _ | _ | _ | _ | _ | conn
  case holding => exact Nat.le_add_left 1 2
  all_goals decide

theorem stage_wake : stage ∘ wake = stage := by
  funext phase
  rcases phase with _ | _ | _ | _ | _ | conn
  all_goals rfl

omit [DecidableEq T] in
/-- Going on counts more than waking others. -/
theorem rank_lt_of_stage {s s' : State T}
    (h : total stage s'.phases + 1 ≤ total stage s.phases) : s'.rank < s.rank := by
  have hawake : total awake s'.phases ≤ 1 * Fintype.card T := total_le_mul_card awake_le
  have hmul : (total stage s'.phases + 1) * (Fintype.card T + 1)
      ≤ total stage s.phases * (Fintype.card T + 1) := Nat.mul_le_mul_right _ h
  rw [Nat.add_mul, Nat.one_mul] at hmul
  rw [State.rank, State.rank]
  omega

/-- The thread goes on, and others may be woken. -/
theorem stage_move {t : T} {phase : Phase} (h : stage phase < stage (s.phases t)) :
    total stage (Function.update s.phases t phase) + 1 ≤ total stage s.phases := by
  have htotal := total_update stage s.phases t phase
  omega

theorem Serve.rank_lt (hserve : Serve s s') : s'.rank < s.rank := by
  cases hserve with
  | acquire t ht hfree =>
    obtain ⟨phase, hphases, hphase⟩ := phases_acquire s t
    apply rank_lt_of_stage
    rw [hphases]
    apply stage_move
    rw [ht]
    rcases hphase with rfl | ⟨conn, rfl⟩
    · decide
    · exact (by decide : 1 < 3)
  -- a thread that goes to sleep stays in its stage, and is not awake any more
  | sleep t ht hfull =>
    have hstage := total_update stage s.phases t .waiting
    have hawake := total_update awake s.phases t .waiting
    rw [ht] at hstage hawake
    have hsame : total stage (Function.update s.phases t .waiting) = total stage s.phases :=
      Nat.add_right_cancel hstage
    have hless : total awake (Function.update s.phases t .waiting) + 1
        = total awake s.phases := hawake
    rw [State.rank, State.rank, State.move]
    dsimp only
    rw [hsame]
    omega
  | opened t ht =>
    have hless : stage (.holding s.opened) < stage (s.phases t) := by
      rw [ht]
      exact Nat.lt_succ_self 1
    exact rank_lt_of_stage (stage_move hless)
  | failed t ht =>
    have hless : stage .notifying < stage (s.phases t) := by
      rw [ht]
      exact Nat.lt_succ_self 1
    exact rank_lt_of_stage (stage_move hless)
  | notify t ht =>
    have hless : stage .idle < stage (s.phases t) := by
      rw [ht]
      exact Nat.lt_succ_self 0
    apply rank_lt_of_stage
    rw [State.notifyAll, total_comp, stage_wake]
    exact stage_move hless
  | release t conn ht halive u hu =>
    have hut : u ≠ t := by
      rintro rfl
      rw [ht] at hu
      cases hu
    have hless : stage .idle < stage (s.phases t) := by
      rw [ht]
      exact Nat.lt_succ_self 0
    have hwoken := total_update stage (Function.update s.phases t .idle) u .notified
    rw [Function.update_of_ne hut, hu] at hwoken
    apply rank_lt_of_stage
    -- the thread that is woken stays in its stage too
    have hsame : total stage (Function.update (Function.update s.phases t .idle) u .notified)
        = total stage (Function.update s.phases t .idle) := Nat.add_right_cancel hwoken
    exact hsame ▸ stage_move hless
  | releaseQuietly t conn ht halive hnobody =>
    have hless : stage .idle < stage (s.phases t) := by
      rw [ht]
      exact Nat.lt_succ_self 0
    exact rank_lt_of_stage (stage_move hless)
  | discard t conn ht =>
    have hless : stage .idle < stage (s.phases t) := by
      rw [ht]
      exact Nat.lt_succ_self 0
    apply rank_lt_of_stage
    rw [State.notifyAll, total_comp, stage_wake]
    exact stage_move hless

/-- Steps of the threads that have come, and how many. -/
inductive Serves : ℕ → State T → State T → Prop where
  | none (s : State T) : Serves 0 s s
  | more {n : ℕ} {s s' s'' : State T} (h : Serves n s s') (hserve : Serve s' s'') :
      Serves (n + 1) s s''

theorem Serves.rank_le {n : ℕ} (h : Serves n s s') : n + s'.rank ≤ s.rank := by
  induction h with
  | none => exact (Nat.zero_add _).le
  | more h hserve ih =>
    have hless := hserve.rank_lt
    omega

omit [Fintype T] in
theorem Serves.reachable {n : ℕ} (h : Serves n s s') (hs : Reachable s) : Reachable s' := by
  induction h with
  | none => exact hs
  | more h hserve ih => exact (ih hs).step (.serve hserve)

/-- Where no thread can go on, no thread waits. -/
theorem idle_of_stuck (h : Reachable s) (hstuck : ∀ s', ¬Serve s s') (t : T) :
    s.phases t = .idle := by
  have hrest : ∀ u, s.phases u = .idle ∨ s.phases u = .waiting := by
    intro u
    rcases hu : s.phases u with _ | _ | _ | _ | _ | conn
    · exact Or.inl rfl
    · exact Or.inr rfl
    · by_cases hfree : s.Free
      · exact absurd (.acquire s u hu hfree) (hstuck _)
      · exact absurd (.sleep s u hu hfree) (hstuck _)
    · exact absurd (.opened s u hu) (hstuck _)
    · exact absurd (.notify s u hu) (hstuck _)
    · exact absurd (.discard s u conn hu) (hstuck _)
  refine (hrest t).resolve_right fun ht ↦ ?_
  -- All ten connections are in the pool or may be opened, and nobody was woken for them.
  have hbusy : total busy s.phases = 0 := total_eq_zero.mpr fun u ↦ by
    rcases hrest u with hu | hu <;> rw [hu] <;> rfl
  have hawake : total awake s.phases = 0 := total_eq_zero.mpr fun u ↦ by
    rcases hrest u with hu | hu <;> rw [hu] <;> rfl
  have hcounted := (counted_of_reachable h).active_eq
  rcases awake_of_reachable h ⟨t, ht⟩ with ⟨u, hu⟩ | hroom
  · rcases hrest u with hidle | hwaits
    · rw [hidle] at hu
      cases hu
    · rw [hwaits] at hu
      cases hu
  · have hten : maxConnections = 10 := rfl
    rw [State.room] at hroom
    omega

/-- **Progress.** From every state that can be reached, when no more threads come, only so many
steps are left, whatever their order and whichever connections fail; and where none is left, every
thread has been served. -/
theorem requests_finish {n : ℕ} (h : Reachable s) (hserves : Serves n s s') :
    n ≤ 3 * Fintype.card T * (Fintype.card T + 1) + Fintype.card T ∧
      ((∀ s'', ¬Serve s' s'') → ∀ t, s'.phases t = .idle) := by
  refine ⟨?_, fun hstuck t ↦ idle_of_stuck (hserves.reachable h) hstuck t⟩
  have hstage : total stage s.phases ≤ 3 * Fintype.card T := total_le_mul_card stage_le
  have hawake : total awake s.phases ≤ 1 * Fintype.card T := total_le_mul_card awake_le
  have hmul := Nat.mul_le_mul_right (Fintype.card T + 1) hstage
  have hle := hserves.rank_le
  rw [State.rank, State.rank] at hle
  omega

/-- A thread has waited for a connection, and has been handed one. -/
theorem handedOn_finishes :
    2 ≤ 3 * Fintype.card (Fin 11) * (Fintype.card (Fin 11) + 1) + Fintype.card (Fin 11) ∧
      ((∀ s'', ¬Serve handedOn s'') → ∀ t, handedOn.phases t = .idle) :=
  requests_finish oneOpened_reachable
    (.more (.more (.none _) (.release _ 0 0 rfl rfl 10 rfl)) (.acquire _ 10 rfl (by decide)))

end Sql

end Agora
