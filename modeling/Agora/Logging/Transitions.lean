import Agora.Logging.Buffer
import Mathlib.Data.List.Destutter

/-!
# Changes of the stores that are told

A store is looked at again and again, and the log tells only the changes. What was told last about a
component is kept with it, so that each call compares with the call before; calls about other
components, other events and the worker make no difference.

**Main results.** The calls that tell the availability of a component are those where its state is
another one than at the call before, and the first one if the component is away
(`availabilityReports_eq`). The calls that tell its primary give the pairs of neighbours among the
names it was reported with, each run of one name taken once (`primaryReports_eq`).
-/

namespace Agora

namespace Logging

/-! ## Calls -/

section Calls

variable {config : Config} {context : RequestLogContext} {stamp : Stamp}

theorem enqueueLocked_recorded (entry : Entry) (b : Buffer) :
    (b.enqueueLocked config context stamp entry).recorded
      = b.recorded ++ [logEvent config context stamp entry] := by
  rw [Buffer.enqueueLocked]
  split
  · rw [Buffer.warnOverflow]
    split
    · rfl
    · rfl
  · rfl

/-- A component that nothing was told about is taken to be there. -/
def Buffer.healthOf (component : String) (b : Buffer) : Bool :=
  (b.availability.lookup component).getD true

/-- What the buffer knows of the components after a call. -/
structure Knows (name : String) (healthy : Bool) (b b' : Buffer) : Prop where
  healthOf : ∀ other, b'.healthOf other = if name = other then healthy else b.healthOf other
  primaries : b'.primaries = b.primaries

theorem Knows.of_set (name : String) (healthy : Bool) (b : Buffer) :
    Knows name healthy b { b with availability := Assoc.set name healthy b.availability } := by
  constructor
  · intro other
    rw [Buffer.healthOf, Assoc.lookup_set]
    split
    · rfl
    · rfl
  · rfl

variable (config context stamp) in
theorem Knows.enqueueLocked {name : String} {healthy : Bool} {b known : Buffer}
    (h : Knows name healthy b known) (entry : Entry) :
    Knows name healthy b (known.enqueueLocked config context stamp entry) := by
  have hfacts := enqueueLocked_facts config context stamp entry known
  constructor
  · intro other
    rw [← h.healthOf]
    exact congrArg (fun facts ↦ (facts.1.lookup other).getD true) hfacts
  · exact (congrArg (fun facts ↦ facts.2.1) hfacts).trans h.primaries

variable (config context stamp) in
/-- A call tells whether its component has changed, and keeps what it was told. -/
theorem reportAvailability_spec (hconfigured : config.configured) (name : String) (healthy : Bool)
    (details : Json) (b : Buffer) :
    let r := b.reportAvailability config context stamp name healthy details
    r.1 = decide (b.healthOf name ≠ healthy) ∧ Knows name healthy b r.2 ∧
      r.2.recorded = b.recorded ++ if r.1 then
        [logEvent config context stamp (availabilityEntry name healthy details)] else [] := by
  have hset := Knows.of_set name healthy b
  have htold := hset.enqueueLocked config context stamp (availabilityEntry name healthy details)
  rw [Buffer.reportAvailability, if_pos hconfigured]
  rcases hlookup : b.availability.lookup name with _ | previous
  · have hhealth : b.healthOf name = true := by rw [Buffer.healthOf, hlookup]; rfl
    rw [hhealth]
    rcases healthy with _ | _
    · exact ⟨rfl, htold, enqueueLocked_recorded _ _⟩
    · exact ⟨rfl, hset, (List.append_nil _).symm⟩
  · have hhealth : b.healthOf name = previous := by rw [Buffer.healthOf, hlookup]; rfl
    rw [hhealth]
    dsimp only
    split
    · next heq =>
      refine ⟨by simp [heq], ⟨fun other ↦ ?_, rfl⟩, (List.append_nil _).symm⟩
      split
      · next hother => rw [← hother, hhealth, heq]
      · rfl
    · next hne => exact ⟨by simp [hne], htold, enqueueLocked_recorded _ _⟩

end Calls

/-! ## Runs -/

/-- The first of what destuttering leaves is where it started. -/
theorem destutter'_ne_eq_cons {α : Type*} [DecidableEq α] (a : α) (l : List α) :
    ∃ rest, l.destutter' (· ≠ ·) a = a :: rest := by
  induction l generalizing a with
  | nil => exact ⟨[], List.destutter'_nil _⟩
  | cons b l ih =>
    by_cases h : a ≠ b
    · exact ⟨_, List.destutter'_cons_pos l h⟩
    · rw [List.destutter'_cons_neg l h]
      exact ih a

section Availability

variable (config : Config) (component : String)

/-- Whether a component is there, by the calls about it. -/
def availabilityValues : List Action → List Bool
  | [] => []
  | .availability _ _ name healthy _ :: actions =>
    if name = component then healthy :: availabilityValues actions else availabilityValues actions
  | _ :: actions => availabilityValues actions

/-- What the calls tell about a component. -/
def availabilityReports : List Action → System → List Bool
  | [], _ => []
  | .availability context stamp name healthy details :: actions, s =>
    let told := (s.buffer.reportAvailability config context stamp name healthy details).1
    let rest := availabilityReports actions
      (s.step config (.availability context stamp name healthy details))
    if name = component ∧ told then healthy :: rest else rest
  | action :: actions, s => availabilityReports actions (s.step config action)

variable {config component}

theorem reportPrimaryChange_availability (context : RequestLogContext) (stamp : Stamp)
    (name primary : String) (b : Buffer) :
    (b.reportPrimaryChange config context stamp name primary).2.availability = b.availability := by
  rw [Buffer.reportPrimaryChange]
  split
  · rcases b.primaries.lookup name with _ | previous
    · rfl
    · dsimp only
      split
      · rfl
      · exact congrArg Prod.fst (enqueueLocked_facts config context stamp _ _)
  · rfl

/-- Only a call about the availability of a component changes what is known of it. -/
theorem step_availability {action : Action}
    (h : ∀ context stamp name healthy details,
      action ≠ .availability context stamp name healthy details) (s : System) :
    (s.step config action).buffer.availability = s.buffer.availability := by
  cases action with
  | record context stamp entry =>
    exact congrArg Prod.fst (record_facts config context stamp entry s.buffer)
  | availability context stamp name healthy details => exact absurd rfl (h _ _ _ _ _)
  | primary context stamp name primary =>
    exact reportPrimaryChange_availability context stamp name primary s.buffer
  | stop => rfl
  | work client exchange =>
    rw [System.step]
    split
    · exact congrArg Prod.fst (work_facts config client exchange s)
    · rfl

theorem step_healthOf {action : Action}
    (h : ∀ context stamp name healthy details,
      action ≠ .availability context stamp name healthy details) (s : System) :
    (s.step config action).buffer.healthOf component = s.buffer.healthOf component := by
  rw [Buffer.healthOf, Buffer.healthOf, step_availability h]

/-- **Availability.** The calls that tell something are those where the component is not as it was
at the call before; a component is taken to be there at first. -/
theorem availabilityReports_eq (hconfigured : config.configured) (actions : List Action)
    (s : System) :
    availabilityReports config component actions s
      = ((availabilityValues component actions).destutter' (· ≠ ·)
          (s.buffer.healthOf component)).tail := by
  induction actions generalizing s with
  | nil => rfl
  | cons action actions ih =>
    cases action with
    | availability context stamp name healthy details =>
      have hspec := reportAvailability_spec config context stamp hconfigured name healthy details
        s.buffer
      have hafter :
          (s.step config (.availability context stamp name healthy details)).buffer.healthOf
              component
            = if name = component then healthy else s.buffer.healthOf component :=
        hspec.2.1.healthOf component
      rw [availabilityReports, availabilityValues, ih, hafter, hspec.1]
      by_cases hname : name = component
      · rw [if_pos hname, if_pos hname, hname]
        by_cases hchange : s.buffer.healthOf component ≠ healthy
        · rw [if_pos ⟨rfl, decide_eq_true hchange⟩, List.destutter'_cons_pos _ hchange]
          obtain ⟨rest, hrest⟩ :=
            destutter'_ne_eq_cons healthy (availabilityValues component actions)
          rw [hrest]
          rfl
        · rw [List.destutter'_cons_neg _ hchange, not_not.mp hchange]
          simp
      · rw [if_neg hname, if_neg hname, if_neg fun h ↦ hname h.1]
    | record context stamp entry =>
      have hrest := ih (s.step config (.record context stamp entry))
      rw [step_healthOf (by simp)] at hrest
      exact hrest
    | primary context stamp name primary =>
      have hrest := ih (s.step config (.primary context stamp name primary))
      rw [step_healthOf (by simp)] at hrest
      exact hrest
    | stop =>
      have hrest := ih (s.step config .stop)
      rw [step_healthOf (by simp)] at hrest
      exact hrest
    | work client exchange =>
      have hrest := ih (s.step config (.work client exchange))
      rw [step_healthOf (by simp)] at hrest
      exact hrest

end Availability

section Primaries

variable (config : Config) (component : String)

/-- The names of the primary of a component, by the calls about it. -/
def primaryValues : List Action → List String
  | [] => []
  | .primary _ _ name primary :: actions =>
    if name = component ∧ primary ≠ "" then primary :: primaryValues actions
    else primaryValues actions
  | _ :: actions => primaryValues actions

/-- What the calls tell about the primary of a component: its last name and the new one. -/
def primaryReports : List Action → System → List (String × String)
  | [], _ => []
  | .primary context stamp name primary :: actions, s =>
    let told := (s.buffer.reportPrimaryChange config context stamp name primary).1
    let rest := primaryReports actions (s.step config (.primary context stamp name primary))
    if name = component ∧ told then
      ((s.buffer.primaries.lookup name).getD "", primary) :: rest
    else rest
  | action :: actions, s => primaryReports actions (s.step config action)

variable {config component}

/-- A call tells whether the primary is another one, and keeps its name. -/
theorem reportPrimaryChange_spec (hconfigured : config.configured) (context : RequestLogContext)
    (stamp : Stamp) (name primary : String) (b : Buffer) :
    let r := b.reportPrimaryChange config context stamp name primary
    (∀ other, r.2.primaries.lookup other =
      if name = other ∧ primary ≠ "" then some primary else b.primaries.lookup other) ∧
      ((r.1 = false ∧ (primary ≠ "" → b.primaries.lookup name ∈ [none, some primary]) ∧
          r.2.recorded = b.recorded) ∨
        ∃ previous, r.1 = true ∧ b.primaries.lookup name = some previous ∧ previous ≠ primary ∧
          primary ≠ "" ∧ r.2.recorded = b.recorded ++
            [logEvent config context stamp (primaryEntry name previous primary)]) := by
  have hset : ∀ other, (Assoc.set name primary b.primaries).lookup other
      = if name = other then some primary else b.primaries.lookup other :=
    fun other ↦ Assoc.lookup_set name other primary b.primaries
  rw [Buffer.reportPrimaryChange, hconfigured, Bool.true_and]
  by_cases hprimary : primary = ""
  · rw [if_neg (by simp [hprimary])]
    exact ⟨fun other ↦ by simp [hprimary], Or.inl ⟨rfl, fun h ↦ absurd hprimary h, rfl⟩⟩
  · rw [if_pos (decide_eq_true hprimary)]
    rcases hlookup : b.primaries.lookup name with _ | previous
    · exact ⟨fun other ↦ by simp [hset, hprimary], Or.inl ⟨rfl, by simp, rfl⟩⟩
    · dsimp only
      split
      · next heq =>
        refine ⟨fun other ↦ ?_, Or.inl ⟨rfl, by simp [heq], rfl⟩⟩
        split
        · next h => rw [← h.1, hlookup, heq]
        · rfl
      · next hne =>
        refine ⟨fun other ↦ ?_, Or.inr ⟨previous, rfl, rfl, hne, hprimary, ?_⟩⟩
        · have hfacts := enqueueLocked_facts config context stamp
            (primaryEntry name previous primary)
            { b with primaries := Assoc.set name primary b.primaries }
          have hprimaries := congrArg (fun facts ↦ facts.2.1.lookup other) hfacts
          refine hprimaries.trans ((hset other).trans ?_)
          simp [hprimary]
        · exact enqueueLocked_recorded _ _

theorem step_primaries {action : Action}
    (h : ∀ context stamp name primary, action ≠ .primary context stamp name primary)
    (s : System) : (s.step config action).buffer.primaries = s.buffer.primaries := by
  cases action with
  | record context stamp entry =>
    exact congrArg (fun facts ↦ facts.2.1) (record_facts config context stamp entry s.buffer)
  | availability context stamp name healthy details =>
    by_cases hconfigured : config.configured
    · exact (reportAvailability_spec config context stamp hconfigured name healthy details
        s.buffer).2.1.primaries
    · rw [System.step, Buffer.reportAvailability, if_neg hconfigured]
  | primary context stamp name primary => exact absurd rfl (h _ _ _ _)
  | stop => rfl
  | work client exchange =>
    rw [System.step]
    split
    · exact congrArg (fun facts ↦ facts.2.1) (work_facts config client exchange s)
    · rfl

/-- The pairs of neighbours among the names, where a run of one name counts once. -/
def changesOf (last : Option String) (names : List String) : List (String × String) :=
  let distinct := (last.toList ++ names).destutter (· ≠ ·)
  distinct.zip distinct.tail

theorem changesOf_none (name : String) (names : List String) :
    changesOf none (name :: names) = changesOf (some name) names := rfl

theorem changesOf_same (name : String) (names : List String) :
    changesOf (some name) (name :: names) = changesOf (some name) names := by
  have hsame : (name :: names).destutter' (· ≠ ·) name = names.destutter' (· ≠ ·) name :=
    List.destutter'_cons_neg _ (not_not.mpr rfl)
  exact congrArg (fun distinct : List String ↦ distinct.zip distinct.tail) hsame

theorem changesOf_change {previous name : String} (h : previous ≠ name) (names : List String) :
    changesOf (some previous) (name :: names)
      = (previous, name) :: changesOf (some name) names := by
  have hchange : (name :: names).destutter' (· ≠ ·) previous
      = previous :: names.destutter' (· ≠ ·) name := List.destutter'_cons_pos _ h
  obtain ⟨rest, hrest⟩ := destutter'_ne_eq_cons name names
  have hzip : changesOf (some name) names = (name :: rest).zip rest :=
    congrArg (fun distinct : List String ↦ distinct.zip distinct.tail) hrest
  rw [hzip]
  rw [hrest] at hchange
  exact congrArg (fun distinct : List String ↦ distinct.zip distinct.tail) hchange

/-- **Primaries.** What is told is one name after the other, without a gap. -/
theorem primaryReports_eq (hconfigured : config.configured) (actions : List Action) (s : System) :
    primaryReports config component actions s
      = changesOf (s.buffer.primaries.lookup component) (primaryValues component actions) := by
  induction actions generalizing s with
  | nil =>
    rw [primaryReports, primaryValues]
    rcases s.buffer.primaries.lookup component with _ | last
    · rfl
    · rfl
  | cons action actions ih =>
    cases action with
    | primary context stamp name primary =>
      obtain ⟨hlookup, hcases⟩ := reportPrimaryChange_spec hconfigured context stamp name primary
        s.buffer
      have hafter : (s.step config (.primary context stamp name primary)).buffer.primaries.lookup
          component = if name = component ∧ primary ≠ "" then some primary
            else s.buffer.primaries.lookup component := hlookup component
      rw [primaryReports, primaryValues, ih, hafter]
      by_cases hname : name = component ∧ primary ≠ ""
      · rw [if_pos hname, if_pos hname]
        obtain ⟨rfl, hprimary⟩ := hname
        rcases hcases with ⟨htold, hknown, hrec⟩ | ⟨previous, htold, hknown, hne, hprim, hrec⟩
        · rw [htold, if_neg (by simp)]
          rcases List.mem_pair.mp (hknown hprimary) with hnone | hsame
          · rw [hnone, changesOf_none]
          · rw [hsame, changesOf_same]
        · rw [htold, hknown, if_pos ⟨rfl, rfl⟩, changesOf_change hne]
          rfl
      · rw [if_neg hname, if_neg hname, if_neg]
        rintro ⟨heq, htold⟩
        rcases hcases with ⟨hsilent, hrest⟩ | ⟨previous, hrest, hknown, hne, hprimary, hrec⟩
        · rw [hsilent] at htold
          cases htold
        · exact hname ⟨heq, hprimary⟩
    | record context stamp entry =>
      have hrest := ih (s.step config (.record context stamp entry))
      rw [step_primaries (by simp)] at hrest
      exact hrest
    | availability context stamp name healthy details =>
      have hrest := ih (s.step config (.availability context stamp name healthy details))
      rw [step_primaries (by simp)] at hrest
      exact hrest
    | stop =>
      have hrest := ih (s.step config .stop)
      rw [step_primaries (by simp)] at hrest
      exact hrest
    | work client exchange =>
      have hrest := ih (s.step config (.work client exchange))
      rw [step_primaries (by simp)] at hrest
      exact hrest

end Primaries

/-- A store that was away, and one that was never. -/
theorem away_reported :
    availabilityReports ⟨true, "a", "local", "1", 100, Nat.succ_pos 99⟩ "redis"
        [.availability {} ⟨"1", 0⟩ "redis" true .null,
          .availability {} ⟨"2", 0⟩ "redis" false .null,
          .availability {} ⟨"3", 0⟩ "mssql" true .null,
          .availability {} ⟨"4", 0⟩ "redis" false .null,
          .availability {} ⟨"5", 0⟩ "redis" true .null]
        {}
      = [false, true] :=
  availabilityReports_eq rfl _ {}

/-- A primary that was lost to another. -/
theorem failover_reported :
    primaryReports ⟨true, "a", "local", "1", 100, Nat.succ_pos 99⟩ "redis"
        [.primary {} ⟨"1", 0⟩ "redis" "a", .primary {} ⟨"2", 0⟩ "redis" "a",
          .primary {} ⟨"3", 0⟩ "redis" "b"] {}
      = [("a", "b")] :=
  primaryReports_eq rfl _ {}

end Logging

end Agora
