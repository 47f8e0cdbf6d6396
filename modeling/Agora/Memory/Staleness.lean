import Agora.Memory.Operations

/-!
# Stale entries

What the cache shows after operations whose replies may be lost. A clean region must show what
Redis holds at its place, and no region may be cached whose place is gone (`NoStale`); otherwise a
later read returns, or a later write back resurrects, a value that was replaced or deleted.

**Main result.** `noStale_of_safe`: in a run whose every step is safe (`SafeStep`), no state has a
stale entry. A step is unsafe when a command takes effect, its reply is lost, and the cache still
holds what the command changed: `write`, `erase` and `erasePattern` forget regions only after a
reply, where `executeAtomic` forgets them in any case.
-/

namespace Agora

namespace MemoryClass

open WriteBack

section Run

variable (platform : Platform) (options : Options)

/-- No entry is stale: every cached region is a place of the document in Redis, and shows what
Redis holds there unless it waits to be written back. -/
def NoStale (s : MemoryState) : Prop :=
  ∀ key r e, s.cache.view (key, r) = some e →
    ∃ p j u, IsRegion options r p ∧ s.redis.lookup key = some (.json j) ∧ j.find p = some u ∧
      (e.dirty = false → e.value = project options u)

/-- The cache would notice, or need not notice, what the operation changes: no command of it takes
effect with its reply lost at a place that stays cached clean, and a command given to
`executeAtomic` changes nothing outside its paths. -/
def Operation.Safe (net : Outcomes) (s : MemoryState) : Operation → Prop
  | write key value path => SafeWrite platform options net s key value path
  | erase key path => net.own = .lost →
      ∀ r, (s.cache.view (key, r)).isSome → ¬Touches options (erasedPath path) r
  | executeAtomic _ command paths => Respects command paths
  | erasePattern pattern => net.own = .lost →
      ∀ key ∈ matchedKeys platform s.redis pattern, ∀ r, s.cache.view (key, r) = none
  | read _ _ | readDocument _ | flush _ => True

/-- A safe operation, in a state whose dirty regions gain nothing when they are saved. -/
def SafeStep (s : MemoryState) (step : Operation × Outcomes) : Prop :=
  Settled options s.cache.view s.redis ∧ step.1.Safe platform options step.2 s

/-- Every step of the sequence is safe in the state it is taken in. -/
def SafeRun (s : MemoryState) : List (Operation × Outcomes) → Prop
  | [] => True
  | step :: steps => SafeStep platform options s step ∧
      SafeRun (step.1.run platform options step.2 s) steps

end Run

variable {platform : Platform} {options : Options}

theorem noStale_iff {s : MemoryState} : NoStale options s ↔
    Anchored options s.cache.view s.redis ∧ Fresh options s.cache.view s.redis := by
  refine ⟨fun h ↦ ⟨fun key r e he ↦ ?_, fun key r v hv ↦ ?_⟩, fun ⟨ha, hf⟩ key r e he ↦ ?_⟩
  · obtain ⟨p, j, u, hr, hj, hu, -⟩ := h key r e he
    exact ⟨p, j, u, hr, hj, hu⟩
  · obtain ⟨p, j, u, hr, hj, hu, hproj⟩ := h key r _ hv
    exact ⟨p, j, u, hr, hj, hu, hproj rfl⟩
  · obtain ⟨p, j, u, hr, hj, hu⟩ := ha key r e he
    refine ⟨p, j, u, hr, hj, hu, fun hclean ↦ ?_⟩
    obtain ⟨p', j', u', hr', hj', hu', hproj⟩ := hf key r e.value (by rw [he, ← hclean])
    obtain rfl := hr.unique hr'
    obtain rfl : j = j' := by simpa using hj.symm.trans hj'
    rw [hproj, Option.some.inj (hu.symm.trans hu')]

/-- A safe step keeps the invariant and leaves no stale entry. -/
theorem run_sound {s : MemoryState} (hs : Sound options s) (hstale : NoStale options s)
    {step : Operation × Outcomes} (hsafe : SafeStep platform options s step) :
    Sound options (step.1.run platform options step.2 s) ∧
      NoStale options (step.1.run platform options step.2 s) := by
  have hcoherent : Coherent options s := ⟨(noStale_iff.mp hstale).2, hsafe.1⟩
  have hdone : ∀ {s' : MemoryState}, Sound options s' →
      Fresh options s'.cache.view s'.redis → Sound options s' ∧ NoStale options s' :=
    fun h hf ↦ ⟨h, noStale_iff.mpr ⟨h.anchored, hf⟩⟩
  obtain ⟨operation, net⟩ := step
  have hop := hsafe.2
  cases operation with
  | read key path =>
    have h := read_calm platform net hs key path
    exact hdone h.sound (h.coherent hcoherent).fresh
  | readDocument key =>
    have h := readDocument_calm platform net hs key
    exact hdone h.sound (h.coherent hcoherent).fresh
  | write key value path =>
    obtain ⟨hsound, hfresh⟩ := write_sound platform net hs hop
    exact hdone hsound (hfresh hcoherent)
  | flush key =>
    have h := (flush_spec platform net hs key).1
    exact hdone h.sound (h.coherent hcoherent).fresh
  | erase key path =>
    obtain ⟨hsound, hc⟩ := erase_sound platform net hs hop
    exact hdone hsound (hc hcoherent).fresh
  | executeAtomic key command paths =>
    obtain ⟨hsound, hc⟩ := executeAtomic_sound platform net hs key hop
    exact hdone hsound (hc hcoherent).fresh
  | erasePattern pattern =>
    obtain ⟨hsound, hc⟩ := erasePattern_sound platform net hs hop
    exact hdone hsound (hc hcoherent).fresh

theorem runAll_sound {s : MemoryState} (hs : Sound options s) (hstale : NoStale options s)
    {steps : List (Operation × Outcomes)} (hsafe : SafeRun platform options s steps) :
    Sound options (runAll platform options s steps) ∧
      NoStale options (runAll platform options s steps) := by
  induction steps generalizing s with
  | nil => exact ⟨hs, hstale⟩
  | cons step steps ih =>
    obtain ⟨hstep, hrest⟩ := hsafe
    obtain ⟨hs', hstale'⟩ := run_sound hs hstale hstep
    exact ih hs' hstale' hrest

/-- **No stale entries.** In every run of operations, with whatever becomes of their commands, that
starts with an empty cache and takes safe steps only, every state is free of stale entries. -/
theorem noStale_of_safe (platform : Platform) (options : Options) (redis : Redis)
    (steps : List (Operation × Outcomes))
    (hsafe : SafeRun platform options (initial options redis) steps) :
    NoStale options (runAll platform options (initial options redis) steps) :=
  (runAll_sound (sound_initial redis) (fun key r e he ↦ by simp [initial] at he) hsafe).2

/-! ## A lost reply -/

/-- A document with one member, cached by two reads, and then written as a whole. -/
def lostWrite (fate : Fate) : List (Operation × Outcomes) :=
  [(.read "k" "$.a", .fine), (.read "k" "$.a", .fine),
    (.write "k" (.obj [("a", .int 2)]) "$", { Outcomes.fine with own := fate })]

theorem noStale_of_answered_write :
    SafeRun .plain { regionDepth := 1 }
        (initial { regionDepth := 1 } [("k", .json (.obj [("a", .int 1)]))])
        (lostWrite .answered) ∧
      NoStale { regionDepth := 1 } (runAll .plain { regionDepth := 1 }
        (initial { regionDepth := 1 } [("k", .json (.obj [("a", .int 1)]))])
        (lostWrite .answered)) := by
  have hsafe : SafeRun .plain { regionDepth := 1 }
      (initial { regionDepth := 1 } [("k", .json (.obj [("a", .int 1)]))])
      (lostWrite .answered) :=
    ⟨⟨settled_of_none rfl _ _, trivial⟩, ⟨settled_of_none rfl _ _, trivial⟩,
      ⟨settled_of_none rfl _ _, ⟨fun h ↦ (nomatch h), fun _ _ _ _ _ _ _ _ _ h ↦ (nomatch h)⟩⟩,
      trivial⟩
  exact ⟨hsafe, noStale_of_safe _ _ _ _ hsafe⟩

/-- A whole document is written, the reply is lost, and the cache goes on showing a value that Redis
has replaced. -/
theorem stale_after_lost_write :
    ¬NoStale { regionDepth := 1 } (runAll .plain { regionDepth := 1 }
        (initial { regionDepth := 1 } [("k", .json (.obj [("a", .int 1)]))]) (lostWrite .lost)) ∧
      (read .plain { regionDepth := 1 } .fine "k" "$.a" (runAll .plain { regionDepth := 1 }
        (initial { regionDepth := 1 } [("k", .json (.obj [("a", .int 1)]))])
        (lostWrite .lost))).1 = some [.int 1] ∧
      (runAll .plain { regionDepth := 1 }
        (initial { regionDepth := 1 } [("k", .json (.obj [("a", .int 1)]))])
        (lostWrite .lost)).redis = [("k", .json (.obj [("a", .int 2)]))] := by
  have hredis : (runAll .plain { regionDepth := 1 }
      (initial { regionDepth := 1 } [("k", .json (.obj [("a", .int 1)]))])
      (lostWrite .lost)).redis = [("k", .json (.obj [("a", .int 2)]))] := by decide +kernel
  have hview : (runAll .plain { regionDepth := 1 }
      (initial { regionDepth := 1 } [("k", .json (.obj [("a", .int 1)]))])
      (lostWrite .lost)).cache.view ("k", "$[\"a\"]") = some ⟨.int 1, false⟩ := by
    decide +kernel
  refine ⟨fun h ↦ ?_, by decide +kernel, hredis⟩
  obtain ⟨p, j, u, hr, hj, hu, hproj⟩ := h "k" _ _ hview
  obtain rfl : [Segment.key "a"] = p := by
    have hparse : parseJsonPath "$[\"a\"]" = some [.key "a"] := by decide +kernel
    exact Option.some.inj (hparse.symm.trans hr.parse)
  rw [hredis] at hj
  obtain rfl : Json.obj [("a", .int 2)] = j := by simpa using hj
  obtain rfl : Json.int 2 = u := by simpa [Json.find, Json.child] using hu
  have hstale := hproj rfl
  rw [project_of_none rfl] at hstale
  simp at hstale

end MemoryClass

end Agora
