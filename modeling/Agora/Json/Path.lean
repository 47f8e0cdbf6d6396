import Agora.Json.Basic
import Mathlib.Data.Option.Basic

/-!
# Locations in a JSON value

A location is a list of steps, each an object key or an array index. `find` follows it, `set`
replaces the value there (the last key may be new, everything before it must exist), and `prune`
removes every location a predicate selects, later array elements moving down.

Two locations are *apart* when neither is a prefix of the other. Everything a store does behind
the back of a reader is a write to a location apart from the one that is read, so the laws about
locations apart are what the cache proofs use.
-/

/-- One step of a location. -/
inductive Segment where
  | key (k : String)
  | index (i : ℕ)
  deriving DecidableEq, Inhabited

namespace Json

/-- The child of a value along one step. -/
def child : Segment → Json → Option Json
  | .key k, .obj fields => fields.lookup k
  | .index i, .arr elements => elements[i]?
  | _, _ => none

/-- Replace the child along one step; a key may be new, an index may not. -/
def putChild : Segment → Json → Json → Option Json
  | .key k, .obj fields, v => some (.obj (Assoc.set k v fields))
  | .index i, .arr elements, v =>
    if i < elements.length then some (.arr (elements.set i v)) else none
  | _, _, _ => none

/-- The value at a location. -/
def find : List Segment → Json → Option Json
  | [], j => some j
  | s :: p, j => (child s j).bind (find p)

/-- Replace the value at a location, whose parent must exist. -/
def set : List Segment → Json → Json → Option Json
  | [], _, v => some v
  | [s], j, v => putChild s j v
  | s :: t :: p, j, v => (child s j).bind fun c ↦ (set (t :: p) c v).bind (putChild s j)

/-! ## One step -/

theorem child_putChild_self {s : Segment} {j v j' : Json} (h : putChild s j v = some j') :
    child s j' = some v := by
  cases s <;> cases j <;> simp only [putChild, reduceCtorEq] at h
  · rw [← Option.some.inj h]
    simp [child]
  · split at h
    · next hi =>
      rw [← Option.some.inj h]
      simp [child, hi]
    · simp at h

theorem child_putChild_of_ne {s t : Segment} (hst : s ≠ t) {j v j' : Json}
    (h : putChild s j v = some j') : child t j' = child t j := by
  cases s <;> cases j <;> simp only [putChild, reduceCtorEq] at h
  · rw [← Option.some.inj h]
    cases t with
    | key k => exact Assoc.lookup_set_of_ne (fun hk ↦ hst (by rw [hk])) _ _
    | index i => rfl
  · split at h
    · rw [← Option.some.inj h]
      cases t with
      | key k => rfl
      | index i =>
        rw [child, child, List.getElem?_set_ne]
        exact fun hi ↦ hst (by rw [hi])
    · simp at h

theorem putChild_isSome_of_child {s : Segment} {j : Json} (h : (child s j).isSome) (v : Json) :
    (putChild s j v).isSome := by
  cases s <;> cases j <;> simp only [child, Option.isSome_none, Bool.false_eq_true] at h
  · rfl
  · have hi := (List.getElem?_eq_some_iff.mp (Option.eq_some_of_isSome h)).1
    simp [putChild, hi]

theorem putChild_putChild {s : Segment} {j v j' : Json} (h : putChild s j v = some j')
    (w : Json) : putChild s j' w = putChild s j w := by
  cases s <;> cases j <;> simp only [putChild, reduceCtorEq] at h
  · rw [← Option.some.inj h]
    simp [putChild]
  · split at h
    · next hi =>
      rw [← Option.some.inj h]
      simp [putChild, hi]
    · simp at h

theorem putChild_comm {s t : Segment} (hst : s ≠ t) {j : Json} (ht : (child t j).isSome)
    (v w : Json) :
    (putChild s j v).bind (putChild t · w) = (putChild t j w).bind (putChild s · v) := by
  cases s with
  | key k =>
    cases t with
    | key l =>
      cases j <;> simp only [child, Option.isSome_none, Bool.false_eq_true] at ht
      have hkl : k ≠ l := fun h ↦ hst (by rw [h])
      simp only [putChild, Option.bind_some]
      rw [Assoc.set_comm hkl ht]
    | index i =>
      cases j <;> simp only [child, Option.isSome_none, Bool.false_eq_true] at ht
      simp only [putChild, Option.bind_none]
      split <;> rfl
  | index i =>
    cases t with
    | key l =>
      cases j <;> simp only [child, Option.isSome_none, Bool.false_eq_true] at ht
      rfl
    | index l =>
      cases j with
      | arr elements =>
        have hil : i ≠ l := fun h ↦ hst (by rw [h])
        by_cases hi : i < elements.length <;> by_cases hl : l < elements.length <;>
          simp [putChild, hi, hl, List.set_comm _ _ hil]
      | _ => simp [child] at ht

/-! ## Following a location -/

@[simp] theorem find_nil (j : Json) : find [] j = some j := rfl

theorem find_cons (s : Segment) (p : List Segment) (j : Json) :
    find (s :: p) j = (child s j).bind (find p) := rfl

theorem find_append (p q : List Segment) (j : Json) :
    find (p ++ q) j = (find p j).bind (find q) := by
  induction p generalizing j with
  | nil => rfl
  | cons s p ih =>
    rw [List.cons_append, find_cons, find_cons, Option.bind_assoc]
    exact congrArg _ (funext ih)

/-! ## Replacing the value at a location -/

@[simp] theorem set_nil (j v : Json) : set [] j v = some v := rfl

@[simp] theorem set_singleton (s : Segment) (j v : Json) : set [s] j v = putChild s j v := rfl

theorem set_cons {p : List Segment} (hp : p ≠ []) (s : Segment) (j v : Json) :
    set (s :: p) j v = (child s j).bind fun c ↦ (set p c v).bind (putChild s j) := by
  cases p with
  | nil => exact absurd rfl hp
  | cons t p => rfl

/-- The recursion equation of `set` at an existing child, where the last step is no exception. -/
theorem set_cons_of_child {s : Segment} {j c : Json} (hc : child s j = some c)
    (p : List Segment) (v : Json) : set (s :: p) j v = (set p c v).bind (putChild s j) := by
  cases p with
  | nil => simp
  | cons t p => rw [set_cons (List.cons_ne_nil t p), hc, Option.bind_some]

theorem set_isSome_of_find {p : List Segment} {j : Json} (h : (find p j).isSome) (v : Json) :
    (set p j v).isSome := by
  induction p generalizing j with
  | nil => rfl
  | cons s p ih =>
    rw [find_cons, Option.isSome_bind] at h
    obtain ⟨c, hc, hf⟩ := Option.any_eq_true _ _ |>.mp h
    rw [set_cons_of_child hc]
    obtain ⟨c', hc'⟩ := Option.isSome_iff_exists.mp (ih hf)
    rw [hc', Option.bind_some]
    exact putChild_isSome_of_child (by rw [hc]; rfl) c'

theorem find_set_self {p : List Segment} {j v j' : Json} (h : set p j v = some j') :
    find p j' = some v := by
  induction p generalizing j j' with
  | nil => simpa using h.symm
  | cons s p ih =>
    cases p with
    | nil =>
      rw [find_cons, child_putChild_self h]
      rfl
    | cons t p =>
      rw [set_cons (List.cons_ne_nil t p)] at h
      obtain ⟨c, -, h⟩ := Option.bind_eq_some_iff.mp h
      obtain ⟨c', hc', h⟩ := Option.bind_eq_some_iff.mp h
      rw [find_cons, child_putChild_self h]
      exact ih hc'

theorem find_append_set {p : List Segment} {j v j' : Json} (h : set p j v = some j')
    (q : List Segment) : find (p ++ q) j' = find q v := by
  rw [find_append, find_set_self h, Option.bind_some]

theorem set_set {p : List Segment} {j v j' : Json} (h : set p j v = some j') (w : Json) :
    set p j' w = set p j w := by
  induction p generalizing j j' with
  | nil => rfl
  | cons s p ih =>
    cases p with
    | nil => exact putChild_putChild h w
    | cons t p =>
      rw [set_cons (List.cons_ne_nil t p)] at h
      obtain ⟨c, hc, h⟩ := Option.bind_eq_some_iff.mp h
      obtain ⟨c', hc', h⟩ := Option.bind_eq_some_iff.mp h
      rw [set_cons_of_child (child_putChild_self h), ih hc', set_cons_of_child hc]
      exact congrArg _ (funext fun x ↦ putChild_putChild h x)

/-- A write below an existing location is a write of the changed value at that location. -/
theorem set_append {p : List Segment} {j c : Json} (hc : find p j = some c) (q : List Segment)
    (v : Json) : set (p ++ q) j v = (set q c v).bind (set p j) := by
  induction p generalizing j with
  | nil =>
    obtain rfl : j = c := by simpa using hc
    cases h : set q j v <;> simp [h]
  | cons s p ih =>
    obtain ⟨d, hd, hf⟩ := Option.bind_eq_some_iff.mp hc
    rw [List.cons_append, set_cons_of_child hd, ih hf, Option.bind_assoc]
    exact congrArg _ (funext fun x ↦ (set_cons_of_child hd p x).symm)

/-- Nothing is written below a location where there is nothing. -/
theorem set_append_of_none {p q : List Segment} {j : Json} (h : find p j = none) (hq : q ≠ [])
    (v : Json) : set (p ++ q) j v = none := by
  induction p generalizing j with
  | nil => exact absurd h (Option.some_ne_none j)
  | cons s p ih =>
    rw [List.cons_append, set_cons (List.append_ne_nil_of_right_ne_nil p hq)]
    rcases hc : child s j with _ | c
    · rfl
    · rw [find_cons, hc, Option.bind_some] at h
      rw [Option.bind_some, ih h]
      rfl

/-- A key of an object can be stored to, whether it is new or not. -/
theorem set_key_isSome {p : List Segment} {j : Json} {fields : List (String × Json)}
    (h : find p j = some (.obj fields)) (k : String) (v : Json) :
    (set (p ++ [.key k]) j v).isSome := by
  rw [set_append h, set_singleton, putChild, Option.bind_some]
  exact set_isSome_of_find (by rw [h]; rfl) _

theorem find_key {p : List Segment} {j : Json} {fields : List (String × Json)}
    (h : find p j = some (.obj fields)) (k : String) :
    find (p ++ [.key k]) j = fields.lookup k := by
  rw [find_append, h, Option.bind_some, find_cons, child]
  exact Option.bind_fun_some _

/-- Only an object has a value under a key. -/
theorem find_holder {p : List Segment} {j v : Json} {k : String}
    (h : find (p ++ [.key k]) j = some v) : ∃ fields, find p j = some (.obj fields) := by
  rw [find_append] at h
  obtain ⟨c, hc, hv⟩ := Option.bind_eq_some_iff.mp h
  rw [find_cons] at hv
  cases c with
  | obj fields => exact ⟨fields, hc⟩
  | _ => simp [child] at hv

/-! ## Locations apart -/

/-- Neither location lies at or below the other. -/
def Apart (p q : List Segment) : Prop := ¬p <+: q ∧ ¬q <+: p

theorem Apart.symm {p q : List Segment} (h : Apart p q) : Apart q p := ⟨h.2, h.1⟩

theorem apart_cons_iff {s t : Segment} {p q : List Segment} :
    Apart (s :: p) (t :: q) ↔ s ≠ t ∨ Apart p q := by
  simp only [Apart, List.cons_prefix_cons]
  by_cases h : s = t <;> simp [h, eq_comm]

theorem not_apart_nil (p : List Segment) : ¬Apart [] p := fun h ↦ h.1 List.nil_prefix

theorem apart_of_length_eq {p q : List Segment} (hlen : p.length = q.length) (hne : p ≠ q) :
    Apart p q :=
  ⟨fun h ↦ hne (h.eq_of_length hlen), fun h ↦ hne (h.eq_of_length hlen.symm).symm⟩

theorem Apart.append_left {p q : List Segment} (h : Apart p q) (r : List Segment) :
    Apart (p ++ r) q := by
  induction p generalizing q with
  | nil => exact absurd h (not_apart_nil q)
  | cons s p ih =>
    cases q with
    | nil => exact absurd h.symm (not_apart_nil _)
    | cons t q =>
      rw [List.cons_append, apart_cons_iff]
      rcases apart_cons_iff.mp h with hne | hap
      · exact Or.inl hne
      · exact Or.inr (ih hap)

theorem Apart.append_right {p q : List Segment} (h : Apart p q) (r : List Segment) :
    Apart p (q ++ r) := (h.symm.append_left r).symm

/-- A write leaves every location apart from it as it was. -/
theorem find_set_of_apart {p q : List Segment} (h : Apart p q) {j v j' : Json}
    (hset : set p j v = some j') : find q j' = find q j := by
  induction p generalizing q j j' with
  | nil => exact absurd h (not_apart_nil q)
  | cons s p ih =>
    cases q with
    | nil => exact absurd h.symm (not_apart_nil _)
    | cons t q =>
      by_cases hst : s = t
      · subst hst
        have hpq : Apart p q := (apart_cons_iff.mp h).resolve_left fun hne ↦ hne rfl
        cases p with
        | nil => exact absurd hpq (not_apart_nil q)
        | cons u p =>
          rw [set_cons (List.cons_ne_nil u p)] at hset
          obtain ⟨c, hc, hset⟩ := Option.bind_eq_some_iff.mp hset
          obtain ⟨c', hc', hset⟩ := Option.bind_eq_some_iff.mp hset
          rw [find_cons, find_cons, child_putChild_self hset, hc, Option.bind_some,
            Option.bind_some, ih hpq hc']
      · have hchild : ∀ {x}, putChild s j x = some j' → child t j' = child t j :=
          fun hx ↦ child_putChild_of_ne hst hx
        cases p with
        | nil => rw [find_cons, find_cons, hchild hset]
        | cons u p =>
          rw [set_cons (List.cons_ne_nil u p)] at hset
          obtain ⟨c, -, hset⟩ := Option.bind_eq_some_iff.mp hset
          obtain ⟨c', -, hset⟩ := Option.bind_eq_some_iff.mp hset
          rw [find_cons, find_cons, hchild hset]

/-- Writes to locations apart commute once one of the locations exists. -/
theorem set_comm {p q : List Segment} (h : Apart p q) {j : Json} (hq : (find q j).isSome)
    (v w : Json) : (set p j v).bind (set q · w) = (set q j w).bind (set p · v) := by
  induction p generalizing q j with
  | nil => exact absurd h (not_apart_nil q)
  | cons s p ih =>
    cases q with
    | nil => exact absurd h.symm (not_apart_nil _)
    | cons t q =>
      rw [find_cons, Option.isSome_bind] at hq
      obtain ⟨d, hd, hf⟩ := Option.any_eq_true _ _ |>.mp hq
      rw [set_cons_of_child hd]
      by_cases hst : s = t
      · subst hst
        have hpq : Apart p q := (apart_cons_iff.mp h).resolve_left fun hne ↦ hne rfl
        rw [set_cons_of_child hd, Option.bind_assoc, Option.bind_assoc]
        have key := ih hpq hf
        -- both sides replace the shared child once, by the value of the inductive equation
        have hside : ∀ (r r' : List Segment) (x y : Json),
            ((set r d x).bind fun c ↦ (putChild s j c).bind (set (s :: r') · y))
              = ((set r d x).bind (set r' · y)).bind (putChild s j) := by
          intro r r' x y
          rw [Option.bind_assoc]
          refine congrArg _ (funext fun c ↦ ?_)
          obtain ⟨j', hj'⟩ := Option.isSome_iff_exists.mp
            (putChild_isSome_of_child (by rw [hd]; rfl : (child s j).isSome) c)
          rw [hj', Option.bind_some, set_cons_of_child (child_putChild_self hj')]
          exact congrArg _ (funext fun x ↦ putChild_putChild hj' x)
        rw [hside, hside, key]
      · -- the two writes replace different children
        have hd' : (child t j).isSome := by rw [hd]; rfl
        have hput : ∀ (x : Json), (putChild s j x).bind (set (t :: q) · w)
            = ((set q d w).bind (putChild t j)).bind (putChild s · x) := by
          intro x
          rw [Option.bind_assoc]
          cases hx : putChild s j x with
          | none =>
            rw [Option.bind_none]
            symm
            rw [Option.bind_eq_none_iff]
            intro y _
            have hcomm := putChild_comm hst hd' x y
            rw [hx, Option.bind_none] at hcomm
            exact hcomm.symm
          | some j' =>
            have hd'' : child t j' = some d := by rw [child_putChild_of_ne hst hx, hd]
            rw [Option.bind_some, set_cons_of_child hd'']
            refine congrArg _ (funext fun y ↦ ?_)
            have hcomm := putChild_comm hst hd' x y
            rw [hx, Option.bind_some] at hcomm
            exact hcomm
        cases p with
        | nil => exact hput v
        | cons u p =>
          -- the new child of the longer write does not depend on the other write
          have hleft : set (s :: u :: p) j v
              = ((child s j).bind fun c ↦ set (u :: p) c v).bind (putChild s j) := by
            rw [set_cons (List.cons_ne_nil u p), Option.bind_assoc]
          have hright : ∀ j', (set q d w).bind (putChild t j) = some j' →
              set (s :: u :: p) j' v
                = ((child s j).bind fun c ↦ set (u :: p) c v).bind (putChild s j') := by
            intro j' hj'
            obtain ⟨y, -, hy⟩ := Option.bind_eq_some_iff.mp hj'
            rw [set_cons (List.cons_ne_nil u p), child_putChild_of_ne (Ne.symm hst) hy,
              Option.bind_assoc]
          rw [hleft, Option.bind_assoc]
          simp only [hput]
          rw [Option.bind_comm]
          cases hz : (set q d w).bind (putChild t j) with
          | none => rfl
          | some j' => rw [Option.bind_some, Option.bind_some, hright j' hz]

end Json
