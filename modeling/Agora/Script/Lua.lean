import Agora.Json.Prune
import Agora.Query.Access

/-!
# Lua scripts over one JSON document

A script runs alone on the document under its key. An error that is raised ends it there, and what
it has stored so far stays. Reading with a `$` path and taking the first match gives the value at a
location, `nil` where there is none; JSON null is a value of its own, which counts as true. Storing
to a place that cannot be stored to does nothing, and the script goes on.

Numbers are exact. How Lua reads a number from a text is taken from outside.
-/

namespace Agora

/-- A computation over the document. -/
abbrev Script := Query Json

namespace Script

/-- A raised error. -/
def raise {α : Type} : Script α := fun d ↦ (.error (.threw .other), d)

/-! ## Values -/

/-- Whether a value counts as true. -/
def truthy : Option Json → Bool
  | none | some (.bool false) => false
  | _ => true

/-- Indexing a value under a key. Texts have no fields of interest; a number, a truth value or null
cannot be indexed. -/
def luaIndex (k : String) : Json → Script (Option Json)
  | .obj fields => pure (fields.lookup k)
  | .arr _ | .str _ => pure none
  | _ => raise

/-- `tonumber`. -/
def toNumber (readNumber : String → Option ℚ) : Option Json → Option ℚ
  | some (.int n) => some n
  | some (.float q) => some q
  | some (.str s) => readNumber s
  | _ => none

/-- A number as it is written back. -/
def ofNumber (q : ℚ) : Json := if q.den = 1 then .int q.num else .float q

@[simp] theorem ofNumber_intCast (n : ℤ) : ofNumber n = .int n := by
  rw [ofNumber, if_pos (Rat.den_intCast n), Rat.num_intCast]

/-! ## Commands -/

/-- `JSON.GET` and the first match. -/
def jsonGet (path : List Segment) : Script (Option Json) := fun d ↦ (.ok (d.find path), d)

@[simp] theorem jsonGet_run (path : List Segment) (d : Json) :
    jsonGet path d = (.ok (d.find path), d) := rfl

/-- `JSON.SET`. -/
def jsonSet (path : List Segment) (v : Json) : Script Unit :=
  fun d ↦ (.ok (), (d.set path v).getD d)

/-- `JSON.SET … NX`: nothing is stored over a value. -/
def jsonSetNew (path : List Segment) (v : Json) : Script Unit := do
  match ← jsonGet path with
  | some _ => pure ()
  | none => jsonSet path v

/-- `JSON.SET … XX`: nothing is stored where there is no value. -/
def jsonSetOld (path : List Segment) (v : Json) : Script Unit := do
  match ← jsonGet path with
  | some _ => jsonSet path v
  | none => pure ()

/-- `JSON.DEL`. -/
def jsonDel (path : List Segment) : Script Unit := fun d ↦ (.ok (), d.prune fun p ↦ p = path)

/-- `JSON.ARRAPPEND`. -/
def arrAppend (path : List Segment) (v : Json) : Script Unit := do
  match ← jsonGet path with
  | some (.arr elements) => jsonSet path (.arr (elements ++ [v]))
  | _ => pure ()

/-- The position a whole number names in an array of some length: a negative one counts from the
end. -/
def positionOf (n : ℤ) (length : ℕ) : Option ℕ :=
  if 0 ≤ n then some n.toNat else if length < n.natAbs then none else some (length - n.natAbs)

@[simp] theorem positionOf_natCast (i length : ℕ) : positionOf i length = some i := by
  simp [positionOf]

/-- `JSON.GET` of one element of an array. -/
def jsonGetAt (path : List Segment) (n : ℚ) : Script (Option Json) := do
  if n.den ≠ 1 then raise
  else
    match ← jsonGet path with
    | some (.arr elements) => return (positionOf n.num elements.length).bind (elements[·]?)
    | _ => return none

theorem jsonSet_run {path : List Segment} {v d d' : Json} (h : d.set path v = some d') :
    jsonSet path v d = (.ok (), d') := by
  rw [jsonSet, h]
  rfl

theorem jsonSet_of_none {path : List Segment} {v d : Json} (h : d.set path v = none) :
    jsonSet path v d = (.ok (), d) := by
  rw [jsonSet, h]
  rfl

theorem jsonSetNew_of_find {path : List Segment} {v w d : Json} (h : d.find path = some w) :
    jsonSetNew path v d = (.ok (), d) := by
  refine (Query.bind_of_ok (jsonGet_run path d) _).trans ?_
  rw [h]
  rfl

theorem jsonSetNew_of_none {path : List Segment} {v d : Json} (h : d.find path = none) :
    jsonSetNew path v d = jsonSet path v d := by
  refine (Query.bind_of_ok (jsonGet_run path d) _).trans ?_
  rw [h]

theorem jsonSetOld_of_find {path : List Segment} {v w d : Json} (h : d.find path = some w) :
    jsonSetOld path v d = jsonSet path v d := by
  refine (Query.bind_of_ok (jsonGet_run path d) _).trans ?_
  rw [h]

theorem jsonSetOld_of_none {path : List Segment} {v d : Json} (h : d.find path = none) :
    jsonSetOld path v d = (.ok (), d) := by
  refine (Query.bind_of_ok (jsonGet_run path d) _).trans ?_
  rw [h]
  rfl

theorem arrAppend_run {path : List Segment} {v d : Json} {elements : List Json}
    (h : d.find path = some (.arr elements)) :
    arrAppend path v d = jsonSet path (.arr (elements ++ [v])) d := by
  refine (Query.bind_of_ok (jsonGet_run path d) _).trans ?_
  rw [h]

/-- An element of an array, by its position. -/
theorem jsonGetAt_run {path : List Segment} {d : Json} {elements : List Json}
    (h : d.find path = some (.arr elements)) (i : ℕ) :
    jsonGetAt path (i : ℚ) d = (.ok elements[i]?, d) := by
  rw [jsonGetAt, if_neg (by simp)]
  refine (Query.bind_of_ok (jsonGet_run path d) _).trans ?_
  rw [h]
  simp

theorem luaIndex_obj (k : String) (fields : List (String × Json)) :
    luaIndex k (.obj fields) = pure (fields.lookup k) := rfl

/-- Indexing reads. -/
theorem luaIndex_run (k : String) (v d : Json) : (luaIndex k v d).2 = d := by
  cases v <;> rfl

/-! ### Reading keeps the document -/

section Reads

variable {I : Json → Prop}

theorem keeps_raise {α : Type} : Query.Keeps I (raise : Script α) := fun _ h ↦ h

theorem keeps_jsonGet (path : List Segment) : Query.Keeps I (jsonGet path) := fun _ h ↦ h

theorem keeps_luaIndex (k : String) (v : Json) : Query.Keeps I (luaIndex k v) := by
  intro d h
  rw [luaIndex_run]
  exact h

theorem keeps_jsonGetAt (path : List Segment) (n : ℚ) : Query.Keeps I (jsonGetAt path n) := by
  unfold jsonGetAt
  split
  · exact keeps_raise
  · refine Query.keeps_bind (keeps_jsonGet path) fun v ↦ ?_
    split
    · exact Query.keeps_pure _
    · exact Query.keeps_pure _

end Reads

end Script

end Agora
