import Agora.Json.Path
import Mathlib.Data.List.Sort

/-!
# Reading request fields

Requests are read in three styles: `value` with a default, `contains` followed by the indexing of
a constant value, and conversions. A read throws when a type does not fit, and the indexing of a
constant object under a key it does not have is not an exception at all: it is an assertion, which
no handler catches.

A computation over the storage state `σ` keeps the state it reached when it halts, so what a
handler answers can be said together with what was already stored.
-/

namespace Agora

/-- The exceptions a handler tells apart. -/
inductive Thrown where
  /-- `std::invalid_argument`, with the code it carries. -/
  | invalidArgument (code : String)
  /-- `Json::exception`: a type that does not fit. -/
  | json
  /-- `std::runtime_error`, with the code it carries. -/
  | runtimeError (code : String)
  /-- Anything else. -/
  | other
  deriving DecidableEq, Repr

/-- How a computation ends without a value. -/
inductive Halt where
  | threw (e : Thrown)
  /-- The indexing of a constant object under a key it does not have. -/
  | missingKey
  deriving DecidableEq, Repr

/-- A computation that reads JSON values only. -/
abbrev Checked := Except Halt

/-- Throw `std::invalid_argument`. -/
def reject {α : Type*} (code : String) : Checked α := .error (.threw (.invalidArgument code))

/-- Throw `std::invalid_argument` when a check fails. -/
def throwIf (failed : Bool) (code : String) : Checked Unit :=
  if failed then reject code else pure ()

/-- Throw `Json::exception`. -/
def typeError {α : Type*} : Checked α := .error (.threw .json)

namespace Checked

variable {α β : Type}

theorem bind_ok {x : Checked α} {f : α → Checked β} {b : β} :
    (x >>= f) = .ok b ↔ ∃ a, x = .ok a ∧ f a = .ok b := by
  constructor
  · intro h
    match x with
    | .ok a => exact ⟨a, rfl, h⟩
    | .error e => nomatch h
  · rintro ⟨a, rfl, hf⟩
    exact hf

@[simp] theorem pure_ok {a b : α} : (pure a : Checked α) = .ok b ↔ a = b :=
  ⟨Except.ok.inj, congrArg _⟩

@[simp] theorem throwIf_ok {failed : Bool} {code : String} {u : Unit} :
    throwIf failed code = .ok u ↔ failed = false := by
  cases failed
  · exact ⟨fun _ ↦ rfl, fun _ ↦ rfl⟩
  · exact ⟨nofun, nofun⟩

@[simp] theorem reject_ok {code : String} {a : α} : ¬(reject code = .ok a) := nofun

@[simp] theorem typeError_ok {a : α} : ¬((typeError : Checked α) = .ok a) := nofun

end Checked

/-! ## Computations over a storage state -/

/-- A computation that also calls the storage. -/
def Query (σ α : Type) : Type := σ → Except Halt α × σ

namespace Query

variable {σ α β : Type}

protected def bind (x : Query σ α) (f : α → Query σ β) : Query σ β := fun s ↦
  match x s with
  | (.ok a, s) => f a s
  | (.error h, s) => (.error h, s)

instance : Monad (Query σ) where
  pure a := fun s ↦ (.ok a, s)
  bind := Query.bind

instance : MonadLift Checked (Query σ) where
  monadLift x := fun s ↦ (x, s)

instance : MonadLift (StateM σ) (Query σ) where
  monadLift x := fun s ↦ ((Except.ok (x s).1, (x s).2) : Except Halt _ × σ)

/-- Throw `std::runtime_error`. -/
def fail (code : String) : Query σ α := fun s ↦ (.error (.threw (.runtimeError code)), s)

/-- `try`, with a handler for every exception. -/
def handle (x : Query σ α) (handler : Thrown → Query σ α) : Query σ α := fun s ↦
  match x s with
  | (.error (.threw e), s) => handler e s
  | r => r

@[simp] theorem pure_run (a : α) (s : σ) : (pure a : Query σ α) s = (.ok a, s) := rfl

@[simp] theorem lift_run (x : Checked α) (s : σ) : (liftM x : Query σ α) s = (x, s) := rfl

@[simp] theorem call_run (x : StateM σ α) (s : σ) :
    (liftM x : Query σ α) s = (.ok (x s).1, (x s).2) := rfl

theorem bind_run (x : Query σ α) (f : α → Query σ β) (s : σ) :
    (x >>= f) s = match x s with
      | (.ok a, s) => f a s
      | (.error h, s) => (.error h, s) := rfl

theorem bind_ok {x : Query σ α} {f : α → Query σ β} {s s' : σ} {b : β} :
    (x >>= f) s = (.ok b, s') ↔ ∃ a t, x s = (.ok a, t) ∧ f a t = (.ok b, s') := by
  rw [bind_run]
  constructor
  · intro h
    match hx : x s with
    | (.ok a, t) => exact ⟨a, t, rfl, by simpa [hx] using h⟩
    | (.error e, t) => simp [hx] at h
  · rintro ⟨a, t, hx, hf⟩
    rw [hx]
    exact hf

theorem bind_of_ok {x : Query σ α} {s t : σ} {a : α} (hx : x s = (.ok a, t))
    (f : α → Query σ β) : (x >>= f) s = f a t := by
  rw [bind_run, hx]

theorem bind_of_error {x : Query σ α} {s t : σ} {h : Halt} (hx : x s = (.error h, t))
    (f : α → Query σ β) : (x >>= f) s = (.error h, t) := by
  rw [bind_run, hx]

/-- The computation leaves an invariant of the storage alone, however it ends. -/
def Keeps (I : σ → Prop) (x : Query σ α) : Prop := ∀ s, I s → I (x s).2

section Keeps

variable {I : σ → Prop}

theorem keeps_pure (a : α) : Keeps I (pure a : Query σ α) := fun _ h ↦ h

theorem keeps_lift (x : Checked α) : Keeps I (liftM x : Query σ α) := fun _ h ↦ h

theorem keeps_fail (code : String) : Keeps I (fail code : Query σ α) := fun _ h ↦ h

theorem keeps_bind {x : Query σ α} {f : α → Query σ β} (hx : Keeps I x)
    (hf : ∀ a, Keeps I (f a)) : Keeps I (x >>= f) := by
  intro s hs
  have hs' := hx s hs
  rw [bind_run]
  rcases hr : x s with ⟨a | a, t⟩
  · simpa [hr] using hs'
  · exact hf a t (by simpa [hr] using hs')

theorem keeps_step {x : Checked α} {f : α → Query σ β} (hf : ∀ a, Keeps I (f a)) :
    Keeps I (liftM x >>= f) := keeps_bind (keeps_lift x) hf

theorem keeps_foldlM {γ : Type} {f : α → γ → Query σ α} (hf : ∀ a c, Keeps I (f a c)) :
    ∀ (l : List γ) (a : α), Keeps I (l.foldlM f a)
  | [], a => keeps_pure a
  | c :: l, a => keeps_bind (hf a c) fun b ↦ keeps_foldlM hf l b

theorem keeps_forM {γ : Type} {f : γ → Query σ PUnit} (hf : ∀ c, Keeps I (f c)) :
    ∀ l : List γ, Keeps I (l.forM f)
  | [] => keeps_pure _
  | c :: l => keeps_bind (hf c) fun _ ↦ keeps_forM hf l

end Keeps

section Yields

variable {I : σ → Prop}

/-- From a storage state in `I`, every value the computation returns satisfies `P`, and is returned
in a state in `I`. -/
def Yields (I : σ → Prop) (x : Query σ α) (P : α → Prop) : Prop :=
  ∀ s a s', I s → x s = (.ok a, s') → I s' ∧ P a

theorem yields_pure {P : α → Prop} {a : α} (h : P a) : Yields I (pure a : Query σ α) P := by
  rintro s b s' hs hb
  rw [pure_run, Prod.mk.injEq, Except.ok.injEq] at hb
  exact ⟨hb.2 ▸ hs, hb.1 ▸ h⟩

theorem yields_lift {P : α → Prop} {x : Checked α} (h : ∀ a, x = .ok a → P a) :
    Yields I (liftM x : Query σ α) P := by
  intro s a s' hs ha
  rw [lift_run, Prod.mk.injEq] at ha
  exact ⟨ha.2 ▸ hs, h a ha.1⟩

theorem yields_bind {P : α → Prop} {Q : β → Prop} {x : Query σ α} {f : α → Query σ β}
    (hx : Yields I x P) (hf : ∀ a, P a → Yields I (f a) Q) : Yields I (x >>= f) Q := by
  intro s b s' hs h
  obtain ⟨a, t, ha, hb⟩ := bind_ok.mp h
  obtain ⟨ht, hP⟩ := hx s a t hs ha
  exact hf a hP t b s' ht hb

/-- A read that is checked, and what it gave. -/
theorem yields_step {P : β → Prop} {x : Checked α} {f : α → Query σ β}
    (hf : ∀ a, x = .ok a → Yields I (f a) P) : Yields I (liftM x >>= f) P :=
  yields_bind (yields_lift fun _ ha ↦ ha) hf

theorem Yields.mono {P Q : α → Prop} {x : Query σ α} (h : Yields I x P) (hPQ : ∀ a, P a → Q a) :
    Yields I x Q := fun s a s' hs ha ↦ (h s a s' hs ha).imp_right (hPQ a)

/-- Nothing is known about a value that is only passed on. -/
theorem Keeps.yields {x : Query σ α} (h : Keeps I x) : Yields I x fun _ ↦ True := by
  intro s a s' hs ha
  have hkept := h s hs
  rw [ha] at hkept
  exact ⟨hkept, trivial⟩

/-- A fold, with what holds after each part of the list. -/
theorem yields_foldlM {γ : Type} {P : List γ → α → Prop} {f : α → γ → Query σ α}
    (hf : ∀ done a c, P done a → Yields I (f a c) (P (done ++ [c]))) (l : List γ) :
    ∀ (done : List γ) {a : α}, P done a → Yields I (l.foldlM f a) (P (done ++ l)) := by
  induction l with
  | nil =>
    intro done a ha
    rw [List.append_nil]
    exact yields_pure ha
  | cons c l ih =>
    intro done a ha
    rw [List.append_cons]
    exact yields_bind (hf done a c ha) fun _ hb ↦ ih (done ++ [c]) hb

/-- A loop, with what holds of each part. -/
theorem yields_forM {γ : Type} {P : γ → Prop} {f : γ → Query σ PUnit} :
    ∀ (l : List γ), (∀ c, Yields I (f c) fun _ ↦ P c) → Yields I (l.forM f) fun _ ↦ ∀ c ∈ l, P c
  | [], _ => yields_pure (by simp)
  | c :: l, hf => yields_bind (hf c) fun _ hc ↦ (yields_forM l hf).mono fun _ hl ↦
      List.forall_mem_cons.mpr ⟨hc, hl⟩

end Yields

end Query

/-! ## Doubles -/

/-- Where doubles end: a number that is not below it stands for an infinity. -/
def infinity : ℕ := 1 <<< 1024

def isfinite (x : ℚ) : Bool := decide (x.num.natAbs < infinity * x.den)

/-- The integer nearest to a quotient, the even one when two are as near. -/
def roundEven (n d : ℕ) : ℕ :=
  if 2 * (n % d) < d ∨ 2 * (n % d) = d ∧ n / d % 2 = 0 then n / d else n / d + 1

/-- The exponent of the last bit of the doubles near a quotient: they have 53 bits, and none of
them is below the one of `2 ^ (-1074)`. -/
def lastBit (n d : ℕ) : ℤ :=
  let e : ℤ := n.log2 - d.log2
  max (if n <<< (-e).toNat < d <<< e.toNat then e - 53 else e - 52) (-1074)

/-- The double nearest to a number. -/
def toDouble (x : ℚ) : ℚ :=
  let k := lastBit x.num.natAbs x.den
  let m := roundEven (x.num.natAbs <<< (-k).toNat) (x.den <<< k.toNat) <<< k.toNat
  mkRat (x.num.sign * min m (infinity <<< (-k).toNat)) (1 <<< (-k).toNat)

/-- The sum of two doubles, of which only the first may be an infinity. -/
def addDouble (x y : ℚ) : ℚ := if isfinite x then toDouble (x + y) else x

end Agora

/-! ## JSON values as the requests read them -/

namespace Json

open Agora

def isNull : Json → Bool
  | .null => true
  | _ => false

def isBoolean : Json → Bool
  | .bool _ => true
  | _ => false

def isNumberInteger : Json → Bool
  | .int _ => true
  | _ => false

def isNumber : Json → Bool
  | .int _ | .float _ => true
  | _ => false

def isString : Json → Bool
  | .str _ => true
  | _ => false

def isArray : Json → Bool
  | .arr _ => true
  | _ => false

def isObject : Json → Bool
  | .obj _ => true
  | _ => false

def contains (j : Json) (k : String) : Bool := (j.child (.key k)).isSome

/-- The number of elements. -/
def size : Json → ℕ
  | .null => 0
  | .arr elements => elements.length
  | .obj fields => fields.length
  | _ => 1

/-- The fields of an object in the order they are visited, which is the order of their keys. -/
def sortedFields (fields : List (String × Json)) : List (String × Json) :=
  fields.insertionSort fun e f ↦ e.1 ≤ f.1

theorem sortedFields_perm (fields : List (String × Json)) :
    (sortedFields fields).Perm fields := List.perm_insertionSort _ _

/-- What a range loop visits: a scalar is visited as its own only element. -/
def elements : Json → List Json
  | .null => []
  | .arr elements => elements
  | .obj fields => (sortedFields fields).map Prod.snd
  | j => [j]

/-- What a loop over `items()` visits. -/
def items : Json → List (String × Json)
  | .null => []
  | .arr elements => elements.zipIdx.map fun e ↦ (toString e.2, e.1)
  | .obj fields => sortedFields fields
  | j => [("", j)]

/-- Indexing a constant value. -/
def index (j : Json) (k : String) : Checked Json :=
  match j with
  | .obj fields =>
    match fields.lookup k with
    | some v => .ok v
    | none => .error .missingKey
  | _ => typeError

/-- Assigning through the index of a value that may change: null turns into an object. -/
def assign (j : Json) (k : String) (v : Json) : Checked Json :=
  match j with
  | .obj fields => .ok (.obj (Assoc.set k v fields))
  | .null => .ok (.obj [(k, v)])
  | _ => typeError

/-- `erase` of a key. -/
def eraseKey (j : Json) (k : String) : Checked Json :=
  match j with
  | .obj fields => .ok (.obj (Assoc.erase k fields))
  | _ => typeError

/-- The fields of an object after `update` with those of another. -/
def updateFields (fields patch : List (String × Json)) : List (String × Json) :=
  (sortedFields patch).foldl (fun fields e ↦ Assoc.set e.1 e.2 fields) fields

def update (j patch : Json) : Checked Json :=
  match j, patch with
  | .obj fields, .obj patch => .ok (.obj (updateFields fields patch))
  | .null, .obj patch => .ok (.obj (updateFields [] patch))
  | _, _ => typeError

/-! ### Conversions -/

/-- A number in a signed integer of so many bits. -/
def wrap (bits : ℕ) (n : ℤ) : ℤ := (n + 2 ^ (bits - 1)) % 2 ^ bits - 2 ^ (bits - 1)

theorem wrap_64 {n : ℤ} (hlow : -9223372036854775808 ≤ n) (hhigh : n < 9223372036854775808) :
    wrap 64 n = n := by
  unfold wrap
  omega

/-- Conversion to a signed integer of so many bits, which truncates and takes a boolean. -/
def getSigned (bits : ℕ) : Json → Checked ℤ
  | .int n => .ok (wrap bits n)
  | .float q => .ok (wrap bits (q.num.tdiv q.den))
  | .bool b => .ok (if b then 1 else 0)
  | _ => typeError

/-- `get<int>`. -/
def getInt : Json → Checked ℤ := getSigned 32

/-- `get<long long>`. -/
def getLong : Json → Checked ℤ := getSigned 64

/-- `get<double>`. -/
def getDouble : Json → Checked ℚ
  | .int n => .ok (toDouble n)
  | .float q => .ok q
  | _ => typeError

def getBool : Json → Checked Bool
  | .bool b => .ok b
  | _ => typeError

def getString : Json → Checked String
  | .str s => .ok s
  | _ => typeError

/-- `value`: what a field converts to, or the default when the field is absent. -/
def value {α : Type} (get : Json → Checked α) (j : Json) (k : String) (default : α) : Checked α :=
  match j with
  | .obj fields =>
    match fields.lookup k with
    | some v => get v
    | none => .ok default
  | _ => typeError

def valueJson : Json → String → Json → Checked Json := value .ok

def valueString : Json → String → String → Checked String := value getString

def valueInt : Json → String → ℤ → Checked ℤ := value getInt

def valueLong : Json → String → ℤ → Checked ℤ := value getLong

def valueDouble : Json → String → ℚ → Checked ℚ := value getDouble

def valueBool : Json → String → Bool → Checked Bool := value getBool

end Json
