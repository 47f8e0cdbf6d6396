import Agora.Json.Path
import Mathlib.Data.Option.Basic

/-!
# Values up to the order of their fields

The fields of a JSON object have no order. `Same` relates values that show the same at every
location; it is respected by looking a location up and by replacing the value at one.
-/

namespace Json

/-- What a value is, apart from its children. -/
inductive Shape where
  | null
  | bool (b : Bool)
  | int (n : ℤ)
  | float (q : ℚ)
  | str (s : String)
  | arr (length : ℕ)
  | obj
  deriving DecidableEq

def shape : Json → Shape
  | .null => .null
  | .bool b => .bool b
  | .int n => .int n
  | .float q => .float q
  | .str s => .str s
  | .arr elements => .arr elements.length
  | .obj _ => .obj

theorem shape_eq_obj {v : Json} : v.shape = .obj ↔ ∃ fields, v = .obj fields := by
  rcases v with _ | _ | _ | _ | _ | _ | fields <;> simp [shape]

/-- Two values show the same at every location. -/
def Same (a b : Json) : Prop := ∀ p, (find p a).map shape = (find p b).map shape

namespace Same

variable {a b c v w : Json}

theorem refl (a : Json) : Same a a := fun _ ↦ rfl

theorem symm (h : Same a b) : Same b a := fun p ↦ (h p).symm

theorem trans (h : Same a b) (h' : Same b c) : Same a c := fun p ↦ (h p).trans (h' p)

theorem shape_eq (h : Same a b) : a.shape = b.shape := Option.some.inj (h [])

end Same

theorem rel_bind {α β : Type*} {R : α → α → Prop} {Q : β → β → Prop} {x y : Option α}
    {f g : α → Option β} (h : Option.Rel R x y) (hf : ∀ a b, R a b → Option.Rel Q (f a) (g b)) :
    Option.Rel Q (x.bind f) (y.bind g) := by
  rcases h with hab | _
  · exact hf _ _ hab
  · exact Option.Rel.none

theorem rel_some_left {α : Type*} {R : α → α → Prop} {a : α} {y : Option α}
    (h : Option.Rel R (some a) y) : ∃ b, y = some b ∧ R a b := by
  cases h with
  | some hab => exact ⟨_, rfl, hab⟩

/-- Values are the same when they are of one shape and their children are the same. -/
theorem same_iff {a b : Json} :
    Same a b ↔ a.shape = b.shape ∧ ∀ s, Option.Rel Same (child s a) (child s b) := by
  refine ⟨fun h ↦ ⟨h.shape_eq, fun s ↦ ?_⟩, ?_⟩
  · have hs := h [s]
    simp only [find_cons] at hs
    rcases ha : child s a with _ | x <;> rcases hb : child s b with _ | y
    · exact Option.Rel.none
    · simp [ha, hb] at hs
    · simp [ha, hb] at hs
    · refine Option.Rel.some fun p ↦ ?_
      have hp := h (s :: p)
      rwa [find_cons, find_cons, ha, hb] at hp
  · rintro ⟨hshape, hchild⟩ p
    rcases p with _ | ⟨s, p⟩
    · exact congrArg some hshape
    · rw [find_cons, find_cons]
      have hs := hchild s
      generalize child s a = x at hs
      generalize child s b = y at hs
      rcases hs with hxy | _
      · exact hxy p
      · rfl

namespace Same

variable {a b v w : Json}

theorem eq_null (h : Same a .null) : a = .null := by
  cases a with
  | null => rfl
  | _ => cases h.shape_eq

theorem eq_str {s : String} (h : Same a (.str s)) : a = .str s := by
  cases a with
  | str t => rw [Shape.str.inj h.shape_eq]
  | _ => cases h.shape_eq

theorem eq_int {n : ℤ} (h : Same a (.int n)) : a = .int n := by
  cases a with
  | int m => rw [Shape.int.inj h.shape_eq]
  | _ => cases h.shape_eq

theorem child (h : Same a b) (s : Segment) : Option.Rel Same (child s a) (Json.child s b) :=
  (same_iff.mp h).2 s

theorem find (h : Same a b) (p : List Segment) : Option.Rel Same (find p a) (Json.find p b) := by
  induction p generalizing a b with
  | nil => exact Option.Rel.some h
  | cons s p ih =>
    rw [find_cons, find_cons]
    exact rel_bind (h.child s) fun x y hxy ↦ ih hxy

end Same

theorem shape_putChild {s : Segment} {j v j' : Json} (h : putChild s j v = some j') :
    j'.shape = j.shape := by
  rcases s with k | i <;> rcases j with _ | _ | _ | _ | _ | _ | _ <;>
    simp only [putChild, reduceCtorEq] at h
  · rw [← Option.some.inj h]
    rfl
  · split_ifs at h
    rw [← Option.some.inj h]
    simp [shape]

theorem shape_set {s : Segment} {p : List Segment} {j v j' : Json}
    (h : set (s :: p) j v = some j') : j'.shape = j.shape := by
  by_cases hp : p = []
  · subst hp
    exact shape_putChild h
  · rw [set_cons hp] at h
    obtain ⟨c, -, h⟩ := Option.bind_eq_some_iff.mp h
    obtain ⟨c', -, h⟩ := Option.bind_eq_some_iff.mp h
    exact shape_putChild h

/-- Whether a child can be replaced depends on the shape of its parent. -/
theorem putChild_isSome_of_shape {a b v : Json} (hshape : a.shape = b.shape) (w : Json)
    {s : Segment} (h : (putChild s a v).isSome) : (putChild s b w).isSome := by
  rcases s with k | i
  · have ha : a.shape = .obj := by
      rcases a with _ | _ | _ | _ | _ | _ | _ <;> first | rfl | simp [putChild] at h
    obtain ⟨fs, rfl⟩ := shape_eq_obj.mp (hshape.symm.trans ha)
    rfl
  · obtain ⟨elements, rfl, hi⟩ : ∃ elements, a = .arr elements ∧ i < elements.length := by
      rcases a with _ | _ | _ | _ | _ | elements | _
      case arr => exact ⟨elements, rfl, by simpa [putChild] using h⟩
      all_goals simp [putChild] at h
    obtain ⟨others, rfl, hlength⟩ :
        ∃ others, b = .arr others ∧ elements.length = others.length := by
      rcases b with _ | _ | _ | _ | _ | others | _
      case arr => exact ⟨others, rfl, by simpa [shape] using hshape⟩
      all_goals simp [shape] at hshape
    simp [putChild, ← hlength, hi]

namespace Same

variable {a b v w : Json}

theorem putChild (h : Same a b) (hv : Same v w) (s : Segment) :
    Option.Rel Same (putChild s a v) (Json.putChild s b w) := by
  rcases ha : Json.putChild s a v with _ | a' <;> rcases hb : Json.putChild s b w with _ | b'
  · exact Option.Rel.none
  · have hsome := putChild_isSome_of_shape h.shape_eq.symm v (by rw [hb]; rfl)
    simp [ha] at hsome
  · have hsome := putChild_isSome_of_shape h.shape_eq w (by rw [ha]; rfl)
    simp [hb] at hsome
  · refine Option.Rel.some (same_iff.mpr ⟨?_, fun t ↦ ?_⟩)
    · rw [shape_putChild ha, shape_putChild hb, h.shape_eq]
    · by_cases hst : s = t
      · subst hst
        rw [child_putChild_self ha, child_putChild_self hb]
        exact Option.Rel.some hv
      · rw [child_putChild_of_ne hst ha, child_putChild_of_ne hst hb]
        exact h.child t

/-- **Replacing the same value at one location of the same values gives the same.** -/
theorem set (h : Same a b) (hv : Same v w) (p : List Segment) :
    Option.Rel Same (set p a v) (Json.set p b w) := by
  induction p generalizing a b with
  | nil => exact Option.Rel.some hv
  | cons s p ih =>
    by_cases hp : p = []
    · subst hp
      exact h.putChild hv s
    · rw [set_cons hp, set_cons hp]
      refine rel_bind (h.child s) fun x y hxy ↦ ?_
      exact rel_bind (ih hxy) fun x' y' hxy' ↦ h.putChild hxy' s

end Same

/-- Objects that show the same under every key are the same. -/
theorem same_obj {fs gs : List (String × Json)}
    (h : ∀ k, Option.Rel Same (fs.lookup k) (gs.lookup k)) : Same (.obj fs) (.obj gs) := by
  refine same_iff.mpr ⟨rfl, ?_⟩
  rintro (k | i)
  · exact h k
  · exact Option.Rel.none

theorem rel_same_refl (x : Option Json) : Option.Rel Same x x := by
  rcases x with _ | a
  · exact Option.Rel.none
  · exact Option.Rel.some (Same.refl a)

/-- Objects with the same fields are the same. -/
theorem same_of_child {a b : Json} (ha : a.shape = .obj) (hb : b.shape = .obj)
    (h : ∀ k, Option.Rel Same (child (.key k) a) (child (.key k) b)) : Same a b := by
  obtain ⟨fs, rfl⟩ := shape_eq_obj.mp ha
  obtain ⟨gs, rfl⟩ := shape_eq_obj.mp hb
  exact same_obj h

end Json
