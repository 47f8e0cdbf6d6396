import Agora.Java.Result

/-!
# Methods with effects

A method works on a state. When it throws, what it has done by then stays done, save for the part of
the state that a transaction around it restores.
-/

namespace Agora

namespace Java

/-- A method that works on a state of type `W`. -/
def Action (W α : Type) : Type := W → Result α × W

namespace Action

variable {W V α β : Type}

protected def bind (x : Action W α) (f : α → Action W β) : Action W β := fun w ↦
  match x w with
  | (.ok a, w) => f a w
  | (.error e, w) => (.error e, w)

instance : Monad (Action W) where
  pure a := fun w ↦ (.ok a, w)
  bind := Action.bind

/-- What depends on the state only. -/
def reading (f : W → Result α) : Action W α := fun w ↦ (f w, w)

instance : MonadLift Result (Action W) where
  monadLift x := reading fun _ ↦ x

def modify (f : W → W) : Action W Unit := fun w ↦ (.ok (), f w)

/-- A method on a part of the state. -/
def within (get : W → V) (put : V → W → W) (x : Action V α) : Action W α := fun w ↦
  ((x (get w)).1, put (x (get w)).2 w)

/-- A transaction: when the method throws or the commit fails, a part of the state is restored. -/
def transactional (restore : W → W → W) (commits : Bool) (x : Action W α) : Action W α := fun w ↦
  match x w with
  | (.ok a, w') => if commits then (.ok a, w') else (.error .unexpected, restore w w')
  | (.error e, w') => (.error e, restore w w')

@[simp] theorem pure_run (a : α) (w : W) : (pure a : Action W α) w = (.ok a, w) := rfl

@[simp] theorem reading_run (f : W → Result α) (w : W) : reading f w = (f w, w) := rfl

@[simp] theorem lift_run (x : Result α) (w : W) : (liftM x : Action W α) w = (x, w) := rfl

@[simp] theorem modify_run (f : W → W) (w : W) : modify f w = (.ok (), f w) := rfl

theorem bind_run (x : Action W α) (f : α → Action W β) (w : W) :
    (x >>= f) w = match x w with
      | (.ok a, w) => f a w
      | (.error e, w) => (.error e, w) := rfl

end Action

end Java

end Agora
