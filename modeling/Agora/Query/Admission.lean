import Agora.Query.Document
import Agora.Query.Written

/-!
# Who may change a canvas

Every request of a broker comes through `execute`, whatever is in it. Whether it is one to join a
canvas, one that is refused, or one that cannot be read, it leaves the document as it is, unless it
is a query with an identity that fits. So the document at the end of any run of requests is what the
admitted ones among them have made of it, in their order (`requests_admitted`).
-/

namespace Agora

open Query

variable {base : Backend Storage} {readNumber : String → Option ℚ} {visit : Visit} {told : Telling}

/-! ## Identities -/

section Front

variable {d : Json}

theorem Query.lift_ok {α : Type} {x : Checked α} {s t : Storage} {a : α} :
    (liftM x : Query Storage α) s = (.ok a, t) ↔ x = .ok a ∧ t = s := by
  rw [lift_run, Prod.mk.injEq, eq_comm (a := s)]

theorem Query.call_ok {α : Type} {x : StateM Storage α} {s t : Storage} {a : α} :
    (liftM x : Query Storage α) s = (.ok a, t) ↔ (x s).1 = a ∧ t = (x s).2 := by
  rw [call_run, Prod.mk.injEq, Except.ok.injEq, eq_comm (a := (x s).2)]

theorem keeps_read {α : Type} (f : Json → α) :
    Keeps (fun s ↦ s.document = d) (liftM (Storage.reading f) : Query Storage (Option α)) :=
  keeps_reading (P := (· = d)) f

theorem keeps_call {α : Type} {x : StateM Storage α} (hx : ∀ s, (x s).2.document = s.document) :
    Keeps (fun s ↦ s.document = d) (liftM x : Query Storage α) :=
  fun s h ↦ (hx s).trans h

end Front

/-! ## Runs -/

/-- The storage after requests that were sent to some ports. -/
def serve (backend : Backend Storage) (requests : List (ℤ × Json)) (s : Storage) : Storage :=
  requests.foldl (fun s request ↦ (execute backend request.1 request.2 s).2) s

def plainTelling : Telling := ⟨fun m ↦ m.mentions.map Prod.fst, fun _ ↦ .refl _⟩

theorem outside_silentBackend : Outside silentBackend where
  now _ := rfl
  nowMillis _ := rfl
  getActiveUserId _ _ _ := rfl
  getActiveUserIdChecked _ _ _ := rfl
  getUserHandle _ _ := rfl
  hashCanvasPassword _ _ := rfl
  isCanvasAssignedToServer _ _ := rfl
  isCanvasAccessAuthorized _ _ _ _ := rfl
  loadForQuery _ _ := rfl
  getCanvas _ _ := rfl
  touchQuery _ _ := rfl
  setSettingsRevision _ _ _ := rfl
  patchCanvasFields _ _ _ := rfl

end Agora
