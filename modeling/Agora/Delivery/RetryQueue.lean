import Mathlib.Data.List.Perm.Basic
import Mathlib.Data.List.Perm.Subperm
import Mathlib.Algebra.Order.Group.Multiset
import Mathlib.Logic.Function.Iterate
import Mathlib.Logic.Relation
import Mathlib.Tactic.Abel

/-!
# Bounded queues with retries

Items wait in a bounded queue. A sender takes a batch from the front and delivers it, or puts it
back in front, the last item first; what there is no room for then is shed from the end, so that
newer items give way to older ones. Others push meanwhile, also while a batch is being put back.

The state keeps the whole history beside the queue. The order of the items is the invariant: what
was delivered, the batch that is on its way and the queue are, one after the other, items in the
order they came (`Run.sublist`), and together with what was dropped they are all of them
(`Run.perm`).
-/

namespace RetryQueue

variable {α : Type*}

/-! ## Histories -/

/-- A queue with the batch that is on its way, and all items by what became of them. -/
structure State (α : Type*) where
  queue : List α := []
  batch : List α := []
  delivered : List α := []
  dropped : List α := []
  /-- All items, as they came. -/
  recorded : List α := []

/-- What happens to a queue. -/
inductive Step (capacity : ℕ) : State α → State α → Prop where
  | push (s : State α) (x : α) (hroom : s.queue.length < capacity) :
      Step capacity s { s with queue := s.queue ++ [x], recorded := s.recorded ++ [x] }
  | refuse (s : State α) (x : α) :
      Step capacity s { s with dropped := s.dropped ++ [x], recorded := s.recorded ++ [x] }
  | take (s : State α) (n : ℕ) (hidle : s.batch = []) :
      Step capacity s { s with batch := s.queue.take n, queue := s.queue.drop n }
  | deliver (s : State α) :
      Step capacity s { s with delivered := s.delivered ++ s.batch, batch := [] }
  | restore (s : State α) (batch : List α) (x : α) (hbatch : s.batch = batch ++ [x])
      (hroom : s.queue.length < capacity) :
      Step capacity s { s with batch := batch, queue := x :: s.queue }
  | shed (s : State α) (n : ℕ) :
      Step capacity s
        { s with queue := s.queue.take n, dropped := s.dropped ++ s.queue.drop n }
  | giveUp (s : State α) : Step capacity s { s with batch := [], dropped := s.dropped ++ s.batch }

/-- Steps one after the other. -/
abbrev Steps (capacity : ℕ) : State α → State α → Prop := Relation.ReflTransGen (Step capacity)

/-- Steps one after the other, from an empty queue. -/
def Run (capacity : ℕ) : State α → Prop := Steps capacity {}

variable {capacity : ℕ} {s t : State α}

/-! ## Invariants -/

theorem Step.length_le (h : Step capacity s t) (hs : s.queue.length ≤ capacity) :
    t.queue.length ≤ capacity := by
  cases h with
  | push x hroom =>
    rw [List.length_append, List.length_singleton]
    exact hroom
  | refuse => exact hs
  | take n => exact (List.drop_sublist n _).length_le.trans hs
  | deliver => exact hs
  | restore batch x hbatch hroom => exact hroom
  | shed n => exact (List.take_sublist n _).length_le.trans hs
  | giveUp => exact hs

/-- Everything that has not been dropped, in the order it came. -/
def State.kept (s : State α) : List α := s.delivered ++ (s.batch ++ s.queue)

theorem Step.sublist (h : Step capacity s t) (hs : s.kept.Sublist s.recorded) :
    t.kept.Sublist t.recorded := by
  cases h with
  | push x hroom =>
    have hpushed := hs.append_right [x]
    rw [State.kept, List.append_assoc, List.append_assoc] at hpushed
    exact hpushed
  | refuse x => exact hs.trans (List.sublist_append_left _ _)
  | take n hidle =>
    rw [State.kept, hidle, List.nil_append] at hs
    rw [State.kept, List.take_append_drop]
    exact hs
  | deliver =>
    rw [State.kept, List.nil_append, List.append_assoc]
    exact hs
  | restore batch x hbatch hroom =>
    -- The item moves over the border between the batch and the queue.
    rw [State.kept, hbatch, List.append_assoc, List.singleton_append] at hs
    exact hs
  | shed n =>
    refine List.Sublist.trans ?_ hs
    exact ((List.take_sublist _ _).append_left _).append_left _
  | giveUp =>
    refine List.Sublist.trans ?_ hs
    exact (List.sublist_append_right _ _).append_left _

/-- Every item is in one place. -/
theorem Step.perm (h : Step capacity s t) (hs : s.recorded.Perm (s.kept ++ s.dropped)) :
    t.recorded.Perm (t.kept ++ t.dropped) := by
  have hcount : (s.recorded : Multiset α) = s.delivered + (s.batch + s.queue) + s.dropped := by
    rw [Multiset.coe_eq_coe.mpr hs, State.kept, ← Multiset.coe_add, ← Multiset.coe_add,
      ← Multiset.coe_add]
  rw [← Multiset.coe_eq_coe, State.kept, ← Multiset.coe_add, ← Multiset.coe_add,
    ← Multiset.coe_add]
  cases h with
  | push x hroom =>
    simp only [← Multiset.coe_add, hcount]
    abel
  | refuse x =>
    simp only [← Multiset.coe_add, hcount]
    abel
  | take n hidle =>
    have hsplit : (s.queue : Multiset α) = s.queue.take n + s.queue.drop n := by
      rw [Multiset.coe_add, List.take_append_drop]
    rw [hcount, hidle, hsplit]
    simp
  | deliver =>
    simp only [← Multiset.coe_add, hcount, Multiset.coe_nil]
    abel
  | restore batch x hbatch hroom =>
    have hcons : ((x :: s.queue : List α) : Multiset α) = [x] + s.queue := by
      rw [Multiset.coe_add, List.singleton_append]
    rw [hcount, hbatch, hcons, ← Multiset.coe_add]
    abel
  | shed n =>
    have hsplit : (s.queue : Multiset α) = s.queue.take n + s.queue.drop n := by
      rw [Multiset.coe_add, List.take_append_drop]
    rw [hcount, hsplit, ← Multiset.coe_add]
    abel
  | giveUp =>
    simp only [← Multiset.coe_add, hcount, Multiset.coe_nil]
    abel

/-- Nothing that was recorded is forgotten. -/
theorem Step.recorded_prefix (h : Step capacity s t) : s.recorded <+: t.recorded := by
  cases h with
  | push x hroom => exact List.prefix_append _ _
  | refuse x => exact List.prefix_append _ _
  | _ => exact List.prefix_refl _

theorem Steps.recorded_prefix (h : Steps capacity s t) : s.recorded <+: t.recorded := by
  induction h with
  | refl => exact List.prefix_refl _
  | tail h hstep ih => exact ih.trans hstep.recorded_prefix

theorem Run.length_le (h : Run capacity s) : s.queue.length ≤ capacity := by
  induction h with
  | refl => exact Nat.zero_le _
  | tail h hstep ih => exact hstep.length_le ih

/-- **Order.** What was delivered, what is on its way and what waits came in this order. -/
theorem Run.sublist (h : Run capacity s) : s.kept.Sublist s.recorded := by
  induction h with
  | refl => exact List.Sublist.slnil
  | tail h hstep ih => exact hstep.sublist ih

/-- **Nothing is lost or doubled.** Every item is delivered, on its way, waiting or dropped. -/
theorem Run.perm (h : Run capacity s) : s.recorded.Perm (s.kept ++ s.dropped) := by
  induction h with
  | refl => exact List.Perm.refl _
  | tail h hstep ih => exact hstep.perm ih

end RetryQueue
