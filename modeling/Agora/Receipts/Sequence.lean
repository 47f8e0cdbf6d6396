import Mathlib.Data.List.Basic
import Mathlib.Logic.Function.Basic
import Mathlib.Tactic.Common
import Mathlib.Data.Int.Basic

/-!
# Numbered requests

Clients number their requests, and a server accepts a request of a client only when its number
follows the last one it accepted from that client. Whatever else the server does in between, and
however the requests of the clients are interleaved, what it has accepted from a client is then an
interval of numbers, each of them once (`Sequenced.accepted_eq`).
-/

namespace Receipts

variable {κ : Type*} [DecidableEq κ]

/-- The numbers accepted from a client, in the order of a log. -/
def accepted (k : κ) (log : List (κ × ℤ)) : List ℤ :=
  (log.filter fun e ↦ e.1 = k).map Prod.snd

/-- A log in which every request follows the last one of its client. -/
inductive Sequenced (start : κ → ℤ) : List (κ × ℤ) → (κ → ℤ) → Prop
  | nil : Sequenced start [] start
  | snoc {log : List (κ × ℤ)} {last : κ → ℤ} (h : Sequenced start log last) (k : κ) :
      Sequenced start (log ++ [(k, last k + 1)]) (Function.update last k (last k + 1))

/-- The interval of so many numbers after `n`. -/
def following (n : ℤ) (length : ℕ) : List ℤ := (List.range length).map fun i : ℕ ↦ n + 1 + i

theorem following_succ (n : ℤ) (length : ℕ) :
    following n (length + 1) = following n length ++ [n + 1 + length] := by
  simp [following, List.range_succ]

theorem mem_following {n m : ℤ} {length : ℕ} :
    m ∈ following n length ↔ n < m ∧ m ≤ n + length := by
  rw [following, List.mem_map]
  constructor
  · rintro ⟨i, hi, rfl⟩
    rw [List.mem_range] at hi
    omega
  · rintro ⟨hlow, hhigh⟩
    exact ⟨(m - n - 1).toNat, List.mem_range.mpr (by omega), by omega⟩

theorem following_append (n : ℤ) (length length' : ℕ) :
    following n (length + length') = following n length ++ following (n + length) length' := by
  induction length' with
  | zero => simp [following]
  | succ length' ih =>
    rw [← Nat.add_assoc, following_succ, ih, following_succ, List.append_assoc]
    congr 3
    omega

theorem accepted_snoc (k k' : κ) (n : ℤ) (log : List (κ × ℤ)) :
    accepted k (log ++ [(k', n)]) = accepted k log ++ if k' = k then [n] else [] := by
  rw [accepted, List.filter_append, List.map_append]
  split
  · next h => simp [accepted, h]
  · next h => simp [accepted, h]

/-- **Exactly once.** The numbers accepted from a client are those that follow the last number
from before, up to its last number now. -/
theorem Sequenced.accepted_eq {start last : κ → ℤ} {log : List (κ × ℤ)}
    (h : Sequenced start log last) (k : κ) :
    ∃ length : ℕ, accepted k log = following (start k) length ∧ last k = start k + length := by
  induction h with
  | nil => exact ⟨0, rfl, by simp⟩
  | @snoc log last _ k' ih =>
    obtain ⟨length, hlog, hlast⟩ := ih
    by_cases hk : k' = k
    · subst hk
      refine ⟨length + 1, ?_, ?_⟩
      · rw [accepted_snoc, if_pos rfl, hlog, following_succ, hlast]
        congr 2
        omega
      · rw [Function.update_self, hlast]
        omega
    · refine ⟨length, ?_, ?_⟩
      · rw [accepted_snoc, if_neg hk, List.append_nil, hlog]
      · rw [Function.update_of_ne (Ne.symm hk), hlast]

end Receipts
