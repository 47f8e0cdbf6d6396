import Mathlib.Algebra.Order.Group.Nat
import Mathlib.Data.List.Basic
import Mathlib.Data.Nat.Init

/-!
# Reading a stream in pieces

What the peer sends arrives in pieces, with stalls between them: a read takes at most what it
asks for, and no more than one piece; at a stall, and at the end, it takes nothing. Whatever the
pieces are, what has been read and what is left are together what was there.
-/

namespace Transport

/-- What one read meets: some bytes, or a timeout or an error. -/
inductive Arrival (α : Type*) where
  | data (bytes : List α)
  | stall

/-- What is still to arrive; after the last piece the stream has ended. -/
abbrev Stream (α : Type*) := List (Arrival α)

variable {α : Type*}

namespace Stream

def bytes : Stream α → List α
  | [] => []
  | .stall :: t => bytes t
  | .data b :: t => b ++ bytes t

/-- A measure that every read which takes something makes smaller. -/
def size : Stream α → ℕ
  | [] => 0
  | .stall :: t => size t + 1
  | .data b :: t => b.length + 1 + size t

/-- One read of at most `n` bytes, which is empty when the read fails. -/
def read (n : ℕ) : Stream α → List α × Stream α
  | [] => ([], [])
  | .stall :: t => ([], t)
  | .data b :: t => (b.take n, if b.length ≤ n then t else .data (b.drop n) :: t)

theorem read_bytes (n : ℕ) (t : Stream α) : (t.read n).1 ++ (t.read n).2.bytes = t.bytes := by
  match t with
  | [] => rfl
  | .stall :: t => rfl
  | .data b :: t =>
    rw [read]
    dsimp only
    split
    · next h => rw [List.take_of_length_le h, bytes]
    · rw [bytes, bytes, ← List.append_assoc, List.take_append_drop]

theorem length_read_le (n : ℕ) (t : Stream α) : (t.read n).1.length ≤ n := by
  match t with
  | [] => exact Nat.zero_le n
  | .stall :: t => exact Nat.zero_le n
  | .data b :: t => exact List.length_take_le n b

theorem size_read_add_le (n : ℕ) (t : Stream α) :
    (t.read n).2.size + (t.read n).1.length ≤ t.size := by
  match t with
  | [] => exact le_refl 0
  | .stall :: t => exact Nat.le_succ _
  | .data b :: t =>
    rw [read]
    dsimp only
    split
    · rw [size, List.length_take]
      omega
    · rw [size, size, List.length_take, List.length_drop]
      omega

theorem size_read_le (n : ℕ) (t : Stream α) : (t.read n).2.size ≤ t.size :=
  (Nat.le_add_right _ _).trans (size_read_add_le n t)

/-- Read until there are `n` bytes or a read fails. -/
def readExact (n : ℕ) (t : Stream α) : List α × Stream α :=
  if n = 0 then ([], t)
  else
    match (t.read n).1 with
    | [] => ([], (t.read n).2)
    | b :: bs =>
      let more := readExact (n - (bs.length + 1)) (t.read n).2
      (b :: bs ++ more.1, more.2)
termination_by n
decreasing_by omega

theorem readExact_zero (t : Stream α) : t.readExact 0 = ([], t) := by
  rw [readExact, if_pos rfl]

theorem readExact_fail {n : ℕ} {t : Stream α} (hn : n ≠ 0) (h : (t.read n).1 = []) :
    t.readExact n = ([], (t.read n).2) := by
  rw [readExact, if_neg hn, h]

theorem readExact_more {n : ℕ} {t : Stream α} (hn : n ≠ 0) (h : (t.read n).1 ≠ []) :
    t.readExact n = ((t.read n).1 ++ ((t.read n).2.readExact (n - (t.read n).1.length)).1,
      ((t.read n).2.readExact (n - (t.read n).1.length)).2) := by
  obtain ⟨b, bs, hread⟩ := List.exists_cons_of_ne_nil h
  rw [readExact, if_neg hn, hread]
  rfl

/-- What holds of reading nothing, of a read that fails and of a read that goes on holds of
reading an exact number of bytes. -/
theorem readExact_induction {motive : ℕ → Stream α → Prop} (zero : ∀ t, motive 0 t)
    (fail : ∀ n t, n ≠ 0 → (Stream.read n t).1 = [] → motive n t)
    (more : ∀ n t, n ≠ 0 → (Stream.read n t).1 ≠ [] →
      motive (n - (Stream.read n t).1.length) (Stream.read n t).2 → motive n t)
    (n : ℕ) (t : Stream α) : motive n t := by
  induction n using Nat.strongRecOn generalizing t with
  | _ n ih =>
    by_cases hn : n = 0
    · exact hn ▸ zero t
    by_cases hread : (t.read n).1 = []
    · exact fail n t hn hread
    · have hpos := List.length_pos_of_ne_nil hread
      exact more n t hn hread (ih _ (by omega) _)

theorem readExact_bytes (n : ℕ) (t : Stream α) :
    (t.readExact n).1 ++ (t.readExact n).2.bytes = t.bytes := by
  induction n, t using readExact_induction with
  | zero t => rw [readExact_zero, List.nil_append]
  | fail n t hn h =>
    rw [readExact_fail hn h, ← read_bytes n t, h]
  | more n t hn h ih => rw [readExact_more hn h, List.append_assoc, ih, read_bytes]

theorem size_readExact_le (n : ℕ) (t : Stream α) : (t.readExact n).2.size ≤ t.size := by
  induction n, t using readExact_induction with
  | zero t => rw [readExact_zero]
  | fail n t hn h => rw [readExact_fail hn h]; exact size_read_le n t
  | more n t hn h ih =>
    rw [readExact_more hn h]
    exact ih.trans (size_read_le n t)

/-- What was read is the beginning of what was to come, when all of it was read. -/
theorem of_readExact {n : ℕ} {t : Stream α} (h : (t.readExact n).1.length = n)
    {lost expected following : List α} (hlength : expected.length = n)
    (hbytes : t.bytes ++ lost = expected ++ following) :
    (t.readExact n).1 = expected ∧ (t.readExact n).2.bytes ++ lost = following := by
  rw [← readExact_bytes n t, List.append_assoc] at hbytes
  exact List.append_inj hbytes (h.trans hlength.symm)

/-! ## Streams without stalls -/

/-- Nothing but bytes arrives. -/
def Steady (t : Stream α) : Prop := ∀ a ∈ t, ∃ b, b ≠ [] ∧ a = .data b

theorem Steady.read {t : Stream α} (h : Steady t) (n : ℕ) : Steady (t.read n).2 := by
  match t with
  | [] => exact h
  | .stall :: t => exact (List.forall_mem_cons.mp h).2
  | .data b :: t =>
    rw [Stream.read]
    dsimp only
    split
    · exact (List.forall_mem_cons.mp h).2
    · next hlt =>
      refine List.forall_mem_cons.mpr ⟨⟨_, fun hnil ↦ hlt ?_, rfl⟩, (List.forall_mem_cons.mp h).2⟩
      exact List.drop_eq_nil_iff.mp hnil

theorem Steady.read_ne_nil {t : Stream α} (h : Steady t) {n : ℕ} (hn : n ≠ 0)
    (hbytes : t.bytes ≠ []) : (t.read n).1 ≠ [] := by
  match t with
  | [] => exact absurd rfl hbytes
  | .stall :: t =>
    obtain ⟨b, -, hb⟩ := h _ List.mem_cons_self
    nomatch hb
  | .data b :: t =>
    obtain ⟨_, hne, heq⟩ := h _ List.mem_cons_self
    cases heq
    rw [Stream.read, ne_eq, List.take_eq_nil_iff, not_or]
    exact ⟨hn, hne⟩

theorem Steady.readExact {t : Stream α} (h : Steady t) (n : ℕ) : Steady (t.readExact n).2 := by
  induction n, t using readExact_induction with
  | zero t => rw [readExact_zero]; exact h
  | fail n t hn hfail => rw [readExact_fail hn hfail]; exact h.read n
  | more n t hn hread ih => rw [readExact_more hn hread]; exact ih (h.read n)

/-- All that is asked for is read, when it is there. -/
theorem Steady.length_readExact {t : Stream α} (h : Steady t) {n : ℕ} (hn : n ≤ t.bytes.length) :
    (t.readExact n).1.length = n := by
  induction n, t using readExact_induction with
  | zero t => rw [readExact_zero]; rfl
  | fail n t hpos hfail =>
    refine absurd hfail (h.read_ne_nil hpos fun hnil ↦ hpos ?_)
    rw [hnil, List.length_nil] at hn
    omega
  | more n t hpos hread ih =>
    have hle := length_read_le n t
    have hlength := congrArg List.length (read_bytes n t)
    rw [List.length_append] at hlength
    have hrest := ih (h.read n) (by omega)
    rw [readExact_more hpos hread, List.length_append]
    omega

end Stream

end Transport
